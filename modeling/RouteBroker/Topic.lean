/-
# Topics

`route_topic` writes the text under which a route is stored from the fields and attributes
of its message, through `mroute_topic` and `mplsroute_topic` for multicast and MPLS
routes.  The functions of libmnl and `inet_ntop` follow their documented behaviour:
`mnl_attr_parse` visits attributes while the header fits and the length is at least 4 and
at most what is left of the message; `mnl_attr_get_payload` and `mnl_attr_get_u32` do not
look at the length; `inet_ntop` reads 4 bytes for `AF_INET` and 16 for `AF_INET6`.  The
text that `inet_ntop` writes is a parameter.

They are modelled as programs that read the memory from the message on, which starts at
address 0: what lies behind the message can be read, too.  A value is read from the last
attribute of its type, and nobody compares its size with the length of the attribute or of
the message; `ValuesFit` says that all values that are read lie in the message.

Main result: `topic_reads_fit_iff`.
-/
import RouteBroker.Reader
import RouteBroker.Text
import RouteBroker.Netlink

/-! ## Constants -/

def afInet6 : UInt8 := 10
def afMpls : UInt8 := 28
def rtnlFamilyIpmr : UInt8 := 128
def rtnlFamilyIp6mr : UInt8 := 129
def rtnBroadcast : UInt8 := 3
def rtnMulticast : UInt8 := 5
def rtTableLocal : UInt8 := 255
def rtmFCloned : ℕ := 0x200
def rtaDst : ℕ := 1
def rtaSrc : ℕ := 2
def rtaIif : ℕ := 3
def rtaOif : ℕ := 4
def rtaTable : ℕ := 15
def rtaMax : ℕ := 30

/-- `ROUTE_TOPIC_LEN` -/
def routeTopicLen : ℕ := 204

/-! ## Attributes -/

/-- What `inet_ntop` writes for IPv4 and IPv6 addresses. -/
structure Ntop where
  v4 : List UInt8 → Text
  v6 : List UInt8 → Text

/-- `tb`, the addresses of the attributes by type. -/
abbrev AttrTable := ℕ → Option ℕ

/-- `route_attr`: the last attribute of a type wins. -/
def routeAttr (tb : AttrTable) (type attr : ℕ) : AttrTable :=
  if type ≤ rtaMax then Function.update tb type (some attr) else tb

/-- The loop of `mnl_attr_parse` from the attribute at `attr` on, in a message that ends at
`tail`. -/
def attrLoop (o : ByteOrder) (tail : ℕ) : ℕ → ℕ → AttrTable → Reader AttrTable
  | 0, _, tb => return tb
  | fuel + 1, attr, tb =>
    if tail < attr + 4 then return tb
    else do
      let len ← Reader.u16 o attr
      if len < 4 ∨ tail < attr + len then return tb
      else do
        let type ← Reader.u16 o (attr + 2)
        attrLoop o tail fuel (attr + (len + 3) / 4 * 4) (routeAttr tb (type &&& 0x3fff) attr)

/-- `mnl_attr_parse(nlh, sizeof(struct rtmsg), route_attr, tb)` with an empty `tb`. -/
def attrParse (o : ByteOrder) : Reader AttrTable := do
  let len ← Reader.u32 o 0
  attrLoop o len len rtmsgLength fun _ => none

/-- `mnl_attr_get_u32` if there is such an attribute, else a default. -/
def attrU32 (o : ByteOrder) (attr : Option ℕ) (default : ℕ) : Reader ℕ :=
  match attr with
  | none => return default
  | some a => Reader.u32 o (a + 4)

/-- `n` bytes of the payload of the attribute, or of `anyaddr`. -/
def attrBytes (attr : Option ℕ) (n : ℕ) : Reader (List UInt8) :=
  match attr with
  | none => return List.replicate n 0
  | some a => Reader.bytes (a + 4) n

/-- `inet_ntop` of an address in an attribute or of `anyaddr`; `NULL` for other families. -/
def inetNtop (ntop : Ntop) (af : UInt8) (attr : Option ℕ) : Reader (Option Text) :=
  if af = afInet then do
    let b ← attrBytes attr 4
    return some (ntop.v4 b)
  else if af = afInet6 then do
    let b ← attrBytes attr 16
    return some (ntop.v6 b)
  else return none

/-- The family that `mroute_ntop` passes on, any unknown one for `NULL`. -/
def mrouteFamily (af : UInt8) : UInt8 :=
  if af = rtnlFamilyIpmr then afInet else if af = rtnlFamilyIp6mr then afInet6 else 0

/-- `mroute_ntop` -/
def mrouteNtop (ntop : Ntop) (af : UInt8) (attr : Option ℕ) : Reader (Option Text) :=
  inetNtop ntop (mrouteFamily af) attr

/-! ## `route_topic` -/

/-- The text of a unicast route. -/
def unicastText (dest : Option Text) (dstLen scope : UInt8) (tableid : ℕ) : Text :=
  ['r', ' '] ++ orNull dest ++ '/' :: decimal dstLen.toNat ++ ' ' :: decimal scope.toNat
    ++ ' ' :: decimal tableid

/-- The text of a multicast route. -/
def mrouteText (iif oif : ℕ) (group : Option Text) (dstLen : UInt8) (origin : Option Text)
    (srcLen : UInt8) (tableid : ℕ) : Text :=
  ['r', 'o', 'u', 't', 'e', ' '] ++ signed iif ++ ' ' :: signed oif ++ ' ' :: orNull group
    ++ '/' :: decimal dstLen.toNat ++ ' ' :: orNull origin ++ '/' :: decimal srcLen.toNat
    ++ ' ' :: decimal tableid

/-- The text of an MPLS route. -/
def mplsText (label : ℕ) : Text :=
  ['r', 'o', 'u', 't', 'e', '-', 'm', 'p', 'l', 's', ' '] ++ decimal label

/-- `mpls_ls_get_label` of the number with the bytes `ls`: `MPLS_LS_LABEL_MASK` is
`0xFFFFF000`, and `MPLS_LS_LABEL_SHIFT` is 12. -/
def mplsLsGetLabel (ls : List UInt8) : ℕ := load32 .big (memOf ls) 0 / 2 ^ 12

/-- `mroute_topic` -/
def mrouteTopic (o : ByteOrder) (ntop : Ntop) (len : ℕ) : Reader (ℤ × Text) := do
  let table ← Reader.u8 20
  if table = rtTableLocal then return (-1, [])
  else do
    let tb ← attrParse o
    let ifindex ← attrU32 o (tb rtaIif) 0
    let oifindex ← attrU32 o (tb rtaOif) 0
    let tableid ← attrU32 o (tb rtaTable) table.toNat
    let family ← Reader.u8 16
    let b1 ← mrouteNtop ntop family (tb rtaDst)
    let dstLen ← Reader.u8 17
    let b2 ← mrouteNtop ntop family (tb rtaSrc)
    let srcLen ← Reader.u8 18
    return snprintf len (mrouteText ifindex oifindex b1 dstLen b2 srcLen tableid)

/-- `mplsroute_topic` -/
def mplsrouteTopic (o : ByteOrder) (len : ℕ) : Reader (ℤ × Text) := do
  let tb ← attrParse o
  match tb rtaDst with
  | none => return (-1, [])
  | some a => do
    let inLabel ← Reader.bytes (a + 4) 4
    return snprintf len (mplsText (mplsLsGetLabel inLabel))

/-- The part of `route_topic` after the type of the message is known, in a build with
`RTNLGRP_MPLS_ROUTE` and without `RTNLGRP_RTDMN`. -/
def topicText (o : ByteOrder) (ntop : Ntop) (len : ℕ) : Reader (ℤ × Text) := do
  let family ← Reader.u8 16
  if family = afMpls then mplsrouteTopic o len
  else do
    let type ← Reader.u8 23
    if type = rtnMulticast then mrouteTopic o ntop len
    else if type = rtnBroadcast then return (-1, [])
    else do
      let flags ← Reader.u32 o 24
      -- Ignore cached host routes
      if flags &&& rtmFCloned ≠ 0 then return (-1, [])
      else do
        let tb ← attrParse o
        let table ← Reader.u8 20
        let tableid ← attrU32 o (tb rtaTable) table.toNat
        let b1 ← inetNtop ntop family (tb rtaDst)
        let dstLen ← Reader.u8 17
        let scope ← Reader.u8 22
        return snprintf len (unicastText b1 dstLen scope tableid)

/-- `route_topic(obj, buf, len, &del)` of the message at address 0: the result, the text in
`buf`, which is empty before, and `del`. -/
def routeTopic (o : ByteOrder) (ntop : Ntop) (len : ℕ) : Reader (ℤ × Text × Bool) := do
  let type ← Reader.u16 o 4
  if type = rtmNewroute then do
    let r ← topicText o ntop len
    return (r.1, r.2, false)
  else if type = rtmDelroute then do
    let r ← topicText o ntop len
    return (r.1, r.2, true)
  else return (-1, [], false)

/-! ## The attributes of a message -/

section Attributes

variable (o : ByteOrder) (m : Mem)

/-- The addresses of the attributes that `mnl_attr_parse` visits from `attr` on. -/
def attrsFrom (tail : ℕ) : ℕ → ℕ → List ℕ
  | 0, _ => []
  | fuel + 1, attr =>
    if tail < attr + 4 ∨ load16 o m attr < 4 ∨ tail < attr + load16 o m attr then []
    else attr :: attrsFrom tail fuel (attr + (load16 o m attr + 3) / 4 * 4)

/-- The attributes of the message at address 0. -/
def attrs : List ℕ := attrsFrom o m (nlmsgLen o m 0) (nlmsgLen o m 0) rtmsgLength

/-- `mnl_attr_get_type` -/
def attrType (attr : ℕ) : ℕ := load16 o m (attr + 2) &&& 0x3fff

/-- The last attribute of a type. -/
def lastAttr (type : ℕ) : Option ℕ :=
  ((attrs o m).filter fun a => attrType o m a = type).getLast?

end Attributes

section Parse

variable {o : ByteOrder} {m : Mem} {tail : ℕ}

/-- The loop is over before the fuel is. -/
theorem attrLoop_fuel {fuel attr : ℕ} (tb : AttrTable) (h : tail < attr + 4 * fuel + 4) :
    (attrLoop o tail (fuel + 1) attr tb).run m = (attrLoop o tail fuel attr tb).run m := by
  induction fuel generalizing attr tb with
  | zero =>
    have hstop : tail < attr + 4 := by omega
    show (attrLoop o tail 1 attr tb).run m = tb
    rw [attrLoop, if_pos hstop]
    rfl
  | succ fuel ih =>
    rw [attrLoop, attrLoop]
    by_cases hhdr : tail < attr + 4
    · rw [if_pos hhdr, if_pos hhdr]
    · rw [if_neg hhdr, if_neg hhdr, Reader.run_bind, Reader.run_bind, Reader.run_u16]
      by_cases hlen : load16 o m attr < 4 ∨ tail < attr + load16 o m attr
      · rw [if_pos hlen, if_pos hlen]
      · rw [if_neg hlen, if_neg hlen, Reader.run_bind, Reader.run_bind]
        apply ih
        omega

/-- The loop stores the attributes one after the other. -/
theorem run_attrLoop (fuel attr : ℕ) (tb : AttrTable) :
    (attrLoop o tail fuel attr tb).run m =
      (attrsFrom o m tail fuel attr).foldl (fun tb a => routeAttr tb (attrType o m a) a) tb := by
  induction fuel generalizing attr tb with
  | zero => rfl
  | succ fuel ih =>
    rw [attrLoop, attrsFrom]
    by_cases hhdr : tail < attr + 4
    · rw [if_pos hhdr, if_pos (.inl hhdr)]
      rfl
    · rw [if_neg hhdr, Reader.run_bind, Reader.run_u16]
      by_cases hlen : load16 o m attr < 4 ∨ tail < attr + load16 o m attr
      · rw [if_pos hlen, if_pos (.inr hlen)]
        rfl
      · rw [if_neg hlen, if_neg (by omega), Reader.run_bind, Reader.run_u16, ih]
        rfl

theorem within_attrLoop (fuel attr : ℕ) (tb : AttrTable) :
    (attrLoop o tail fuel attr tb).Within m tail := by
  induction fuel generalizing attr tb with
  | zero => exact Reader.within_pure m tail tb
  | succ fuel ih =>
    rw [attrLoop]
    by_cases hhdr : tail < attr + 4
    · rw [if_pos hhdr]
      exact Reader.within_pure m tail tb
    · rw [if_neg hhdr, Reader.within_bind, Reader.within_u16]
      refine ⟨by omega, ?_⟩
      split_ifs
      · exact Reader.within_pure m tail tb
      · rw [Reader.within_bind, Reader.within_u16]
        exact ⟨by omega, ih _ _⟩

/-- What is visited lies in the message. -/
theorem mem_attrsFrom {fuel attr a : ℕ} (h : a ∈ attrsFrom o m tail fuel attr) :
    4 ≤ load16 o m a ∧ a + load16 o m a ≤ tail := by
  induction fuel generalizing attr with
  | zero => cases h
  | succ fuel ih =>
    rw [attrsFrom] at h
    split_ifs at h with hstop
    · cases h
    · rcases List.mem_cons.mp h with rfl | h
      · omega
      · exact ih h

/-- The last attribute of a type wins. -/
theorem foldl_routeAttr {type : ℕ} (htype : type ≤ rtaMax) (as : List ℕ) (tb : AttrTable) :
    as.foldl (fun tb a => routeAttr tb (attrType o m a) a) tb type =
      ((as.filter fun a => attrType o m a = type).getLast?).or (tb type) := by
  induction as generalizing tb with
  | nil => rfl
  | cons a as ih =>
    rw [List.foldl_cons, ih]
    by_cases ha : attrType o m a = type
    · have hset : routeAttr tb (attrType o m a) a type = some a := by
        rw [ha, routeAttr, if_pos htype, Function.update_self]
      rw [hset, List.filter_cons_of_pos (by simpa using ha), List.getLast?_cons]
      cases (as.filter fun a => attrType o m a = type).getLast? with
      | none => rfl
      | some b => rfl
    · have hkeep : routeAttr tb (attrType o m a) a type = tb type := by
        rw [routeAttr]
        split_ifs
        · exact Function.update_of_ne (Ne.symm ha) _ _
        · rfl
      rw [hkeep, List.filter_cons_of_neg (by simpa using ha)]

theorem run_attrParse {type : ℕ} (htype : type ≤ rtaMax) :
    (attrParse o).run m type = lastAttr o m type := by
  rw [attrParse, Reader.run_bind, run_attrLoop, foldl_routeAttr htype, Option.or_none]
  rfl

theorem within_attrParse (h : rtmsgLength ≤ nlmsgLen o m 0) :
    (attrParse o).Within m (nlmsgLen o m 0) := by
  have hlen : rtmsgLength = 28 := rfl
  rw [attrParse, Reader.within_bind, Reader.within_u32]
  refine ⟨by omega, ?_⟩
  exact within_attrLoop _ _ _

theorem lastAttr_fits {type a : ℕ} (h : lastAttr o m type = some a) :
    4 ≤ load16 o m a ∧ a + load16 o m a ≤ nlmsgLen o m 0 :=
  mem_attrsFrom (List.mem_of_mem_filter (List.mem_of_getLast? h))

end Parse

/-! ## What is read -/

/-- How many bytes `inet_ntop` reads. -/
def addrWidth (af : UInt8) : ℕ := if af = afInet then 4 else if af = afInet6 then 16 else 0

section Values

variable (o : ByteOrder) (m : Mem)

/-- `rtm_flags` of the message at address 0 -/
def rtmFlags : ℕ := load32 o m 24

/-- The attributes that the topic of the message is made from, with the sizes of the
values that are read from them. -/
def valuesRead : List (Option ℕ × ℕ) :=
  if rtmFamily m 0 = afMpls then [(lastAttr o m rtaDst, 4)]
  else if rtmType m 0 = rtnMulticast then
    if rtmTable m 0 = rtTableLocal then []
    else [(lastAttr o m rtaIif, 4), (lastAttr o m rtaOif, 4), (lastAttr o m rtaTable, 4),
      (lastAttr o m rtaDst, addrWidth (mrouteFamily (rtmFamily m 0))),
      (lastAttr o m rtaSrc, addrWidth (mrouteFamily (rtmFamily m 0)))]
  else if rtmType m 0 = rtnBroadcast ∨ rtmFlags o m &&& rtmFCloned ≠ 0 then []
  else [(lastAttr o m rtaTable, 4), (lastAttr o m rtaDst, addrWidth (rtmFamily m 0))]

/-- A value of `n` bytes in the attribute, if there is one, lies below the address `tail`. -/
def ValueFits (tail : ℕ) (attr : Option ℕ) (n : ℕ) : Prop := ∀ a ∈ attr, a + 4 + n ≤ tail

/-- All values that the topic is made from lie in the message. -/
def ValuesFit : Prop := ∀ v ∈ valuesRead o m, ValueFits (nlmsgLen o m 0) v.1 v.2

end Values

section Fit

variable {o : ByteOrder} {m : Mem} {ntop : Ntop} {tail : ℕ} {attr : Option ℕ}

@[simp] theorem valueFits_none (n : ℕ) : ValueFits tail none n := by
  intro a ha
  cases ha

@[simp] theorem valueFits_some (a n : ℕ) : ValueFits tail (some a) n ↔ a + 4 + n ≤ tail := by
  constructor
  · intro h
    exact h a rfl
  · rintro h b ⟨⟩
    exact h

theorem within_attrU32 (default : ℕ) :
    (attrU32 o attr default).Within m tail ↔ ValueFits tail attr 4 := by
  cases attr with
  | none => exact iff_of_true (Reader.within_pure m tail default) (valueFits_none 4)
  | some a => rw [attrU32, Reader.within_u32, valueFits_some]

theorem within_attrBytes (h : ValueFits tail attr 0) (n : ℕ) :
    (attrBytes attr n).Within m tail ↔ ValueFits tail attr n := by
  cases attr with
  | none => exact iff_of_true (Reader.within_pure m tail _) (valueFits_none n)
  | some a => rw [attrBytes, Reader.within_bytes m n (h a rfl), valueFits_some]

theorem within_inetNtop (h : ValueFits tail attr 0) (af : UInt8) :
    (inetNtop ntop af attr).Within m tail ↔ ValueFits tail attr (addrWidth af) := by
  unfold inetNtop addrWidth
  split_ifs
  · rw [Reader.within_bind, within_attrBytes h]
    exact and_iff_left (Reader.within_pure m tail _)
  · rw [Reader.within_bind, within_attrBytes h]
    exact and_iff_left (Reader.within_pure m tail _)
  · exact iff_of_true (Reader.within_pure m tail _) h

theorem valueFits_lastAttr (type : ℕ) : ValueFits (nlmsgLen o m 0) (lastAttr o m type) 0 := by
  intro a ha
  have hfits := lastAttr_fits ha
  omega

/-- The reads of the header do not matter in a message that is long enough. -/
theorem within_mplsrouteTopic (h : rtmsgLength ≤ nlmsgLen o m 0) (len : ℕ) :
    (mplsrouteTopic o len).Within m (nlmsgLen o m 0) ↔
      ValueFits (nlmsgLen o m 0) (lastAttr o m rtaDst) 4 := by
  have hdst := valueFits_lastAttr (o := o) (m := m) rtaDst
  rw [mplsrouteTopic, Reader.within_bind, run_attrParse (by decide)]
  rw [and_iff_right (within_attrParse h)]
  cases hattr : lastAttr o m rtaDst with
  | none => exact iff_of_true (Reader.within_pure m _ _) (valueFits_none 4)
  | some a =>
    rw [hattr] at hdst
    dsimp only
    rw [Reader.within_bind, Reader.within_bytes m 4 (hdst a rfl), valueFits_some]
    exact and_iff_left (Reader.within_pure m _ _)

theorem within_mrouteTopic (h : rtmsgLength ≤ nlmsgLen o m 0) (len : ℕ)
    (htable : rtmTable m 0 ≠ rtTableLocal) :
    (mrouteTopic o ntop len).Within m (nlmsgLen o m 0) ↔
      ValueFits (nlmsgLen o m 0) (lastAttr o m rtaIif) 4 ∧
      ValueFits (nlmsgLen o m 0) (lastAttr o m rtaOif) 4 ∧
      ValueFits (nlmsgLen o m 0) (lastAttr o m rtaTable) 4 ∧
      ValueFits (nlmsgLen o m 0) (lastAttr o m rtaDst) (addrWidth (mrouteFamily (rtmFamily m 0))) ∧
      ValueFits (nlmsgLen o m 0) (lastAttr o m rtaSrc)
        (addrWidth (mrouteFamily (rtmFamily m 0))) := by
  have hlen : rtmsgLength = 28 := rfl
  have htable' : m 20 ≠ rtTableLocal := htable
  rw [mrouteTopic, Reader.within_bind, Reader.within_u8, Reader.run_u8, if_neg htable']
  rw [and_iff_right (by omega)]
  simp (disch := decide) only [Reader.within_bind, Reader.within_u8, Reader.run_u8,
    Reader.within_pure, run_attrParse, within_attrU32, mrouteNtop,
    within_inetNtop (valueFits_lastAttr _), and_true]
  rw [and_iff_right (within_attrParse h)]
  have h16 : 16 < nlmsgLen o m 0 := by omega
  have h17 : 17 < nlmsgLen o m 0 := by omega
  have h18 : 18 < nlmsgLen o m 0 := by omega
  simp only [h16, h17, h18, true_and, and_true]
  rfl

/-- The reads of `topicText` are in the message if the values are. -/
theorem within_topicText (h : rtmsgLength ≤ nlmsgLen o m 0) (len : ℕ) :
    (topicText o ntop len).Within m (nlmsgLen o m 0) ↔ ValuesFit o m := by
  have hlen : rtmsgLength = 28 := rfl
  have h16 : 16 < nlmsgLen o m 0 := by omega
  have h17 : 17 < nlmsgLen o m 0 := by omega
  have h20 : 20 < nlmsgLen o m 0 := by omega
  have h22 : 22 < nlmsgLen o m 0 := by omega
  have h23 : 23 < nlmsgLen o m 0 := by omega
  have h24 : 24 + 4 ≤ nlmsgLen o m 0 := by omega
  have hfamily : rtmFamily m 0 = m 16 := rfl
  have htype : rtmType m 0 = m 23 := rfl
  have htable : rtmTable m 0 = m 20 := rfl
  have hflags : rtmFlags o m = load32 o m 24 := rfl
  rw [topicText, Reader.within_bind, Reader.within_u8, Reader.run_u8, and_iff_right h16, ValuesFit,
    valuesRead, hfamily, htype, htable, hflags]
  by_cases hmpls : m 16 = afMpls
  · rw [if_pos hmpls, if_pos hmpls, within_mplsrouteTopic h, List.forall_mem_singleton]
  rw [if_neg hmpls, if_neg hmpls, Reader.within_bind, Reader.within_u8, Reader.run_u8,
    and_iff_right h23]
  by_cases hmcast : m 23 = rtnMulticast
  · rw [if_pos hmcast, if_pos hmcast]
    by_cases hlocal : m 20 = rtTableLocal
    · rw [if_pos hlocal, mrouteTopic, Reader.within_bind, Reader.within_u8, Reader.run_u8,
        if_pos hlocal]
      exact iff_of_true ⟨h20, Reader.within_pure m _ _⟩ (List.forall_mem_nil _)
    · rw [if_neg hlocal, within_mrouteTopic h len hlocal]
      simp only [List.forall_mem_cons, List.not_mem_nil, false_imp_iff, implies_true, and_true,
        hfamily]
  rw [if_neg hmcast, if_neg hmcast]
  by_cases hbcast : m 23 = rtnBroadcast
  · rw [if_pos hbcast, if_pos (.inl hbcast)]
    exact iff_of_true (Reader.within_pure m _ _) (List.forall_mem_nil _)
  rw [if_neg hbcast, Reader.within_bind, Reader.within_u32, Reader.run_u32, and_iff_right h24]
  by_cases hcloned : load32 o m 24 &&& rtmFCloned ≠ 0
  · rw [if_pos hcloned, if_pos (.inr hcloned)]
    exact iff_of_true (Reader.within_pure m _ _) (List.forall_mem_nil _)
  rw [if_neg hcloned, if_neg (by tauto)]
  simp (disch := decide) only [Reader.within_bind, Reader.within_u8, Reader.run_u8,
    Reader.within_pure, run_attrParse, within_attrU32, within_inetNtop (valueFits_lastAttr _),
    within_attrParse h, h17, h20, h22, true_and, and_true, List.forall_mem_cons,
    List.not_mem_nil, false_imp_iff, implies_true]

end Fit

/-! ## Bytes behind the message -/

/-- For every memory with the same message, only bytes of the message are read, and the
result, the topic and the deletion flag are the same. -/
def TopicLocal (o : ByteOrder) (ntop : Ntop) (len : ℕ) (m : Mem) : Prop :=
  ∀ m' : Mem, (∀ a < nlmsgLen o m 0, m' a = m a) →
    (∀ a ∈ (routeTopic o ntop len).trace m', a < nlmsgLen o m 0) ∧
      (routeTopic o ntop len).run m' = (routeTopic o ntop len).run m

theorem within_routeTopic {o : ByteOrder} {m : Mem} (ntop : Ntop)
    (htype : nlmsgType o m 0 = rtmNewroute ∨ nlmsgType o m 0 = rtmDelroute)
    (hlen : rtmsgLength ≤ nlmsgLen o m 0) (len : ℕ) :
    (routeTopic o ntop len).Within m (nlmsgLen o m 0) ↔ ValuesFit o m := by
  have hhdr : rtmsgLength = 28 := rfl
  have h4 : 4 + 2 ≤ nlmsgLen o m 0 := by omega
  have hrun : (Reader.u16 o 4).run m = nlmsgType o m 0 := rfl
  have htext : ∀ del : Bool, (do
      let r ← topicText o ntop len
      return (r.1, r.2, del) : Reader (ℤ × Text × Bool)).Within m (nlmsgLen o m 0) ↔
        ValuesFit o m := by
    intro del
    rw [Reader.within_bind, within_topicText hlen]
    exact and_iff_left (Reader.within_pure m _ _)
  rw [routeTopic, Reader.within_bind, Reader.within_u16, and_iff_right h4, hrun]
  rcases htype with hnew | hdel
  · rw [if_pos hnew]
    exact htext false
  · rw [if_neg (by rw [hdel]; decide), if_pos hdel]
    exact htext true

/-- **Topics are made from the bytes of the message iff all values fit.**  What is read
besides them lies in the message, whatever the attributes are. -/
theorem topic_reads_fit_iff (o : ByteOrder) (ntop : Ntop) (len : ℕ) (m : Mem)
    (htype : nlmsgType o m 0 = rtmNewroute ∨ nlmsgType o m 0 = rtmDelroute)
    (hlen : rtmsgLength ≤ nlmsgLen o m 0) : TopicLocal o ntop len m ↔ ValuesFit o m := by
  rw [← within_routeTopic ntop htype hlen len]
  constructor
  · intro hlocal
    exact (hlocal m (fun _ _ => rfl)).1
  · intro hwithin m' hsame
    exact ⟨hwithin.congr hsame, hwithin.run_eq hsame⟩

/-- An IPv4 address as text. -/
def dottedQuad (b : List UInt8) : Text :=
  List.intercalate ['.'] (b.map fun x => decimal x.toNat)

/-- The number that two bytes make. -/
def groups : List UInt8 → List ℕ
  | x :: y :: bs => (256 * x.toNat + y.toNat) :: groups bs
  | _ => []

/-- An IPv6 address as text, as `inet_ntop` writes it where there is nothing to shorten. -/
def colonHex (b : List UInt8) : Text :=
  List.intercalate [':'] ((groups b).map (Nat.toDigits 16))

/-- `inet_ntop` for addresses that need not be shortened. -/
def plainNtop : Ntop where
  v4 := dottedQuad
  v6 := colonHex

/-- A new route to 10.1.0.0/16. -/
def route16 : List UInt8 :=
  [36, 0, 0, 0, 24, 0, 0, 0, 0, 0, 0, 0, 0, 0, 0, 0,
   2, 16, 0, 0, 254, 2, 0, 1, 0, 0, 0, 0,
   8, 0, 1, 0, 10, 1, 0, 0]

theorem topic_reads_fit_route : TopicLocal .little plainNtop routeTopicLen (memOf route16) :=
  (topic_reads_fit_iff .little plainNtop routeTopicLen (memOf route16) (.inl (by decide))
    (by decide)).mpr (by unfold ValuesFit ValueFits; decide +kernel)

/-- A new route whose destination has no bytes. -/
def emptyDst : List UInt8 :=
  [32, 0, 0, 0, 24, 0, 0, 0, 0, 0, 0, 0, 0, 0, 0, 0,
   2, 16, 0, 0, 254, 2, 0, 1, 0, 0, 0, 0,
   4, 0, 1, 0]

/-- The destination is read behind the message, and the topic depends on what is there. -/
theorem topic_reads_behind_message :
    (nlmsgType .little (memOf emptyDst) 0 = rtmNewroute ∧
      nlmsgLen .little (memOf emptyDst) 0 = 32 ∧
      32 ∈ (routeTopic .little plainNtop routeTopicLen).trace (memOf emptyDst) ∧
      (routeTopic .little plainNtop routeTopicLen).run (memOf emptyDst) =
        (18, "r 0.0.0.0/16 0 254".toList, false) ∧
      (routeTopic .little plainNtop routeTopicLen).run (memOf (emptyDst ++ [10, 1, 2, 3])) =
        (19, "r 10.1.2.3/16 0 254".toList, false)) ∧
    ¬ TopicLocal .little plainNtop routeTopicLen (memOf emptyDst) := by
  have hread : 32 ∈ (routeTopic .little plainNtop routeTopicLen).trace (memOf emptyDst) := by
    decide +kernel
  refine ⟨⟨by decide, by decide, hread, by decide +kernel, by decide +kernel⟩, ?_⟩
  intro hlocal
  have hlt := (hlocal (memOf emptyDst) (fun _ _ => rfl)).1 32 hread
  exact absurd hlt (by decide)
