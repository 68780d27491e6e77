/-
# Topics and keys

What a route is known by depends on its kind: a `TopicKey` has the family, destination,
prefix length, scope and table of a unicast route, the interfaces, addresses, prefix lengths
and table of a multicast route, or the label of an MPLS route.  `topicKey` reads the key from
a message, the last attribute of a type being the one that counts.

`route_topic` prints the key (`run_routeTopic`).  A topic never fills the buffer, and two
topics are equal only for equal keys, because of the separators: `inet_ntop` writes neither
`/` nor blanks.

Main result: `topic_faithful`.
-/
import RouteBroker.Topic

/-- What a route is known by. -/
inductive TopicKey
  | unicast (family : UInt8) (dest : List UInt8) (dstLen scope : UInt8) (table : ℕ)
  | multicast (iif oif : ℕ) (family : UInt8) (group : List UInt8) (dstLen : UInt8)
      (origin : List UInt8) (srcLen : UInt8) (table : ℕ)
  | mpls (label : ℕ)
  deriving DecidableEq, Repr

/-! ## The key of a message -/

section Key

variable (o : ByteOrder) (m : Mem)

def rtmDstLen : UInt8 := m 17
def rtmSrcLen : UInt8 := m 18

/-- The number in the attribute, if there is one. -/
def attrValue (attr : Option ℕ) (default : ℕ) : ℕ :=
  match attr with
  | none => default
  | some a => load32 o m (a + 4)

/-- The address of `n` bytes in the attribute, all zero if there is none. -/
def attrAddr (attr : Option ℕ) (n : ℕ) : List UInt8 :=
  match attr with
  | none => List.replicate n 0
  | some a => slice m (a + 4) n

/-- The table of the route: `RTA_TABLE`, or else `rtm_table`. -/
def routeTable : ℕ := attrValue o m (lastAttr o m rtaTable) (rtmTable m 0).toNat

/-- The key of the message at address 0. -/
def topicKey : TopicKey :=
  if rtmFamily m 0 = afMpls then
    .mpls (mplsLsGetLabel (attrAddr m (lastAttr o m rtaDst) 4))
  else if rtmType m 0 = rtnMulticast then
    .multicast (attrValue o m (lastAttr o m rtaIif) 0) (attrValue o m (lastAttr o m rtaOif) 0)
      (rtmFamily m 0)
      (attrAddr m (lastAttr o m rtaDst) (addrWidth (mrouteFamily (rtmFamily m 0)))) (rtmDstLen m)
      (attrAddr m (lastAttr o m rtaSrc) (addrWidth (mrouteFamily (rtmFamily m 0)))) (rtmSrcLen m)
      (routeTable o m)
  else
    .unicast (rtmFamily m 0) (attrAddr m (lastAttr o m rtaDst) (addrWidth (rtmFamily m 0)))
      (rtmDstLen m) (rtmScope m 0) (routeTable o m)

/-- The family is one for which the addresses are printed. -/
def FamilyPrinted : Prop :=
  rtmFamily m 0 = afMpls ∨
  rtmType m 0 = rtnMulticast ∧ (rtmFamily m 0 = rtnlFamilyIpmr ∨ rtmFamily m 0 = rtnlFamilyIp6mr) ∨
  rtmType m 0 ≠ rtnMulticast ∧ (rtmFamily m 0 = afInet ∨ rtmFamily m 0 = afInet6)

end Key

/-! ## The text of a key -/

/-- An address as text, `none` for families without addresses. -/
def addrText (ntop : Ntop) (af : UInt8) (b : List UInt8) : Option Text :=
  if af = afInet then some (ntop.v4 b) else if af = afInet6 then some (ntop.v6 b) else none

/-- The text for a key. -/
def keyText (ntop : Ntop) : TopicKey → Text
  | .unicast family dest dstLen scope table =>
    unicastText (addrText ntop family dest) dstLen scope table
  | .multicast iif oif family group dstLen origin srcLen table =>
    mrouteText iif oif (addrText ntop (mrouteFamily family) group) dstLen
      (addrText ntop (mrouteFamily family) origin) srcLen table
  | .mpls label => mplsText label

section Print

variable {o : ByteOrder} {m : Mem} {ntop : Ntop}

/-- A number is printed from the attribute that counts. -/
theorem run_attrU32 (attr : Option ℕ) (default : ℕ) :
    (attrU32 o attr default).run m = attrValue o m attr default := by
  cases attr with
  | none => rfl
  | some a => rfl

/-- And so is an address. -/
theorem run_inetNtop (af : UInt8) (attr : Option ℕ) :
    (inetNtop ntop af attr).run m = addrText ntop af (attrAddr m attr (addrWidth af)) := by
  have hbytes : ∀ n, (attrBytes attr n).run m = attrAddr m attr n := by
    intro n
    cases attr with
    | none => rfl
    | some a => exact Reader.run_bytes m (a + 4) n
  unfold inetNtop addrText addrWidth
  split_ifs
  · rw [Reader.run_bind, hbytes, Reader.run_pure]
  · rw [Reader.run_bind, hbytes, Reader.run_pure]
  · rfl

/-- An MPLS route with a destination is printed as its label. -/
theorem run_mplsrouteTopic {len : ℕ} (hpos : 0 < ((mplsrouteTopic o len).run m).1) :
    (mplsrouteTopic o len).run m =
      snprintf len (mplsText (mplsLsGetLabel (attrAddr m (lastAttr o m rtaDst) 4))) := by
  have hneg : ¬ (0 : ℤ) < -1 := by decide
  rw [mplsrouteTopic, Reader.run_bind, run_attrParse (by decide)] at hpos ⊢
  cases hattr : lastAttr o m rtaDst with
  | none =>
    rw [hattr] at hpos
    exact absurd hpos hneg
  | some a =>
    dsimp only
    rw [Reader.run_bind, Reader.run_bytes, Reader.run_pure]
    rfl

/-- A unicast route that is not cloned is printed as its key. -/
theorem run_topicText_unicast (ntop : Ntop) (len : ℕ) (hmpls : rtmFamily m 0 ≠ afMpls)
    (hmcast : rtmType m 0 ≠ rtnMulticast) (hbcast : rtmType m 0 ≠ rtnBroadcast)
    (hcloned : rtmFlags o m &&& rtmFCloned = 0) :
    (topicText o ntop len).run m = snprintf len (keyText ntop (topicKey o m)) := by
  have hfamily : rtmFamily m 0 = m 16 := rfl
  have htype : rtmType m 0 = m 23 := rfl
  have hflags : rtmFlags o m = load32 o m 24 := rfl
  rw [topicKey, if_neg hmpls, if_neg hmcast]
  rw [hfamily] at hmpls
  rw [htype] at hmcast hbcast
  rw [hflags] at hcloned
  rw [topicText, Reader.run_bind, Reader.run_u8, if_neg hmpls, Reader.run_bind, Reader.run_u8,
    if_neg hmcast, if_neg hbcast, Reader.run_bind, Reader.run_u32, if_neg (not_not.mpr hcloned)]
  simp (disch := decide) only [Reader.run_bind, Reader.run_u8, Reader.run_pure, run_attrParse,
    run_attrU32, run_inetNtop]
  rfl

/-- What is printed is the key. -/
theorem run_topicText {len : ℕ} (hpos : 0 < ((topicText o ntop len).run m).1) :
    (topicText o ntop len).run m = snprintf len (keyText ntop (topicKey o m)) := by
  have hneg : ¬ (0 : ℤ) < -1 := by decide
  have hfamily : rtmFamily m 0 = m 16 := rfl
  have htype : rtmType m 0 = m 23 := rfl
  rw [topicText, Reader.run_bind, Reader.run_u8] at hpos
  by_cases hmpls : m 16 = afMpls
  · rw [if_pos hmpls] at hpos
    rw [topicText, Reader.run_bind, Reader.run_u8, if_pos hmpls, topicKey, hfamily, if_pos hmpls]
    exact run_mplsrouteTopic hpos
  rw [if_neg hmpls, Reader.run_bind, Reader.run_u8] at hpos
  by_cases hmcast : m 23 = rtnMulticast
  · rw [if_pos hmcast, mrouteTopic, Reader.run_bind, Reader.run_u8] at hpos
    by_cases hlocal : m 20 = rtTableLocal
    · rw [if_pos hlocal] at hpos
      exact absurd hpos hneg
    rw [topicText, Reader.run_bind, Reader.run_u8, if_neg hmpls, Reader.run_bind, Reader.run_u8,
      if_pos hmcast, mrouteTopic, Reader.run_bind, Reader.run_u8, if_neg hlocal, topicKey, hfamily,
      htype, if_neg hmpls, if_pos hmcast]
    simp (disch := decide) only [Reader.run_bind, Reader.run_u8, Reader.run_pure, run_attrParse,
      run_attrU32, mrouteNtop, run_inetNtop]
    rfl
  by_cases hbcast : m 23 = rtnBroadcast
  · rw [if_neg hmcast, if_pos hbcast] at hpos
    exact absurd hpos hneg
  by_cases hcloned : load32 o m 24 &&& rtmFCloned ≠ 0
  · rw [if_neg hmcast, if_neg hbcast, Reader.run_bind, Reader.run_u32, if_pos hcloned] at hpos
    exact absurd hpos hneg
  exact run_topicText_unicast ntop len hmpls hmcast hbcast (not_not.mp hcloned)

/-- **`route_topic` prints the key of the message.** -/
theorem run_routeTopic {len : ℕ} (hpos : 0 < ((routeTopic o ntop len).run m).1) :
    ((routeTopic o ntop len).run m).1 = (snprintf len (keyText ntop (topicKey o m))).1 ∧
      ((routeTopic o ntop len).run m).2.1 = (snprintf len (keyText ntop (topicKey o m))).2 := by
  have hneg : ¬ (0 : ℤ) < -1 := by decide
  rw [routeTopic, Reader.run_bind] at hpos ⊢
  split_ifs at hpos ⊢ with hnew hdel
  · rw [Reader.run_bind, Reader.run_pure] at hpos ⊢
    rw [run_topicText hpos]
    exact ⟨rfl, rfl⟩
  · rw [Reader.run_bind, Reader.run_pure] at hpos ⊢
    rw [run_topicText hpos]
    exact ⟨rfl, rfl⟩
  · exact absurd hpos hneg

end Print

/-! ## Printed addresses -/

/-- The characters of addresses. -/
def addressChars : Text := hexDigits ++ ['.', ':']

/-- Texts of at most 45 of these characters, different ones for different addresses. -/
structure Spelling (width : ℕ) (text : List UInt8 → Text) : Prop where
  inj : ∀ a b, a.length = width → b.length = width → text a = text b → a = b
  length_le : ∀ a, a.length = width → (text a).length ≤ 45
  chars : ∀ a, a.length = width → ∀ c ∈ text a, c ∈ addressChars

/-- What is known of `inet_ntop`; only IPv6 addresses have colons. -/
structure Ntop.Faithful (ntop : Ntop) : Prop where
  v4 : Spelling 4 ntop.v4
  v6 : Spelling 16 ntop.v6
  v4_colon : ∀ a, a.length = 4 → ':' ∉ ntop.v4 a
  v6_colon : ∀ a, a.length = 16 → ':' ∈ ntop.v6 a

/-- An address of the family. -/
def IsAddr (af : UInt8) (b : List UInt8) : Prop :=
  af = afInet ∧ b.length = 4 ∨ af = afInet6 ∧ b.length = 16

section Address

variable {ntop : Ntop} {af af' : UInt8} {b b' : List UInt8}

/-- An IPv4 address is never printed as `(null)`. -/
theorem orNull_addrText_inet (ntop : Ntop) (b : List UInt8) :
    orNull (addrText ntop afInet b) = ntop.v4 b := rfl

/-- Nor is one of IPv6. -/
theorem orNull_addrText_inet6 (ntop : Ntop) (b : List UInt8) :
    orNull (addrText ntop afInet6 b) = ntop.v6 b := rfl

/-- Of which characters an address is printed. -/
theorem Ntop.Faithful.mem_addrText (h : ntop.Faithful) (hb : IsAddr af b) {c : Char}
    (hc : c ∈ orNull (addrText ntop af b)) : c ∈ addressChars := by
  rcases hb with ⟨rfl, hlen⟩ | ⟨rfl, hlen⟩
  · exact h.v4.chars b hlen c hc
  · exact h.v6.chars b hlen c hc

/-- An address takes at most 45 characters. -/
theorem Ntop.Faithful.length_addrText_le (h : ntop.Faithful) (hb : IsAddr af b) :
    (orNull (addrText ntop af b)).length ≤ 45 := by
  rcases hb with ⟨rfl, hlen⟩ | ⟨rfl, hlen⟩
  · exact h.v4.length_le b hlen
  · exact h.v6.length_le b hlen

/-- The family and the address can be told from the text. -/
theorem Ntop.Faithful.addrText_inj (h : ntop.Faithful) (hb : IsAddr af b) (hb' : IsAddr af' b')
    (heq : orNull (addrText ntop af b) = orNull (addrText ntop af' b')) : af = af' ∧ b = b' := by
  rcases hb with ⟨rfl, hlen⟩ | ⟨rfl, hlen⟩ <;> rcases hb' with ⟨rfl, hlen'⟩ | ⟨rfl, hlen'⟩
  · exact ⟨rfl, h.v4.inj b b' hlen hlen' heq⟩
  · rw [orNull_addrText_inet, orNull_addrText_inet6] at heq
    have hcolon := h.v6_colon b' hlen'
    rw [← heq] at hcolon
    exact absurd hcolon (h.v4_colon b hlen)
  · rw [orNull_addrText_inet, orNull_addrText_inet6] at heq
    have hcolon := h.v6_colon b hlen
    rw [heq] at hcolon
    exact absurd hcolon (h.v4_colon b' hlen')
  · exact ⟨rfl, h.v6.inj b b' hlen hlen' heq⟩

end Address

/-- An attribute holds an address of the family, also if it is missing. -/
theorem isAddr_of_width {m : Mem} {af : UInt8} (h : af = afInet ∨ af = afInet6)
    (attr : Option ℕ) : IsAddr af (attrAddr m attr (addrWidth af)) := by
  have hlen : (attrAddr m attr (addrWidth af)).length = addrWidth af := by
    cases attr with
    | none => exact List.length_replicate
    | some a => exact length_slice m (a + 4) (addrWidth af)
  rcases h with rfl | rfl
  · exact .inl ⟨rfl, hlen⟩
  · exact .inr ⟨rfl, hlen⟩

/-- The families of multicast routes. -/
def IsMrouteFamily (af : UInt8) : Prop := af = rtnlFamilyIpmr ∨ af = rtnlFamilyIp6mr

/-- The family of the addresses tells the family of the route. -/
theorem mrouteFamily_inj {af af' : UInt8} (h : IsMrouteFamily af) (h' : IsMrouteFamily af')
    (heq : mrouteFamily af = mrouteFamily af') : af = af' := by
  rcases h with rfl | rfl <;> rcases h' with rfl | rfl
  · rfl
  · exact absurd heq (by decide)
  · exact absurd heq (by decide)
  · rfl

/-- A multicast route has addresses of IPv4 or IPv6. -/
theorem IsMrouteFamily.inet {af : UInt8} (h : IsMrouteFamily af) :
    mrouteFamily af = afInet ∨ mrouteFamily af = afInet6 := by
  rcases h with rfl | rfl
  · exact .inl rfl
  · exact .inr rfl

/-! ## Keys can be told from their texts -/

/-- The keys that messages have. -/
def TopicKey.Valid : TopicKey → Prop
  | .unicast family dest _ _ table => IsAddr family dest ∧ table < 2 ^ 32
  | .multicast iif oif family group _ origin _ table =>
    iif < 2 ^ 32 ∧ oif < 2 ^ 32 ∧ IsMrouteFamily family ∧ IsAddr (mrouteFamily family) group ∧
      IsAddr (mrouteFamily family) origin ∧ table < 2 ^ 32
  | .mpls label => label < 2 ^ 20

/-- The fields behind `"r "`. -/
def unicastFields (dest : Option Text) (dstLen scope : UInt8) : List (Text × Char) :=
  [(orNull dest, '/'), (decimal dstLen.toNat, ' '), (decimal scope.toNat, ' ')]

/-- The fields behind `"route "`. -/
def mrouteFields (iif oif : ℕ) (group : Option Text) (dstLen : UInt8) (origin : Option Text)
    (srcLen : UInt8) : List (Text × Char) :=
  [(signed iif, ' '), (signed oif, ' '), (orNull group, '/'), (decimal dstLen.toNat, ' '),
    (orNull origin, '/'), (decimal srcLen.toNat, ' ')]

section Fields

variable {ntop : Ntop} {dest group origin : Option Text} {dstLen srcLen scope : UInt8}
  {iif oif table : ℕ}

/-- The text of a unicast route as fields, each with the separator behind it. -/
theorem unicastText_eq : unicastText dest dstLen scope table =
    ['r', ' '] ++ separated (unicastFields dest dstLen scope) (decimal table) := by
  simp [unicastText, unicastFields, separated]

/-- The text of a multicast route as fields. -/
theorem mrouteText_eq : mrouteText iif oif group dstLen origin srcLen table =
    ['r', 'o', 'u', 't', 'e', ' '] ++
      separated (mrouteFields iif oif group dstLen origin srcLen) (decimal table) := by
  simp [mrouteText, mrouteFields, separated]

/-- Numbers contain no separator. -/
theorem notMem_decimal {c : Char} (hc : c ∉ hexDigits) (n : ℕ) : c ∉ decimal n :=
  fun h => hc (mem_decimal h)

/-- Nor do interface indices. -/
theorem notMem_signed (n : ℕ) : ' ' ∉ signed n := by
  intro h
  rcases mem_signed h with h | h
  · exact absurd h (by decide)
  · exact absurd h (by decide)

/-- And addresses contain no `/`. -/
theorem Ntop.Faithful.slash_notMem (h : ntop.Faithful) {af : UInt8} {b : List UInt8}
    (hb : IsAddr af b) : '/' ∉ orNull (addrText ntop af b) :=
  fun hmem => absurd (h.mem_addrText hb hmem) (by decide)

/-- **No field of a unicast route contains its separator.** -/
theorem unicastFields_sep (hdest : '/' ∉ orNull dest) :
    ∀ f ∈ unicastFields dest dstLen scope, f.2 ∉ f.1 := by
  have hdec (n : ℕ) : ' ' ∉ decimal n := notMem_decimal (by decide) n
  simp only [unicastFields, List.forall_mem_cons]
  exact ⟨hdest, hdec _, hdec _, List.forall_mem_nil _⟩

/-- **Nor does one of a multicast route.** -/
theorem mrouteFields_sep (hgroup : '/' ∉ orNull group) (horigin : '/' ∉ orNull origin) :
    ∀ f ∈ mrouteFields iif oif group dstLen origin srcLen, f.2 ∉ f.1 := by
  have hdec (n : ℕ) : ' ' ∉ decimal n := notMem_decimal (by decide) n
  simp only [mrouteFields, List.forall_mem_cons]
  exact ⟨notMem_signed _, notMem_signed _, hgroup, hdec _, horigin, hdec _,
    List.forall_mem_nil _⟩

end Fields

theorem decimal_toNat_inj {x y : UInt8} (h : decimal x.toNat = decimal y.toNat) : x = y :=
  UInt8.toNat_inj.mp (decimal_inj h)

/-- A byte takes at most three digits. -/
theorem length_decimal_byte (x : UInt8) : (decimal x.toNat).length ≤ 3 := by
  have hx := x.toNat_lt
  exact length_decimal_le (by omega) (by omega)

/-- A table takes at most ten. -/
theorem length_decimal_u32 {n : ℕ} (h : n < 2 ^ 32) : (decimal n).length ≤ 10 :=
  length_decimal_le (by omega) (by omega)

section Faithful

variable {ntop : Ntop}

/-- Texts of keys are shorter than the buffer. -/
theorem Ntop.Faithful.length_keyText (h : ntop.Faithful) {k : TopicKey} (hk : k.Valid) :
    (keyText ntop k).length < routeTopicLen := by
  have hlen : routeTopicLen = 204 := rfl
  cases k with
  | unicast family dest dstLen scope table =>
    obtain ⟨hdest, htable⟩ := hk
    have h1 := h.length_addrText_le hdest
    have h2 := length_decimal_byte dstLen
    have h3 := length_decimal_byte scope
    have h4 := length_decimal_u32 htable
    simp only [keyText, unicastText_eq, unicastFields, separated, List.length_cons,
      List.length_append, List.length_nil]
    omega
  | multicast iif oif family group dstLen origin srcLen table =>
    obtain ⟨hiif, hoif, -, hgroup, horigin, htable⟩ := hk
    have h1 := length_signed_le hiif
    have h2 := length_signed_le hoif
    have h3 := h.length_addrText_le hgroup
    have h4 := length_decimal_byte dstLen
    have h5 := h.length_addrText_le horigin
    have h6 := length_decimal_byte srcLen
    have h7 := length_decimal_u32 htable
    simp only [keyText, mrouteText_eq, mrouteFields, separated, List.length_cons,
      List.length_append, List.length_nil]
    omega
  | mpls label =>
    have hlabel : label < 2 ^ 20 := hk
    have h1 := length_decimal_u32 (n := label) (by omega)
    simp only [keyText, mplsText, List.length_cons, List.length_append, List.length_nil]
    omega

/-- Unicast routes with one text have one key: the fields are equal one by one. -/
theorem Ntop.Faithful.unicast_inj (h : ntop.Faithful) {f f' : UInt8} {d d' : List UInt8}
    {l l' s s' : UInt8} {t t' : ℕ} (hd : IsAddr f d) (hd' : IsAddr f' d')
    (heq : keyText ntop (.unicast f d l s t) = keyText ntop (.unicast f' d' l' s' t')) :
    TopicKey.unicast f d l s t = .unicast f' d' l' s' t' := by
  rw [keyText, keyText, unicastText_eq, unicastText_eq] at heq
  have htail := List.append_cancel_left heq
  obtain ⟨hfields, htable⟩ := separated_inj (by rfl) (unicastFields_sep (h.slash_notMem hd))
    (unicastFields_sep (h.slash_notMem hd')) htail
  simp only [unicastFields, List.cons.injEq, Prod.mk.injEq, and_true] at hfields
  obtain ⟨hdest, hlen, hscope⟩ := hfields
  obtain ⟨rfl, rfl⟩ := h.addrText_inj hd hd' hdest
  rw [decimal_toNat_inj hlen, decimal_toNat_inj hscope, decimal_inj htable]

/-- Multicast routes with one text have one key, too. -/
theorem Ntop.Faithful.multicast_inj (h : ntop.Faithful) {i i' j j' : ℕ} {f f' : UInt8}
    {g g' s s' : List UInt8} {l l' n n' : UInt8} {t t' : ℕ}
    (hk : (TopicKey.multicast i j f g l s n t).Valid)
    (hk' : (TopicKey.multicast i' j' f' g' l' s' n' t').Valid)
    (heq : keyText ntop (.multicast i j f g l s n t) =
      keyText ntop (.multicast i' j' f' g' l' s' n' t')) :
    TopicKey.multicast i j f g l s n t = .multicast i' j' f' g' l' s' n' t' := by
  obtain ⟨hi, hj, hf, hg, hs, -⟩ := hk
  obtain ⟨hi', hj', hf', hg', hs', -⟩ := hk'
  rw [keyText, keyText, mrouteText_eq, mrouteText_eq] at heq
  have htail := List.append_cancel_left heq
  obtain ⟨hfields, htable⟩ := separated_inj (by rfl)
    (mrouteFields_sep (h.slash_notMem hg) (h.slash_notMem hs))
    (mrouteFields_sep (h.slash_notMem hg') (h.slash_notMem hs')) htail
  simp only [mrouteFields, List.cons.injEq, Prod.mk.injEq, and_true] at hfields
  obtain ⟨hiif, hoif, hgroup, hlen, horigin, hslen⟩ := hfields
  obtain ⟨hfam, rfl⟩ := h.addrText_inj hg hg' hgroup
  obtain ⟨-, rfl⟩ := h.addrText_inj hs hs' horigin
  rw [signed_inj hi hi' hiif, signed_inj hj hj' hoif, mrouteFamily_inj hf hf' hfam,
    decimal_toNat_inj hlen, decimal_toNat_inj hslen, decimal_inj htable]

/-- **A key can be told from its text.** -/
theorem Ntop.Faithful.keyText_inj (h : ntop.Faithful) {k k' : TopicKey} (hk : k.Valid)
    (hk' : k'.Valid) (heq : keyText ntop k = keyText ntop k') : k = k' := by
  cases k with
  | unicast f d l s t =>
    cases k' with
    | unicast f' d' l' s' t' => exact h.unicast_inj hk.1 hk'.1 heq
    | multicast i' j' f' g' l' s' n' t' =>
      rw [keyText, keyText, unicastText_eq, mrouteText_eq] at heq
      exact absurd (List.cons.inj (List.cons.inj heq).2).1 (by decide)
    | mpls l' =>
      rw [keyText, keyText, unicastText_eq] at heq
      exact absurd (List.cons.inj (List.cons.inj heq).2).1 (by decide)
  | multicast i j f g l s n t =>
    cases k' with
    | unicast f' d' l' s' t' =>
      rw [keyText, keyText, unicastText_eq, mrouteText_eq] at heq
      exact absurd (List.cons.inj (List.cons.inj heq).2).1 (by decide)
    | multicast i' j' f' g' l' s' n' t' => exact h.multicast_inj hk hk' heq
    | mpls l' =>
      rw [keyText, keyText, mrouteText_eq] at heq
      have h5 : some ' ' = some '-' := congrArg (fun x => x[5]?) heq
      exact absurd h5 (by decide)
  | mpls l =>
    cases k' with
    | unicast f' d' l' s' t' =>
      rw [keyText, keyText, unicastText_eq] at heq
      exact absurd (List.cons.inj (List.cons.inj heq).2).1 (by decide)
    | multicast i' j' f' g' l' s' n' t' =>
      rw [keyText, keyText, mrouteText_eq] at heq
      have h5 : some '-' = some ' ' := congrArg (fun x => x[5]?) heq
      exact absurd h5 (by decide)
    | mpls l' => rw [decimal_inj (List.append_cancel_left heq)]

end Faithful

/-! ## Topics are faithful -/

section Valid

variable {o : ByteOrder} {m : Mem}

theorem load32_lt (o : ByteOrder) (m : Mem) (a : ℕ) : load32 o m a < 2 ^ 32 :=
  o.u32_lt _ _ _ _

theorem attrValue_lt (attr : Option ℕ) {default : ℕ} (h : default < 2 ^ 32) :
    attrValue o m attr default < 2 ^ 32 := by
  cases attr with
  | none => exact h
  | some a => exact load32_lt o m (a + 4)

theorem routeTable_lt : routeTable o m < 2 ^ 32 := by
  have htable := (rtmTable m 0).toNat_lt
  exact attrValue_lt _ (by omega)

/-- A label has 20 bits. -/
theorem mplsLsGetLabel_lt (ls : List UInt8) : mplsLsGetLabel ls < 2 ^ 20 := by
  have hlt := load32_lt .big (memOf ls) 0
  rw [mplsLsGetLabel]
  omega

/-- The key of a message is one that can be told from its text. -/
theorem FamilyPrinted.topicKey_valid (h : FamilyPrinted m) : (topicKey o m).Valid := by
  unfold topicKey
  rcases h with hmpls | ⟨htype, hfamily⟩ | ⟨htype, hfamily⟩
  · rw [if_pos hmpls]
    exact mplsLsGetLabel_lt _
  · have hmpls : rtmFamily m 0 ≠ afMpls := by
      rcases hfamily with h | h <;> rw [h] <;> decide
    have hinet := IsMrouteFamily.inet hfamily
    rw [if_neg hmpls, if_pos htype]
    exact ⟨attrValue_lt _ (by omega), attrValue_lt _ (by omega), hfamily, isAddr_of_width hinet _,
      isAddr_of_width hinet _, routeTable_lt⟩
  · have hmpls : rtmFamily m 0 ≠ afMpls := by
      rcases hfamily with h | h <;> rw [h] <;> decide
    rw [if_neg hmpls, if_neg htype]
    exact ⟨isAddr_of_width hfamily _, routeTable_lt⟩

/-- The buffer is large enough for the text of the key. -/
theorem Ntop.Faithful.topic_eq {ntop : Ntop} (hntop : ntop.Faithful)
    (hpos : 0 < ((routeTopic o ntop routeTopicLen).run m).1) (hfamily : FamilyPrinted m) :
    ((routeTopic o ntop routeTopicLen).run m).1 = (keyText ntop (topicKey o m)).length ∧
      ((routeTopic o ntop routeTopicLen).run m).2.1 = keyText ntop (topicKey o m) := by
  have hlen := hntop.length_keyText (hfamily.topicKey_valid (o := o))
  have hrun := run_routeTopic hpos
  rw [snprintf_of_lt hlen] at hrun
  exact hrun

end Valid

/-- **Topics are faithful keys.**  No topic is cut off, and the topics of two messages are
equal iff their keys are. -/
theorem topic_faithful (o : ByteOrder) (ntop : Ntop) (hntop : ntop.Faithful) (m m' : Mem)
    (hpos : 0 < ((routeTopic o ntop routeTopicLen).run m).1)
    (hpos' : 0 < ((routeTopic o ntop routeTopicLen).run m').1)
    (hfamily : FamilyPrinted m) (hfamily' : FamilyPrinted m') :
    (((routeTopic o ntop routeTopicLen).run m).1 < routeTopicLen ∧
      ((routeTopic o ntop routeTopicLen).run m).1 =
        ((routeTopic o ntop routeTopicLen).run m).2.1.length ∧
      ((routeTopic o ntop routeTopicLen).run m).2.1 = keyText ntop (topicKey o m)) ∧
    (((routeTopic o ntop routeTopicLen).run m).2.1 =
        ((routeTopic o ntop routeTopicLen).run m').2.1 ↔
      topicKey o m = topicKey o m') := by
  have hvalid := hfamily.topicKey_valid (o := o)
  have hvalid' := hfamily'.topicKey_valid (o := o)
  obtain ⟨hresult, htopic⟩ := hntop.topic_eq hpos hfamily
  obtain ⟨-, htopic'⟩ := hntop.topic_eq hpos' hfamily'
  rw [hresult, htopic, htopic']
  refine ⟨⟨?_, rfl, rfl⟩, ?_⟩
  · exact Int.ofNat_lt.mpr (hntop.length_keyText hvalid)
  · constructor
    · exact hntop.keyText_inj hvalid hvalid'
    · intro h
      rw [h]

/-! ## An instance -/

/-- Numbers that are joined by a separator. -/
theorem spelling_joined {width n k : ℕ} {pieces : List UInt8 → List Text} {c : Char}
    (hc : c = '.' ∨ c = ':') (hn : 0 < n) (hlen : (k + 1) * n ≤ 45)
    (hpieces : ∀ b, b.length = width → (pieces b).length = n ∧
      ∀ x ∈ pieces b, x.length ≤ k ∧ ∀ d ∈ x, d ∈ hexDigits)
    (hinj : ∀ a b, a.length = width → b.length = width → pieces a = pieces b → a = b) :
    Spelling width fun b => List.intercalate [c] (pieces b) := by
  have hne : ∀ b, b.length = width → pieces b ≠ [] := by
    intro b hb hnil
    have hlength := (hpieces b hb).1
    rw [hnil, List.length_nil] at hlength
    omega
  have hhex : c ∉ hexDigits := by
    rcases hc with rfl | rfl <;> decide
  have hsep : ∀ b, b.length = width → ∀ x ∈ pieces b, c ∉ x := by
    intro b hb x hx hmem
    exact hhex (((hpieces b hb).2 x hx).2 c hmem)
  constructor
  · intro a b ha hb heq
    exact hinj a b ha hb (intercalate_inj (hne a ha) (hne b hb) (hsep a ha) (hsep b hb) heq)
  · intro a ha
    have hle := length_intercalate_le (c := c) fun x hx => ((hpieces a ha).2 x hx).1
    rw [(hpieces a ha).1] at hle
    exact hle.trans hlen
  · intro a ha d hd
    rcases mem_intercalate hd with rfl | ⟨x, hx, hdx⟩
    · rcases hc with rfl | rfl <;> decide
    · exact List.mem_append_left _ (((hpieces a ha).2 x hx).2 d hdx)

theorem groups_cons (x y : UInt8) (bs : List UInt8) :
    groups (x :: y :: bs) = (256 * x.toNat + y.toNat) :: groups bs := rfl

/-- An address has half as many groups as bytes. -/
theorem length_groups (n : ℕ) {b : List UInt8} (h : b.length = 2 * n) :
    (groups b).length = n := by
  induction n generalizing b with
  | zero =>
    rw [List.length_eq_zero_iff.mp h]
    rfl
  | succ n ih =>
    match b, h with
    | x :: y :: bs, h =>
      rw [groups_cons, List.length_cons, ih (by simp only [List.length_cons] at h; omega)]

/-- A group has 16 bits. -/
theorem groups_lt {b : List UInt8} : ∀ g ∈ groups b, g < 2 ^ 16 := by
  fun_induction groups b with
  | case1 x y bs ih =>
    have hx := x.toNat_lt
    have hy := y.toNat_lt
    exact List.forall_mem_cons.mpr ⟨by omega, ih⟩
  | case2 => exact List.forall_mem_nil _

/-- The bytes can be told from the groups. -/
theorem groups_inj (n : ℕ) {a b : List UInt8} (ha : a.length = 2 * n) (hb : b.length = 2 * n)
    (h : groups a = groups b) : a = b := by
  induction n generalizing a b with
  | zero => rw [List.length_eq_zero_iff.mp ha, List.length_eq_zero_iff.mp hb]
  | succ n ih =>
    match a, b, ha, hb, h with
    | x :: y :: as, z :: w :: bs, ha, hb, h =>
      obtain ⟨hhead, htail⟩ := List.cons.inj h
      have hy := y.toNat_lt
      have hw := w.toNat_lt
      have hx : x = z := UInt8.toNat_inj.mp (by omega)
      have hy' : y = w := UInt8.toNat_inj.mp (by omega)
      simp only [List.length_cons] at ha hb
      rw [hx, hy', ih (by omega) (by omega) htail]

/-- **There is such an `inet_ntop`**: all numbers in full, without leading zeros. -/
theorem plainNtop_faithful : plainNtop.Faithful where
  v4 := by
    apply spelling_joined (n := 4) (k := 3) (.inl rfl) (by omega) (by omega)
    · intro b hb
      refine ⟨by rw [List.length_map, hb], ?_⟩
      intro x hx
      obtain ⟨y, -, rfl⟩ := List.mem_map.mp hx
      exact ⟨length_decimal_byte y, fun d hd => mem_decimal hd⟩
    · intro a b _ _ h
      exact List.map_injective_iff.mpr (fun x y => decimal_toNat_inj) h
  v6 := by
    apply spelling_joined (n := 8) (k := 4) (.inr rfl) (by omega) (by omega)
    · intro b hb
      refine ⟨by rw [List.length_map, length_groups 8 hb], ?_⟩
      intro x hx
      obtain ⟨g, hg, rfl⟩ := List.mem_map.mp hx
      refine ⟨?_, fun d hd => mem_toDigits (by omega) (by omega) hd⟩
      exact (Nat.length_toDigits_le_iff (by omega) (by omega)).mpr (groups_lt g hg)
    · intro a b ha hb h
      apply groups_inj 8 ha hb
      exact List.map_injective_iff.mpr (fun x y => toDigits_inj (by omega) (by omega)) h
  v4_colon := by
    intro a _ hmem
    rcases mem_intercalate hmem with h | ⟨x, hx, hc⟩
    · exact absurd h (by decide)
    · obtain ⟨y, -, rfl⟩ := List.mem_map.mp hx
      exact absurd (mem_decimal hc) (by decide)
  v6_colon := by
    intro a ha
    have hlen := length_groups 8 ha
    match hg : groups a, hlen with
    | g :: g' :: gs, _ =>
      show ':' ∈ List.intercalate [':'] ((groups a).map (Nat.toDigits 16))
      rw [hg, List.map_cons, List.map_cons, List.intercalate_cons_cons]
      exact List.mem_append_left _ (List.mem_append_right _ List.mem_cons_self)

/-- The deletion of 10.1.0.0/16, with the table in an attribute in front. -/
def delRoute16 : List UInt8 :=
  [44, 0, 0, 0, 25, 0, 0, 0, 0, 0, 0, 0, 0, 0, 0, 0,
   2, 16, 0, 0, 0, 2, 0, 1, 0, 0, 0, 0,
   8, 0, 15, 0, 254, 0, 0, 0,
   8, 0, 1, 0, 10, 1, 0, 0]

/-- The theorem at a route and its delete, which have one topic. -/
theorem topic_faithful_delete :
    ((routeTopic .little plainNtop routeTopicLen).run (memOf route16)).2.1 =
      ((routeTopic .little plainNtop routeTopicLen).run (memOf delRoute16)).2.1 :=
  (topic_faithful .little plainNtop plainNtop_faithful (memOf route16) (memOf delRoute16)
    (by decide +kernel) (by decide +kernel) (.inr (.inr (by decide))) (.inr (.inr (by decide)))).2.mpr
    (by decide +kernel)
