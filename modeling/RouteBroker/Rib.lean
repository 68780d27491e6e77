/-
# The tables that route messages make

A dataplane that is sent route messages keeps a table: an `RTM_NEWROUTE` writes the entry of
its key, an `RTM_DELROUTE` removes it, and `fibOf` is the table after a list of messages.
Messages that `route_topic` refuses (`IsRouted`) count for nothing.

The route broker knows routes by their topics.  For whole messages (`IsRouteMsg`) from which
the topic can be read (`Legible`), what lies behind a copy in memory does not matter, and the
table by topics is the table by keys (`tableOf_eq_fibOf`).  Whatever `process_rtnl` passes on
is a whole message.
-/
import RouteBroker.CanonicalKey
import RouteBroker.Publish
import RouteBroker.RouteConverge

/-! ## Keys and tables -/

/-- `route_topic` makes a topic of the message at address 0. -/
def IsRouted (o : ByteOrder) (m : Mem) : Prop :=
  if rtmFamily m 0 = afMpls then lastAttr o m rtaDst ≠ none
  else if rtmType m 0 = rtnMulticast then rtmTable m 0 ≠ rtTableLocal
  else rtmType m 0 ≠ rtnBroadcast ∧ rtmFlags o m &&& rtmFCloned = 0

instance (o : ByteOrder) (m : Mem) : Decidable (IsRouted o m) := by
  unfold IsRouted
  infer_instance

/-- What a message says about its key. -/
def ribChange (o : ByteOrder) (msg : List UInt8) : Feed.Change TopicKey (List UInt8) :=
  (topicKey o (memOf msg),
    if nlmsgType o (memOf msg) 0 = rtmDelroute then none else some msg)

/-- The messages with a topic. -/
def routed (o : ByteOrder) (msgs : List (List UInt8)) : List (List UInt8) :=
  msgs.filter fun msg => IsRouted o (memOf msg)

/-- The table that messages make, in order. -/
def fibOf (o : ByteOrder) (msgs : List (List UInt8)) : TopicKey → Option (List UInt8) :=
  Feed.replay ((routed o msgs).map (ribChange o))

/-- A whole route message: its length is that of the header, there is room for a
`struct rtmsg`, and it adds or removes a route. -/
structure IsRouteMsg (o : ByteOrder) (msg : List UInt8) : Prop where
  len : nlmsgLen o (memOf msg) 0 = msg.length
  long : rtmsgLength ≤ msg.length
  type : nlmsgType o (memOf msg) 0 = rtmNewroute ∨ nlmsgType o (memOf msg) 0 = rtmDelroute

/-- The key can be read from the message: the values that are read lie in it, and its family
is one whose addresses are printed. -/
structure Legible (o : ByteOrder) (msg : List UInt8) : Prop where
  fits : ValuesFit o (memOf msg)
  printed : FamilyPrinted (memOf msg)

/-- `rib_nl_copy` of a message -/
def ribNlCopy (o : ByteOrder) (msg : List UInt8) : List UInt8 :=
  slice (memOf msg) 0 (nlmsgLen o (memOf msg) 0)

/-- `route_topic` of a copy of a message, with `behind msg` behind it in memory. -/
def ribGen (o : ByteOrder) (ntop : Ntop) (behind : List UInt8 → List UInt8) (msg : List UInt8) :
    ℤ × Text × Bool :=
  (routeTopic o ntop routeTopicLen).run (memOf (msg ++ behind msg))

/-! ## Tables -/

section Tables

variable {o : ByteOrder} {msgs : List (List UInt8)} {key : TopicKey}

/-- Messages with other keys can be left out. -/
theorem fibOf_filter {p : List UInt8 → Bool}
    (h : ∀ msg ∈ msgs, topicKey o (memOf msg) = key → p msg = true) :
    fibOf o (msgs.filter p) key = fibOf o msgs key := by
  have hcomm : routed o (msgs.filter p) = (routed o msgs).filter p := by
    unfold routed
    rw [List.filter_filter, List.filter_filter]
    apply List.filter_congr
    intro msg _
    exact Bool.and_comm _ _
  unfold fibOf
  rw [hcomm]
  apply Feed.replay_filter
  intro msg hmsg hkey
  exact h msg (List.mem_of_mem_filter hmsg) hkey

/-- The entry of a key of which no message speaks. -/
theorem fibOf_eq_none (h : ∀ msg ∈ msgs, topicKey o (memOf msg) ≠ key) :
    fibOf o msgs key = none := by
  apply Feed.replay_eq_none
  intro msg hmsg
  exact h msg (List.mem_of_mem_filter hmsg)

end Tables

/-! ## Topics of whole messages -/

section Topics

variable {o : ByteOrder} {ntop : Ntop} {behind : List UInt8 → List UInt8} {m : Mem}
  {msg : List UInt8} {msgs : List (List UInt8)} {key : TopicKey}

theorem IsRouteMsg.copy_eq (h : IsRouteMsg o msg) : ribNlCopy o msg = msg := by
  unfold ribNlCopy
  rw [h.len]
  apply List.ext_getElem
  · rw [length_slice]
  · intro i hi hi'
    rw [getElem_slice, Nat.zero_add, memOf, List.getD_eq_getElem _ _ hi']

theorem snprintf_pos {len : ℕ} {text : Text} (h : text ≠ []) : 0 < (snprintf len text).1 := by
  have hlen := List.length_pos_iff.mpr h
  show (0 : ℤ) < text.length
  omega

/-- `route_topic` makes a topic exactly of the messages that it does not refuse. -/
theorem topicText_pos_iff (ntop : Ntop) (len : ℕ) :
    0 < ((topicText o ntop len).run m).1 ↔ IsRouted o m := by
  have hneg : ¬ (0 : ℤ) < -1 := by decide
  have hfamily : rtmFamily m 0 = m 16 := rfl
  have htype : rtmType m 0 = m 23 := rfl
  have htable : rtmTable m 0 = m 20 := rfl
  have hflags : rtmFlags o m = load32 o m 24 := rfl
  unfold IsRouted
  rw [topicText, Reader.run_bind, Reader.run_u8, hfamily]
  by_cases hmpls : m 16 = afMpls
  · rw [if_pos hmpls, if_pos hmpls, mplsrouteTopic, Reader.run_bind, run_attrParse (by decide)]
    cases hattr : lastAttr o m rtaDst with
    | none => exact iff_of_false hneg (fun h => h rfl)
    | some a =>
      dsimp only
      rw [Reader.run_bind, Reader.run_bytes, Reader.run_pure]
      apply iff_of_true (snprintf_pos (List.cons_ne_nil _ _))
      exact fun h => by cases h
  rw [if_neg hmpls, if_neg hmpls, Reader.run_bind, Reader.run_u8, htype]
  by_cases hmcast : m 23 = rtnMulticast
  · rw [if_pos hmcast, if_pos hmcast, mrouteTopic, Reader.run_bind, Reader.run_u8, htable]
    by_cases hlocal : m 20 = rtTableLocal
    · rw [if_pos hlocal]
      exact iff_of_false hneg (fun h => h hlocal)
    · rw [if_neg hlocal]
      simp only [Reader.run_bind, Reader.run_pure]
      exact iff_of_true (snprintf_pos (List.cons_ne_nil _ _)) hlocal
  rw [if_neg hmcast, if_neg hmcast]
  by_cases hbcast : m 23 = rtnBroadcast
  · rw [if_pos hbcast]
    exact iff_of_false hneg (fun h => h.1 hbcast)
  rw [if_neg hbcast, Reader.run_bind, Reader.run_u32, hflags]
  by_cases hcloned : load32 o m 24 &&& rtmFCloned ≠ 0
  · rw [if_pos hcloned]
    exact iff_of_false hneg (fun h => hcloned h.2)
  · rw [if_neg hcloned]
    simp only [Reader.run_bind, Reader.run_pure]
    exact iff_of_true (snprintf_pos (List.cons_ne_nil _ _)) ⟨hbcast, not_not.mp hcloned⟩

/-- What `route_topic` says about a message that adds or removes a route. -/
theorem run_routeTopic_of_type
    (h : nlmsgType o m 0 = rtmNewroute ∨ nlmsgType o m 0 = rtmDelroute) (len : ℕ) :
    ((routeTopic o ntop len).run m).1 = ((topicText o ntop len).run m).1 ∧
      ((routeTopic o ntop len).run m).2.2 = decide (nlmsgType o m 0 = rtmDelroute) := by
  have hrun : (Reader.u16 o 4).run m = nlmsgType o m 0 := rfl
  rw [routeTopic, Reader.run_bind, hrun]
  rcases h with hnew | hdel
  · rw [if_pos hnew, Reader.run_bind, Reader.run_pure, hnew]
    exact ⟨rfl, (decide_eq_false (by decide)).symm⟩
  · rw [if_neg (by rw [hdel]; decide), if_pos hdel, Reader.run_bind, Reader.run_pure, hdel]
    exact ⟨rfl, (decide_eq_true rfl).symm⟩

/-- What is behind a copy does not matter, if the values fit. -/
theorem IsRouteMsg.ribGen_eq (h : IsRouteMsg o msg) (hfits : ValuesFit o (memOf msg)) :
    ribGen o ntop behind msg = (routeTopic o ntop routeTopicLen).run (memOf msg) := by
  have hwithin : (routeTopic o ntop routeTopicLen).Within (memOf msg) (nlmsgLen o (memOf msg) 0) :=
    (within_routeTopic ntop h.type (by rw [h.len]; exact h.long) routeTopicLen).mpr hfits
  apply hwithin.run_eq
  intro a ha
  rw [h.len] at ha
  show (msg ++ behind msg).getD a 0 = msg.getD a 0
  rw [List.getD_append _ _ _ _ ha]

/-- `route_topic` of the copy of a message with a topic. -/
theorem ribGen_routed (behind : List UInt8 → List UInt8) (h : IsRouteMsg o msg)
    (hleg : Legible o msg) (hntop : ntop.Faithful) (hrouted : IsRouted o (memOf msg)) :
    0 < (ribGen o ntop behind msg).1 ∧
      (ribGen o ntop behind msg).2.1 = keyText ntop (topicKey o (memOf msg)) ∧
      (ribGen o ntop behind msg).2.2 = decide (nlmsgType o (memOf msg) 0 = rtmDelroute) := by
  have hpos : 0 < ((routeTopic o ntop routeTopicLen).run (memOf msg)).1 := by
    rw [(run_routeTopic_of_type h.type routeTopicLen).1, topicText_pos_iff]
    exact hrouted
  rw [h.ribGen_eq hleg.fits]
  exact ⟨hpos, (hntop.topic_eq hpos hleg.printed).2,
    (run_routeTopic_of_type h.type routeTopicLen).2⟩

theorem ribGen_pos_iff (h : IsRouteMsg o msg) (hfits : ValuesFit o (memOf msg)) :
    0 < (ribGen o ntop behind msg).1 ↔ IsRouted o (memOf msg) := by
  rw [h.ribGen_eq hfits, (run_routeTopic_of_type h.type routeTopicLen).1, topicText_pos_iff]

/-- **The table by topics is the table by keys.** -/
theorem tableOf_eq_fibOf (behind : List UInt8 → List UInt8) (hntop : ntop.Faithful)
    (h : ∀ msg ∈ msgs, IsRouteMsg o msg ∧ Legible o msg) (hkey : key.Valid) :
    tableOf (ribGen o ntop behind) (msgs.filter fun msg => 0 < (ribGen o ntop behind msg).1)
      (keyText ntop key) = fibOf o msgs key := by
  have hfilter : (msgs.filter fun msg => 0 < (ribGen o ntop behind msg).1) = routed o msgs := by
    apply List.filter_congr
    intro msg hmsg
    rw [decide_eq_decide]
    exact ribGen_pos_iff (h msg hmsg).1 (h msg hmsg).2.fits
  rw [hfilter]
  apply Feed.replay_rename
  · intro msg hmsg
    obtain ⟨hmem, hrouted⟩ := List.mem_filter.mp hmsg
    rw [decide_eq_true_eq] at hrouted
    obtain ⟨hwhole, hleg⟩ := h msg hmem
    have htopic := (ribGen_routed behind hwhole hleg hntop hrouted).2.1
    show (ribGen o ntop behind msg).2.1 = keyText ntop key ↔ topicKey o (memOf msg) = key
    rw [htopic]
    constructor
    · exact hntop.keyText_inj hleg.printed.topicKey_valid hkey
    · intro he
      rw [he]
  · intro msg hmsg
    obtain ⟨hmem, hrouted⟩ := List.mem_filter.mp hmsg
    rw [decide_eq_true_eq] at hrouted
    obtain ⟨hwhole, hleg⟩ := h msg hmem
    show (if (ribGen o ntop behind msg).2.2 then none else some msg)
      = if nlmsgType o (memOf msg) 0 = rtmDelroute then none else some msg
    rw [(ribGen_routed behind hwhole hleg hntop hrouted).2.2]
    simp only [decide_eq_true_eq]

end Topics

/-! ## What `process_rtnl` passes on -/

section Passed

variable {o : ByteOrder} {m : Mem} {nlh : ℕ} {msg out : List UInt8} {pri : Level}

theorem isRouteMsg_of_processRtnl
    (htype : nlmsgType o m nlh = rtmNewroute ∨ nlmsgType o m nlh = rtmDelroute)
    (h : (processRtnl o m nlh).2 = some (out, pri)) : IsRouteMsg o out := by
  have hhdr : rtmsgLength = 28 := rfl
  unfold processRtnl at h
  split_ifs at h with hshort
  obtain ⟨rfl, -⟩ := Prod.mk.inj (Option.some.inj h)
  have hnorm : SameBytes 20 m nlh (normalise o m nlh) nlh := sameBytes_header_normalise
  have hcopy := sameBytes_slice (normalise o m nlh) nlh (nlmsgLen o m nlh)
  have hlen := (hcopy.load32_eq o (k := 0) (by omega)).trans (hnorm.load32_eq o (k := 0) (by omega))
  have htype' := (hcopy.load16_eq o (k := 4) (by omega)).trans
    (hnorm.load16_eq o (k := 4) (by omega))
  constructor
  · rw [length_slice]
    exact hlen
  · rw [length_slice]
    omega
  · show load16 o _ (0 + 4) = _ ∨ load16 o _ (0 + 4) = _
    rw [htype']
    exact htype

/-- **The live form of a message is a whole message.** -/
theorem isRouteMsg_of_liveForm (h : liveForm o msg = some (out, pri)) : IsRouteMsg o out := by
  unfold liveForm switchPublish at h
  split_ifs at h with hnew hdel
  · apply isRouteMsg_of_processRtnl _ h
    left
    have hkept : SameBytes 6 (memOf msg) 0 (store16 o (memOf msg) (0 + 6)
        (nlmsgFlags o (memOf msg) 0 ||| nlmFReplace)) 0 := by
      intro i hi
      exact store16_of_ne o (memOf msg) _ _ (by omega) (by omega)
    exact (hkept.load16_eq o (k := 4) (by omega)).trans hnew
  · exact isRouteMsg_of_processRtnl (Or.inr hdel) h

/-- **So is the dump form.** -/
theorem isRouteMsg_of_dumpForm (h : dumpForm o msg = some (out, pri)) : IsRouteMsg o out := by
  unfold dumpForm dumpRoute at h
  split_ifs at h with htype hprot
  exact isRouteMsg_of_processRtnl (Or.inl htype.1) h

end Passed
