/-
# Copies of a route share a topic

Routes are received from the kernel and from FRR, with small differences: the scope of
connected IPv4 routes, a table that is not given, a type that is not given in a deletion.
`process_rtnl` rewrites the message before it is published, so that copies of one route
get one topic.  `canonicalKey` says on the received messages when this is so.

A rewritten message is not changed again (`normalRoute_normalise`), and the attributes are
not touched (`lastAttr_congr`).

Main result: `copies_share_topic`.
-/
import RouteBroker.TopicKey

/-! ## What `process_rtnl` leaves to change -/

section Normal

variable {o : ByteOrder} {m m' : Mem} {nlh : ℕ}

/-- There is nothing to change in the message. -/
structure NormalRoute (o : ByteOrder) (m : Mem) (nlh : ℕ) : Prop where
  scope : ¬ (rtmProtocol m nlh = rtprotKernel ∧ rtmFamily m nlh = afInet ∧
    rtmScope m nlh = rtScopeLink)
  table : rtmTable m nlh ≠ rtTableUnspec
  type : ¬ (nlmsgType o m nlh = rtmDelroute ∧ nlmsgPid o m nlh ≠ 0 ∧ rtmType m nlh = rtnUnspec)

theorem NormalRoute.normalise_eq (h : NormalRoute o m nlh) : normalise o m nlh = m := by
  rw [normalise, fixScope, if_neg h.scope, fixTable, if_neg h.table, fixType, if_neg h.type]

theorem fixScope_scope : rtmScope (fixScope m nlh) nlh =
    if rtmProtocol m nlh = rtprotKernel ∧ rtmFamily m nlh = afInet ∧ rtmScope m nlh = rtScopeLink
    then rtScopeUniverse else rtmScope m nlh := by
  unfold fixScope
  split_ifs
  · exact Function.update_self _ _ _
  · rfl

theorem fixTable_table : rtmTable (fixTable m nlh) nlh =
    if rtmTable m nlh = rtTableUnspec then rtTableMain else rtmTable m nlh := by
  unfold fixTable
  split_ifs
  · exact Function.update_self _ _ _
  · rfl

theorem fixType_type : rtmType (fixType o m nlh) nlh =
    if nlmsgType o m nlh = rtmDelroute ∧ nlmsgPid o m nlh ≠ 0 ∧ rtmType m nlh = rtnUnspec
    then rtnUnicast else rtmType m nlh := by
  unfold fixType
  split_ifs
  · exact Function.update_self _ _ _
  · rfl

/-- The scope that a route is published with. -/
def canonicalScope (m : Mem) (nlh : ℕ) : UInt8 :=
  if rtmProtocol m nlh = rtprotKernel ∧ rtmFamily m nlh = afInet ∧ rtmScope m nlh = rtScopeLink
  then rtScopeUniverse else rtmScope m nlh

/-- The table that a route is published with, if it has no attribute for it. -/
def canonicalTable (m : Mem) (nlh : ℕ) : UInt8 :=
  if rtmTable m nlh = rtTableUnspec then rtTableMain else rtmTable m nlh

theorem normalise_scope : rtmScope (normalise o m nlh) nlh = canonicalScope m nlh := by
  have h1 : rtmScope (normalise o m nlh) nlh = rtmScope (fixScope m nlh) nlh := by
    rw [normalise, rtmScope, fixType_of_ne (by omega), fixTable_of_ne (by omega), rtmScope]
  rw [h1, fixScope_scope, canonicalScope]

theorem normalise_table : rtmTable (normalise o m nlh) nlh = canonicalTable m nlh := by
  have h1 : rtmTable (normalise o m nlh) nlh = rtmTable (fixTable (fixScope m nlh) nlh) nlh := by
    rw [normalise, rtmTable, fixType_of_ne (by omega), rtmTable]
  have h2 : rtmTable (fixScope m nlh) nlh = rtmTable m nlh := fixScope_of_ne (by omega)
  rw [h1, fixTable_table, h2, canonicalTable]

theorem canonicalTable_ne : canonicalTable m nlh ≠ rtTableUnspec := by
  unfold canonicalTable
  split_ifs with h
  · decide
  · exact h

/-- Messages with the same fields. -/
theorem sameBytes_header_normalise :
    SameBytes 20 m nlh (normalise o m nlh) nlh := by
  intro i hi
  exact normalise_of_ne (by omega) (by omega) (by omega)

/-- **What `process_rtnl` wrote is normal.** -/
theorem normalRoute_normalise : NormalRoute o (normalise o m nlh) nlh where
  scope := by
    have hprotocol : rtmProtocol (normalise o m nlh) nlh = rtmProtocol m nlh :=
      normalise_of_ne (by omega) (by omega) (by omega)
    have hfamily : rtmFamily (normalise o m nlh) nlh = rtmFamily m nlh :=
      normalise_of_ne (by omega) (by omega) (by omega)
    rw [hprotocol, hfamily, normalise_scope, canonicalScope]
    rintro ⟨h1, h2, h3⟩
    split_ifs at h3 with hfix
    · exact absurd h3 (by decide)
    · exact hfix ⟨h1, h2, h3⟩
  table := by
    rw [normalise_table]
    exact canonicalTable_ne
  type := by
    rintro ⟨htype, hpid, hunspec⟩
    rw [normalise, fixType_type] at hunspec
    split_ifs at hunspec with hfix
    · exact absurd hunspec (by decide)
    · have hsame : SameBytes 20 (fixTable (fixScope m nlh) nlh) nlh (normalise o m nlh) nlh :=
        fun i hi => fixType_of_ne (by omega)
      have htype' := hsame.load16_eq o (k := 4) (by omega)
      have hpid' := hsame.load32_eq o (k := 12) (by omega)
      exact hfix ⟨htype'.symm.trans htype, fun h0 => hpid (hpid'.trans h0), hunspec⟩

end Normal

/-! ## The canonical key -/

section Attributes

variable {o : ByteOrder} {m m' : Mem}

theorem attrsFrom_congr {start tail fuel attr : ℕ} (h : SameFrom start m m')
    (hattr : start ≤ attr) : attrsFrom o m' tail fuel attr = attrsFrom o m tail fuel attr := by
  induction fuel generalizing attr with
  | zero => rfl
  | succ fuel ih =>
    rw [attrsFrom, attrsFrom, h.load16_eq hattr o, ih (by omega)]

theorem le_of_mem_attrsFrom {tail fuel attr a : ℕ} (h : a ∈ attrsFrom o m tail fuel attr) :
    attr ≤ a := by
  induction fuel generalizing attr with
  | zero => cases h
  | succ fuel ih =>
    rw [attrsFrom] at h
    split_ifs at h
    · cases h
    · rcases List.mem_cons.mp h with rfl | h
      · omega
      · have hle := ih h
        omega

theorem le_of_lastAttr {type a : ℕ} (h : lastAttr o m type = some a) : rtmsgLength ≤ a :=
  le_of_mem_attrsFrom (List.mem_of_mem_filter (List.mem_of_getLast? h))

/-- The attributes do not depend on the header behind the length. -/
theorem lastAttr_congr (h : SameFrom rtmsgLength m m') (hlen : nlmsgLen o m' 0 = nlmsgLen o m 0)
    (type : ℕ) : lastAttr o m' type = lastAttr o m type := by
  have hattrs : attrs o m' = attrs o m := by
    rw [attrs, attrs, hlen, attrsFrom_congr h (by omega)]
  rw [lastAttr, lastAttr, hattrs]
  congr 1
  apply List.filter_congr
  intro a ha
  have hle := le_of_mem_attrsFrom ha
  rw [attrType, attrType, h.load16_eq (by omega) o]

theorem attrValue_congr (h : SameFrom rtmsgLength m m') {attr : Option ℕ}
    (hattr : ∀ a ∈ attr, rtmsgLength ≤ a) (default : ℕ) :
    attrValue o m' attr default = attrValue o m attr default := by
  cases attr with
  | none => rfl
  | some a =>
    have hle := hattr a rfl
    exact h.load32_eq (by omega) o

theorem attrAddr_congr (h : SameFrom rtmsgLength m m') {attr : Option ℕ}
    (hattr : ∀ a ∈ attr, rtmsgLength ≤ a) (n : ℕ) : attrAddr m' attr n = attrAddr m attr n := by
  cases attr with
  | none => rfl
  | some a =>
    have hle := hattr a rfl
    exact h.slice_eq (by omega) n

end Attributes

/-- What a received unicast route is known by: the family, the destination, its length, the
scope and the table with which it is published. -/
def canonicalKey (o : ByteOrder) (m : Mem) : TopicKey :=
  .unicast (rtmFamily m 0) (attrAddr m (lastAttr o m rtaDst) (addrWidth (rtmFamily m 0)))
    (rtmDstLen m) (canonicalScope m 0)
    (attrValue o m (lastAttr o m rtaTable) (canonicalTable m 0).toNat)

/-- A unicast route with a topic. -/
structure IsUnicast (o : ByteOrder) (m : Mem) : Prop where
  family : rtmFamily m 0 = afInet ∨ rtmFamily m 0 = afInet6
  not_multicast : rtmType m 0 ≠ rtnMulticast
  not_broadcast : rtmType m 0 ≠ rtnBroadcast
  not_cloned : rtmFlags o m &&& rtmFCloned = 0

/-- The attributes have room for the values that are read from them. -/
def WellSized (o : ByteOrder) (m : Mem) : Prop :=
  ∀ v ∈ valuesRead o m, ∀ a ∈ v.1, 4 + v.2 ≤ load16 o m a

section Unicast

variable {o : ByteOrder} {m m' : Mem} {ntop : Ntop}

theorem IsUnicast.not_mpls (h : IsUnicast o m) : rtmFamily m 0 ≠ afMpls := by
  rcases h.family with h | h
  · rw [h]
    decide
  · rw [h]
    decide

theorem IsUnicast.printed (h : IsUnicast o m) : FamilyPrinted m :=
  .inr (.inr ⟨h.not_multicast, h.family⟩)

/-- The key of a unicast route that was rewritten. -/
theorem IsUnicast.topicKey_normalise (h : IsUnicast o (normalise o m 0)) :
    topicKey o (normalise o m 0) = canonicalKey o m := by
  have hhdr : SameBytes 20 m 0 (normalise o m 0) 0 := sameBytes_header_normalise
  have hsame : SameFrom rtmsgLength m (normalise o m 0) := by
    intro x hx
    have hx' : 28 ≤ x := hx
    exact normalise_of_ne (by omega) (by omega) (by omega)
  have hlen : nlmsgLen o (normalise o m 0) 0 = nlmsgLen o m 0 :=
    hhdr.load32_eq o (k := 0) (by omega)
  have hfamily : rtmFamily (normalise o m 0) 0 = rtmFamily m 0 := hhdr 16 (by omega)
  have hdstLen : rtmDstLen (normalise o m 0) = rtmDstLen m := hhdr 17 (by omega)
  rw [topicKey, if_neg h.not_mpls, if_neg h.not_multicast, canonicalKey, routeTable,
    lastAttr_congr hsame hlen, lastAttr_congr hsame hlen, hfamily, hdstLen, normalise_scope,
    normalise_table, attrAddr_congr hsame fun _ => le_of_lastAttr,
    attrValue_congr hsame fun _ => le_of_lastAttr]

theorem lastAttr_of_valuesRead {v : Option ℕ × ℕ} (h : v ∈ valuesRead o m) :
    ∃ type, v.1 = lastAttr o m type := by
  unfold valuesRead at h
  split_ifs at h
  · rw [List.mem_singleton.mp h]
    exact ⟨rtaDst, rfl⟩
  · cases h
  · simp only [List.mem_cons, List.not_mem_nil, or_false] at h
    rcases h with rfl | rfl | rfl | rfl | rfl
    · exact ⟨rtaIif, rfl⟩
    · exact ⟨rtaOif, rfl⟩
    · exact ⟨rtaTable, rfl⟩
    · exact ⟨rtaDst, rfl⟩
    · exact ⟨rtaSrc, rfl⟩
  · cases h
  · simp only [List.mem_cons, List.not_mem_nil, or_false] at h
    rcases h with rfl | rfl
    · exact ⟨rtaTable, rfl⟩
    · exact ⟨rtaDst, rfl⟩

/-- Attributes end in the message, and so do their values. -/
theorem WellSized.valuesFit (h : WellSized o m) : ValuesFit o m := by
  intro v hv a ha
  obtain ⟨type, htype⟩ := lastAttr_of_valuesRead hv
  have hsize := h v hv a ha
  rw [htype] at ha
  have hfits := lastAttr_fits ha
  omega

/-- The topic of a unicast route in a message that holds the values. -/
theorem IsUnicast.run_routeTopic (h : IsUnicast o m) (hntop : ntop.Faithful)
    (htype : nlmsgType o m 0 = rtmNewroute ∨ nlmsgType o m 0 = rtmDelroute) :
    ((routeTopic o ntop routeTopicLen).run m).2.1 = keyText ntop (topicKey o m) := by
  have hlen := hntop.length_keyText (h.printed.topicKey_valid (o := o))
  have htext := run_topicText_unicast ntop routeTopicLen h.not_mpls h.not_multicast
    h.not_broadcast h.not_cloned
  have hrun : (Reader.u16 o 4).run m = nlmsgType o m 0 := rfl
  rw [snprintf_of_lt hlen] at htext
  rw [routeTopic, Reader.run_bind, hrun]
  rcases htype with hnew | hdel
  · rw [if_pos hnew, Reader.run_bind, htext]
    rfl
  · rw [if_neg (by rw [hdel]; decide), if_pos hdel, Reader.run_bind, htext]
    rfl

end Unicast

/-! ## Published copies -/

/-- `process_rtnl` publishes the message at address 0 of `m` with the priority `pri`, and
`c` is the memory from the copy on that `route_broker_publish` makes of it. -/
def PublishedAs (o : ByteOrder) (m : Mem) (pri : Level) (c : Mem) : Prop :=
  ∃ msg, (processRtnl o m 0).2 = some (msg, pri) ∧ slice c 0 msg.length = msg

section Published

variable {o : ByteOrder} {m c : Mem} {pri : Level} {nlh : ℕ}

/-- The copy holds the bytes of the rewritten message. -/
theorem PublishedAs.sameBytes (h : PublishedAs o m pri c) :
    rtmsgLength ≤ nlmsgLen o m 0 ∧ SameBytes (nlmsgLen o m 0) (normalise o m 0) 0 c 0 := by
  obtain ⟨msg, hpub, hcopy⟩ := h
  unfold processRtnl at hpub
  by_cases hlen : nlmsgLen o m 0 < rtmsgLength
  · rw [if_pos hlen] at hpub
    cases hpub
  · rw [if_neg hlen] at hpub
    have hmsg : slice (normalise o m 0) 0 (nlmsgLen o m 0) = msg :=
      congrArg Prod.fst (Option.some.inj hpub)
    rw [← hmsg, length_slice] at hcopy
    exact ⟨not_lt.mp hlen, fun i hi => eq_of_slice_eq hcopy hi⟩

theorem PublishedAs.isUnicast (h : PublishedAs o m pri c) (hform : IsUnicast o c) :
    IsUnicast o (normalise o m 0) := by
  obtain ⟨hlen, hcopy⟩ := h.sameBytes
  have hhdr : rtmsgLength = 28 := rfl
  have hback := hcopy.symm
  have hfamily : rtmFamily (normalise o m 0) 0 = rtmFamily c 0 := hback 16 (by omega)
  have htype : rtmType (normalise o m 0) 0 = rtmType c 0 := hback 23 (by omega)
  have hflags : rtmFlags o (normalise o m 0) = rtmFlags o c :=
    hback.load32_eq o (k := 24) (by omega)
  constructor
  · rw [hfamily]
    exact hform.family
  · rw [htype]
    exact hform.not_multicast
  · rw [htype]
    exact hform.not_broadcast
  · rw [hflags]
    exact hform.not_cloned

/-- **The topic of a published unicast route is the text of its canonical key.** -/
theorem PublishedAs.topic_eq (h : PublishedAs o m pri c) {ntop : Ntop} (hntop : ntop.Faithful)
    (htype : nlmsgType o m 0 = rtmNewroute ∨ nlmsgType o m 0 = rtmDelroute)
    (hform : IsUnicast o c) (hsize : WellSized o c) :
    ((routeTopic o ntop routeTopicLen).run c).2.1 = keyText ntop (canonicalKey o m) := by
  obtain ⟨hlen, hcopy⟩ := h.sameBytes
  have hhdr : rtmsgLength = 28 := rfl
  have hnorm : SameBytes 20 m 0 (normalise o m 0) 0 := sameBytes_header_normalise
  have htypeN : nlmsgType o (normalise o m 0) 0 = nlmsgType o m 0 :=
    hnorm.load16_eq o (k := 4) (by omega)
  have htypeC : nlmsgType o c 0 = nlmsgType o m 0 :=
    (hcopy.load16_eq o (k := 4) (by omega)).trans htypeN
  have hlenC : nlmsgLen o c 0 = nlmsgLen o m 0 :=
    (hcopy.load32_eq o (k := 0) (by omega)).trans (hnorm.load32_eq o (k := 0) (by omega))
  -- the topic does not depend on what follows the copy
  have hwithin : (routeTopic o ntop routeTopicLen).Within c (nlmsgLen o c 0) :=
    (within_routeTopic ntop (by rw [htypeC]; exact htype) (by omega) routeTopicLen).mpr
      hsize.valuesFit
  have hagree : ∀ a < nlmsgLen o c 0, normalise o m 0 a = c a := by
    intro a ha
    have hsame := hcopy.symm a (by omega)
    rwa [Nat.zero_add] at hsame
  have hformN := h.isUnicast hform
  rw [← hwithin.run_eq hagree, hformN.run_routeTopic hntop (by rw [htypeN]; exact htype),
    hformN.topicKey_normalise]

theorem PublishedAs.canonicalKey_valid (h : PublishedAs o m pri c) (hform : IsUnicast o c) :
    (canonicalKey o m).Valid := by
  have hformN := h.isUnicast hform
  rw [← hformN.topicKey_normalise]
  exact hformN.printed.topicKey_valid

/-- `process_rtnl` leaves its own output as it is, and publishes it alike. -/
theorem processRtnl_processRtnl :
    processRtnl o (processRtnl o m nlh).1 nlh = processRtnl o m nlh := by
  have hnorm : SameBytes 20 m nlh (normalise o m nlh) nlh := sameBytes_header_normalise
  have hlen : nlmsgLen o (normalise o m nlh) nlh = nlmsgLen o m nlh :=
    hnorm.load32_eq o (k := 0) (by omega)
  have hprotocol : rtmProtocol (normalise o m nlh) nlh = rtmProtocol m nlh :=
    normalise_of_ne (by omega) (by omega) (by omega)
  by_cases hshort : nlmsgLen o m nlh < rtmsgLength
  · have hself : processRtnl o m nlh = (m, none) := by rw [processRtnl, if_pos hshort]
    rw [hself, hself]
  · have hself : processRtnl o m nlh = (normalise o m nlh,
        some (slice (normalise o m nlh) nlh (nlmsgLen o m nlh), rtnlPriority m nlh)) := by
      rw [processRtnl, if_neg hshort]
    have hpri : rtnlPriority (normalise o m nlh) nlh = rtnlPriority m nlh := by
      rw [rtnlPriority, rtnlPriority, hprotocol]
    rw [hself, processRtnl, hlen, if_neg hshort, normalRoute_normalise.normalise_eq, hpri]

end Published

/-- **Kernel and FRR copies of a route share a topic.**  The topics of two published unicast
routes are equal iff the canonical keys of the received messages are.  Nothing but the
scope, the table and the type of a message is changed, and nothing is changed again. -/
theorem copies_share_topic (o : ByteOrder) (ntop : Ntop) (hntop : ntop.Faithful) :
    (∀ (m m' c c' : Mem) (pri pri' : Level),
      PublishedAs o m pri c → PublishedAs o m' pri' c' →
      (nlmsgType o m 0 = rtmNewroute ∨ nlmsgType o m 0 = rtmDelroute) →
      (nlmsgType o m' 0 = rtmNewroute ∨ nlmsgType o m' 0 = rtmDelroute) →
      IsUnicast o c → IsUnicast o c' → WellSized o c → WellSized o c' →
      (((routeTopic o ntop routeTopicLen).run c).2.1 =
          ((routeTopic o ntop routeTopicLen).run c').2.1 ↔
        canonicalKey o m = canonicalKey o m')) ∧
    (∀ (m : Mem) (nlh x : ℕ), (processRtnl o m nlh).1 x ≠ m x →
      x = nlh + 20 ∨ x = nlh + 22 ∨ x = nlh + 23) ∧
    ∀ (m : Mem) (nlh : ℕ), processRtnl o (processRtnl o m nlh).1 nlh = processRtnl o m nlh := by
  refine ⟨?_, ?_, fun m nlh => processRtnl_processRtnl⟩
  · intro m m' c c' pri pri' hpub hpub' htype htype' hform hform' hsize hsize'
    rw [hpub.topic_eq hntop htype hform hsize, hpub'.topic_eq hntop htype' hform' hsize']
    constructor
    · exact hntop.keyText_inj (hpub.canonicalKey_valid hform) (hpub'.canonicalKey_valid hform')
    · intro h
      rw [h]
  · intro m nlh x hx
    by_contra hother
    apply hx
    unfold processRtnl
    split_ifs
    · rfl
    · exact normalise_of_ne (by omega) (by omega) (by omega)

/-- The connected route 10.1.0.0/16 from the kernel, with link scope. -/
def kernelRoute : List UInt8 :=
  [36, 0, 0, 0, 24, 0, 0, 0, 0, 0, 0, 0, 0, 0, 0, 0,
   2, 16, 0, 0, 254, 2, 253, 1, 0, 0, 0, 0,
   8, 0, 1, 0, 10, 1, 0, 0]

/-- The message after `process_rtnl`. -/
def kernelRoute' : List UInt8 :=
  [36, 0, 0, 0, 24, 0, 0, 0, 0, 0, 0, 0, 0, 0, 0, 0,
   2, 16, 0, 0, 254, 2, 0, 1, 0, 0, 0, 0,
   8, 0, 1, 0, 10, 1, 0, 0]

/-- The deletion of the route from FRR, without table and type. -/
def frrDelete : List UInt8 :=
  [36, 0, 0, 0, 25, 0, 0, 0, 0, 0, 0, 0, 7, 0, 0, 0,
   2, 16, 0, 0, 0, 11, 0, 0, 0, 0, 0, 0,
   8, 0, 1, 0, 10, 1, 0, 0]

/-- The message after `process_rtnl`. -/
def frrDelete' : List UInt8 :=
  [36, 0, 0, 0, 25, 0, 0, 0, 0, 0, 0, 0, 7, 0, 0, 0,
   2, 16, 0, 0, 254, 11, 0, 1, 0, 0, 0, 0,
   8, 0, 1, 0, 10, 1, 0, 0]

theorem copies_share_topic_connected :
    ((routeTopic .little plainNtop routeTopicLen).run (memOf kernelRoute')).2.1 =
      ((routeTopic .little plainNtop routeTopicLen).run (memOf frrDelete')).2.1 := by
  have hpub : PublishedAs .little (memOf kernelRoute) routeConnected (memOf kernelRoute') :=
    ⟨kernelRoute', by decide +kernel, by decide +kernel⟩
  have hpub' : PublishedAs .little (memOf frrDelete) routeOther (memOf frrDelete') :=
    ⟨frrDelete', by decide +kernel, by decide +kernel⟩
  have hform : IsUnicast .little (memOf kernelRoute') :=
    ⟨by decide, by decide, by decide, by decide⟩
  have hform' : IsUnicast .little (memOf frrDelete') :=
    ⟨by decide, by decide, by decide, by decide⟩
  have hsize : WellSized .little (memOf kernelRoute') := by
    unfold WellSized
    decide +kernel
  have hsize' : WellSized .little (memOf frrDelete') := by
    unfold WellSized
    decide +kernel
  apply ((copies_share_topic .little plainNtop plainNtop_faithful).1 (memOf kernelRoute)
    (memOf frrDelete) (memOf kernelRoute') (memOf frrDelete') routeConnected routeOther
    hpub hpub' (.inl (by decide)) (.inr (by decide)) hform hform' hsize hsize').mpr
  decide +kernel
