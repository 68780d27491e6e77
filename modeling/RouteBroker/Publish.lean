/-
# What is published

A route message reaches `route_broker_publish` on three paths: live on the netlink socket
and inside of an FPM record, both through `process_nlmsg`, and in the dump of the kernel's
routes at start-up, through `dump_route`.  `process_nlmsg` sets `NLM_F_REPLACE` in an
`RTM_NEWROUTE` before it calls `process_rtnl`; `dump_route` calls `process_rtnl` directly.

What is published depends on the bytes of the message only, not on where it lies
(`switchPublish_eq_liveForm`), so that the paths can be compared message by message.

Main result: `dump_agrees_iff`.
-/
import RouteBroker.Fpm

/-- `dump_route(nlh)`: what is published. -/
def dumpRoute (o : ByteOrder) (m : Mem) (nlh : ℕ) : Option (List UInt8 × Level) :=
  if nlmsgType o m nlh = rtmNewroute ∧ rtmsgLength ≤ nlmsgLen o m nlh then
    -- Handle kernel routes only - others come from FPM
    if rtmProtocol m nlh = rtprotKernel then (processRtnl o m nlh).2 else none
  else none

/-- What the `switch` of `process_nlmsg` publishes. -/
def switchPublish (o : ByteOrder) (m : Mem) (nlh : ℕ) : Option (List UInt8 × Level) :=
  if nlmsgType o m nlh = rtmNewroute then
    (processRtnl o (store16 o m (nlh + 6) (nlmsgFlags o m nlh ||| nlmFReplace)) nlh).2
  else if nlmsgType o m nlh = rtmDelroute then (processRtnl o m nlh).2
  else none

/-- What a walk publishes. -/
def publishedOf (ev : List NlEvent) : List (List UInt8 × Level) :=
  ev.filterMap fun e => match e with
    | .publish msg pri => some (msg, pri)
    | _ => none

/-- What is published of the message `msg` when it arrives on one of the sockets. -/
def liveForm (o : ByteOrder) (msg : List UInt8) : Option (List UInt8 × Level) :=
  switchPublish o (memOf msg) 0

/-- What is published of the message `msg` when it arrives in the dump. -/
def dumpForm (o : ByteOrder) (msg : List UInt8) : Option (List UInt8 × Level) :=
  dumpRoute o (memOf msg) 0

/-- `NLM_F_REPLACE` is set in the message. -/
def HasReplace (o : ByteOrder) (msg : List UInt8) : Prop :=
  nlmsgFlags o (memOf msg) 0 &&& nlmFReplace ≠ 0

instance (o : ByteOrder) (msg : List UInt8) : Decidable (HasReplace o msg) :=
  inferInstanceAs (Decidable (_ ≠ _))

/-- An `RTM_NEWROUTE` of the kernel that is long enough for a `struct rtmsg`. -/
structure KernelNewroute (o : ByteOrder) (msg : List UInt8) : Prop where
  len : nlmsgLen o (memOf msg) 0 = msg.length
  long : rtmsgLength ≤ msg.length
  type : nlmsgType o (memOf msg) 0 = rtmNewroute
  protocol : rtmProtocol (memOf msg) 0 = rtprotKernel

/-! ## The place of the message -/

section Place

variable {o : ByteOrder} {m m' : Mem} {p p' n : ℕ}

theorem sameBytes_fixScope (h : SameBytes n m p m' p') (hn : 24 ≤ n) :
    SameBytes n (fixScope m p) p (fixScope m' p') p' := by
  have hprot : rtmProtocol m' p' = rtmProtocol m p := h 21 (by omega)
  have hfam : rtmFamily m' p' = rtmFamily m p := h 16 (by omega)
  have hscope : rtmScope m' p' = rtmScope m p := h 22 (by omega)
  unfold fixScope
  rw [hprot, hfam, hscope]
  split_ifs
  · exact h.update 22 _
  · exact h

theorem sameBytes_fixTable (h : SameBytes n m p m' p') (hn : 24 ≤ n) :
    SameBytes n (fixTable m p) p (fixTable m' p') p' := by
  have htable : rtmTable m' p' = rtmTable m p := h 20 (by omega)
  unfold fixTable
  rw [htable]
  split_ifs
  · exact h.update 20 _
  · exact h

theorem sameBytes_fixType (h : SameBytes n m p m' p') (hn : 24 ≤ n) :
    SameBytes n (fixType o m p) p (fixType o m' p') p' := by
  have htype : nlmsgType o m' p' = nlmsgType o m p := h.load16_eq o (by omega)
  have hpid : nlmsgPid o m' p' = nlmsgPid o m p := h.load32_eq o (by omega)
  have hrtm : rtmType m' p' = rtmType m p := h 23 (by omega)
  unfold fixType
  rw [htype, hpid, hrtm]
  split_ifs
  · exact h.update 23 _
  · exact h

/-- The three fixes look at the message only, and not at where it lies. -/
theorem sameBytes_normalise (h : SameBytes n m p m' p') (hn : 24 ≤ n) :
    SameBytes n (normalise o m p) p (normalise o m' p') p' :=
  sameBytes_fixType (sameBytes_fixTable (sameBytes_fixScope h hn) hn) hn

/-- What `process_rtnl` publishes depends on the bytes of the message. -/
theorem processRtnl_of_sameBytes (h : SameBytes n m p m' p') (hn : 4 ≤ n)
    (hlen : nlmsgLen o m p ≤ n) : (processRtnl o m' p').2 = (processRtnl o m p).2 := by
  have hlen' : nlmsgLen o m' p' = nlmsgLen o m p := h.load32_eq o (k := 0) (by omega)
  unfold processRtnl
  rw [hlen']
  split_ifs with hshort
  · rfl
  · unfold rtmsgLength nlmsgHdrlen at hshort
    have hbytes := (sameBytes_normalise (o := o) (h.mono hlen) (by omega)).slice_eq
    have hpri : rtnlPriority m' p' = rtnlPriority m p := by
      unfold rtnlPriority rtmProtocol
      rw [h 21 (by omega)]
    rw [hbytes, hpri]

/-- What is published is a matter of the bytes of the message. -/
theorem switchPublish_of_sameBytes (h : SameBytes n m p m' p') (hn : 16 ≤ n)
    (hlen : nlmsgLen o m p ≤ n) : switchPublish o m' p' = switchPublish o m p := by
  have htype : nlmsgType o m' p' = nlmsgType o m p := h.load16_eq o (by omega)
  have hflags : nlmsgFlags o m' p' = nlmsgFlags o m p := h.load16_eq o (by omega)
  unfold switchPublish
  rw [htype, hflags]
  have hset := processRtnl_of_sameBytes (o := o)
    (h.store o 6 (nlmsgFlags o m p ||| nlmFReplace)) (by omega)
    (by rw [nlmsgLen_setFlags]; exact hlen)
  rw [hset, processRtnl_of_sameBytes h (by omega) hlen]

/-- The socket path publishes the form that is said of the bytes alone. -/
theorem switchPublish_eq_liveForm (hlen : 16 ≤ nlmsgLen o m p) :
    switchPublish o m p = liveForm o (slice m p (nlmsgLen o m p)) :=
  (switchPublish_of_sameBytes (sameBytes_slice m p _) hlen (le_refl _)).symm

/-- So does the dump. -/
theorem dumpRoute_eq_dumpForm (hlen : 16 ≤ nlmsgLen o m p) :
    dumpRoute o m p = dumpForm o (slice m p (nlmsgLen o m p)) := by
  have h := sameBytes_slice m p (nlmsgLen o m p)
  have htype : nlmsgType o (memOf (slice m p (nlmsgLen o m p))) 0 = nlmsgType o m p :=
    h.load16_eq o (by omega)
  have hlen' : nlmsgLen o (memOf (slice m p (nlmsgLen o m p))) 0 = nlmsgLen o m p :=
    h.load32_eq o (k := 0) (by omega)
  unfold dumpForm dumpRoute
  rw [htype, hlen', processRtnl_of_sameBytes h (by omega) (le_refl _)]
  by_cases hlong : nlmsgType o m p = rtmNewroute ∧ rtmsgLength ≤ nlmsgLen o m p
  · have hprot : rtmProtocol (memOf (slice m p (nlmsgLen o m p))) 0 = rtmProtocol m p := by
      have hl := hlong.2
      unfold rtmsgLength nlmsgHdrlen at hl
      exact h 21 (by omega)
    rw [if_pos hlong, if_pos hlong, hprot]
  · rw [if_neg hlong, if_neg hlong]

end Place

/-! ## The walk -/

section Walk

variable {o : ByteOrder} {m : Mem} {p : ℕ}

theorem publishedOf_append (ev ev' : List NlEvent) :
    publishedOf (ev ++ ev') = publishedOf ev ++ publishedOf ev' := List.filterMap_append

/-- A message that is handled publishes what `process_rtnl` makes of it. -/
theorem publishedOf_handleRoute (o : ByteOrder) (m : Mem) (p : ℕ) (msg : List UInt8) :
    publishedOf (handleRoute o m p msg).1 = (processRtnl o m p).2.toList := by
  unfold handleRoute
  dsimp only
  cases (processRtnl o m p).2 with
  | none => rfl
  | some r => rfl

/-- One round publishes what the message it passes on comes to. -/
theorem publishedOf_nlmsgSwitch (hlen : 16 ≤ nlmsgLen o m p) :
    publishedOf (nlmsgSwitch o m p).1
      = (routesOf (nlmsgSwitch o m p).1).filterMap (liveForm o) := by
  have hform := switchPublish_eq_liveForm hlen
  have hone : ∀ x : Option (List UInt8 × Level), liveForm o (slice m p (nlmsgLen o m p)) = x →
      [slice m p (nlmsgLen o m p)].filterMap (liveForm o) = x.toList := by
    rintro x rfl
    cases h : liveForm o (slice m p (nlmsgLen o m p)) with
    | none => simp [h]
    | some r => simp [h]
  unfold switchPublish at hform
  unfold nlmsgSwitch
  split_ifs at hform ⊢
  · rw [publishedOf_handleRoute, routesOf_handleRoute, hone _ hform.symm]
  · rw [publishedOf_handleRoute, routesOf_handleRoute, hone _ hform.symm]
  · rfl

/-- **A walk publishes the live form of each message it passes on.** -/
theorem publishedOf_walk (o : ByteOrder) (fuel : ℕ) (m : Mem) (p len : ℕ) :
    publishedOf (processNlmsg o fuel m p len).1
      = (routesOf (processNlmsg o fuel m p len).1).filterMap (liveForm o) := by
  induction fuel generalizing m p len with
  | zero => rfl
  | succ fuel ih =>
    have h16 : nlmsgHdrlen = 16 := rfl
    by_cases hshort : len < nlmsgHdrlen
    · rw [processNlmsg_short o fuel m p hshort]
      rfl
    by_cases hunfit : nlmsgLen o m p < nlmsgHdrlen ∨ len < nlmsgLen o m p
    · rw [processNlmsg_unfit fuel hshort hunfit]
      rfl
    rw [processNlmsg_round fuel (by omega) (by omega) rfl, publishedOf_append, routesOf_append,
      List.filterMap_append]
    congr 1
    · exact publishedOf_nlmsgSwitch (by omega)
    · exact ih _ _ _

end Walk

/-! ## The flag -/

section Flag

variable {o : ByteOrder} {msg : List UInt8}

/-- Setting `NLM_F_REPLACE` changes nothing when it is set. -/
theorem or_eq_self_iff (n : ℕ) : n ||| nlmFReplace = n ↔ n &&& nlmFReplace ≠ 0 := by
  have hpow : nlmFReplace = 2 ^ 8 := rfl
  have hand : n &&& nlmFReplace ≠ 0 ↔ n.testBit 8 = true := by
    rw [hpow, Nat.and_two_pow]
    cases n.testBit 8 with
    | false => simp
    | true => simp
  rw [hand]
  constructor
  · intro h
    rw [← h, Nat.testBit_or, hpow, Nat.testBit_two_pow_self, Bool.or_true]
  · intro h
    apply Nat.eq_of_testBit_eq
    intro i
    rw [Nat.testBit_or, hpow, Nat.testBit_two_pow]
    by_cases hi : 8 = i
    · rw [← hi, h, Bool.true_or]
    · rw [decide_eq_false hi, Bool.or_false]

/-- The flags in what is published are those that `process_rtnl` found. -/
theorem flags_normalise (o : ByteOrder) (m : Mem) {n : ℕ} (hn : 8 ≤ n) :
    nlmsgFlags o (memOf (slice (normalise o m 0) 0 n)) 0 = nlmsgFlags o m 0 := by
  have hslice := (sameBytes_slice (normalise o m 0) 0 n).load16_eq o (k := 6) (by omega)
  have hkept : SameBytes 8 m 0 (normalise o m 0) 0 := by
    intro i hi
    apply normalise_of_ne
    · omega
    · omega
    · omega
  exact hslice.trans (hkept.load16_eq o (k := 6) (by omega))

theorem KernelNewroute.dumpForm_eq (h : KernelNewroute o msg) :
    dumpForm o msg
      = some (slice (normalise o (memOf msg) 0) 0 msg.length, routeConnected) := by
  have hlong : ¬ nlmsgLen o (memOf msg) 0 < rtmsgLength := by
    rw [h.len]
    exact not_lt.mpr h.long
  unfold dumpForm dumpRoute processRtnl rtnlPriority
  rw [if_pos ⟨h.type, not_lt.mp hlong⟩, if_pos h.protocol, if_neg hlong, h.len,
    if_pos h.protocol]

/-- The message with `NLM_F_REPLACE`. -/
def setReplace (o : ByteOrder) (msg : List UInt8) : Mem :=
  store16 o (memOf msg) 6 (nlmsgFlags o (memOf msg) 0 ||| nlmFReplace)

theorem KernelNewroute.liveForm_eq (h : KernelNewroute o msg) :
    liveForm o msg
      = some (slice (normalise o (setReplace o msg) 0) 0 msg.length, routeConnected) := by
  have hset : store16 o (memOf msg) (0 + 6) (nlmsgFlags o (memOf msg) 0 ||| nlmFReplace)
      = setReplace o msg := by
    rw [Nat.zero_add]
    rfl
  have hlen : nlmsgLen o (setReplace o msg) 0 = msg.length := by
    rw [← hset, nlmsgLen_setFlags]
    exact h.len
  have hprot : rtmProtocol (setReplace o msg) 0 = rtprotKernel := by
    refine Eq.trans ?_ h.protocol
    unfold rtmProtocol setReplace
    exact store16_of_ne o (memOf msg) 6 _ (by omega) (by omega)
  unfold liveForm switchPublish processRtnl rtnlPriority
  rw [if_pos h.type, hset, hlen, if_neg (not_lt.mpr h.long), if_pos hprot]

/-- The other flags stay. -/
theorem setReplace_flags (o : ByteOrder) (msg : List UInt8) :
    nlmsgFlags o (setReplace o msg) 0 = nlmsgFlags o (memOf msg) 0 ||| nlmFReplace := by
  have hlt : nlmsgFlags o (memOf msg) 0 ||| nlmFReplace < 2 ^ 16 :=
    Nat.or_lt_two_pow (o.u16_lt _ _) (by decide)
  exact load16_store16 o (memOf msg) 6 hlt

end Flag

/-! ## The paths -/

/-- **The dump agrees with the sockets exactly on messages that have `NLM_F_REPLACE`
already.**  Whatever the buffer, `process_nlmsg` publishes of every route message that it
passes on its live form, so that the netlink socket and the FPM agree; and `dump_route`
publishes the dump form of its message.  Of an `RTM_NEWROUTE` of the kernel the live form
always has `NLM_F_REPLACE`, the dump form only if the message has it, and exactly then the
two are the same. -/
theorem dump_agrees_iff (o : ByteOrder) :
    (∀ fuel m p len, publishedOf (processNlmsg o fuel m p len).1
      = (routesOf (processNlmsg o fuel m p len).1).filterMap (liveForm o)) ∧
    (∀ m p, nlmsgHdrlen ≤ nlmsgLen o m p →
      dumpRoute o m p = dumpForm o (slice m p (nlmsgLen o m p))) ∧
    ∀ msg, KernelNewroute o msg →
      (∃ out pri, liveForm o msg = some (out, pri) ∧ HasReplace o out) ∧
      (∃ out pri, dumpForm o msg = some (out, pri) ∧ (HasReplace o out ↔ HasReplace o msg)) ∧
      (dumpForm o msg = liveForm o msg ↔ HasReplace o msg) := by
  refine ⟨publishedOf_walk o, fun m p hlen => dumpRoute_eq_dumpForm hlen, fun msg h => ?_⟩
  have hlong := h.long
  unfold rtmsgLength nlmsgHdrlen at hlong
  have hdump := flags_normalise o (memOf msg) (show 8 ≤ msg.length by omega)
  have hlive := flags_normalise o (setReplace o msg) (show 8 ≤ msg.length by omega)
  rw [setReplace_flags] at hlive
  refine ⟨⟨_, _, h.liveForm_eq, ?_⟩, ⟨_, _, h.dumpForm_eq, ?_⟩, ?_⟩
  · unfold HasReplace
    rw [hlive, ← or_eq_self_iff, Nat.or_assoc, Nat.or_self]
  · unfold HasReplace
    rw [hdump]
  · rw [h.dumpForm_eq, h.liveForm_eq]
    constructor
    · intro heq
      have hbytes := (Prod.mk.inj (Option.some.inj heq)).1
      rw [hbytes, hlive] at hdump
      exact (or_eq_self_iff _).mp hdump
    · intro hset
      have hmem : setReplace o msg = memOf msg := by
        unfold setReplace
        rw [(or_eq_self_iff _).mpr hset]
        exact store16_load16 o (memOf msg) 6
      rw [hmem]

/-- An `RTM_NEWROUTE` of the kernel for the default route, with the flags `flags`. -/
def defaultRoute (flags : UInt8) : List UInt8 :=
  [28, 0, 0, 0, 24, 0, 2, flags, 0, 0, 0, 0, 0, 0, 0, 0, 2, 0, 0, 0, 254, 2, 253, 1, 0, 0, 0, 0]

/-- The theorem at a message with `NLM_F_REPLACE`. -/
theorem dump_agrees_replace :
    dumpForm .little (defaultRoute 1) = liveForm .little (defaultRoute 1) :=
  ((dump_agrees_iff .little).2.2 (defaultRoute 1)
    ⟨by decide, by decide, by decide, by decide⟩).2.2.mpr (by decide)

/-- **A dumped route is published without `NLM_F_REPLACE`.**  The kernel marks dumped
messages with `NLM_F_MULTI` only. -/
theorem dump_lacks_replace :
    ∃ out, dumpForm .little (defaultRoute 0) = some (out, routeConnected) ∧
      ¬ HasReplace .little out ∧
      dumpForm .little (defaultRoute 0) ≠ liveForm .little (defaultRoute 0) := by
  refine ⟨[28, 0, 0, 0, 24, 0, 2, 0, 0, 0, 0, 0, 0, 0, 0, 0, 2, 0, 0, 0, 254, 2, 0, 1, 0, 0, 0, 0],
    ?_, ?_, ?_⟩
  · decide +kernel
  · decide +kernel
  · decide +kernel
