/-
# Netlink messages

`process_nlmsg` walks over the netlink messages of a buffer with the macros `NLMSG_OK` and
`NLMSG_NEXT` and passes route messages to `process_rtnl`, which rewrites some header
fields in place and publishes the message.

The remaining length is a `size_t`.  `NLMSG_OK` lets a message through that fits without
its padding, and `NLMSG_NEXT` subtracts the padded length: at the end of a buffer whose
length is not a multiple of 4 the counter can wrap, and the walk goes on behind the
buffer.  `WellCut` says that this does not happen.

Main result: `datagram_walk_safe_iff`.
-/
import RouteBroker.Bytes
import RouteBroker.Route

/-! ## Constants of `linux/netlink.h` and `linux/rtnetlink.h` -/

/-- `sizeof(struct nlmsghdr)`, which is `NLMSG_HDRLEN` too -/
def nlmsgHdrlen : ℕ := 16

/-- `NLMSG_LENGTH(sizeof(struct rtmsg))` -/
def rtmsgLength : ℕ := nlmsgHdrlen + 12

/-- `NLMSG_ALIGN(len)` for a 32 bit `len`: with `NLMSG_ALIGNTO` an `unsigned int`, the
addition is one of 32 bits. -/
def nlmsgAlign (len : ℕ) : ℕ := (len + 3) % 2 ^ 32 / 4 * 4

def rtmNewroute : ℕ := 24
def rtmDelroute : ℕ := 25
def nlmFReplace : ℕ := 0x100
def afInet : UInt8 := 2
def rtprotKernel : UInt8 := 2
def rtScopeUniverse : UInt8 := 0
def rtScopeLink : UInt8 := 253
def rtTableUnspec : UInt8 := 0
def rtTableMain : UInt8 := 254
def rtnUnspec : UInt8 := 0
def rtnUnicast : UInt8 := 1

/-- `ROUTE_CONNECTED` -/
def routeConnected : Level := 0

/-- `ROUTE_OTHER` -/
def routeOther : Level := 2

/-! ## The fields of a message at `nlh` -/

section Fields

variable (o : ByteOrder) (m : Mem) (nlh : ℕ)

def nlmsgLen : ℕ := load32 o m nlh
def nlmsgType : ℕ := load16 o m (nlh + 4)
def nlmsgFlags : ℕ := load16 o m (nlh + 6)
def nlmsgPid : ℕ := load32 o m (nlh + 12)

/-! `struct rtmsg` follows the header. -/

def rtmFamily : UInt8 := m (nlh + 16)
def rtmTable : UInt8 := m (nlh + 20)
def rtmProtocol : UInt8 := m (nlh + 21)
def rtmScope : UInt8 := m (nlh + 22)
def rtmType : UInt8 := m (nlh + 23)

end Fields

/-! ## `process_rtnl` -/

/-- Connected IPv4 routes of the kernel become universe scope. -/
def fixScope (m : Mem) (nlh : ℕ) : Mem :=
  if rtmProtocol m nlh = rtprotKernel ∧ rtmFamily m nlh = afInet ∧ rtmScope m nlh = rtScopeLink
  then Function.update m (nlh + 22) rtScopeUniverse else m

def fixTable (m : Mem) (nlh : ℕ) : Mem :=
  if rtmTable m nlh = rtTableUnspec then Function.update m (nlh + 20) rtTableMain else m

/-- Deletes from FRR always use `RTN_UNSPEC`, which the dataplane would discard. -/
def fixType (o : ByteOrder) (m : Mem) (nlh : ℕ) : Mem :=
  if nlmsgType o m nlh = rtmDelroute ∧ nlmsgPid o m nlh ≠ 0 ∧ rtmType m nlh = rtnUnspec
  then Function.update m (nlh + 23) rtnUnicast else m

/-- All changes of `process_rtnl` to the message. -/
def normalise (o : ByteOrder) (m : Mem) (nlh : ℕ) : Mem :=
  fixType o (fixTable (fixScope m nlh) nlh) nlh

def rtnlPriority (m : Mem) (nlh : ℕ) : Level :=
  if rtmProtocol m nlh = rtprotKernel then routeConnected else routeOther

/-- `process_rtnl(nlh)`: the memory afterwards, and the message and the priority that are
published, of which `rib_nl_copy` takes `nlmsg_len` bytes.  A message that is too short
is reported and dropped. -/
def processRtnl (o : ByteOrder) (m : Mem) (nlh : ℕ) : Mem × Option (List UInt8 × Level) :=
  if nlmsgLen o m nlh < rtmsgLength then (m, none)
  else
    (normalise o m nlh,
      some (slice (normalise o m nlh) nlh (nlmsgLen o m nlh), rtnlPriority m nlh))

/-! ## `process_nlmsg` -/

/-- What the walk does, in order. -/
inductive NlEvent
  /-- `NLMSG_OK` reads the header at `nlh` -/
  | examine (nlh : ℕ)
  /-- the message at `nlh`, with the bytes `msg` as they were received, is handled as a
  route -/
  | route (nlh : ℕ) (msg : List UInt8)
  /-- `route_broker_publish` -/
  | publish (msg : List UInt8) (pri : Level)
  /-- `NLMSG_NEXT` subtracts `step` from `len` -/
  | next (len step : ℕ)
  deriving DecidableEq

/-- `process_rtnl` as part of the walk, for a message received as `msg`. -/
def handleRoute (o : ByteOrder) (m : Mem) (nlh : ℕ) (msg : List UInt8) : List NlEvent × Mem :=
  let r := processRtnl o m nlh
  (.route nlh msg :: (r.2.map fun p => NlEvent.publish p.1 p.2).toList, r.1)

/-- The `switch` in the loop. -/
def nlmsgSwitch (o : ByteOrder) (m : Mem) (nlh : ℕ) : List NlEvent × Mem :=
  let msg := slice m nlh (nlmsgLen o m nlh)
  if nlmsgType o m nlh = rtmNewroute then
    -- Must be a replace or dataplane won't update
    handleRoute o (store16 o m (nlh + 6) (nlmsgFlags o m nlh ||| nlmFReplace)) nlh msg
  else if nlmsgType o m nlh = rtmDelroute then handleRoute o m nlh msg
  else ([], m)

/-- Subtraction of `size_t`. -/
def sizeSub (a b : ℕ) : ℕ := (a + 2 ^ 64 - b) % 2 ^ 64

/-- The first `fuel` rounds of the loop of `process_nlmsg`: what was done, and the memory
afterwards if the loop has ended. -/
def processNlmsg (o : ByteOrder) : ℕ → Mem → ℕ → ℕ → List NlEvent × Option Mem
  | 0, _, _, _ => ([], none)
  | fuel + 1, m, nlh, len =>
    if len < nlmsgHdrlen then ([], some m)
    else if nlmsgLen o m nlh < nlmsgHdrlen ∨ len < nlmsgLen o m nlh then ([.examine nlh], some m)
    else
      let b := nlmsgSwitch o m nlh
      let step := nlmsgAlign (nlmsgLen o b.2 nlh)
      let r := processNlmsg o fuel b.2 (nlh + step) (sizeSub len step)
      (.examine nlh :: b.1 ++ .next len step :: r.1, r.2)

/-! ## What is changed in place -/

theorem nlmsgAlign_eq (len : ℕ) (h : len + 3 < 2 ^ 32) : nlmsgAlign len = (len + 3) / 4 * 4 := by
  rw [nlmsgAlign, Nat.mod_eq_of_lt h]

section Frame

variable {o : ByteOrder} {m : Mem} {nlh x : ℕ}

theorem fixScope_of_ne (h : x ≠ nlh + 22) : fixScope m nlh x = m x := by
  unfold fixScope
  split_ifs
  · exact Function.update_of_ne h _ _
  · rfl

theorem fixTable_of_ne (h : x ≠ nlh + 20) : fixTable m nlh x = m x := by
  unfold fixTable
  split_ifs
  · exact Function.update_of_ne h _ _
  · rfl

theorem fixType_of_ne (h : x ≠ nlh + 23) : fixType o m nlh x = m x := by
  unfold fixType
  split_ifs
  · exact Function.update_of_ne h _ _
  · rfl

/-- `process_rtnl` changes `rtm_table`, `rtm_scope` and `rtm_type` at most. -/
theorem normalise_of_ne (htable : x ≠ nlh + 20) (hscope : x ≠ nlh + 22) (htype : x ≠ nlh + 23) :
    normalise o m nlh x = m x := by
  rw [normalise, fixType_of_ne htype, fixTable_of_ne htable, fixScope_of_ne hscope]

/-- It changes nothing outside of the message, and not its length. -/
theorem processRtnl_of_ne (h : x < nlh + 20 ∨ nlh + nlmsgLen o m nlh ≤ x) :
    (processRtnl o m nlh).1 x = m x := by
  unfold processRtnl
  split_ifs with hlen
  · rfl
  · unfold rtmsgLength nlmsgHdrlen at hlen
    apply normalise_of_ne
    · omega
    · omega
    · omega

theorem nlmsgLen_setFlags (v : ℕ) :
    nlmsgLen o (store16 o m (nlh + 6) v) nlh = nlmsgLen o m nlh := by
  have hsame : SameBytes 4 m nlh (store16 o m (nlh + 6) v) nlh := fun i hi =>
    store16_of_ne o m (nlh + 6) v (by omega) (by omega)
  exact hsame.load32_eq o (k := 0) (by omega)

/-- The `switch` changes the flags and what `process_rtnl` changes. -/
theorem nlmsgSwitch_of_ne (h : x < nlh + 6 ∨ nlh + nlmsgLen o m nlh ≤ x)
    (hlen : nlmsgHdrlen ≤ nlmsgLen o m nlh) : (nlmsgSwitch o m nlh).2 x = m x := by
  unfold nlmsgHdrlen at hlen
  unfold nlmsgSwitch handleRoute
  split_ifs
  · dsimp only
    rw [processRtnl_of_ne, store16_of_ne o m _ _ (by omega) (by omega)]
    rw [nlmsgLen_setFlags]
    omega
  · exact processRtnl_of_ne (by omega)
  · rfl

theorem nlmsgLen_nlmsgSwitch (hlen : nlmsgHdrlen ≤ nlmsgLen o m nlh) :
    nlmsgLen o (nlmsgSwitch o m nlh).2 nlh = nlmsgLen o m nlh := by
  have hsame : SameBytes 4 m nlh (nlmsgSwitch o m nlh).2 nlh := fun i hi =>
    nlmsgSwitch_of_ne (by omega) hlen
  exact hsame.load32_eq o (k := 0) (by omega)

theorem sameFrom_nlmsgSwitch (hlen : nlmsgHdrlen ≤ nlmsgLen o m nlh) :
    SameFrom (nlh + nlmsgLen o m nlh) m (nlmsgSwitch o m nlh).2 :=
  fun _ hx => nlmsgSwitch_of_ne (Or.inr hx) hlen

end Frame

/-! ## Buffers that the walk stays in -/

/-- Cutting the `len` bytes at `p` into messages, no message fits without its padding
only. -/
inductive WellCut (o : ByteOrder) (m : Mem) : ℕ → ℕ → Prop
  | short {p len : ℕ} (h : len < nlmsgHdrlen) : WellCut o m p len
  | unfit {p len : ℕ} (h : nlmsgLen o m p < nlmsgHdrlen ∨ len < nlmsgLen o m p) : WellCut o m p len
  | message {p len : ℕ} (hlen : nlmsgAlign (nlmsgLen o m p) ≤ len)
    (hrest : WellCut o m (p + nlmsgAlign (nlmsgLen o m p)) (len - nlmsgAlign (nlmsgLen o m p))) :
    WellCut o m p len

/-- If both are messages that are passed on, the first one ends before the other begins. -/
def NlEvent.Before (e e' : NlEvent) : Prop :=
  ∀ p msg p' msg', e = .route p msg → e' = .route p' msg' → p < p' ∧ p + msg.length ≤ p'

/-- The walk over the `n` bytes at `buf` stays inside of them: the headers it reads, the
messages it passes on, which do not overlap and come in increasing order, and the counter
does not wrap. -/
structure WalkSafe (buf n : ℕ) (ev : List NlEvent) : Prop where
  headers : ∀ p, .examine p ∈ ev → buf ≤ p ∧ p + nlmsgHdrlen ≤ buf + n
  routes : ∀ p msg, .route p msg ∈ ev → buf ≤ p ∧ p + msg.length ≤ buf + n
  order : ev.Pairwise NlEvent.Before
  counter : ∀ len step, .next len step ∈ ev → step ≤ len

section Walk

variable {o : ByteOrder} {m : Mem} {p len : ℕ}

/-- `WellCut` depends on the bytes in the buffer alone. -/
theorem WellCut.transfer {m' : Mem} {p' : ℕ} (h : WellCut o m p len)
    (hsame : SameBytes len m p m' p') : WellCut o m' p' len := by
  have h16 : nlmsgHdrlen = 16 := rfl
  induction h generalizing p' with
  | short h => exact .short h
  | @unfit p len h =>
    by_cases hshort : len < nlmsgHdrlen
    · exact .short hshort
    · have heq : nlmsgLen o m' p' = nlmsgLen o m p := hsame.load32_eq o (k := 0) (by omega)
      refine .unfit ?_
      rw [heq]
      exact h
  | @message p len hlen hrest ih =>
    by_cases hshort : len < nlmsgHdrlen
    · exact .short hshort
    · have heq : nlmsgLen o m' p' = nlmsgLen o m p := hsame.load32_eq o (k := 0) (by omega)
      refine .message (by rw [heq]; exact hlen) ?_
      rw [heq]
      exact ih (hsame.drop _)

theorem WellCut.congr {m' : Mem} (h : WellCut o m p len) (hsame : SameFrom p m m') :
    WellCut o m' p len := h.transfer (fun i _ => hsame (p + i) (by omega))

/-- Lengths that are multiples of 4 are never exceeded by padding. -/
theorem wellCut_of_dvd (o : ByteOrder) (m : Mem) {len : ℕ} (p : ℕ) (hdvd : 4 ∣ len)
    (hlt : len + 3 < 2 ^ 32) : WellCut o m p len := by
  -- by strong induction on what is left of the buffer
  induction len using Nat.strong_induction_on generalizing p with
  | h len ih =>
    by_cases hfit : nlmsgLen o m p < nlmsgHdrlen ∨ len < nlmsgLen o m p
    · exact .unfit hfit
    · unfold nlmsgHdrlen at hfit
      have halign := nlmsgAlign_eq (nlmsgLen o m p) (by omega)
      refine .message (by omega) (ih _ ?_ _ ?_ ?_)
      · omega
      · omega
      · omega

/-- The events of one round that goes on. -/
theorem mem_round {e : NlEvent} {nlh step : ℕ} {body rest : List NlEvent} :
    e ∈ NlEvent.examine nlh :: body ++ NlEvent.next len step :: rest ↔
      e = .examine nlh ∨ e ∈ body ∨ e = .next len step ∨ e ∈ rest := by
  simp only [List.cons_append, List.mem_cons, List.mem_append]

/-- What the `switch` passes on is the message at `nlh`. -/
theorem mem_nlmsgSwitch {e : NlEvent} (h : e ∈ (nlmsgSwitch o m p).1) :
    e = .route p (slice m p (nlmsgLen o m p)) ∨ ∃ msg pri, e = .publish msg pri := by
  have hroute : ∀ m', e ∈ (handleRoute o m' p (slice m p (nlmsgLen o m p))).1 →
      e = .route p (slice m p (nlmsgLen o m p)) ∨ ∃ msg pri, e = .publish msg pri := by
    intro m' he
    rcases List.mem_cons.mp he with he | he
    · exact Or.inl he
    · rw [Option.mem_toList, Option.map_eq_some_iff] at he
      obtain ⟨r, -, rfl⟩ := he
      exact Or.inr ⟨r.1, r.2, rfl⟩
  unfold nlmsgSwitch at h
  split_ifs at h
  · exact hroute _ h
  · exact hroute _ h
  · exact absurd h List.not_mem_nil

/-- At most one message is passed on in one round. -/
theorem nlmsgSwitch_order : (nlmsgSwitch o m p).1.Pairwise NlEvent.Before := by
  have hroute : ∀ m' msg, (handleRoute o m' p msg).1.Pairwise NlEvent.Before := by
    intro m' msg
    refine List.pairwise_cons.mpr ⟨fun e he q msg' q' msg'' _ he' => ?_, ?_⟩
    · rw [Option.mem_toList, Option.map_eq_some_iff] at he
      obtain ⟨r, -, rfl⟩ := he
      exact nomatch he'
    · cases (processRtnl o m' p).2 with
      | none => exact List.Pairwise.nil
      | some r => exact List.pairwise_singleton _ _
  unfold nlmsgSwitch
  split_ifs
  · exact hroute _ _
  · exact hroute _ _
  · exact List.Pairwise.nil

/-- A walk that stops at once. -/
theorem walkSafe_stop (h : nlmsgHdrlen ≤ len) : WalkSafe p len [.examine p] where
  headers := by
    intro q hq
    cases List.mem_singleton.mp hq
    omega
  routes := fun q msg hq => nomatch List.mem_singleton.mp hq
  order := List.pairwise_singleton _ _
  counter := fun l s hq => nomatch List.mem_singleton.mp hq

/-- One round, and the walk over what is left. -/
theorem WalkSafe.round {step : ℕ} {rest : List NlEvent} (hlen : nlmsgHdrlen ≤ nlmsgLen o m p)
    (hle : nlmsgLen o m p ≤ step) (hfit : step ≤ len)
    (hrest : WalkSafe (p + step) (len - step) rest) :
    WalkSafe p len (.examine p :: (nlmsgSwitch o m p).1 ++ .next len step :: rest) := by
  have hbody : ∀ q msg, .route q msg ∈ (nlmsgSwitch o m p).1 →
      q = p ∧ msg.length = nlmsgLen o m p := by
    intro q msg hq
    rcases mem_nlmsgSwitch hq with he | ⟨msg', pri, he⟩
    · cases he
      exact ⟨rfl, length_slice _ _ _⟩
    · exact nomatch he
  refine ⟨fun q hq => ?_, fun q msg hq => ?_, ?_, fun l s hq => ?_⟩
  · rcases mem_round.mp hq with he | he | he | he
    · cases he
      omega
    · rcases mem_nlmsgSwitch he with he | ⟨msg', pri, he⟩
      · exact nomatch he
      · exact nomatch he
    · exact nomatch he
    · have hin := hrest.headers q he
      omega
  · rcases mem_round.mp hq with he | he | he | he
    · exact nomatch he
    · have hin := hbody q msg he
      omega
    · exact nomatch he
    · have hin := hrest.routes q msg he
      omega
  · -- a message of this round ends where the rest of the walk starts
    refine List.pairwise_append.mpr ⟨List.pairwise_cons.mpr ⟨?_, nlmsgSwitch_order⟩,
      List.pairwise_cons.mpr ⟨?_, hrest.order⟩, ?_⟩
    · intro e _ q msg q' msg' he
      exact nomatch he
    · intro e _ q msg q' msg' he
      exact nomatch he
    · intro e he e' he' q msg q' msg' hq hq'
      subst hq hq'
      have hin := hbody q msg (by simpa using he)
      have hin' := hrest.routes q' msg' (by simpa using he')
      unfold nlmsgHdrlen at hlen
      omega
  · rcases mem_round.mp hq with he | he | he | he
    · exact nomatch he
    · rcases mem_nlmsgSwitch he with he | ⟨msg', pri, he⟩
      · exact nomatch he
      · exact nomatch he
    · cases he
      exact hfit
    · exact hrest.counter l s he

theorem sizeSub_eq {a b : ℕ} (h : b ≤ a) (ha : a < 2 ^ 64) : sizeSub a b = a - b := by
  unfold sizeSub
  omega

theorem processNlmsg_short (o : ByteOrder) (fuel : ℕ) (m : Mem) (p : ℕ) {len : ℕ}
    (h : len < nlmsgHdrlen) : processNlmsg o (fuel + 1) m p len = ([], some m) := by
  rw [processNlmsg, if_pos h]

theorem processNlmsg_unfit (fuel : ℕ) (hshort : ¬ len < nlmsgHdrlen)
    (h : nlmsgLen o m p < nlmsgHdrlen ∨ len < nlmsgLen o m p) :
    processNlmsg o (fuel + 1) m p len = ([.examine p], some m) := by
  rw [processNlmsg, if_neg hshort, if_pos h]

/-- A round that goes on. -/
theorem processNlmsg_round (fuel : ℕ) (hlen : nlmsgHdrlen ≤ nlmsgLen o m p)
    (hfit : nlmsgLen o m p ≤ len) {step : ℕ} (hstep : nlmsgAlign (nlmsgLen o m p) = step) :
    processNlmsg o (fuel + 1) m p len
      = (.examine p :: (nlmsgSwitch o m p).1 ++ .next len step ::
          (processNlmsg o fuel (nlmsgSwitch o m p).2 (p + step) (sizeSub len step)).1,
        (processNlmsg o fuel (nlmsgSwitch o m p).2 (p + step) (sizeSub len step)).2) := by
  rw [processNlmsg, if_neg (by omega), if_neg (by omega)]
  dsimp only
  rw [nlmsgLen_nlmsgSwitch hlen, hstep]

theorem walkSafe_nil (p len : ℕ) : WalkSafe p len [] :=
  ⟨fun _ hq => absurd hq List.not_mem_nil, fun _ _ hq => absurd hq List.not_mem_nil,
    List.Pairwise.nil, fun _ _ hq => absurd hq List.not_mem_nil⟩

/-- **The walk over a well cut buffer stays inside**, however many rounds it makes. -/
theorem WellCut.walkSafe (h : WellCut o m p len) (hlt : len + 3 < 2 ^ 32) (fuel : ℕ) :
    WalkSafe p len (processNlmsg o fuel m p len).1 := by
  induction fuel generalizing m p len with
  | zero => exact walkSafe_nil p len
  | succ fuel ih =>
    by_cases hshort : len < nlmsgHdrlen
    · rw [processNlmsg_short o fuel m p hshort]
      exact walkSafe_nil p len
    by_cases hunfit : nlmsgLen o m p < nlmsgHdrlen ∨ len < nlmsgLen o m p
    · rw [processNlmsg_unfit fuel hshort hunfit]
      exact walkSafe_stop (not_lt.mp hshort)
    have hlen : nlmsgHdrlen ≤ nlmsgLen o m p := by omega
    have hstep := nlmsgAlign_eq (nlmsgLen o m p) (by omega)
    cases h with
    | short h => exact absurd h hshort
    | unfit h => exact absurd h hunfit
    | message hle hrest =>
      rw [processNlmsg_round fuel hlen (by omega) rfl, sizeSub_eq hle (by omega)]
      refine WalkSafe.round hlen (by omega) hle (ih ?_ (by omega))
      exact hrest.congr ((sameFrom_nlmsgSwitch hlen).mono (by omega))

/-- And it ends. -/
theorem WellCut.terminates (h : WellCut o m p len) (hlt : len + 3 < 2 ^ 32) {fuel : ℕ}
    (hfuel : len < fuel) : (processNlmsg o fuel m p len).2.isSome = true := by
  induction fuel generalizing m p len with
  | zero => exact absurd hfuel (Nat.not_lt_zero _)
  | succ fuel ih =>
    by_cases hshort : len < nlmsgHdrlen
    · rw [processNlmsg_short o fuel m p hshort]
      rfl
    by_cases hunfit : nlmsgLen o m p < nlmsgHdrlen ∨ len < nlmsgLen o m p
    · rw [processNlmsg_unfit fuel hshort hunfit]
      rfl
    have hlen : 16 ≤ nlmsgLen o m p := by unfold nlmsgHdrlen at hunfit; omega
    have hstep := nlmsgAlign_eq (nlmsgLen o m p) (by omega)
    cases h with
    | short h => exact absurd h hshort
    | unfit h => exact absurd h hunfit
    | message hle hrest =>
      rw [processNlmsg_round fuel hlen (by omega) rfl, sizeSub_eq hle (by omega)]
      refine ih ?_ (by omega) (by omega)
      exact hrest.congr ((sameFrom_nlmsgSwitch hlen).mono (by omega))

/-- **In a buffer that is not well cut the walk reads a header behind the end.** -/
theorem examine_outside (h : ¬ WellCut o m p len) (hlt : len + 3 < 2 ^ 32) :
    ∃ fuel q, .examine q ∈ (processNlmsg o fuel m p len).1 ∧ p + len < q + nlmsgHdrlen := by
  -- by strong induction on what is left of the buffer
  induction len using Nat.strong_induction_on generalizing m p with
  | h len ih =>
    have hshort : ¬ len < nlmsgHdrlen := fun hx => h (.short hx)
    have hunfit : ¬ (nlmsgLen o m p < nlmsgHdrlen ∨ len < nlmsgLen o m p) :=
      fun hx => h (.unfit hx)
    have hlen : 16 ≤ nlmsgLen o m p := by unfold nlmsgHdrlen at hunfit; omega
    have hstep := nlmsgAlign_eq (nlmsgLen o m p) (by omega)
    by_cases hle : nlmsgAlign (nlmsgLen o m p) ≤ len
    · have hrest : ¬ WellCut o (nlmsgSwitch o m p).2 (p + nlmsgAlign (nlmsgLen o m p))
          (len - nlmsgAlign (nlmsgLen o m p)) := by
        intro hx
        refine h (.message hle (hx.congr ?_))
        intro x hx
        exact (nlmsgSwitch_of_ne (Or.inr (by omega)) hlen).symm
      obtain ⟨fuel, q, hq, hout⟩ := ih _ (by omega) hrest (by omega)
      refine ⟨fuel + 1, q, ?_, by omega⟩
      rw [processNlmsg_round fuel hlen (by omega) rfl, sizeSub_eq hle (by omega)]
      exact mem_round.mpr (Or.inr (Or.inr (Or.inr hq)))
    · -- the counter wraps, and the next round starts behind the buffer
      have hwrap : ¬ sizeSub len (nlmsgAlign (nlmsgLen o m p)) < nlmsgHdrlen := by
        unfold sizeSub nlmsgHdrlen
        omega
      refine ⟨2, p + nlmsgAlign (nlmsgLen o m p), ?_, by omega⟩
      rw [processNlmsg_round 1 hlen (by omega) rfl]
      refine mem_round.mpr (Or.inr (Or.inr (Or.inr ?_)))
      rw [processNlmsg, if_neg hwrap]
      split_ifs
      · exact List.mem_singleton.mpr rfl
      · exact List.mem_cons_self

end Walk

/-! ## Datagrams -/

/-- `BUFSIZ` -/
def bufsiz : ℕ := 8192

/-- `broker_process_nl` when `recv` yields the bytes `datagram`: the first `fuel` rounds of
the walk over them.  The buffer is at `buf` in the memory `m`. -/
def brokerProcessNl (o : ByteOrder) (fuel : ℕ) (m : Mem) (buf : ℕ) (datagram : List UInt8) :
    List NlEvent × Option Mem :=
  processNlmsg o fuel (blit m buf datagram) buf datagram.length

/-- **The walk stays inside of the datagram exactly if the datagram is well cut**, that is,
if no message in it fits without its padding only.  Whatever lies behind the datagram, the
headers that are read and the messages that are passed to `process_rtnl` lie inside of it,
the messages come in order and do not overlap, the walk ends, and the remaining length
does not wrap. -/
theorem datagram_walk_safe_iff (o : ByteOrder) (m : Mem) (buf : ℕ) (datagram : List UInt8)
    (hn : datagram.length ≤ bufsiz) :
    ((∃ fuel, (brokerProcessNl o fuel m buf datagram).2.isSome = true) ∧
      ∀ fuel, WalkSafe buf datagram.length (brokerProcessNl o fuel m buf datagram).1) ↔
    WellCut o (memOf datagram) 0 datagram.length := by
  unfold bufsiz at hn
  have hbuf := sameBytes_blit m buf datagram
  constructor
  · rintro ⟨-, hsafe⟩
    by_contra hcut
    have hcut' : ¬ WellCut o (blit m buf datagram) buf datagram.length :=
      fun h => hcut (h.transfer hbuf.symm)
    obtain ⟨fuel, q, hq, hout⟩ := examine_outside hcut' (by omega)
    have hin := ((hsafe fuel).headers q hq).2
    omega
  · intro hcut
    have hcut' : WellCut o (blit m buf datagram) buf datagram.length := hcut.transfer hbuf
    exact ⟨⟨datagram.length + 1, hcut'.terminates (by omega) (Nat.lt_succ_self _)⟩,
      hcut'.walkSafe (by omega)⟩

/-- The theorem at a datagram that consists of one padded message of 17 bytes. -/
theorem datagram_walk_safe_padded :
    WalkSafe 100 20 (brokerProcessNl .little 3 (fun _ => 0xff) 100
      [17, 0, 0, 0, 26, 0, 1, 0, 0, 0, 0, 0, 0, 0, 0, 0, 2, 0, 0, 0]).1 :=
  ((datagram_walk_safe_iff .little (fun _ => 0xff) 100
    [17, 0, 0, 0, 26, 0, 1, 0, 0, 0, 0, 0, 0, 0, 0, 0, 2, 0, 0, 0] (by decide)).mpr
    (.message (by decide) (.short (by decide)))).2 3

/-- **The counter wraps behind an unpadded message.**  Without the three bytes of padding
the walk goes on at offset 20 of a datagram of 17 bytes. -/
theorem datagram_walk_leaves_buffer :
    .next 17 20 ∈ (brokerProcessNl .little 2 (fun _ => 0xff) 100
        [17, 0, 0, 0, 26, 0, 1, 0, 0, 0, 0, 0, 0, 0, 0, 0, 2]).1 ∧
      .examine 120 ∈ (brokerProcessNl .little 2 (fun _ => 0xff) 100
        [17, 0, 0, 0, 26, 0, 1, 0, 0, 0, 0, 0, 0, 0, 0, 0, 2]).1 ∧
      ¬ WalkSafe 100 17 (brokerProcessNl .little 2 (fun _ => 0xff) 100
        [17, 0, 0, 0, 26, 0, 1, 0, 0, 0, 0, 0, 0, 0, 0, 0, 2]).1 := by
  have hnext : .next 17 20 ∈ (brokerProcessNl .little 2 (fun _ => 0xff) 100
      [17, 0, 0, 0, 26, 0, 1, 0, 0, 0, 0, 0, 0, 0, 0, 0, 2]).1 := by decide +kernel
  have hexamine : .examine 120 ∈ (brokerProcessNl .little 2 (fun _ => 0xff) 100
      [17, 0, 0, 0, 26, 0, 1, 0, 0, 0, 0, 0, 0, 0, 0, 0, 2]).1 := by decide +kernel
  refine ⟨hnext, hexamine, fun h => ?_⟩
  have hle := h.counter 17 20 hnext
  omega
