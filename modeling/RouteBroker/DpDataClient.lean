/-
# The send loop of a data thread

`broker_dp_data_client` of `route_broker_dp_data.c` on its own: one data thread against
whatever `route_broker_client_get_data` returns, whatever `client_publish` does, and
whatever the control thread writes to the pipe, at any time.  `Pc` and `SendResult` are
those of the dataplane sessions.

The thread keeps a log of its library calls.  An object is a copy of its own, made by
`copy_obj` when it is consumed, so that the places in the log tell objects apart.

Main result: `send_loop_exact`.  `data_thread_runs` says that every session of a run of
`dpSystem` is such a thread.
-/
import RouteBroker.DpSession
import RouteBroker.Text

/-! ## The thread -/

/-- A library call of the data thread, with its result. -/
inductive DataCall (Data : Type*)
  /-- `route_broker_client_create` -/
  | create
  /-- `route_broker_client_get_data` -/
  | getData (got : Option Data)
  /-- `client_publish` -/
  | publish (obj : Data) (r : SendResult)
  /-- `client_needs_restart` -/
  | needsRestart (restart : Bool)
  /-- `route_broker_client_free_data` -/
  | freeData (obj : Data)
  /-- `route_broker_client_delete` -/
  | delete
  /-- `zsock_destroy` -/
  | destroy
  deriving DecidableEq

/-- A data thread and its end of the pipe. -/
structure DataThread (Data : Type*) where
  pc : Pc Data
  /-- the strings on the pipe, the next one first -/
  pipe : List Text
  /-- `client->errors` -/
  errors : UInt64
  calls : List (DataCall Data)
  deriving DecidableEq

/-- What happens next. -/
inductive DataStep (Data : Type*)
  /-- the control thread writes to the pipe -/
  | arrive (msg : Text)
  /-- `route_broker_client_get_data` returns -/
  | getData (got : Option Data)
  /-- `client_publish` returns -/
  | publish (r : SendResult)
  /-- the thread goes on with any other call -/
  | next
  deriving DecidableEq

/-- `"$TERM"` -/
def termMsg : Text := ['$', 'T', 'E', 'R', 'M']

variable {Data : Type*}

/-- The thread before its first call. -/
def DataThread.start : DataThread Data where
  pc := .start
  pipe := []
  errors := 0
  calls := []

/-- `client_needs_restart`: the result, and what is left on the pipe. -/
def clientNeedsRestart : List Text → Bool × List Text
  | [] => (false, [])
  | msg :: pipe => (decide (msg = termMsg), pipe)

namespace DataThread

variable (t : DataThread Data)

/-- Add a call to the log and go on at `pc`. -/
def call (pc : Pc Data) (c : DataCall Data) : DataThread Data :=
  { t with pc := pc, calls := t.calls ++ [c] }

/-- `client_publish(obj, dp_data_sock)` returns `r`. -/
def published (obj : Data) (r : SendResult) : DataThread Data :=
  match r with
  | .ok => (t.call .checking (.publish obj .ok)).call .checking (.freeData obj)
  | .again => t.call (.failed obj) (.publish obj .again)
  | .error => { t.call (.failed obj) (.publish obj .error) with errors := t.errors + 1 }

/-- `client_needs_restart(pipe)`, after a failure to send `obj` or without an object to
send. -/
def polled (obj : Option Data) : DataThread Data :=
  let (restart, pipe) := clientNeedsRestart t.pipe
  let t := { t with pipe := pipe }
  match obj, restart with
  | none, true => t.call .stopping (.needsRestart true)
  | none, false => t.call .polling (.needsRestart false)
  | some obj, true => (t.call .stopping (.needsRestart true)).call .stopping (.freeData obj)
  -- goto try_sending
  | some obj, false => t.call (.sending obj) (.needsRestart false)

/-- One step; `none` if the thread is not at that call. -/
def step : DataStep Data → Option (DataThread Data)
  | .arrive msg => some { t with pipe := t.pipe ++ [msg] }
  | .getData got =>
    match t.pc with
    | .polling => some (t.call (got.elim .checking .sending) (.getData got))
    | _ => none
  | .publish r =>
    match t.pc with
    | .sending obj => some (t.published obj r)
    | _ => none
  | .next =>
    match t.pc with
    | .start => some (t.call .created .create)
    -- `broker_dp_data_init` and the signal on the pipe
    | .created => some { t with pc := .opened }
    | .opened => some { t with pc := .bound }
    | .bound => some { t with pc := .named }
    | .named => some { t with pc := .polling }
    | .failed obj => some (t.polled (some obj))
    | .checking => some (t.polled none)
    | .stopping => some (t.call .closing .delete)
    | .closing => some (t.call .done .destroy)
    | .polling | .sending _ | .done => none

end DataThread

/-- All runs of a data thread. -/
def dataThreadSystem (Data : Type*) : System (DataThread Data) (DataStep Data) where
  init := .start
  step := DataThread.step

/-- The call is an attempt to send. -/
def DataCall.isPublish : DataCall Data → Bool
  | .publish _ _ => true
  | _ => false

namespace DataThread

/-! ## What the log says -/

/-- The objects that were consumed from the broker, in order. -/
def consumed (calls : List (DataCall Data)) : List Data :=
  calls.filterMap fun | .getData got => got | _ => none

/-- The objects that were published with success, in order. -/
def sent (calls : List (DataCall Data)) : List Data :=
  calls.filterMap fun | .publish obj .ok => some obj | _ => none

/-- The objects that were freed, in order. -/
def freed (calls : List (DataCall Data)) : List Data :=
  calls.filterMap fun | .freeData obj => some obj | _ => none

/-- How often the client was deleted. -/
def deletes (calls : List (DataCall Data)) : ℕ :=
  calls.countP fun | .delete => true | _ => false

/-- Everything that was consumed is sent and freed. -/
def Balanced (calls : List (DataCall Data)) : Prop :=
  sent calls = consumed calls ∧ freed calls = consumed calls

/-- Everything is sent and freed but `obj`, which was consumed last. -/
def Holding (calls : List (DataCall Data)) (obj : Data) : Prop :=
  consumed calls = sent calls ++ [obj] ∧ freed calls = sent calls

/-- The object that was consumed last is unsent, and `$TERM` was received right after a
failure to send it. -/
def Interrupted (calls : List (DataCall Data)) : Prop :=
  ∃ obj r, consumed calls = sent calls ++ [obj] ∧ r ≠ .ok ∧
    [.publish obj r, .needsRestart true] <:+: calls

/-- At each attempt to send an object all others are sent and freed, and the object itself is
consumed, not sent and not freed. -/
def Attempts (calls : List (DataCall Data)) : Prop :=
  ∀ k obj r, calls[k]? = some (.publish obj r) → Holding (calls.take k) obj

/-- Every consumed object is sent, but for the last one if the thread is interrupted. -/
def Settled (calls : List (DataCall Data)) : Prop :=
  freed calls = consumed calls ∧ (sent calls = consumed calls ∨ Interrupted calls)

section Log

variable {calls : List (DataCall Data)} {c : DataCall Data} {obj : Data}

@[simp] theorem consumed_append (calls cs : List (DataCall Data)) :
    consumed (calls ++ cs) = consumed calls ++ consumed cs := List.filterMap_append

@[simp] theorem sent_append (calls cs : List (DataCall Data)) :
    sent (calls ++ cs) = sent calls ++ sent cs := List.filterMap_append

@[simp] theorem freed_append (calls cs : List (DataCall Data)) :
    freed (calls ++ cs) = freed calls ++ freed cs := List.filterMap_append

@[simp] theorem deletes_append (calls cs : List (DataCall Data)) :
    deletes (calls ++ cs) = deletes calls + deletes cs := List.countP_append

theorem Attempts.concat (h : Attempts calls)
    (hc : ∀ obj r, c = .publish obj r → Holding calls obj) : Attempts (calls ++ [c]) := by
  intro k obj r hk
  rcases Nat.lt_trichotomy k calls.length with hlt | heq | hgt
  · rw [List.getElem?_append_left hlt] at hk
    rw [List.take_append_of_le_length hlt.le]
    exact h k obj r hk
  · rw [heq, List.getElem?_concat_length, Option.some.injEq] at hk
    rw [heq, List.take_left]
    exact hc obj r hk
  · rw [List.getElem?_eq_none (by rw [List.length_append, List.length_singleton]; omega)] at hk
    exact nomatch hk

theorem Attempts.concat_of_not_publish (h : Attempts calls) (hc : c.isPublish = false) :
    Attempts (calls ++ [c]) := by
  apply h.concat
  rintro obj r rfl
  exact nomatch hc

/-- A call that neither consumes nor sends nor frees an object, nor deletes the client. -/
structure Neutral (c : DataCall Data) : Prop where
  consumed : consumed [c] = []
  sent : sent [c] = []
  freed : freed [c] = []
  deletes : deletes [c] = 0

theorem Neutral.deletes_concat (hc : Neutral c) (calls : List (DataCall Data)) :
    DataThread.deletes (calls ++ [c]) = DataThread.deletes calls := by
  rw [deletes_append, hc.deletes, Nat.add_zero]

theorem Balanced.concat (h : Balanced calls) (hc : Neutral c) : Balanced (calls ++ [c]) := by
  unfold Balanced
  rw [sent_append, consumed_append, freed_append, hc.sent, hc.consumed, hc.freed,
    List.append_nil, List.append_nil, List.append_nil]
  exact h

theorem Holding.concat (h : Holding calls obj) (hc : Neutral c) :
    Holding (calls ++ [c]) obj := by
  unfold Holding
  rw [sent_append, consumed_append, freed_append, hc.sent, hc.consumed, hc.freed,
    List.append_nil, List.append_nil, List.append_nil]
  exact h

theorem neutral_needsRestart (b : Bool) : Neutral (DataCall.needsRestart b : DataCall Data) :=
  ⟨rfl, rfl, rfl, rfl⟩

/-- The object at hand is sent and freed. -/
theorem Holding.sent_freed (h : Holding calls obj) :
    Balanced (calls ++ [.publish obj .ok] ++ [.freeData obj]) := by
  have hcons : consumed [DataCall.publish obj .ok, .freeData obj] = [] := rfl
  rw [List.append_assoc, List.singleton_append]
  unfold Balanced
  rw [sent_append, freed_append, consumed_append, h.1, h.2, hcons, List.append_nil]
  exact ⟨rfl, rfl⟩

/-- The object at hand is freed unsent. -/
theorem Holding.freed_unsent (h : Holding calls obj) :
    freed (calls ++ [.freeData obj]) = consumed (calls ++ [.freeData obj]) ∧
      consumed (calls ++ [.freeData obj]) = sent (calls ++ [.freeData obj]) ++ [obj] := by
  have hcons : consumed [DataCall.freeData obj] = [] := rfl
  have hsent : sent [DataCall.freeData obj] = [] := rfl
  rw [sent_append, freed_append, consumed_append, h.1, h.2, hcons, hsent, List.append_nil,
    List.append_nil]
  exact ⟨rfl, rfl⟩

/-- The end of a thread: it frees nothing and sends nothing any more. -/
theorem Settled.concat (h : Settled calls) (h1 : consumed [c] = []) (h2 : sent [c] = [])
    (h3 : freed [c] = []) : Settled (calls ++ [c]) := by
  unfold Settled Interrupted
  rw [sent_append, consumed_append, freed_append, h1, h2, h3, List.append_nil, List.append_nil,
    List.append_nil]
  refine ⟨h.1, h.2.imp_right ?_⟩
  rintro ⟨obj, r, hobj, hr, hin⟩
  exact ⟨obj, r, hobj, hr, hin.trans (List.prefix_append calls [c]).isInfix⟩

end Log

/-! ## The loop -/

/-- The object the thread is trying to send. -/
def atHand : Pc Data → Option Data
  | .sending obj | .failed obj => some obj
  | _ => none

/-- What the log says when the thread is about to make the call `pc`. -/
def Phase (calls : List (DataCall Data)) : Pc Data → Prop
  | .sending obj => Holding calls obj ∧ deletes calls = 0
  | .failed obj => Holding calls obj ∧ deletes calls = 0 ∧
      ∃ pre r, r ≠ .ok ∧ calls = pre ++ [.publish obj r]
  | .stopping => Settled calls ∧ deletes calls = 0
  | .closing | .done => Settled calls ∧ deletes calls = 1
  | _ => Balanced calls ∧ deletes calls = 0

/-- The invariant of the thread. -/
structure LoopInv (t : DataThread Data) : Prop where
  attempts : Attempts t.calls
  phase : Phase t.calls t.pc

section Loop

variable {t u : DataThread Data} {obj : Data}

theorem loopInv_start : LoopInv (start : DataThread Data) where
  attempts := fun _ _ _ h => (nomatch h)
  phase := ⟨⟨rfl, rfl⟩, rfl⟩

/-- A call that is not one of `client_publish`. -/
theorem LoopInv.call (h : LoopInv t) {c : DataCall Data} {pc : Pc Data}
    (hc : c.isPublish = false) (hphase : Phase (t.calls ++ [c]) pc) : LoopInv (t.call pc c) :=
  ⟨h.attempts.concat_of_not_publish hc, hphase⟩

theorem LoopInv.getData (h : LoopInv t) (hpc : t.pc = .polling) (got : Option Data) :
    LoopInv (t.call (got.elim .checking .sending) (.getData got)) := by
  have hphase := h.phase
  rw [hpc] at hphase
  obtain ⟨⟨hsent, hfreed⟩, hdel⟩ := hphase
  refine h.call rfl ?_
  cases got with
  | none =>
    have hc : Neutral (DataCall.getData none : DataCall Data) := ⟨rfl, rfl, rfl, rfl⟩
    exact ⟨Balanced.concat ⟨hsent, hfreed⟩ hc, (hc.deletes_concat _).trans hdel⟩
  | some obj =>
    refine ⟨⟨?_, ?_⟩, by rw [deletes_append, hdel]; rfl⟩
    · rw [consumed_append, sent_append, hsent, List.append_assoc]
      rfl
    · rw [freed_append, sent_append, hfreed, hsent]
      rfl

theorem LoopInv.published (h : LoopInv t) (hpc : t.pc = .sending obj) (r : SendResult) :
    LoopInv (t.published obj r) := by
  have hphase := h.phase
  rw [hpc] at hphase
  obtain ⟨hhold, hdel⟩ := hphase
  have hattempts : Attempts (t.calls ++ [.publish obj r]) := by
    apply h.attempts.concat
    intro obj' r' he
    obtain ⟨rfl, -⟩ := DataCall.publish.inj he
    exact hhold
  have hfailed : r ≠ .ok → Phase (t.calls ++ [.publish obj r]) (.failed obj) := by
    intro hr
    have hc : Neutral (DataCall.publish obj r) := by
      cases r with
      | ok => exact absurd rfl hr
      | again => exact ⟨rfl, rfl, rfl, rfl⟩
      | error => exact ⟨rfl, rfl, rfl, rfl⟩
    exact ⟨hhold.concat hc, (hc.deletes_concat _).trans hdel, t.calls, r, hr, rfl⟩
  cases r with
  | ok =>
    -- the object is sent, and freed at once
    refine ⟨hattempts.concat_of_not_publish rfl, hhold.sent_freed, ?_⟩
    show deletes (t.calls ++ [_] ++ [_]) = 0
    rw [deletes_append, deletes_append, hdel]
    rfl
  | again => exact ⟨hattempts, hfailed (by decide)⟩
  | error => exact ⟨hattempts, hfailed (by decide)⟩

/-- `client_needs_restart` after a failure to send. -/
theorem LoopInv.polled_failed (h : LoopInv t) (hpc : t.pc = .failed obj) :
    LoopInv (t.polled (some obj)) := by
  have hphase := h.phase
  rw [hpc] at hphase
  obtain ⟨hhold, hdel, pre, r, hr, hcalls⟩ := hphase
  have hpipe : LoopInv { t with pipe := (clientNeedsRestart t.pipe).2 } := ⟨h.attempts, h.phase⟩
  unfold DataThread.polled
  cases hrestart : (clientNeedsRestart t.pipe).1 with
  | false =>
    simp only [hrestart]
    exact hpipe.call rfl
      ⟨hhold.concat (neutral_needsRestart false),
        ((neutral_needsRestart false).deletes_concat _).trans hdel⟩
  | true =>
    simp only [hrestart]
    have hfree := (hhold.concat (neutral_needsRestart true)).freed_unsent
    refine ⟨(h.attempts.concat_of_not_publish rfl).concat_of_not_publish rfl,
      ⟨hfree.1, Or.inr ⟨obj, r, hfree.2, hr, ?_⟩⟩, ?_⟩
    · show [DataCall.publish obj r, .needsRestart true] <:+: t.calls ++ [_] ++ [_]
      rw [hcalls]
      exact ⟨pre, [.freeData obj], by simp⟩
    · show deletes (t.calls ++ [_] ++ [_]) = 0
      rw [deletes_append, deletes_append, hdel]
      rfl

/-- `client_needs_restart` with nothing at hand. -/
theorem LoopInv.polled_checking (h : LoopInv t) (hpc : t.pc = .checking) :
    LoopInv (t.polled none) := by
  have hphase := h.phase
  rw [hpc] at hphase
  obtain ⟨hbal, hdel⟩ := hphase
  have hpipe : LoopInv { t with pipe := (clientNeedsRestart t.pipe).2 } := ⟨h.attempts, h.phase⟩
  have hnext : ∀ b, Balanced (t.calls ++ [.needsRestart b]) ∧
      deletes (t.calls ++ [.needsRestart b]) = 0 :=
    fun b => ⟨hbal.concat (neutral_needsRestart b),
      ((neutral_needsRestart b).deletes_concat _).trans hdel⟩
  unfold DataThread.polled
  cases hrestart : (clientNeedsRestart t.pipe).1 with
  | false =>
    simp only [hrestart]
    exact hpipe.call rfl (hnext false)
  | true =>
    simp only [hrestart]
    obtain ⟨⟨hsent, hfreed⟩, hdel⟩ := hnext true
    exact hpipe.call rfl ⟨⟨hfreed, Or.inl hsent⟩, hdel⟩

/-- Every step keeps the invariant. -/
theorem LoopInv.step (h : LoopInv t) {x : DataStep Data} (hx : t.step x = some u) :
    LoopInv u := by
  have hphase := h.phase
  cases x with
  | arrive msg =>
    rw [← Option.some.inj hx]
    exact ⟨h.attempts, hphase⟩
  | getData got =>
    cases hpc : t.pc with
    | polling =>
      rw [DataThread.step, hpc] at hx
      exact Option.some.inj hx ▸ h.getData hpc got
    | _ =>
      rw [DataThread.step, hpc] at hx
      exact nomatch hx
  | publish r =>
    cases hpc : t.pc with
    | sending obj =>
      rw [DataThread.step, hpc] at hx
      exact Option.some.inj hx ▸ h.published hpc r
    | _ =>
      rw [DataThread.step, hpc] at hx
      exact nomatch hx
  | next =>
    cases hpc : t.pc with
    | start =>
      rw [DataThread.step, hpc] at hx
      rw [hpc] at hphase
      rw [← Option.some.inj hx]
      have hc : Neutral (DataCall.create : DataCall Data) := ⟨rfl, rfl, rfl, rfl⟩
      exact h.call rfl ⟨hphase.1.concat hc, (hc.deletes_concat _).trans hphase.2⟩
    | failed obj =>
      rw [DataThread.step, hpc] at hx
      exact Option.some.inj hx ▸ h.polled_failed hpc
    | checking =>
      rw [DataThread.step, hpc] at hx
      exact Option.some.inj hx ▸ h.polled_checking hpc
    | stopping =>
      rw [DataThread.step, hpc] at hx
      rw [hpc] at hphase
      rw [← Option.some.inj hx]
      refine h.call rfl ⟨hphase.1.concat rfl rfl rfl, ?_⟩
      rw [deletes_append, hphase.2]
      rfl
    | closing =>
      rw [DataThread.step, hpc] at hx
      rw [hpc] at hphase
      rw [← Option.some.inj hx]
      refine h.call rfl ⟨hphase.1.concat rfl rfl rfl, ?_⟩
      rw [deletes_append, hphase.2]
      rfl
    | polling | sending obj | done =>
      rw [DataThread.step, hpc] at hx
      exact nomatch hx
    | _ =>
      -- the thread sets up its socket
      rw [DataThread.step, hpc] at hx
      rw [hpc] at hphase
      rw [← Option.some.inj hx]
      exact ⟨h.attempts, hphase⟩

/-- Nothing is left to do between two objects. -/
theorem Phase.settled {calls : List (DataCall Data)} {pc : Pc Data} (h : Phase calls pc)
    (hpc : atHand pc = none) : Settled calls := by
  cases pc with
  | sending obj | failed obj => exact nomatch hpc
  | stopping | closing | done => exact h.1
  | _ => exact ⟨h.1.2, Or.inl h.1.1⟩

theorem Phase.holding {calls : List (DataCall Data)} {pc : Pc Data} (h : Phase calls pc)
    (hpc : atHand pc = some obj) : Holding calls obj := by
  cases pc with
  | sending obj' | failed obj' => exact Option.some.inj hpc ▸ h.1
  | _ => exact nomatch hpc

theorem Phase.deletes_le {calls : List (DataCall Data)} {pc : Pc Data} (h : Phase calls pc) :
    deletes calls ≤ 1 := by
  cases pc with
  | failed obj => exact h.2.1.le.trans zero_le_one
  | closing | done => exact h.2.le
  | _ => exact h.2.le.trans zero_le_one

end Loop

/-- **The send loop neither loses, duplicates nor reorders.**  Whatever the broker returns,
whatever the network does and whenever something arrives on the pipe: at each attempt to
send an object it is the last one consumed, and all others are sent and freed.  While the
thread is not at an object, all consumed objects are freed, once and in order, and are sent,
once and in order; but the last one may be unsent, if `$TERM` was received right after a
failure to send it.  The client is deleted once, at the end. -/
theorem send_loop_exact {xs : List (DataStep Data)} {t : DataThread Data}
    (h : (dataThreadSystem Data).exec .start xs = some t) :
    Attempts t.calls ∧ (∀ obj, atHand t.pc = some obj → Holding t.calls obj) ∧
      (atHand t.pc = none → Settled t.calls) ∧ deletes t.calls ≤ 1 ∧
      (t.pc = .done → deletes t.calls = 1) := by
  have hinv : LoopInv t :=
    System.exec_induction (P := LoopInv) (fun _ _ _ hs hstep => hs.step hstep) h loopInv_start
  refine ⟨hinv.attempts, fun obj hobj => hinv.phase.holding hobj, fun hnone =>
    hinv.phase.settled hnone, hinv.phase.deletes_le, fun hdone => ?_⟩
  have hphase := hinv.phase
  rw [hdone] at hphase
  exact hphase.2

/-- The thread sends one object at the second attempt, is asked once for nothing, and is told
to stop while it fails to send another object. -/
def interruptedSteps : List (DataStep ℕ) :=
  [.next, .next, .next, .next, .next, .getData (some 7), .publish .again, .next, .publish .ok,
    .next, .getData none, .next, .getData (some 8), .publish .error, .next, .arrive termMsg,
    .publish .again, .next, .next, .next]

/-- The theorem at a run that is interrupted. -/
theorem send_loop_exact_interrupted :
    ∃ t, (dataThreadSystem ℕ).exec .start interruptedSteps = some t ∧ t.pc = .done ∧
      consumed t.calls = [7, 8] ∧ sent t.calls = [7] ∧ Settled t.calls ∧ deletes t.calls = 1 := by
  obtain ⟨t, hexec, ht⟩ := (dataThreadSystem ℕ).exists_of_exec_any .start interruptedSteps
    (fun t => decide (t.pc = .done ∧ consumed t.calls = [7, 8] ∧ sent t.calls = [7]))
    (by decide)
  rw [decide_eq_true_eq] at ht
  obtain ⟨hdone, hconsumed, hsent⟩ := ht
  obtain ⟨-, -, hsettled, -, hdel⟩ := send_loop_exact hexec
  exact ⟨t, hexec, hdone, hconsumed, hsent, hsettled (by rw [hdone]; rfl), hdel hdone⟩

/-! ## The end of the loop -/

/-- A step of the thread itself. -/
def own : DataStep Data → Bool
  | .arrive _ => false
  | _ => true

/-- How many calls it is at most to the next `client_needs_restart`. -/
def distance : Pc Data → ℕ
  | .polling => 3
  | .sending _ => 2
  | .failed _ | .checking => 1
  | _ => 0

section End

variable {t u : DataThread Data} {x : DataStep Data} {pipe : List Text}

theorem distance_pos {pc : Pc Data} (h : pc.running = true) : 0 < distance pc := by
  cases pc with
  | polling | sending obj | failed obj | checking => exact Nat.succ_pos _
  | _ => exact nomatch h

theorem winding_step (hx : own x = true) (hw : t.pc.winding = true) (h : t.step x = some u) :
    u.pc.winding = true := by
  cases hpc : t.pc with
  | stopping | closing =>
    cases x with
    | next =>
      rw [DataThread.step, hpc] at h
      rw [← Option.some.inj h]
      rfl
    | arrive msg => exact nomatch hx
    | _ =>
      rw [DataThread.step, hpc] at h
      exact nomatch h
  | done =>
    cases x with
    | arrive msg => exact nomatch hx
    | _ =>
      rw [DataThread.step, hpc] at h
      exact nomatch h
  | _ =>
    rw [hpc] at hw
    exact nomatch hw

/-- With `$TERM` on the pipe, each call brings the thread closer to its end. -/
theorem term_step (hx : own x = true) (hrun : t.pc.running = true) (hpipe : t.pipe = termMsg :: pipe)
    (h : t.step x = some u) : u.pc.winding = true ∨
      u.pc.running = true ∧ u.pipe = termMsg :: pipe ∧ distance u.pc < distance t.pc := by
  have hrestart : clientNeedsRestart t.pipe = (true, pipe) := by
    rw [hpipe]
    rfl
  cases hpc : t.pc with
  | polling =>
    cases x with
    | getData got =>
      rw [DataThread.step, hpc] at h
      rw [← Option.some.inj h]
      cases got with
      | none => exact Or.inr ⟨rfl, hpipe, (by decide : 1 < 3)⟩
      | some obj => exact Or.inr ⟨rfl, hpipe, (by decide : 2 < 3)⟩
    | arrive msg => exact nomatch hx
    | _ =>
      rw [DataThread.step, hpc] at h
      exact nomatch h
  | sending obj =>
    cases x with
    | publish r =>
      rw [DataThread.step, hpc] at h
      rw [← Option.some.inj h]
      cases r <;> exact Or.inr ⟨rfl, hpipe, (by decide : 1 < 2)⟩
    | arrive msg => exact nomatch hx
    | _ =>
      rw [DataThread.step, hpc] at h
      exact nomatch h
  | failed obj =>
    cases x with
    | next =>
      rw [DataThread.step, hpc] at h
      rw [← Option.some.inj h, DataThread.polled, hrestart]
      exact Or.inl rfl
    | arrive msg => exact nomatch hx
    | _ =>
      rw [DataThread.step, hpc] at h
      exact nomatch h
  | checking =>
    cases x with
    | next =>
      rw [DataThread.step, hpc] at h
      rw [← Option.some.inj h, DataThread.polled, hrestart]
      exact Or.inl rfl
    | arrive msg => exact nomatch hx
    | _ =>
      rw [DataThread.step, hpc] at h
      exact nomatch h
  | _ =>
    rw [hpc] at hrun
    exact nomatch hrun

/-- **The loop ends.**  When `$TERM` is the next string on the pipe, the thread leaves its
loop with the third of its calls at the latest, whatever these return. -/
theorem stops_after_term {xs : List (DataStep Data)} (hxs : ∀ x ∈ xs, own x = true)
    (hrun : t.pc.running = true) (hpipe : t.pipe = termMsg :: pipe)
    (h : (dataThreadSystem Data).exec t xs = some u) (hlen : distance t.pc ≤ xs.length) :
    u.pc.winding = true := by
  induction xs generalizing t with
  | nil => exact absurd hlen (not_le.mpr (distance_pos hrun))
  | cons x xs ih =>
    obtain ⟨v, htv, hvu⟩ := (System.exec_cons_eq_some _).mp h
    obtain ⟨hx, hxs⟩ := List.forall_mem_cons.mp hxs
    rcases term_step hx hrun hpipe htv with hw | ⟨hrun, hpipe, hlt⟩
    · exact System.exec_induction_of_mem (P := fun t => t.pc.winding = true)
        (fun x hx _ _ hw hstep => winding_step (hxs x hx) hw hstep) hvu hw
    · rw [List.length_cons] at hlen
      exact ih hxs hrun hpipe hvu (by omega)

end End

/-! ## The data threads of a run -/

/-- The objects passed to `client_publish`, in order. -/
def attempts (calls : List (DataCall Data)) : List Data :=
  calls.filterMap fun | .publish obj _ => some obj | _ => none

@[simp] theorem attempts_append (calls cs : List (DataCall Data)) :
    attempts (calls ++ cs) = attempts calls ++ attempts cs := List.filterMap_append

section Sessions

variable {Addr Uuid Topic : Type*}

/-- What session `n` has passed to `client_publish`. -/
def publishedBy (s : DpWorld Addr Uuid Topic Data) (n : ℕ) : List Data :=
  (s.published.filter fun p => decide (p.1 = n)).map fun p => p.2.1

/-- Session `n` is the thread `t`. -/
structure Follows (s : DpWorld Addr Uuid Topic Data) (n : ℕ) (t : DataThread Data) : Prop where
  pc : t.pc = (s.session n).pc
  pipe : t.pipe = if (s.session n).term then [termMsg] else []
  errors : t.errors = (s.session n).errors
  attempts : attempts t.calls = publishedBy s n

variable {init : ObjectBrokerInit Topic Data} {s s' : DpWorld Addr Uuid Topic Data} {n : ℕ}
  {t u : DataThread Data}

/-- What the session and the thread have in common has not changed but for the next call. -/
theorem Follows.move (h : Follows s n t) (hpc : u.pc = (s'.session n).pc)
    (hterm : (s'.session n).term = (s.session n).term)
    (herrors : (s'.session n).errors = (s.session n).errors)
    (hpub : publishedBy s' n = publishedBy s n) (hpipe : u.pipe = t.pipe)
    (herrors' : u.errors = t.errors)
    (hattempts : DataThread.attempts u.calls = DataThread.attempts t.calls) : Follows s' n u := by
  refine ⟨hpc, ?_, ?_, ?_⟩
  · rw [hpipe, h.pipe, hterm]
  · rw [herrors', h.errors, herrors]
  · rw [hattempts, h.attempts, hpub]

/-- Nothing has happened to the session. -/
theorem Follows.congr (h : Follows s n t) (hsession : s'.session n = s.session n)
    (hpub : publishedBy s' n = publishedBy s n) : Follows s' n t :=
  h.move (by rw [hsession, h.pc]) (by rw [hsession]) (by rw [hsession]) hpub rfl rfl rfl

theorem publishedBy_concat (s : DpWorld Addr Uuid Topic Data) (n m : ℕ) (obj : Data)
    (sock : Option ℕ) : publishedBy { s with published := s.published ++ [(n, obj, sock)] } m
      = publishedBy s m ++ if n = m then [obj] else [] := by
  unfold publishedBy
  rw [List.filter_append, List.map_append]
  by_cases he : n = m
  · simp [he]
  · simp [he]

theorem setSession_self (s : DpWorld Addr Uuid Topic Data) (n : ℕ) (S' : Session Uuid Data) :
    (s.setSession n S').session n = S' := Function.update_self _ _ _

/-- `client_needs_restart` of both. -/
theorem follows_needsRestart (h : Follows s n t) (obj : Option Data) :
    Follows (s.needsRestart n (obj.elim .polling .sending)) n (t.polled obj) := by
  have hpipe := h.pipe
  unfold DpWorld.needsRestart
  split_ifs with hterm
  · rw [if_pos hterm] at hpipe
    have hpolled : (t.polled obj).pc = .stopping ∧ (t.polled obj).pipe = [] ∧
        (t.polled obj).errors = t.errors ∧
        DataThread.attempts (t.polled obj).calls = DataThread.attempts t.calls := by
      rw [polled, hpipe]
      cases obj with
      | none => exact ⟨rfl, rfl, rfl, (attempts_append _ _).trans (List.append_nil _)⟩
      | some obj =>
        refine ⟨rfl, rfl, rfl, ?_⟩
        show DataThread.attempts (t.calls ++ [_] ++ [_]) = _
        rw [List.append_assoc, attempts_append]
        exact List.append_nil _
    refine ⟨?_, ?_, ?_, hpolled.2.2.2.trans h.attempts⟩
    · rw [hpolled.1, setSession_self]
    · rw [hpolled.2.1, setSession_self]
      rfl
    · rw [hpolled.2.2.1, h.errors, setSession_self]
  · rw [if_neg hterm] at hpipe
    have hpolled : (t.polled obj).pc = obj.elim .polling .sending ∧ (t.polled obj).pipe = [] ∧
        (t.polled obj).errors = t.errors ∧
        DataThread.attempts (t.polled obj).calls = DataThread.attempts t.calls := by
      rw [polled, hpipe]
      cases obj <;> exact ⟨rfl, rfl, rfl, (attempts_append _ _).trans (List.append_nil _)⟩
    refine ⟨?_, ?_, ?_, hpolled.2.2.2.trans h.attempts⟩
    · rw [hpolled.1, setSession_self]
    · rw [hpolled.2.1, setSession_self, if_neg hterm]
    · rw [hpolled.2.2.1, h.errors, setSession_self]

/-- A call that is neither one of `client_publish` nor one of `client_needs_restart`. -/
theorem Follows.call (h : Follows s n t) {S' : Session Uuid Data}
    (hsession : s'.session = Function.update s.session n S') (hpub : s'.published = s.published)
    (hterm : S'.term = (s.session n).term) (herrors : S'.errors = (s.session n).errors)
    (hpc : u.pc = S'.pc) (hpipe : u.pipe = t.pipe) (herrors' : u.errors = t.errors)
    (hattempts : DataThread.attempts u.calls = DataThread.attempts t.calls) : Follows s' n u := by
  have hn : s'.session n = S' := by rw [hsession, Function.update_self]
  refine h.move (by rw [hn, hpc]) (by rw [hn, hterm]) (by rw [hn, herrors]) ?_ hpipe herrors'
    hattempts
  unfold publishedBy
  rw [hpub]

/-- `client_publish` of both. -/
theorem follows_published (h : Follows s n t) (obj : Data) (r : SendResult) {S' : Session Uuid Data}
    (hsession : s'.session = Function.update s.session n S')
    (hpub : s'.published = s.published ++ [(n, obj, s.dpDataSock)])
    (hterm : S'.term = (s.session n).term) (hpc : S'.pc = (t.published obj r).pc)
    (herrors : (t.published obj r).errors = S'.errors) : Follows s' n (t.published obj r) := by
  have hn : s'.session n = S' := by rw [hsession, Function.update_self]
  have hattempts : DataThread.attempts (t.published obj r).calls
      = DataThread.attempts t.calls ++ [obj] := by
    cases r with
    | ok =>
      show DataThread.attempts (t.calls ++ [_] ++ [_]) = _
      rw [List.append_assoc, attempts_append]
      rfl
    | again => exact attempts_append _ _
    | error => exact attempts_append _ _
  have hpipe : (t.published obj r).pipe = t.pipe := by
    cases r <;> rfl
  refine ⟨by rw [hn, hpc], by rw [hn, hterm, hpipe, h.pipe], by rw [hn, herrors], ?_⟩
  have hby := publishedBy_concat s n n obj s.dpDataSock
  rw [if_pos rfl] at hby
  rw [hattempts, h.attempts, ← hby]
  unfold publishedBy
  rw [hpub]

variable [DecidableEq Addr] [DecidableEq Topic]

/-- **A step of a session is a step of the thread.** -/
theorem follows_thread (h : Follows s n t) {r : SendResult} (hstep : s.thread init n r = some s') :
    ∃ x u, t.step x = some u ∧ Follows s' n u := by
  have hpc := h.pc
  cases hs : (s.session n).pc with
  | start =>
    rw [DpWorld.thread, hs] at hstep
    rw [hs] at hpc
    refine ⟨.next, t.call .created .create, by rw [DataThread.step, hpc], ?_⟩
    rw [← Option.some.inj hstep]
    exact h.call rfl rfl rfl rfl rfl rfl rfl ((attempts_append _ _).trans (List.append_nil _))
  | polling =>
    rw [DpWorld.thread, hs] at hstep
    rw [hs] at hpc
    refine ⟨.getData (s.rb.clientGetData init.copyObj n).1.1, _, by rw [DataThread.step, hpc], ?_⟩
    rw [← Option.some.inj hstep]
    exact h.call rfl rfl rfl rfl rfl rfl rfl ((attempts_append _ _).trans (List.append_nil _))
  | sending obj =>
    rw [DpWorld.thread, hs] at hstep
    rw [hs] at hpc
    refine ⟨.publish r, t.published obj r, by rw [DataThread.step, hpc], ?_⟩
    cases r with
    | ok =>
      rw [← Option.some.inj hstep]
      exact follows_published h obj .ok rfl rfl rfl rfl h.errors
    | again =>
      rw [← Option.some.inj hstep]
      exact follows_published h obj .again rfl rfl rfl rfl h.errors
    | error =>
      rw [← Option.some.inj hstep]
      exact follows_published h obj .error rfl rfl rfl rfl (congrArg (· + 1) h.errors)
  | failed obj =>
    rw [DpWorld.thread, hs] at hstep
    rw [hs] at hpc
    refine ⟨.next, t.polled (some obj), by rw [DataThread.step, hpc], ?_⟩
    rw [← Option.some.inj hstep]
    exact follows_needsRestart h (some obj)
  | checking =>
    rw [DpWorld.thread, hs] at hstep
    rw [hs] at hpc
    refine ⟨.next, t.polled none, by rw [DataThread.step, hpc], ?_⟩
    rw [← Option.some.inj hstep]
    exact follows_needsRestart h none
  | stopping =>
    rw [DpWorld.thread, hs] at hstep
    rw [hs] at hpc
    refine ⟨.next, t.call .closing .delete, by rw [DataThread.step, hpc], ?_⟩
    rw [← Option.some.inj hstep]
    exact h.call rfl rfl rfl rfl rfl rfl rfl ((attempts_append _ _).trans (List.append_nil _))
  | closing =>
    rw [DpWorld.thread, hs] at hstep
    rw [hs] at hpc
    refine ⟨.next, t.call .done .destroy, by rw [DataThread.step, hpc], ?_⟩
    rw [← Option.some.inj hstep]
    exact h.call rfl rfl rfl rfl rfl rfl rfl ((attempts_append _ _).trans (List.append_nil _))
  | done =>
    rw [DpWorld.thread, hs] at hstep
    cases hstep
  | _ =>
    -- the socket is none of the concern of the thread
    rw [DpWorld.thread, hs] at hstep
    rw [hs] at hpc
    refine ⟨.next, _, by rw [DataThread.step, hpc], ?_⟩
    rw [← Option.some.inj hstep]
    exact h.call rfl rfl rfl rfl rfl rfl rfl rfl

/-- What a step of session `n` leaves alone. -/
theorem thread_others {r : SendResult} (hstep : s.thread init n r = some s') :
    s'.sessions = s.sessions ∧
      ∀ m, m ≠ n → s'.session m = s.session m ∧ publishedBy s' m = publishedBy s m := by
  have hrestart : ∀ pc, (s.needsRestart n pc).sessions = s.sessions ∧
      ∀ m, m ≠ n → (s.needsRestart n pc).session m = s.session m ∧
        publishedBy (s.needsRestart n pc) m = publishedBy s m := by
    intro pc
    unfold DpWorld.needsRestart
    split_ifs <;> exact ⟨rfl, fun m hm => ⟨Function.update_of_ne hm _ _, rfl⟩⟩
  cases hpc : (s.session n).pc with
  | failed obj =>
    rw [DpWorld.thread, hpc] at hstep
    exact Option.some.inj hstep ▸ hrestart _
  | checking =>
    rw [DpWorld.thread, hpc] at hstep
    exact Option.some.inj hstep ▸ hrestart _
  | sending obj =>
    rw [DpWorld.thread, hpc] at hstep
    have hby : ∀ m, m ≠ n → publishedBy
        { s with published := s.published ++ [(n, obj, s.dpDataSock)] } m = publishedBy s m := by
      intro m hm
      rw [publishedBy_concat, if_neg (Ne.symm hm), List.append_nil]
    cases r <;> exact Option.some.inj hstep ▸
      ⟨rfl, fun m hm => ⟨Function.update_of_ne hm _ _, hby m hm⟩⟩
  | done =>
    rw [DpWorld.thread, hpc] at hstep
    cases hstep
  | _ =>
    rw [DpWorld.thread, hpc] at hstep
    exact Option.some.inj hstep ▸ ⟨rfl, fun m hm => ⟨Function.update_of_ne hm _ _, rfl⟩⟩

/-- Every session there has been is a data thread. -/
structure Staffed (s : DpWorld Addr Uuid Topic Data) : Prop where
  table : ∀ u n, s.table u = some n → n < s.sessions
  unborn : ∀ n, s.sessions ≤ n → s.session n = {} ∧ publishedBy s n = []
  born : ∀ n, n < s.sessions → ∃ t, (dataThreadSystem Data).Reachable t ∧ Follows s n t

omit [DecidableEq Addr] [DecidableEq Topic] in
/-- Nothing has happened to any session. -/
theorem Staffed.congr (h : Staffed s) (htable : s'.table = s.table)
    (hsessions : s'.sessions = s.sessions) (hsession : s'.session = s.session)
    (hpub : s'.published = s.published) : Staffed s' := by
  have hby : ∀ n, publishedBy s' n = publishedBy s n := by
    intro n
    unfold publishedBy
    rw [hpub]
  refine ⟨?_, fun n hn => ?_, fun n hn => ?_⟩
  · rw [htable, hsessions]
    exact h.table
  · rw [hsessions] at hn
    rw [hsession, hby]
    exact h.unborn n hn
  · rw [hsessions] at hn
    obtain ⟨t, ht, hf⟩ := h.born n hn
    exact ⟨t, ht, hf.congr (by rw [hsession]) (hby n)⟩

variable [DecidableEq Uuid]

omit [DecidableEq Addr] [DecidableEq Topic] in
theorem Staffed.startNewDpDataThread (h : Staffed s) (u : Uuid) :
    Staffed (s.startNewDpDataThread u) := by
  have hother : ∀ m, m ≠ s.sessions → (s.startNewDpDataThread u).session m = s.session m :=
    fun m hm => Function.update_of_ne hm _ _
  refine ⟨fun v n hv => ?_, fun n hn => ?_, fun n hn => ?_⟩
  · show n < s.sessions + 1
    by_cases he : v = u
    · have hself : Function.update s.table u (some s.sessions) v = some n := hv
      rw [he, Function.update_self] at hself
      rw [← Option.some.inj hself]
      exact Nat.lt_succ_self _
    · have hne : Function.update s.table u (some s.sessions) v = some n := hv
      rw [Function.update_of_ne he] at hne
      exact Nat.lt_succ_of_lt (h.table v n hne)
  · have hlt : s.sessions + 1 ≤ n := hn
    rw [hother n (by omega)]
    exact h.unborn n (by omega)
  · rcases Nat.lt_succ_iff_lt_or_eq.mp hn with hlt | rfl
    · obtain ⟨t, ht, hf⟩ := h.born n hlt
      exact ⟨t, ht, hf.congr (hother n hlt.ne) rfl⟩
    · have hself : (s.startNewDpDataThread u).session s.sessions
          = { uuid := some u, pc := .start } := Function.update_self _ _ _
      refine ⟨.start, ⟨[], rfl⟩, ?_, ?_, ?_, (h.unborn s.sessions le_rfl).2.symm⟩
      · rw [hself]
        rfl
      · rw [hself]
        rfl
      · rw [hself]
        rfl

omit [DecidableEq Addr] [DecidableEq Topic] in
theorem Staffed.closeDpSession (h : Staffed s) {v : Uuid} (hv : s.table v = some n)
    (next : Option Uuid) : Staffed (s.closeDpSession v n next) := by
  have hlt : n < s.sessions := h.table v n hv
  have hself : (s.closeDpSession v n next).session n = { s.session n with term := true } :=
    Function.update_self _ _ _
  have hother : ∀ m, m ≠ n → (s.closeDpSession v n next).session m = s.session m :=
    fun m hm => Function.update_of_ne hm _ _
  refine ⟨fun u m hu => ?_, fun m hm => ?_, fun m hm => ?_⟩
  · have hu' : Function.update s.table v none u = some m := hu
    by_cases he : u = v
    · rw [he, Function.update_self] at hu'
      exact nomatch hu'
    · rw [Function.update_of_ne he] at hu'
      exact h.table u m hu'
  · have hle : s.sessions ≤ m := hm
    rw [hother m (by omega)]
    exact h.unborn m hle
  · obtain ⟨t, ht, hf⟩ := h.born m hm
    by_cases he : m = n
    · subst he
      by_cases hterm : (s.session m).term = true
      · -- it is being told to stop already
        refine ⟨t, ht, hf.congr ?_ rfl⟩
        rw [hself, ← hterm]
      · refine ⟨{ t with pipe := t.pipe ++ [termMsg] },
          ht.step (a := .arrive termMsg) rfl, ?_, ?_, ?_, hf.attempts⟩
        · rw [hself]
          exact hf.pc
        · rw [hself, hf.pipe, if_neg hterm]
          rfl
        · rw [hself]
          exact hf.errors
    · exact ⟨t, ht, hf.congr (hother m he) rfl⟩

theorem Staffed.step (h : Staffed s) {x : DpStep Addr Uuid Data} (hx : s.step init x = some s') :
    Staffed s' := by
  cases x with
  | connect u =>
    obtain ⟨-, rfl⟩ := dpStep_connect.mp hx
    unfold DpWorld.processConnectMessage
    cases hu : s.table u with
    | none => exact h.startNewDpDataThread u
    | some n => exact h.closeDpSession hu (some u)
  | stopped =>
    obtain ⟨next, n, -, -, rfl⟩ := dpStep_stopped.mp hx
    cases next with
    | none => exact h.congr rfl rfl rfl rfl
    | some u => exact h.startNewDpDataThread u
  | accept =>
    obtain ⟨u, n, -, -, rfl⟩ := dpStep_accept.mp hx
    exact h.congr rfl rfl rfl rfl
  | shutdown =>
    obtain ⟨-, rfl⟩ := dpStep_shutdown.mp hx
    exact h.congr rfl rfl rfl rfl
  | closeSession u =>
    obtain ⟨-, n, hn, rfl⟩ := dpStep_closeSession.mp hx
    exact h.closeDpSession hn none
  | publish a obj pri =>
    obtain ⟨-, rfl⟩ := dpStep_publish.mp hx
    exact h.congr rfl rfl rfl rfl
  | thread n r =>
    have hstep : s.thread init n r = some s' := hx
    obtain ⟨hsessions, hothers⟩ := thread_others hstep
    have hlt : n < s.sessions := by
      by_contra hle
      rw [DpWorld.thread, (h.unborn n (not_lt.mp hle)).1] at hstep
      cases hstep
    refine ⟨?_, fun m hm => ?_, fun m hm => ?_⟩
    · rw [(thread_ctrl hstep).1, hsessions]
      exact h.table
    · rw [hsessions] at hm
      obtain ⟨hsession, hby⟩ := hothers m (by omega)
      rw [hsession, hby]
      exact h.unborn m hm
    · rw [hsessions] at hm
      obtain ⟨t, ht, hf⟩ := h.born m hm
      by_cases he : m = n
      · subst he
        obtain ⟨x, u, hxu, hfu⟩ := follows_thread hf hstep
        exact ⟨u, ht.step hxu, hfu⟩
      · obtain ⟨hsession, hby⟩ := hothers m he
        exact ⟨t, ht, hf.congr hsession hby⟩

/-- **The sessions of a run are data threads**: each one has come to where it is by a run of
`dataThreadSystem`, with the same attempts to send. -/
theorem data_thread_runs (h : (dpSystem Addr Uuid init).Reachable s) (hn : n < s.sessions) :
    ∃ t, (dataThreadSystem Data).Reachable t ∧ Follows s n t := by
  have hstart : Staffed (DpWorld.start : DpWorld Addr Uuid Topic Data) :=
    ⟨fun _ _ h => (nomatch h), fun _ _ => ⟨rfl, rfl⟩, fun _ h => absurd h (Nat.not_lt_zero _)⟩
  have hstaffed : Staffed s :=
    System.Reachable.induction (P := Staffed) hstart (fun _ _ _ hs hstep => hs.step hstep) h
  exact hstaffed.born n hn

end Sessions

end DataThread
