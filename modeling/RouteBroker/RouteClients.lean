/-
# The threads that read from the route broker

`broker_consumer` of `route_broker_kernel.c` and `broker_dp_data_client` of
`route_broker_dp_data.c` are the only clients of the route broker, and they free what they
read.  Here any number of them run over the route broker with pointers, while messages are
published.  An object is a pointer together with the data it was handed out with.

Nothing but the program of a thread keeps it from freeing what is not its own: a call of
`route_broker_client_free_data` in this model frees whatever it is given.

Main result: `clients_free_once`.
-/
import RouteBroker.RouteOwner
import RouteBroker.DpDataClient

open Circleq Broker

/-! ## The kernel thread -/

/-- The next library call of `broker_consumer`. -/
inductive KernelPc (Data : Type*)
  /-- `route_broker_client_create("kernel")` -/
  | start
  /-- `route_broker_client_get_data(client, &bc)` -/
  | polling
  /-- `obj_kernel_publish(obj, NULL)` -/
  | publishing (obj : Data)
  deriving DecidableEq

/-- The kernel thread, with a log of its library calls. -/
structure KernelThread (Data : Type*) where
  pc : KernelPc Data
  /-- `client->errors` -/
  errors : UInt64
  calls : List (DataCall Data)
  deriving DecidableEq

variable {Addr Cl Topic Data Ptr : Type*}

namespace KernelThread

/-- The thread before its first call. -/
def start : KernelThread Data where
  pc := .start
  errors := 0
  calls := []

variable (t : KernelThread Data)

/-- Add a call to the log and go on at `pc`. -/
def call (pc : KernelPc Data) (c : DataCall Data) : KernelThread Data :=
  { t with pc := pc, calls := t.calls ++ [c] }

/-- `obj_kernel_publish(obj, NULL)` returns `r`: whatever that is, the object is freed. -/
def published (obj : Data) (r : SendResult) : KernelThread Data :=
  let t := t.call .polling (.publish obj r)
  let t := if r = .ok then t else { t with errors := t.errors + 1 }
  t.call .polling (.freeData obj)

/-- One step; `none` if the thread is not at that call.  It has no pipe and never ends. -/
def step : DataStep Data → Option (KernelThread Data)
  | .arrive _ => none
  | .getData got =>
    match t.pc with
    | .polling => some (t.call (got.elim .polling .publishing) (.getData got))
    | _ => none
  | .publish r =>
    match t.pc with
    | .publishing obj => some (t.published obj r)
    | _ => none
  | .next =>
    match t.pc with
    | .start => some (t.call .polling .create)
    | _ => none

/-- The object that is passed to the kernel. -/
def atHand : KernelPc Data → Option Data
  | .publishing obj => some obj
  | _ => none

open DataThread in
/-- Every object that was consumed is passed to the kernel once, in order, and freed then;
what fails is counted in a `uint64_t`, and the client is never deleted. -/
structure Inv (t : KernelThread Data) : Prop where
  passed : attempts t.calls ++ (atHand t.pc).toList = consumed t.calls
  released : freed t.calls = attempts t.calls
  counted : t.errors + UInt64.ofNat (sent t.calls).length = UInt64.ofNat (attempts t.calls).length
  kept : deletes t.calls = 0
  fresh : t.pc = .start → t.calls = []

end KernelThread

section Kernel

open DataThread

variable {t u : KernelThread Data}

theorem kernelInv_start : (KernelThread.start : KernelThread Data).Inv :=
  ⟨rfl, rfl, rfl, rfl, fun _ => rfl⟩

theorem KernelThread.Inv.getData (h : t.Inv) (hpc : t.pc = .polling) (got : Option Data) :
    (t.call (got.elim .polling .publishing) (.getData got)).Inv := by
  have hpassed := h.passed
  rw [hpc] at hpassed
  have hhand : (KernelThread.atHand (got.elim .polling .publishing)).toList
      = consumed [DataCall.getData got] := by
    cases got <;> rfl
  constructor
  · show attempts (t.calls ++ [_]) ++ _ = consumed (t.calls ++ [_])
    rw [attempts_append, consumed_append, ← hpassed, ← hhand]
    simp [attempts, KernelThread.call, KernelThread.atHand]
  · show freed (t.calls ++ [_]) = attempts (t.calls ++ [_])
    rw [freed_append, attempts_append, h.released]
    rfl
  · show t.errors + UInt64.ofNat (sent (t.calls ++ [_])).length
      = UInt64.ofNat (attempts (t.calls ++ [_])).length
    rw [sent_append, attempts_append, List.length_append, List.length_append, UInt64.ofNat_add,
      UInt64.ofNat_add, ← h.counted, UInt64.add_assoc]
    rfl
  · show deletes (t.calls ++ [_]) = 0
    rw [deletes_append, h.kept]
    rfl
  · cases got <;> exact nofun

theorem KernelThread.Inv.published {obj : Data} (h : t.Inv) (hpc : t.pc = .publishing obj)
    (r : SendResult) : (t.published obj r).Inv := by
  have hpassed := h.passed
  rw [hpc] at hpassed
  have hcalls : (t.published obj r).calls = t.calls ++ [.publish obj r, .freeData obj] := by
    unfold KernelThread.published
    by_cases hr : r = .ok <;> simp [hr, KernelThread.call]
  have hpc' : (t.published obj r).pc = .polling := rfl
  have herrors : (t.published obj r).errors = if r = .ok then t.errors else t.errors + 1 := by
    unfold KernelThread.published
    by_cases hr : r = .ok <;> simp [hr, KernelThread.call]
  constructor
  · rw [hcalls, hpc', attempts_append, consumed_append, ← hpassed]
    simp [attempts, consumed, KernelThread.atHand]
  · rw [hcalls, freed_append, attempts_append, h.released]
    rfl
  · rw [hcalls, herrors, sent_append, attempts_append, List.length_append, List.length_append,
      UInt64.ofNat_add, UInt64.ofNat_add, ← h.counted]
    cases r with
    | ok => exact (UInt64.add_assoc _ _ _).symm
    | again | error =>
      -- one attempt more and one error more
      show t.errors + 1 + (UInt64.ofNat (sent t.calls).length + 0)
        = t.errors + UInt64.ofNat (sent t.calls).length + 1
      rw [UInt64.add_zero, UInt64.add_assoc, UInt64.add_comm 1, UInt64.add_assoc]
  · rw [hcalls, deletes_append, h.kept]
    rfl
  · rw [hpc']
    exact nofun

/-- **Every step keeps the invariant.** -/
theorem KernelThread.Inv.step (h : t.Inv) {x : DataStep Data} (hx : t.step x = some u) :
    u.Inv := by
  cases x with
  | arrive msg => cases hx
  | getData got =>
    cases hpc : t.pc with
    | polling =>
      rw [KernelThread.step, hpc] at hx
      exact Option.some.inj hx ▸ h.getData hpc got
    | _ =>
      rw [KernelThread.step, hpc] at hx
      cases hx
  | publish r =>
    cases hpc : t.pc with
    | publishing obj =>
      rw [KernelThread.step, hpc] at hx
      exact Option.some.inj hx ▸ h.published hpc r
    | _ =>
      rw [KernelThread.step, hpc] at hx
      cases hx
  | next =>
    cases hpc : t.pc with
    | start =>
      rw [KernelThread.step, hpc] at hx
      obtain rfl := Option.some.inj hx
      have hcalls := h.fresh hpc
      have hcounted := h.counted
      rw [hcalls] at hcounted
      refine ⟨?_, ?_, ?_, ?_, nofun⟩
      · simp [KernelThread.call, hcalls, attempts, consumed, KernelThread.atHand]
      · simp [KernelThread.call, hcalls, attempts, freed]
      · simpa [KernelThread.call, hcalls, attempts, sent] using hcounted
      · simp [KernelThread.call, hcalls, deletes]
    | _ =>
      rw [KernelThread.step, hpc] at hx
      cases hx

end Kernel

/-! ## The threads -/

/-- A thread that reads from the route broker. -/
inductive ClientThread (Data : Type*)
  | dp (t : DataThread Data)
  | kernel (t : KernelThread Data)

namespace ClientThread

/-- The name the thread gives its client. -/
def name : ClientThread Data → String
  | .dp _ => "dp"
  | .kernel _ => "kernel"

/-- The log of its calls. -/
def calls : ClientThread Data → List (DataCall Data)
  | .dp t => t.calls
  | .kernel t => t.calls

/-- The object it works on. -/
def atHand : ClientThread Data → Option Data
  | .dp t => DataThread.atHand t.pc
  | .kernel t => KernelThread.atHand t.pc

/-- Its client exists: it was created, and not deleted. -/
def isClient : ClientThread Data → Bool
  | .dp t => match t.pc with
    | .start | .closing | .done => false
    | _ => true
  | .kernel t => match t.pc with
    | .start => false
    | _ => true

/-- It has ended. -/
def ended : ClientThread Data → Bool
  | .dp t => match t.pc with
    | .done => true
    | _ => false
  | .kernel _ => false

/-- One step. -/
def step : ClientThread Data → DataStep Data → Option (ClientThread Data)
  | .dp t, x => (t.step x).map .dp
  | .kernel t, x => (t.step x).map .kernel

/-- What is known of the thread from its program. -/
def Inv : ClientThread Data → Prop
  | .dp t => DataThread.LoopInv t ∧ (t.pc = .start → t.calls = [])
  | .kernel t => t.Inv

end ClientThread

/-- A call that is none of the route broker. -/
def DataCall.silent : DataCall Data → Bool
  | .publish .. | .needsRestart _ | .destroy => true
  | _ => false

/-- What a thread may do to the route broker in one step `x`, with the calls it makes. -/
inductive Moves (t u : ClientThread Data) (x : DataStep Data) : List (DataCall Data) → Prop
  | silent {cs} : (∀ c ∈ cs, DataCall.silent c = true) → u.atHand = t.atHand →
      u.isClient = t.isClient → (∀ got, x ≠ .getData got) → Moves t u x cs
  | create : t.calls = [] → t.isClient = false → u.isClient = true → t.atHand = none →
      u.atHand = none → (∀ got, x ≠ .getData got) → Moves t u x [.create]
  | getData {got} : x = .getData got → t.isClient = true → u.isClient = true → t.atHand = none →
      u.atHand = got → Moves t u x [.getData got]
  | freeData {obj} {c} : DataCall.silent c = true → t.isClient = true → u.isClient = true →
      t.atHand = some obj → u.atHand = none → (∀ got, x ≠ .getData got) →
      Moves t u x [c, .freeData obj]
  | delete : t.isClient = true → u.isClient = false → t.atHand = none → u.atHand = none →
      (∀ got, x ≠ .getData got) → Moves t u x [.delete]

section Threads

variable {t u : ClientThread Data} {x : DataStep Data}

theorem dataThread_moves {t u : DataThread Data} (h : (ClientThread.dp t).Inv)
    (hx : t.step x = some u) :
    ∃ cs, u.calls = t.calls ++ cs ∧ Moves (.dp t) (.dp u) x cs := by
  cases x with
  | arrive msg =>
    obtain rfl := Option.some.inj hx
    exact ⟨[], (List.append_nil _).symm, .silent (by simp) rfl rfl (by simp)⟩
  | getData got =>
    cases hpc : t.pc with
    | polling =>
      rw [DataThread.step, hpc] at hx
      obtain rfl := Option.some.inj hx
      refine ⟨[.getData got], rfl, .getData rfl ?_ ?_ ?_ ?_⟩
      · simp [ClientThread.isClient, hpc]
      · cases got <;> rfl
      · simp [ClientThread.atHand, hpc, DataThread.atHand]
      · cases got <;> rfl
    | _ =>
      rw [DataThread.step, hpc] at hx
      cases hx
  | publish r =>
    cases hpc : t.pc with
    | sending obj =>
      rw [DataThread.step, hpc] at hx
      obtain rfl := Option.some.inj hx
      have hclient : (ClientThread.dp t).isClient = true := by simp [ClientThread.isClient, hpc]
      have hhand : (ClientThread.dp t).atHand = some obj := by
        simp [ClientThread.atHand, hpc, DataThread.atHand]
      cases r with
      | ok =>
        refine ⟨[.publish obj .ok, .freeData obj], List.append_assoc _ _ _, ?_⟩
        exact .freeData rfl hclient rfl hhand rfl (by simp)
      | again | error =>
        exact ⟨[_], rfl, .silent (by simp [DataCall.silent]) hhand.symm hclient.symm (by simp)⟩
    | _ =>
      rw [DataThread.step, hpc] at hx
      cases hx
  | next =>
    cases hpc : t.pc with
    | start =>
      rw [DataThread.step, hpc] at hx
      obtain rfl := Option.some.inj hx
      refine ⟨[.create], rfl, .create (h.2 hpc) ?_ rfl ?_ rfl (by simp)⟩
      · simp [ClientThread.isClient, hpc]
      · simp [ClientThread.atHand, hpc, DataThread.atHand]
    | failed obj =>
      rw [DataThread.step, hpc] at hx
      obtain rfl := Option.some.inj hx
      have hclient : (ClientThread.dp t).isClient = true := by simp [ClientThread.isClient, hpc]
      have hhand : (ClientThread.dp t).atHand = some obj := by
        simp [ClientThread.atHand, hpc, DataThread.atHand]
      unfold DataThread.polled
      cases hrestart : (clientNeedsRestart t.pipe).1 with
      | true =>
        simp only [hrestart]
        refine ⟨[.needsRestart true, .freeData obj], List.append_assoc _ _ _, ?_⟩
        exact .freeData rfl hclient rfl hhand rfl (by simp)
      | false =>
        simp only [hrestart]
        exact ⟨[_], rfl, .silent (by simp [DataCall.silent]) hhand.symm hclient.symm (by simp)⟩
    | checking =>
      rw [DataThread.step, hpc] at hx
      obtain rfl := Option.some.inj hx
      have hclient : (ClientThread.dp t).isClient = true := by simp [ClientThread.isClient, hpc]
      have hhand : (ClientThread.dp t).atHand = none := by
        simp [ClientThread.atHand, hpc, DataThread.atHand]
      unfold DataThread.polled
      cases hrestart : (clientNeedsRestart t.pipe).1 with
      | true | false =>
        simp only [hrestart]
        exact ⟨[_], rfl, .silent (by simp [DataCall.silent]) hhand.symm hclient.symm (by simp)⟩
    | stopping =>
      rw [DataThread.step, hpc] at hx
      obtain rfl := Option.some.inj hx
      refine ⟨[.delete], rfl, .delete ?_ rfl ?_ rfl (by simp)⟩
      · simp [ClientThread.isClient, hpc]
      · simp [ClientThread.atHand, hpc, DataThread.atHand]
    | polling | sending obj | done =>
      rw [DataThread.step, hpc] at hx
      cases hx
    | closing =>
      rw [DataThread.step, hpc] at hx
      obtain rfl := Option.some.inj hx
      refine ⟨[.destroy], rfl, .silent (by simp [DataCall.silent]) ?_ ?_ (by simp)⟩
      · simp [ClientThread.atHand, hpc, DataThread.atHand, DataThread.call]
      · simp [ClientThread.isClient, hpc, DataThread.call]
    | _ =>
      -- the thread sets up its socket
      rw [DataThread.step, hpc] at hx
      obtain rfl := Option.some.inj hx
      refine ⟨[], (List.append_nil _).symm, .silent (by simp) ?_ ?_ (by simp)⟩
      · simp [ClientThread.atHand, hpc, DataThread.atHand]
      · simp [ClientThread.isClient, hpc]

theorem kernelThread_moves {t u : KernelThread Data} (h : t.Inv) (hx : t.step x = some u) :
    ∃ cs, u.calls = t.calls ++ cs ∧ Moves (.kernel t) (.kernel u) x cs := by
  cases x with
  | arrive msg => cases hx
  | getData got =>
    cases hpc : t.pc with
    | polling =>
      rw [KernelThread.step, hpc] at hx
      obtain rfl := Option.some.inj hx
      refine ⟨[.getData got], rfl, .getData rfl ?_ ?_ ?_ ?_⟩
      · simp [ClientThread.isClient, hpc]
      · cases got <;> rfl
      · simp [ClientThread.atHand, hpc, KernelThread.atHand]
      · cases got <;> rfl
    | _ =>
      rw [KernelThread.step, hpc] at hx
      cases hx
  | publish r =>
    cases hpc : t.pc with
    | publishing obj =>
      rw [KernelThread.step, hpc] at hx
      obtain rfl := Option.some.inj hx
      refine ⟨[.publish obj r, .freeData obj], ?_, .freeData rfl ?_ rfl ?_ rfl (by simp)⟩
      · unfold KernelThread.published
        by_cases hr : r = .ok <;> simp [hr, KernelThread.call]
      · simp [ClientThread.isClient, hpc]
      · simp [ClientThread.atHand, hpc, KernelThread.atHand]
    | _ =>
      rw [KernelThread.step, hpc] at hx
      cases hx
  | next =>
    cases hpc : t.pc with
    | start =>
      rw [KernelThread.step, hpc] at hx
      obtain rfl := Option.some.inj hx
      refine ⟨[.create], rfl, .create (h.fresh hpc) ?_ rfl ?_ rfl (by simp)⟩
      · simp [ClientThread.isClient, hpc]
      · simp [ClientThread.atHand, hpc, KernelThread.atHand]
    | _ =>
      rw [KernelThread.step, hpc] at hx
      cases hx

/-- Before its first call a thread only gets messages. -/
theorem dataThread_fresh {t u : DataThread Data} (h : (ClientThread.dp t).Inv)
    (hx : t.step x = some u) (hpc : u.pc = .start) : u.calls = [] := by
  cases x with
  | arrive msg =>
    obtain rfl := Option.some.inj hx
    exact h.2 hpc
  | getData got =>
    cases ht : t.pc with
    | polling =>
      rw [DataThread.step, ht] at hx
      obtain rfl := Option.some.inj hx
      cases got <;> cases hpc
    | _ =>
      rw [DataThread.step, ht] at hx
      cases hx
  | publish r =>
    cases ht : t.pc with
    | sending obj =>
      rw [DataThread.step, ht] at hx
      obtain rfl := Option.some.inj hx
      cases r <;> cases hpc
    | _ =>
      rw [DataThread.step, ht] at hx
      cases hx
  | next =>
    cases ht : t.pc with
    | failed obj =>
      rw [DataThread.step, ht] at hx
      obtain rfl := Option.some.inj hx
      unfold DataThread.polled at hpc
      cases hrestart : (clientNeedsRestart t.pipe).1 <;> simp only [hrestart] at hpc <;> cases hpc
    | checking =>
      rw [DataThread.step, ht] at hx
      obtain rfl := Option.some.inj hx
      unfold DataThread.polled at hpc
      cases hrestart : (clientNeedsRestart t.pipe).1 <;> simp only [hrestart] at hpc <;> cases hpc
    | polling | sending obj | done =>
      rw [DataThread.step, ht] at hx
      cases hx
    | _ =>
      rw [DataThread.step, ht] at hx
      obtain rfl := Option.some.inj hx
      cases hpc

/-- **What a thread does in one step.** -/
theorem ClientThread.step_moves (h : t.Inv) (hx : t.step x = some u) :
    u.Inv ∧ ∃ cs, u.calls = t.calls ++ cs ∧ Moves t u x cs := by
  cases t with
  | dp t =>
    obtain ⟨v, hv, rfl⟩ := Option.map_eq_some_iff.mp hx
    exact ⟨⟨h.1.step hv, dataThread_fresh h hv⟩, dataThread_moves h hv⟩
  | kernel t =>
    obtain ⟨v, hv, rfl⟩ := Option.map_eq_some_iff.mp hx
    exact ⟨KernelThread.Inv.step h hv, kernelThread_moves h hv⟩

end Threads

/-! ## The threads and the route broker -/

/-- The route broker with pointers, and the threads by the client they use. -/
structure ClientWorld (Addr Cl Topic Ptr Data : Type*) where
  ptr : PtrWorld Addr Cl Topic Ptr Data
  thread : Cl → Option (ClientThread (Ptr × Data))

/-- What may happen. -/
inductive ClientAct (Addr Cl Ptr Data : Type*)
  /-- `object_broker_publish` -/
  | publish (a : Addr) (dup : Option Ptr) (obj : Data) (pri : Level)
  /-- a data thread, or the kernel thread, is started -/
  | spawn (c : Cl) (kernel : Bool)
  /-- the thread of `c` calls `route_broker_client_get_data`, `copy_obj` returning `dup` -/
  | getData (c : Cl) (dup : Option Ptr)
  /-- the control thread writes to the pipe of the thread of `c` -/
  | arrive (c : Cl) (msg : Text)
  /-- `client_publish` or `obj_kernel_publish` returns -/
  | attempt (c : Cl) (r : SendResult)
  /-- the thread of `c` goes on with any other call -/
  | next (c : Cl)

section World

variable [DecidableEq Addr] [DecidableEq Cl] [DecidableEq Topic] [DecidableEq Ptr]

/-- What a call of a thread does to the route broker. -/
def PtrWorld.perform (copy : Data → Data) (c : Cl) (name : String) (dup : Option Ptr)
    (w : PtrWorld Addr Cl Topic Ptr Data) : DataCall (Ptr × Data) → PtrWorld Addr Cl Topic Ptr Data
  | .create => w.clientCreate c name
  | .getData _ => w.clientGetData copy dup c
  | .freeData obj => w.clientFreeData obj.1
  | .delete => w.clientDelete c
  | _ => w

namespace ClientWorld

variable (gen : Data → ℤ × Topic × Bool) (copy : Data → Data)

/-- The world before any thread runs. -/
def start : ClientWorld Addr Cl Topic Ptr Data where
  ptr := .start
  thread := fun _ => none

variable (w : ClientWorld Addr Cl Topic Ptr Data)

/-- A step `x` of the thread of `c`. -/
def run (c : Cl) (dup : Option Ptr) (x : DataStep (Ptr × Data)) :
    Option (ClientWorld Addr Cl Topic Ptr Data) :=
  (w.thread c).bind fun t => (t.step x).map fun u =>
    { ptr := (u.calls.drop t.calls.length).foldl (PtrWorld.perform copy c t.name dup) w.ptr
      thread := Function.update w.thread c (some u) }

/-- One step. -/
def step : ClientAct Addr Cl Ptr Data → Option (ClientWorld Addr Cl Topic Ptr Data)
  | .publish a dup obj pri =>
    (w.ptr.call gen copy (.publish a dup obj pri)).map fun v => { w with ptr := v }
  | .spawn c kernel =>
    if (w.thread c).all ClientThread.ended then
      let t := if kernel then ClientThread.kernel .start else .dp .start
      some { w with thread := Function.update w.thread c (some t) }
    else none
  | .getData c dup =>
    if dup.all fun p => (w.ptr.broker.pool.live p).isNone then
      w.run copy c dup (.getData (w.ptr.broker.clientGetData copy dup c).1)
    else none
  | .arrive c msg => w.run copy c none (.arrive msg)
  | .attempt c r => w.run copy c none (.publish r)
  | .next c => w.run copy c none .next

end ClientWorld

/-- All runs of the threads over the route broker. -/
def clientSystem (Addr Cl Ptr : Type*) [DecidableEq Addr] [DecidableEq Cl] [DecidableEq Ptr]
    (gen : Data → ℤ × Topic × Bool) (copy : Data → Data) :
    System (ClientWorld Addr Cl Topic Ptr Data) (ClientAct Addr Cl Ptr Data) where
  init := .start
  step := ClientWorld.step gen copy

/-- The threads have what the route broker handed out, and know it. -/
structure ClientWorld.Kept (gen : Data → ℤ × Topic × Bool)
    (w : ClientWorld Addr Cl Topic Ptr Data) : Prop where
  owned : w.ptr.Owned gen
  inv : ∀ c t, w.thread c = some t → t.Inv
  client : ∀ c, c ∈ w.ptr.broker.rb.clientList ↔ ∃ t, w.thread c = some t ∧ t.isClient = true
  holds : ∀ p c d, w.ptr.holder p = some (c, d) ↔ ∃ t, w.thread c = some t ∧ t.atHand = some (p, d)
  received : ∀ c t, w.thread c = some t → t.isClient = true →
    w.ptr.received c = (DataThread.consumed t.calls).map Prod.snd

variable {gen : Data → ℤ × Topic × Bool} {copy : Data → Data}
  {w w' : ClientWorld Addr Cl Topic Ptr Data} {v : PtrWorld Addr Cl Topic Ptr Data} {c : Cl}
  {t u : ClientThread (Ptr × Data)} {dup : Option Ptr} {x : DataStep (Ptr × Data)}

/-- Calls that are none of the route broker's do nothing to it. -/
theorem perform_silent {cs : List (DataCall (Ptr × Data))} (name : String)
    (h : ∀ y ∈ cs, DataCall.silent y = true) (v : PtrWorld Addr Cl Topic Ptr Data) :
    cs.foldl (PtrWorld.perform copy c name dup) v = v := by
  induction cs with
  | nil => rfl
  | cons y cs ih =>
    rw [List.foldl_cons]
    have hy : PtrWorld.perform copy c name dup v y = v := by
      have hsilent := h y List.mem_cons_self
      cases y <;> first | rfl | cases hsilent
    rw [hy]
    exact ih fun z hz => h z (List.mem_cons_of_mem y hz)

omit [DecidableEq Addr] [DecidableEq Topic] [DecidableEq Ptr] in
/-- The step of one thread, once it is known what it does to the route broker. -/
theorem ClientWorld.Kept.thread (h : w.Kept gen) (hu : u.Inv)
    (hown : v.Owned gen)
    (hclients : ∀ e, e ∈ v.broker.rb.clientList ↔
      e ≠ c ∧ e ∈ w.ptr.broker.rb.clientList ∨ e = c ∧ u.isClient = true)
    (hholder : ∀ p e d, v.holder p = some (e, d) ↔
      e ≠ c ∧ w.ptr.holder p = some (e, d) ∨ e = c ∧ u.atHand = some (p, d))
    (hreceived : ∀ e, e ≠ c → v.received e = w.ptr.received e)
    (hself : u.isClient = true → v.received c = (DataThread.consumed u.calls).map Prod.snd) :
    (⟨v, Function.update w.thread c (some u)⟩ : ClientWorld Addr Cl Topic Ptr Data).Kept gen := by
  -- what the threads say, for `c` and for the others
  have hat : ∀ (e : Cl) (P : ClientThread (Ptr × Data) → Prop),
      (∃ s, Function.update w.thread c (some u) e = some s ∧ P s) ↔
        e ≠ c ∧ (∃ s, w.thread e = some s ∧ P s) ∨ e = c ∧ P u := by
    intro e P
    by_cases he : e = c
    · subst he
      simp
    · simp [he]
  have hthread : ∀ e s, Function.update w.thread c (some u) e = some s →
      e = c ∧ s = u ∨ e ≠ c ∧ w.thread e = some s := by
    intro e s hs
    by_cases he : e = c
    · rw [he, Function.update_self] at hs
      exact Or.inl ⟨he, (Option.some.inj hs).symm⟩
    · rw [Function.update_of_ne he] at hs
      exact Or.inr ⟨he, hs⟩
  constructor
  · exact hown
  · intro e s hs
    rcases hthread e s hs with ⟨-, rfl⟩ | ⟨-, hs⟩
    · exact hu
    · exact h.inv e s hs
  · intro e
    rw [hclients, hat, h.client]
  · intro p e d
    rw [hholder, hat, h.holds]
  · intro e s hs hclient
    rcases hthread e s hs with ⟨rfl, rfl⟩ | ⟨he, hs⟩
    · exact hself hclient
    · show v.received e = _
      rw [hreceived e he]
      exact h.received e s hs hclient

/-! ### One step of a thread -/

omit [DecidableEq Addr] [DecidableEq Cl] [DecidableEq Topic] [DecidableEq Ptr] in
theorem kept_at (h : w.thread c = some t) (P : ClientThread (Ptr × Data) → Prop) :
    (∃ s, w.thread c = some s ∧ P s) ↔ P t := by
  rw [h]
  simp

/-- A call of the route broker with pointers keeps the owners. -/
theorem owned_call {y : PtrCall Addr Cl Ptr Data} {w v : PtrWorld Addr Cl Topic Ptr Data}
    (h : w.Owned gen) (hy : w.call gen copy y = some v) : v.Owned gen := by
  have hexec : (ptrSystem Addr Cl Ptr gen copy).exec w [y] = some v :=
    (System.exec_cons_eq_some _).mpr ⟨v, hy, rfl⟩
  exact (ptrRun_steps h hexec).1

theorem clientDelete_clientList_ptr (w : DataBroker Addr Cl Topic Ptr Data) (c : Cl) :
    (w.clientDelete c).rb.clientList = remove w.rb.clientList c := by
  have hfold : ∀ (is : List Level) (w : DataBroker Addr Cl Topic Ptr Data),
      (is.foldl (fun w i => w.clientDeleteLevel c i) w).rb.clientList = w.rb.clientList := by
    intro is
    induction is with
    | nil => exact fun _ => rfl
    | cons i is ih =>
      intro w
      refine (ih _).trans ?_
      show (w.clientDeleteLevel c i).rb.clientList = w.rb.clientList
      unfold DataBroker.clientDeleteLevel
      cases (w.rb.rclient c).client i <;> rfl
  exact congrArg (remove · c) (hfold _ w)

theorem clientGetData_clientList_ptr (copy : Data → Data) (w : DataBroker Addr Cl Topic Ptr Data)
    (dup : Option Ptr) (c : Cl) :
    (w.clientGetData copy dup c).2.rb.clientList = w.rb.clientList := by
  unfold DataBroker.clientGetData
  cases w.rb.dataAvailableForClient c with
  | none => rfl
  | some i =>
    dsimp only
    split <;> rfl

/-- What is handed out is where `copy_obj` put it. -/
theorem clientGetData_dup {copy : Data → Data} {w : DataBroker Addr Cl Topic Ptr Data}
    {dup : Option Ptr} {c : Cl} {p : Ptr} {d : Data}
    (h : (w.clientGetData copy dup c).1 = some (p, d)) : dup = some p := by
  unfold DataBroker.clientGetData at h
  cases hav : w.rb.dataAvailableForClient c with
  | none =>
    rw [hav] at h
    cases h
  | some i =>
    rw [hav] at h
    dsimp only at h
    split at h
    · cases h
      rfl
    · cases h
    · cases h

omit [DecidableEq Addr] [DecidableEq Cl] [DecidableEq Topic] [DecidableEq Ptr] in
/-- Something that only `c` changes. -/
theorem iff_of_others {P P' : Cl → Prop} {q : Prop} (hself : P' c ↔ q)
    (hother : ∀ e, e ≠ c → (P' e ↔ P e)) (e : Cl) : P' e ↔ e ≠ c ∧ P e ∨ e = c ∧ q := by
  by_cases he : e = c
  · subst he
    simpa using hself
  · simpa [he] using hother e he

omit [DecidableEq Addr] [DecidableEq Cl] [DecidableEq Topic] in
theorem hand_iff {holder : Ptr → Option (Cl × Data)} {got : Option (Ptr × Data)}
    (hfresh : ∀ p d, got = some (p, d) → holder p = none) {p : Ptr} {e : Cl} {d : Data} :
    hand holder c got p = some (e, d) ↔ holder p = some (e, d) ∨ e = c ∧ got = some (p, d) := by
  cases got with
  | none => simp [hand]
  | some x =>
    obtain ⟨q, d'⟩ := x
    have hnone := hfresh q d' rfl
    by_cases hp : p = q
    · subst hp
      simp [hand, hnone, eq_comm]
    · simp [hand, hp, Ne.symm hp]

theorem consumed_silent {cs : List (DataCall Data)} (h : ∀ y ∈ cs, DataCall.silent y = true) :
    DataThread.consumed cs = [] := by
  apply List.filterMap_eq_nil_iff.mpr
  intro y hy
  have hsilent := h y hy
  cases y <;> first | rfl | cases hsilent

/-- **A step of a thread keeps the books.** -/
theorem ClientWorld.Kept.run (h : w.Kept gen)
    (hdup : ∀ p, dup = some p → w.ptr.broker.pool.live p = none)
    (hx : ∀ got, x = .getData got → got = (w.ptr.broker.clientGetData copy dup c).1)
    (hrun : w.run copy c dup x = some w') : w'.Kept gen := by
  obtain ⟨t, ht, hrun⟩ := Option.bind_eq_some_iff.mp hrun
  obtain ⟨u, hu, rfl⟩ := Option.map_eq_some_iff.mp hrun
  obtain ⟨huinv, cs, hcalls, hmoves⟩ := ClientThread.step_moves (h.inv c t ht) hu
  rw [hcalls, List.drop_left]
  have hclient : c ∈ w.ptr.broker.rb.clientList ↔ t.isClient = true :=
    (h.client c).trans (kept_at ht _)
  have hhand : ∀ p d, w.ptr.holder p = some (c, d) ↔ t.atHand = some (p, d) :=
    fun p d => (h.holds p c d).trans (kept_at ht _)
  have hreceived := h.received c t ht
  cases hmoves with
  | silent hsilent hhand' hclient' _ =>
    rw [perform_silent _ hsilent]
    apply h.thread huinv h.owned
    · exact iff_of_others (by rw [hclient, hclient']) fun _ _ => Iff.rfl
    · intro p e d
      exact iff_of_others (P := fun e => w.ptr.holder p = some (e, d))
        (by rw [hhand, hhand']) (fun _ _ => Iff.rfl) e
    · exact fun _ _ => rfl
    · intro hu'
      rw [hcalls, DataThread.consumed_append, consumed_silent hsilent, List.append_nil]
      exact hreceived (hclient' ▸ hu')
  | create hnone hc hc' ha ha' _ =>
    have hnew : c ∉ w.ptr.broker.rb.clientList := by rw [hclient, hc]; simp
    have hcall : w.ptr.call gen copy (.clientCreate c t.name) = some (w.ptr.clientCreate c t.name) :=
      if_neg hnew
    apply h.thread huinv (owned_call h.owned hcall)
    · refine iff_of_others (iff_of_true List.mem_cons_self hc') fun e he => ?_
      show e ∈ c :: w.ptr.broker.rb.clientList ↔ _
      rw [List.mem_cons]
      exact or_iff_right he
    · intro p e d
      exact iff_of_others (P := fun e => w.ptr.holder p = some (e, d))
        (by rw [ha', ← ha]; exact hhand p d) (fun _ _ => Iff.rfl) e
    · exact fun e he => Function.update_of_ne he _ _
    · intro _
      rw [hcalls, hnone]
      exact Function.update_self _ _ _
  | @getData got hgot hc hc' ha ha' =>
    have hres := hx got hgot
    have hall : (dup.all fun p => (w.ptr.broker.pool.live p).isNone) = true := by
      cases dup with
      | none => rfl
      | some p => exact Option.isNone_iff_eq_none.mpr (hdup p rfl)
    have hcall : w.ptr.call gen copy (.clientGetData dup c) = some (w.ptr.clientGetData copy dup c) :=
      if_pos ⟨hclient.mpr hc, hall⟩
    have hlist := clientGetData_clientList_ptr copy w.ptr.broker dup c
    apply h.thread huinv (owned_call h.owned hcall)
    · refine iff_of_others ?_ fun e _ => ?_
      · show c ∈ (w.ptr.broker.clientGetData copy dup c).2.rb.clientList ↔ _
        rw [hlist, hclient, hc, hc']
      · show e ∈ (w.ptr.broker.clientGetData copy dup c).2.rb.clientList ↔ _
        rw [hlist]
    · intro p e d
      show hand w.ptr.holder c (w.ptr.broker.clientGetData copy dup c).1 p = some (e, d) ↔ _
      have hfresh : ∀ p d, got = some (p, d) → w.ptr.holder p = none := by
        intro p d hgot'
        have hdead := hdup p (clientGetData_dup (hres.symm.trans hgot'))
        cases hp : w.ptr.holder p with
        | none => rfl
        | some y =>
          have hlive := h.owned.represents.reads.intact p y.1 y.2 hp
          rw [hdead] at hlive
          cases hlive
      rw [← hres, hand_iff hfresh, ha']
      by_cases he : e = c
      · subst he
        simp [hhand, ha]
      · simp [he]
    · exact fun e he => Function.update_of_ne he _ _
    · intro _
      show Function.update w.ptr.received c _ c = _
      rw [Function.update_self, ← hres, hcalls, DataThread.consumed_append, List.map_append,
        hreceived hc]
      cases got <;> rfl
  | @freeData obj y hsilent hc hc' ha ha' _ =>
    obtain ⟨p, d⟩ := obj
    have hholds := (hhand p d).mpr ha
    have hcall : w.ptr.call gen copy (.clientFreeData c p) = some (w.ptr.clientFreeData p) :=
      if_pos (by rw [hholds]; exact decide_eq_true rfl)
    have hfold : [y, .freeData (p, d)].foldl (PtrWorld.perform copy c t.name dup) w.ptr
        = w.ptr.clientFreeData p := by
      have hy : [y].foldl (PtrWorld.perform copy c t.name dup) w.ptr = w.ptr :=
        perform_silent t.name (by simpa using hsilent) w.ptr
      exact congrArg (PtrWorld.clientFreeData · p) hy
    rw [hfold]
    apply h.thread huinv (owned_call h.owned hcall)
    · exact iff_of_others (by show c ∈ w.ptr.broker.rb.clientList ↔ _; rw [hclient, hc, hc'])
        fun _ _ => Iff.rfl
    · intro q e d'
      show Function.update w.ptr.holder p none q = some (e, d') ↔ _
      rw [ha']
      by_cases hq : q = p
      · subst hq
        simp only [Function.update_self, hholds, Option.some.injEq, Prod.mk.injEq, reduceCtorEq,
          and_false, or_false, false_iff, not_and]
        exact fun he hc => absurd hc.symm he
      · rw [Function.update_of_ne hq]
        by_cases he : e = c
        · subst he
          simp [hhand, ha, Ne.symm hq]
        · simp [he]
    · exact fun _ _ => rfl
    · intro _
      have hnothing : DataThread.consumed [y, .freeData (p, d)] = [] := by
        show DataThread.consumed ([y] ++ [.freeData (p, d)]) = []
        rw [DataThread.consumed_append, consumed_silent (by simpa using hsilent)]
        rfl
      rw [hcalls, DataThread.consumed_append, hnothing, List.append_nil]
      exact hreceived hc
  | delete hc hc' ha ha' _ =>
    have hmem := hclient.mpr hc
    have hcall : w.ptr.call gen copy (.clientDelete c) = some (w.ptr.clientDelete c) := if_pos hmem
    have hlist := clientDelete_clientList_ptr w.ptr.broker c
    apply h.thread huinv (owned_call h.owned hcall)
    · have hmem' : ∀ e, e ∈ (w.ptr.broker.clientDelete c).rb.clientList ↔
          e ≠ c ∧ e ∈ w.ptr.broker.rb.clientList := by
        intro e
        rw [hlist]
        exact mem_remove h.owned.consistent.clients_nodup
      refine iff_of_others ((hmem' c).trans ?_) fun e he => (hmem' e).trans (and_iff_right he)
      rw [hc']
      exact iff_of_false (fun hx => hx.1 rfl) nofun
    · intro p e d
      exact iff_of_others (P := fun e => w.ptr.holder p = some (e, d))
        (by rw [ha', ← ha]; exact hhand p d) (fun _ _ => Iff.rfl) e
    · exact fun _ _ => rfl
    · rw [hc']
      exact nofun

omit [DecidableEq Addr] [DecidableEq Cl] [DecidableEq Topic] [DecidableEq Ptr] in
theorem kept_start (gen : Data → ℤ × Topic × Bool) :
    (ClientWorld.start : ClientWorld Addr Cl Topic Ptr Data).Kept gen where
  owned := owned_start gen
  inv := fun _ _ h => by cases h
  client := by
    intro c
    refine iff_of_false List.not_mem_nil ?_
    rintro ⟨t, ht, -⟩
    cases ht
  holds := by
    intro p c d
    refine iff_of_false nofun ?_
    rintro ⟨t, ht, -⟩
    cases ht
  received := fun _ _ h => by cases h

theorem publish_clientList_ptr (gen : Data → ℤ × Topic × Bool) (copy : Data → Data)
    (w : DataBroker Addr Cl Topic Ptr Data) (a : Addr) (dup : Option Ptr) (obj : Data)
    (pri : Level) : (w.publish gen copy a dup obj pri).rb.clientList = w.rb.clientList := by
  have hroute : ∀ (w : DataBroker Addr Cl Topic Ptr Data) (route : RibRoute Topic Ptr) (del : Bool),
      (w.publishRoute a route del).rb.clientList = w.rb.clientList := by
    intro w route del
    unfold DataBroker.publishRoute
    cases w.rb.store.hash route.topic with
    | none => cases del <;> rfl
    | some h =>
      dsimp only
      cases w.rb.store.heap h with
      | none => rfl
      | some hashed =>
        dsimp only
        split_ifs <;> rfl
  cases dup with
  | none => rfl
  | some p =>
    unfold DataBroker.publish
    dsimp only
    split_ifs
    · rfl
    · exact hroute _ _ _

/-- A publish does not concern the threads. -/
theorem ClientWorld.Kept.publish (h : w.Kept gen) {a : Addr} {obj : Data} {pri : Level}
    (hcall : w.ptr.call gen copy (.publish a dup obj pri) = some v) :
    (⟨v, w.thread⟩ : ClientWorld Addr Cl Topic Ptr Data).Kept gen := by
  have hown := owned_call h.owned hcall
  simp only [PtrWorld.call, Option.ite_none_right_eq_some, Option.some.injEq] at hcall
  obtain ⟨-, rfl⟩ := hcall
  refine ⟨hown, h.inv, fun c => ?_, h.holds, h.received⟩
  have hlist := publish_clientList_ptr gen copy w.ptr.broker a dup obj pri
  show c ∈ (w.ptr.broker.publish gen copy a dup obj pri).rb.clientList ↔ _
  rw [hlist]
  exact h.client c

omit [DecidableEq Addr] [DecidableEq Topic] [DecidableEq Ptr] in
/-- A thread that has not started does nothing. -/
theorem ClientWorld.Kept.spawn (h : w.Kept gen) (hended : (w.thread c).all ClientThread.ended = true)
    (ht : t = .kernel .start ∨ t = .dp .start) :
    ({ w with thread := Function.update w.thread c (some t) } :
      ClientWorld Addr Cl Topic Ptr Data).Kept gen := by
  have hnew : t.Inv ∧ t.isClient = false ∧ t.atHand = none := by
    rcases ht with rfl | rfl
    · exact ⟨kernelInv_start, rfl, rfl⟩
    · exact ⟨⟨DataThread.loopInv_start, fun _ => rfl⟩, rfl, rfl⟩
  obtain ⟨hinv, hclient, hhand⟩ := hnew
  -- the thread that used the client before has ended, and has nothing
  have hold : ∀ s, w.thread c = some s → s.isClient = false ∧ s.atHand = none := by
    intro s hs
    rw [hs] at hended
    cases s with
    | kernel s => cases hended
    | dp s =>
      have hdone : s.pc = .done := by
        cases hpc : s.pc <;> first | rfl | simp [ClientThread.ended, hpc] at hended
      simp [ClientThread.isClient, ClientThread.atHand, DataThread.atHand, hdone]
  apply h.thread hinv h.owned
  · apply iff_of_others ?_ fun _ _ => Iff.rfl
    rw [h.client, hclient]
    refine iff_of_false ?_ nofun
    rintro ⟨s, hs, hsc⟩
    rw [(hold s hs).1] at hsc
    cases hsc
  · intro p e d
    refine iff_of_others (P := fun e => w.ptr.holder p = some (e, d)) ?_ (fun _ _ => Iff.rfl) e
    rw [h.holds, hhand]
    refine iff_of_false ?_ nofun
    rintro ⟨s, hs, hsh⟩
    rw [(hold s hs).2] at hsh
    cases hsh
  · exact fun _ _ => rfl
  · rw [hclient]
    exact nofun

/-- **Every step keeps the books.** -/
theorem ClientWorld.Kept.step (h : w.Kept gen) {y : ClientAct Addr Cl Ptr Data}
    (hstep : w.step gen copy y = some w') : w'.Kept gen := by
  cases y with
  | publish a dup obj pri =>
    obtain ⟨v, hv, rfl⟩ := Option.map_eq_some_iff.mp hstep
    exact h.publish hv
  | spawn c kernel =>
    unfold ClientWorld.step at hstep
    simp only [Option.ite_none_right_eq_some, Option.some.injEq] at hstep
    obtain ⟨hended, rfl⟩ := hstep
    apply h.spawn hended
    cases kernel
    · exact Or.inr rfl
    · exact Or.inl rfl
  | getData c dup =>
    simp only [ClientWorld.step, Option.ite_none_right_eq_some] at hstep
    obtain ⟨hfresh, hrun⟩ := hstep
    apply h.run (fresh_of_all hfresh) ?_ hrun
    intro got hgot
    exact (DataStep.getData.inj hgot).symm
  | arrive c msg =>
    have hrun : w.run copy c none (.arrive msg) = some w' := hstep
    refine h.run ?_ ?_ hrun
    · exact nofun
    · exact nofun
  | attempt c r =>
    have hrun : w.run copy c none (.publish r) = some w' := hstep
    refine h.run ?_ ?_ hrun
    · exact nofun
    · exact nofun
  | next c =>
    have hrun : w.run copy c none .next = some w' := hstep
    refine h.run ?_ ?_ hrun
    · exact nofun
    · exact nofun

/-- **Every thread frees what it reads, once.**  Any number of data threads and kernel
threads run over the route broker, in any order and with any results of their calls, while
messages are published and copies fail or not.  Nothing is freed twice or read after it was
freed, and at any time a copy is allocated exactly if a route holds it or a thread is about to
publish it; then it has the data that the thread was handed.  A kernel thread has passed to
`obj_kernel_publish` all that it was handed, once and in order, but for the object at hand, and
has freed it, no matter what failed, and `client->errors` counts what failed, modulo `2^64`; a
data thread has freed everything but the object at hand. -/
theorem clients_free_once (gen : Data → ℤ × Topic × Bool) (copy : Data → Data)
    {ys : List (ClientAct Addr Cl Ptr Data)} {w : ClientWorld Addr Cl Topic Ptr Data}
    (h : (clientSystem Addr Cl Ptr gen copy).exec .start ys = some w) :
    w.ptr.broker.pool.fault = false ∧
    (∀ p, (w.ptr.broker.pool.live p).isSome ↔
      (∃ a r, w.ptr.broker.rb.store.heap a = some r ∧ r.data = p) ∨
      ∃ c t d, w.thread c = some t ∧ t.atHand = some (p, d)) ∧
    (∀ c t p d, w.thread c = some t → t.atHand = some (p, d) →
      w.ptr.broker.pool.live p = some d ∧
      (∀ a r, w.ptr.broker.rb.store.heap a = some r → r.data ≠ p) ∧
      ∀ e s, w.thread e = some s → s.atHand = some (p, d) → e = c) ∧
    (∀ c t, w.thread c = some t →
      DataThread.consumed t.calls = DataThread.freed t.calls ++ t.atHand.toList) ∧
    (∀ c t, w.thread c = some (.kernel t) →
      DataThread.freed t.calls = DataThread.attempts t.calls ∧
      t.errors + UInt64.ofNat (DataThread.sent t.calls).length
        = UInt64.ofNat (DataThread.attempts t.calls).length ∧
      (t.pc ≠ .start → w.ptr.received c
        = (DataThread.attempts t.calls ++ (KernelThread.atHand t.pc).toList).map Prod.snd)) := by
  have hkept : w.Kept gen :=
    (clientSystem Addr Cl Ptr gen copy).exec_induction (P := fun w => w.Kept gen)
      (fun _ _ _ hw hstep => hw.step hstep) h (kept_start gen)
  have hreads := hkept.owned.represents.reads
  refine ⟨hreads.owned.sound, ?_, ?_, ?_, ?_⟩
  · intro p
    rw [hkept.owned.live_iff, Option.isSome_iff_exists]
    apply or_congr_right
    constructor
    · rintro ⟨⟨c, d⟩, hp⟩
      obtain ⟨t, ht, hhand⟩ := (hkept.holds p c d).mp hp
      exact ⟨c, t, d, ht, hhand⟩
    · rintro ⟨c, t, d, ht, hhand⟩
      exact ⟨(c, d), (hkept.holds p c d).mpr ⟨t, ht, hhand⟩⟩
  · intro c t p d ht hhand
    have hp := (hkept.holds p c d).mpr ⟨t, ht, hhand⟩
    refine ⟨hreads.intact p c d hp, ?_, ?_⟩
    · rintro a r hr rfl
      rw [hkept.owned.holder_none hr] at hp
      cases hp
    · intro e s hs hhand'
      have hp' := (hkept.holds p e d).mpr ⟨s, hs, hhand'⟩
      rw [hp] at hp'
      cases hp'
      rfl
  · intro c t ht
    have hinv := hkept.inv c t ht
    cases t with
    | dp t =>
      have hphase := hinv.1.phase
      show DataThread.consumed t.calls = DataThread.freed t.calls ++ (DataThread.atHand t.pc).toList
      cases hhand : DataThread.atHand t.pc with
      | none => rw [(hphase.settled hhand).1, Option.toList_none, List.append_nil]
      | some obj =>
        obtain ⟨hconsumed, hfreed⟩ := hphase.holding hhand
        rw [hconsumed, hfreed, Option.toList_some]
    | kernel t =>
      show DataThread.consumed t.calls
        = DataThread.freed t.calls ++ (KernelThread.atHand t.pc).toList
      rw [hinv.released, hinv.passed]
  · intro c t ht
    have hinv := hkept.inv c _ ht
    refine ⟨hinv.released, hinv.counted, fun hpc => ?_⟩
    have hclient : (ClientThread.kernel t).isClient = true := by
      cases hk : t.pc <;> first | exact absurd hk hpc | simp [ClientThread.isClient, hk]
    rw [hkept.received c _ ht hclient, hinv.passed]
    rfl

/-- The theorem at a run with both threads: the kernel refuses the first route, a data thread
is told to stop while it fails to send the second. -/
theorem clients_free_once_stopped :
    ∃ w, (clientSystem ℕ ℕ ℕ plainGen id).exec .start
        [.spawn 0 true, .spawn 1 false, .next 0, .next 1, .next 1, .next 1, .next 1, .next 1,
          .publish 100 (some 1) (7, 1, false) 1, .getData 0 (some 2), .attempt 0 .error,
          .publish 101 (some 3) (7, 2, false) 1, .getData 0 (some 4), .getData 1 (some 5),
          .arrive 1 termMsg, .attempt 1 .again, .next 1, .next 1, .next 1] = some w ∧
      w.ptr.received 0 = [(7, 1, false), (7, 2, false)] ∧ w.ptr.received 1 = [(7, 2, false)] ∧
      (∀ p, (w.ptr.broker.pool.live p).isSome ↔
        (∃ a r, w.ptr.broker.rb.store.heap a = some r ∧ r.data = p) ∨
        ∃ c t d, w.thread c = some t ∧ t.atHand = some (p, d)) := by
  obtain ⟨w, hexec, hp⟩ := (clientSystem ℕ ℕ ℕ plainGen id).exists_of_exec_any .start
    [.spawn 0 true, .spawn 1 false, .next 0, .next 1, .next 1, .next 1, .next 1, .next 1,
      .publish 100 (some 1) (7, 1, false) 1, .getData 0 (some 2), .attempt 0 .error,
      .publish 101 (some 3) (7, 2, false) 1, .getData 0 (some 4), .getData 1 (some 5),
      .arrive 1 termMsg, .attempt 1 .again, .next 1, .next 1, .next 1]
    (fun w => decide (w.ptr.received 0 = [(7, 1, false), (7, 2, false)] ∧
      w.ptr.received 1 = [(7, 2, false)])) (by decide +kernel)
  rw [decide_eq_true_eq] at hp
  exact ⟨w, hexec, hp.1, hp.2, (clients_free_once plainGen id hexec).2.1⟩

end World
