/-
# Interleaved threads

`RouteRun.lean` runs each function of `route_broker.c` in one go.  In the code only
`route_broker_mutex` keeps the threads apart: here each of its critical sections is one
step, and so is each statement outside of it, for any number of publishers and of
consumers.  Allocations, `pthread_cond_init` and `copy_obj` may fail.

* The statements of `object_broker_publish` before the mutex touch nothing but the
  counters and the route that is being filled in; they are one step.
* A client belongs to one consumer, which creates it, reads and in the end deletes it.
  Its `Stage` says how far that has got.
* `pthread_cond_timedwait` gives the mutex up, so that a consumer that finds nothing
  waits (`waiting`), and looks again when it is woken.
* `faults` records the clients that `route_broker_wake_clients` looked at although they
  were not live.

The list of clients is not protected by the mutex.  `route_broker_client_delete` frees
the clients in the levels first, and takes the client off the list after it has given
the mutex up; and the test for failed allocations in `route_broker_client_create` never
holds, so that a client can be linked without all its levels.  `registered_live_iff`
says that nothing else goes wrong.
-/
import RouteBroker.RouteRun

open Circleq Broker

/-! ## The threads -/

/-- How far a `route_broker_client` has got. -/
inductive Stage
  /-- not allocated, or freed again -/
  | absent
  /-- allocated by `calloc` -/
  | allocated
  /-- through the critical section of `route_broker_client_create` -/
  | created
  /-- its `pthread_cond_init` has failed -/
  | failed
  /-- its `pthread_cond_init` has succeeded -/
  | ready
  /-- linked, and returned to the consumer -/
  | registered
  /-- in `pthread_cond_timedwait` -/
  | waiting
  /-- through the critical section of `route_broker_client_delete` -/
  | deleted
  /-- off the list, but not freed yet -/
  | unlinked
  deriving DecidableEq

/-- The stages between the two critical sections that create and delete the clients in
the levels. -/
def Stage.holds : Stage → Bool
  | .created | .failed | .ready | .registered | .waiting => true
  | _ => false

/-- The stages in which the client is on `client_list_head`. -/
def Stage.linked : Stage → Bool
  | .registered | .waiting | .deleted => true
  | _ => false

/-- The stages in which the condition is initialised. -/
def Stage.usable : Stage → Bool
  | .ready | .registered | .waiting => true
  | _ => false

/-- The steps of the publishers and of the consumers. -/
inductive ThreadStep (Addr Cl Data : Type*)
  | publishPrepare (alloc : Option Addr) (obj : Data) (pri : Level)
  | publishLocked (a : Addr)
  | allocate (c : Cl)
  | createLocked (c : Cl) (calloc : Level → Bool) (strdup : Level → Option String)
  | condInit (c : Cl) (ok : Bool)
  | link (c : Cl)
  | createFailed (c : Cl)
  | getData (c : Cl)
  | timedOut (c : Cl)
  | deleteLocked (c : Cl)
  | unlink (c : Cl)
  | free (c : Cl)

/-- The route broker and its threads, while the mutex is free. -/
structure Threads (Addr Cl Topic Data : Type*) where
  rb : RouteBroker Addr Cl Topic Data
  stage : Cl → Stage
  /-- The routes of the publishers that wait for the mutex, by address. -/
  inFlight : Addr → Option (RibRoute Topic Data × Bool)
  faults : List Cl

variable {Addr Cl Topic Data : Type*}

/-- The condition of the client is initialised and not destroyed, and in every level it
has a `broker_client` that has been created and not freed. -/
def RouteBroker.ClientLive (rb : RouteBroker Addr Cl Topic Data) (c : Cl) : Prop :=
  (rb.rclient c).cond = .ready ∧
    ∀ i, ∃ k, (rb.rclient c).client i = some k ∧ k ∈ (rb.level i).clientList

/-- Every linked client is live, and no publisher has ever looked at one that was not. -/
def Threads.RegisteredLive (s : Threads Addr Cl Topic Data) : Prop :=
  (∀ c ∈ s.rb.clientList, s.rb.ClientLive c) ∧ s.faults = []

/-- The threads before any of them has done anything. -/
def Threads.start : Threads Addr Cl Topic Data where
  rb := routeBrokerInit
  stage := fun _ => .absent
  inFlight := fun _ => none
  faults := []

variable [DecidableEq Addr] [DecidableEq Cl] [DecidableEq Topic]

instance (rb : RouteBroker Addr Cl Topic Data) (c : Cl) : Decidable (rb.ClientLive c) :=
  inferInstanceAs (Decidable ((rb.rclient c).cond = .ready ∧
    ∀ i, ∃ k ∈ (rb.rclient c).client i, k ∈ (rb.level i).clientList))

namespace Threads

variable (s : Threads Addr Cl Topic Data)

/-- The consumer of `c` makes a step. -/
def move (c : Cl) (rb : RouteBroker Addr Cl Topic Data) (st : Stage) :
    Threads Addr Cl Topic Data :=
  { s with rb := rb, stage := Function.update s.stage c st }

omit [DecidableEq Addr] [DecidableEq Topic] in
@[simp] theorem move_rb (c : Cl) (rb : RouteBroker Addr Cl Topic Data) (st : Stage) :
    (s.move c rb st).rb = rb := rfl

omit [DecidableEq Addr] [DecidableEq Topic] in
@[simp] theorem move_stage_self (c : Cl) (rb : RouteBroker Addr Cl Topic Data) (st : Stage) :
    (s.move c rb st).stage c = st := Function.update_self _ _ _

omit [DecidableEq Addr] [DecidableEq Topic] in
@[simp] theorem move_move (c : Cl) (rb rb' : RouteBroker Addr Cl Topic Data) (st st' : Stage) :
    (s.move c rb st).move c rb' st' = s.move c rb' st' := by
  unfold move
  rw [Function.update_idem]

/-- One step; `none` if the thread is not there. -/
def step (init : ObjectBrokerInit Topic Data) :
    ThreadStep Addr Cl Data → Option (Threads Addr Cl Topic Data)
  | .publishPrepare alloc obj pri =>
    -- `calloc` returns memory that is not in use
    if alloc.all fun a => (s.rb.store.heap a).isNone && (s.inFlight a).isNone then
      match s.rb.publishPrepare init alloc obj pri with
      | (rb, none) => some { s with rb := rb }
      | (rb, some (a, route, del)) =>
        some { s with rb := rb, inFlight := Function.update s.inFlight a (some (route, del)) }
    else none
  | .publishLocked a =>
    match s.inFlight a with
    | none => none
    | some (route, del) =>
      let rb := s.rb.publishRoute a route del
      -- `route_broker_wake_clients` goes through the whole list
      some { s with
        rb := rb
        inFlight := Function.update s.inFlight a none
        faults := s.faults ++ rb.clientList.filter fun c => ¬ rb.ClientLive c }
  | .allocate c =>
    if s.stage c = .absent then some (s.move c s.rb .allocated) else none
  | .createLocked c calloc strdup =>
    if s.stage c = .allocated then
      some (s.move c (s.rb.clientCreateLocked c (fun i => if calloc i then some c else none) strdup)
        .created)
    else none
  | .condInit c ok =>
    if s.stage c = .created then
      if ok then some (s.move c (s.rb.condInit c) .ready) else some (s.move c s.rb .failed)
    else none
  | .link c =>
    if s.stage c = .ready then some (s.move c (s.rb.linkClient c) .registered) else none
  | .createFailed c =>
    if s.stage c = .failed then some (s.move c (s.rb.clientDeleteLevels c) .absent) else none
  | .getData c =>
    if s.stage c = .registered ∨ s.stage c = .waiting then
      match s.rb.dataAvailableForClient c with
      | none => some (s.move c s.rb .waiting)
      | some _ => some (s.move c (s.rb.clientGetData init.copyObj c).2 .registered)
    else none
  | .timedOut c =>
    if s.stage c = .waiting then some (s.move c s.rb .registered) else none
  | .deleteLocked c =>
    if s.stage c = .registered then some (s.move c (s.rb.clientDeleteLocked c) .deleted) else none
  | .unlink c =>
    if s.stage c = .deleted then some (s.move c (s.rb.unlinkClient c) .unlinked) else none
  | .free c =>
    if s.stage c = .unlinked then some (s.move c s.rb .absent) else none

end Threads

/-- All interleavings of the threads. -/
def threadSystem (Addr Cl : Type*) [DecidableEq Addr] [DecidableEq Cl]
    (init : ObjectBrokerInit Topic Data) :
    System (Threads Addr Cl Topic Data) (ThreadStep Addr Cl Data) where
  init := .start
  step := fun s x => s.step init x

/-! ## What concerns the clients -/

section Clients

variable {rb rb' : RouteBroker Addr Cl Topic Data} {c e : Cl} {st : Stage}

omit [DecidableEq Addr] [DecidableEq Cl] [DecidableEq Topic] in
/-- From `rb` to `rb'` nothing happened to the clients other than `c`, but that there
may be more of them in the levels. -/
structure Spares (c : Cl) (rb rb' : RouteBroker Addr Cl Topic Data) : Prop where
  rclient : ∀ e, e ≠ c → rb'.rclient e = rb.rclient e
  clientList : ∀ e, e ≠ c → (e ∈ rb'.clientList ↔ e ∈ rb.clientList)
  levels : ∀ e, e ≠ c → ∀ i, e ∈ (rb.level i).clientList → e ∈ (rb'.level i).clientList

/-- The client `c` is as its stage says. -/
structure ClientOk (rb : RouteBroker Addr Cl Topic Data) (st : Stage) (c : Cl) : Prop where
  name : ∀ i k, (rb.rclient c).client i = some k → k = c
  held : st.holds → ∀ i, (rb.rclient c).client i = some c → c ∈ (rb.level i).clientList
  listed : c ∈ rb.clientList ↔ st.linked
  cond : st.usable → (rb.rclient c).cond = .ready

omit [DecidableEq Addr] [DecidableEq Cl] [DecidableEq Topic] in
/-- A step about another client leaves this one as its stage says. -/
theorem ClientOk.spared (h : ClientOk rb st e) (hsp : Spares c rb rb') (hne : e ≠ c) :
    ClientOk rb' st e := by
  have hr := hsp.rclient e hne
  refine ⟨?_, fun hst i hi => ?_, (hsp.clientList e hne).trans h.listed, ?_⟩
  · rw [hr]
    exact h.name
  · rw [hr] at hi
    exact hsp.levels e hne i (h.held hst i hi)
  · rw [hr]
    exact h.cond

omit [DecidableEq Addr] [DecidableEq Cl] [DecidableEq Topic] in
/-- And it leaves it live. -/
theorem RouteBroker.ClientLive.spared (h : rb.ClientLive e) (hok : ClientOk rb st e)
    (hsp : Spares c rb rb') (hne : e ≠ c) : rb'.ClientLive e := by
  unfold RouteBroker.ClientLive
  rw [hsp.rclient e hne]
  refine ⟨h.1, fun i => ?_⟩
  obtain ⟨k, hk, hmem⟩ := h.2 i
  obtain rfl := hok.name i k hk
  exact ⟨k, hk, hsp.levels k hne i hmem⟩

omit [DecidableEq Addr] [DecidableEq Cl] [DecidableEq Topic] in
/-- A client whose levels are all there is live while it can be used. -/
theorem ClientOk.live_iff (h : ClientOk rb st c) (hholds : st.holds) (huse : st.usable) :
    rb.ClientLive c ↔ ∀ i, (rb.rclient c).client i ≠ none := by
  constructor
  · intro hl i hnone
    obtain ⟨k, hk, -⟩ := hl.2 i
    rw [hnone] at hk
    exact nomatch hk
  · intro hall
    refine ⟨h.cond huse, fun i => ?_⟩
    obtain ⟨k, hk⟩ := Option.ne_none_iff_exists'.mp (hall i)
    obtain rfl := h.name i k hk
    exact ⟨k, hk, h.held hholds i hk⟩

omit [DecidableEq Addr] [DecidableEq Cl] [DecidableEq Topic] in
theorem SameClients.spares (h : SameClients rb rb') (c : Cl) : Spares c rb rb' where
  rclient := fun e _ => by rw [h.rclient]
  clientList := fun e _ => by rw [h.clientList]
  levels := fun e _ i he => by rw [h.levels]; exact he

omit [DecidableEq Addr] [DecidableEq Cl] [DecidableEq Topic] in
theorem SameClients.clientOk (h : SameClients rb rb') (hok : ClientOk rb st c) :
    ClientOk rb' st c where
  name := by rw [h.rclient]; exact hok.name
  held := by simp only [h.rclient, h.levels]; exact hok.held
  listed := by rw [h.clientList]; exact hok.listed
  cond := by rw [h.rclient]; exact hok.cond

omit [DecidableEq Addr] [DecidableEq Cl] [DecidableEq Topic] in
theorem SameClients.live (h : SameClients rb rb') (hl : rb.ClientLive c) : rb'.ClientLive c := by
  unfold RouteBroker.ClientLive
  rw [h.rclient]
  simp only [h.levels]
  exact hl

/-- Publishing leaves the clients alone. -/
theorem sameClients_publishRoute (rb : RouteBroker Addr Cl Topic Data) (a : Addr)
    (route : RibRoute Topic Data) (del : Bool) : SameClients rb (rb.publishRoute a route del) := by
  unfold RouteBroker.publishRoute
  cases rb.store.hash route.topic with
  | none =>
    dsimp only
    split_ifs
    · exact .refl rb
    · exact (sameClients_addObj rb a route).trans (sameClients_zhashInsert _ a _)
  | some h =>
    dsimp only
    cases rb.store.heap h with
    | none => exact .refl rb
    | some hashed =>
      dsimp only
      have hset := sameClients_setData rb h hashed route.data
      have hmove := (sameClients_delObjNow rb hashed.pri h).trans (sameClients_addObj _ a route)
      split_ifs
      · exact hmove.trans (sameClients_delObj _ route.pri a)
      · exact hset.trans (sameClients_delObj _ hashed.pri h)
      · exact hmove.trans (sameClients_zhashInsert _ a _)
      · exact hset.trans (sameClients_updObj _ hashed.pri h)

omit [DecidableEq Addr] [DecidableEq Cl] [DecidableEq Topic] in
/-- So does what comes before it. -/
theorem sameClients_publishPrepare (rb : RouteBroker Addr Cl Topic Data)
    (init : ObjectBrokerInit Topic Data) (alloc : Option Addr) (obj : Data) (pri : Level) :
    SameClients rb (rb.publishPrepare init alloc obj pri).1 := by
  unfold RouteBroker.publishPrepare
  cases alloc with
  | none => exact ⟨rfl, rfl, fun _ => rfl⟩
  | some a =>
    cases init.copyObj obj with
    | none => exact ⟨rfl, rfl, fun _ => rfl⟩
    | some data =>
      dsimp only
      split_ifs <;> exact ⟨rfl, rfl, fun _ => rfl⟩

theorem sameClients_clientGetData (rb : RouteBroker Addr Cl Topic Data)
    (copyObj : Data → Option Data) (c : Cl) : SameClients rb (rb.clientGetData copyObj c).2 := by
  unfold RouteBroker.clientGetData
  cases rb.dataAvailableForClient c with
  | none => exact .refl rb
  | some i => exact sameClients_onLevel (getData_clientList _ _ _ _)

omit [DecidableEq Addr] [DecidableEq Topic] in
theorem spares_condInit (rb : RouteBroker Addr Cl Topic Data) (c : Cl) :
    Spares c rb (rb.condInit c) where
  rclient := fun _ hne => Function.update_of_ne hne _ _
  clientList := fun _ _ => Iff.rfl
  levels := fun _ _ _ he => he

omit [DecidableEq Addr] [DecidableEq Cl] [DecidableEq Topic] in
theorem spares_linkClient (rb : RouteBroker Addr Cl Topic Data) (c : Cl) :
    Spares c rb (rb.linkClient c) where
  rclient := fun _ _ => rfl
  clientList := fun _ hne => List.mem_cons.trans (or_iff_right hne)
  levels := fun _ _ _ he => he

omit [DecidableEq Addr] [DecidableEq Topic] in
theorem spares_unlinkClient (rb : RouteBroker Addr Cl Topic Data) (c : Cl) :
    Spares c rb (rb.unlinkClient c) where
  rclient := fun _ _ => rfl
  clientList := fun _ hne => List.mem_erase_of_ne hne
  levels := fun _ _ _ he => he

/-- The clients of a level stay when another one is created. -/
theorem mem_clientList_clientCreate (b : Broker Addr Cl) (ok : Bool) (strdup : Option String)
    (he : e ∈ b.clientList) :
    e ∈ (brokerClientCreate b (if ok then some c else none) strdup).2.clientList := by
  cases ok with
  | false => exact he
  | true =>
    cases strdup with
    | none => exact he
    | some name =>
      rw [if_pos rfl, clientCreate_clientList]
      exact List.mem_cons_of_mem c he

/-- What `broker_client_create` returns, and that it is linked. -/
theorem clientCreate_fst (b : Broker Addr Cl) (ok : Bool) (strdup : Option String) {k : Cl}
    (h : (brokerClientCreate b (if ok then some c else none) strdup).1 = some k) :
    k = c ∧ c ∈ (brokerClientCreate b (if ok then some c else none) strdup).2.clientList := by
  cases ok with
  | false => exact nomatch h
  | true =>
    cases strdup with
    | none => exact nomatch h
    | some name =>
      rw [if_pos rfl] at h ⊢
      rw [clientCreate_clientList]
      exact ⟨(Option.some.inj h).symm, List.mem_cons_self⟩

omit [DecidableEq Topic] in
/-- A creation adds one client to the levels, even when it fails half-way. -/
theorem spares_clientCreateLocked (rb : RouteBroker Addr Cl Topic Data) (c : Cl)
    (calloc : Level → Bool) (strdup : Level → Option String) :
    Spares c rb (rb.clientCreateLocked c (fun i => if calloc i then some c else none) strdup) where
  rclient := fun _ hne => Function.update_of_ne hne _ _
  clientList := fun _ _ => Iff.rfl
  levels := fun _ _ i he => mem_clientList_clientCreate (rb.level i) (calloc i) (strdup i) he

omit [DecidableEq Addr] [DecidableEq Cl] [DecidableEq Topic] in
theorem Spares.trans {rb'' : RouteBroker Addr Cl Topic Data} (h : Spares c rb rb')
    (h' : Spares c rb' rb'') : Spares c rb rb'' where
  rclient := fun e hne => (h'.rclient e hne).trans (h.rclient e hne)
  clientList := fun e hne => (h'.clientList e hne).trans (h.clientList e hne)
  levels := fun e hne i he => h'.levels e hne i (h.levels e hne i he)

/-- One level of the loop that deletes the clients. -/
theorem spares_clientDeleteLevel (hname : ∀ i k, (rb.rclient c).client i = some k → k = c)
    (i : Level) : Spares c rb (rb.clientDeleteLevel c i) ∧
      (rb.clientDeleteLevel c i).rclient = rb.rclient ∧
      (rb.clientDeleteLevel c i).clientList = rb.clientList := by
  unfold RouteBroker.clientDeleteLevel
  cases hk : (rb.rclient c).client i with
  | none => exact ⟨(SameClients.refl rb).spares c, rfl, rfl⟩
  | some k =>
    obtain rfl := hname i k hk
    refine ⟨⟨fun _ _ => rfl, fun _ _ => Iff.rfl, fun e hne j => ?_⟩, rfl, rfl⟩
    refine forall_onLevel (P := fun j b => e ∈ (rb.level j).clientList → e ∈ b.clientList) ?_
      (fun _ _ he => he) j
    rw [clientDelete_clientList]
    exact fun he => (List.mem_erase_of_ne hne).mpr he

/-- The whole loop. -/
theorem spares_clientDeleteLevels (hname : ∀ i k, (rb.rclient c).client i = some k → k = c) :
    Spares c rb (rb.clientDeleteLevels c) ∧ (rb.clientDeleteLevels c).rclient = rb.rclient ∧
      (rb.clientDeleteLevels c).clientList = rb.clientList := by
  unfold RouteBroker.clientDeleteLevels
  induction List.finRange routePriorityMax generalizing rb with
  | nil => exact ⟨(SameClients.refl rb).spares c, rfl, rfl⟩
  | cons i is ih =>
    obtain ⟨h1, h2, h3⟩ := spares_clientDeleteLevel hname i
    rw [← h2] at hname
    obtain ⟨h1', h2', h3'⟩ := ih hname
    exact ⟨h1.trans h1', h2'.trans h2, h3'.trans h3⟩

theorem spares_clientDeleteLocked (hname : ∀ i k, (rb.rclient c).client i = some k → k = c) :
    Spares c rb (rb.clientDeleteLocked c) := by
  have hsp := (spares_clientDeleteLevels hname).1
  refine ⟨fun e hne => ?_, hsp.clientList, hsp.levels⟩
  rw [← hsp.rclient e hne]
  exact Function.update_of_ne hne _ _

end Clients

/-! ## The steps -/

/-- The clients are as their stages say. -/
structure Staged (s : Threads Addr Cl Topic Data) : Prop where
  nodup : s.rb.clientList.Nodup
  client : ∀ c, ClientOk s.rb (s.stage c) c

/-- The steps that leave a client linked that is not live: the critical section of
`route_broker_client_delete`, and the linking of a client that lacks a level. -/
def Threads.Endangers (s : Threads Addr Cl Topic Data) : ThreadStep Addr Cl Data → Prop
  | .deleteLocked _ => True
  | .link c => ∃ i, (s.rb.rclient c).client i = none
  | _ => False

section Steps

variable {init : ObjectBrokerInit Topic Data} {s t : Threads Addr Cl Topic Data}
  {x : ThreadStep Addr Cl Data} {c : Cl} {rb : RouteBroker Addr Cl Topic Data} {st : Stage}

/-- What a consumer's step does: it is about its own client only. -/
structure Consumes (s : Threads Addr Cl Topic Data) (x : ThreadStep Addr Cl Data) (c : Cl)
    (rb : RouteBroker Addr Cl Topic Data) (st : Stage) : Prop where
  spares : Spares c s.rb rb
  nodup : rb.clientList.Nodup
  ok : ClientOk rb st c
  live : s.RegisteredLive → ((c ∈ rb.clientList → rb.ClientLive c) ↔ ¬ s.Endangers x)

omit [DecidableEq Addr] [DecidableEq Topic] in
/-- A step of a consumer keeps every client as its stage says. -/
theorem Consumes.staged (h : Consumes s x c rb st) (hs : Staged s) : Staged (s.move c rb st) := by
  refine ⟨h.nodup, fun e => ?_⟩
  show ClientOk rb (Function.update s.stage c st e) e
  by_cases he : e = c
  · rw [he, Function.update_self]
    exact h.ok
  · rw [Function.update_of_ne he]
    exact (hs.client e).spared h.spares he

omit [DecidableEq Addr] [DecidableEq Topic] in
/-- After it all linked clients are live, unless it is one of the two steps that endanger them. -/
theorem Consumes.registeredLive_iff (h : Consumes s x c rb st) (hs : Staged s)
    (hlive : s.RegisteredLive) : (s.move c rb st).RegisteredLive ↔ ¬ s.Endangers x := by
  rw [← h.live hlive]
  constructor
  · exact fun hl hc => hl.1 c hc
  · intro hc
    refine ⟨fun e he => ?_, hlive.2⟩
    by_cases hec : e = c
    · rw [hec] at he ⊢
      exact hc he
    -- the other clients are as live as before
    · have hmem := (h.spares.clientList e hec).mp he
      exact (hlive.1 e hmem).spared (hs.client e) h.spares hec

omit [DecidableEq Addr] [DecidableEq Cl] [DecidableEq Topic] in
/-- A step that leaves the route broker alone. -/
theorem consumes_stage {st' : Stage} (hs : Staged s) (hx : ¬ s.Endangers x)
    (hst : s.stage c = st') (hholds : st.holds → st'.holds) (hlinked : st.linked = st'.linked)
    (husable : st.usable → st'.usable) : Consumes s x c s.rb st := by
  have hok := hs.client c
  rw [hst] at hok
  refine ⟨(SameClients.refl s.rb).spares c, hs.nodup, ⟨hok.name, fun h => hok.held (hholds h), ?_,
    fun h => hok.cond (husable h)⟩, fun hlive => iff_of_true (hlive.1 c) hx⟩
  rw [hlinked]
  exact hok.listed

omit [DecidableEq Topic] in
/-- The critical section of `route_broker_client_create`. -/
theorem consumes_createLocked (hs : Staged s) (hst : s.stage c = .allocated)
    (calloc : Level → Bool) (strdup : Level → Option String) :
    Consumes s (.createLocked c calloc strdup) c
      (s.rb.clientCreateLocked c (fun i => if calloc i then some c else none) strdup)
      .created := by
  have hnot : c ∉ s.rb.clientList := by
    rw [(hs.client c).listed, hst]
    exact Bool.false_ne_true
  have hfst : ∀ i k, ((s.rb.clientCreateLocked c (fun i => if calloc i then some c else none)
      strdup).rclient c).client i = some k → k = c ∧ c ∈ ((s.rb.clientCreateLocked c
        (fun i => if calloc i then some c else none) strdup).level i).clientList := by
    intro i k hk
    unfold RouteBroker.clientCreateLocked at hk
    dsimp only at hk
    rw [Function.update_self] at hk
    -- a name is stored exactly in the levels that have linked the client
    exact clientCreate_fst (s.rb.level i) (calloc i) (strdup i) hk
  refine ⟨spares_clientCreateLocked s.rb c calloc strdup, hs.nodup,
    ⟨fun i k hk => (hfst i k hk).1, fun _ i hk => (hfst i c hk).2, ?_, ?_⟩,
    fun _ => iff_of_true (fun hc => absurd hc hnot) id⟩
  · exact iff_of_false hnot Bool.false_ne_true
  · exact fun h => absurd h Bool.false_ne_true

omit [DecidableEq Addr] [DecidableEq Topic] in
/-- Behind the critical section, without the mutex. -/
theorem consumes_condInit (hs : Staged s) (hst : s.stage c = .created) :
    Consumes s (.condInit c true) c (s.rb.condInit c) .ready := by
  have hok := hs.client c
  rw [hst] at hok
  have hnot : c ∉ s.rb.clientList := fun hc => Bool.false_ne_true (hok.listed.mp hc)
  have hr : (s.rb.condInit c).rclient c = { s.rb.rclient c with cond := .ready } :=
    Function.update_self _ _ _
  refine ⟨spares_condInit s.rb c, hs.nodup, ⟨?_, ?_, hok.listed, ?_⟩,
    fun _ => iff_of_true (fun hc => absurd hc hnot) id⟩
  · rw [hr]
    exact hok.name
  · rw [hr]
    exact fun _ => hok.held rfl
  · rw [hr]
    exact fun _ => rfl

omit [DecidableEq Addr] [DecidableEq Cl] [DecidableEq Topic] in
/-- Linking a client is fine exactly if it has all its levels. -/
theorem consumes_link (hs : Staged s) (hst : s.stage c = .ready) :
    Consumes s (.link c : ThreadStep Addr Cl Data) c (s.rb.linkClient c) .registered := by
  have hok := hs.client c
  rw [hst] at hok
  have hnot : c ∉ s.rb.clientList := fun hc => Bool.false_ne_true (hok.listed.mp hc)
  have hmem : c ∈ (s.rb.linkClient c).clientList := List.mem_cons_self
  have hok' : ClientOk (s.rb.linkClient c) .registered c :=
    ⟨hok.name, fun _ => hok.held rfl, iff_of_true hmem rfl, fun _ => hok.cond rfl⟩
  refine ⟨spares_linkClient s.rb c, nodup_insertHead hnot hs.nodup, hok', fun _ => ?_⟩
  refine (imp_iff_right hmem).trans ((hok'.live_iff rfl rfl).trans ?_)
  exact not_exists.symm

theorem consumes_createFailed (hs : Staged s) (hst : s.stage c = .failed) :
    Consumes s (.createFailed c : ThreadStep Addr Cl Data) c (s.rb.clientDeleteLevels c)
      .absent := by
  have hok := hs.client c
  rw [hst] at hok
  have hnot : c ∉ s.rb.clientList := fun hc => Bool.false_ne_true (hok.listed.mp hc)
  obtain ⟨hsp, hr, hl⟩ := spares_clientDeleteLevels hok.name
  rw [← hl] at hnot
  refine ⟨hsp, ?_, ⟨?_, fun h => absurd h Bool.false_ne_true, ?_,
    fun h => absurd h Bool.false_ne_true⟩, fun _ => iff_of_true (fun hc => absurd hc hnot) id⟩
  · rw [hl]
    exact hs.nodup
  · rw [hr]
    exact hok.name
  · exact iff_of_false hnot Bool.false_ne_true

/-- Deleting a client leaves it linked with its condition destroyed. -/
theorem consumes_deleteLocked (hs : Staged s) (hst : s.stage c = .registered) :
    Consumes s (.deleteLocked c : ThreadStep Addr Cl Data) c (s.rb.clientDeleteLocked c)
      .deleted := by
  have hok := hs.client c
  rw [hst] at hok
  obtain ⟨-, hr, hl⟩ := spares_clientDeleteLevels hok.name
  have hlist : (s.rb.clientDeleteLocked c).clientList = s.rb.clientList := hl
  have hmem : c ∈ (s.rb.clientDeleteLocked c).clientList := by
    rw [hlist]
    exact hok.listed.mpr rfl
  have hrc : (s.rb.clientDeleteLocked c).rclient c
      = { s.rb.rclient c with cond := .destroyed } := by
    rw [← hr]
    exact Function.update_self _ _ _
  refine ⟨spares_clientDeleteLocked hok.name, ?_, ⟨?_, fun h => absurd h Bool.false_ne_true,
    iff_of_true hmem rfl, fun h => absurd h Bool.false_ne_true⟩, fun _ => ?_⟩
  · rw [hlist]
    exact hs.nodup
  · rw [hrc]
    exact hok.name
  -- it is still linked, but `pthread_cond_destroy` was called
  · refine iff_of_false (fun h => ?_) (fun h => h trivial)
    have hcond := (h hmem).1
    rw [hrc] at hcond
    exact nomatch hcond

omit [DecidableEq Addr] [DecidableEq Topic] in
/-- `CIRCLEQ_REMOVE` in `route_broker_client_delete`, behind its critical section. -/
theorem consumes_unlink (hs : Staged s) (hst : s.stage c = .deleted) :
    Consumes s (.unlink c : ThreadStep Addr Cl Data) c (s.rb.unlinkClient c) .unlinked := by
  have hok := hs.client c
  rw [hst] at hok
  have hnot : c ∉ (s.rb.unlinkClient c).clientList := not_mem_remove hs.nodup
  exact ⟨spares_unlinkClient s.rb c, nodup_remove hs.nodup,
    ⟨hok.name, fun h => absurd h Bool.false_ne_true, iff_of_false hnot Bool.false_ne_true,
      fun h => absurd h Bool.false_ne_true⟩, fun _ => iff_of_true (fun hc => absurd hc hnot) id⟩

theorem consumes_getData (hs : Staged s) (hst : s.stage c = .registered ∨ s.stage c = .waiting)
    (copyObj : Data → Option Data) :
    Consumes s (.getData c) c (s.rb.clientGetData copyObj c).2 .registered := by
  have hsame := sameClients_clientGetData s.rb copyObj c
  have hok : ClientOk s.rb .registered c := by
    rcases hst with hst | hst
    · exact hst ▸ hs.client c
    · have h := hs.client c
      rw [hst] at h
      exact ⟨h.name, h.held, h.listed, h.cond⟩
  refine ⟨hsame.spares c, ?_, hsame.clientOk hok, fun hlive => ?_⟩
  · rw [hsame.clientList]
    exact hs.nodup
  · exact iff_of_true (fun _ => hsame.live (hlive.1 c (hok.listed.mpr rfl))) id

/-- **What a step can do**: a publisher leaves the clients alone, and a consumer moves its
own client on. -/
theorem threadStep_cases (hs : Staged s) (h : s.step init x = some t) :
    (SameClients s.rb t.rb ∧ t.stage = s.stage ∧ ¬ s.Endangers x ∧
      (t.faults = s.faults ∨
        t.faults = s.faults ++ t.rb.clientList.filter fun c => ¬ t.rb.ClientLive c)) ∨
    ∃ c rb st, t = s.move c rb st ∧ Consumes s x c rb st := by
  cases x with
  | publishPrepare alloc obj pri =>
    left
    simp only [Threads.step, Option.ite_none_right_eq_some] at h
    have hsame := sameClients_publishPrepare s.rb init alloc obj pri
    -- what is prepared concerns no client, whether it is ignored or goes on
    generalize s.rb.publishPrepare init alloc obj pri = r at h hsame
    obtain ⟨rb, _ | ⟨a, route, del⟩⟩ := r
    · obtain rfl := Option.some.inj h.2
      exact ⟨hsame, rfl, id, Or.inl rfl⟩
    · obtain rfl := Option.some.inj h.2
      exact ⟨hsame, rfl, id, Or.inl rfl⟩
  | publishLocked a =>
    left
    cases ha : s.inFlight a with
    | none =>
      rw [Threads.step, ha] at h
      exact nomatch h
    | some r =>
      rw [Threads.step, ha] at h
      obtain rfl := Option.some.inj h
      exact ⟨sameClients_publishRoute s.rb a r.1 r.2, rfl, id, Or.inr rfl⟩
  | allocate c =>
    simp only [Threads.step, Option.ite_none_right_eq_some, Option.some.injEq] at h
    obtain ⟨hst, rfl⟩ := h
    exact Or.inr ⟨c, s.rb, .allocated, rfl, consumes_stage hs id hst (by decide) rfl (by decide)⟩
  | createLocked c calloc strdup =>
    simp only [Threads.step, Option.ite_none_right_eq_some, Option.some.injEq] at h
    obtain ⟨hst, rfl⟩ := h
    exact Or.inr ⟨c, _, .created, rfl, consumes_createLocked hs hst calloc strdup⟩
  | condInit c ok =>
    simp only [Threads.step, Option.ite_none_right_eq_some] at h
    obtain ⟨hst, h⟩ := h
    cases ok with
    | true =>
      obtain rfl := Option.some.inj h
      exact Or.inr ⟨c, _, .ready, rfl, consumes_condInit hs hst⟩
    | false =>
      obtain rfl := Option.some.inj h
      exact Or.inr ⟨c, s.rb, .failed, rfl, consumes_stage hs id hst (by decide) rfl (by decide)⟩
  | link c =>
    simp only [Threads.step, Option.ite_none_right_eq_some, Option.some.injEq] at h
    obtain ⟨hst, rfl⟩ := h
    exact Or.inr ⟨c, _, .registered, rfl, consumes_link hs hst⟩
  | createFailed c =>
    simp only [Threads.step, Option.ite_none_right_eq_some, Option.some.injEq] at h
    obtain ⟨hst, rfl⟩ := h
    exact Or.inr ⟨c, _, .absent, rfl, consumes_createFailed hs hst⟩
  | getData c =>
    simp only [Threads.step, Option.ite_none_right_eq_some] at h
    obtain ⟨hst, h⟩ := h
    cases hav : s.rb.dataAvailableForClient c with
    | none =>
      rw [hav] at h
      obtain rfl := Option.some.inj h
      refine Or.inr ⟨c, s.rb, .waiting, rfl, ?_⟩
      rcases hst with hst | hst
      · exact consumes_stage hs id hst (by decide) rfl (by decide)
      · exact consumes_stage hs id hst (by decide) rfl (by decide)
    | some i =>
      rw [hav] at h
      obtain rfl := Option.some.inj h
      exact Or.inr ⟨c, _, .registered, rfl, consumes_getData hs hst init.copyObj⟩
  | timedOut c =>
    simp only [Threads.step, Option.ite_none_right_eq_some, Option.some.injEq] at h
    obtain ⟨hst, rfl⟩ := h
    exact Or.inr ⟨c, s.rb, .registered, rfl, consumes_stage hs id hst (by decide) rfl (by decide)⟩
  | deleteLocked c =>
    simp only [Threads.step, Option.ite_none_right_eq_some, Option.some.injEq] at h
    obtain ⟨hst, rfl⟩ := h
    exact Or.inr ⟨c, _, .deleted, rfl, consumes_deleteLocked hs hst⟩
  | unlink c =>
    simp only [Threads.step, Option.ite_none_right_eq_some, Option.some.injEq] at h
    obtain ⟨hst, rfl⟩ := h
    exact Or.inr ⟨c, _, .unlinked, rfl, consumes_unlink hs hst⟩
  | free c =>
    simp only [Threads.step, Option.ite_none_right_eq_some, Option.some.injEq] at h
    obtain ⟨hst, rfl⟩ := h
    exact Or.inr ⟨c, s.rb, .absent, rfl, consumes_stage hs id hst (by decide) rfl (by decide)⟩

/-- **Every step of every thread** keeps the clients as their stages say. -/
theorem threadStep_staged (h : s.step init x = some t) (hs : Staged s) : Staged t := by
  rcases threadStep_cases hs h with ⟨hsame, hst, -, -⟩ | ⟨c, rb, st, rfl, hcons⟩
  · refine ⟨?_, fun c => ?_⟩
    · rw [hsame.clientList]
      exact hs.nodup
    · rw [hst]
      exact hsame.clientOk (hs.client c)
  · exact hcons.staged hs

/-- **One step keeps the linked clients live exactly if it is not one of the two.** -/
theorem threadStep_registeredLive_iff (h : s.step init x = some t) (hs : Staged s)
    (hlive : s.RegisteredLive) : t.RegisteredLive ↔ ¬ s.Endangers x := by
  rcases threadStep_cases hs h with ⟨hsame, -, hsafe, hfaults⟩ | ⟨c, rb, st, rfl, hcons⟩
  · have hclients : ∀ c ∈ t.rb.clientList, t.rb.ClientLive c := by
      intro c hc
      rw [hsame.clientList] at hc
      exact hsame.live (hlive.1 c hc)
    refine iff_of_true ⟨hclients, ?_⟩ hsafe
    rcases hfaults with hf | hf
    · rw [hf]
      exact hlive.2
    · -- the publisher only meets live clients
      rw [hf, hlive.2, List.nil_append, List.filter_eq_nil_iff]
      intro c hc
      simpa using hclients c hc
  · exact hcons.registeredLive_iff hs hlive

end Steps

/-! ## Calls that nobody interrupts -/

/-- Between two calls: no publisher waits for the mutex, and every client is either in
use or not there. -/
structure Quiet (s : Threads Addr Cl Topic Data) (rb : RouteBroker Addr Cl Topic Data) : Prop where
  same : s.rb = rb
  inFlight : ∀ a, s.inFlight a = none
  registered : ∀ c ∈ rb.clientList, s.stage c = .registered
  absent : ∀ c, c ∉ rb.clientList → s.stage c = .absent

section Quiet

variable {gen : Data → ℤ × Topic × Bool} {copy : Data → Data} {w w' : RouteWorld Addr Cl Topic Data}
  {s s' : Threads Addr Cl Topic Data} {rb rb' : RouteBroker Addr Cl Topic Data} {c : Cl}

omit [DecidableEq Addr] [DecidableEq Topic] in
/-- The consumer of `c` is through with its call. -/
theorem Quiet.move (h : Quiet s rb) {st : Stage} (hsp : Spares c rb rb')
    (hin : c ∈ rb'.clientList → st = .registered) (hout : c ∉ rb'.clientList → st = .absent) :
    Quiet (s.move c rb' st) rb' := by
  have hother : ∀ e, e ≠ c → (s.move c rb' st).stage e = s.stage e :=
    fun e hne => Function.update_of_ne hne _ _
  refine ⟨rfl, h.inFlight, fun e he => ?_, fun e he => ?_⟩
  · by_cases hec : e = c
    · rw [hec] at he ⊢
      rw [Threads.move_stage_self, hin he]
    · rw [hother e hec]
      exact h.registered e ((hsp.clientList e hec).mp he)
  · by_cases hec : e = c
    · rw [hec] at he ⊢
      rw [Threads.move_stage_self, hout he]
    · rw [hother e hec]
      exact h.absent e (fun hx => he ((hsp.clientList e hec).mpr hx))

/-- The calls of the model without threads are runs of the threads: here of
`route_broker_client_create`. -/
theorem quiet_clientCreate (h : Quiet s rb) (hnew : c ∉ rb.clientList) (name : String)
    (init : ObjectBrokerInit Topic Data) :
    ∃ ys s', (threadSystem Addr Cl init).exec s ys = some s' ∧
      Quiet s' (rb.clientCreate c name) := by
  have hst := h.absent c hnew
  obtain rfl := h.same
  refine ⟨[.allocate c, .createLocked c (fun _ => true) (fun _ => some name), .condInit c true,
    .link c], s.move c (s.rb.clientCreate c name) .registered, ?_, h.move ?_ (fun _ => rfl) ?_⟩
  · simp [System.exec_cons, threadSystem, Threads.step, hst, RouteBroker.clientCreate]
  · exact ((spares_clientCreateLocked s.rb c (fun _ => true) _).trans
      (spares_condInit _ c)).trans (spares_linkClient _ c)
  · exact fun hc => absurd List.mem_cons_self hc

theorem quiet_clientDelete (h : Quiet s rb) (hc : Consistent gen rb) (hmem : c ∈ rb.clientList)
    (init : ObjectBrokerInit Topic Data) :
    ∃ ys s', (threadSystem Addr Cl init).exec s ys = some s' ∧ Quiet s' (rb.clientDelete c) := by
  have hst := h.registered c hmem
  have hname := name_of_wired (hc.wired.client c hmem)
  have hn : (rb.clientDeleteLocked c).clientList.Nodup := by
    show (rb.clientDeleteLevels c).clientList.Nodup
    rw [(spares_clientDeleteLevels hname).2.2, ← hc.wired.clients 0]
    exact (hc.sound.linked 0).clients_nodup
  obtain rfl := h.same
  refine ⟨[.deleteLocked c, .unlink c, .free c], s.move c (s.rb.clientDelete c) .absent, ?_,
    h.move ?_ (fun hx => absurd hx (not_mem_remove hn)) (fun _ => rfl)⟩
  · simp [System.exec_cons, threadSystem, Threads.step, hst, RouteBroker.clientDelete]
  · exact (spares_clientDeleteLocked hname).trans (spares_unlinkClient _ c)

theorem quiet_clientGetData (h : Quiet s rb) (hmem : c ∈ rb.clientList)
    (init : ObjectBrokerInit Topic Data) :
    ∃ ys s', (threadSystem Addr Cl init).exec s ys = some s' ∧
      Quiet s' (rb.clientGetData init.copyObj c).2 := by
  have hst := h.registered c hmem
  have hsame := sameClients_clientGetData rb init.copyObj c
  obtain rfl := h.same
  have hquiet : Quiet (s.move c (s.rb.clientGetData init.copyObj c).2 .registered)
      (s.rb.clientGetData init.copyObj c).2 := by
    refine h.move (hsame.spares c) (fun _ => rfl) (fun hx => absurd hmem ?_)
    rw [← hsame.clientList]
    exact hx
  cases hav : s.rb.dataAvailableForClient c with
  | none =>
    -- nothing to read: the wait times out, and nothing has changed
    have hget : (s.rb.clientGetData init.copyObj c).2 = s.rb := by
      unfold RouteBroker.clientGetData
      rw [hav]
    rw [hget] at hquiet ⊢
    refine ⟨[.getData c, .timedOut c], _, ?_, hquiet⟩
    simp [System.exec_cons, threadSystem, Threads.step, hst, hav]
  | some i =>
    refine ⟨[.getData c], _, ?_, hquiet⟩
    simp [System.exec_cons, threadSystem, Threads.step, hst, hav]

omit [DecidableEq Addr] [DecidableEq Cl] [DecidableEq Topic] in
/-- A publisher is through with its call. -/
theorem Quiet.published (h : Quiet s rb) (hsame : SameClients rb rb') (hrb : s'.rb = rb')
    (hfl : ∀ a, s'.inFlight a = none) (hst : s'.stage = s.stage) : Quiet s' rb' := by
  refine ⟨hrb, hfl, fun c hc => ?_, fun c hc => ?_⟩
  · rw [hsame.clientList] at hc
    rw [hst]
    exact h.registered c hc
  · rw [hsame.clientList] at hc
    rw [hst]
    exact h.absent c hc

/-- A publication that nobody interrupts is its two steps in a row, or the first one if that
fails. -/
theorem quiet_publish (h : Quiet s rb) {a : Addr} (ha : rb.store.heap a = none)
    (init : ObjectBrokerInit Topic Data) (obj : Data) (pri : Level) :
    ∃ ys s', (threadSystem Addr Cl init).exec s ys = some s' ∧
      Quiet s' (rb.objectBrokerPublish init (some a) obj pri).1 := by
  obtain rfl := h.same
  have hfree : (s.rb.store.heap a).isNone = true ∧ (s.inFlight a).isNone = true :=
    ⟨Option.isNone_iff_eq_none.mpr ha, Option.isNone_iff_eq_none.mpr (h.inFlight a)⟩
  have hsame := sameClients_publishPrepare s.rb init (some a) obj pri
  unfold RouteBroker.objectBrokerPublish
  generalize hprep : s.rb.publishPrepare init (some a) obj pri = r at hsame
  obtain ⟨rb, _ | ⟨a', route, del⟩⟩ := r
  · refine ⟨[.publishPrepare (some a) obj pri], { s with rb := rb }, ?_,
      h.published hsame rfl h.inFlight rfl⟩
    simp [System.exec_cons, threadSystem, Threads.step, hfree, hprep]
  · refine ⟨[.publishPrepare (some a) obj pri, .publishLocked a'], ?_⟩
    simp only [System.exec_cons, threadSystem, Threads.step, Option.all_some, hfree, hprep,
      Bool.and_self, if_true, Option.bind_some, Function.update_self, Function.update_idem,
      System.exec_nil]
    refine ⟨_, rfl, h.published (hsame.trans (sameClients_publishRoute rb a' route del)) rfl
      (fun b => ?_) rfl⟩
    show Function.update s.inFlight a' none b = none
    rw [Function.update_eq_self_iff.mpr (h.inFlight a').symm]
    exact h.inFlight b

/-- **Every call made in one go is a run of the threads.** -/
theorem call_uninterrupted {x : RouteCall Addr Cl Data} (hstep : w.call gen copy x = some w')
    (hc : Consistent gen w.rb) (h : Quiet s w.rb) :
    ∃ ys s', (threadSystem Addr Cl (succeeding gen copy)).exec s ys = some s' ∧
      Quiet s' w'.rb := by
  cases x with
  | publish a obj pri =>
    obtain ⟨ha, rfl⟩ := routeCall_publish.mp hstep
    exact quiet_publish h ha _ obj pri
  | clientCreate c name =>
    obtain ⟨hnew, rfl⟩ := routeCall_clientCreate.mp hstep
    exact quiet_clientCreate h hnew name _
  | clientDelete c =>
    obtain ⟨hmem, rfl⟩ := routeCall_clientDelete.mp hstep
    exact quiet_clientDelete h hc hmem _
  | clientGetData c =>
    obtain ⟨hmem, rfl⟩ := routeCall_clientGetData.mp hstep
    exact quiet_clientGetData h hmem _

/-- So the states `RouteRun.lean` is about are states of the threads. -/
theorem reachable_quiet (h : (routeSystem Addr Cl gen copy).Reachable w) :
    ∃ s, (threadSystem Addr Cl (succeeding gen copy)).Reachable s ∧ Quiet s w.rb := by
  have hrun : Consistent gen w.rb ∧
      ∃ s, (threadSystem Addr Cl (succeeding gen copy)).Reachable s ∧ Quiet s w.rb := by
    refine h.induction (P := fun w => Consistent gen w.rb ∧
      ∃ s, (threadSystem Addr Cl (succeeding gen copy)).Reachable s ∧ Quiet s w.rb)
      ⟨consistent_start, .start, ⟨[], rfl⟩, rfl, fun _ => rfl,
        fun _ hc => absurd hc List.not_mem_nil, fun _ _ => rfl⟩ ?_
    rintro v x v' ⟨hc, s, hs, hq⟩ hstep
    obtain ⟨ys, s', hexec, hq'⟩ := call_uninterrupted hstep hc hq
    exact ⟨routeCall_consistent hstep hc, s', hs.exec hexec, hq'⟩
  exact hrun.2

end Quiet

/-! ## Runs -/

omit [DecidableEq Addr] [DecidableEq Cl] [DecidableEq Topic] in
theorem staged_start : Staged (Threads.start : Threads Addr Cl Topic Data) where
  nodup := List.nodup_nil
  client := fun _ => ⟨fun _ _ h => (nomatch h), fun h => absurd h Bool.false_ne_true,
    iff_of_false List.not_mem_nil Bool.false_ne_true, fun h => absurd h Bool.false_ne_true⟩

/-- **Registered clients are live exactly as long as none is deleted and none is linked
with a level missing.**  Take any interleaving of the steps of any number of publishers
and consumers.  Whenever the mutex is free, every client on `client_list_head` has in
every level a `broker_client` that has been created and not freed, and a condition that
is initialised and not destroyed, and no publisher has ever looked at a client of which
this is not true, exactly if no consumer goes through the critical section of
`route_broker_client_delete` and every client that is linked got a `broker_client` in
each level. -/
theorem registered_live_iff (init : ObjectBrokerInit Topic Data)
    (xs : List (ThreadStep Addr Cl Data)) :
    (threadSystem Addr Cl init).Along Threads.RegisteredLive .start xs ↔
      (threadSystem Addr Cl init).Guarded (fun s x => ¬ s.Endangers x) .start xs :=
  System.along_iff_guarded (J := Staged) (fun _ _ _ hs h => threadStep_staged h hs)
    (fun _ _ _ hs hlive h => threadStep_registeredLive_iff h hs hlive) staged_start
    ⟨fun _ h => absurd h List.not_mem_nil, rfl⟩

-- The allocation in level `1` fails, and the client is linked all the same.
example : ((threadSystem ℕ ℕ (succeeding plainGen id)).exec .start [.allocate 0,
    .createLocked 0 (fun i => i ≠ 1) (fun _ => some "dp"), .condInit 0 true, .link 0]).any
    (fun s => 0 ∈ s.rb.clientList ∧ (s.rb.rclient 0).client 1 = none) = true := by
  decide +kernel

/-- A client is created and deleted, and before its consumer takes it off the list, a
publisher gets the mutex: the client is still linked, its condition is destroyed and its
`broker_client`s are freed, and `route_broker_wake_clients` looks at it. -/
theorem linked_after_free :
    ∃ s, (threadSystem ℕ ℕ (succeeding plainGen id)).exec .start [.allocate 0,
        .createLocked 0 (fun _ => true) (fun _ => some "dp"), .condInit 0 true, .link 0,
        .deleteLocked 0, .publishPrepare (some 100) (7, 1, false) 2, .publishLocked 100] = some s ∧
      0 ∈ s.rb.clientList ∧ (s.rb.rclient 0).cond = .destroyed ∧
      (∀ i, (s.rb.rclient 0).client i = some 0 ∧ 0 ∉ (s.rb.level i).clientList) ∧
      s.faults = [0] ∧ ¬ s.RegisteredLive := by
  obtain ⟨s, hexec, hp⟩ := (threadSystem ℕ ℕ (succeeding plainGen id)).exists_of_exec_any .start
    [.allocate 0, .createLocked 0 (fun _ => true) (fun _ => some "dp"), .condInit 0 true, .link 0,
      .deleteLocked 0, .publishPrepare (some 100) (7, 1, false) 2, .publishLocked 100]
    (fun s => decide (0 ∈ s.rb.clientList ∧ (s.rb.rclient 0).cond = .destroyed ∧
      (∀ i, (s.rb.rclient 0).client i = some 0 ∧ 0 ∉ (s.rb.level i).clientList) ∧
      s.faults = [0])) (by decide +kernel)
  rw [decide_eq_true_eq] at hp
  obtain ⟨hmem, hcond, hfreed, hfaults⟩ := hp
  refine ⟨s, hexec, hmem, hcond, hfreed, hfaults, fun hlive => ?_⟩
  have h := hlive.2
  rw [hfaults] at h
  exact nomatch h
