/-
# Every copy is freed once

All runs of the route broker with pointers, in which the allocation of a copy may fail, and
a client frees what it was handed whenever it likes.  Each call is one of `RouteCopy.lean`
when the pointers are read (`ptrStep_steps`), so that what was proved of the data holds of
the copies; and between two calls every copy belongs to one route or to one client
(`PtrWorld.Owned`).

Main result: `data_owned_once`.
-/
import RouteBroker.RouteData

open Circleq Broker

variable {Addr Cl Topic Data Ptr : Type*}

/-! ## Runs -/

/-- The calls, with what the allocations in them return: the address of the route, and
`copy_obj`'s copy or `none`. -/
inductive PtrCall (Addr Cl Ptr Data : Type*)
  | publish (a : Addr) (dup : Option Ptr) (obj : Data) (pri : Level)
  | clientCreate (c : Cl) (name : String)
  | clientDelete (c : Cl)
  | clientGetData (dup : Option Ptr) (c : Cl)
  | clientFreeData (c : Cl) (p : Ptr)

/-- The route broker with pointers, and the copies that clients have: which client, and the
data it was handed. -/
structure PtrWorld (Addr Cl Topic Ptr Data : Type*) where
  broker : DataBroker Addr Cl Topic Ptr Data
  holder : Ptr → Option (Cl × Data)
  published : List Data
  received : Cl → List Data

/-- The world with data instead of pointers. -/
def PtrWorld.read (w : PtrWorld Addr Cl Topic Ptr Data) : RouteWorld Addr Cl Topic Data where
  rb := w.broker.read
  published := w.published
  received := w.received

/-- The world after `route_broker_init`. -/
def PtrWorld.start : PtrWorld Addr Cl Topic Ptr Data where
  broker := { rb := routeBrokerInit, pool := .empty }
  holder := fun _ => none
  published := []
  received := fun _ => []

/-- The same call for the model with data. -/
def PtrCall.steps : PtrCall Addr Cl Ptr Data → List (CopyCall Addr Cl Data)
  | .publish a (some _) obj pri => [.call (.publish a obj pri)]
  | .publish a none obj pri => [.publishFails a obj pri]
  | .clientCreate c name => [.call (.clientCreate c name)]
  | .clientDelete c => [.call (.clientDelete c)]
  | .clientGetData (some _) c => [.call (.clientGetData c)]
  | .clientGetData none c => [.getDataFails c]
  | .clientFreeData _ _ => []

section Runs

variable [DecidableEq Addr] [DecidableEq Cl] [DecidableEq Topic] [DecidableEq Ptr]

namespace PtrWorld

variable (gen : Data → ℤ × Topic × Bool) (copy : Data → Data) (w : PtrWorld Addr Cl Topic Ptr Data)

/-- `object_broker_publish(obj, pri)`. -/
def publish (a : Addr) (dup : Option Ptr) (obj : Data) (pri : Level) :
    PtrWorld Addr Cl Topic Ptr Data :=
  { w with
    broker := w.broker.publish gen copy a dup obj pri
    published := w.published ++ (dup.map fun _ => obj).toList }

/-- `route_broker_client_create(name)`. -/
def clientCreate (c : Cl) (name : String) : PtrWorld Addr Cl Topic Ptr Data :=
  { w with
    broker := w.broker.clientCreate c name
    received := Function.update w.received c [] }

/-- `route_broker_client_delete(c)`. -/
def clientDelete (c : Cl) : PtrWorld Addr Cl Topic Ptr Data :=
  { w with broker := w.broker.clientDelete c }

/-- `route_broker_client_get_data(c)`. -/
def clientGetData (dup : Option Ptr) (c : Cl) : PtrWorld Addr Cl Topic Ptr Data :=
  let x := w.broker.clientGetData copy dup c
  { w with
    broker := x.2
    holder := hand w.holder c x.1
    received := Function.update w.received c (w.received c ++ (x.1.map Prod.snd).toList) }

/-- `route_broker_client_free_data(c, p)`, which does not look at the client. -/
def clientFreeData (p : Ptr) : PtrWorld Addr Cl Topic Ptr Data :=
  { w with broker := w.broker.freeObj p, holder := Function.update w.holder p none }

/-- One call.  Allocations return free memory, and a client frees only what it has. -/
def call : PtrCall Addr Cl Ptr Data → Option (PtrWorld Addr Cl Topic Ptr Data)
  | .publish a dup obj pri =>
    if (w.broker.rb.store.heap a).isNone ∧ dup.all fun p => (w.broker.pool.live p).isNone then
      some (w.publish gen copy a dup obj pri)
    else none
  | .clientCreate c name =>
    if c ∈ w.broker.rb.clientList then none else some (w.clientCreate c name)
  | .clientDelete c => if c ∈ w.broker.rb.clientList then some (w.clientDelete c) else none
  | .clientGetData dup c =>
    if c ∈ w.broker.rb.clientList ∧ dup.all fun p => (w.broker.pool.live p).isNone then
      some (w.clientGetData copy dup c)
    else none
  | .clientFreeData c p =>
    if (w.holder p).any fun x => x.1 = c then some (w.clientFreeData p) else none

end PtrWorld

/-- All runs of the route broker with pointers. -/
def ptrSystem (Addr Cl Ptr : Type*) [DecidableEq Addr] [DecidableEq Cl] [DecidableEq Ptr]
    (gen : Data → ℤ × Topic × Bool) (copy : Data → Data) :
    System (PtrWorld Addr Cl Topic Ptr Data) (PtrCall Addr Cl Ptr Data) where
  init := .start
  step := PtrWorld.call gen copy

/-- Between two calls every copy belongs to a route or to a client. -/
structure PtrWorld.Owned (gen : Data → ℤ × Topic × Bool)
    (w : PtrWorld Addr Cl Topic Ptr Data) : Prop where
  represents : Represents w.holder none w.broker w.broker.read
  consistent : Consistent gen w.broker.read

variable {gen : Data → ℤ × Topic × Bool} {copy : Data → Data}
  {w w' : PtrWorld Addr Cl Topic Ptr Data}

omit [DecidableEq Topic] [DecidableEq Addr] [DecidableEq Cl] [DecidableEq Ptr] in
theorem fresh_of_all {P : Pool Ptr Data} {dup : Option Ptr}
    (h : dup.all (fun p => (P.live p).isNone) = true) (p : Ptr) (hp : dup = some p) :
    P.live p = none := by
  rw [hp] at h
  exact Option.isNone_iff_eq_none.mp h

/-- **A call with pointers is a call with data**, and keeps the owners. -/
theorem ptrStep_steps {x : PtrCall Addr Cl Ptr Data} (h : w.Owned gen)
    (hstep : w.call gen copy x = some w') :
    Represents w'.holder none w'.broker w'.broker.read ∧
      (copySystem Addr Cl gen copy).exec w.read x.steps = some w'.read := by
  obtain ⟨hrep, hc⟩ := h
  have hone : ∀ {y : CopyCall Addr Cl Data} {v : RouteWorld Addr Cl Topic Data},
      w.read.copyStep gen copy y = some v → (copySystem Addr Cl gen copy).exec w.read [y] = some v :=
    fun hy => (System.exec_cons_eq_some _).mpr ⟨_, hy, rfl⟩
  have hcall : ∀ {y : RouteCall Addr Cl Data} {v : RouteWorld Addr Cl Topic Data},
      w.read.call gen copy y = some v → (copySystem Addr Cl gen copy).exec w.read [.call y] = some v :=
    fun hy => hone hy
  cases x with
  | publish a dup obj pri =>
    simp only [PtrWorld.call, Option.ite_none_right_eq_some, Option.some.injEq] at hstep
    obtain ⟨⟨hfree, hfresh⟩, rfl⟩ := hstep
    have hheap := Option.isNone_iff_eq_none.mp hfree
    have hpub := hrep.publish hc.sound copy hheap (fresh_of_all hfresh) obj pri
    refine ⟨hpub.read ▸ hpub, ?_⟩
    have hworld : (w.publish gen copy a dup obj pri).read = ⟨(w.broker.read.objectBrokerPublish
        ⟨gen, fun d => dup.map fun _ => copy d⟩ (some a) obj pri).1,
        w.published ++ (dup.map fun _ => obj).toList, w.received⟩ :=
      congrArg (RouteWorld.mk · _ w.received) hpub.read.symm
    rw [hworld]
    cases dup with
    | some p => exact hcall (routeCall_publish.mpr ⟨readHeap_none hheap, rfl⟩)
    | none =>
      apply hone
      apply copyStep_publishFails.mpr
      refine ⟨readHeap_none hheap, ?_⟩
      rw [Option.map_none, Option.toList_none, List.append_nil]
      rfl
  | clientCreate c name =>
    simp only [PtrWorld.call, Option.ite_none_left_eq_some, Option.some.injEq] at hstep
    obtain ⟨hnew, rfl⟩ := hstep
    have hcreate := hrep.clientCreate c name
    exact ⟨hcreate.read ▸ hcreate, hcall (routeCall_clientCreate.mpr ⟨hnew, rfl⟩)⟩
  | clientDelete c =>
    simp only [PtrWorld.call, Option.ite_none_right_eq_some, Option.some.injEq] at hstep
    obtain ⟨hmem, rfl⟩ := hstep
    have hdelete := hrep.clientDelete c
    refine ⟨hdelete.read ▸ hdelete, hcall (routeCall_clientDelete.mpr ⟨hmem, ?_⟩)⟩
    exact congrArg (RouteWorld.mk · w.published w.received) hdelete.read.symm
  | clientGetData dup c =>
    simp only [PtrWorld.call, Option.ite_none_right_eq_some, Option.some.injEq] at hstep
    obtain ⟨⟨hmem, hfresh⟩, rfl⟩ := hstep
    obtain ⟨hdata, hget⟩ := hrep.clientGetData copy (fresh_of_all hfresh) c
    refine ⟨hget.read ▸ hget, ?_⟩
    have hworld : (w.clientGetData copy dup c).read
        = ⟨(w.broker.read.clientGetData (fun d => dup.map fun _ => copy d) c).2, w.published,
          Function.update w.received c (w.received c
            ++ (w.broker.read.clientGetData (fun d => dup.map fun _ => copy d) c).1.1.toList)⟩ := by
      rw [hdata, hget.read]
      rfl
    rw [hworld]
    cases dup with
    | some p => exact hcall (routeCall_clientGetData.mpr ⟨hmem, rfl⟩)
    | none => exact hone (copyStep_getDataFails.mpr ⟨hmem, rfl⟩)
  | clientFreeData c p =>
    simp only [PtrWorld.call, Option.ite_none_right_eq_some, Option.some.injEq] at hstep
    obtain ⟨hholds, rfl⟩ := hstep
    obtain ⟨⟨e, d⟩, hp, -⟩ := (Option.any_eq_true _ _).mp hholds
    have hfree := hrep.freeData hp
    refine ⟨hfree.read ▸ hfree, ?_⟩
    exact congrArg (fun rb => some (RouteWorld.mk rb w.published w.received)) hfree.read

omit [DecidableEq Addr] [DecidableEq Cl] [DecidableEq Topic] [DecidableEq Ptr] in
theorem owned_start (gen : Data → ℤ × Topic × Bool) :
    (PtrWorld.start : PtrWorld Addr Cl Topic Ptr Data).Owned gen where
  represents := by
    have hnone : ∀ (o : DataOwner Addr Cl) (p : Ptr),
        ¬ Owns (fun _ => none) (none : Option (Ptr × Data))
          (routeBrokerInit : RouteBroker Addr Cl Topic Ptr).store.heap o p := by
      rintro (a | c | _) p
      · rintro ⟨r, hr, -⟩
        cases hr
      · rintro ⟨d, hd⟩
        cases hd
      · rintro ⟨d, hd⟩
        cases hd
    exact represents_of_reads ⟨Pool.owned_empty hnone, nofun, nofun, rfl⟩ rfl
  consistent := consistent_start

theorem ptrRun_steps {xs : List (PtrCall Addr Cl Ptr Data)} (h : w.Owned gen)
    (hexec : (ptrSystem Addr Cl Ptr gen copy).exec w xs = some w') : w'.Owned gen ∧
      (copySystem Addr Cl gen copy).exec w.read (xs.flatMap PtrCall.steps) = some w'.read := by
  induction xs generalizing w with
  | nil =>
    rw [System.exec_nil, Option.some.injEq] at hexec
    rw [← hexec]
    exact ⟨h, rfl⟩
  | cons x xs ih =>
    obtain ⟨v, hv, hrest⟩ := (System.exec_cons_eq_some _).mp hexec
    obtain ⟨hrep, hstep⟩ := ptrStep_steps h hv
    have hc : Consistent gen v.read.rb :=
      (copySystem Addr Cl gen copy).exec_induction (P := fun w => Consistent gen w.rb)
        (fun _ _ _ hc hstep => copyStep_consistent hc hstep) hstep h.consistent
    obtain ⟨hown, hsteps⟩ := ih ⟨hrep, hc⟩ hrest
    refine ⟨hown, ?_⟩
    rw [List.flatMap_cons, System.exec_append_eq_some]
    exact ⟨v.read, hstep, hsteps⟩

omit [DecidableEq Addr] [DecidableEq Cl] [DecidableEq Topic] [DecidableEq Ptr] in
/-- A copy is allocated exactly while it has an owner. -/
theorem PtrWorld.Owned.live_iff (h : w.Owned gen) (p : Ptr) :
    (w.broker.pool.live p).isSome ↔
      (∃ a r, w.broker.rb.store.heap a = some r ∧ r.data = p) ∨ (w.holder p).isSome := by
  refine (h.represents.reads.owned.live p).trans ?_
  constructor
  · rintro ⟨a | c | _, ho⟩
    · exact Or.inl ⟨a, ho⟩
    · obtain ⟨d, hd⟩ := ho
      exact Or.inr (Option.isSome_iff_exists.mpr ⟨_, hd⟩)
    · obtain ⟨d, hd⟩ := ho
      cases hd
  · rintro (⟨a, ho⟩ | hp)
    · exact ⟨.route a, ho⟩
    · obtain ⟨⟨c, d⟩, hd⟩ := Option.isSome_iff_exists.mp hp
      exact ⟨.client c, d, hd⟩

omit [DecidableEq Addr] [DecidableEq Cl] [DecidableEq Topic] [DecidableEq Ptr] in
/-- What a route has, no client has. -/
theorem PtrWorld.Owned.holder_none (h : w.Owned gen) {a : Addr} {r : RibRoute Topic Ptr}
    (hr : w.broker.rb.store.heap a = some r) : w.holder r.data = none := by
  cases hp : w.holder r.data with
  | none => rfl
  | some x =>
    have hsame := h.represents.reads.owned.unique r.data (.route a) (.client x.1) ⟨r, hr, rfl⟩
      ⟨x.2, hp⟩
    cases hsame

/-- **Every copy has one owner and is freed once.**  Take any run, allocations of copies
failing or not, in which clients free only what they were handed.  Nothing is read or freed
that is not allocated; a copy is allocated exactly while a route holds it or a client has it,
and by one of them only; no two routes share a copy; a client finds its copy as it was handed
out, whatever was published since; and read through the pointers, the run is one of the model
in which the data are values. -/
theorem data_owned_once (gen : Data → ℤ × Topic × Bool) (copy : Data → Data)
    {xs : List (PtrCall Addr Cl Ptr Data)} {w : PtrWorld Addr Cl Topic Ptr Data}
    (h : (ptrSystem Addr Cl Ptr gen copy).exec .start xs = some w) :
    w.broker.pool.fault = false ∧
    (∀ p, (w.broker.pool.live p).isSome ↔
      (∃ a r, w.broker.rb.store.heap a = some r ∧ r.data = p) ∨ (w.holder p).isSome) ∧
    (∀ a r, w.broker.rb.store.heap a = some r → w.holder r.data = none ∧
      ∀ a' r', w.broker.rb.store.heap a' = some r' → r'.data = r.data → a' = a) ∧
    (∀ p c d, w.holder p = some (c, d) → w.broker.pool.live p = some d) ∧
    (copySystem Addr Cl gen copy).exec .start (xs.flatMap PtrCall.steps) = some w.read := by
  obtain ⟨hown, hsteps⟩ := ptrRun_steps (owned_start gen) h
  have hreads := hown.represents.reads
  refine ⟨hreads.owned.sound, hown.live_iff, ?_, hreads.intact, hsteps⟩
  intro a r hr
  refine ⟨hown.holder_none hr, ?_⟩
  intro a' r' hr' hdata
  by_contra hne
  exact data_ne_of_heap hreads.owned hr hr' hne hdata

/-- The theorem at a run in which a route is updated, deleted at a higher priority, and
reclaimed by the read that delivers the delete. -/
theorem data_owned_once_reclaimed :
    ∃ w, (ptrSystem ℕ ℕ ℕ plainGen id).exec .start [.clientCreate 0 "dp",
        .publish 100 (some 1) (7, 1, false) 1, .publish 101 (some 2) (7, 2, false) 1,
        .publish 102 none (8, 1, false) 1, .clientGetData (some 3) 0, .clientFreeData 0 3,
        .publish 103 (some 4) (7, 3, true) 0, .clientGetData (some 5) 0] = some w ∧
      w.holder 5 = some (0, (7, 3, true)) ∧
      (∀ p, (w.broker.pool.live p).isSome ↔
        (∃ a r, w.broker.rb.store.heap a = some r ∧ r.data = p) ∨ (w.holder p).isSome) := by
  obtain ⟨w, hexec, hp⟩ := (ptrSystem ℕ ℕ ℕ plainGen id).exists_of_exec_any .start
    [.clientCreate 0 "dp", .publish 100 (some 1) (7, 1, false) 1,
      .publish 101 (some 2) (7, 2, false) 1, .publish 102 none (8, 1, false) 1,
      .clientGetData (some 3) 0, .clientFreeData 0 3, .publish 103 (some 4) (7, 3, true) 0,
      .clientGetData (some 5) 0]
    (fun w => decide (w.holder 5 = some (0, (7, 3, true)))) (by decide +kernel)
  rw [decide_eq_true_eq] at hp
  exact ⟨w, hexec, hp, (data_owned_once plainGen id hexec).2.1⟩

end Runs
