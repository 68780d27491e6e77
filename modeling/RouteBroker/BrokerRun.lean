/-
# Runs of one broker

A broker together with its surroundings: the owner of the objects, whose callbacks
it calls and who may replace the data of an object before announcing the change,
and any number of clients.  `brokerSystem` is the transition system whose actions
are the calls of the functions of `broker.h`, in any order; a call is allowed when
its object is (not) listed, its client (not) registered.

The rest of the world only records what happened, for the theorems to speak about:

* `owner.locked`, `owner.unlocked`: the calls of `lock_obj` and `unlock_obj`;
* `received c`: what `broker_client_get_data` handed to the client `c` since it was
  created, in order, with the time of the call;
* `deletedAt o`: the time of the most recent `broker_del_obj` on `o`.

Main result: `order_and_cursors`.
-/
import RouteBroker.System
import RouteBroker.BrokerOrder

open Circleq Broker

/-! ## The world of one broker -/

/-- What a client is handed by one call: the object, its data, whether it was
passed to `del_obj`, its id, and the time of the call. -/
structure Delivery (Obj Data : Type*) where
  obj : Obj
  data : Data
  deleted : Bool
  id : ℕ
  time : ℕ

/-- The owner of the objects. -/
structure Owner (Obj Data : Type*) where
  data : Obj → Data
  locked : List Obj
  unlocked : List Obj
  now : ℕ

/-- The calls of `broker.h`.  The data argument of a change is what the owner stores
in the object just before the call. -/
inductive Call (Obj Cl Data : Type*)
  | addObj (o : Obj) (d : Data)
  | updObj (o : Obj) (d : Data)
  | delObj (o : Obj) (d : Data)
  | delObjNow (o : Obj)
  | clientCreate (c : Cl) (name : String)
  | clientDelete (c : Cl)
  | clientGetData (c : Cl)
  deriving DecidableEq

/-- The forced removal, as opposed to the calls of the publisher and the clients. -/
def Call.isDelObjNow {Obj Cl Data : Type*} : Call Obj Cl Data → Bool
  | .delObjNow _ => true
  | _ => false

structure World (Obj Cl Data : Type*) where
  broker : Broker Obj Cl
  owner : Owner Obj Data
  deletedAt : Obj → ℕ
  received : Cl → List (Delivery Obj Data)

variable {Obj Cl Data : Type*}

/-- One unit of time. -/
def Owner.tick (s : Owner Obj Data) : Owner Obj Data := { s with now := s.now + 1 }

/-- The callbacks of the owner: they record the calls. -/
def ownerOps : BrokerOps Obj Cl (Owner Obj Data) where
  lockObj r s := match r with
    | .obj o => { s with locked := o :: s.locked }
    | .client _ => s
  unlockObj r s := match r with
    | .obj o => { s with unlocked := o :: s.unlocked }
    | .client _ => s

/-- The callbacks of the clients: they hand over the object as it is. -/
def handOver : BrokerClientOps Obj Cl (Owner Obj Data) (Delivery Obj Data) where
  addObj r bo s := match r with
    | .obj o => some { obj := o, data := s.data o, deleted := false, id := bo.id, time := s.now }
    | .client _ => none
  delObj r bo s := match r with
    | .obj o => some { obj := o, data := s.data o, deleted := true, id := bo.id, time := s.now }
    | .client _ => none

/-- The world after a call that left the broker and the owner as `bs`. -/
def World.after (w : World Obj Cl Data) (bs : Broker Obj Cl × Owner Obj Data) :
    World Obj Cl Data :=
  { w with broker := bs.1, owner := bs.2.tick }

variable [DecidableEq Obj] [DecidableEq Cl]

/-- The owner replaces the data of `o`. -/
def Owner.store (s : Owner Obj Data) (o : Obj) (d : Data) : Owner Obj Data :=
  { s with data := Function.update s.data o d }

namespace World

/-- The owner stores `d` in `o` and adds it. -/
def addObj (w : World Obj Cl Data) (o : Obj) (d : Data) : World Obj Cl Data :=
  w.after (brokerAddObj ownerOps w.broker (w.owner.store o d) o 0)

/-- The owner stores `d` in `o` and announces an update. -/
def updObj (w : World Obj Cl Data) (o : Obj) (d : Data) : World Obj Cl Data :=
  w.after (brokerUpdObj w.broker o, w.owner.store o d)

/-- The owner stores `d` in `o` and deletes it. -/
def delObj (w : World Obj Cl Data) (o : Obj) (d : Data) : World Obj Cl Data :=
  { w.after (brokerDelObj ownerOps w.broker (w.owner.store o d) o) with
    deletedAt := Function.update w.deletedAt o w.owner.now }

/-- The owner forces `o` out of the broker. -/
def delObjNow (w : World Obj Cl Data) (o : Obj) : World Obj Cl Data :=
  w.after (brokerDelObjNow ownerOps w.broker w.owner (.obj o))

/-- The client `c` registers. -/
def clientCreate (w : World Obj Cl Data) (c : Cl) (name : String) : World Obj Cl Data :=
  { w.after ((brokerClientCreate w.broker (some c) (some name)).2, w.owner) with
    received := Function.update w.received c [] }

/-- The client `c` leaves. -/
def clientDelete (w : World Obj Cl Data) (c : Cl) : World Obj Cl Data :=
  w.after (brokerClientDelete ownerOps w.broker w.owner c)

/-- The client `c` asks for data. -/
def clientGetData (w : World Obj Cl Data) (c : Cl) : World Obj Cl Data :=
  let r := brokerClientGetData ownerOps handOver w.broker w.owner (some c)
  { w.after r.2 with received := Function.update w.received c (w.received c ++ r.1.toList) }

/-- One call. -/
def call (w : World Obj Cl Data) : Call Obj Cl Data → Option (World Obj Cl Data)
  | .addObj o d => if w.broker.Listed o then none else some (w.addObj o d)
  | .updObj o d => if w.broker.Listed o then some (w.updObj o d) else none
  | .delObj o d => if w.broker.Listed o then some (w.delObj o d) else none
  | .delObjNow o => if w.broker.Listed o then some (w.delObjNow o) else none
  | .clientCreate c name =>
    if c ∈ w.broker.clientList then none else some (w.clientCreate c name)
  | .clientDelete c => if c ∈ w.broker.clientList then some (w.clientDelete c) else none
  | .clientGetData c => if c ∈ w.broker.clientList then some (w.clientGetData c) else none

end World

/-- A new broker, with data `d₀` in objects it does not know yet. -/
def World.start (d₀ : Obj → Data) : World Obj Cl Data where
  broker := brokerCreate
  owner := { data := d₀, locked := [], unlocked := [], now := 1 }
  deletedAt := fun _ => 0
  received := fun _ => []

/-- All runs of one broker. -/
def brokerSystem (Cl : Type*) [DecidableEq Cl] (d₀ : Obj → Data) :
    System (World Obj Cl Data) (Call Obj Cl Data) where
  init := World.start d₀
  step := World.call

/-! ## What one call does -/

section Inversion

variable {w w' : World Obj Cl Data} {o : Obj} {c : Cl} {d : Data} {name : String}

theorem call_addObj : w.call (.addObj o d) = some w' ↔
    ¬ w.broker.Listed o ∧ w' = w.addObj o d := by
  simp [World.call, eq_comm]

theorem call_updObj : w.call (.updObj o d) = some w' ↔
    w.broker.Listed o ∧ w' = w.updObj o d := by
  simp [World.call, eq_comm]

theorem call_delObj : w.call (.delObj o d) = some w' ↔
    w.broker.Listed o ∧ w' = w.delObj o d := by
  simp [World.call, eq_comm]

theorem call_delObjNow : w.call (.delObjNow o) = some w' ↔
    w.broker.Listed o ∧ w' = w.delObjNow o := by
  simp [World.call, eq_comm]

theorem call_clientCreate : w.call (.clientCreate c name) = some w' ↔
    c ∉ w.broker.clientList ∧ w' = w.clientCreate c name := by
  simp [World.call, eq_comm]

theorem call_clientDelete : w.call (.clientDelete c) = some w' ↔
    c ∈ w.broker.clientList ∧ w' = w.clientDelete c := by
  simp [World.call, eq_comm]

theorem call_clientGetData : w.call (.clientGetData c) = some w' ↔
    c ∈ w.broker.clientList ∧ w' = w.clientGetData c := by
  simp [World.call, eq_comm]

end Inversion

/-! ## What a read hands over -/

section Read

variable {w : World Obj Cl Data} {c : Cl} {o : Obj}

omit [DecidableEq Obj] [DecidableEq Cl] in
/-- The current version of `o`, as a read hands it over now. -/
def World.version (w : World Obj Cl Data) (o : Obj) : Delivery Obj Data where
  obj := o
  data := w.owner.data o
  deleted := (w.broker.bobj (.obj o)).flags.delete
  id := (w.broker.bobj (.obj o)).id
  time := w.owner.now

theorem received_of_none (h : brokerGetNextDataObj w.broker (.client c) = none) :
    (w.clientGetData c).received = w.received := by
  simp [World.clientGetData, getData_of_none ownerOps handOver w.owner h]

theorem received_of_some (h : brokerGetNextDataObj w.broker (.client c) = some (.obj o)) :
    (w.clientGetData c).received
      = Function.update w.received c (w.received c ++ [w.version o]) := by
  have hgot : (brokerClientGetData ownerOps handOver w.broker w.owner (some c)).1
      = some (w.version o) := by
    rw [getData_of_some ownerOps handOver w.owner h]
    unfold World.version
    cases (w.broker.bobj (.obj o)).flags.delete <;> rfl
  simp [World.clientGetData, hgot]

/-- A read leaves the owner's data, clock and locks alone. -/
theorem getData_owner (s : Owner Obj Data) (b : Broker Obj Cl) (c : Cl) :
    (brokerClientGetData ownerOps (@handOver Obj Cl Data) b s (some c)).2.2.data = s.data ∧
    (brokerClientGetData ownerOps (@handOver Obj Cl Data) b s (some c)).2.2.now = s.now ∧
    (brokerClientGetData ownerOps (@handOver Obj Cl Data) b s (some c)).2.2.locked = s.locked := by
  cases h : brokerGetNextDataObj b (.client c) with
  | none =>
    rw [getData_of_none ownerOps handOver s h]
    exact ⟨rfl, rfl, rfl⟩
  | some r =>
    rw [getData_of_some ownerOps handOver s h]
    dsimp only
    split_ifs
    · cases r <;> exact ⟨rfl, rfl, rfl⟩
    · exact ⟨rfl, rfl, rfl⟩

end Read

/-! ## The queue along a run -/

section Queue

variable {w w' : World Obj Cl Data} {a : Call Obj Cl Data}

theorem call_linked (h : w.call a = some w') (hl : w.broker.Linked) : w'.broker.Linked := by
  cases a with
  | addObj o d =>
    obtain ⟨ho, rfl⟩ := call_addObj.mp h
    exact hl.addObj ownerOps ho (w.owner.store o d) 0
  | updObj o d =>
    obtain ⟨ho, rfl⟩ := call_updObj.mp h
    exact hl.updObj ho
  | delObj o d =>
    obtain ⟨ho, rfl⟩ := call_delObj.mp h
    exact hl.delObj ownerOps ho _
  | delObjNow o =>
    obtain ⟨-, rfl⟩ := call_delObjNow.mp h
    exact hl.delObjNow ownerOps w.owner
  | clientCreate c name =>
    obtain ⟨hc, rfl⟩ := call_clientCreate.mp h
    exact hl.clientCreate hc name
  | clientDelete c =>
    obtain ⟨-, rfl⟩ := call_clientDelete.mp h
    exact hl.clientDelete ownerOps _ c
  | clientGetData c =>
    obtain ⟨-, rfl⟩ := call_clientGetData.mp h
    exact hl.getData ownerOps handOver _ _

/-- Ids are only ever counted up. -/
theorem call_increments_le (h : w.call a = some w') (hl : w.broker.Linked) :
    w.broker.increments ≤ w'.broker.increments := by
  cases a with
  | addObj o d =>
    obtain ⟨-, rfl⟩ := call_addObj.mp h
    exact Nat.le_succ _
  | updObj o d =>
    obtain ⟨-, rfl⟩ := call_updObj.mp h
    simp [World.updObj, World.after, brokerUpdObj_eq]
  | delObj o d =>
    obtain ⟨-, rfl⟩ := call_delObj.mp h
    simp [World.delObj, World.after, delObj_increments]
  | delObjNow o =>
    obtain ⟨-, rfl⟩ := call_delObjNow.mp h
    exact le_refl _
  | clientCreate c name =>
    obtain ⟨-, rfl⟩ := call_clientCreate.mp h
    simp [World.clientCreate, World.after]
  | clientDelete c =>
    obtain ⟨-, rfl⟩ := call_clientDelete.mp h
    simp [World.clientDelete, World.after, hl]
  | clientGetData c =>
    obtain ⟨-, rfl⟩ := call_clientGetData.mp h
    simp [World.clientGetData, World.after]

theorem call_ordered (h : w.call a = some w') (hw : w'.broker.increments < 2 ^ 64)
    (hb : w.broker.Ordered) : w'.broker.Ordered := by
  cases a with
  | addObj o d =>
    obtain ⟨ho, rfl⟩ := call_addObj.mp h
    exact hb.addObj ownerOps ho (w.owner.store o d) 0 hw
  | updObj o d =>
    obtain ⟨ho, rfl⟩ := call_updObj.mp h
    exact hb.updObj ho (by simpa [World.updObj, World.after, brokerUpdObj_eq] using hw)
  | delObj o d =>
    obtain ⟨ho, rfl⟩ := call_delObj.mp h
    exact hb.delObj ownerOps ho _ hw
  | delObjNow o =>
    obtain ⟨-, rfl⟩ := call_delObjNow.mp h
    exact hb.delObjNow ownerOps w.owner o
  | clientCreate c name =>
    obtain ⟨hc, rfl⟩ := call_clientCreate.mp h
    exact hb.clientCreate hc name
  | clientDelete c =>
    obtain ⟨-, rfl⟩ := call_clientDelete.mp h
    exact hb.clientDelete ownerOps _ c
  | clientGetData c =>
    obtain ⟨-, rfl⟩ := call_clientGetData.mp h
    exact hb.getData ownerOps handOver _ _

end Queue

/-- **The invariant rule for runs of a broker.**  As long as the ids do not wrap, a
run keeps the queue in order, and with it every `I` that the calls of the run keep
when they start from an ordered queue. -/
theorem run_invariant {d₀ : Obj → Data} {I : World Obj Cl Data → Prop}
    {as : List (Call Obj Cl Data)} {w : World Obj Cl Data}
    (h : (brokerSystem Cl d₀).exec (World.start d₀) as = some w)
    (hw : w.broker.increments < 2 ^ 64) (h0 : I (World.start d₀))
    (hstep : ∀ a ∈ as, ∀ v v', v.call a = some v' → v.broker.Ordered → v'.broker.Ordered →
      I v → I v') :
    w.broker.Ordered ∧ I w := by
  -- the counter never goes back, so the bound at the end holds all along the run
  have hrun : w.broker.Linked ∧ (w.broker.increments < 2 ^ 64 → w.broker.Ordered ∧ I w) := by
    refine System.exec_induction_of_mem (M := brokerSystem Cl d₀)
      (P := fun w => w.broker.Linked ∧ (w.broker.increments < 2 ^ 64 → w.broker.Ordered ∧ I w))
      ?_ h ⟨linked_create, fun _ => ⟨ordered_create, h0⟩⟩
    rintro a ha v v' ⟨hl, hv⟩ hcall
    refine ⟨call_linked hcall hl, fun hv' => ?_⟩
    obtain ⟨hb, hi⟩ := hv (lt_of_le_of_lt (call_increments_le hcall hl) hv')
    have hb' := call_ordered hcall hv' hb
    exact ⟨hb', hstep a ha v v' hcall hb hb' hi⟩
  exact hrun.2 hw

/-! ## Locks -/

section Locks

/-- The recorded unlocks of a sweep. -/
theorem unlocked_foldl (rs : List (Ref Obj Cl)) (s : Owner Obj Data) (o : Obj) :
    (rs.foldl (fun s r => (@ownerOps Obj Cl Data).unlockObj r s) s).unlocked.count o
      = s.unlocked.count o + rs.count (.obj o) := by
  induction rs generalizing s with
  | nil => rfl
  | cons r rs ih =>
    rw [List.foldl_cons, ih]
    cases r with
    | obj o' =>
      by_cases he : o' = o
      · simp [ownerOps, he]
        omega
      · simp [ownerOps, he]
    | client c => simp [ownerOps]

omit [DecidableEq Obj] [DecidableEq Cl] in
/-- A sweep touches neither the data nor the clock nor the locks of the owner. -/
theorem foldl_unlockObj (rs : List (Ref Obj Cl)) (s : Owner Obj Data) :
    (rs.foldl (fun s r => (@ownerOps Obj Cl Data).unlockObj r s) s).data = s.data ∧
      (rs.foldl (fun s r => (@ownerOps Obj Cl Data).unlockObj r s) s).now = s.now ∧
      (rs.foldl (fun s r => (@ownerOps Obj Cl Data).unlockObj r s) s).locked = s.locked := by
  induction rs generalizing s with
  | nil => exact ⟨rfl, rfl, rfl⟩
  | cons r rs ih =>
    obtain ⟨h1, h2, h3⟩ := ih ((@ownerOps Obj Cl Data).unlockObj r s)
    cases r <;> exact ⟨h1, h2, h3⟩

variable {w w' : World Obj Cl Data} {a : Call Obj Cl Data}

/-- **A call unlocks exactly the objects it unlinks, each once.** -/
theorem call_unlocked (h : w.call a = some w') (hl : w.broker.Linked) (o : Obj) :
    w'.owner.unlocked.count o = w.owner.unlocked.count o
      + if w.broker.Listed o ∧ ¬ w'.broker.Listed o then 1 else 0 := by
  cases a with
  | addObj o' d =>
    obtain ⟨-, rfl⟩ := call_addObj.mp h
    have hlist := listed_addObj (@ownerOps Obj Cl Data) w.broker (w.owner.store o' d) 0 (o := o') o
    rw [if_neg (fun hn => hn.2 (hlist.mpr (Or.inl hn.1)))]
    rfl
  | updObj o' d =>
    obtain ⟨ho, rfl⟩ := call_updObj.mp h
    rw [if_neg (fun hn => hn.2 ((listed_updObj hl ho o).mpr hn.1))]
    rfl
  | delObj o' d =>
    obtain ⟨ho, rfl⟩ := call_delObj.mp h
    by_cases hc : w.broker.clientList = []
    · simp only [World.delObj, World.after, Owner.tick, brokerDelObj_of_no_clients ownerOps hc,
        listed_delObjNow ownerOps hl]
      by_cases he : o' = o
      · subst he
        simp [ho, brokerDelObjNow, ownerOps, Owner.store]
      · simp [he, Ne.symm he, brokerDelObjNow, ownerOps, Owner.store]
    · simp only [World.delObj, World.after, Owner.tick, brokerDelObj_of_clients ownerOps hc]
      rw [if_neg (fun hn => hn.2 ((listed_moveToTail (hl.setDelete _ _) ho o).mpr hn.1))]
      rfl
  | delObjNow o' =>
    obtain ⟨ho, rfl⟩ := call_delObjNow.mp h
    simp only [World.delObjNow, World.after, Owner.tick, listed_delObjNow ownerOps hl]
    by_cases he : o' = o
    · subst he
      simp [ho, brokerDelObjNow, ownerOps]
    · simp [he, Ne.symm he, brokerDelObjNow, ownerOps]
  | clientCreate c name =>
    obtain ⟨-, rfl⟩ := call_clientCreate.mp h
    rw [if_neg (fun hn => hn.2 ((listed_clientCreate w.broker c name o).mpr hn.1))]
    rfl
  | clientDelete c =>
    obtain ⟨-, rfl⟩ := call_clientDelete.mp h
    simp only [World.clientDelete, World.after, Owner.tick, listed_clientDelete ownerOps hl]
    rw [clientDelete_eq ownerOps hl]
    simp only [unlocked_foldl]
    -- the sweep unlocks the reclaimable entries, of which none occurs twice
    have hn : (w.broker.withoutClient c).objList.Nodup := (hl.withoutClient c).nodup
    have hmem : Ref.obj o ∈ (w.broker.withoutClient c).objList ↔ w.broker.Listed o :=
      (mem_remove hl.nodup).trans (by simp [Listed])
    rw [(hn.filter _).count]
    congr 1
    refine if_congr ?_ rfl rfl
    rw [List.mem_filter, hmem, not_and, Bool.not_eq_false]
    exact ⟨fun h => ⟨h.1, fun _ => h.2⟩, fun h => ⟨h.1, h.2 h.1⟩⟩
  | clientGetData c =>
    obtain ⟨-, rfl⟩ := call_clientGetData.mp h
    cases hnext : brokerGetNextDataObj w.broker (.client c) with
    | none =>
      simp only [World.clientGetData, World.after, Owner.tick,
        getData_of_none ownerOps handOver w.owner hnext]
      rw [if_neg (fun hn => hn.2 hn.1)]
      rfl
    | some r =>
      obtain ⟨o', rfl, hp, -⟩ := getNextDataObj_eq_some hl hnext
      simp only [World.clientGetData, World.after, Owner.tick,
        listed_getData ownerOps handOver hl _ hnext]
      rw [getData_of_some ownerOps handOver w.owner hnext]
      have hr : ((w.broker.bobj (.obj o')).flags.delete
          && noClientsNeedThis (w.broker.advance c (.obj o')) (.obj o'))
          = w.broker.reclaimedBy c o' := rfl
      simp only [hr]
      by_cases hrec : w.broker.reclaimedBy c o' = true
      · by_cases he : o' = o
        · subst he
          simp [hrec, hp.listed, ownerOps]
        · simp [hrec, he, Ne.symm he, ownerOps]
      · simp [hrec]

/-- A call locks exactly the objects it links for the first time. -/
theorem call_locked (h : w.call a = some w') (hl : w.broker.Linked) (o : Obj) :
    w'.owner.locked.count o = w.owner.locked.count o
      + if ¬ w.broker.Listed o ∧ w'.broker.Listed o then 1 else 0 := by
  cases a with
  | addObj o' d =>
    obtain ⟨ho, rfl⟩ := call_addObj.mp h
    have hlist := listed_addObj (@ownerOps Obj Cl Data) w.broker (w.owner.store o' d) 0 (o := o') o
    simp only [World.addObj, World.after, Owner.tick, hlist]
    by_cases he : o' = o
    · subst he
      simp [ho, brokerAddObj, ownerOps, Owner.store]
    · simp [he, Ne.symm he, brokerAddObj, ownerOps, Owner.store]
  | updObj o' d =>
    obtain ⟨ho, rfl⟩ := call_updObj.mp h
    rw [if_neg (fun hn => hn.1 ((listed_updObj hl ho o).mp hn.2))]
    rfl
  | delObj o' d =>
    obtain ⟨ho, rfl⟩ := call_delObj.mp h
    by_cases hc : w.broker.clientList = []
    · simp only [World.delObj, World.after, Owner.tick, brokerDelObj_of_no_clients ownerOps hc]
      rw [if_neg (fun hn => hn.1 ((listed_delObjNow ownerOps hl _ o).mp hn.2).1)]
      rfl
    · simp only [World.delObj, World.after, Owner.tick, brokerDelObj_of_clients ownerOps hc]
      rw [if_neg (fun hn => hn.1 ((listed_moveToTail (hl.setDelete _ _) ho o).mp hn.2))]
      rfl
  | delObjNow o' =>
    obtain ⟨-, rfl⟩ := call_delObjNow.mp h
    rw [if_neg (fun hn => hn.1 ((listed_delObjNow ownerOps hl w.owner o).mp hn.2).1)]
    rfl
  | clientCreate c name =>
    obtain ⟨-, rfl⟩ := call_clientCreate.mp h
    rw [if_neg (fun hn => hn.1 ((listed_clientCreate w.broker c name o).mp hn.2))]
    rfl
  | clientDelete c =>
    obtain ⟨-, rfl⟩ := call_clientDelete.mp h
    rw [if_neg (fun hn => hn.1 ((listed_clientDelete ownerOps hl _ c o).mp hn.2).1)]
    simp only [World.clientDelete, World.after, Owner.tick]
    rw [clientDelete_eq ownerOps hl]
    simp only [(foldl_unlockObj _ _).2.2, Nat.add_zero]
  | clientGetData c =>
    obtain ⟨-, rfl⟩ := call_clientGetData.mp h
    have hlist : (w.clientGetData c).broker.Listed o → w.broker.Listed o := by
      cases hnext : brokerGetNextDataObj w.broker (.client c) with
      | none =>
        simp only [World.clientGetData, World.after,
          getData_of_none ownerOps handOver w.owner hnext]
        exact id
      | some r =>
        obtain ⟨o', rfl, -, -⟩ := getNextDataObj_eq_some hl hnext
        exact fun h => ((listed_getData ownerOps handOver hl _ hnext o).mp h).1
    rw [if_neg (fun hn => hn.1 (hlist hn.2))]
    show (brokerClientGetData ownerOps handOver w.broker w.owner (some c)).2.2.locked.count o = _
    rw [(getData_owner w.owner w.broker c).2.2, Nat.add_zero]

end Locks

/-! ## The order of the queue -/

theorem reachable_ordered {d₀ : Obj → Data} {w : World Obj Cl Data}
    (h : (brokerSystem Cl d₀).Reachable w) (hw : w.broker.increments < 2 ^ 64) :
    w.broker.Ordered := by
  obtain ⟨as, has⟩ := h
  exact (run_invariant has hw (I := fun _ => True) trivial (fun _ _ _ _ _ _ _ _ => trivial)).1

/-- The broker holds one lock on every listed object and none on the others. -/
theorem reachable_locks {d₀ : Obj → Data} {w : World Obj Cl Data}
    (h : (brokerSystem Cl d₀).Reachable w) (o : Obj) :
    w.owner.locked.count o
      = w.owner.unlocked.count o + if w.broker.Listed o then 1 else 0 := by
  have hrun : w.broker.Linked ∧ w.owner.locked.count o
      = w.owner.unlocked.count o + if w.broker.Listed o then 1 else 0 := by
    refine System.Reachable.induction (M := brokerSystem Cl d₀) (P := fun w => w.broker.Linked ∧
      w.owner.locked.count o = w.owner.unlocked.count o + if w.broker.Listed o then 1 else 0)
      ⟨linked_create, rfl⟩ ?_ h
    rintro v a v' ⟨hl, hv⟩ hcall
    refine ⟨call_linked hcall hl, ?_⟩
    -- an object comes with a lock and goes with an unlock
    rw [call_locked hcall hl o, call_unlocked hcall hl o, hv]
    by_cases h1 : v.broker.Listed o <;> by_cases h2 : v'.broker.Listed o <;> simp [h1, h2]
  exact hrun.2

/-- **Order and cursors.**  In every state one broker can reach with fewer than
`2^64` increments of its id:

* every client has its cursor in the queue exactly once, there are no other
  cursors, and every object is in the queue as often as it is locked, at most once;
* the ids of the data objects strictly increase from head to tail, and no object
  and no client is ahead of `broker->id`;
* the id of a client separates the objects before its cursor from those after it.

So `no_clients_need_this` succeeds for a listed object exactly if no cursor
precedes it. -/
theorem order_and_cursors {d₀ : Obj → Data} {w : World Obj Cl Data}
    (h : (brokerSystem Cl d₀).Reachable w) (hw : w.broker.increments < 2 ^ 64) :
    (∀ c, w.broker.objList.count (.client c) = if c ∈ w.broker.clientList then 1 else 0) ∧
    (∀ o, w.broker.objList.count (.obj o) ≤ 1 ∧
      w.owner.locked.count o = w.owner.unlocked.count o + w.broker.objList.count (.obj o)) ∧
    w.broker.clientList.Nodup ∧
    (∀ o o', Precedes w.broker.objList (.obj o) (.obj o') →
      (w.broker.bobj (.obj o)).id < (w.broker.bobj (.obj o')).id) ∧
    (∀ o, w.broker.Listed o → (w.broker.bobj (.obj o)).id ≤ w.broker.id) ∧
    (∀ c ∈ w.broker.clientList, (w.broker.bobj (.client c)).id ≤ w.broker.id) ∧
    (∀ c o, Precedes w.broker.objList (.obj o) (.client c) →
      (w.broker.bobj (.obj o)).id ≤ (w.broker.bobj (.client c)).id) ∧
    (∀ c o, Precedes w.broker.objList (.client c) (.obj o) →
      (w.broker.bobj (.client c)).id < (w.broker.bobj (.obj o)).id) ∧
    (∀ o, w.broker.Listed o → (noClientsNeedThis w.broker (.obj o) = true ↔
      ∀ c, ¬ Precedes w.broker.objList (.client c) (.obj o))) := by
  have hb := reachable_ordered h hw
  refine ⟨fun c => ?_, fun o => ⟨?_, ?_⟩, hb.clients_nodup, fun o o' => hb.order _ _,
    fun o ho => hb.id_le _ ho, fun c hc => hb.id_le _ ((hb.cursor_mem c).mpr hc),
    fun c o => hb.order _ _, fun c o => hb.order _ _, fun o ho => hb.noClientsNeedThis_iff ho⟩
  · rw [hb.nodup.count]
    exact if_congr (hb.cursor_mem c) rfl rfl
  · exact List.nodup_iff_count_le_one.mp hb.nodup _
  · rw [reachable_locks h o, hb.nodup.count]
    rfl

/-- The theorem at a run with two clients, a change, a delete and a read. -/
theorem order_and_cursors_two_clients :
    ∃ w, (brokerSystem ℕ fun _ : ℕ => 0).exec (World.start fun _ => 0) [.clientCreate 0 "dp",
        .addObj 7 1, .addObj 8 1, .clientGetData 0, .clientCreate 1 "kernel", .delObj 7 2]
        = some w ∧
      w.broker.objList = [.client 1, .client 0, .obj 8, .obj 7] ∧
      (noClientsNeedThis w.broker (.obj 7) = true ↔
        ∀ c, ¬ Precedes w.broker.objList (.client c) (.obj 7)) := by
  obtain ⟨w, hexec, hp⟩ := (brokerSystem ℕ fun _ : ℕ => 0).exists_of_exec_any
    (World.start fun _ => 0) [.clientCreate 0 "dp",
        .addObj 7 1, .addObj 8 1, .clientGetData 0, .clientCreate 1 "kernel", .delObj 7 2]
    (fun w => w.broker.increments < 2 ^ 64
      ∧ w.broker.objList = [.client 1, .client 0, .obj 8, .obj 7]) (by decide +kernel)
  rw [decide_eq_true_eq] at hp
  obtain ⟨hw, hlist⟩ := hp
  refine ⟨w, hexec, hlist, ?_⟩
  exact (order_and_cursors ⟨_, hexec⟩ hw).2.2.2.2.2.2.2.2 7 (by rw [Listed, hlist]; decide)
