/-
# Runs of one broker on the links

`BrokerRun.lean` has the runs of a broker whose queues are lists.  Here the same
calls, in the same world, run on the links: the guard of a call asks what is linked
at the moment, and a call fails besides when it follows a link it must not follow or
does not end within the rounds it is given.

Main result: `runs_on_links`.  Whatever is in the memory `broker_create` gets, every
list of calls does on the links what it does on the lists.  So a run follows no link
of an entry that is in no queue, each of its loops ends, and what the other modules
prove about the lists, they prove about the links.
-/
import RouteBroker.BrokerLinks

open Circleq Broker

/-- `World` with the broker in memory. -/
structure LinkWorld (Obj Cl Data : Type*) where
  broker : LinkBroker Obj Cl
  owner : Owner Obj Data
  deletedAt : Obj → ℕ
  received : Cl → List (Delivery Obj Data)

variable {Obj Cl Data : Type*}

namespace LinkWorld

/-- The world after a call that left the broker and the owner as `bs`. -/
def after (v : LinkWorld Obj Cl Data) (bs : LinkBroker Obj Cl × Owner Obj Data) :
    LinkWorld Obj Cl Data :=
  { v with broker := bs.1, owner := bs.2.tick }

/-- The object is linked. -/
def listed (v : LinkWorld Obj Cl Data) (o : Obj) : Bool := v.broker.objList.member (.obj o)

/-- The client is linked. -/
def registered (v : LinkWorld Obj Cl Data) (c : Cl) : Bool := v.broker.clientList.member c

variable [DecidableEq Obj] [DecidableEq Cl]

/-- `World.addObj`. -/
def addObj (v : LinkWorld Obj Cl Data) (o : Obj) (d : Data) : Option (LinkWorld Obj Cl Data) :=
  (brokerAddObjLinks ownerOps v.broker (v.owner.store o d) o 0).map v.after

/-- `World.updObj`. -/
def updObj (v : LinkWorld Obj Cl Data) (o : Obj) (d : Data) : Option (LinkWorld Obj Cl Data) :=
  (brokerUpdObjLinks v.broker o).map fun b => v.after (b, v.owner.store o d)

/-- `World.delObj`. -/
def delObj (v : LinkWorld Obj Cl Data) (o : Obj) (d : Data) : Option (LinkWorld Obj Cl Data) :=
  (brokerDelObjLinks ownerOps v.broker (v.owner.store o d) o).map fun bs =>
    { v.after bs with deletedAt := Function.update v.deletedAt o v.owner.now }

/-- `World.delObjNow`. -/
def delObjNow (v : LinkWorld Obj Cl Data) (o : Obj) : Option (LinkWorld Obj Cl Data) :=
  (brokerDelObjNowLinks ownerOps v.broker v.owner (.obj o)).map v.after

/-- `World.clientCreate`. -/
def clientCreate (fuel : ℕ) (v : LinkWorld Obj Cl Data) (c : Cl) (name : String) :
    Option (LinkWorld Obj Cl Data) :=
  (brokerClientCreateLinks fuel v.broker c name).map fun b =>
    { v.after (b, v.owner) with received := Function.update v.received c [] }

/-- `World.clientDelete`. -/
def clientDelete (fuel : ℕ) (v : LinkWorld Obj Cl Data) (c : Cl) :
    Option (LinkWorld Obj Cl Data) :=
  (brokerClientDeleteLinks ownerOps fuel v.broker v.owner c).map v.after

/-- `World.clientGetData`. -/
def clientGetData (fuel : ℕ) (v : LinkWorld Obj Cl Data) (c : Cl) :
    Option (LinkWorld Obj Cl Data) :=
  (brokerClientGetDataLinks ownerOps handOver fuel v.broker v.owner c).map fun r =>
    { v.after r.2 with
      received := Function.update v.received c (v.received c ++ r.1.toList) }

/-- One call, with so many rounds for each loop. -/
def call (fuel : ℕ) (v : LinkWorld Obj Cl Data) : Call Obj Cl Data → Option (LinkWorld Obj Cl Data)
  | .addObj o d => if v.listed o then none else v.addObj o d
  | .updObj o d => if v.listed o then v.updObj o d else none
  | .delObj o d => if v.listed o then v.delObj o d else none
  | .delObjNow o => if v.listed o then v.delObjNow o else none
  | .clientCreate c name => if v.registered c then none else v.clientCreate fuel c name
  | .clientDelete c => if v.registered c then v.clientDelete fuel c else none
  | .clientGetData c => if v.registered c then v.clientGetData fuel c else none

/-- A new broker, made from whatever was in the memory of its queue heads. -/
def start (m : Links (Ref Obj Cl)) (m' : Links Cl) (d₀ : Obj → Data) : LinkWorld Obj Cl Data where
  broker := brokerCreateLinks m m'
  owner := { data := d₀, locked := [], unlocked := [], now := 1 }
  deletedAt := fun _ => 0
  received := fun _ => []

end LinkWorld

variable [DecidableEq Obj] [DecidableEq Cl]

/-- All runs of one broker on the links. -/
def linkSystem (fuel : ℕ) (m : Links (Ref Obj Cl)) (m' : Links Cl) (d₀ : Obj → Data) :
    System (LinkWorld Obj Cl Data) (Call Obj Cl Data) where
  init := LinkWorld.start m m' d₀
  step := LinkWorld.call fuel

/-! ## The two worlds -/

/-- The broker in memory is the broker of `w`, and the rest of the world is the same. -/
structure LinkWorld.Represents {Obj Cl Data : Type*} (v : LinkWorld Obj Cl Data)
    (w : World Obj Cl Data) : Prop where
  broker : v.broker.Represents w.broker
  owner : v.owner = w.owner
  deletedAt : v.deletedAt = w.deletedAt
  received : v.received = w.received

section Calls

variable {v : LinkWorld Obj Cl Data} {w w' : World Obj Cl Data} {o : Obj} {c : Cl} {d : Data}
  {fuel : ℕ}

omit [DecidableEq Obj] [DecidableEq Cl] in
/-- The links and the list have the same objects. -/
theorem LinkWorld.Represents.listed (h : v.Represents w) (o : Obj) :
    v.listed o = true ↔ w.broker.Listed o := h.broker.objList.member (.obj o)

omit [DecidableEq Obj] [DecidableEq Cl] in
/-- The links and the list have the same clients. -/
theorem LinkWorld.Represents.registered (h : v.Represents w) (c : Cl) :
    v.registered c = true ↔ c ∈ w.broker.clientList := h.broker.clientList.member c

omit [DecidableEq Obj] [DecidableEq Cl] in
theorem LinkWorld.Represents.after (h : v.Represents w) {b : LinkBroker Obj Cl}
    {bs : Broker Obj Cl × Owner Obj Data} (hb : b.Represents bs.1) :
    (v.after (b, bs.2)).Represents (w.after bs) :=
  ⟨hb, rfl, h.deletedAt, h.received⟩

/-- The two worlds start alike. -/
theorem represents_start (m : Links (Ref Obj Cl)) (m' : Links Cl) (d₀ : Obj → Data) :
    (LinkWorld.start m m' d₀).Represents (World.start d₀) :=
  ⟨represents_create m m', rfl, rfl, rfl⟩

/-! Every allowed call succeeds on the links. -/

/-- Each step of the one world is a step of the other one: here `broker_add_obj`, with no walk. -/
theorem LinkWorld.Represents.addObj (h : v.Represents w) (ho : ¬ w.broker.Listed o) :
    Option.Rel LinkWorld.Represents (v.addObj o d) (some (w.addObj o d)) := by
  obtain ⟨b, hb, hrep⟩ := brokerAddObjLinks_eq ownerOps h.broker ho (w.owner.store o d) 0
  unfold LinkWorld.addObj
  rw [h.owner, hb]
  exact .some (h.after hrep)

theorem LinkWorld.Represents.updObj (h : v.Represents w) (ho : w.broker.Listed o) :
    Option.Rel LinkWorld.Represents (v.updObj o d) (some (w.updObj o d)) := by
  obtain ⟨b, hb, hrep⟩ := brokerUpdObjLinks_eq h.broker ho
  unfold LinkWorld.updObj
  rw [h.owner, hb]
  exact .some ⟨hrep, rfl, h.deletedAt, h.received⟩

theorem LinkWorld.Represents.delObj (h : v.Represents w) (ho : w.broker.Listed o) :
    Option.Rel LinkWorld.Represents (v.delObj o d) (some (w.delObj o d)) := by
  obtain ⟨b, hb, hrep⟩ := brokerDelObjLinks_eq ownerOps h.broker ho (w.owner.store o d)
  unfold LinkWorld.delObj
  rw [h.owner, hb]
  refine .some ⟨hrep, rfl, ?_, h.received⟩
  show Function.update v.deletedAt o w.owner.now = Function.update w.deletedAt o w.owner.now
  rw [h.deletedAt]

theorem LinkWorld.Represents.delObjNow (h : v.Represents w) (ho : w.broker.Listed o) :
    Option.Rel LinkWorld.Represents (v.delObjNow o) (some (w.delObjNow o)) := by
  obtain ⟨b, hb, hrep⟩ := brokerDelObjNowLinks_eq ownerOps h.broker ho w.owner
  unfold LinkWorld.delObjNow
  rw [h.owner, hb]
  exact .some (h.after hrep)

/-- The new cursor goes to the head; the walk looks for something to read behind it. -/
theorem LinkWorld.Represents.clientCreate (h : v.Represents w) (hl : w.broker.Linked)
    (hc : c ∉ w.broker.clientList) (name : String) (hf : w.broker.objList.length + 1 < fuel) :
    Option.Rel LinkWorld.Represents (v.clientCreate fuel c name)
      (some (w.clientCreate c name)) := by
  obtain ⟨b, hb, hrep⟩ := brokerClientCreateLinks_eq h.broker hl hc name hf
  unfold LinkWorld.clientCreate
  rw [h.owner, hb]
  refine .some ⟨hrep, rfl, h.deletedAt, ?_⟩
  show Function.update v.received c [] = Function.update w.received c []
  rw [h.received]

/-- The walk of `broker_client_delete` goes along the links as far as the list goes. -/
theorem LinkWorld.Represents.clientDelete (h : v.Represents w) (hl : w.broker.Linked)
    (hc : c ∈ w.broker.clientList)
    (hf : w.broker.objList.length + w.broker.clientList.length < fuel) :
    Option.Rel LinkWorld.Represents (v.clientDelete fuel c) (some (w.clientDelete c)) := by
  obtain ⟨b, hb, hrep⟩ := brokerClientDeleteLinks_eq ownerOps h.broker hl hc hf w.owner
  unfold LinkWorld.clientDelete
  rw [h.owner, hb]
  exact .some (h.after hrep)

/-- The search for the next object comes to an end where it does in the list. -/
theorem LinkWorld.Represents.clientGetData (h : v.Represents w) (hl : w.broker.Linked)
    (hc : c ∈ w.broker.clientList)
    (hf : w.broker.objList.length + w.broker.clientList.length < fuel) :
    Option.Rel LinkWorld.Represents (v.clientGetData fuel c) (some (w.clientGetData c)) := by
  obtain ⟨b, hb, hrep⟩ := brokerClientGetDataLinks_eq ownerOps handOver h.broker hl hc hf w.owner
  unfold LinkWorld.clientGetData
  rw [h.owner, hb]
  refine .some ⟨hrep, rfl, h.deletedAt, ?_⟩
  show Function.update v.received c _ = Function.update w.received c _
  rw [h.received]

end Calls

/-! ## How far the queues grow -/

section Growth

variable {w w' : World Obj Cl Data} {a : Call Obj Cl Data}

omit [DecidableEq Cl] in
/-- An insertion adds at most one entry; none when its place is not there. -/
theorem length_insertAfter_le (l : List Obj) (a x : Obj) :
    (Circleq.insertAfter l a x).length ≤ l.length + 1 := by
  induction l with
  | nil => exact Nat.zero_le _
  | cons b l ih =>
    rw [Circleq.insertAfter]
    split_ifs
    · rfl
    · rw [List.length_cons, List.length_cons]
      omega

theorem moveToTail_length_le (b : Broker Obj Cl) (r : Ref Obj Cl) :
    (b.moveToTail r).objList.length ≤ b.objList.length + 1 := by
  rw [moveToTail_objList, Circleq.insertTail, List.length_append, List.length_singleton]
  apply Nat.add_le_add_right
  exact List.length_erase_le

theorem advance_length_le (b : Broker Obj Cl) (c : Cl) (r : Ref Obj Cl) :
    (b.advance c r).objList.length ≤ b.objList.length + 1 := by
  rw [advance_objList]
  apply (length_insertAfter_le _ _ _).trans
  apply Nat.add_le_add_right
  exact List.length_erase_le

/-- A read adds at most one entry, so that the fuel of the next walk is known. -/
theorem getData_length_le (s : Owner Obj Data) (b : Broker Obj Cl) (c : Cl) :
    (brokerClientGetData ownerOps (@handOver Obj Cl Data) b s (some c)).2.1.objList.length
      ≤ b.objList.length + 1 := by
  apply getData_cases ownerOps handOver (P := fun b' => b'.objList.length ≤ b.objList.length + 1)
  · exact Nat.le_succ _
  · intro c
    exact Nat.le_succ _
  · intro c r
    apply List.length_erase_le.trans
    exact advance_length_le b c r
  · intro c r
    exact advance_length_le b c r

/-- A call adds at most one entry to each queue. -/
theorem call_length_le (h : w.call a = some w') (hl : w.broker.Linked) :
    w'.broker.objList.length ≤ w.broker.objList.length + 1 ∧
      w'.broker.clientList.length ≤ w.broker.clientList.length + 1 := by
  cases a with
  | addObj o d =>
    obtain ⟨-, rfl⟩ := call_addObj.mp h
    refine ⟨le_of_eq ?_, Nat.le_succ _⟩
    exact List.length_append
  | updObj o d =>
    obtain ⟨-, rfl⟩ := call_updObj.mp h
    show (brokerUpdObj w.broker o).objList.length ≤ _ ∧
      (brokerUpdObj w.broker o).clientList.length ≤ _
    rw [brokerUpdObj_eq]
    exact ⟨moveToTail_length_le _ _, Nat.le_succ _⟩
  | delObj o d =>
    obtain ⟨-, rfl⟩ := call_delObj.mp h
    show (brokerDelObj ownerOps w.broker _ o).1.objList.length ≤ _ ∧
      (brokerDelObj ownerOps w.broker _ o).1.clientList.length ≤ _
    by_cases hc : w.broker.clientList = []
    · rw [brokerDelObj_of_no_clients ownerOps hc]
      exact ⟨List.length_erase_le.trans (Nat.le_succ _), Nat.le_succ _⟩
    · rw [brokerDelObj_of_clients ownerOps hc]
      exact ⟨moveToTail_length_le _ _, Nat.le_succ _⟩
  | delObjNow o =>
    obtain ⟨-, rfl⟩ := call_delObjNow.mp h
    exact ⟨List.length_erase_le.trans (Nat.le_succ _), Nat.le_succ _⟩
  | clientCreate c name =>
    obtain ⟨-, rfl⟩ := call_clientCreate.mp h
    simp [World.clientCreate, World.after]
  | clientDelete c =>
    obtain ⟨-, rfl⟩ := call_clientDelete.mp h
    show (brokerClientDelete ownerOps w.broker w.owner c).1.objList.length ≤ _ ∧
      (brokerClientDelete ownerOps w.broker w.owner c).1.clientList.length ≤ _
    rw [clientDelete_clientList, clientDelete_eq ownerOps hl]
    constructor
    · apply (List.length_filter_le _ _).trans
      exact List.length_erase_le.trans (Nat.le_succ _)
    · exact List.length_erase_le.trans (Nat.le_succ _)
  | clientGetData c =>
    obtain ⟨-, rfl⟩ := call_clientGetData.mp h
    refine ⟨getData_length_le w.owner w.broker c, ?_⟩
    show (brokerClientGetData ownerOps handOver w.broker w.owner (some c)).2.1.clientList.length ≤ _
    rw [getData_clientList]
    exact Nat.le_succ _

end Growth

/-! ## Runs on the links -/

/-- Two guarded calls are related if they are where the guards let them through. -/
theorem rel_ite {σ τ : Type*} {R : σ → τ → Prop} {p q : Prop} [Decidable p] [Decidable q]
    (hpq : p ↔ q) {x x' : Option σ} {y y' : Option τ} (hx : q → Option.Rel R x y)
    (hx' : ¬ q → Option.Rel R x' y') :
    Option.Rel R (if p then x else x') (if q then y else y') := by
  by_cases hq : q
  · rw [if_pos (hpq.mpr hq), if_pos hq]
    exact hx hq
  · rw [if_neg (mt hpq.mp hq), if_neg hq]
    exact hx' hq

/-- **One call on the links.**  It is allowed exactly when it is on the lists, and it
succeeds. -/
theorem call_related {v : LinkWorld Obj Cl Data} {w : World Obj Cl Data} (h : v.Represents w)
    (hl : w.broker.Linked) {fuel : ℕ}
    (hf : w.broker.objList.length + w.broker.clientList.length + 1 < fuel)
    (a : Call Obj Cl Data) : Option.Rel LinkWorld.Represents (v.call fuel a) (w.call a) := by
  cases a with
  | addObj o d => exact rel_ite (h.listed o) (fun _ => .none) h.addObj
  | updObj o d => exact rel_ite (h.listed o) h.updObj fun _ => .none
  | delObj o d => exact rel_ite (h.listed o) h.delObj fun _ => .none
  | delObjNow o => exact rel_ite (h.listed o) h.delObjNow fun _ => .none
  | clientCreate c name =>
    refine rel_ite (h.registered c) (fun _ => .none) fun hc => ?_
    exact h.clientCreate hl hc name (by omega)
  | clientDelete c =>
    refine rel_ite (h.registered c) (fun hc => ?_) fun _ => .none
    exact h.clientDelete hl hc (by omega)
  | clientGetData c =>
    refine rel_ite (h.registered c) (fun hc => ?_) fun _ => .none
    exact h.clientGetData hl hc (by omega)

/-- **Every run on the links is a run on the lists.**  Whatever was in the memory of
the queue heads: a list of calls, each loop of which may take twice as many rounds as
there are calls, is allowed on the links exactly when it is on the lists, and at its
end both queues are sound and hold what the lists hold. -/
theorem runs_on_links (m : Links (Ref Obj Cl)) (m' : Links Cl) (d₀ : Obj → Data)
    (as : List (Call Obj Cl Data)) {fuel : ℕ} (hf : 2 * as.length < fuel) :
    Option.Rel LinkWorld.Represents
      ((linkSystem fuel m m' d₀).exec (LinkWorld.start m m' d₀) as)
      ((brokerSystem Cl d₀).exec (World.start d₀) as) := by
  -- what is left of the rounds covers what the calls to come can add
  apply System.exec_rel (J := fun n w => w.broker.Linked ∧
    w.broker.objList.length + w.broker.clientList.length + 2 * n < fuel)
  · rintro n v w a hR ⟨hl, hlen⟩
    exact call_related hR hl (by omega) a
  · rintro n w a w' ⟨hl, hlen⟩ hcall
    obtain ⟨hobj, hcl⟩ := call_length_le hcall hl
    exact ⟨call_linked hcall hl, by omega⟩
  · exact represents_start m m' d₀
  · refine ⟨linked_create, ?_⟩
    show 0 + 0 + 2 * as.length < fuel
    omega

/-- At the end of every run on the links with fewer than `2^64` increments the queues
are those of an ordered broker. -/
theorem link_run_ordered {m : Links (Ref Obj Cl)} {m' : Links Cl} {d₀ : Obj → Data}
    {as : List (Call Obj Cl Data)} {fuel : ℕ} (hf : 2 * as.length < fuel)
    {v : LinkWorld Obj Cl Data}
    (h : (linkSystem fuel m m' d₀).exec (LinkWorld.start m m' d₀) as = some v)
    (hv : v.broker.increments < 2 ^ 64) : ∃ b, v.broker.Represents b ∧ b.Ordered := by
  have hrel := runs_on_links m m' d₀ as hf
  rw [h] at hrel
  cases hw : (brokerSystem Cl d₀).exec (World.start d₀) as with
  | none =>
    rw [hw] at hrel
    cases hrel
  | some w =>
    rw [hw] at hrel
    cases hrel with
    | some hrep =>
      rw [hrep.broker.increments] at hv
      exact ⟨w.broker, hrep.broker, reachable_ordered ⟨as, hw⟩ hv⟩
