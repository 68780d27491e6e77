/-
# Routes, levels and the hash table

What the operations of `Route.lean` do to the store.  `Sound` is the part of the
invariant that every single call of a function of `broker.c` keeps: a route is on the
heap exactly while it is listed, namely in the level `route->pri`, with one reference;
its data has its topic; and the hash table has no entry for anything else.  That the
mark of a route is the kind of its data (`Kind`) only holds between publishes, so it
is followed route by route, with `Touches` saying which route a call is about.

Whatever a client does, the store sees a sequence of cursor moves and of unlinkings of
tombstones (`Tidy`); so what these two keep, every read and every departure keeps.
-/
import RouteBroker.Route
import RouteBroker.BrokerQueue

open Circleq Broker

variable {Addr Cl Topic Data : Type*}

/-! ## Invariants -/

/-- Heap, levels and hash table fit together. -/
structure Sound (gen : Data → ℤ × Topic × Bool) (rb : RouteBroker Addr Cl Topic Data) : Prop where
  linked : ∀ i, (rb.level i).Linked
  listed : ∀ i a, (rb.level i).Listed a ↔ ∃ r, rb.store.heap a = some r ∧ r.pri = i
  refcount : ∀ a r, rb.store.heap a = some r → r.refcount = 1
  topic : ∀ a r, rb.store.heap a = some r → 0 < (gen r.data).1 ∧ (gen r.data).2.1 = r.topic
  hashed : ∀ t a, rb.store.hash t = some a → ∃ r, rb.store.heap a = some r ∧ r.topic = t

/-- The route at `a` is marked deleted exactly if its data says so. -/
def Kind (gen : Data → ℤ × Topic × Bool) (rb : RouteBroker Addr Cl Topic Data) (a : Addr) : Prop :=
  ∀ r, rb.store.heap a = some r → ((gen r.data).2.2 = true ↔ (rb.level r.pri).Deleted a)

/-- The registered clients are known in every level under their own name. -/
structure Wired (rb : RouteBroker Addr Cl Topic Data) : Prop where
  clients : ∀ i, (rb.level i).clientList = rb.clientList
  client : ∀ c ∈ rb.clientList, ∀ i, (rb.rclient c).client i = some c

/-- From `rb` to `rb'` at most the route at `a` changed, and no client did. -/
structure Touches (a : Addr) (rb rb' : RouteBroker Addr Cl Topic Data) : Prop where
  heap : ∀ a', a' ≠ a → rb'.store.heap a' = rb.store.heap a'
  deleted : ∀ i a', a' ≠ a → ((rb'.level i).Deleted a' ↔ (rb.level i).Deleted a')
  pending : ∀ i c a', a' ≠ a → ((rb'.level i).Pending c a' ↔ (rb.level i).Pending c a')
  clients : ∀ i, (rb'.level i).clientList = (rb.level i).clientList
  clientList : rb'.clientList = rb.clientList
  rclient : rb'.rclient = rb.rclient

/-- The clients and their places in the levels are the same. -/
structure SameClients (rb rb' : RouteBroker Addr Cl Topic Data) : Prop where
  rclient : rb'.rclient = rb.rclient
  clientList : rb'.clientList = rb.clientList
  levels : ∀ i, (rb'.level i).clientList = (rb.level i).clientList

section Invariants

variable {gen : Data → ℤ × Topic × Bool} {rb rb' rb'' : RouteBroker Addr Cl Topic Data} {a : Addr}

/-- The broker starts with nothing stored. -/
theorem sound_init : Sound gen (routeBrokerInit : RouteBroker Addr Cl Topic Data) where
  linked := fun _ => linked_create
  listed := fun _ _ => ⟨fun h => absurd h List.not_mem_nil, fun ⟨_, h, _⟩ => nomatch h⟩
  refcount := fun _ _ h => nomatch h
  topic := fun _ _ h => nomatch h
  hashed := fun _ _ h => nomatch h

theorem wired_init : Wired (routeBrokerInit : RouteBroker Addr Cl Topic Data) where
  clients := fun _ => rfl
  client := fun _ h => absurd h List.not_mem_nil

/-- A listed route is on the heap. -/
theorem Sound.heap_of_listed (hs : Sound gen rb) {i : Level} (h : (rb.level i).Listed a) :
    ∃ r, rb.store.heap a = some r ∧ r.pri = i := (hs.listed i a).mp h

/-- An allocated route is in the queue of its level. -/
theorem Sound.listed_of_heap (hs : Sound gen rb) {r : RibRoute Topic Data}
    (h : rb.store.heap a = some r) : (rb.level r.pri).Listed a := (hs.listed _ a).mpr ⟨r, h, rfl⟩

/-- An address that is free is not listed anywhere. -/
theorem Sound.not_listed (hs : Sound gen rb) (h : rb.store.heap a = none) (i : Level) :
    ¬ (rb.level i).Listed a := by
  intro hl
  obtain ⟨r, hr, -⟩ := hs.heap_of_listed hl
  rw [h] at hr
  exact nomatch hr

/-- Changes of the levels that list the same routes. -/
theorem Sound.relevel (hs : Sound gen rb) (hstore : rb'.store = rb.store)
    (hlinked : ∀ i, (rb'.level i).Linked)
    (hlist : ∀ i a, (rb'.level i).Listed a ↔ (rb.level i).Listed a) : Sound gen rb' where
  linked := hlinked
  listed := fun i a => by rw [hlist, hs.listed, hstore]
  refcount := by rw [hstore]; exact hs.refcount
  topic := by rw [hstore]; exact hs.topic
  hashed := by rw [hstore]; exact hs.hashed

/-- Nothing happened to the routes and the levels. -/
theorem Sound.of_eq (hs : Sound gen rb) (hstore : rb'.store = rb.store)
    (hlevel : rb'.level = rb.level) : Sound gen rb' := by
  apply hs.relevel hstore
  · rw [hlevel]
    exact hs.linked
  · intro i a
    rw [hlevel]

/-- The mark of a route is right as long as neither the route nor the mark changes. -/
theorem Kind.of_eq (h : Kind gen rb a) (hheap : rb'.store.heap a = rb.store.heap a)
    (hdel : ∀ i, (rb'.level i).Deleted a ↔ (rb.level i).Deleted a) : Kind gen rb' a := by
  intro r hr
  rw [hdel]
  exact h r (hheap ▸ hr)

/-- The marks of the other routes stay right. -/
theorem Touches.kind (ht : Touches a rb rb') {a' : Addr} (hne : a' ≠ a) (h : Kind gen rb a') :
    Kind gen rb' a' :=
  h.of_eq (ht.heap a' hne) (fun i => ht.deleted i a' hne)

theorem SameClients.refl (rb : RouteBroker Addr Cl Topic Data) : SameClients rb rb :=
  ⟨rfl, rfl, fun _ => rfl⟩

theorem SameClients.trans (h : SameClients rb rb') (h' : SameClients rb' rb'') :
    SameClients rb rb'' where
  rclient := h'.rclient.trans h.rclient
  clientList := h'.clientList.trans h.clientList
  levels := fun i => (h'.levels i).trans (h.levels i)

end Invariants

variable [DecidableEq Addr] [DecidableEq Cl] [DecidableEq Topic]

/-! ## One level -/

section Levels

variable (rb : RouteBroker Addr Cl Topic Data) (i j : Level)
  (bs bs' : Broker Addr Cl × Store Addr Topic Data)

omit [DecidableEq Addr] [DecidableEq Cl] [DecidableEq Topic] in
@[simp] theorem onLevel_store : (rb.onLevel i bs).store = bs.2 := rfl

omit [DecidableEq Addr] [DecidableEq Cl] [DecidableEq Topic] in
@[simp] theorem onLevel_level_self : (rb.onLevel i bs).level i = bs.1 :=
  Function.update_self _ _ _

omit [DecidableEq Addr] [DecidableEq Cl] [DecidableEq Topic] in
theorem onLevel_level_of_ne {i j : Level} (h : j ≠ i) : (rb.onLevel i bs).level j = rb.level j :=
  Function.update_of_ne h _ _

omit [DecidableEq Addr] [DecidableEq Cl] [DecidableEq Topic] in
@[simp] theorem onLevel_onLevel : (rb.onLevel i bs).onLevel i bs' = rb.onLevel i bs' := by
  unfold RouteBroker.onLevel
  rw [Function.update_idem]

end Levels

omit [DecidableEq Addr] [DecidableEq Cl] [DecidableEq Topic] in
/-- What holds of the new state of one level and of all the others holds of all. -/
theorem forall_onLevel {rb : RouteBroker Addr Cl Topic Data} {i : Level}
    {bs : Broker Addr Cl × Store Addr Topic Data} {P : Level → Broker Addr Cl → Prop}
    (hi : P i bs.1) (hne : ∀ j, j ≠ i → P j (rb.level j)) (j : Level) :
    P j ((rb.onLevel i bs).level j) := by
  by_cases hj : j = i
  · subst hj
    rw [onLevel_level_self]
    exact hi
  · rw [onLevel_level_of_ne rb bs hj]
    exact hne j hj

/-! ## The clients -/

section SameClients

variable {rb : RouteBroker Addr Cl Topic Data}

omit [DecidableEq Addr] [DecidableEq Cl] [DecidableEq Topic] in
/-- What keeps the clients of one level keeps all clients. -/
theorem sameClients_onLevel {i : Level} {bs : Broker Addr Cl × Store Addr Topic Data}
    (h : bs.1.clientList = (rb.level i).clientList) : SameClients rb (rb.onLevel i bs) :=
  ⟨rfl, rfl, forall_onLevel (P := fun j b => b.clientList = (rb.level j).clientList) h
    (fun _ _ => rfl)⟩

variable (rb) (i : Level) (a : Addr)

theorem sameClients_addObj (route : RibRoute Topic Data) : SameClients rb (rb.addObj a route) :=
  sameClients_onLevel rfl

theorem sameClients_delObjNow : SameClients rb (rb.delObjNow i a) := sameClients_onLevel rfl

theorem sameClients_delObj : SameClients rb (rb.delObj i a) := by
  apply sameClients_onLevel
  unfold brokerDelObj
  dsimp only
  split_ifs <;> rfl

omit [DecidableEq Topic] in
theorem sameClients_updObj : SameClients rb (rb.updObj i a) := by
  apply sameClients_onLevel
  show (brokerUpdObj (rb.level i) a).clientList = _
  rw [brokerUpdObj_eq]
  rfl

omit [DecidableEq Cl] [DecidableEq Topic] in
theorem sameClients_setData (r : RibRoute Topic Data) (d : Data) :
    SameClients rb (rb.setData a r d) := ⟨rfl, rfl, fun _ => rfl⟩

omit [DecidableEq Addr] [DecidableEq Cl] in
theorem sameClients_zhashInsert (t : Topic) : SameClients rb (rb.zhashInsert t a) :=
  ⟨rfl, rfl, fun _ => rfl⟩

end SameClients

/-! ## Unlinking -/

section Unlink

variable {gen : Data → ℤ × Topic × Bool} {rb : RouteBroker Addr Cl Topic Data} {a : Addr}
  {r : RibRoute Topic Data} {i : Level}

/-- The store without the route at `a`, whose topic is `t`. -/
def Store.free (s : Store Addr Topic Data) (a : Addr) (t : Topic) : Store Addr Topic Data where
  heap := Function.update s.heap a none
  hash := Function.update s.hash t none

omit [DecidableEq Cl] in
/-- A freed route is not found any more. -/
theorem free_hash_self (s : Store Addr Topic Data) (a : Addr) (t : Topic) :
    (s.free a t).hash t = none := by
  show Function.update s.hash t none t = none
  rw [Function.update_self]

omit [DecidableEq Cl] in
/-- The last reference frees the route. -/
theorem ribRouteDelete_of_heap (s : Store Addr Topic Data) (h : s.heap a = some r)
    (hr : r.refcount = 1) : ribRouteDelete a s = s.free a r.topic := by
  unfold ribRouteDelete Store.free
  simp [h, hr]

/-- A route that is unlinked is freed: the level had its only reference. -/
theorem delObjNow_store (hs : Sound gen rb) (h : rb.store.heap a = some r) (i : Level) :
    (rb.delObjNow i a).store = rb.store.free a r.topic :=
  ribRouteDelete_of_heap rb.store h (hs.refcount a r h)

/-- Unlinking a listed route frees it. -/
theorem Sound.delObjNow (hs : Sound gen rb) (ha : (rb.level i).Listed a) :
    Sound gen (rb.delObjNow i a) := by
  obtain ⟨r, hr, rfl⟩ := hs.heap_of_listed ha
  have hstore := delObjNow_store hs hr r.pri
  have hheap : ∀ a' r', (rb.delObjNow r.pri a).store.heap a' = some r' ↔
      a' ≠ a ∧ rb.store.heap a' = some r' := by
    intro a' r'
    rw [hstore]
    by_cases he : a' = a
    · simp [Store.free, he]
    · simp [Store.free, he]
  refine ⟨forall_onLevel ?_ (fun j _ => hs.linked j), fun j a' => ?_, fun a' r' h => ?_,
    fun a' r' h => ?_, fun t a' h => ?_⟩
  · exact (hs.linked _).delObjNow routeBrokerOps rb.store
  · have hlist : ((rb.delObjNow r.pri a).level j).Listed a' ↔ a' ≠ a ∧ (rb.level j).Listed a' := by
      refine forall_onLevel (P := fun j b => b.Listed a' ↔ a' ≠ a ∧ (rb.level j).Listed a') ?_
        (fun j hj => ?_) j
      · exact (listed_delObjNow routeBrokerOps (hs.linked _) rb.store a').trans and_comm
      · -- the route is listed in its own level only
        refine (and_iff_right_of_imp (fun h he => ?_)).symm
        obtain ⟨r', hr', rfl⟩ := hs.heap_of_listed h
        rw [he, hr] at hr'
        exact hj (by rw [Option.some.inj hr'])
    rw [hlist, hs.listed]
    simp only [hheap, and_assoc, exists_and_left]
  · exact hs.refcount a' r' ((hheap a' r').mp h).2
  · exact hs.topic a' r' ((hheap a' r').mp h).2
  -- the entry that goes is the one of the route that goes
  · rw [hstore] at h
    by_cases ht : t = r.topic
    · simp [Store.free, ht] at h
    · have h' : rb.store.hash t = some a' := by simpa [Store.free, ht] using h
      obtain ⟨r', hr', htop⟩ := hs.hashed t a' h'
      refine ⟨r', (hheap a' r').mpr ⟨fun he => ht ?_, hr'⟩, htop⟩
      rw [he, hr] at hr'
      rw [← htop, Option.some.inj hr']

/-- Unlinking a route leaves the others alone. -/
theorem touches_delObjNow (hs : Sound gen rb) (ha : (rb.level i).Listed a) :
    Touches a rb (rb.delObjNow i a) := by
  obtain ⟨r, hr, rfl⟩ := hs.heap_of_listed ha
  refine ⟨fun a' hne => ?_, fun j a' hne => ?_, fun j c a' hne => ?_, fun j => ?_, rfl, rfl⟩
  · rw [delObjNow_store hs hr]
    exact Function.update_of_ne hne _ _
  · exact forall_onLevel (P := fun j b => b.Deleted a' ↔ (rb.level j).Deleted a') Iff.rfl
      (fun _ _ => Iff.rfl) j
  · refine forall_onLevel (P := fun j b => b.Pending c a' ↔ (rb.level j).Pending c a') ?_
      (fun _ _ => Iff.rfl) j
    exact (pending_delObjNow routeBrokerOps (hs.linked _) rb.store c a').trans (and_iff_left hne)
  · exact (sameClients_delObjNow rb r.pri a).levels j

/-- What is unlinked has no kind any more. -/
theorem kind_delObjNow (hs : Sound gen rb) (ha : (rb.level i).Listed a)
    (hk : ∀ a', a' ≠ a → Kind gen rb a') (a' : Addr) : Kind gen (rb.delObjNow i a) a' := by
  by_cases he : a' = a
  · obtain ⟨r, hr, rfl⟩ := hs.heap_of_listed ha
    intro r' hr'
    rw [delObjNow_store hs hr, he] at hr'
    simp [Store.free] at hr'
  · exact (touches_delObjNow hs ha).kind he (hk a' he)

end Unlink

/-! ## Linking, marking and swapping the data -/

section Changes

variable {gen : Data → ℤ × Topic × Bool} {rb : RouteBroker Addr Cl Topic Data} {a : Addr}
  {route r : RibRoute Topic Data}

/-- A new route has the reference of its level. -/
theorem addObj_heap (rb : RouteBroker Addr Cl Topic Data) (a : Addr) (route : RibRoute Topic Data)
    (h0 : route.refcount = 0) : (rb.addObj a route).store.heap
      = Function.update rb.store.heap a (some { route with refcount := 1 }) := by
  show (ribRouteLock a _).heap = _
  unfold ribRouteLock
  simp [h0]

theorem addObj_hash (rb : RouteBroker Addr Cl Topic Data) (a : Addr) (route : RibRoute Topic Data) :
    (rb.addObj a route).store.hash = rb.store.hash := by
  show (ribRouteLock a _).hash = _
  unfold ribRouteLock
  simp

omit [DecidableEq Cl] [DecidableEq Topic] in
/-- What holds of every route on the heap and of a new one holds after a write. -/
theorem forall_heap_update {heap : Addr → Option (RibRoute Topic Data)}
    {P : RibRoute Topic Data → Prop} {a' : Addr} {r' : RibRoute Topic Data}
    (h' : Function.update heap a (some r) a' = some r')
    (h : ∀ a r, heap a = some r → P r) (hr : P r) : P r' := by
  by_cases he : a' = a
  · rw [he, Function.update_self] at h'
    exact Option.some.inj h' ▸ hr
  · rw [Function.update_of_ne he] at h'
    exact h a' r' h'

/-- Linking a new route at a free address. -/
theorem Sound.addObj (hs : Sound gen rb) (ha : rb.store.heap a = none) (h0 : route.refcount = 0)
    (hgen : 0 < (gen route.data).1 ∧ (gen route.data).2.1 = route.topic) :
    Sound gen (rb.addObj a route) := by
  have hheap := addObj_heap rb a route h0
  refine ⟨forall_onLevel ?_ (fun j _ => hs.linked j), fun j a' => ?_, fun a' r' h => ?_,
    fun a' r' h => ?_, fun t a' h => ?_⟩
  · exact (hs.linked _).addObj routeBrokerOps (hs.not_listed ha _) _ 0
  · have hlist : ((rb.addObj a route).level j).Listed a' ↔
        (rb.level j).Listed a' ∨ (a' = a ∧ route.pri = j) := by
      refine forall_onLevel (P := fun j b => b.Listed a' ↔ (rb.level j).Listed a' ∨
        (a' = a ∧ route.pri = j)) ?_ (fun j hj => ?_) j
      · refine (listed_addObj routeBrokerOps (rb.level route.pri) _ 0 a').trans ?_
        simp
      · simp [Ne.symm hj]
    rw [hlist, hheap]
    by_cases he : a' = a
    · subst he
      simp [hs.not_listed ha j]
    · rw [Function.update_of_ne he, hs.listed]
      simp [he]
  · rw [hheap] at h
    exact forall_heap_update h hs.refcount rfl
  · rw [hheap] at h
    exact forall_heap_update h hs.topic hgen
  · rw [addObj_hash] at h
    obtain ⟨r', hr', htop⟩ := hs.hashed t a' h
    refine ⟨r', ?_, htop⟩
    -- no entry leads to the new address yet
    rw [hheap, Function.update_of_ne (fun he => ?_)]
    · exact hr'
    · rw [he, ha] at hr'
      exact nomatch hr'

/-- A new route leaves the others alone. -/
theorem touches_addObj (hs : Sound gen rb) (h0 : route.refcount = 0) :
    Touches a rb (rb.addObj a route) := by
  refine ⟨fun a' hne => ?_, fun j a' hne => ?_, fun j c a' hne => ?_, fun j => ?_, rfl, rfl⟩
  · rw [addObj_heap rb a route h0]
    exact Function.update_of_ne hne _ _
  · refine forall_onLevel (P := fun j b => b.Deleted a' ↔ (rb.level j).Deleted a') ?_
      (fun _ _ => Iff.rfl) j
    exact (deleted_addObj routeBrokerOps (rb.level route.pri) _ 0 a').trans (and_iff_left hne)
  · refine forall_onLevel (P := fun j b => b.Pending c a' ↔ (rb.level j).Pending c a') ?_
      (fun _ _ => Iff.rfl) j
    refine (pending_addObj routeBrokerOps (hs.linked _) _ 0 c a').trans ?_
    simp [hne]
  · exact (sameClients_addObj rb a route).levels j

/-- A new route is not marked, and pending for every client. -/
theorem addObj_self (hs : Sound gen rb) :
    ¬ ((rb.addObj a route).level route.pri).Deleted a ∧
      ∀ c ∈ (rb.level route.pri).clientList,
        ((rb.addObj a route).level route.pri).Pending c a := by
  have hlevel : (rb.addObj a route).level route.pri = _ := onLevel_level_self rb route.pri _
  rw [hlevel]
  refine ⟨fun h => ?_, fun c hc => ?_⟩
  · exact ((deleted_addObj routeBrokerOps (rb.level route.pri) _ 0 a).mp h).2 rfl
  · exact (pending_addObj routeBrokerOps (hs.linked _) _ 0 c a).mpr (Or.inr ⟨hc, rfl⟩)

omit [DecidableEq Addr] [DecidableEq Cl] in
/-- A topic that is not in the table is put there. -/
theorem zhashInsert_store {t : Topic} (h : rb.store.hash t = none) (a : Addr) :
    (rb.zhashInsert t a).store
      = { rb.store with hash := Function.update rb.store.hash t (some a) } := by
  show rb.store.zhashInsert t a = _
  unfold Store.zhashInsert
  rw [h]

omit [DecidableEq Addr] [DecidableEq Cl] in
/-- It may be put there for a route of this topic. -/
theorem Sound.zhashInsert {t : Topic} (hs : Sound gen rb) (ha : rb.store.heap a = some r)
    (ht : r.topic = t) (hnone : rb.store.hash t = none) : Sound gen (rb.zhashInsert t a) := by
  have hstore := zhashInsert_store hnone a
  have hheap : (rb.zhashInsert t a).store.heap = rb.store.heap := by rw [hstore]
  refine ⟨hs.linked, fun i a' => ?_, ?_, ?_, fun t' a' h => ?_⟩
  · rw [hheap]
    exact hs.listed i a'
  · rw [hheap]
    exact hs.refcount
  · rw [hheap]
    exact hs.topic
  · rw [hheap]
    rw [hstore] at h
    by_cases he : t' = t
    · have h' : some a = some a' := by
        rw [← h, he]
        exact (Function.update_self t (some a) rb.store.hash).symm
      exact ⟨r, Option.some.inj h' ▸ ha, ht.trans he.symm⟩
    · refine hs.hashed t' a' ?_
      rw [← h]
      exact (Function.update_of_ne he (some a) rb.store.hash).symm

omit [DecidableEq Cl] [DecidableEq Topic] in
theorem setData_heap_self (rb : RouteBroker Addr Cl Topic Data) (a : Addr)
    (r : RibRoute Topic Data) (d : Data) :
    (rb.setData a r d).store.heap a = some { r with data := d } :=
  Function.update_self a _ rb.store.heap

omit [DecidableEq Cl] [DecidableEq Topic] in
/-- A route may take over data with its topic. -/
theorem Sound.setData (hs : Sound gen rb) (ha : rb.store.heap a = some r) {d : Data}
    (hgen : 0 < (gen d).1 ∧ (gen d).2.1 = r.topic) : Sound gen (rb.setData a r d) := by
  have hheap : (rb.setData a r d).store.heap
      = Function.update rb.store.heap a (some { r with data := d }) := rfl
  refine ⟨hs.linked, fun i a' => ?_, fun a' r' h => ?_, fun a' r' h => ?_, fun t a' h => ?_⟩
  · refine (hs.listed i a').trans ?_
    rw [hheap]
    by_cases he : a' = a
    · simp [he, ha]
    · rw [Function.update_of_ne he]
  · exact forall_heap_update h hs.refcount (hs.refcount a r ha)
  · exact forall_heap_update h hs.topic hgen
  · obtain ⟨r', hr', htop⟩ := hs.hashed t a' h
    rw [hheap]
    by_cases he : a' = a
    · rw [he, ha] at hr'
      rw [he, Function.update_self, ← htop, ← Option.some.inj hr']
      exact ⟨_, rfl, rfl⟩
    · rw [Function.update_of_ne he]
      exact ⟨r', hr', htop⟩

omit [DecidableEq Cl] [DecidableEq Topic] in
theorem touches_setData (rb : RouteBroker Addr Cl Topic Data) (a : Addr)
    (r : RibRoute Topic Data) (d : Data) : Touches a rb (rb.setData a r d) :=
  ⟨fun _ hne => Function.update_of_ne hne _ _, fun _ _ _ => Iff.rfl, fun _ _ _ _ => Iff.rfl,
    fun _ => rfl, rfl, rfl⟩

/-- Mark or unmark the route at `a` and move it to the tail of its level. -/
def RouteBroker.mark (rb : RouteBroker Addr Cl Topic Data) (i : Level) (a : Addr) (m : Bool) :
    RouteBroker Addr Cl Topic Data :=
  rb.onLevel i (((rb.level i).setDelete (.obj a) m).moveToTail (.obj a), rb.store)

variable {i : Level}

omit [DecidableEq Topic] in
theorem updObj_eq_mark (rb : RouteBroker Addr Cl Topic Data) (i : Level) (a : Addr) :
    rb.updObj i a = rb.mark i a false := by
  unfold RouteBroker.updObj RouteBroker.mark
  rw [brokerUpdObj_eq]

theorem delObj_of_clients (h : (rb.level i).clientList ≠ []) (a : Addr) :
    rb.delObj i a = rb.mark i a true := by
  unfold RouteBroker.delObj RouteBroker.mark
  rw [brokerDelObj_of_clients routeBrokerOps h]

/-- Without clients a delete unlinks the route. -/
theorem delObj_of_no_clients (h : (rb.level i).clientList = []) (a : Addr) :
    rb.delObj i a = rb.delObjNow i a := by
  unfold RouteBroker.delObj RouteBroker.delObjNow
  rw [brokerDelObj_of_no_clients routeBrokerOps h]

omit [DecidableEq Topic] in
/-- Marking a route and moving it to the tail keeps the store sound. -/
theorem Sound.mark (hs : Sound gen rb) (ha : (rb.level i).Listed a) (m : Bool) :
    Sound gen (rb.mark i a m) := by
  have hl := (hs.linked i).setDelete (.obj a) m
  refine hs.relevel rfl (forall_onLevel (hl.moveToTail ha) (fun j _ => hs.linked j))
    (fun j a' => ?_)
  exact forall_onLevel (P := fun j b => b.Listed a' ↔ (rb.level j).Listed a')
    (listed_moveToTail hl ha a') (fun _ _ => Iff.rfl) j

omit [DecidableEq Topic] in
/-- And it leaves the others alone. -/
theorem touches_mark (hs : Sound gen rb) (i : Level) (a : Addr) (m : Bool) :
    Touches a rb (rb.mark i a m) := by
  refine ⟨fun _ _ => rfl, fun j a' hne => ?_, fun j c a' hne => ?_, fun j => ?_, rfl, rfl⟩
  · refine forall_onLevel (P := fun j b => b.Deleted a' ↔ (rb.level j).Deleted a') ?_
      (fun _ _ => Iff.rfl) j
    rw [deleted_mark, if_neg hne]
  · refine forall_onLevel (P := fun j b => b.Pending c a' ↔ (rb.level j).Pending c a') ?_
      (fun _ _ => Iff.rfl) j
    refine (pending_moveToTail ((hs.linked i).setDelete (.obj a) m) c a').trans ?_
    simp only [hne, ne_eq, not_false_eq_true, and_true, and_false, or_false]
    exact Iff.rfl
  · exact forall_onLevel (P := fun j b => b.clientList = (rb.level j).clientList) rfl
      (fun _ _ => rfl) j

omit [DecidableEq Topic] in
/-- The marked route is pending for every client. -/
theorem mark_self (hs : Sound gen rb) (i : Level) (a : Addr) (m : Bool) :
    (((rb.mark i a m).level i).Deleted a ↔ m = true) ∧
      ∀ c ∈ (rb.level i).clientList, ((rb.mark i a m).level i).Pending c a := by
  have hlevel : (rb.mark i a m).level i = _ := onLevel_level_self rb i _
  rw [hlevel]
  refine ⟨?_, fun c hc => ?_⟩
  · rw [deleted_mark, if_pos rfl]
  · exact (pending_moveToTail ((hs.linked i).setDelete (.obj a) m) c a).mpr (Or.inr ⟨hc, rfl⟩)

end Changes

/-! ## Publishing -/

section Publish

variable {gen : Data → ℤ × Topic × Bool} {rb : RouteBroker Addr Cl Topic Data} {a h : Addr}
  {route hashed : RibRoute Topic Data} {del : Bool}

/-- A route as `publishPrepare` fills it in. -/
structure Prepared (gen : Data → ℤ × Topic × Bool) (rb : RouteBroker Addr Cl Topic Data)
    (a : Addr) (route : RibRoute Topic Data) (del : Bool) : Prop where
  free : rb.store.heap a = none
  refcount : route.refcount = 0
  gen_pos : 0 < (gen route.data).1
  gen_topic : (gen route.data).2.1 = route.topic
  gen_del : (gen route.data).2.2 = del

/-- The six ways a publish can go. -/
inductive Published (rb : RouteBroker Addr Cl Topic Data) (a : Addr) (route : RibRoute Topic Data) :
    Bool → RouteBroker Addr Cl Topic Data → Prop
  | unknown (hnone : rb.store.hash route.topic = none) : Published rb a route true rb
  | added (hnone : rb.store.hash route.topic = none) :
    Published rb a route false ((rb.addObj a route).zhashInsert route.topic a)
  | deleted {h : Addr} {hashed : RibRoute Topic Data} (hh : rb.store.hash route.topic = some h)
    (hheap : rb.store.heap h = some hashed) (hpri : hashed.pri ≤ route.pri) :
    Published rb a route true ((rb.setData h hashed route.data).delObj hashed.pri h)
  | updated {h : Addr} {hashed : RibRoute Topic Data} (hh : rb.store.hash route.topic = some h)
    (hheap : rb.store.heap h = some hashed) (hpri : hashed.pri ≤ route.pri) :
    Published rb a route false ((rb.setData h hashed route.data).updObj hashed.pri h)
  | movedDeleted {h : Addr} {hashed : RibRoute Topic Data} (hh : rb.store.hash route.topic = some h)
    (hheap : rb.store.heap h = some hashed) (hpri : route.pri < hashed.pri) :
    Published rb a route true (((rb.delObjNow hashed.pri h).addObj a route).delObj route.pri a)
  | moved {h : Addr} {hashed : RibRoute Topic Data} (hh : rb.store.hash route.topic = some h)
    (hheap : rb.store.heap h = some hashed) (hpri : route.pri < hashed.pri) :
    Published rb a route false
      (((rb.delObjNow hashed.pri h).addObj a route).zhashInsert route.topic a)

/-- **The critical section does one of the things that `Published` lists.** -/
theorem publishRoute_published (hs : Sound gen rb) (a : Addr) (route : RibRoute Topic Data)
    (del : Bool) : Published rb a route del (rb.publishRoute a route del) := by
  unfold RouteBroker.publishRoute
  cases hh : rb.store.hash route.topic with
  | none =>
    cases del with
    | false => exact .added hh
    | true => exact .unknown hh
  | some h =>
    -- the entry leads to a stored route, so that none of the reads fails
    obtain ⟨hashed, hheap, -⟩ := hs.hashed _ _ hh
    by_cases hpri : hashed.pri > route.pri
    · cases del with
      | false => simpa [hheap, hpri] using Published.moved hh hheap hpri
      | true => simpa [hheap, hpri] using Published.movedDeleted hh hheap hpri
    · cases del with
      | false => simpa [hheap, hpri] using Published.updated hh hheap (not_lt.mp hpri)
      | true => simpa [hheap, hpri] using Published.deleted hh hheap (not_lt.mp hpri)

variable {rb' : RouteBroker Addr Cl Topic Data}

omit [DecidableEq Addr] [DecidableEq Cl] [DecidableEq Topic] in
theorem Prepared.gen_ok (hp : Prepared gen rb a route del) :
    0 < (gen route.data).1 ∧ (gen route.data).2.1 = route.topic := ⟨hp.gen_pos, hp.gen_topic⟩

omit [DecidableEq Addr] [DecidableEq Cl] [DecidableEq Topic] in
/-- The entry of the hash table and the route it leads to. -/
theorem Sound.hashed_topic (hs : Sound gen rb) {t : Topic} (hh : rb.store.hash t = some h)
    (hheap : rb.store.heap h = some hashed) : hashed.topic = t := by
  obtain ⟨r, hr, ht⟩ := hs.hashed t h hh
  rw [hheap] at hr
  rw [Option.some.inj hr, ht]

omit [DecidableEq Cl] [DecidableEq Topic] in
/-- Handing the new data to the route that is stored for the topic. -/
theorem Prepared.sound_setData (hp : Prepared gen rb a route del) (hs : Sound gen rb)
    (hh : rb.store.hash route.topic = some h) (hheap : rb.store.heap h = some hashed) :
    Sound gen (rb.setData h hashed route.data) :=
  hs.setData hheap ⟨hp.gen_pos, hp.gen_topic.trans (hs.hashed_topic hh hheap).symm⟩

/-- A delete keeps the store sound, with clients or without. -/
theorem Sound.delObj (hs : Sound gen rb) {i : Level} (ha : (rb.level i).Listed a) :
    Sound gen (rb.delObj i a) := by
  by_cases hc : (rb.level i).clientList = []
  · rw [delObj_of_no_clients hc]
    exact hs.delObjNow ha
  · rw [delObj_of_clients hc]
    exact hs.mark ha true

theorem touches_delObj (hs : Sound gen rb) {i : Level} (ha : (rb.level i).Listed a) :
    Touches a rb (rb.delObj i a) := by
  by_cases hc : (rb.level i).clientList = []
  · rw [delObj_of_no_clients hc]
    exact touches_delObjNow hs ha
  · rw [delObj_of_clients hc]
    exact touches_mark hs i a true

/-- After the delete the route is either gone or marked. -/
theorem kind_delObj (hs : Sound gen rb) {i : Level} {r : RibRoute Topic Data}
    (ha : rb.store.heap a = some r) (hi : r.pri = i) (hdel : (gen r.data).2.2 = true)
    (hk : ∀ a', a' ≠ a → Kind gen rb a') (a' : Addr) : Kind gen (rb.delObj i a) a' := by
  subst hi
  have hlist := hs.listed_of_heap ha
  by_cases hc : (rb.level r.pri).clientList = []
  · rw [delObj_of_no_clients hc]
    exact kind_delObjNow hs hlist hk a'
  · rw [delObj_of_clients hc]
    by_cases he : a' = a
    · intro r' hr'
      have hr : r = r' := by
        rw [he] at hr'
        exact Option.some.inj (ha.symm.trans hr')
      rw [← hr, he, hdel, (mark_self hs r.pri a true).1]
    · exact (touches_mark hs r.pri a true).kind he (hk a' he)

/-- The first half of a move to a higher priority. -/
structure Freed (gen : Data → ℤ × Topic × Bool) (rb : RouteBroker Addr Cl Topic Data) (h : Addr)
    (hashed : RibRoute Topic Data) (rb' : RouteBroker Addr Cl Topic Data) : Prop where
  sound : Sound gen rb'
  touches : Touches h rb rb'
  store : rb'.store = rb.store.free h hashed.topic

/-- A route of another level is forced out of it. -/
theorem freed_delObjNow (hs : Sound gen rb) (hheap : rb.store.heap h = some hashed) :
    Freed gen rb h hashed (rb.delObjNow hashed.pri h) :=
  ⟨hs.delObjNow (hs.listed_of_heap hheap), touches_delObjNow hs (hs.listed_of_heap hheap),
    delObjNow_store hs hheap hashed.pri⟩

omit [DecidableEq Cl] in
/-- The entry of the topic has gone with the route. -/
theorem Freed.hash_eq_none (hf : Freed gen rb h hashed rb') {t : Topic} (ht : hashed.topic = t) :
    rb'.store.hash t = none := by
  rw [hf.store, ht]
  exact free_hash_self rb.store h t

omit [DecidableEq Cl] in
/-- The new route is as it was, whatever was freed. -/
theorem Prepared.of_freed (hp : Prepared gen rb a route del) (hf : Freed gen rb h hashed rb')
    (hheap : rb.store.heap h = some hashed) : Prepared gen rb' a route del := by
  refine ⟨?_, hp.refcount, hp.gen_pos, hp.gen_topic, hp.gen_del⟩
  have hne : a ≠ h := fun he => by
    have hfree := hp.free
    rw [he, hheap] at hfree
    exact nomatch hfree
  rw [hf.touches.heap a hne]
  exact hp.free

theorem addObj_heap_self (hp : Prepared gen rb a route del) :
    (rb.addObj a route).store.heap a = some { route with refcount := 1 } := by
  rw [addObj_heap rb a route hp.refcount, Function.update_self]

theorem addObj_listed_self (hp : Prepared gen rb a route del) (hs : Sound gen (rb.addObj a route)) :
    ((rb.addObj a route).level route.pri).Listed a :=
  (hs.listed route.pri a).mpr ⟨_, addObj_heap_self hp, rfl⟩

/-- A publish leaves the clients alone. -/
theorem Published.sameClients (hpub : Published rb a route del rb') : SameClients rb rb' := by
  cases hpub with
  | unknown hnone => exact .refl rb
  | added hnone => exact (sameClients_addObj rb a route).trans (sameClients_zhashInsert _ a _)
  | deleted hh hheap hpri =>
    exact (sameClients_setData rb _ _ _).trans (sameClients_delObj _ _ _)
  | updated hh hheap hpri =>
    exact (sameClients_setData rb _ _ _).trans (sameClients_updObj _ _ _)
  | movedDeleted hh hheap hpri =>
    exact ((sameClients_delObjNow rb _ _).trans (sameClients_addObj _ a route)).trans
      (sameClients_delObj _ _ a)
  | moved hh hheap hpri =>
    exact ((sameClients_delObjNow rb _ _).trans (sameClients_addObj _ a route)).trans
      (sameClients_zhashInsert _ a _)

/-- **A publish keeps the store sound.** -/
theorem Published.sound (hs : Sound gen rb) (hp : Prepared gen rb a route del)
    (hpub : Published rb a route del rb') : Sound gen rb' := by
  cases hpub with
  | unknown hnone => exact hs
  | added hnone =>
    refine (hs.addObj hp.free hp.refcount hp.gen_ok).zhashInsert (addObj_heap_self hp) rfl ?_
    rw [addObj_hash]
    exact hnone
  | deleted hh hheap hpri =>
    exact (hp.sound_setData hs hh hheap).delObj (hs.listed_of_heap hheap)
  | updated hh hheap hpri =>
    rw [updObj_eq_mark]
    exact (hp.sound_setData hs hh hheap).mark (hs.listed_of_heap hheap) false
  | movedDeleted hh hheap hpri =>
    have hf := freed_delObjNow hs hheap
    have hp' := hp.of_freed hf hheap
    have hs' := hf.sound.addObj hp'.free hp'.refcount hp'.gen_ok
    exact hs'.delObj (addObj_listed_self hp' hs')
  | moved hh hheap hpri =>
    have hf := freed_delObjNow hs hheap
    have hp' := hp.of_freed hf hheap
    refine (hf.sound.addObj hp'.free hp'.refcount hp'.gen_ok).zhashInsert
      (addObj_heap_self hp') rfl ?_
    rw [addObj_hash]
    exact hf.hash_eq_none (hs.hashed_topic hh hheap)

/-- Only the published route and the route of its topic are written. -/
theorem Published.heap_none (hs : Sound gen rb) (hp : Prepared gen rb a route del)
    (hpub : Published rb a route del rb') {b : Addr} (hne : b ≠ a)
    (hb : rb.store.heap b = none) : rb'.store.heap b = none := by
  have hne' : ∀ {h hashed}, rb.store.heap h = some hashed → b ≠ h := by
    rintro h hashed hheap rfl
    rw [hb] at hheap
    cases hheap
  have hadd : ∀ rb : RouteBroker Addr Cl Topic Data,
      (rb.addObj a route).store.heap b = rb.store.heap b := by
    intro rb
    rw [addObj_heap rb a route hp.refcount, Function.update_of_ne hne]
  have hinsert : ∀ (rb : RouteBroker Addr Cl Topic Data) (t : Topic),
      (rb.zhashInsert t a).store.heap b = rb.store.heap b := by
    intro rb t
    unfold RouteBroker.zhashInsert Store.zhashInsert
    cases rb.store.hash t <;> rfl
  cases hpub with
  | unknown hnone => exact hb
  | added hnone => rw [hinsert, hadd, hb]
  | @deleted h hashed hh hheap hpri =>
    have hset := hp.sound_setData hs hh hheap
    rw [(touches_delObj hset (hs.listed_of_heap hheap)).heap b (hne' hheap),
      (touches_setData rb h hashed route.data).heap b (hne' hheap), hb]
  | @updated h hashed hh hheap hpri =>
    have hset := hp.sound_setData hs hh hheap
    rw [updObj_eq_mark, (touches_mark hset hashed.pri h false).heap b (hne' hheap),
      (touches_setData rb h hashed route.data).heap b (hne' hheap), hb]
  | @movedDeleted h hashed hh hheap hpri =>
    have hf := freed_delObjNow hs hheap
    have hp' := hp.of_freed hf hheap
    have hs' := hf.sound.addObj hp'.free hp'.refcount hp'.gen_ok
    rw [(touches_delObj hs' (addObj_listed_self hp' hs')).heap b hne, hadd,
      hf.touches.heap b (hne' hheap), hb]
  | @moved h hashed hh hheap hpri =>
    have hf := freed_delObjNow hs hheap
    rw [hinsert, hadd, hf.touches.heap b (hne' hheap), hb]

/-- A new route has the kind of an added one. -/
theorem kind_addObj (hs : Sound gen rb) (hp : Prepared gen rb a route false)
    (hk : ∀ a', Kind gen rb a') (a' : Addr) : Kind gen (rb.addObj a route) a' := by
  by_cases he : a' = a
  · intro r hr
    rw [he, addObj_heap_self hp] at hr
    rw [← Option.some.inj hr, he]
    have hnot : ¬ ((rb.addObj a route).level route.pri).Deleted a := (addObj_self hs).1
    simpa [hp.gen_del] using hnot
  · exact (touches_addObj hs hp.refcount).kind he (hk a')

/-- **A publish keeps the marks right**: what is marked has data of a delete. -/
theorem Published.kind (hs : Sound gen rb) (hp : Prepared gen rb a route del)
    (hk : ∀ a', Kind gen rb a') (hpub : Published rb a route del rb') : ∀ a', Kind gen rb' a' := by
  cases hpub with
  | unknown hnone => exact hk
  | added hnone =>
    have hk' := kind_addObj hs hp hk
    rw [← addObj_hash rb a route] at hnone
    exact fun a' => (hk' a').of_eq (by rw [zhashInsert_store hnone]) (fun _ => Iff.rfl)
  | @deleted h hashed hh hheap hpri =>
    have hs' := hp.sound_setData hs hh hheap
    refine kind_delObj hs' (setData_heap_self rb h hashed route.data) rfl hp.gen_del
      (fun a' hne => ?_)
    exact (touches_setData rb _ _ _).kind hne (hk a')
  | @updated h hashed hh hheap hpri =>
    have hs' := hp.sound_setData hs hh hheap
    intro a'
    rw [updObj_eq_mark]
    by_cases he : a' = h
    · intro r hr
      have hr' : some { hashed with data := route.data } = some r := by
        rw [he] at hr
        exact (setData_heap_self rb h hashed route.data).symm.trans hr
      rw [← Option.some.inj hr', he]
      have hmark := (mark_self hs' hashed.pri h false).1
      simpa [hp.gen_del] using hmark
    · exact (touches_mark hs' hashed.pri h false).kind he
        ((touches_setData rb h hashed route.data).kind he (hk a'))
  | movedDeleted hh hheap hpri =>
    have hf := freed_delObjNow hs hheap
    have hp' := hp.of_freed hf hheap
    have hs' := hf.sound.addObj hp'.free hp'.refcount hp'.gen_ok
    have hk' := kind_delObjNow hs (hs.listed_of_heap hheap) (fun a' _ => hk a')
    refine kind_delObj hs' (addObj_heap_self hp') rfl hp.gen_del (fun a' hne => ?_)
    exact (touches_addObj hf.sound hp'.refcount).kind hne (hk' a')
  | @moved h hashed hh hheap hpri =>
    have hf := freed_delObjNow hs hheap
    have hp' := hp.of_freed hf hheap
    have hk' := kind_addObj hf.sound hp'
      (kind_delObjNow hs (hs.listed_of_heap hheap) (fun a' _ => hk a'))
    have hnone : ((rb.delObjNow hashed.pri h).addObj a route).store.hash route.topic = none := by
      rw [addObj_hash]
      exact hf.hash_eq_none (hs.hashed_topic hh hheap)
    exact fun a' => (hk' a').of_eq (by rw [zhashInsert_store hnone]) (fun _ => Iff.rfl)

end Publish

/-! ## Clients -/

/-- A move of cursors in one level, or the unlinking of a tombstone. -/
inductive TidyStep (rb : RouteBroker Addr Cl Topic Data) :
    RouteBroker Addr Cl Topic Data → Prop
  | cursor (i : Level) (b : Broker Addr Cl) (hl : b.Linked)
    (hlist : ∀ a, b.Listed a ↔ (rb.level i).Listed a)
    (hdel : ∀ a, b.Deleted a ↔ (rb.level i).Deleted a) :
    TidyStep rb (rb.onLevel i (b, rb.store))
  | unlink (i : Level) (a : Addr) (ha : (rb.level i).Tombstone a) :
    TidyStep rb (rb.delObjNow i a)

/-- All that the clients do to the store. -/
abbrev Tidy : RouteBroker Addr Cl Topic Data → RouteBroker Addr Cl Topic Data → Prop :=
  Relation.ReflTransGen TidyStep

section Clients

variable {gen : Data → ℤ × Topic × Bool} {rb rb' : RouteBroker Addr Cl Topic Data}

theorem TidyStep.sound (hs : Sound gen rb) (h : TidyStep rb rb') : Sound gen rb' := by
  cases h with
  | cursor i b hl hlist hdel =>
    refine hs.relevel rfl (forall_onLevel hl (fun j _ => hs.linked j)) (fun j a => ?_)
    exact forall_onLevel (P := fun j b => b.Listed a ↔ (rb.level j).Listed a) (hlist a)
      (fun _ _ => Iff.rfl) j
  | unlink i a ha => exact hs.delObjNow ha.1

/-- **The rule for reads and departures**: what cursor moves and the unlinking of
tombstones keep, they keep. -/
theorem Tidy.induction {P : RouteBroker Addr Cl Topic Data → Prop}
    (hstep : ∀ v v', Sound gen v → TidyStep v v' → P v → P v') (h : Tidy rb rb')
    (hs : Sound gen rb) (hP : P rb) : Sound gen rb' ∧ P rb' := by
  induction h with
  | refl => exact ⟨hs, hP⟩
  | tail _ hstep' ih => exact ⟨hstep'.sound ih.1, hstep _ _ ih.1 hstep' ih.2⟩

/-- Reclaiming tombstones keeps the store sound. -/
theorem Tidy.sound (h : Tidy rb rb') (hs : Sound gen rb) : Sound gen rb' :=
  (h.induction (P := fun _ => True) (fun _ _ _ _ _ => trivial) hs trivial).1

/-- It keeps the marks right, too. -/
theorem Tidy.kind (h : Tidy rb rb') (hs : Sound gen rb) (hk : ∀ a, Kind gen rb a) :
    ∀ a, Kind gen rb' a := by
  refine (h.induction (P := fun rb => ∀ a, Kind gen rb a) (fun v v' hs hstep hk => ?_) hs hk).2
  cases hstep with
  | cursor i b hl hlist hdel =>
    exact fun a => (hk a).of_eq rfl (fun j => forall_onLevel
      (P := fun j b => b.Deleted a ↔ (v.level j).Deleted a) (hdel a) (fun _ _ => Iff.rfl) j)
  | unlink i a ha => exact kind_delObjNow hs ha.1 (fun a' _ => hk a')

/-- Clients never write a route. -/
theorem Tidy.heap_of_heap (h : Tidy rb rb') (hs : Sound gen rb) {a : Addr}
    {r : RibRoute Topic Data} : rb'.store.heap a = some r → rb.store.heap a = some r := by
  refine (h.induction (P := fun v => v.store.heap a = some r → rb.store.heap a = some r)
    (fun v v' hs hstep hv => ?_) hs id).2
  cases hstep with
  | cursor i b hl hlist hdel => exact hv
  | unlink i a' ha' =>
    intro h
    obtain ⟨r', hr', rfl⟩ := hs.heap_of_listed ha'.1
    rw [delObjNow_store hs hr'] at h
    by_cases he : a = a'
    · simp [Store.free, he] at h
    · exact hv (by simpa [Store.free, he] using h)

theorem Tidy.heap_none (h : Tidy rb rb') (hs : Sound gen rb) {a : Addr}
    (ha : rb.store.heap a = none) : rb'.store.heap a = none := by
  by_contra hsome
  obtain ⟨r, hr⟩ := Option.ne_none_iff_exists'.mp hsome
  have hr' := h.heap_of_heap hs hr
  rw [ha] at hr'
  cases hr'

/-- A route that is still listed is as it was. -/
theorem Tidy.heap_of_listed (h : Tidy rb rb') (hs : Sound gen rb) {i : Level} {a : Addr}
    (hl : (rb'.level i).Listed a) {r : RibRoute Topic Data} (hr : rb.store.heap a = some r) :
    rb'.store.heap a = some r := by
  obtain ⟨r', hr', -⟩ := (h.sound hs).heap_of_listed hl
  have heq := h.heap_of_heap hs hr'
  rw [hr] at heq
  rw [← Option.some.inj heq] at hr'
  exact hr'

/-- One level replaced by the same level with other cursors. -/
theorem tidy_cursor {i : Level} {b b' : Broker Addr Cl} {s : Store Addr Topic Data}
    (h : Tidy rb (rb.onLevel i (b, s))) (hl : b'.Linked)
    (hlist : ∀ a, b'.Listed a ↔ b.Listed a) (hdel : ∀ a, b'.Deleted a ↔ b.Deleted a) :
    Tidy rb (rb.onLevel i (b', s)) := by
  have hstep : TidyStep (rb.onLevel i (b, s)) ((rb.onLevel i (b, s)).onLevel i (b', s)) := by
    refine .cursor i b' hl (fun a => ?_) (fun a => ?_)
    · rw [hlist, onLevel_level_self]
    · rw [hdel, onLevel_level_self]
  rw [onLevel_onLevel] at hstep
  exact h.tail hstep

/-- Unlinking one tombstone more. -/
theorem tidy_unlink {i : Level} {b : Broker Addr Cl} {s : Store Addr Topic Data} {a : Addr}
    (h : Tidy rb (rb.onLevel i (b, s))) (ha : b.Tombstone a) :
    Tidy rb (rb.onLevel i (brokerDelObjNow routeBrokerOps b s (.obj a))) := by
  have hstep : TidyStep (rb.onLevel i (b, s)) ((rb.onLevel i (b, s)).delObjNow i a) := by
    refine .unlink i a ?_
    rw [onLevel_level_self]
    exact ha
  have heq : (rb.onLevel i (b, s)).delObjNow i a
      = rb.onLevel i (brokerDelObjNow routeBrokerOps b s (.obj a)) := by
    unfold RouteBroker.delObjNow
    rw [onLevel_onLevel, onLevel_level_self, onLevel_store]
  rw [heq] at hstep
  exact h.tail hstep

omit [DecidableEq Addr] [DecidableEq Cl] [DecidableEq Topic] in
theorem onLevel_self (rb : RouteBroker Addr Cl Topic Data) (i : Level) :
    rb.onLevel i (rb.level i, rb.store) = rb := by
  unfold RouteBroker.onLevel
  rw [Function.update_eq_self]

/-- A read of a level reclaims one tombstone at most. -/
theorem tidy_getData (hs : Sound gen rb) (copyObj : Data → Option Data) (i : Level)
    (client : Option Cl) : Tidy rb (rb.onLevel i (brokerClientGetData routeBrokerOps
      (routeBrokerClientOps copyObj) (rb.level i) rb.store client).2) := by
  have hl := hs.linked i
  have hstart : Tidy rb (rb.onLevel i (rb.level i, rb.store)) := by
    rw [onLevel_self]
  cases client with
  | none => exact hstart
  | some c =>
    cases hnext : brokerGetNextDataObj (rb.level i) (.client c) with
    | none =>
      rw [getData_of_none routeBrokerOps (routeBrokerClientOps copyObj) rb.store hnext]
      refine tidy_cursor hstart (hl.setId _ _) (fun _ => Iff.rfl) (fun a => ?_)
      unfold Deleted
      rw [setId_flags]
    | some r =>
      obtain ⟨a, rfl, hp, -⟩ := getNextDataObj_eq_some hl hnext
      -- first the cursor moves, then the object is unlinked if nobody needs it
      have hadv : Tidy rb (rb.onLevel i ((rb.level i).advance c (.obj a), rb.store)) := by
        refine tidy_cursor hstart (hl.advance hp) (fun a' => mem_advance hl hp _) (fun a' => ?_)
        unfold Deleted
        rw [advance_flags]
      rw [getData_of_some routeBrokerOps (routeBrokerClientOps copyObj) rb.store hnext]
      dsimp only
      split_ifs with hrec
      · rw [Bool.and_eq_true] at hrec
        have htomb : ((rb.level i).advance c (.obj a)).Tombstone a := by
          refine ⟨(mem_advance hl hp _).mpr hp.listed, ?_⟩
          unfold Deleted
          rw [advance_flags]
          exact hrec.1
        exact tidy_cursor (tidy_unlink hadv htomb)
          (((hl.advance hp).delObjNow routeBrokerOps rb.store).incConsumed c)
          (fun _ => Iff.rfl) (fun _ => Iff.rfl)
      · exact tidy_cursor hadv ((hl.advance hp).incConsumed c) (fun _ => Iff.rfl)
          (fun _ => Iff.rfl)

/-- A read reclaims tombstones only. -/
theorem tidy_clientGetData (hs : Sound gen rb) (copyObj : Data → Option Data) (c : Cl) :
    Tidy rb (rb.clientGetData copyObj c).2 := by
  unfold RouteBroker.clientGetData
  cases rb.dataAvailableForClient c with
  | none => exact .refl
  | some i => exact tidy_getData hs copyObj i _

/-- So does deleting a client from a level. -/
theorem tidy_clientDeleteLevel (hs : Sound gen rb) (c : Cl) (i : Level) :
    Tidy rb (rb.clientDeleteLevel c i) := by
  unfold RouteBroker.clientDeleteLevel
  cases (rb.rclient c).client i with
  | none => exact .refl
  | some k =>
    have hl := hs.linked i
    have hwithout : Tidy rb (rb.onLevel i ((rb.level i).withoutClient k, rb.store)) := by
      have hstart : Tidy rb (rb.onLevel i (rb.level i, rb.store)) := by
        rw [onLevel_self]
      refine tidy_cursor hstart (hl.withoutClient k) (fun a => ?_) (fun _ => Iff.rfl)
      exact (mem_remove hl.nodup).trans (and_iff_right (by simp))
    exact sweep_induction routeBrokerOps (P := fun bs => Tidy rb (rb.onLevel i bs))
      (fun b s a h ha => tidy_unlink h ha) (hl.withoutClient k) (hl.withoutClient k).nodup
      (fun _ h => h) hwithout

/-- The loop over the levels. -/
theorem tidy_foldl (hs : Sound gen rb) (c : Cl) (is : List Level) :
    Tidy rb (is.foldl (fun rb i => rb.clientDeleteLevel c i) rb) := by
  induction is generalizing rb with
  | nil => exact .refl
  | cons i is ih =>
    have h := tidy_clientDeleteLevel hs c i
    exact h.trans (ih (h.sound hs))

theorem tidy_clientDeleteLevels (hs : Sound gen rb) (c : Cl) :
    Tidy rb (rb.clientDeleteLevels c) := tidy_foldl hs c _

omit [DecidableEq Addr] [DecidableEq Cl] [DecidableEq Topic] in
theorem name_of_wired {c : Cl} (hc : ∀ i, (rb.rclient c).client i = some c) (i : Level) (k : Cl)
    (hk : (rb.rclient c).client i = some k) : k = c := by
  rw [hc i] at hk
  exact (Option.some.inj hk).symm

/-- What the loop leaves in each level. -/
theorem foldl_clientDeleteLevel (hs : Sound gen rb) {c : Cl}
    (hname : ∀ i k, (rb.rclient c).client i = some k → k = c) {is : List Level} (hn : is.Nodup) :
    let rb' := is.foldl (fun rb i => rb.clientDeleteLevel c i) rb
    rb'.rclient = rb.rclient ∧ rb'.clientList = rb.clientList ∧ ∀ j, rb'.level j
      = if j ∈ is ∧ (rb.rclient c).client j ≠ none then
          (brokerClientDelete routeBrokerOps (rb.level j) rb.store c).1
        else rb.level j := by
  induction is generalizing rb with
  | nil => exact ⟨rfl, rfl, fun _ => rfl⟩
  | cons i is ih =>
    rw [List.nodup_cons] at hn
    have hs' := (tidy_clientDeleteLevel hs c i).sound hs
    rw [List.foldl_cons]
    cases hk : (rb.rclient c).client i with
    | none =>
      have hone : rb.clientDeleteLevel c i = rb := by
        unfold RouteBroker.clientDeleteLevel
        rw [hk]
      rw [hone]
      obtain ⟨h1, h2, h3⟩ := ih hs hname hn.2
      refine ⟨h1, h2, fun j => ?_⟩
      rw [h3 j]
      refine if_congr ?_ rfl rfl
      rw [List.mem_cons]
      refine and_congr_left (fun hj => (or_iff_right (fun he => hj ?_)).symm)
      rw [he, hk]
    | some k =>
      have hone : rb.clientDeleteLevel c i
          = rb.onLevel i (brokerClientDelete routeBrokerOps (rb.level i) rb.store c) := by
        unfold RouteBroker.clientDeleteLevel
        rw [hk, hname i k hk]
      have hr : (rb.clientDeleteLevel c i).rclient = rb.rclient := by
        rw [hone]
        rfl
      obtain ⟨h1, h2, h3⟩ := ih hs' (by rw [hr]; exact hname) hn.2
      refine ⟨h1.trans hr, h2.trans (by rw [hone]; rfl), fun j => ?_⟩
      rw [h3 j, hr]
      by_cases hj : j = i
      · subst hj
        rw [if_neg (fun h => hn.1 h.1), if_pos ⟨List.mem_cons_self, by rw [hk]; simp⟩, hone,
          onLevel_level_self]
      · rw [hone, onLevel_level_of_ne rb _ hj]
        refine if_congr ?_ ?_ rfl
        · rw [List.mem_cons, or_iff_right hj]
        · -- the store differs by now, but the level does not depend on it
          exact clientDelete_fst routeBrokerOps routeBrokerOps (hs.linked j) _ _ c

/-- Deleting a client sweeps every level once. -/
theorem clientDelete_level (hs : Sound gen rb) {c : Cl}
    (hc : ∀ i, (rb.rclient c).client i = some c) (j : Level) :
    (rb.clientDelete c).level j
      = (brokerClientDelete routeBrokerOps (rb.level j) rb.store c).1 := by
  have h := (foldl_clientDeleteLevel hs (name_of_wired hc)
    (List.nodup_finRange routePriorityMax)).2.2 j
  rw [if_pos ⟨List.mem_finRange j, by rw [hc j]; simp⟩] at h
  exact h

end Clients
