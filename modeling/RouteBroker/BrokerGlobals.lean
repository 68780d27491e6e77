/-
# The brokers behind the globals

`broker_create` links every broker into the process-wide list `broker_list_head`, and
`route_broker` points to the broker of each level.  `broker_delete` frees a broker and
touches neither.  `Globals` has these variables, with the addresses of the brokers that
are allocated; `librarySystem` runs `route_broker_init`, `route_broker_destroy` and
the calls of `RouteRun.lean` in any order.

* The links in a broker that was freed keep their values, and `calloc` may return an
  address that was freed.  That the memory is zeroed does not matter here, as
  `CIRCLEQ_INSERT_HEAD` assigns both links before it reads them.
* A call that follows a pointer to a freed broker has no outcome.
* When `broker_create` fails, an assertion of `route_broker_init` stops the process.

`init_not_sound` and `destroy_not_sound` are the two ways in which a global comes to
point to a freed broker; `globals_sound_iff` says that there are no others.
-/
import RouteBroker.CircleqLinks
import RouteBroker.RouteRun

open Circleq

/-- The process-wide variables of `broker.c` and `route_broker.c`. -/
structure Globals (BAddr Addr Cl Topic Data : Type*) where
  /-- `broker_list_head`, and `brokers_list` of every broker. -/
  brokerList : Links BAddr
  /-- `inited` of `broker_create`. -/
  inited : Bool
  /-- The brokers that were created and not freed. -/
  allocated : BAddr → Bool
  /-- `route_broker`, `none` for `NULL`. -/
  routeBroker : Level → Option BAddr
  /-- `route_hashtbl` is not `NULL`. -/
  routeHashtbl : Bool
  /-- What the brokers, the routes, the hash table and the clients hold. -/
  world : RouteWorld Addr Cl Topic Data

/-- `ENOENT`. -/
def enoent : ℤ := 2

/-- `ENOTEMPTY`. -/
def enotempty : ℤ := 39

variable {BAddr Addr Cl Topic Data : Type*}

/-- The levels, the hash table and `client_list_head` as `route_broker_init` leaves
them.  The counters go on, and nothing is freed. -/
def RouteWorld.restart (w : RouteWorld Addr Cl Topic Data) : RouteWorld Addr Cl Topic Data :=
  { w with rb := { w.rb with
      level := fun _ => brokerCreate
      store := { w.rb.store with hash := fun _ => none }
      clientList := [] } }

/-- The hash table after `zhash_destroy`. -/
def RouteWorld.zhashDestroy (w : RouteWorld Addr Cl Topic Data) : RouteWorld Addr Cl Topic Data :=
  { w with rb := { w.rb with store := { w.rb.store with hash := fun _ => none } } }

namespace Globals

/-- Before the first call.  The links are not initialised. -/
def start (m : Links BAddr) : Globals BAddr Addr Cl Topic Data where
  brokerList := m
  inited := false
  allocated := fun _ => false
  routeBroker := fun _ => none
  routeHashtbl := false
  world := .start

/-- The broker of level `i` has neither clients nor objects. -/
def EmptyLevel (g : Globals BAddr Addr Cl Topic Data) (i : Level) : Prop :=
  (g.world.rb.level i).clientList = [] ∧ (g.world.rb.level i).objList = []

instance [DecidableEq Addr] [DecidableEq Cl] (g : Globals BAddr Addr Cl Topic Data) (i : Level) :
    Decidable (g.EmptyLevel i) :=
  inferInstanceAs (Decidable (_ ∧ _))

variable [DecidableEq BAddr] (g : Globals BAddr Addr Cl Topic Data)

/-- The first lines of `broker_create`: the list is initialised once. -/
def listInit : Globals BAddr Addr Cl Topic Data :=
  if g.inited then g else { g with inited := true, brokerList := g.brokerList.init }

/-- `broker_create`, the broker being allocated at `x`. -/
def brokerCreate (x : BAddr) : Globals BAddr Addr Cl Topic Data :=
  { g.listInit with
    brokerList := g.listInit.brokerList.insertHead x
    allocated := Function.update g.listInit.allocated x true }

/-- One round of the loop of `route_broker_init`. -/
def createLevel (x : Level → BAddr) (i : Level) : Globals BAddr Addr Cl Topic Data :=
  { g.brokerCreate (x i) with
    routeBroker := Function.update (g.brokerCreate (x i)).routeBroker i (some (x i)) }

/-- The loop of `route_broker_init`. -/
def createLevels (x : Level → BAddr) (is : List Level) : Globals BAddr Addr Cl Topic Data :=
  is.foldl (fun g i => g.createLevel x i) g

/-- `route_broker_init`, the broker of level `i` being allocated at `x i`. -/
def routeBrokerInit (x : Level → BAddr) : Globals BAddr Addr Cl Topic Data :=
  { g.createLevels x (List.finRange routePriorityMax) with
    routeHashtbl := true
    world := g.world.restart }

/-- `free(x)`. -/
def free (x : BAddr) : Globals BAddr Addr Cl Topic Data :=
  { g with allocated := Function.update g.allocated x false }

/-- `broker_delete(route_broker[i])`, with its return value. -/
def brokerDelete (i : Level) : Option (ℤ × Globals BAddr Addr Cl Topic Data) :=
  match g.routeBroker i with
  | none => some (-enoent, g)
  | some x =>
    if g.allocated x then
      if (g.world.rb.level i).clientList.isEmpty then
        if (g.world.rb.level i).objList.isEmpty then some (0, g.free x)
        else some (-enotempty, g)
      else some (-enotempty, g)
    else none

/-- The loop of `route_broker_destroy`. -/
def destroyLevels : List Level → Globals BAddr Addr Cl Topic Data →
    Option (ℤ × Globals BAddr Addr Cl Topic Data)
  | [], g => some (0, g)
  | i :: is, g =>
    (g.brokerDelete i).bind fun r => if r.1 ≠ 0 then some r else destroyLevels is r.2

/-- `route_broker_destroy`, with its return value. -/
def routeBrokerDestroy : Option (ℤ × Globals BAddr Addr Cl Topic Data) :=
  (destroyLevels (List.finRange routePriorityMax) g).map fun r =>
    if r.1 ≠ 0 then r
    else (0, { r.2 with routeHashtbl := false, world := r.2.world.zhashDestroy })

end Globals

/-- The calls of the library.  `x i` is the address `calloc` returns for level `i`. -/
inductive LibraryCall (BAddr Addr Cl Data : Type*)
  | init (x : Level → BAddr)
  | destroy
  | call (a : RouteCall Addr Cl Data)

namespace Globals

variable [DecidableEq BAddr] [DecidableEq Addr] [DecidableEq Cl] [DecidableEq Topic]

/-- One call. -/
def step (gen : Data → ℤ × Topic × Bool) (copy : Data → Data)
    (g : Globals BAddr Addr Cl Topic Data) :
    LibraryCall BAddr Addr Cl Data → Option (Globals BAddr Addr Cl Topic Data)
  | .init x =>
    -- `calloc` returns memory that is not in use
    if Function.Injective x ∧ ∀ i, g.allocated (x i) = false then some (g.routeBrokerInit x)
    else none
  | .destroy => g.routeBrokerDestroy.map Prod.snd
  | .call a =>
    if g.routeHashtbl ∧ ∀ i, (g.routeBroker i).any g.allocated then
      (g.world.call gen copy a).map fun w => { g with world := w }
    else none

end Globals

/-- All runs of the library in one process. -/
def librarySystem {BAddr Addr Cl Topic Data : Type*} [DecidableEq BAddr] [DecidableEq Addr]
    [DecidableEq Cl] [DecidableEq Topic] (gen : Data → ℤ × Topic × Bool) (copy : Data → Data)
    (m : Links BAddr) :
    System (Globals BAddr Addr Cl Topic Data) (LibraryCall BAddr Addr Cl Data) where
  init := .start m
  step := Globals.step gen copy

namespace Globals

/-- `broker_list_head` consists of exactly the brokers that were created and not freed,
and every `route_broker[i]` is one of them. -/
structure Sound (g : Globals BAddr Addr Cl Topic Data) : Prop where
  list : ∃ l, g.brokerList.Ring l ∧ ∀ x, x ∈ l ↔ g.allocated x = true
  level : ∀ i, ∃ x, g.routeBroker i = some x ∧ g.allocated x = true

/-- The library may be used: `route_broker_init` was called, and no
`route_broker_destroy` has returned 0 since. -/
def Usable (g : Globals BAddr Addr Cl Topic Data) : Prop := g.routeHashtbl = true

/-- There is no initialisation after a destroy that returned 0, and a destroy that finds
the level 0 empty finds all levels empty. -/
def Careful (g : Globals BAddr Addr Cl Topic Data) : LibraryCall BAddr Addr Cl Data → Prop
  | .init _ => g.inited = true → g.routeHashtbl = true
  | .destroy => g.routeHashtbl = true → g.EmptyLevel 0 → ∀ i, g.EmptyLevel i
  | .call _ => True

/-! ## `route_broker_init` -/

section Init

variable [DecidableEq BAddr] {g : Globals BAddr Addr Cl Topic Data} {x : Level → BAddr}
  {is : List Level}

@[simp] theorem createLevels_nil : g.createLevels x [] = g := rfl

theorem createLevels_cons (i : Level) :
    g.createLevels x (i :: is) = (g.createLevel x i).createLevels x is := rfl

@[simp] theorem listInit_inited : g.listInit.inited = true := by
  unfold listInit
  by_cases h : g.inited = true
  · rw [if_pos h, h]
  · rw [if_neg h]

@[simp] theorem listInit_allocated : g.listInit.allocated = g.allocated := by
  unfold listInit
  split_ifs <;> rfl

@[simp] theorem listInit_routeBroker : g.listInit.routeBroker = g.routeBroker := by
  unfold listInit
  split_ifs <;> rfl

theorem listInit_of_inited (h : g.inited = true) : g.listInit = g := if_pos h

theorem listInit_brokerList_of_not_inited (h : g.inited = false) :
    g.listInit.brokerList = g.brokerList.init := by
  unfold listInit
  rw [if_neg (by simp [h])]

theorem createLevels_inited (h : g.inited = true) : (g.createLevels x is).inited = true := by
  induction is generalizing g with
  | nil => exact h
  | cons i is ih =>
    rw [createLevels_cons]
    apply ih
    exact listInit_inited

/-- The loop is the same from a list that is initialised already. -/
theorem createLevels_listInit (i : Level) :
    g.createLevels x (i :: is) = g.listInit.createLevels x (i :: is) := by
  have h : g.listInit.listInit = g.listInit := listInit_of_inited listInit_inited
  rw [createLevels_cons, createLevels_cons]
  congr 1
  unfold createLevel brokerCreate
  rw [h]

theorem createLevels_allocated (y : BAddr) : (g.createLevels x is).allocated y = true ↔
    y ∈ is.map x ∨ g.allocated y = true := by
  induction is generalizing g with
  | nil => simp
  | cons i is ih =>
    rw [createLevels_cons, ih, List.map_cons, List.mem_cons]
    have hc : (g.createLevel x i).allocated = Function.update g.allocated (x i) true := by
      show Function.update g.listInit.allocated (x i) true = _
      rw [listInit_allocated]
    rw [hc]
    by_cases hy : y = x i
    · simp [hy]
    · simp [hy]

theorem createLevels_routeBroker_of_notMem {j : Level} (hj : j ∉ is) :
    (g.createLevels x is).routeBroker j = g.routeBroker j := by
  induction is generalizing g with
  | nil => rfl
  | cons i is ih =>
    rw [List.mem_cons, not_or] at hj
    rw [createLevels_cons, ih hj.2]
    show Function.update g.listInit.routeBroker i (some (x i)) j = _
    rw [Function.update_of_ne hj.1, listInit_routeBroker]

theorem createLevels_routeBroker {j : Level} (hj : j ∈ is) :
    (g.createLevels x is).routeBroker j = some (x j) := by
  induction is generalizing g with
  | nil => simp at hj
  | cons i is ih =>
    rw [createLevels_cons]
    by_cases hmem : j ∈ is
    · exact ih hmem
    · have hij : j = i := by simpa [hmem] using hj
      rw [createLevels_routeBroker_of_notMem hmem, hij]
      show Function.update g.listInit.routeBroker i (some (x i)) i = _
      rw [Function.update_self]

/-- The brokers of the levels come to the front of a list that was sound. -/
theorem createLevels_ring {l : List BAddr} (hinit : g.inited = true) (h : g.brokerList.Ring l)
    (hx : Function.Injective x) (his : is.Nodup) (hl : ∀ i ∈ is, x i ∉ l) :
    (g.createLevels x is).brokerList.Ring ((is.map x).reverse ++ l) := by
  induction is generalizing g l with
  | nil => exact h
  | cons i is ih =>
    rw [List.nodup_cons] at his
    have hr : (g.createLevel x i).brokerList.Ring (x i :: l) := by
      show (g.listInit.brokerList.insertHead (x i)).Ring _
      rw [listInit_of_inited hinit]
      exact h.insertHead (hl i List.mem_cons_self)
    have hcons : ((i :: is).map x).reverse ++ l = (is.map x).reverse ++ x i :: l := by simp
    have hinit' : (g.createLevel x i).inited = true := listInit_inited
    rw [createLevels_cons, hcons]
    refine ih hinit' hr his.2 (fun j hj => ?_)
    rw [List.mem_cons, not_or]
    exact ⟨fun he => his.1 (hx he ▸ hj), hl j (List.mem_cons_of_mem i hj)⟩

/-- Whatever the list was, a walk from the head meets the new brokers, and then what
stood first. -/
theorem createLevels_chain {as : List BAddr} {d : BAddr} (hinit : g.inited = true)
    (h : (.head :: (as ++ [d]).map Ptr.entry).IsChain fun p q => g.brokerList.next p = q)
    (hx : Function.Injective x) (his : is.Nodup) (hl : ∀ i ∈ is, x i ∉ as) :
    (.head :: ((is.map x).reverse ++ as ++ [d]).map Ptr.entry).IsChain
      fun p q => (g.createLevels x is).brokerList.next p = q := by
  induction is generalizing g as with
  | nil => exact h
  | cons i is ih =>
    rw [List.nodup_cons] at his
    have hr : (.head :: (x i :: as ++ [d]).map Ptr.entry).IsChain
        fun p q => (g.createLevel x i).brokerList.next p = q := by
      show List.IsChain (fun p q => (g.listInit.brokerList.insertHead (x i)).next p = q) _
      rw [listInit_of_inited hinit]
      exact Links.chain_next_insertHead (hl i List.mem_cons_self) h
    have hcons : ((i :: is).map x).reverse ++ as = (is.map x).reverse ++ x i :: as := by simp
    have hinit' : (g.createLevel x i).inited = true := listInit_inited
    rw [createLevels_cons, hcons]
    refine ih hinit' hr his.2 (fun j hj => ?_)
    rw [List.mem_cons, not_or]
    exact ⟨fun he => his.1 (hx he ▸ hj), hl j (List.mem_cons_of_mem i hj)⟩

theorem createLevels_next_head (j : Level) :
    (g.createLevels x (is ++ [j])).brokerList.next .head = .entry (x j) := by
  unfold createLevels
  rw [List.foldl_append]
  show ((Links.insertHead _ (x j)).next .head) = _
  rw [Links.insertHead_next, Function.update_self]

end Init

/-! ## What holds whatever the calls are -/

/-- Before the first `route_broker_init`. -/
structure Fresh (g : Globals BAddr Addr Cl Topic Data) : Prop where
  inited : g.inited = false
  hashtbl : g.routeHashtbl = false
  allocated : ∀ y, g.allocated y = false
  level : ∀ i, g.routeBroker i = none

/-- After it: the pointers of the levels are those of the last `route_broker_init`, the
list starts with the broker it created last, and a destroy that returned 0 has freed
the levels. -/
structure Started (g : Globals BAddr Addr Cl Topic Data) (x : Level → BAddr) : Prop where
  inited : g.inited = true
  injective : Function.Injective x
  level : ∀ i, g.routeBroker i = some (x i)
  first : g.brokerList.next .head = .entry (x 2)
  freed : g.routeHashtbl = false → ∀ i, g.allocated (x i) = false

/-- One or the other. -/
def Inv (g : Globals BAddr Addr Cl Topic Data) : Prop := g.Fresh ∨ ∃ x, g.Started x

theorem inv_start (m : Links BAddr) :
    (start m : Globals BAddr Addr Cl Topic Data).Inv :=
  Or.inl ⟨rfl, rfl, fun _ => rfl, fun _ => rfl⟩

theorem Sound.level_eq {g : Globals BAddr Addr Cl Topic Data} (h : g.Sound) {i : Level}
    {x : BAddr} (hx : g.routeBroker i = some x) : g.allocated x = true := by
  obtain ⟨y, hy, halloc⟩ := h.level i
  rw [hx] at hy
  injection hy with hy
  rw [hy]
  exact halloc

section Init

variable [DecidableEq BAddr] {g : Globals BAddr Addr Cl Topic Data} {x x₀ : Level → BAddr}

theorem started_init (hx : Function.Injective x) : (g.routeBrokerInit x).Started x where
  inited := by
    show (g.createLevels x (0 :: [1, 2])).inited = true
    rw [createLevels_listInit]
    exact createLevels_inited listInit_inited
  injective := hx
  level := fun i => createLevels_routeBroker (List.mem_finRange i)
  first := by
    show (g.createLevels x ([0, 1] ++ [2])).brokerList.next .head = _
    exact createLevels_next_head 2
  freed := fun h => nomatch h

theorem init_allocated (y : BAddr) : (g.routeBrokerInit x).allocated y = true ↔
    y ∈ (List.finRange routePriorityMax).map x ∨ g.allocated y = true := by
  show (g.createLevels x (List.finRange routePriorityMax)).allocated y = true ↔ _
  exact createLevels_allocated y

/-- An initialisation of a list without freed brokers leaves one. -/
theorem init_sound {l : List BAddr} (hr : g.listInit.brokerList.Ring l)
    (hl : ∀ y, y ∈ l ↔ g.allocated y = true) (hx : Function.Injective x)
    (hfree : ∀ i, g.allocated (x i) = false) : (g.routeBrokerInit x).Sound := by
  refine ⟨⟨((List.finRange routePriorityMax).map x).reverse ++ l, ?_, fun y => ?_⟩, fun i => ?_⟩
  · show (g.createLevels x (0 :: [1, 2])).brokerList.Ring _
    rw [createLevels_listInit]
    refine createLevels_ring listInit_inited hr hx (by decide) (fun i _ hmem => ?_)
    have halloc := (hl (x i)).mp hmem
    rw [hfree i] at halloc
    exact Bool.false_ne_true halloc
  · rw [init_allocated, List.mem_append, List.mem_reverse, hl]
  · refine ⟨x i, (started_init hx).level i, (init_allocated (x i)).mpr (Or.inl ?_)⟩
    exact List.mem_map_of_mem (List.mem_finRange i)

theorem Fresh.init_sound (h : g.Fresh) (hx : Function.Injective x) : (g.routeBrokerInit x).Sound := by
  refine Globals.init_sound (l := []) ?_ (fun y => ?_) hx (fun i => h.allocated (x i))
  · rw [listInit_brokerList_of_not_inited h.inited]
    exact Links.ring_init _
  · simp [h.allocated y]

theorem Started.init_sound (h : g.Started x₀) (hs : g.Sound) (hx : Function.Injective x)
    (hfree : ∀ i, g.allocated (x i) = false) : (g.routeBrokerInit x).Sound := by
  obtain ⟨l, hr, hl⟩ := hs.list
  refine Globals.init_sound ?_ hl hx hfree
  rw [listInit_of_inited h.inited]
  exact hr

/-- **Initialising again.**  After a destroy that returned 0 the list starts with a freed
broker.  The next initialisation puts its brokers in front of it, at whatever addresses,
and the list is not that of the brokers any more. -/
theorem Started.init_not_sound (h : g.Started x₀) (hd : g.routeHashtbl = false)
    (hx : Function.Injective x) : ¬ (g.routeBrokerInit x).Sound := by
  rintro ⟨⟨l, hr, hl⟩, -⟩
  have hfirst : (.head :: (([] : List BAddr) ++ [x₀ 2]).map Ptr.entry).IsChain
      fun p q => g.brokerList.next p = q := List.isChain_pair.mpr h.first
  have hwalk := createLevels_chain h.inited hfirst hx (List.nodup_finRange routePriorityMax)
    (fun _ _ => List.not_mem_nil)
  have hprefix := hr.prefix_of_next hwalk
  have hn := hprefix.sublist.nodup hr.nodup
  have hmem : x₀ 2 ∈ l := hprefix.subset (by simp)
  rcases (init_allocated (x₀ 2)).mp ((hl _).mp hmem) with hnew | hold
  · -- its address was used again: the walk meets it twice
    rw [List.append_nil, List.nodup_append] at hn
    exact hn.2.2 _ (List.mem_reverse.mpr hnew) _ (List.mem_singleton.mpr rfl) rfl
  · rw [h.freed hd] at hold
    exact Bool.false_ne_true hold

end Init

/-! ## `route_broker_destroy` -/

section Destroy

variable [DecidableEq BAddr] {g g' : Globals BAddr Addr Cl Topic Data} {i : Level}
  {is : List Level} {x : BAddr} {rc : ℤ}

theorem free_allocated (y : BAddr) : (g.free x).allocated y = true ↔
    y ≠ x ∧ g.allocated y = true := by
  unfold free
  by_cases hy : y = x
  · simp [hy]
  · simp [hy]

theorem brokerDelete_of_null (h : g.routeBroker i = none) :
    g.brokerDelete i = some (-enoent, g) := by
  unfold brokerDelete
  rw [h]

theorem brokerDelete_of_freed (h : g.routeBroker i = some x) (hx : g.allocated x = false) :
    g.brokerDelete i = none := by
  unfold brokerDelete
  simp only [h, hx, Bool.false_eq_true, if_false]

theorem brokerDelete_of_empty (h : g.routeBroker i = some x) (hx : g.allocated x = true)
    (he : g.EmptyLevel i) : g.brokerDelete i = some (0, g.free x) := by
  unfold brokerDelete
  simp only [h, hx, he.1, he.2, List.isEmpty_nil, if_true]

theorem brokerDelete_of_not_empty (h : g.routeBroker i = some x) (hx : g.allocated x = true)
    (he : ¬ g.EmptyLevel i) : g.brokerDelete i = some (-enotempty, g) := by
  unfold brokerDelete
  simp only [h, hx, if_true]
  by_cases hc : (g.world.rb.level i).clientList = []
  · have ho : (g.world.rb.level i).objList ≠ [] := fun ho => he ⟨hc, ho⟩
    simp [hc, ho]
  · simp [hc]

/-- What `broker_delete` does when it has an outcome: it refuses and leaves everything as
it is, or it frees the broker of an empty level. -/
theorem brokerDelete_cases (h : g.brokerDelete i = some (rc, g')) :
    (rc ≠ 0 ∧ g' = g ∧ (g.routeBroker i = none ∨ ¬ g.EmptyLevel i)) ∨
    (rc = 0 ∧ g.EmptyLevel i ∧ ∃ x, g.routeBroker i = some x ∧ g.allocated x = true ∧
      g' = g.free x) := by
  cases hx : g.routeBroker i with
  | none =>
    rw [brokerDelete_of_null hx, Option.some.injEq, Prod.mk.injEq] at h
    refine Or.inl ⟨?_, h.2.symm, Or.inl rfl⟩
    rw [← h.1]
    decide
  | some x =>
    cases halloc : g.allocated x with
    | false =>
      rw [brokerDelete_of_freed hx halloc] at h
      cases h
    | true =>
      by_cases he : g.EmptyLevel i
      · rw [brokerDelete_of_empty hx halloc he, Option.some.injEq, Prod.mk.injEq] at h
        exact Or.inr ⟨h.1.symm, he, x, rfl, halloc, h.2.symm⟩
      · rw [brokerDelete_of_not_empty hx halloc he, Option.some.injEq, Prod.mk.injEq] at h
        refine Or.inl ⟨?_, h.2.symm, Or.inr he⟩
        rw [← h.1]
        decide

/-- One round of the loop: it ends at a broker that is not there or not empty, or it frees
the broker of an empty level and goes on. -/
theorem destroyLevels_cons (h : destroyLevels (i :: is) g = some (rc, g')) :
    (rc ≠ 0 ∧ g' = g ∧ (g.routeBroker i = none ∨ ¬ g.EmptyLevel i)) ∨
    (g.EmptyLevel i ∧ ∃ x, g.routeBroker i = some x ∧
      destroyLevels is (g.free x) = some (rc, g')) := by
  rw [destroyLevels, Option.bind_eq_some_iff] at h
  obtain ⟨⟨rc₁, g₁⟩, hdel, h⟩ := h
  dsimp only at h
  rcases brokerDelete_cases hdel with ⟨hrc, rfl, hwhy⟩ | ⟨hrc, he, x, hx, -, rfl⟩
  · rw [if_pos hrc, Option.some.injEq, Prod.mk.injEq] at h
    exact Or.inl ⟨h.1 ▸ hrc, h.2.symm, hwhy⟩
  · rw [if_neg (by simpa using hrc)] at h
    exact Or.inr ⟨he, x, hx, h⟩

/-- The outcome of the loop: brokers are freed and nothing else is touched; it returns 0
exactly if all levels were there and empty, and then it has freed them. -/
structure DestroyLevels (is : List Level) (g g' : Globals BAddr Addr Cl Topic Data) (rc : ℤ) :
    Prop where
  frame : g' = { g with allocated := g'.allocated }
  mono : ∀ y, g'.allocated y = true → g.allocated y = true
  ok : rc = 0 → ∀ i ∈ is, g.EmptyLevel i ∧ ∃ x, g.routeBroker i = some x ∧ g'.allocated x = false
  refused : rc ≠ 0 → ∃ i ∈ is, g.routeBroker i = none ∨ ¬ g.EmptyLevel i

/-- What was free before the loop is free after it. -/
theorem DestroyLevels.freed (h : DestroyLevels is (g.free x) g' rc) : g'.allocated x = false := by
  rw [← Bool.not_eq_true]
  intro hy
  exact ((free_allocated x).mp (h.mono x hy)).1 rfl

theorem destroyLevels_outcome (h : destroyLevels is g = some (rc, g')) :
    DestroyLevels is g g' rc := by
  induction is generalizing g with
  | nil =>
    rw [destroyLevels, Option.some.injEq, Prod.mk.injEq] at h
    obtain ⟨rfl, rfl⟩ := h
    exact ⟨rfl, fun _ hy => hy, fun _ i hi => absurd hi List.not_mem_nil, fun hrc => absurd rfl hrc⟩
  | cons i is ih =>
    rcases destroyLevels_cons h with ⟨hrc, rfl, hwhy⟩ | ⟨he, x, hx, hrest⟩
    · exact ⟨rfl, fun _ hy => hy, fun hz => absurd hz hrc, fun _ => ⟨i, List.mem_cons_self, hwhy⟩⟩
    · have hr := ih hrest
      refine ⟨hr.frame, fun y hy => ?_, fun hz j hj => ?_, fun hz => ?_⟩
      · exact ((free_allocated y).mp (hr.mono y hy)).2
      · rcases List.mem_cons.mp hj with rfl | hj
        · exact ⟨he, x, hx, hr.freed⟩
        · exact hr.ok hz j hj
      · obtain ⟨j, hj, hwhy⟩ := hr.refused hz
        exact ⟨j, List.mem_cons_of_mem i hj, hwhy⟩

/-- A destroy that finds the first of the levels empty frees it, whatever comes after. -/
theorem destroyLevels_frees (h : destroyLevels (i :: is) g = some (rc, g'))
    (he : g.EmptyLevel i) (hx : g.routeBroker i = some x) : g'.allocated x = false := by
  rcases destroyLevels_cons h with ⟨-, -, hnone | hne⟩ | ⟨-, y, hy, hrest⟩
  · rw [hx] at hnone
    cases hnone
  · exact absurd he hne
  · rw [hx] at hy
    injection hy with hy
    rw [hy]
    exact (destroyLevels_outcome hrest).freed

/-- In brokers that are allocated at different addresses the loop has an outcome. -/
theorem destroyLevels_defined {x : Level → BAddr} (hx : Function.Injective x)
    (his : is.Nodup) (hlevel : ∀ i ∈ is, g.routeBroker i = some (x i) ∧ g.allocated (x i) = true) :
    ∃ r, destroyLevels is g = some r := by
  induction is generalizing g with
  | nil => exact ⟨_, rfl⟩
  | cons i is ih =>
    rw [List.nodup_cons] at his
    obtain ⟨hi, halloc⟩ := hlevel i List.mem_cons_self
    unfold destroyLevels
    by_cases he : g.EmptyLevel i
    · rw [brokerDelete_of_empty hi halloc he, Option.bind_some, if_neg (by simp)]
      refine ih his.2 (fun j hj => ?_)
      obtain ⟨hj', halloc'⟩ := hlevel j (List.mem_cons_of_mem i hj)
      have hne : x j ≠ x i := fun heq => his.1 (hx heq ▸ hj)
      exact ⟨hj', (free_allocated (x j)).mpr ⟨hne, halloc'⟩⟩
    · rw [brokerDelete_of_not_empty hi halloc he, Option.bind_some]
      exact ⟨_, if_pos (show (-enotempty : ℤ) ≠ 0 by decide)⟩

/-- What `route_broker_destroy` does when it has an outcome. -/
theorem routeBrokerDestroy_cases (h : g.routeBrokerDestroy = some (rc, g')) :
    ∃ g₁, destroyLevels (List.finRange routePriorityMax) g = some (rc, g₁) ∧
      ((rc ≠ 0 ∧ g' = g₁) ∨
        (rc = 0 ∧ g' = { g₁ with routeHashtbl := false, world := g₁.world.zhashDestroy })) := by
  unfold routeBrokerDestroy at h
  rw [Option.map_eq_some_iff] at h
  obtain ⟨⟨rc₁, g₁⟩, hloop, h⟩ := h
  dsimp only at h
  by_cases hrc : rc₁ = 0
  · rw [if_neg (by simpa using hrc), Prod.mk.injEq] at h
    obtain ⟨rfl, rfl⟩ := h
    exact ⟨g₁, hrc ▸ hloop, Or.inr ⟨rfl, rfl⟩⟩
  · rw [if_pos hrc, Prod.mk.injEq] at h
    obtain ⟨rfl, rfl⟩ := h
    exact ⟨g₁, hloop, Or.inl ⟨hrc, rfl⟩⟩

end Destroy

/-! ## Runs of the library -/

section Runs

variable [DecidableEq BAddr] [DecidableEq Addr] [DecidableEq Cl] [DecidableEq Topic]
  {gen : Data → ℤ × Topic × Bool} {copy : Data → Data} {g g' : Globals BAddr Addr Cl Topic Data}
  {x : Level → BAddr}

theorem step_init : g.step gen copy (.init x) = some g' ↔
    (Function.Injective x ∧ ∀ i, g.allocated (x i) = false) ∧ g' = g.routeBrokerInit x := by
  simp only [step, Option.ite_none_right_eq_some, Option.some.injEq]
  exact and_congr_right (fun _ => eq_comm)

theorem step_destroy : g.step gen copy .destroy = some g' ↔
    ∃ rc, g.routeBrokerDestroy = some (rc, g') := by
  simp [step]

theorem step_call {a : RouteCall Addr Cl Data} (h : g.step gen copy (.call a) = some g') :
    g.routeHashtbl = true ∧ ∃ w, g' = { g with world := w } := by
  simp only [step, Option.ite_none_right_eq_some, Option.map_eq_some_iff] at h
  obtain ⟨⟨hh, -⟩, w, -, hg⟩ := h
  exact ⟨hh, w, hg.symm⟩

omit [DecidableEq Addr] [DecidableEq Cl] [DecidableEq Topic] in
/-- Before the first initialisation a destroy is refused. -/
theorem Fresh.destroy (h : g.Fresh) {rc : ℤ} (hd : g.routeBrokerDestroy = some (rc, g')) :
    g'.Fresh := by
  obtain ⟨g₁, hloop, hcases⟩ := routeBrokerDestroy_cases hd
  have hout := destroyLevels_outcome hloop
  have hframe := hout.frame
  rcases hcases with ⟨-, rfl⟩ | ⟨hrc, -⟩
  · refine ⟨?_, ?_, fun y => ?_, fun i => ?_⟩
    · rw [hframe]
      exact h.inited
    · rw [hframe]
      exact h.hashtbl
    · rw [← Bool.not_eq_true]
      intro hy
      exact Bool.false_ne_true ((h.allocated y).symm.trans (hout.mono y hy))
    · rw [hframe]
      exact h.level i
  · obtain ⟨-, x, hx, -⟩ := hout.ok hrc 0 (List.mem_finRange _)
    rw [h.level 0] at hx
    cases hx

omit [DecidableEq Addr] [DecidableEq Cl] [DecidableEq Topic] in
theorem Started.destroy (h : g.Started x) {rc : ℤ} (hd : g.routeBrokerDestroy = some (rc, g')) :
    g'.Started x ∧ (rc ≠ 0 → g'.routeHashtbl = g.routeHashtbl) ∧
      (rc = 0 → g'.routeHashtbl = false) := by
  obtain ⟨g₁, hloop, hcases⟩ := routeBrokerDestroy_cases hd
  have hout := destroyLevels_outcome hloop
  have hframe := hout.frame
  rcases hcases with ⟨hrc, rfl⟩ | ⟨hrc, rfl⟩
  · refine ⟨⟨?_, h.injective, fun i => ?_, ?_, fun hh i => ?_⟩, fun _ => ?_, fun hz => absurd hz hrc⟩
    · rw [hframe]
      exact h.inited
    · rw [hframe]
      exact h.level i
    · rw [hframe]
      exact h.first
    · rw [hframe] at hh
      rw [← Bool.not_eq_true]
      intro hy
      exact Bool.false_ne_true ((h.freed hh i).symm.trans (hout.mono _ hy))
    · rw [hframe]
  · refine ⟨⟨?_, h.injective, fun i => ?_, ?_, fun _ i => ?_⟩, fun hz => absurd hrc hz, fun _ => rfl⟩
    · show g₁.inited = true
      rw [hframe]
      exact h.inited
    · show g₁.routeBroker i = _
      rw [hframe]
      exact h.level i
    · show g₁.brokerList.next .head = _
      rw [hframe]
      exact h.first
    · obtain ⟨-, y, hy, hfreed⟩ := hout.ok hrc i (List.mem_finRange _)
      rw [h.level i] at hy
      injection hy with hy
      rw [hy]
      exact hfreed

/-- Every call keeps the invariant. -/
theorem step_inv {c : LibraryCall BAddr Addr Cl Data} (h : g.step gen copy c = some g')
    (hi : g.Inv) : g'.Inv := by
  cases c with
  | init x =>
    obtain ⟨⟨hx, -⟩, rfl⟩ := step_init.mp h
    exact Or.inr ⟨x, started_init hx⟩
  | destroy =>
    obtain ⟨rc, hd⟩ := step_destroy.mp h
    rcases hi with hf | ⟨x, hs⟩
    · exact Or.inl (hf.destroy hd)
    · exact Or.inr ⟨x, (hs.destroy hd).1⟩
  | call a =>
    obtain ⟨hh, w, rfl⟩ := step_call h
    rcases hi with hf | ⟨x, hs⟩
    · exact Or.inl ⟨hf.inited, hf.hashtbl, hf.allocated, hf.level⟩
    · exact Or.inr ⟨x, hs.inited, hs.injective, hs.level, hs.first, hs.freed⟩

omit [DecidableEq Addr] [DecidableEq Cl] [DecidableEq Topic] in
/-- A destroy that returns an error has freed brokers, at most. -/
theorem destroy_refused {rc : ℤ} (hd : g.routeBrokerDestroy = some (rc, g')) (hrc : rc ≠ 0) :
    g' = { g with allocated := g'.allocated } := by
  obtain ⟨g₁, hloop, ⟨-, rfl⟩ | ⟨hz, -⟩⟩ := routeBrokerDestroy_cases hd
  · exact (destroyLevels_outcome hloop).frame
  · exact absurd hz hrc

omit [DecidableEq Addr] [DecidableEq Cl] [DecidableEq Topic] in
/-- A destroy that returns an error after it has found the level 0 empty has freed that
level. -/
theorem Started.destroy_frees (h : g.Started x) {rc : ℤ}
    (hd : g.routeBrokerDestroy = some (rc, g')) (he : g.EmptyLevel 0) (hrc : rc ≠ 0) :
    g'.allocated (x 0) = false := by
  obtain ⟨g₁, hloop, ⟨-, rfl⟩ | ⟨hz, -⟩⟩ := routeBrokerDestroy_cases hd
  · have hloop' : destroyLevels (0 :: [1, 2]) g = some (rc, g') := hloop
    exact destroyLevels_frees hloop' he (h.level 0)
  · exact absurd hz hrc

omit [DecidableEq Addr] [DecidableEq Cl] [DecidableEq Topic] in
/-- **A partial destroy.**  Then `route_broker[0]` points to a freed broker. -/
theorem Started.destroy_not_sound (h : g.Started x) {rc : ℤ}
    (hd : g.routeBrokerDestroy = some (rc, g')) (he : g.EmptyLevel 0) (hrc : rc ≠ 0) :
    ¬ g'.Sound := by
  intro hs
  have hptr : g'.routeBroker 0 = some (x 0) := by
    rw [destroy_refused hd hrc]
    exact h.level 0
  exact Bool.false_ne_true ((h.destroy_frees hd he hrc).symm.trans (hs.level_eq hptr))

omit [DecidableEq Addr] [DecidableEq Cl] [DecidableEq Topic] in
/-- A destroy that finds entries at the level 0 is refused at once. -/
theorem routeBrokerDestroy_of_not_empty {y : BAddr} (hy : g.routeBroker 0 = some y)
    (halloc : g.allocated y = true) (he : ¬ g.EmptyLevel 0) :
    g.routeBrokerDestroy = some (-enotempty, g) := by
  have hloop : destroyLevels (0 :: [1, 2]) g = some (-enotempty, g) := by
    rw [destroyLevels, brokerDelete_of_not_empty hy halloc he, Option.bind_some,
      if_pos (show (-enotempty : ℤ) ≠ 0 by decide)]
  show (destroyLevels (0 :: [1, 2]) g).map _ = _
  rw [hloop]
  exact congrArg some (if_pos (show (-enotempty : ℤ) ≠ 0 by decide))

omit [DecidableEq Addr] [DecidableEq Cl] [DecidableEq Topic] in
/-- A destroy keeps the globals sound exactly if it frees all levels or none. -/
theorem Started.destroy_sound_iff (h : g.Started x) (hs : g.Sound) {rc : ℤ}
    (hd : g.routeBrokerDestroy = some (rc, g')) (hh : g.routeHashtbl = true) :
    (g'.Usable → g'.Sound) ↔ (g.EmptyLevel 0 → ∀ i, g.EmptyLevel i) := by
  obtain ⟨-, hkeep, hend⟩ := h.destroy hd
  by_cases he : g.EmptyLevel 0
  · obtain ⟨g₁, hloop, -⟩ := routeBrokerDestroy_cases hd
    have hout := destroyLevels_outcome hloop
    by_cases hall : ∀ i, g.EmptyLevel i
    · have hrc : rc = 0 := by
        by_contra hrc
        obtain ⟨i, -, hnone | hne⟩ := hout.refused hrc
        · rw [h.level i] at hnone
          cases hnone
        · exact hne (hall i)
      refine ⟨fun _ _ => hall, fun _ hu => ?_⟩
      rw [Usable, hend hrc] at hu
      cases hu
    · have hrc : rc ≠ 0 := fun hz => hall fun i => (hout.ok hz i (List.mem_finRange i)).1
      refine ⟨fun hsound => ?_, fun hc => absurd (hc he) hall⟩
      exact absurd (hsound ((hkeep hrc).trans hh)) (h.destroy_not_sound hd he hrc)
  · rw [routeBrokerDestroy_of_not_empty (h.level 0) (hs.level_eq (h.level 0)) he,
      Option.some.injEq, Prod.mk.injEq] at hd
    obtain ⟨-, rfl⟩ := hd
    exact ⟨fun _ he' => absurd he' he, fun _ _ => hs⟩

omit [DecidableEq Addr] [DecidableEq Cl] [DecidableEq Topic] in
/-- After a destroy that returned 0 another one follows pointers to freed brokers. -/
theorem Started.destroy_undefined (h : g.Started x) (hh : g.routeHashtbl = false) :
    g.routeBrokerDestroy = none := by
  show (destroyLevels (0 :: [1, 2]) g).map _ = none
  unfold destroyLevels
  rw [brokerDelete_of_freed (h.level 0) (h.freed hh 0)]
  rfl

/-- **One call.**  From a state in which no global refers to a freed broker, a call leads
to one exactly if it is careful. -/
theorem step_sound_iff {c : LibraryCall BAddr Addr Cl Data} (h : g.step gen copy c = some g')
    (hi : g.Inv) (hs : g.Usable → g.Sound) : (g'.Usable → g'.Sound) ↔ g.Careful c := by
  cases c with
  | init y =>
    obtain ⟨⟨hy, hfree⟩, rfl⟩ := step_init.mp h
    rw [Careful]
    rcases hi with hf | ⟨x, hst⟩
    · exact ⟨fun _ hin => absurd (hf.inited.symm.trans hin) Bool.false_ne_true,
        fun _ _ => hf.init_sound hy⟩
    · by_cases hh : g.routeHashtbl = true
      · exact ⟨fun _ _ => hh, fun _ _ => hst.init_sound (hs hh) hy hfree⟩
      · rw [Bool.not_eq_true] at hh
        refine ⟨fun hsound => absurd (hsound rfl) (hst.init_not_sound hh hy), fun hc => ?_⟩
        exact absurd (hh.symm.trans (hc hst.inited)) Bool.false_ne_true
  | destroy =>
    obtain ⟨rc, hd⟩ := step_destroy.mp h
    rw [Careful]
    rcases hi with hf | ⟨x, hst⟩
    · refine ⟨fun _ hh => absurd (hf.hashtbl.symm.trans hh) Bool.false_ne_true, fun _ hu => ?_⟩
      exact absurd ((hf.destroy hd).hashtbl.symm.trans hu) Bool.false_ne_true
    · by_cases hh : g.routeHashtbl = true
      · rw [hst.destroy_sound_iff (hs hh) hd hh]
        exact ⟨fun hc _ => hc, fun hc => hc hh⟩
      · rw [Bool.not_eq_true] at hh
        rw [hst.destroy_undefined hh] at hd
        cases hd
  | call a =>
    obtain ⟨hh, w, rfl⟩ := step_call h
    exact ⟨fun _ => trivial, fun _ _ => ⟨(hs hh).list, (hs hh).level⟩⟩

/-- **No global refers to a freed broker**, in every state of a run in which the library
may be used, exactly if `route_broker_init` is never called after a
`route_broker_destroy` that returned 0, and every `route_broker_destroy` that finds the
level 0 empty finds all levels empty.

Moreover, where that holds, `route_broker_destroy` has an outcome, and when it is not 0
the levels keep what they hold, the hash table stays, and all levels are still allocated
exactly if the level 0 was not empty. -/
theorem globals_sound_iff (gen : Data → ℤ × Topic × Bool) (copy : Data → Data) (m : Links BAddr) :
    (∀ as : List (LibraryCall BAddr Addr Cl Data),
      (librarySystem gen copy m).Along (fun g => g.Usable → g.Sound) (start m) as ↔
        (librarySystem gen copy m).Guarded Careful (start m) as) ∧
    ∀ g : Globals BAddr Addr Cl Topic Data, (librarySystem gen copy m).Reachable g →
      g.Usable → g.Sound → ∃ rc g', g.routeBrokerDestroy = some (rc, g') ∧
        (rc ≠ 0 → g'.world = g.world ∧ g'.routeBroker = g.routeBroker ∧
          g'.routeHashtbl = g.routeHashtbl ∧ g'.brokerList = g.brokerList ∧
          ((∀ i, ∃ y, g'.routeBroker i = some y ∧ g'.allocated y = true) ↔
            ¬ g.EmptyLevel 0)) := by
  refine ⟨fun as => ?_, fun g hg hu hs => ?_⟩
  · apply System.along_iff_guarded (J := Inv)
    · intro g c g' hi h
      exact step_inv h hi
    · intro g c g' hi hs h
      exact step_sound_iff h hi hs
    · exact inv_start m
    · exact fun hu => nomatch hu
  · have hi : g.Inv := hg.induction (P := Inv) (inv_start m) (fun _ _ _ hi h => step_inv h hi)
    obtain ⟨x, hst⟩ : ∃ x, g.Started x := by
      rcases hi with hf | hst
      · exact absurd (hf.hashtbl.symm.trans hu) Bool.false_ne_true
      · exact hst
    obtain ⟨⟨rc, g₁⟩, hloop⟩ := destroyLevels_defined hst.injective
      (List.nodup_finRange routePriorityMax)
      (fun i _ => ⟨hst.level i, hs.level_eq (hst.level i)⟩)
    obtain ⟨⟨rc, g'⟩, hd⟩ : ∃ r, g.routeBrokerDestroy = some r := by
      unfold routeBrokerDestroy
      rw [hloop]
      exact ⟨_, rfl⟩
    refine ⟨rc, g', hd, fun hrc => ?_⟩
    by_cases he : g.EmptyLevel 0
    · have hframe := destroy_refused hd hrc
      have hptr : g'.routeBroker = g.routeBroker := by rw [hframe]
      refine ⟨by rw [hframe], hptr, by rw [hframe], by rw [hframe], fun hall => ?_,
        fun hne => absurd he hne⟩
      obtain ⟨y, hy, halloc⟩ := hall 0
      rw [hptr, hst.level 0] at hy
      injection hy with hy
      rw [← hy] at halloc
      exact absurd ((hst.destroy_frees hd he hrc).symm.trans halloc) Bool.false_ne_true
    · rw [routeBrokerDestroy_of_not_empty (hst.level 0) (hs.level_eq (hst.level 0)) he,
        Option.some.injEq, Prod.mk.injEq] at hd
      obtain ⟨-, rfl⟩ := hd
      exact ⟨rfl, rfl, rfl, rfl, fun _ => he, fun _ => hs.level⟩

end Runs

/-- A run to a state that is not fresh any more. -/
theorem started_of_exec [DecidableEq BAddr] [DecidableEq Addr] [DecidableEq Cl]
    [DecidableEq Topic] {gen : Data → ℤ × Topic × Bool} {copy : Data → Data} {m : Links BAddr}
    {g : Globals BAddr Addr Cl Topic Data} {as : List (LibraryCall BAddr Addr Cl Data)}
    (h : (librarySystem gen copy m).exec (start m) as = some g) (hin : g.inited = true) :
    ∃ x, g.Started x := by
  have hi : g.Inv := System.exec_induction (M := librarySystem gen copy m)
    (fun _ _ _ hi hst => step_inv hst hi) h (inv_start m)
  rcases hi with hf | hst
  · exact absurd (hf.inited.symm.trans hin) Bool.false_ne_true
  · exact hst

/-- Links that were never initialised. -/
def zeroLinks : Links ℕ where
  next := fun _ => .head
  prev := fun _ => .head

/-- Two runs that leave a global pointing to a freed broker.  Initialising after a
destroy that returned 0 ruins the list, here with brokers at the addresses of the first
time; and with routes at the lowest priority alone a destroy frees the other two levels
before it returns `-ENOTEMPTY`. -/
theorem globals_refer_to_freed :
    (∃ g : Globals ℕ ℕ ℕ ℕ (ℕ × ℕ × Bool), (librarySystem plainGen id zeroLinks).exec
        (start zeroLinks) [.init fun i => i, .destroy, .init fun i => i] = some g ∧
      g.Usable ∧ ¬ g.Sound) ∧
    ∃ g g' : Globals ℕ ℕ ℕ ℕ (ℕ × ℕ × Bool), (librarySystem plainGen id zeroLinks).exec
        (start zeroLinks) [.init fun i => i, .call (.publish 100 (7, 1, false) 2)] = some g ∧
      g.routeBrokerDestroy = some (-enotempty, g') ∧ g'.Usable ∧
      g'.routeBroker 0 = some 0 ∧ g'.allocated 0 = false ∧ g'.routeBroker 2 = some 2 ∧
      g'.allocated 2 = true ∧ ¬ g'.Sound := by
  constructor
  · obtain ⟨g, hexec, hp⟩ := (librarySystem plainGen id zeroLinks).exists_of_exec_any
      (start zeroLinks) [.init fun i => i, .destroy]
      (fun g : Globals ℕ ℕ ℕ ℕ (ℕ × ℕ × Bool) => decide (g.inited = true ∧
        g.routeHashtbl = false ∧ ∀ i : Level, g.allocated i = false)) (by decide +kernel)
    rw [decide_eq_true_eq] at hp
    obtain ⟨hin, hh, hfree⟩ := hp
    obtain ⟨x, hst⟩ := started_of_exec hexec hin
    have hinj : Function.Injective fun i : Level => (i : ℕ) := Fin.val_injective
    have hstep : g.step plainGen id (.init fun i => i) = some (g.routeBrokerInit fun i => i) :=
      step_init.mpr ⟨⟨hinj, hfree⟩, rfl⟩
    refine ⟨g.routeBrokerInit fun i => i, ?_, rfl, hst.init_not_sound hh hinj⟩
    show (librarySystem plainGen id zeroLinks).exec _
      ([.init fun i => i, .destroy] ++ [.init fun i => i]) = _
    rw [System.exec_append, hexec, Option.bind_some, System.exec_cons]
    show (g.step plainGen id (.init fun i => i)).bind _ = _
    rw [hstep]
    rfl
  · obtain ⟨g, hexec, hp⟩ := (librarySystem plainGen id zeroLinks).exists_of_exec_any
      (start zeroLinks) [.init fun i => i, .call (.publish 100 (7, 1, false) 2)]
      (fun g : Globals ℕ ℕ ℕ ℕ (ℕ × ℕ × Bool) => g.routeBrokerDestroy.any
        fun r : ℤ × Globals ℕ ℕ ℕ ℕ (ℕ × ℕ × Bool) =>
          decide (r.1 = -enotempty ∧ r.2.routeHashtbl = true ∧ r.2.routeBroker 0 = some 0 ∧
            r.2.allocated 0 = false ∧ r.2.routeBroker 2 = some 2 ∧ r.2.allocated 2 = true))
      (by decide +kernel)
    rw [Option.any_eq_true] at hp
    obtain ⟨⟨rc, g'⟩, hd, hp⟩ := hp
    rw [decide_eq_true_eq] at hp
    obtain ⟨rfl, hh, h0, hfreed, h2, h2'⟩ := hp
    refine ⟨g, g', hexec, hd, hh, h0, hfreed, h2, h2', fun hs => ?_⟩
    exact Bool.false_ne_true (hfreed.symm.trans (hs.level_eq h0))

end Globals
