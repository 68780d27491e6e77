/-
# Priorities

As long as no level has counted up its id `2^64` times, all levels stay ordered
(`reachable_levels_ordered`).  `route_broker_client_get_data` looks at ids only: it reads
from the first level whose id differs from that of the client there.  In an ordered
level equal ids mean that nothing is pending, so the levels it passes over have nothing
for the client; and a level that has nothing either, although the ids differ, is brought
up to date by the read, which returns `NULL`, and is passed over by the next one.

Main result: `strict_priority`.
-/
import RouteBroker.RouteRun
import RouteBroker.BrokerWrap

open Circleq Broker

variable {Addr Cl Topic Data : Type*}

/-! ## Order in every level -/

/-- Ids are only counted up from `rb` to `rb'`, and levels that have not been counted
up `2^64` times stay ordered. -/
def KeepsOrder (rb rb' : RouteBroker Addr Cl Topic Data) : Prop :=
  ∀ i, (rb.level i).increments ≤ (rb'.level i).increments ∧
    ((rb'.level i).increments < 2 ^ 64 → (rb.level i).Ordered → (rb'.level i).Ordered)

section Order

variable {gen : Data → ℤ × Topic × Bool} {copy : Data → Data}
  {rb rb' rb'' : RouteBroker Addr Cl Topic Data} {a : Addr} {route : RibRoute Topic Data}
  {i : Level} {del : Bool}

theorem KeepsOrder.trans (h : KeepsOrder rb rb') (h' : KeepsOrder rb' rb'') :
    KeepsOrder rb rb'' := by
  intro i
  obtain ⟨hle, hord⟩ := h i
  obtain ⟨hle', hord'⟩ := h' i
  exact ⟨hle.trans hle', fun hlt hb => hord' hlt (hord (lt_of_le_of_lt hle' hlt) hb)⟩

theorem keepsOrder_of_level_eq (h : rb'.level = rb.level) : KeepsOrder rb rb' := by
  intro i
  rw [h]
  exact ⟨le_refl _, fun _ hb => hb⟩

theorem keepsOrder_onLevel {bs : Broker Addr Cl × Store Addr Topic Data}
    (hle : (rb.level i).increments ≤ bs.1.increments)
    (hord : bs.1.increments < 2 ^ 64 → (rb.level i).Ordered → bs.1.Ordered) :
    KeepsOrder rb (rb.onLevel i bs) :=
  forall_onLevel (P := fun i b => (rb.level i).increments ≤ b.increments ∧
    (b.increments < 2 ^ 64 → (rb.level i).Ordered → b.Ordered)) ⟨hle, hord⟩
    (fun _ _ => ⟨le_refl _, fun _ hb => hb⟩)

variable [DecidableEq Addr] [DecidableEq Cl] [DecidableEq Topic]

theorem keepsOrder_addObj (hs : Sound gen rb) (ha : rb.store.heap a = none) :
    KeepsOrder rb (rb.addObj a route) :=
  keepsOrder_onLevel (Nat.le_succ _)
    (fun hlt hb => hb.addObj routeBrokerOps (hs.not_listed ha _) _ 0 hlt)

theorem keepsOrder_delObjNow (rb : RouteBroker Addr Cl Topic Data) (i : Level) (a : Addr) :
    KeepsOrder rb (rb.delObjNow i a) :=
  keepsOrder_onLevel (le_refl _) (fun _ hb => hb.delObjNow routeBrokerOps rb.store a)

theorem keepsOrder_delObj (ha : (rb.level i).Listed a) : KeepsOrder rb (rb.delObj i a) := by
  refine keepsOrder_onLevel ?_ (fun hlt hb => hb.delObj routeBrokerOps ha rb.store hlt)
  rw [delObj_increments]
  exact Nat.le_add_right _ _

omit [DecidableEq Topic] in
theorem keepsOrder_updObj (ha : (rb.level i).Listed a) : KeepsOrder rb (rb.updObj i a) := by
  have hinc : (brokerUpdObj (rb.level i) a).increments = (rb.level i).increments + 1 := by
    rw [brokerUpdObj_eq]
    rfl
  refine keepsOrder_onLevel ?_ (fun hlt hb => hb.updObj ha ?_)
  · rw [hinc]
    exact Nat.le_succ _
  · rw [← hinc]
    exact hlt

theorem Published.keepsOrder (hs : Sound gen rb) (hp : Prepared gen rb a route del)
    (hpub : Published rb a route del rb') : KeepsOrder rb rb' := by
  cases hpub with
  | unknown hnone => exact keepsOrder_of_level_eq rfl
  | added hnone => exact (keepsOrder_addObj hs hp.free).trans (keepsOrder_of_level_eq rfl)
  | @deleted h hashed hh hheap hpri =>
    have hset : KeepsOrder rb (rb.setData h hashed route.data) := keepsOrder_of_level_eq rfl
    exact hset.trans (keepsOrder_delObj (hs.listed_of_heap hheap))
  | @updated h hashed hh hheap hpri =>
    have hset : KeepsOrder rb (rb.setData h hashed route.data) := keepsOrder_of_level_eq rfl
    exact hset.trans (keepsOrder_updObj (hs.listed_of_heap hheap))
  | movedDeleted hh hheap hpri =>
    have hf := freed_delObjNow hs hheap
    have hp' := hp.of_freed hf hheap
    have hs' := hf.sound.addObj hp'.free hp'.refcount hp'.gen_ok
    exact (keepsOrder_delObjNow rb _ _).trans ((keepsOrder_addObj hf.sound hp'.free).trans
      (keepsOrder_delObj (addObj_listed_self hp' hs')))
  | moved hh hheap hpri =>
    have hf := freed_delObjNow hs hheap
    have hp' := hp.of_freed hf hheap
    exact (keepsOrder_delObjNow rb _ _).trans ((keepsOrder_addObj hf.sound hp'.free).trans
      (keepsOrder_of_level_eq rfl))

theorem keepsOrder_clientGetData (rb : RouteBroker Addr Cl Topic Data)
    (copyObj : Data → Option Data) (c : Cl) : KeepsOrder rb (rb.clientGetData copyObj c).2 := by
  unfold RouteBroker.clientGetData
  cases rb.dataAvailableForClient c with
  | none => exact keepsOrder_of_level_eq rfl
  | some i =>
    refine keepsOrder_onLevel ?_ (fun _ hb => hb.getData routeBrokerOps _ rb.store _)
    rw [getData_increments]

/-- **Every call keeps the order of the levels.** -/
theorem routeCall_keepsOrder {w w' : RouteWorld Addr Cl Topic Data} {x : RouteCall Addr Cl Data}
    (h : w.call gen copy x = some w') (hc : Consistent gen w.rb) : KeepsOrder w.rb w'.rb := by
  cases x with
  | publish a obj pri =>
    obtain ⟨ha, rfl⟩ := routeCall_publish.mp h
    have hcounted : KeepsOrder w.rb w.rb.counted := keepsOrder_of_level_eq rfl
    by_cases hpos : 0 < (gen (copy obj)).1
    · rw [publish_rb_of_pos w hpos]
      exact hcounted.trans ((publishRoute_published hc.sound.counted _ _ _).keepsOrder
        hc.sound.counted (prepared_newRoute ha hpos))
    · rw [publish_rb_of_ignored w (not_lt.mp hpos)]
      exact keepsOrder_of_level_eq rfl
  | clientCreate c name =>
    obtain ⟨hnew, rfl⟩ := routeCall_clientCreate.mp h
    intro i
    have hlevel : (w.clientCreate c name).rb.level i
        = (brokerClientCreate (w.rb.level i) (some c) (some name)).2 := rfl
    rw [hlevel, clientCreate_increments]
    refine ⟨le_refl _, fun _ hb => hb.clientCreate ?_ name⟩
    rw [hc.wired.clients]
    exact hnew
  | clientDelete c =>
    obtain ⟨hmem, rfl⟩ := routeCall_clientDelete.mp h
    intro i
    have hlevel : (w.clientDelete c).rb.level i
        = (brokerClientDelete routeBrokerOps (w.rb.level i) w.rb.store c).1 :=
      clientDelete_level hc.sound (hc.wired.client c hmem) i
    rw [hlevel, clientDelete_increments routeBrokerOps (hc.sound.linked i)]
    exact ⟨le_refl _, fun _ hb => hb.clientDelete routeBrokerOps w.rb.store c⟩
  | clientGetData c =>
    obtain ⟨-, rfl⟩ := routeCall_clientGetData.mp h
    exact keepsOrder_clientGetData w.rb _ c

omit [DecidableEq Addr] [DecidableEq Cl] [DecidableEq Topic] in
theorem levels_ordered_start (i : Level) :
    ((RouteWorld.start : RouteWorld Addr Cl Topic Data).rb.level i).Ordered := ordered_create

theorem reachable_levels_ordered {w : RouteWorld Addr Cl Topic Data}
    (h : (routeSystem Addr Cl gen copy).Reachable w)
    (hw : ∀ i, (w.rb.level i).increments < 2 ^ 64) (i : Level) : (w.rb.level i).Ordered := by
  have hrun : Consistent gen w.rb ∧
      ∀ i, (w.rb.level i).increments < 2 ^ 64 → (w.rb.level i).Ordered := by
    refine h.induction (P := fun w => Consistent gen w.rb ∧
      ∀ i, (w.rb.level i).increments < 2 ^ 64 → (w.rb.level i).Ordered)
      ⟨consistent_start, fun i _ => levels_ordered_start i⟩ ?_
    rintro v x v' ⟨hc, hord⟩ hstep
    have hkeep := routeCall_keepsOrder hstep hc
    refine ⟨routeCall_consistent hstep hc, fun i hlt => ?_⟩
    obtain ⟨hle, hnext⟩ := hkeep i
    exact hnext hlt (hord i (lt_of_le_of_lt hle hlt))
  exact hrun.2 i (hw i)

end Order

/-! ## Choosing a level -/

section Choice

variable [DecidableEq Addr] [DecidableEq Cl] [DecidableEq Topic]
  {gen : Data → ℤ × Topic × Bool} {rb : RouteBroker Addr Cl Topic Data} {c : Cl} {i : Level}

omit [DecidableEq Addr] [DecidableEq Cl] [DecidableEq Topic] in
/-- The id of the client differs from that of the level. -/
def Behind (rb : RouteBroker Addr Cl Topic Data) (c : Cl) (i : Level) : Prop :=
  ((rb.level i).bobj (.client c)).id ≠ (rb.level i).id

instance (rb : RouteBroker Addr Cl Topic Data) (c : Cl) (i : Level) : Decidable (Behind rb c i) :=
  inferInstanceAs (Decidable (_ ≠ _))

/-- The client is behind in a level that has nothing for it. -/
def Phantom (rb : RouteBroker Addr Cl Topic Data) (c : Cl) (i : Level) : Prop :=
  Behind rb c i ∧ brokerGetNextDataObj (rb.level i) (.client c) = none

instance (rb : RouteBroker Addr Cl Topic Data) (c : Cl) (i : Level) :
    Decidable (Phantom rb c i) :=
  inferInstanceAs (Decidable (_ ∧ _))

omit [DecidableEq Addr] [DecidableEq Cl] [DecidableEq Topic] in
theorem dataAvailable_test (hw : Wired rb) (hc : c ∈ rb.clientList) (i : Level) :
    (((rb.rclient c).client i).any fun k =>
      ((rb.level i).bobj (.client k)).id ≠ (rb.level i).id) = true ↔ Behind rb c i := by
  rw [hw.client c hc i]
  simp [Behind]

omit [DecidableEq Addr] [DecidableEq Cl] [DecidableEq Topic] in
theorem dataAvailable_eq_none (hw : Wired rb) (hc : c ∈ rb.clientList) :
    rb.dataAvailableForClient c = none ↔ ∀ i, ¬ Behind rb c i := by
  unfold RouteBroker.dataAvailableForClient
  rw [List.find?_eq_none]
  constructor
  · intro h i hi
    exact h i (List.mem_finRange i) ((dataAvailable_test hw hc i).mpr hi)
  · intro h i _ hi
    exact h i ((dataAvailable_test hw hc i).mp hi)

omit [DecidableEq Addr] [DecidableEq Cl] [DecidableEq Topic] in
/-- The level that is read is the first one in which the client is behind. -/
theorem dataAvailable_eq_some (hw : Wired rb) (hc : c ∈ rb.clientList)
    (h : rb.dataAvailableForClient c = some i) :
    Behind rb c i ∧ ∀ j, j < i → ¬ Behind rb c j := by
  unfold RouteBroker.dataAvailableForClient at h
  obtain ⟨hi, as, bs, heq, has⟩ := List.find?_eq_some_iff_append.mp h
  refine ⟨(dataAvailable_test hw hc i).mp hi, fun j hj hbehind => ?_⟩
  have hmem := List.mem_finRange j
  rw [heq, List.mem_append] at hmem
  rcases hmem with hmem | hmem
  · have hnot := has j hmem
    rw [(dataAvailable_test hw hc j).mpr hbehind] at hnot
    exact Bool.noConfusion hnot
  · -- the levels are tried in increasing order
    have hsorted := List.pairwise_lt_finRange routePriorityMax
    rw [heq] at hsorted
    rcases List.mem_cons.mp hmem with rfl | hlater
    · exact lt_irrefl _ hj
    · exact lt_asymm hj (List.rel_of_pairwise_cons (List.pairwise_append.mp hsorted).2.1 hlater)

/-- A read from a level that has something returns the data of its first pending route. -/
theorem clientGetData_of_next (hc : Consistent gen rb) (hmem : c ∈ rb.clientList)
    (copy : Data → Data) (h : rb.dataAvailableForClient c = some i) {a : Addr}
    (hnext : brokerGetNextDataObj (rb.level i) (.client c) = some (.obj a)) :
    ∃ r, rb.store.heap a = some r ∧ r.pri = i ∧
      (rb.clientGetData (fun d => some (copy d)) c).1 = (some (copy r.data), some i) := by
  obtain ⟨a', ha', hp, -⟩ := getNextDataObj_eq_some (hc.sound.linked i) hnext
  cases ha'
  obtain ⟨r, hr, hpri⟩ := hc.sound.heap_of_listed hp.listed
  refine ⟨r, hr, hpri, ?_⟩
  unfold RouteBroker.clientGetData
  rw [h]
  dsimp only
  rw [hc.wired.client c hmem, getData_of_some routeBrokerOps _ rb.store hnext]
  simp [routeBrokerClientOps, routeBrokerClientGet, hr]

/-- A read from a level that has nothing only brings the client up to date there. -/
theorem clientGetData_of_phantom (hw : Wired rb) (hmem : c ∈ rb.clientList)
    (copyObj : Data → Option Data) (h : rb.dataAvailableForClient c = some i)
    (hnext : brokerGetNextDataObj (rb.level i) (.client c) = none) :
    rb.clientGetData copyObj c = ((none, some i),
      rb.onLevel i ((rb.level i).setId (.client c) (rb.level i).id, rb.store)) := by
  unfold RouteBroker.clientGetData
  rw [h]
  dsimp only
  rw [hw.client c hmem, getData_of_none routeBrokerOps _ rb.store hnext]

omit [DecidableEq Topic] in
/-- Afterwards that level is no phantom any more, and the others are as before. -/
theorem phantom_after (rb : RouteBroker Addr Cl Topic Data) (c : Cl) (i j : Level) :
    Phantom (rb.onLevel i ((rb.level i).setId (.client c) (rb.level i).id, rb.store)) c j ↔
      Phantom rb c j ∧ j ≠ i := by
  by_cases hj : j = i
  · subst hj
    refine iff_of_false (fun h => h.1 ?_) (fun h => h.2 rfl)
    rw [onLevel_level_self, setId_bobj_id, if_pos rfl]
    rfl
  · unfold Phantom Behind
    rw [onLevel_level_of_ne rb _ hj]
    exact (and_iff_left hj).symm

omit [DecidableEq Topic] in
/-- Being up to date changes nobody's pending objects. -/
theorem pending_after (rb : RouteBroker Addr Cl Topic Data) (c : Cl) (i j : Level) (e : Cl)
    (a : Addr) :
    ((rb.onLevel i ((rb.level i).setId (.client c) (rb.level i).id, rb.store)).level j).Pending e a
      ↔ (rb.level j).Pending e a :=
  forall_onLevel (P := fun j b => b.Pending e a ↔ (rb.level j).Pending e a) Iff.rfl
    (fun _ _ => Iff.rfl) j

omit [DecidableEq Addr] [DecidableEq Cl] [DecidableEq Topic] in
/-- With something pending there is a level to read from. -/
theorem dataAvailable_of_pending (hw : Wired rb) (hord : ∀ i, (rb.level i).Ordered)
    (hmem : c ∈ rb.clientList) {j : Level} {a : Addr} (hp : (rb.level j).Pending c a) :
    ∃ i, rb.dataAvailableForClient c = some i := by
  cases h : rb.dataAvailableForClient c with
  | some i => exact ⟨i, rfl⟩
  | none =>
    have hlevel := not_not.mp ((dataAvailable_eq_none hw hmem).mp h j)
    exact absurd hp ((hord j).not_pending_of_id_eq hlevel a)

/-- The state after the client has asked for data once more. -/
def askAgain (copy : Data → Data) (c : Cl) (rb : RouteBroker Addr Cl Topic Data) :
    RouteBroker Addr Cl Topic Data :=
  (rb.clientGetData (fun d => some (copy d)) c).2

/-- Asking while something is pending: either there is an object, or the level asked is a
phantom, and the call brings the client up to date there. -/
theorem ask_cases (copy : Data → Data) (hc : Consistent gen rb) (hord : ∀ i, (rb.level i).Ordered)
    (hmem : c ∈ rb.clientList) {j : Level} {a : Addr} (hp : (rb.level j).Pending c a) :
    (∃ d i, (rb.clientGetData (fun d => some (copy d)) c).1 = (some d, some i)) ∨
    ∃ i, Phantom rb c i ∧ rb.clientGetData (fun d => some (copy d)) c = ((none, some i),
      rb.onLevel i ((rb.level i).setId (.client c) (rb.level i).id, rb.store)) := by
  obtain ⟨i, hi⟩ := dataAvailable_of_pending hc.wired hord hmem hp
  cases hnext : brokerGetNextDataObj (rb.level i) (.client c) with
  | some r =>
    left
    obtain ⟨a', rfl, -, -⟩ := getNextDataObj_eq_some (hc.sound.linked i) hnext
    obtain ⟨r, -, -, hget⟩ := clientGetData_of_next hc hmem copy hi hnext
    exact ⟨_, i, hget⟩
  | none =>
    right
    exact ⟨i, ⟨(dataAvailable_eq_some hc.wired hmem hi).1, hnext⟩,
      clientGetData_of_phantom hc.wired hmem _ hi hnext⟩

/-- **Phantoms are used up.**  With something pending, a client gets an object after at
most as many calls that return `NULL` as there are phantom levels. -/
theorem object_after_phantoms (copy : Data → Data) {m : ℕ} (hc : Consistent gen rb)
    (hord : ∀ i, (rb.level i).Ordered) (hmem : c ∈ rb.clientList)
    (hp : ∃ j a, (rb.level j).Pending c a)
    (hm : (Finset.univ.filter (Phantom rb c)).card = m) :
    ∃ n ≤ m, (∀ k < n, ∃ i, ((askAgain copy c)^[k] rb).clientGetData (fun d => some (copy d)) c
        = ((none, some i), ((askAgain copy c)^[k] rb).onLevel i
          ((((askAgain copy c)^[k] rb).level i).setId (.client c)
            (((askAgain copy c)^[k] rb).level i).id, ((askAgain copy c)^[k] rb).store))) ∧
      ∃ d i, (((askAgain copy c)^[n] rb).clientGetData (fun d => some (copy d)) c).1
        = (some d, some i) := by
  -- induction on the number of phantoms, of which each call that returns `NULL` uses up one
  induction m generalizing rb with
  | zero =>
    obtain ⟨j, a, hja⟩ := hp
    rcases ask_cases copy hc hord hmem hja with hobj | ⟨i, hphantom, -⟩
    · exact ⟨0, le_refl 0, fun k hk => absurd hk (Nat.not_lt_zero k), hobj⟩
    · have hi : i ∈ Finset.univ.filter (Phantom rb c) :=
        Finset.mem_filter.mpr ⟨Finset.mem_univ i, hphantom⟩
      rw [Finset.card_eq_zero.mp hm] at hi
      exact absurd hi (Finset.notMem_empty i)
  | succ m ih =>
    obtain ⟨j, a, hja⟩ := hp
    rcases ask_cases copy hc hord hmem hja with hobj | ⟨i, hphantom, hget⟩
    · exact ⟨0, Nat.zero_le _, fun k hk => absurd hk (Nat.not_lt_zero k), hobj⟩
    · have hstate : askAgain copy c rb
          = rb.onLevel i ((rb.level i).setId (.client c) (rb.level i).id, rb.store) := by
        unfold askAgain
        rw [hget]
      have hcard : (Finset.univ.filter (Phantom (askAgain copy c rb) c)).card = m := by
        have herase : Finset.univ.filter (Phantom (askAgain copy c rb) c)
            = (Finset.univ.filter (Phantom rb c)).erase i := by
          ext j
          rw [hstate]
          simp only [Finset.mem_filter, Finset.mem_univ, true_and, Finset.mem_erase,
            phantom_after]
          exact and_comm
        rw [herase, Finset.card_erase_of_mem (Finset.mem_filter.mpr ⟨Finset.mem_univ i, hphantom⟩),
          hm, Nat.add_sub_cancel]
      have hc' : Consistent gen (askAgain copy c rb) := hc.clientGetData _ c
      have hord' : ∀ j, ((askAgain copy c rb).level j).Ordered := by
        rw [hstate]
        exact forall_onLevel ((hord i).setId_level
          ((getNextDataObj_eq_none (hc.sound.linked i)).mp hphantom.2)) (fun j _ => hord j)
      have hmem' : c ∈ (askAgain copy c rb).clientList := by
        rw [hstate]
        exact hmem
      have hp' : ∃ j a, ((askAgain copy c rb).level j).Pending c a := by
        refine ⟨j, a, ?_⟩
        rw [hstate, pending_after]
        exact hja
      obtain ⟨n, hn, hnull, hobj⟩ := ih hc' hord' hmem' hp' hcard
      refine ⟨n + 1, by omega, fun k hk => ?_, ?_⟩
      · cases k with
        | zero => exact ⟨i, hget⟩
        | succ k =>
          rw [Function.iterate_succ_apply]
          exact hnull k (by omega)
      · rw [Function.iterate_succ_apply]
        exact hobj

end Choice

/-- **Strict priority without starvation by phantom levels.**  In every reachable state
in which no level has counted up its id `2^64` times, and for every client:

* if `route_broker_client_get_data` hands out an object from level `i`, no data object
  lies after the cursor of the client in any level `j < i`;
* if some level holds an undelivered object for the client, at most
  `ROUTE_PRIORITY_MAX - 1` consecutive calls return `NULL` before one returns an object,
  and each of them only brings the id of the client in one level up to that of the
  level;
* a call that returns `NULL` from a level found the ids different there, although
  nothing is pending. -/
theorem strict_priority [DecidableEq Addr] [DecidableEq Cl] [DecidableEq Topic]
    {gen : Data → ℤ × Topic × Bool} {copy : Data → Data} {w : RouteWorld Addr Cl Topic Data}
    (h : (routeSystem Addr Cl gen copy).Reachable w)
    (hw : ∀ i, (w.rb.level i).increments < 2 ^ 64) (c : Cl) (hc : c ∈ w.rb.clientList) :
    (∀ d i, (w.rb.clientGetData (fun d => some (copy d)) c).1 = (some d, some i) →
      ∀ j, j < i → ∀ a, ¬ Precedes (w.rb.level j).objList (.client c) (.obj a)) ∧
    ((∃ j a, Precedes (w.rb.level j).objList (.client c) (.obj a)) →
      ∃ n ≤ routePriorityMax - 1,
        (∀ k < n, ∃ i,
          ((askAgain copy c)^[k] w.rb).clientGetData (fun d => some (copy d)) c
            = ((none, some i), ((askAgain copy c)^[k] w.rb).onLevel i
              ((((askAgain copy c)^[k] w.rb).level i).setId (.client c)
                (((askAgain copy c)^[k] w.rb).level i).id,
              ((askAgain copy c)^[k] w.rb).store))) ∧
        ∃ d i, (((askAgain copy c)^[n] w.rb).clientGetData (fun d => some (copy d)) c).1
          = (some d, some i)) ∧
    (∀ i, (w.rb.clientGetData (fun d => some (copy d)) c).1 = (none, some i) →
      ((w.rb.level i).bobj (.client c)).id ≠ (w.rb.level i).id ∧
      ∀ a, ¬ Precedes (w.rb.level i).objList (.client c) (.obj a)) := by
  have hcons := reachable_consistent h
  have hord := reachable_levels_ordered h hw
  -- the level a call returns is the one `data_available_for_client` found
  have hlevel : ∀ (x : Option Data) i,
      (w.rb.clientGetData (fun d => some (copy d)) c).1 = (x, some i) →
      w.rb.dataAvailableForClient c = some i := by
    intro x i hget
    unfold RouteBroker.clientGetData at hget
    cases hav : w.rb.dataAvailableForClient c with
    | none =>
      rw [hav] at hget
      exact nomatch (congrArg Prod.snd hget)
    | some i' =>
      rw [hav] at hget
      exact congrArg Prod.snd hget
  refine ⟨fun d i hget j hj a => ?_, fun hp => ?_, fun i hget => ?_⟩
  · have hbehind := (dataAvailable_eq_some hcons.wired hc (hlevel _ i hget)).2 j hj
    exact (hord j).not_pending_of_id_eq (not_not.mp hbehind) a
  · obtain ⟨n, hn, hrest⟩ := object_after_phantoms copy hcons hord hc hp rfl
    refine ⟨n, hn.trans ?_, hrest⟩
    -- the level with the pending object is no phantom
    obtain ⟨j, a, hja⟩ := hp
    have hsub : Finset.univ.filter (Phantom w.rb c) ⊆ Finset.univ.erase j := by
      intro i hi
      refine Finset.mem_erase.mpr ⟨fun he => ?_, Finset.mem_univ i⟩
      have hnone := (Finset.mem_filter.mp hi).2.2
      rw [he, getNextDataObj_eq_none (hcons.sound.linked j)] at hnone
      exact hnone a hja
    calc (Finset.univ.filter (Phantom w.rb c)).card
        ≤ (Finset.univ.erase j).card := Finset.card_le_card hsub
      _ = routePriorityMax - 1 := by
        rw [Finset.card_erase_of_mem (Finset.mem_univ j), Finset.card_univ, Fintype.card_fin]
  · have hav := hlevel _ i hget
    refine ⟨(dataAvailable_eq_some hcons.wired hc hav).1, ?_⟩
    cases hnext : brokerGetNextDataObj (w.rb.level i) (.client c) with
    | none => exact (getNextDataObj_eq_none (hcons.sound.linked i)).mp hnext
    | some r =>
      obtain ⟨a', rfl, -, -⟩ := getNextDataObj_eq_some (hcons.sound.linked i) hnext
      obtain ⟨r, -, -, hsome⟩ := clientGetData_of_next hcons hc copy hav hnext
      rw [hsome] at hget
      exact nomatch (congrArg Prod.fst hget)

/-- The theorem at a run that leaves a phantom: the route of level `1` was moved to level
`0` and read there, and level `2` has another one. -/
theorem strict_priority_moved :
    ∃ w, (routeSystem ℕ ℕ plainGen id).exec .start [.clientCreate 0 "dp",
        .publish 100 (7, 1, false) 1, .publish 101 (7, 2, false) 0, .publish 102 (8, 1, false) 2,
        .clientGetData 0] = some w ∧
      ∃ n ≤ routePriorityMax - 1,
        (∀ k < n, ∃ i, ((askAgain id 0)^[k] w.rb).clientGetData (fun d => some (id d)) 0
            = ((none, some i), ((askAgain id 0)^[k] w.rb).onLevel i
              ((((askAgain id 0)^[k] w.rb).level i).setId (.client 0)
                (((askAgain id 0)^[k] w.rb).level i).id,
              ((askAgain id 0)^[k] w.rb).store))) ∧
        ∃ d i, (((askAgain id 0)^[n] w.rb).clientGetData (fun d => some (id d)) 0).1
          = (some d, some i) := by
  obtain ⟨w, hexec, hp⟩ := (routeSystem ℕ ℕ plainGen id).exists_of_exec_any .start
    [.clientCreate 0 "dp", .publish 100 (7, 1, false) 1, .publish 101 (7, 2, false) 0,
      .publish 102 (8, 1, false) 2, .clientGetData 0]
    (fun w => decide ((∀ i, (w.rb.level i).increments < 2 ^ 64) ∧ 0 ∈ w.rb.clientList ∧
      Precedes (w.rb.level 2).objList (.client 0) (.obj 102))) (by decide +kernel)
  rw [decide_eq_true_eq] at hp
  obtain ⟨hw, hc, hpend⟩ := hp
  exact ⟨w, hexec, (strict_priority ⟨_, hexec⟩ hw 0 hc).2.1 ⟨2, 102, hpend⟩⟩

/-! ## Repeated publishes -/

section Repeated

variable [DecidableEq Addr] [DecidableEq Cl] [DecidableEq Topic]
  {gen : Data → ℤ × Topic × Bool} {w : RouteWorld Addr Cl Topic Data} {a h : Addr} {obj : Data}
  {pri : Level} {r : RibRoute Topic Data}

/-- The world after `n` more publishes of `obj`, which is stored at `h` in level `i`. -/
def RouteWorld.aged (w : RouteWorld Addr Cl Topic Data) (i : Level) (h : Addr) (obj : Data)
    (n : ℕ) : RouteWorld Addr Cl Topic Data :=
  { w with
    rb := { w.rb with
      level := Function.update w.rb.level i ((w.rb.level i).aged h n)
      processed := w.rb.processed + n }
    published := w.published ++ List.replicate n obj }

/-- What `obj` is stored as, when it is the newest route of its level. -/
structure RouteWorld.Newest (gen : Data → ℤ × Topic × Bool) (w : RouteWorld Addr Cl Topic Data)
    (a h : Addr) (r : RibRoute Topic Data) (pri : Level) : Prop where
  free : w.rb.store.heap a = none
  gen_pos : 0 < (gen r.data).1
  gen_add : (gen r.data).2.2 = false
  hash : w.rb.store.hash (gen r.data).2.1 = some h
  heap : w.rb.store.heap h = some r
  pri_le : r.pri ≤ pri
  newest : (w.rb.level r.pri).Newest h

theorem RouteWorld.Newest.publish (hn : w.Newest gen a h r pri) :
    w.publish gen id a r.data pri = w.aged r.pri h r.data 1 := by
  -- the data does not change, and the route is at the tail already
  have hdata : w.rb.counted.setData h r r.data = w.rb.counted := by
    have hsame : Function.update w.rb.counted.store.heap h (some r) = w.rb.counted.store.heap :=
      Function.update_eq_self_iff.mpr hn.heap.symm
    unfold RouteBroker.setData
    rw [hsame]
  have hroute : w.rb.counted.publishRoute a (newRoute gen r.data pri) false
      = (w.rb.counted.setData h r r.data).updObj r.pri h := by
    unfold RouteBroker.publishRoute
    have hhash : w.rb.counted.store.hash (newRoute gen r.data pri).topic = some h := hn.hash
    have hheap : w.rb.counted.store.heap h = some r := hn.heap
    have hpri : ¬ r.pri > (newRoute gen r.data pri).pri := not_lt.mpr hn.pri_le
    rw [hhash]
    dsimp only
    rw [hheap]
    dsimp only
    rw [if_neg Bool.false_ne_true, if_neg hpri]
    rfl
  have hrb : (w.publish gen id a r.data pri).rb = (w.aged r.pri h r.data 1).rb := by
    rw [publish_rb_of_pos w hn.gen_pos]
    show w.rb.counted.publishRoute a (newRoute gen r.data pri) (gen r.data).2.2 = _
    rw [hn.gen_add, hroute, hdata]
    unfold RouteBroker.updObj RouteBroker.onLevel
    have hupd : brokerUpdObj (w.rb.counted.level r.pri) h = (w.rb.level r.pri).aged h 1 :=
      hn.newest.updObj
    rw [hupd]
    rfl
  have hpub : (w.publish gen id a r.data pri).published = (w.aged r.pri h r.data 1).published :=
    rfl
  have hrec : (w.publish gen id a r.data pri).received = (w.aged r.pri h r.data 1).received := rfl
  exact RouteWorld.mk.injEq _ _ _ _ _ _ |>.mpr ⟨hrb, hpub, hrec⟩

omit [DecidableEq Topic] in
theorem RouteWorld.Newest.aged (hn : w.Newest gen a h r pri) (n : ℕ) :
    (w.aged r.pri h r.data n).Newest gen a h r pri := by
  refine ⟨hn.free, hn.gen_pos, hn.gen_add, hn.hash, hn.heap, hn.pri_le, ?_⟩
  show (Function.update w.rb.level r.pri ((w.rb.level r.pri).aged h n) r.pri).Newest h
  rw [Function.update_self]
  exact hn.newest.aged n

omit [DecidableEq Topic] in
theorem RouteWorld.aged_aged (w : RouteWorld Addr Cl Topic Data) (i : Level) (h : Addr)
    (obj : Data) (m n : ℕ) : (w.aged i h obj m).aged i h obj n = w.aged i h obj (m + n) := by
  unfold RouteWorld.aged
  simp only [Function.update_self, Function.update_idem, Broker.aged_aged, List.append_assoc,
    List.replicate_append_replicate, Nat.add_assoc]

/-- **Any number of publishes of the newest route.** -/
theorem exec_publishes (hn : w.Newest gen a h r pri) (n : ℕ) :
    (routeSystem Addr Cl gen id).exec w (List.replicate (n + 1) (.publish a r.data pri))
      = some (w.aged r.pri h r.data (n + 1)) := by
  have hnext : ∀ k, (routeSystem Addr Cl gen id).step (w.aged r.pri h r.data (k + 1))
      (.publish a r.data pri) = some (w.aged r.pri h r.data (k + 1 + 1)) := by
    intro k
    refine routeCall_publish.mpr ⟨hn.free, ?_⟩
    rw [(hn.aged (k + 1)).publish, RouteWorld.aged_aged]
  have hfirst : w.call gen id (.publish a r.data pri) = some (w.aged r.pri h r.data 1) :=
    routeCall_publish.mpr ⟨hn.free, hn.publish.symm⟩
  rw [List.replicate_succ]
  exact (System.exec_cons_eq_some _).mpr ⟨_, hfirst,
    (routeSystem Addr Cl gen id).exec_replicate (fun k => w.aged r.pri h r.data (k + 1)) hnext n⟩

/-- The calls `xs`, then `n` publishes of `obj`. -/
def thenPublishes (xs : List (RouteCall Addr Cl Data)) (n : ℕ) (a : Addr) (obj : Data)
    (pri : Level) : List (RouteCall Addr Cl Data) :=
  xs ++ List.replicate n (.publish a obj pri)

/-- A test on the end of such a run: everything but the publishes is evaluated. -/
theorem exec_thenPublishes [DecidableEq Data] (gen : Data → ℤ × Topic × Bool)
    (xs : List (RouteCall Addr Cl Data)) (n : ℕ) (a h : Addr) (r : RibRoute Topic Data)
    (pri : Level) (p : RouteWorld Addr Cl Topic Data → Bool)
    (hxs : (((routeSystem Addr Cl gen id).exec .start xs).any fun v =>
      decide (v.rb.store.heap a = none ∧ 0 < (gen r.data).1 ∧ (gen r.data).2.2 = false ∧
        v.rb.store.hash (gen r.data).2.1 = some h ∧ v.rb.store.heap h = some r ∧ r.pri ≤ pri ∧
        (v.rb.level r.pri).Newest h) && p (v.aged r.pri h r.data (n + 1))) = true) :
    ∃ w, (routeSystem Addr Cl gen id).exec .start (thenPublishes xs (n + 1) a r.data pri) = some w
      ∧ p w = true := by
  obtain ⟨v, hv, hp⟩ := System.exists_of_exec_any _ _ _ _ hxs
  rw [Bool.and_eq_true, decide_eq_true_eq] at hp
  obtain ⟨⟨h1, h2, h3, h4, h5, h6, h7⟩, hpw⟩ := hp
  refine ⟨v.aged r.pri h r.data (n + 1), ?_, hpw⟩
  unfold thenPublishes
  rw [System.exec_append_eq_some]
  exact ⟨v, hv, exec_publishes ⟨h1, h2, h3, h4, h5, h6, h7⟩ n⟩

end Repeated

/-- Without the bound on the increments an object can be withheld for good: after `2^64`
publishes the id of level `0` is again the one the client has read, and
`data_available_for_client` finds nothing although the route lies after its cursor. -/
theorem strict_priority_after_wrap :
    ∃ w, (routeSystem ℕ ℕ plainGen id).exec .start (thenPublishes [.clientCreate 0 "dp",
        .publish 100 (7, 1, false) 0, .clientGetData 0, .publish 101 (7, 1, false) 0]
        (2 ^ 64 - 1) 101 (7, 1, false) 0) = some w ∧
      0 ∈ w.rb.clientList ∧ Precedes (w.rb.level 0).objList (.client 0) (.obj 100) ∧
      ∀ n, (((askAgain id 0)^[n] w.rb).clientGetData (fun d => some (id d)) 0).1
        = (none, none) := by
  obtain ⟨w, hexec, hp⟩ := exec_thenPublishes plainGen [.clientCreate 0 "dp",
    .publish 100 (7, 1, false) 0, .clientGetData 0, .publish 101 (7, 1, false) 0]
    (2 ^ 64 - 2) 101 100 { refcount := 1, pri := 0, topic := 7, data := (7, 1, false) } 0
    (fun w => decide (0 ∈ w.rb.clientList ∧
      Precedes (w.rb.level 0).objList (.client 0) (.obj 100) ∧
      w.rb.dataAvailableForClient 0 = none)) (by decide +kernel)
  rw [decide_eq_true_eq] at hp
  obtain ⟨hc, hpend, hnone⟩ := hp
  -- nothing is found, so that no call changes anything
  have hget : w.rb.clientGetData (fun d => some (id d)) 0 = ((none, none), w.rb) := by
    unfold RouteBroker.clientGetData
    rw [hnone]
  have hsame : ∀ n, (askAgain id 0)^[n] w.rb = w.rb := by
    intro n
    refine Function.iterate_fixed ?_ n
    unfold askAgain
    rw [hget]
  refine ⟨w, hexec, hc, hpend, fun n => ?_⟩
  rw [hsame n, hget]
