/-
# The walk over all levels

`route_broker_seq_first` and `route_broker_seq_next` let `route_broker_show_internal`
go through everything the levels list: the levels one after the other, each of them
from tail to head.  When a level is through, the walk goes on with the start of the next
one; and since `NULL` also stands for the end of the walk, a level that is empty ends it.

`seqWalk_eq` says which entries the walk visits, `seq_walk_complete_iff` when these are
all.
-/
import RouteBroker.RouteRun

open Circleq Broker

variable {Addr Cl Topic Data : Type*} [DecidableEq Addr] [DecidableEq Cl]

/-! ## The functions -/

omit [DecidableEq Addr] [DecidableEq Cl] in
/-- `broker_seq_start`: `CIRCLEQ_LAST`, `none` when that is the head of the list. -/
def brokerSeqStart (b : Broker Addr Cl) : Option (Ref Addr Cl) := b.objList.reverse.head?

/-- `broker_seq_next`: `CIRCLEQ_PREV`, `none` when that is the head of the list. -/
def brokerSeqNext (b : Broker Addr Cl) (r : Ref Addr Cl) : Option (Ref Addr Cl) :=
  (after b.objList.reverse r).head?

namespace RouteBroker

variable (rb : RouteBroker Addr Cl Topic Data)

omit [DecidableEq Addr] [DecidableEq Cl] in
/-- `route_broker_seq_first`: the entry and `*pri`. -/
def seqFirst : Option (Ref Addr Cl) × Level := (brokerSeqStart (rb.level 0), 0)

/-- `route_broker_seq_next`: the entry and `*pri`. -/
def seqNext (obj : Ref Addr Cl) (pri : Level) : Option (Ref Addr Cl) × Level :=
  match brokerSeqNext (rb.level pri) obj with
  | some r => (some r, pri)
  | none =>
    -- end of this broker - is there another priority level?
    if h : pri.val + 1 < routePriorityMax then
      (brokerSeqStart (rb.level ⟨pri.val + 1, h⟩), ⟨pri.val + 1, h⟩)
    else (none, pri)

/-- The loop of `route_broker_show_internal`, for at most `n` rounds: the entries it
shows, each with the value of `pri` at that time; `none` if it is not through by then. -/
def seqWalk : ℕ → Option (Ref Addr Cl) × Level → Option (List (Level × Ref Addr Cl))
  | _, (none, _) => some []
  | 0, (some _, _) => none
  | n + 1, (some obj, pri) => (seqWalk n (rb.seqNext obj pri)).map ((pri, obj) :: ·)

omit [DecidableEq Addr] [DecidableEq Cl] in
/-- The entries of one level, from tail to head. -/
def levelEntries (i : Level) : List (Level × Ref Addr Cl) :=
  (rb.level i).objList.reverse.map (i, ·)

omit [DecidableEq Addr] [DecidableEq Cl] in
/-- The entries of all levels, in increasing order of the levels. -/
def allEntries : List (Level × Ref Addr Cl) :=
  (List.finRange routePriorityMax).flatMap rb.levelEntries

end RouteBroker

/-! ## What the walk visits -/

section Walk

variable (rb : RouteBroker Addr Cl Topic Data)

/-- The walk through what is left of one level. -/
theorem seqWalk_level {i : Level} (pre : List (Ref Addr Cl)) {rest : List (Ref Addr Cl)}
    {r : Ref Addr Cl} (hsplit : (rb.level i).objList.reverse = pre ++ r :: rest)
    (hn : (rb.level i).objList.Nodup) (n : ℕ) :
    rb.seqWalk (n + rest.length + 1) (some r, i)
      = (rb.seqWalk n (if h : i.val + 1 < routePriorityMax then
          (brokerSeqStart (rb.level ⟨i.val + 1, h⟩), ⟨i.val + 1, h⟩) else (none, i))).map
        ((r :: rest).map (i, ·) ++ ·) := by
  -- by induction on what comes after `r` on the way to the head of the list
  induction rest generalizing pre r with
  | nil =>
    have hnext : brokerSeqNext (rb.level i) r = none := by
      unfold brokerSeqNext
      rw [hsplit, after_append_cons (by rw [← hsplit]; exact List.nodup_reverse.mpr hn)]
      rfl
    rw [RouteBroker.seqWalk, RouteBroker.seqNext, hnext]
    rfl
  | cons r' rest ih =>
    have hnext : brokerSeqNext (rb.level i) r = some r' := by
      unfold brokerSeqNext
      rw [hsplit, after_append_cons (by rw [← hsplit]; exact List.nodup_reverse.mpr hn)]
      rfl
    have hsplit' : (rb.level i).objList.reverse = (pre ++ [r]) ++ r' :: rest := by
      rw [hsplit, List.append_assoc, List.singleton_append]
    have hlen : n + (r' :: rest).length + 1 = (n + rest.length + 1) + 1 := by
      rw [List.length_cons]
      omega
    rw [hlen, RouteBroker.seqWalk, RouteBroker.seqNext, hnext]
    dsimp only
    rw [ih (pre ++ [r]) hsplit', Option.map_map]
    rfl

/-- The levels from `k` on. -/
def levelsFrom (k : ℕ) : List Level := (List.finRange routePriorityMax).drop k

theorem levelsFrom_cons {k : ℕ} (h : k < routePriorityMax) :
    levelsFrom k = ⟨k, h⟩ :: levelsFrom (k + 1) := by
  unfold levelsFrom
  rw [List.drop_eq_getElem_cons (by rw [List.length_finRange]; exact h), List.getElem_finRange]
  rfl

theorem levelsFrom_end {k : ℕ} (h : ¬ k < routePriorityMax) : levelsFrom k = [] := by
  unfold levelsFrom
  exact List.drop_eq_nil_of_le (by rw [List.length_finRange]; exact not_lt.mp h)

omit [DecidableEq Addr] [DecidableEq Cl] in
/-- The levels the walk goes through when it starts with level `k`: all up to the first
empty one. -/
def RouteBroker.walkedFrom (k : ℕ) : List Level :=
  (levelsFrom k).takeWhile fun i => (rb.level i).objList ≠ []

/-- The walk from the start of a level. -/
theorem seqWalk_from (hn : ∀ i, (rb.level i).objList.Nodup) {k : ℕ} (h : k < routePriorityMax) :
    ∃ n, ∀ m, n ≤ m → rb.seqWalk m (brokerSeqStart (rb.level ⟨k, h⟩), ⟨k, h⟩)
      = some ((rb.walkedFrom k).flatMap rb.levelEntries) := by
  -- by induction on the number of levels that are left
  induction hk : routePriorityMax - k generalizing k with
  | zero => omega
  | succ d ih =>
    unfold RouteBroker.walkedFrom brokerSeqStart
    rw [levelsFrom_cons h]
    cases hrev : (rb.level ⟨k, h⟩).objList.reverse with
    | nil =>
      have hnil : (rb.level ⟨k, h⟩).objList = [] := List.reverse_eq_nil_iff.mp hrev
      rw [List.takeWhile_cons_of_neg (by simp [hnil])]
      refine ⟨0, fun m _ => ?_⟩
      cases m with
      | zero => rfl
      | succ m => rfl
    | cons r rest =>
      have hne : (rb.level ⟨k, h⟩).objList ≠ [] := by
        intro hnil
        rw [hnil] at hrev
        exact nomatch hrev
      rw [List.takeWhile_cons_of_pos (by simpa using hne), List.flatMap_cons]
      have hentries : rb.levelEntries ⟨k, h⟩ = (r :: rest).map ((⟨k, h⟩ : Level), ·) := by
        unfold RouteBroker.levelEntries
        rw [hrev]
      rw [hentries, List.head?_cons]
      by_cases hlast : k + 1 < routePriorityMax
      · obtain ⟨n, hwalk⟩ := ih hlast (by omega)
        refine ⟨n + rest.length + 1, fun m hm => ?_⟩
        obtain ⟨m', rfl⟩ : ∃ m', m = m' + rest.length + 1 := ⟨m - rest.length - 1, by omega⟩
        rw [seqWalk_level rb [] hrev (hn _), dif_pos hlast, hwalk m' (by omega)]
        rfl
      · refine ⟨rest.length + 1, fun m hm => ?_⟩
        obtain ⟨m', rfl⟩ : ∃ m', m = m' + rest.length + 1 := ⟨m - rest.length - 1, by omega⟩
        rw [seqWalk_level rb [] hrev (hn _), dif_neg hlast, levelsFrom_end hlast]
        cases m' with
        | zero => rfl
        | succ m' => rfl

/-- **What the walk visits**: the levels up to the first empty one, each from tail to
head. -/
theorem seqWalk_eq (hn : ∀ i, (rb.level i).objList.Nodup) :
    ∃ n, ∀ m, n ≤ m →
      rb.seqWalk m rb.seqFirst = some ((rb.walkedFrom 0).flatMap rb.levelEntries) :=
  seqWalk_from rb hn (by decide)

end Walk

/-! ## When the walk is complete -/

section Complete

variable (rb : RouteBroker Addr Cl Topic Data)

/-- The walk ends after it has visited everything. -/
def RouteBroker.WalkComplete : Prop :=
  ∃ n, ∀ m, n ≤ m → rb.seqWalk m rb.seqFirst = some rb.allEntries

omit [DecidableEq Addr] [DecidableEq Cl] in
/-- After an empty level there are only empty levels. -/
def RouteBroker.NoGap : Prop :=
  ∀ i j : Level, i < j → (rb.level i).objList = [] → (rb.level j).objList = []

omit [DecidableEq Addr] [DecidableEq Cl] in
instance (rb : RouteBroker Addr Cl Topic Data) : Decidable rb.NoGap :=
  inferInstanceAs (Decidable (∀ i j : Level, i < j → _ = [] → _ = []))

omit [DecidableEq Addr] [DecidableEq Cl] in
theorem levelEntries_eq_nil (i : Level) : rb.levelEntries i = [] ↔ (rb.level i).objList = [] := by
  unfold RouteBroker.levelEntries
  rw [List.map_eq_nil_iff, List.reverse_eq_nil_iff]

omit [DecidableEq Addr] [DecidableEq Cl] in
/-- The entries that are left out are those of the levels after the first empty one. -/
theorem walked_eq_allEntries :
    (rb.walkedFrom 0).flatMap rb.levelEntries = rb.allEntries ↔
      ∀ i ∈ (levelsFrom 0).dropWhile (fun i => (rb.level i).objList ≠ []),
        (rb.level i).objList = [] := by
  have hall : rb.allEntries = (rb.walkedFrom 0).flatMap rb.levelEntries ++
      ((levelsFrom 0).dropWhile (fun i => (rb.level i).objList ≠ [])).flatMap rb.levelEntries := by
    unfold RouteBroker.allEntries RouteBroker.walkedFrom
    rw [← List.flatMap_append, List.takeWhile_append_dropWhile]
    rfl
  rw [hall]
  simp only [List.self_eq_append_right, List.flatMap_eq_nil_iff, levelEntries_eq_nil]

/-- In a sorted list, the members from the first without `p` on are all without `p`
exactly if no member without `p` comes before one with `p`. -/
theorem forall_mem_dropWhile_iff {α : Type*} [LinearOrder α] {p : α → Bool} {l : List α}
    (hl : l.Pairwise (· < ·)) :
    (∀ x ∈ l.dropWhile p, p x = false) ↔
      ∀ x ∈ l, ∀ y ∈ l, x < y → p x = false → p y = false := by
  induction l with
  | nil => simp
  | cons a l ih =>
    rw [List.pairwise_cons] at hl
    cases ha : p a with
    | true =>
      rw [List.dropWhile_cons_of_pos ha, ih hl.2]
      constructor
      · intro h x hx y hy hxy hpx
        rcases List.mem_cons.mp hx with rfl | hxl
        · rw [ha] at hpx
          exact nomatch hpx
        · rcases List.mem_cons.mp hy with rfl | hyl
          · exact absurd hxy (lt_asymm (hl.1 x hxl))
          · exact h x hxl y hyl hxy hpx
      · intro h x hx y hy
        exact h x (List.mem_cons_of_mem a hx) y (List.mem_cons_of_mem a hy)
    | false =>
      rw [List.dropWhile_cons_of_neg (by simp [ha])]
      constructor
      · intro h x _ y hy _ _
        exact h y hy
      · intro h x hx
        rcases List.mem_cons.mp hx with rfl | hx
        · exact ha
        · exact h a List.mem_cons_self x (List.mem_cons_of_mem a hx) (hl.1 x hx) ha

omit [DecidableEq Addr] [DecidableEq Cl] in
theorem walked_eq_iff_noGap :
    (rb.walkedFrom 0).flatMap rb.levelEntries = rb.allEntries ↔ rb.NoGap := by
  have hiff := forall_mem_dropWhile_iff (p := fun i => decide ((rb.level i).objList ≠ []))
    (List.pairwise_lt_finRange routePriorityMax)
  simp only [decide_eq_false_iff_not, not_not] at hiff
  rw [walked_eq_allEntries]
  refine hiff.trans ⟨fun h i j => ?_, fun h i _ j _ => h i j⟩
  exact h i (List.mem_finRange i) j (List.mem_finRange j)

omit [DecidableEq Addr] [DecidableEq Cl] in
/-- No entry comes twice. -/
theorem allEntries_nodup (hn : ∀ i, (rb.level i).objList.Nodup) : rb.allEntries.Nodup := by
  unfold RouteBroker.allEntries RouteBroker.levelEntries
  refine List.nodup_flatMap.mpr ⟨fun i _ => ?_, ?_⟩
  · exact (List.nodup_reverse.mpr (hn i)).map (fun x y h => (Prod.mk.inj h).2)
  · refine (List.nodup_finRange routePriorityMax).imp (fun {i j} hij => ?_)
    intro x hx hx'
    obtain ⟨r, -, rfl⟩ := List.mem_map.mp hx
    obtain ⟨r', -, he⟩ := List.mem_map.mp hx'
    exact hij (Prod.mk.inj he).1.symm

/-- The walk visits everything exactly if no empty level comes before one that is not. -/
theorem walkComplete_iff (hn : ∀ i, (rb.level i).objList.Nodup) : rb.WalkComplete ↔ rb.NoGap := by
  obtain ⟨n, hwalk⟩ := seqWalk_eq rb hn
  rw [← walked_eq_iff_noGap]
  constructor
  · rintro ⟨m, hall⟩
    have h := hall (max n m) (le_max_right n m)
    rw [hwalk (max n m) (le_max_left n m)] at h
    exact Option.some.inj h
  · intro h
    refine ⟨n, fun m hm => ?_⟩
    rw [hwalk m hm, h]

end Complete

variable [DecidableEq Topic]

omit [DecidableEq Addr] [DecidableEq Cl] [DecidableEq Topic] in
/-- A client has its cursor in every level. -/
theorem noGap_of_client {gen : Data → ℤ × Topic × Bool} {rb : RouteBroker Addr Cl Topic Data}
    (hc : Consistent gen rb) (hne : rb.clientList ≠ []) : rb.NoGap := by
  intro i _ _ hnil
  obtain ⟨c, hmem⟩ := List.exists_mem_of_ne_nil _ hne
  rw [← hc.wired.clients i] at hmem
  have hcursor := ((hc.sound.linked i).cursor_mem c).mpr hmem
  rw [hnil] at hcursor
  exact absurd hcursor List.not_mem_nil

/-- **When the walk is complete.**  In every reachable state, iterating
`route_broker_seq_next` from `route_broker_seq_first` until `NULL` visits every data
object and every cursor of every level exactly once, the levels in increasing order and
each of them from tail to head, with `*pri` the level of the entry, exactly if no level
whose list is empty comes before one whose list is not.  This is so in particular as
long as a client is registered. -/
theorem seq_walk_complete_iff {gen : Data → ℤ × Topic × Bool} {copy : Data → Data}
    {w : RouteWorld Addr Cl Topic Data} (h : (routeSystem Addr Cl gen copy).Reachable w) :
    ((∃ n, ∀ m, n ≤ m → w.rb.seqWalk m w.rb.seqFirst = some w.rb.allEntries) ↔
      ∀ i j : Level, i < j → (w.rb.level i).objList = [] → (w.rb.level j).objList = []) ∧
    w.rb.allEntries.Nodup ∧
    (w.rb.clientList ≠ [] →
      ∃ n, ∀ m, n ≤ m → w.rb.seqWalk m w.rb.seqFirst = some w.rb.allEntries) := by
  have hc := reachable_consistent h
  have hn : ∀ i, (w.rb.level i).objList.Nodup := fun i => (hc.sound.linked i).nodup
  have hiff : w.rb.WalkComplete ↔ w.rb.NoGap := walkComplete_iff w.rb hn
  exact ⟨hiff, allEntries_nodup w.rb hn, fun hne => hiff.mpr (noGap_of_client hc hne)⟩

/-- The theorem at a run with a client and routes in two levels. -/
theorem seq_walk_complete_two_levels :
    ∃ w, (routeSystem ℕ ℕ plainGen id).exec .start [.clientCreate 0 "dp",
        .publish 100 (7, 1, false) 2, .publish 101 (8, 1, false) 0] = some w ∧
      w.rb.allEntries = [(0, .obj 101), (0, .client 0), (1, .client 0), (2, .obj 100),
        (2, .client 0)] ∧
      ∃ n, ∀ m, n ≤ m → w.rb.seqWalk m w.rb.seqFirst = some w.rb.allEntries := by
  obtain ⟨w, hexec, hp⟩ := (routeSystem ℕ ℕ plainGen id).exists_of_exec_any .start
    [.clientCreate 0 "dp", .publish 100 (7, 1, false) 2, .publish 101 (8, 1, false) 0]
    (fun w => decide (w.rb.clientList ≠ [] ∧ w.rb.allEntries = [(0, .obj 101), (0, .client 0),
      (1, .client 0), (2, .obj 100), (2, .client 0)])) (by decide +kernel)
  rw [decide_eq_true_eq] at hp
  exact ⟨w, hexec, hp.2, (seq_walk_complete_iff ⟨_, hexec⟩).2.2 hp.1⟩

/-- Without a client, a route in level `2` alone is not visited: level `0` is empty, and
`route_broker_seq_first` returns `NULL`. -/
theorem seq_walk_misses_route :
    ∃ w, (routeSystem ℕ ℕ plainGen id).exec .start [.publish 100 (7, 1, false) 2] = some w ∧
      w.rb.allEntries = [(2, .obj 100)] ∧
      ∀ m, w.rb.seqWalk m w.rb.seqFirst = some [] := by
  obtain ⟨w, hexec, hp⟩ := (routeSystem ℕ ℕ plainGen id).exists_of_exec_any .start
    [.publish 100 (7, 1, false) 2]
    (fun w => decide (w.rb.allEntries = [(2, .obj 100)] ∧ w.rb.seqFirst = (none, 0)))
    (by decide +kernel)
  rw [decide_eq_true_eq] at hp
  obtain ⟨hall, hfirst⟩ := hp
  refine ⟨w, hexec, hall, fun m => ?_⟩
  rw [hfirst]
  cases m with
  | zero => rfl
  | succ m => rfl
