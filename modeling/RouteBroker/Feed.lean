/-
# Conflating change feeds

A library module: what a broker between one publisher and any number of
subscribers is for.  The publisher owns a table; each subscriber builds a copy of
it, its *view*, from the changes it is handed.  Changes are conflated: the feed
does not queue them, it only remembers for each subscriber which keys are
*pending*, and hands over the current entry of a pending key.

* `Feed.Step` lists the moves such a feed can make;
* `Feed.Synced` is the invariant: a view agrees with the table on every key that
  is not pending;
* `Synced.view_eq_table` is the purpose: a subscriber with nothing pending holds
  exactly the table.

Views and tables built from a list of changes are `replay`s; `replay_filter` and
`replay_rename` say that only the changes of a key matter for its entry, and names do not.
-/
import Mathlib

/-! ## Tables built from changes -/

namespace Feed

variable {K V : Type*} [DecidableEq K]

/-- A change of one key: its new entry, or `none` when the key is removed. -/
abbrev Change (K V : Type*) := K × Option V

/-- Apply one change to a table. -/
def applyChange (tbl : K → Option V) (m : Change K V) : K → Option V :=
  Function.update tbl m.1 m.2

/-- The table the changes build, in order, starting empty. -/
def replay (ms : List (Change K V)) : K → Option V :=
  ms.foldl applyChange fun _ => none

@[simp] theorem replay_nil : replay ([] : List (Change K V)) = fun _ => none := rfl

theorem replay_concat (ms : List (Change K V)) (m : Change K V) :
    replay (ms ++ [m]) = Function.update (replay ms) m.1 m.2 := by
  unfold replay
  rw [List.foldl_append, List.foldl_cons, List.foldl_nil, applyChange]

section Items

variable {ι : Type*} {items : List ι} {f : ι → Change K V} {k : K}

/-- Only the changes of a key matter for its entry. -/
theorem replay_filter {p : ι → Bool} (h : ∀ i ∈ items, (f i).1 = k → p i = true) :
    replay ((items.filter p).map f) k = replay (items.map f) k := by
  induction items using List.reverseRecOn with
  | nil => rfl
  | append_singleton items i ih =>
    have ih' := ih fun i' hi' => h i' (List.mem_append_left _ hi')
    have hi := h i (List.mem_append_right _ List.mem_cons_self)
    rw [List.filter_append, List.map_append, List.map_append, List.map_singleton, replay_concat]
    by_cases hp : p i = true
    · rw [List.filter_cons_of_pos hp, List.filter_nil, List.map_singleton, replay_concat]
      by_cases hk : k = (f i).1
      · rw [hk, Function.update_self, Function.update_self]
      · rw [Function.update_of_ne hk, Function.update_of_ne hk, ih']
    · have hk : k ≠ (f i).1 := fun hk => hp (hi hk.symm)
      rw [List.filter_cons_of_neg hp, List.filter_nil, List.map_nil, List.append_nil,
        Function.update_of_ne hk, ih']

/-- A key that is never changed has no entry. -/
theorem replay_eq_none (h : ∀ i ∈ items, (f i).1 ≠ k) : replay (items.map f) k = none := by
  rw [← replay_filter (p := fun _ => false) fun i hi hk => absurd hk (h i hi), List.filter_false]
  rfl

/-- The same entries under other names for the keys. -/
theorem replay_rename {K' : Type*} [DecidableEq K'] {f' : ι → Change K' V} {k' : K'}
    (hkey : ∀ i ∈ items, (f' i).1 = k' ↔ (f i).1 = k) (hval : ∀ i ∈ items, (f' i).2 = (f i).2) :
    replay (items.map f') k' = replay (items.map f) k := by
  induction items using List.reverseRecOn with
  | nil => rfl
  | append_singleton items i ih =>
    have hin : i ∈ items ++ [i] := List.mem_append_right _ List.mem_cons_self
    have ih' := ih (fun j hj => hkey j (List.mem_append_left _ hj))
      (fun j hj => hval j (List.mem_append_left _ hj))
    rw [List.map_append, List.map_append, List.map_singleton, List.map_singleton, replay_concat,
      replay_concat]
    by_cases hk : (f i).1 = k
    · have hk' := (hkey i hin).mpr hk
      rw [← hk, ← hk', Function.update_self, Function.update_self, hval i hin]
    · have hk' : (f' i).1 ≠ k' := fun he => hk ((hkey i hin).mp he)
      rw [Function.update_of_ne (Ne.symm hk), Function.update_of_ne (Ne.symm hk'), ih']

end Items

end Feed

/-! ## The feed -/

/-- A change feed with subscribers `C`, keys `K` and entries `V`. -/
structure Feed (C K V : Type*) where
  clients : Set C
  table : K → Option V
  view : C → K → Option V
  pending : C → Set K

namespace Feed

variable {C K V : Type*}

/-- Every view agrees with the table on the keys that are not pending. -/
def Synced (s : Feed C K V) : Prop :=
  ∀ c ∈ s.clients, ∀ k, k ∉ s.pending c → s.view c k = s.table k

/-- A subscriber with nothing pending holds exactly the table. -/
theorem Synced.view_eq_table {s : Feed C K V} (h : s.Synced) {c : C} (hc : c ∈ s.clients)
    (hp : s.pending c = ∅) : s.view c = s.table := by
  funext k
  exact h c hc k (by rw [hp]; exact Set.notMem_empty k)

variable [DecidableEq K]

/-- The moves of a feed, seen from the subscribers it has afterwards. -/
inductive Step (s t : Feed C K V) : Prop
  /-- Nothing a subscriber can tell. -/
  | idle (hclients : t.clients ⊆ s.clients) (htable : t.table = s.table)
      (hview : ∀ c ∈ t.clients, t.view c = s.view c)
      (hpending : ∀ c ∈ t.clients, t.pending c = s.pending c)
  /-- The entry of `k` changes and becomes pending for everyone. -/
  | change (k : K) (v : Option V) (hclients : t.clients = s.clients)
      (htable : t.table = Function.update s.table k v)
      (hview : ∀ c ∈ t.clients, t.view c = s.view c)
      (hpending : ∀ c ∈ t.clients, t.pending c = insert k (s.pending c))
  /-- A subscriber joins with an empty view; every entry is pending for it. -/
  | join (c : C) (hclients : t.clients = insert c s.clients) (htable : t.table = s.table)
      (hview : ∀ d ∈ t.clients, d ≠ c → t.view d = s.view d)
      (hpending : ∀ d ∈ t.clients, d ≠ c → t.pending d = s.pending d)
      (hempty : ∀ k, t.view c k = none)
      (hall : ∀ k, s.table k ≠ none → k ∈ t.pending c)
  /-- A subscriber is handed the entry of a pending key. -/
  | deliver (c : C) (k : K) (hclients : t.clients = s.clients) (htable : t.table = s.table)
      (hview : ∀ d ∈ t.clients, d ≠ c → t.view d = s.view d)
      (hpending : ∀ d ∈ t.clients, d ≠ c → t.pending d = s.pending d)
      (hgot : t.view c = Function.update (s.view c) k (s.table k))
      (hdone : t.pending c = s.pending c \ {k})

/-- **Every move of a feed keeps the views in step with the table.** -/
theorem Step.synced {s t : Feed C K V} (h : Step s t) (hs : s.Synced) : t.Synced := by
  intro c hc k hk
  cases h with
  | idle hclients htable hview hpending =>
    rw [hview c hc, htable]
    rw [hpending c hc] at hk
    exact hs c (hclients hc) k hk
  | change k' v hclients htable hview hpending =>
    rw [hpending c hc, Set.mem_insert_iff, not_or] at hk
    rw [hview c hc, htable, Function.update_of_ne hk.1]
    exact hs c (hclients ▸ hc) k hk.2
  | join c' hclients htable hview hpending hempty hall =>
    rw [htable]
    by_cases hcc : c = c'
    · subst hcc
      rw [hempty k]
      by_contra hne
      exact hk (hall k (fun h => hne h.symm))
    · rw [hview c hc hcc]
      rw [hpending c hc hcc] at hk
      rw [hclients, Set.mem_insert_iff] at hc
      exact hs c (hc.resolve_left hcc) k hk
  | deliver c' k' hclients htable hview hpending hgot hdone =>
    rw [htable]
    by_cases hcc : c = c'
    · subst hcc
      rw [hgot]
      by_cases hkk : k = k'
      · rw [hkk, Function.update_self]
      · rw [Function.update_of_ne hkk]
        refine hs c (hclients ▸ hc) k (fun hk' => hk ?_)
        rw [hdone]
        exact ⟨hk', hkk⟩
    · rw [hview c hc hcc]
      rw [hpending c hc hcc] at hk
      exact hs c (hclients ▸ hc) k hk

end Feed
