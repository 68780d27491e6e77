/-
# Tail queues as lists, and the order of their members

A library module on the doubly linked tail queues of `sys/queue.h`, seen as the
list of their members from head to tail.  The queue operations are list
functions, and all reasoning about *positions* goes through one relation:

* `Precedes l x y`: the queue `l` holds `x` somewhere before `y`.

Every operation has one lemma that says which pairs it puts in order
(`precedes_insertHead`, `precedes_insertTail`, `precedes_filter`,
`precedes_remove`, `precedes_insertAfter`), and `pairwise_iff_precedes` turns a
statement about all ordered pairs into a statement about `Precedes`.  After that
no proof looks at the shape of a queue any more.
-/
import Mathlib

namespace Circleq

variable {α : Type*}

/-! ## The queue operations -/

/-- `CIRCLEQ_INSERT_HEAD`. -/
def insertHead (l : List α) (x : α) : List α := x :: l

/-- `CIRCLEQ_INSERT_TAIL`. -/
def insertTail (l : List α) (x : α) : List α := l ++ [x]

variable [DecidableEq α]

/-- `CIRCLEQ_REMOVE`. -/
def remove (l : List α) (x : α) : List α := l.erase x

/-- `CIRCLEQ_INSERT_AFTER`: `x` becomes the successor of the member `a`. -/
def insertAfter : List α → α → α → List α
  | [], _, _ => []
  | b :: l, a, x => if b = a then b :: x :: l else b :: insertAfter l a x

/-- The members that following `CIRCLEQ_NEXT` from `x` visits before it is back
at the head of the queue. -/
def after : List α → α → List α
  | [], _ => []
  | b :: l, x => if b = x then l else after l x

/-! ## The order of the members -/

omit [DecidableEq α] in
/-- `x` stands somewhere before `y` in the queue. -/
def Precedes (l : List α) (x y : α) : Prop := [x, y].Sublist l

instance (l : List α) (x y : α) : Decidable (Precedes l x y) :=
  inferInstanceAs (Decidable ([x, y].Sublist l))

section Order

omit [DecidableEq α]

variable {l : List α} {x y z : α}

@[simp] theorem not_precedes_nil : ¬ Precedes [] x y := by
  simp [Precedes]

theorem Precedes.mem_left (h : Precedes l x y) : x ∈ l :=
  h.subset (by simp)

theorem Precedes.mem_right (h : Precedes l x y) : y ∈ l :=
  h.subset (by simp)

theorem Precedes.sublist {l' : List α} (h : Precedes l x y) (hs : l.Sublist l') :
    Precedes l' x y :=
  List.Sublist.trans h hs

/-- The first member comes before the others. -/
theorem precedes_cons : Precedes (z :: l) x y ↔ (x = z ∧ y ∈ l) ∨ Precedes l x y := by
  unfold Precedes
  rw [List.sublist_cons_iff]
  constructor
  · rintro (h | ⟨r, hr, hsub⟩)
    · exact Or.inr h
    · injection hr with hx hr
      subst hr
      exact Or.inl ⟨hx, List.singleton_sublist.mp hsub⟩
  · rintro (⟨rfl, hy⟩ | h)
    · exact Or.inr ⟨[y], rfl, List.singleton_sublist.mpr hy⟩
    · exact Or.inl h

/-- A relation holds of all ordered pairs of a queue when it holds of every
member and each one that comes later. -/
theorem pairwise_iff_precedes {R : α → α → Prop} :
    l.Pairwise R ↔ ∀ x y, Precedes l x y → R x y := by
  rw [List.pairwise_iff_forall_sublist]
  exact ⟨fun h x y hxy => h hxy, fun h x y hxy => h x y hxy⟩

/-- No member of a queue stands before itself. -/
theorem Precedes.ne (hn : l.Nodup) (h : Precedes l x y) : x ≠ y :=
  pairwise_iff_precedes.mp hn x y h

/-- The order of a queue is transitive. -/
theorem Precedes.trans (hn : l.Nodup) (h : Precedes l x y) (h' : Precedes l y z) :
    Precedes l x z := by
  induction l with
  | nil => simp at h
  | cons a l ih =>
    rw [List.nodup_cons] at hn
    rw [precedes_cons] at h h' ⊢
    rcases h with ⟨rfl, -⟩ | h
    · rcases h' with ⟨-, hz⟩ | h'
      · exact Or.inl ⟨rfl, hz⟩
      · exact Or.inl ⟨rfl, h'.mem_right⟩
    · rcases h' with ⟨rfl, -⟩ | h'
      · -- the head does not occur again
        exact absurd h.mem_right hn.1
      · exact Or.inr (ih hn.2 h h')

/-- Two different members are in order one way or the other. -/
theorem precedes_total (hx : x ∈ l) (hy : y ∈ l) (hne : x ≠ y) :
    Precedes l x y ∨ Precedes l y x := by
  induction l with
  | nil => simp at hx
  | cons a l ih =>
    rw [List.mem_cons] at hx hy
    rw [precedes_cons, precedes_cons]
    rcases hx with rfl | hx
    · rcases hy with rfl | hy
      · exact absurd rfl hne
      · exact Or.inl (Or.inl ⟨rfl, hy⟩)
    · rcases hy with rfl | hy
      · exact Or.inr (Or.inl ⟨rfl, hx⟩)
      · rcases ih hx hy with h | h
        · exact Or.inl (Or.inr h)
        · exact Or.inr (Or.inr h)

/-! ## What each operation does to the order -/

@[simp] theorem mem_insertHead : y ∈ insertHead l x ↔ y = x ∨ y ∈ l := by
  simp [insertHead]

@[simp] theorem mem_insertTail : y ∈ insertTail l x ↔ y ∈ l ∨ y = x := by
  simp [insertTail]

/-- A new member is linked once. -/
theorem nodup_insertHead (hx : x ∉ l) (hn : l.Nodup) : (insertHead l x).Nodup :=
  List.nodup_cons.mpr ⟨hx, hn⟩

theorem nodup_insertTail (hx : x ∉ l) (hn : l.Nodup) : (insertTail l x).Nodup := by
  unfold insertTail
  rw [List.nodup_append]
  refine ⟨hn, List.nodup_singleton x, ?_⟩
  intro a ha b hb hab
  rw [List.mem_singleton] at hb
  exact hx (hb ▸ hab ▸ ha)

/-- A new head comes before all members, and the others stay in order. -/
theorem precedes_insertHead :
    Precedes (insertHead l z) x y ↔ (x = z ∧ y ∈ l) ∨ Precedes l x y :=
  precedes_cons

/-- A new tail comes after all members. -/
theorem precedes_insertTail :
    Precedes (insertTail l z) x y ↔ Precedes l x y ∨ (x ∈ l ∧ y = z) := by
  unfold insertTail
  induction l with
  | nil => simp [precedes_cons]
  | cons a l ih =>
    rw [List.cons_append, precedes_cons, ih, precedes_cons, List.mem_append,
      List.mem_singleton, List.mem_cons]
    tauto

/-- Dropping members of a queue keeps the order of the others. -/
theorem precedes_filter (p : α → Bool) :
    Precedes (l.filter p) x y ↔ Precedes l x y ∧ p x = true ∧ p y = true := by
  induction l with
  | nil => simp
  | cons a l ih =>
    by_cases ha : p a = true
    · rw [List.filter_cons_of_pos ha, precedes_cons, precedes_cons, ih, List.mem_filter]
      constructor
      · rintro (⟨rfl, hy, hpy⟩ | ⟨h, hp⟩)
        · exact ⟨Or.inl ⟨rfl, hy⟩, ha, hpy⟩
        · exact ⟨Or.inr h, hp⟩
      · rintro ⟨⟨rfl, hy⟩ | h, hpx, hpy⟩
        · exact Or.inl ⟨rfl, hy, hpy⟩
        · exact Or.inr ⟨h, hpx, hpy⟩
    · rw [List.filter_cons_of_neg ha, precedes_cons, ih]
      constructor
      · rintro ⟨h, hp⟩
        exact ⟨Or.inr h, hp⟩
      · rintro ⟨⟨rfl, -⟩ | h, hpx, hpy⟩
        · exact absurd hpx ha
        · exact ⟨h, hpx, hpy⟩

end Order

variable {l : List α} {a x y z : α}

theorem nodup_remove (hn : l.Nodup) : (remove l z).Nodup :=
  hn.erase z

/-- What is left when a member is removed. -/
theorem mem_remove (hn : l.Nodup) : y ∈ remove l z ↔ y ≠ z ∧ y ∈ l :=
  hn.mem_erase_iff

/-- A member that is linked once is gone then. -/
theorem not_mem_remove (hn : l.Nodup) : z ∉ remove l z := by
  simp [mem_remove hn]

/-- The others stay in order. -/
theorem precedes_remove (hn : l.Nodup) :
    Precedes (remove l z) x y ↔ Precedes l x y ∧ x ≠ z ∧ y ≠ z := by
  unfold remove
  rw [hn.erase_eq_filter, precedes_filter]
  simp

/-- Removing one by one the members that meet `p` leaves those that do not. -/
theorem foldl_remove_filter (hn : l.Nodup) (p : α → Bool) :
    (l.filter p).foldl remove l = l.filter fun x => !p x := by
  have hdiff : (l.filter p).foldl remove l = l.diff (l.filter p) := by
    rw [List.diff_eq_foldl]
    rfl
  rw [hdiff, hn.sdiff_eq_filter]
  refine List.filter_congr (fun x hx => ?_)
  simp [List.mem_filter, hx]

theorem mem_insertAfter (ha : a ∈ l) : y ∈ insertAfter l a x ↔ y = x ∨ y ∈ l := by
  induction l with
  | nil => simp at ha
  | cons b l ih =>
    rw [insertAfter]
    by_cases hb : b = a
    · rw [if_pos hb, List.mem_cons, List.mem_cons, List.mem_cons]
      tauto
    · have ha' : a ∈ l := List.mem_of_ne_of_mem (Ne.symm hb) ha
      rw [if_neg hb, List.mem_cons, ih ha', List.mem_cons]
      tauto

/-- A member inserted in the middle is linked once. -/
theorem nodup_insertAfter (ha : a ∈ l) (hx : x ∉ l) (hn : l.Nodup) :
    (insertAfter l a x).Nodup := by
  induction l with
  | nil => simp at ha
  | cons b l ih =>
    rw [List.mem_cons, not_or] at hx
    rw [List.nodup_cons] at hn
    rw [insertAfter]
    by_cases hb : b = a
    · rw [if_pos hb, List.nodup_cons, List.nodup_cons, List.mem_cons]
      exact ⟨fun h => h.elim (fun e => hx.1 e.symm) hn.1, hx.2, hn.2⟩
    · have ha' : a ∈ l := List.mem_of_ne_of_mem (Ne.symm hb) ha
      rw [if_neg hb, List.nodup_cons, mem_insertAfter ha']
      exact ⟨fun h => h.elim (fun e => hx.1 e.symm) hn.1, ih ha' hx.2 hn.2⟩

/-- The inserted member comes after `a` and everything before `a`, and before
everything that came after `a`. -/
theorem precedes_insertAfter (hn : l.Nodup) (ha : a ∈ l) (hz : z ∉ l) :
    Precedes (insertAfter l a z) x y ↔
      Precedes l x y ∨ (x = z ∧ Precedes l a y) ∨ (y = z ∧ (x = a ∨ Precedes l x a)) := by
  induction l with
  | nil => simp at ha
  | cons b l ih =>
    rw [List.mem_cons, not_or] at hz
    rw [List.nodup_cons] at hn
    rw [insertAfter]
    by_cases hb : b = a
    · subst hb
      -- `a` is at the head, and nowhere else
      have hnb : ∀ w, ¬ Precedes l b w := fun w h => hn.1 h.mem_left
      have hnb' : ∀ w, ¬ Precedes l w b := fun w h => hn.1 h.mem_right
      rw [if_pos rfl, precedes_cons, precedes_cons, precedes_cons, precedes_cons,
        precedes_cons, List.mem_cons]
      have := hn.1
      have := hnb y
      have := hnb' x
      tauto
    · have ha' : a ∈ l := List.mem_of_ne_of_mem (Ne.symm hb) ha
      rw [if_neg hb, precedes_cons, ih hn.2 ha' hz.2, mem_insertAfter ha', precedes_cons,
        precedes_cons, precedes_cons]
      constructor
      · rintro (⟨rfl, rfl | hy⟩ | h | ⟨rfl, h⟩ | ⟨rfl, h⟩)
        · exact Or.inr (Or.inr ⟨rfl, Or.inr (Or.inl ⟨rfl, ha'⟩)⟩)
        · exact Or.inl (Or.inl ⟨rfl, hy⟩)
        · exact Or.inl (Or.inr h)
        · exact Or.inr (Or.inl ⟨rfl, Or.inr h⟩)
        · exact Or.inr (Or.inr ⟨rfl, h.imp_right Or.inr⟩)
      · rintro ((h | h) | ⟨rfl, ⟨h, -⟩ | h⟩ | ⟨rfl, h | ⟨rfl, -⟩ | h⟩)
        · exact Or.inl ⟨h.1, Or.inr h.2⟩
        · exact Or.inr (Or.inl h)
        · exact absurd h.symm hb
        · exact Or.inr (Or.inr (Or.inl ⟨rfl, h⟩))
        · exact Or.inr (Or.inr (Or.inr ⟨rfl, Or.inl h⟩))
        · exact Or.inl ⟨rfl, Or.inl rfl⟩
        · exact Or.inr (Or.inr (Or.inr ⟨rfl, Or.inr h⟩))

/-! ## Walking a queue -/

/-- What a walk from `x` visits is what `x` precedes. -/
theorem mem_after (hn : l.Nodup) : y ∈ after l x ↔ Precedes l x y := by
  induction l with
  | nil => simp [after]
  | cons b l ih =>
    rw [List.nodup_cons] at hn
    rw [after, precedes_cons]
    by_cases hb : b = x
    · subst hb
      rw [if_pos rfl]
      exact ⟨fun h => Or.inl ⟨rfl, h⟩, fun h => h.elim (·.2) (fun h => absurd h.mem_left hn.1)⟩
    · rw [if_neg hb, ih hn.2]
      exact ⟨Or.inr, fun h => h.elim (fun h => absurd h.1.symm hb) id⟩

theorem after_append_cons {pre rest : List α} (hn : (pre ++ x :: rest).Nodup) :
    after (pre ++ x :: rest) x = rest := by
  induction pre with
  | nil => simp [after]
  | cons b pre ih =>
    rw [List.cons_append, List.nodup_cons] at hn
    have hb : b ≠ x := by
      intro he
      exact hn.1 (by simp [he])
    rw [List.cons_append, after, if_neg hb]
    exact ih hn.2

/-- It visits the members in their order. -/
theorem after_sublist (l : List α) (x : α) : (after l x).Sublist l := by
  induction l with
  | nil => exact List.Sublist.refl []
  | cons b l ih =>
    rw [after]
    by_cases hb : b = x
    · rw [if_pos hb]
      exact List.sublist_cons_self b l
    · rw [if_neg hb]
      exact ih.cons b

/-- What a search from `x` towards the tail finds is the first of the members
after `x` that it looks for. -/
theorem find?_after_eq_some (hn : l.Nodup) {p : α → Bool}
    (h : (after l x).find? p = some y) :
    p y = true ∧ Precedes l x y ∧
      ∀ z, p z = true → Precedes l x z → z = y ∨ Precedes l y z := by
  obtain ⟨hp, as, bs, heq, has⟩ := List.find?_eq_some_iff_append.mp h
  refine ⟨hp, (mem_after hn).mp (List.mem_of_find?_eq_some h), fun z hz hxz => ?_⟩
  have hmem := (mem_after hn).mpr hxz
  rw [heq, List.mem_append, List.mem_cons] at hmem
  -- the search has passed over `as`, stopped at `y` and not come to `bs`
  rcases hmem with hz' | rfl | hz'
  · have := has z hz'
    simp [hz] at this
  · exact Or.inl rfl
  · refine Or.inr (List.Sublist.trans ?_ (after_sublist l x))
    rw [heq]
    exact ((List.singleton_sublist.mpr hz').cons_cons y).trans (List.sublist_append_right as _)

/-- A search finds nothing exactly if nothing behind `x` qualifies. -/
theorem find?_after_eq_none (hn : l.Nodup) {p : α → Bool} :
    (after l x).find? p = none ↔ ∀ z, Precedes l x z → p z = false := by
  rw [List.find?_eq_none]
  constructor
  · intro h z hz
    simpa using h z ((mem_after hn).mpr hz)
  · intro h z hz
    simp [h z ((mem_after hn).mp hz)]

end Circleq
