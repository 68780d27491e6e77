/-
# Tail queues as links in memory

A library module on the macros of `sys/queue.h` as they work: a queue is a head
(`cqh_first`, `cqh_last`) and entries (`cqe_next`, `cqe_prev`) that point to each
other.  The links of an entry stand first in it, as those of the head do in the
head, so that a pointer to the head serves as an entry before the first and after
the last one.

* `Links.insertHead`, `Links.insertTail`, `Links.insertAfter` and `Links.remove` are
  the macros, assignment by assignment;
* `Links.Ring m l`: the links `m` are those of a queue whose members are `l`.

Every macro edits the links between two neighbours, `chain_between` and
`chain_unlink` are the two edits, and `Ring.insertHead`, `Ring.insertTail`,
`Ring.insertAfter`, `Ring.remove` say that each macro does to the links what the
operation of the same name in `Circleq.lean` does to the list.

`Queue` adds the members at the moment.  They are not in memory: they are there to
tell when a link of an entry is followed that is in the queue no more.
-/
import RouteBroker.Circleq

namespace Circleq

/-- A pointer in a queue: to its head, or to an entry. -/
inductive Ptr (α : Type*)
  | head
  | entry (a : α)
  deriving DecidableEq, Repr

/-- The links of a queue.  `next .head` is `cqh_first` and `prev .head` is
`cqh_last`. -/
structure Links (α : Type*) where
  next : Ptr α → Ptr α
  prev : Ptr α → Ptr α

variable {α : Type*}

namespace Links

section Macros

variable [DecidableEq α]

/-- Assign the forward link of `p`. -/
def setNext (m : Links α) (p q : Ptr α) : Links α :=
  { m with next := Function.update m.next p q }

/-- Assign the backward link of `p`. -/
def setPrev (m : Links α) (p q : Ptr α) : Links α :=
  { m with prev := Function.update m.prev p q }

/-- `CIRCLEQ_INIT`. -/
def init (m : Links α) : Links α := (m.setNext .head .head).setPrev .head .head

/-- `CIRCLEQ_INSERT_HEAD`. -/
def insertHead (m : Links α) (a : α) : Links α :=
  let m := m.setNext (.entry a) (m.next .head)
  let m := m.setPrev (.entry a) .head
  let m := if m.prev .head = .head then m.setPrev .head (.entry a)
    else m.setPrev (m.next .head) (.entry a)
  m.setNext .head (.entry a)

/-- `CIRCLEQ_INSERT_TAIL`. -/
def insertTail (m : Links α) (a : α) : Links α :=
  let m := m.setNext (.entry a) .head
  let m := m.setPrev (.entry a) (m.prev .head)
  let m := if m.next .head = .head then m.setNext .head (.entry a)
    else m.setNext (m.prev .head) (.entry a)
  m.setPrev .head (.entry a)

/-- `CIRCLEQ_INSERT_AFTER`. -/
def insertAfter (m : Links α) (b a : α) : Links α :=
  let m := m.setNext (.entry a) (m.next (.entry b))
  let m := m.setPrev (.entry a) (.entry b)
  let m := if m.next (.entry b) = .head then m.setPrev .head (.entry a)
    else m.setPrev (m.next (.entry b)) (.entry a)
  m.setNext (.entry b) (.entry a)

/-- `CIRCLEQ_REMOVE`.  The links of the entry itself stay as they are. -/
def remove (m : Links α) (a : α) : Links α :=
  let m := if m.next (.entry a) = .head then m.setPrev .head (m.prev (.entry a))
    else m.setPrev (m.next (.entry a)) (m.prev (.entry a))
  if m.prev (.entry a) = .head then m.setNext .head (m.next (.entry a))
  else m.setNext (m.prev (.entry a)) (m.next (.entry a))

end Macros

/-! ## Rings -/

/-- `q` follows `p`, seen from both. -/
def Link (m : Links α) (p q : Ptr α) : Prop := m.next p = q ∧ m.prev q = p

/-- The pointers a walk meets: the entries and, at the end, the head. -/
def ptrs (l : List α) : List (Ptr α) := l.map .entry ++ [.head]

/-- What `CIRCLEQ_FIRST` returns for the queue `l`. -/
def first : List α → Ptr α
  | [] => .head
  | a :: _ => .entry a

/-- The links `m` form a circle through the head, and the entries on it are `l`. -/
structure Ring (m : Links α) (l : List α) : Prop where
  chain : (.head :: ptrs l).IsChain m.Link
  nodup : l.Nodup

@[simp] theorem ptrs_nil : ptrs ([] : List α) = [.head] := rfl

@[simp] theorem ptrs_cons (a : α) (l : List α) : ptrs (a :: l) = .entry a :: ptrs l := rfl

theorem ptrs_append (l l' : List α) : ptrs (l ++ l') = l.map .entry ++ ptrs l' := by
  simp [ptrs]

theorem ptrs_eq_first (l : List α) : ∃ ps, ptrs l = first l :: ps := by
  cases l with
  | nil => exact ⟨[], rfl⟩
  | cons a l => exact ⟨ptrs l, rfl⟩

@[simp] theorem head_notMem_map (l : List α) : Ptr.head ∉ l.map Ptr.entry := by
  simp

@[simp] theorem entry_mem_map {a : α} {l : List α} : Ptr.entry a ∈ l.map Ptr.entry ↔ a ∈ l := by
  simp

@[simp] theorem entry_mem_ptrs {a : α} {l : List α} : Ptr.entry a ∈ ptrs l ↔ a ∈ l := by
  simp [ptrs]

theorem nodup_map_entry {l : List α} (hn : l.Nodup) : (l.map Ptr.entry).Nodup := by
  apply hn.map
  intro a b hab
  injection hab

theorem nodup_ptrs {l : List α} (hn : l.Nodup) : (ptrs l).Nodup := by
  unfold ptrs
  rw [List.nodup_append]
  refine ⟨nodup_map_entry hn, List.nodup_singleton _, ?_⟩
  intro p hp q hq hpq
  rw [List.mem_singleton] at hq
  rw [hpq, hq] at hp
  exact head_notMem_map l hp

/-- A chain of links reads the forward link of every node but the last and the
backward link of every node but the first. -/
theorem chain_congr {m m' : Links α} {ps : List (Ptr α)} (h : ps.IsChain m.Link)
    (hnext : ∀ p ∈ ps.dropLast, m'.next p = m.next p)
    (hprev : ∀ p ∈ ps.tail, m'.prev p = m.prev p) : ps.IsChain m'.Link := by
  induction ps with
  | nil => exact List.IsChain.nil
  | cons p ps ih =>
    cases ps with
    | nil => exact List.isChain_singleton p
    | cons q ps =>
      rw [List.isChain_cons_cons] at h ⊢
      refine ⟨⟨?_, ?_⟩, ih h.2 ?_ ?_⟩
      · rw [hnext p (by simp), h.1.1]
      · rw [hprev q (by simp), h.1.2]
      · intro r hr
        exact hnext r (by simp [hr])
      · intro r hr
        exact hprev r (List.mem_cons_of_mem q hr)

variable [DecidableEq α]

/-- Put `a` between the neighbours `x` and `y`. -/
def between (m : Links α) (x a y : Ptr α) : Links α where
  next := Function.update (Function.update m.next a y) x a
  prev := Function.update (Function.update m.prev a x) y a

/-- Make `x` and `y` neighbours. -/
def unlink (m : Links α) (x y : Ptr α) : Links α where
  next := Function.update m.next x y
  prev := Function.update m.prev y x

section Edits

variable {m : Links α} {x a y : Ptr α} {ps qs : List (Ptr α)}

omit [DecidableEq α] in
/-- A chain is cut between two neighbours. -/
theorem chain_seam : (ps ++ x :: y :: qs).IsChain m.Link ↔
    (ps ++ [x]).IsChain m.Link ∧ m.Link x y ∧ (y :: qs).IsChain m.Link := by
  rw [List.isChain_append_cons_cons]

/-- The first edit.  Outside of the seam no link changes. -/
theorem chain_between (h : (ps ++ x :: y :: qs).IsChain m.Link)
    (hx : x ∉ ps ∧ x ∉ (y :: qs).dropLast) (hy : y ∉ (ps ++ [x]).tail ∧ y ∉ qs)
    (hax : a ∉ ps ++ [x]) (hay : a ∉ y :: qs) :
    (ps ++ x :: a :: y :: qs).IsChain (m.between x a y).Link := by
  rw [chain_seam] at h ⊢
  obtain ⟨hps, -, hqs⟩ := h
  have hxa : a ≠ x := fun he => hax (by simp [he])
  have hya : a ≠ y := fun he => hay (by simp [he])
  refine ⟨chain_congr hps ?_ ?_, ⟨?_, ?_⟩, List.isChain_cons_cons.mpr ⟨⟨?_, ?_⟩,
    chain_congr hqs ?_ ?_⟩⟩
  · intro p hp
    rw [List.dropLast_concat] at hp
    have hpx : p ≠ x := fun he => hx.1 (he ▸ hp)
    have hpa : p ≠ a := fun he => hax (by simp [← he, hp])
    simp [between, hpx, hpa]
  · intro p hp
    have hpy : p ≠ y := fun he => hy.1 (he ▸ hp)
    have hpa : p ≠ a := fun he => hax (he ▸ List.mem_of_mem_tail hp)
    simp [between, hpy, hpa]
  · simp [between]
  · simp [between, hya]
  · simp [between, hxa]
  · simp [between]
  · intro p hp
    have hpx : p ≠ x := fun he => hx.2 (he ▸ hp)
    have hpa : p ≠ a := fun he => hay (he ▸ List.mem_of_mem_dropLast hp)
    simp [between, hpx, hpa]
  · intro p hp
    have hpy : p ≠ y := fun he => hy.2 (he ▸ hp)
    have hpa : p ≠ a := fun he => hay (he ▸ List.mem_cons_of_mem y hp)
    simp [between, hpy, hpa]

/-- The second edit. -/
theorem chain_unlink (h : (ps ++ x :: a :: y :: qs).IsChain m.Link)
    (hx : x ∉ ps ∧ x ∉ (y :: qs).dropLast) (hy : y ∉ (ps ++ [x]).tail ∧ y ∉ qs) :
    (ps ++ x :: y :: qs).IsChain (m.unlink x y).Link := by
  rw [chain_seam, List.isChain_cons_cons] at h
  obtain ⟨hps, -, -, hqs⟩ := h
  rw [chain_seam]
  refine ⟨chain_congr hps ?_ ?_, ⟨?_, ?_⟩, chain_congr hqs ?_ ?_⟩
  · intro p hp
    rw [List.dropLast_concat] at hp
    have hpx : p ≠ x := fun he => hx.1 (he ▸ hp)
    simp [unlink, hpx]
  · intro p hp
    have hpy : p ≠ y := fun he => hy.1 (he ▸ hp)
    simp [unlink, hpy]
  · simp [unlink]
  · simp [unlink]
  · intro p hp
    have hpx : p ≠ x := fun he => hx.2 (he ▸ hp)
    simp [unlink, hpx]
  · intro p hp
    have hpy : p ≠ y := fun he => hy.2 (he ▸ hp)
    simp [unlink, hpy]

end Edits

/-! ## The macros on a ring -/

/-- What `CIRCLEQ_LAST` returns for the queue `l`. -/
def last (l : List α) : Ptr α := first l.reverse

omit [DecidableEq α] in
@[simp] theorem last_nil : last ([] : List α) = .head := rfl

omit [DecidableEq α] in
@[simp] theorem last_concat (l : List α) (a : α) : last (l ++ [a]) = .entry a := by
  simp [last, first]

omit [DecidableEq α] in
theorem first_mem {l : List α} {a : α} (h : first l = .entry a) : a ∈ l := by
  cases l with
  | nil => cases h
  | cons b l =>
    injection h with h
    simp [h]

omit [DecidableEq α] in
theorem last_mem {l : List α} {a : α} (h : last l = .entry a) : a ∈ l := by
  simpa using first_mem h

omit [DecidableEq α] in
theorem exists_eq_concat_last (l : List α) : ∃ ps, .head :: l.map .entry = ps ++ [last l] := by
  rcases l.eq_nil_or_concat with rfl | ⟨l, a, rfl⟩
  · exact ⟨[], rfl⟩
  · exact ⟨.head :: l.map .entry, by simp⟩

omit [DecidableEq α] in
/-- A queue cut in two: the last node of the front and the first of the rest are the
neighbours at the seam, and they occur nowhere else that a chain reads them. -/
theorem exists_seam {pre post : List α} (hn : (pre ++ post).Nodup) :
    ∃ ps qs, .head :: pre.map .entry = ps ++ [last pre] ∧ ptrs post = first post :: qs ∧
      (last pre ∉ ps ∧ last pre ∉ (first post :: qs).dropLast) ∧
      (first post ∉ (ps ++ [last pre]).tail ∧ first post ∉ qs) := by
  obtain ⟨ps, hps⟩ := exists_eq_concat_last pre
  obtain ⟨qs, hqs⟩ := ptrs_eq_first post
  rw [List.nodup_append] at hn
  obtain ⟨hpre, hpost, hdisj⟩ := hn
  refine ⟨ps, qs, hps, hqs, ⟨?_, ?_⟩, ?_, ?_⟩
  · have h : (Ptr.head :: pre.map Ptr.entry).Nodup :=
      List.nodup_cons.mpr ⟨head_notMem_map pre, nodup_map_entry hpre⟩
    rw [hps, List.nodup_append] at h
    intro hmem
    exact h.2.2 _ hmem _ (List.mem_singleton.mpr rfl) rfl
  · rw [← hqs, ptrs, List.dropLast_concat]
    intro hmem
    obtain ⟨a, ha, hlast⟩ := List.mem_map.mp hmem
    exact hdisj a (last_mem hlast.symm) a ha rfl
  · rw [← hps, List.tail_cons]
    intro hmem
    obtain ⟨a, ha, hfirst⟩ := List.mem_map.mp hmem
    exact hdisj a ha a (first_mem hfirst.symm) rfl
  · have h := nodup_ptrs hpost
    rw [hqs, List.nodup_cons] at h
    exact h.1

omit [DecidableEq α] in
theorem head_cons_ptrs {pre post ps qs : List _} {x y : Ptr α}
    (hps : .head :: pre.map .entry = ps ++ [x]) (hqs : ptrs post = y :: qs) :
    .head :: ptrs (pre ++ post) = ps ++ x :: y :: qs := by
  rw [ptrs_append, ← List.cons_append, hps, hqs]
  simp

section Rings

variable {m : Links α} {l pre post : List α} {a b : α}

omit [DecidableEq α] in
/-- The neighbours at any place of a ring. -/
theorem Ring.link (h : m.Ring (pre ++ post)) : m.Link (last pre) (first post) := by
  obtain ⟨ps, qs, hps, hqs, -, -⟩ := exists_seam h.nodup
  have hc := h.chain
  rw [head_cons_ptrs hps hqs, chain_seam] at hc
  exact hc.2.1

omit [DecidableEq α] in
/-- The head points to the first member. -/
theorem Ring.next_head (h : m.Ring l) : m.next .head = first l := by
  have h' : m.Ring ([] ++ l) := h
  exact h'.link.1

omit [DecidableEq α] in
/-- And to the last one. -/
theorem Ring.prev_head (h : m.Ring l) : m.prev .head = last l := by
  have h' : m.Ring (l ++ []) := by rwa [List.append_nil]
  exact h'.link.2

omit [DecidableEq α] in
/-- A member points to the one behind it. -/
theorem Ring.next_entry (h : m.Ring (pre ++ a :: post)) : m.next (.entry a) = first post := by
  have h' : m.Ring ((pre ++ [a]) ++ post) := by simpa using h
  have hlink := h'.link.1
  rwa [last_concat] at hlink

omit [DecidableEq α] in
/-- And to the one in front of it. -/
theorem Ring.prev_entry (h : m.Ring (pre ++ a :: post)) : m.prev (.entry a) = last pre :=
  h.link.2

/-- A new entry between two neighbours. -/
theorem Ring.between (h : m.Ring (pre ++ post)) (ha : a ∉ pre ++ post) :
    (m.between (last pre) (.entry a) (first post)).Ring (pre ++ a :: post) := by
  obtain ⟨ps, qs, hps, hqs, hx, hy⟩ := exists_seam h.nodup
  rw [List.mem_append, not_or] at ha
  have hc := h.chain
  rw [head_cons_ptrs hps hqs] at hc
  refine ⟨?_, ?_⟩
  · have hqs' : ptrs (a :: post) = .entry a :: first post :: qs := by rw [ptrs_cons, hqs]
    rw [head_cons_ptrs hps hqs']
    apply chain_between hc hx hy
    · rw [← hps]
      simp [ha.1]
    · rw [← hqs]
      simp [ha.2]
  · rw [List.nodup_middle, List.nodup_cons, List.mem_append, not_or]
    exact ⟨ha, h.nodup⟩

/-- The neighbours of an entry are linked past it. -/
theorem Ring.unlink (h : m.Ring (pre ++ a :: post)) :
    (m.unlink (last pre) (first post)).Ring (pre ++ post) := by
  have hn := h.nodup
  rw [List.nodup_middle, List.nodup_cons] at hn
  obtain ⟨ps, qs, hps, hqs, hx, hy⟩ := exists_seam hn.2
  have hc := h.chain
  have hqs' : ptrs (a :: post) = .entry a :: first post :: qs := by rw [ptrs_cons, hqs]
  rw [head_cons_ptrs hps hqs'] at hc
  refine ⟨?_, hn.2⟩
  rw [head_cons_ptrs hps hqs]
  exact chain_unlink hc hx hy

/-- `CIRCLEQ_INIT` makes an empty queue of whatever was there. -/
theorem ring_init (m : Links α) : m.init.Ring [] := by
  refine ⟨?_, List.nodup_nil⟩
  rw [ptrs_nil, List.isChain_cons_cons]
  refine ⟨⟨?_, ?_⟩, List.isChain_singleton _⟩
  · simp [Links.init, setNext, setPrev]
  · simp [Links.init, setNext, setPrev]

/-- `CIRCLEQ_INSERT_HEAD` links `a` between the head and the first entry. -/
theorem insertHead_eq (h : m.prev .head = .head ↔ m.next .head = .head) :
    m.insertHead a = m.between .head (.entry a) (m.next .head) := by
  unfold Links.insertHead Links.between
  by_cases hm : m.next .head = .head
  · simp [setNext, setPrev, hm, h.mpr hm]
  · have hp : m.prev .head ≠ .head := fun hp => hm (h.mp hp)
    simp [setNext, setPrev, hp]

/-- `CIRCLEQ_INSERT_TAIL` links `a` between the last entry and the head. -/
theorem insertTail_eq (h : m.prev .head = .head ↔ m.next .head = .head) :
    m.insertTail a = m.between (m.prev .head) (.entry a) .head := by
  unfold Links.insertTail Links.between
  by_cases hm : m.next .head = .head
  · simp [setNext, setPrev, hm, h.mpr hm]
  · simp [setNext, setPrev, hm]

/-- `CIRCLEQ_INSERT_AFTER` links `a` between `b` and its successor. -/
theorem insertAfter_eq (hab : a ≠ b) :
    m.insertAfter b a = m.between (.entry b) (.entry a) (m.next (.entry b)) := by
  unfold Links.insertAfter Links.between
  by_cases hm : m.next (.entry b) = .head
  · simp [setNext, setPrev, hm, Ne.symm hab]
  · simp [setNext, setPrev, hm, Ne.symm hab]

/-- `CIRCLEQ_REMOVE` makes the neighbours of `a` each other's neighbours. -/
theorem remove_eq (hnext : m.next (.entry a) ≠ .entry a) :
    m.remove a = m.unlink (m.prev (.entry a)) (m.next (.entry a)) := by
  unfold Links.remove Links.unlink
  by_cases hn : m.next (.entry a) = .head <;> by_cases hp : m.prev (.entry a) = .head <;>
    simp [setNext, setPrev, hn, hp, Ne.symm hnext]

omit [DecidableEq α] in
theorem first_eq_head {l : List α} : first l = .head ↔ l = [] := by
  cases l <;> simp [first]

omit [DecidableEq α] in
theorem Ring.head_iff (h : m.Ring l) : m.prev .head = .head ↔ m.next .head = .head := by
  rw [h.prev_head, h.next_head, last, first_eq_head, first_eq_head, List.reverse_eq_nil_iff]

/-- `CIRCLEQ_INSERT_HEAD` on the links is that on the list. -/
theorem Ring.insertHead (h : m.Ring l) (ha : a ∉ l) :
    (m.insertHead a).Ring (Circleq.insertHead l a) := by
  rw [insertHead_eq h.head_iff, h.next_head]
  have h' : m.Ring ([] ++ l) := h
  exact h'.between ha

/-- So is `CIRCLEQ_INSERT_TAIL`. -/
theorem Ring.insertTail (h : m.Ring l) (ha : a ∉ l) :
    (m.insertTail a).Ring (Circleq.insertTail l a) := by
  have h' : m.Ring (l ++ []) := by rwa [List.append_nil]
  rw [insertTail_eq h.head_iff, h.prev_head]
  exact h'.between (by simpa using ha)

theorem insertAfter_append_cons (hb : b ∉ pre) :
    Circleq.insertAfter (pre ++ b :: post) b a = pre ++ b :: a :: post := by
  induction pre with
  | nil => simp [Circleq.insertAfter]
  | cons c pre ih =>
    rw [List.mem_cons, not_or] at hb
    rw [List.cons_append, Circleq.insertAfter, if_neg (Ne.symm hb.1), ih hb.2]
    rfl

/-- And `CIRCLEQ_INSERT_AFTER`. -/
theorem Ring.insertAfter (h : m.Ring l) (hb : b ∈ l) (ha : a ∉ l) :
    (m.insertAfter b a).Ring (Circleq.insertAfter l b a) := by
  obtain ⟨pre, post, rfl, hpre⟩ := List.eq_append_cons_of_mem hb
  have hab : a ≠ b := fun he => ha (by simp [he])
  have h' : m.Ring ((pre ++ [b]) ++ post) := by simpa using h
  have hr := h'.between (a := a) (by simpa using ha)
  rw [insertAfter_append_cons hpre, insertAfter_eq hab, h.next_entry]
  simpa using hr

/-- And `CIRCLEQ_REMOVE`. -/
theorem Ring.remove (h : m.Ring l) (ha : a ∈ l) : (m.remove a).Ring (Circleq.remove l a) := by
  obtain ⟨pre, post, rfl, hpre⟩ := List.eq_append_cons_of_mem ha
  have hn := h.nodup
  rw [List.nodup_middle, List.nodup_cons, List.mem_append, not_or] at hn
  have hself : m.next (.entry a) ≠ .entry a := by
    rw [h.next_entry]
    exact fun he => hn.1.2 (first_mem he)
  have herase : Circleq.remove (pre ++ a :: post) a = pre ++ post := by
    unfold Circleq.remove
    rw [List.erase_append_right _ hpre, List.erase_cons_head]
  rw [remove_eq hself, h.next_entry, h.prev_entry, herase]
  exact h.unlink

/-! ## Walking a ring -/

omit [DecidableEq α] in
/-- The links leave no choice of the members. -/
theorem Ring.unique {l' : List α} (h : m.Ring l) (h' : m.Ring l') : l = l' := by
  -- two walks that start at the same node meet the same nodes
  have hwalk : ∀ (l l' : List α) (p : Ptr α), (p :: ptrs l).IsChain m.Link →
      (p :: ptrs l').IsChain m.Link → l = l' := by
    intro l
    induction l with
    | nil =>
      intro l' p hl hl'
      obtain ⟨ps, hps⟩ := ptrs_eq_first l'
      rw [ptrs_nil, List.isChain_cons_cons] at hl
      rw [hps, List.isChain_cons_cons] at hl'
      exact (first_eq_head.mp (hl'.1.1.symm.trans hl.1.1)).symm
    | cons a l ih =>
      intro l' p hl hl'
      cases l' with
      | nil =>
        rw [ptrs_cons, List.isChain_cons_cons] at hl
        rw [ptrs_nil, List.isChain_cons_cons] at hl'
        cases hl'.1.1.symm.trans hl.1.1
      | cons b l' =>
        rw [ptrs_cons, List.isChain_cons_cons] at hl hl'
        have hab : Ptr.entry b = Ptr.entry a := hl'.1.1.symm.trans hl.1.1
        injection hab with hab
        subst hab
        rw [ih l' _ hl.2 hl'.2]
  exact hwalk l l' .head h.chain h'.chain

omit [DecidableEq α] in
/-- What `CIRCLEQ_NEXT` meets from the head on are members, as long as it meets entries. -/
theorem Ring.prefix_of_next {as : List α} (h : m.Ring l)
    (has : (.head :: as.map Ptr.entry).IsChain fun p q => m.next p = q) : as <+: l := by
  have hwalk : ∀ (as l : List α) (p : Ptr α), (p :: ptrs l).IsChain m.Link →
      (p :: as.map Ptr.entry).IsChain (fun p q => m.next p = q) → as <+: l := by
    intro as
    induction as with
    | nil => exact fun l _ _ _ => List.nil_prefix
    | cons a as ih =>
      intro l p hl has
      rw [List.map_cons, List.isChain_cons_cons] at has
      cases l with
      | nil =>
        rw [ptrs_nil, List.isChain_cons_cons] at hl
        cases hl.1.1.symm.trans has.1
      | cons b l =>
        rw [ptrs_cons, List.isChain_cons_cons] at hl
        have hab : Ptr.entry b = Ptr.entry a := hl.1.1.symm.trans has.1
        injection hab with hab
        subst hab
        rw [List.cons_prefix_cons]
        exact ⟨rfl, ih l _ hl.2 has.2⟩
  exact hwalk as l .head h.chain has

/-- Whatever the links are, `CIRCLEQ_INSERT_HEAD` puts `a` between the head and what
`cqh_first` points to, seen from the head on. -/
theorem insertHead_next (m : Links α) (a : α) : (m.insertHead a).next
    = Function.update (Function.update m.next (.entry a) (m.next .head)) .head (.entry a) := by
  unfold Links.insertHead
  dsimp only
  split_ifs <;> rfl

theorem chain_next_insertHead {as : List α} {d : α} (ha : a ∉ as)
    (h : (.head :: (as ++ [d]).map Ptr.entry).IsChain fun p q => m.next p = q) :
    (.head :: (a :: as ++ [d]).map Ptr.entry).IsChain fun p q => (m.insertHead a).next p = q := by
  -- the link of the last entry is not followed
  have hrest : ∀ (as : List α) (p : Ptr α), p ≠ .head → p ≠ .entry a → a ∉ as →
      (p :: (as ++ [d]).map Ptr.entry).IsChain (fun p q => m.next p = q) →
      (p :: (as ++ [d]).map Ptr.entry).IsChain fun p q => (m.insertHead a).next p = q := by
    intro as
    induction as with
    | nil =>
      intro p hp hpa _ hc
      rw [List.nil_append, List.map_singleton, List.isChain_pair] at hc ⊢
      rw [insertHead_next, Function.update_of_ne hp, Function.update_of_ne hpa, hc]
    | cons b as ih =>
      intro p hp hpa hb hc
      rw [List.mem_cons, not_or] at hb
      rw [List.cons_append, List.map_cons, List.isChain_cons_cons] at hc ⊢
      refine ⟨?_, ih _ (by simp) (by simpa using Ne.symm hb.1) hb.2 hc.2⟩
      rw [insertHead_next, Function.update_of_ne hp, Function.update_of_ne hpa, hc.1]
  rw [List.cons_append, List.map_cons, List.isChain_cons_cons]
  refine ⟨by rw [insertHead_next, Function.update_self], ?_⟩
  cases as with
  | nil =>
    rw [List.nil_append, List.map_singleton, List.isChain_pair] at h ⊢
    rw [insertHead_next, Function.update_of_ne (by simp), Function.update_self, h]
  | cons b as =>
    rw [List.mem_cons, not_or] at ha
    rw [List.cons_append, List.map_cons, List.isChain_cons_cons] at h ⊢
    refine ⟨?_, hrest as _ (by simp) (by simpa using Ne.symm ha.1) ha.2 h.2⟩
    rw [insertHead_next, Function.update_of_ne (by simp), Function.update_self, h.1]

/-- Every list of different entries is the members of some queue. -/
theorem exists_ring (hn : l.Nodup) : ∃ m : Links α, m.Ring l := by
  induction l with
  | nil =>
    exact ⟨_, ring_init { next := fun p => p, prev := fun p => p }⟩
  | cons a l ih =>
    rw [List.nodup_cons] at hn
    obtain ⟨m, hm⟩ := ih hn.2
    exact ⟨m.insertHead a, hm.insertHead hn.1⟩

end Rings

end Links

/-! ## Queues under watch -/

/-- A queue together with the entries that are linked at the moment. -/
structure Queue (α : Type*) where
  links : Links α
  member : α → Bool

namespace Queue

variable {β : Type*}

/-- A link of `p` may be followed: `p` is the head or a linked entry. -/
def ok (q : Queue α) : Ptr α → Bool
  | .head => true
  | .entry a => q.member a

/-- `CIRCLEQ_EMPTY`. -/
def isEmpty (q : Queue α) : Bool :=
  match q.links.next .head with
  | .head => true
  | .entry _ => false

/-- `CIRCLEQ_NEXT`, and `CIRCLEQ_FIRST` at the head. -/
def next (q : Queue α) (p : Ptr α) : Option (Ptr α) :=
  if q.ok p then some (q.links.next p) else none

/-- `CIRCLEQ_PREV`, and `CIRCLEQ_LAST` at the head. -/
def prev (q : Queue α) (p : Ptr α) : Option (Ptr α) :=
  if q.ok p then some (q.links.prev p) else none

/-- `CIRCLEQ_FOREACH` from `p` on, for at most so many rounds. -/
def foreach (q : Queue α) (f : β → α → β) : ℕ → Ptr α → β → Option β
  | 0, _, _ => none
  | _ + 1, .head, s => some s
  | fuel + 1, .entry a, s => (q.next (.entry a)).bind fun p => foreach q f fuel p (f s a)

section Macros

variable [DecidableEq α]

/-- `CIRCLEQ_INIT`. -/
def init (m : Links α) : Queue α := { links := m.init, member := fun _ => false }

/-- `CIRCLEQ_INSERT_HEAD`, which follows `cqh_first`. -/
def insertHead (q : Queue α) (a : α) : Option (Queue α) :=
  if q.ok (q.links.next .head) then
    some { links := q.links.insertHead a, member := Function.update q.member a true }
  else none

/-- `CIRCLEQ_INSERT_TAIL`, which follows `cqh_last`. -/
def insertTail (q : Queue α) (a : α) : Option (Queue α) :=
  if q.ok (q.links.prev .head) then
    some { links := q.links.insertTail a, member := Function.update q.member a true }
  else none

/-- `CIRCLEQ_INSERT_AFTER`, which follows the forward link of `b`. -/
def insertAfter (q : Queue α) (b a : α) : Option (Queue α) :=
  if q.member b && q.ok (q.links.next (.entry b)) then
    some { links := q.links.insertAfter b a, member := Function.update q.member a true }
  else none

/-- `CIRCLEQ_REMOVE`, which follows both links of the entry. -/
def remove (q : Queue α) (a : α) : Option (Queue α) :=
  if q.member a && q.ok (q.links.next (.entry a)) && q.ok (q.links.prev (.entry a)) then
    some { links := q.links.remove a, member := Function.update q.member a false }
  else none

end Macros

/-- A sound queue: its links form a ring, and the entries on the ring are those that
are linked. -/
structure Holds (q : Queue α) (l : List α) : Prop where
  ring : q.links.Ring l
  member : ∀ a, q.member a = true ↔ a ∈ l

section Holds

variable {q : Queue α} {l pre post : List α} {a : α}

theorem Holds.ok_first (h : q.Holds (pre ++ post)) : q.ok (Links.first post) = true := by
  cases hp : Links.first post with
  | head => rfl
  | entry b => exact (h.member b).mpr (List.mem_append_right pre (Links.first_mem hp))

theorem Holds.ok_last (h : q.Holds (pre ++ post)) : q.ok (Links.last pre) = true := by
  cases hp : Links.last pre with
  | head => rfl
  | entry b => exact (h.member b).mpr (List.mem_append_left post (Links.last_mem hp))

/-- From the end of any front of a sound queue `CIRCLEQ_NEXT` goes on to the rest. -/
theorem Holds.next_last (h : q.Holds (pre ++ post)) :
    q.next (Links.last pre) = some (Links.first post) := by
  unfold next
  rw [if_pos h.ok_last, h.ring.link.1]

theorem Holds.next_entry (h : q.Holds (pre ++ a :: post)) :
    q.next (.entry a) = some (Links.first post) := by
  have h' : q.Holds ((pre ++ [a]) ++ post) := by simpa using h
  have hnext := h'.next_last
  rwa [Links.last_concat] at hnext

theorem Holds.prev_first (h : q.Holds (pre ++ post)) :
    q.prev (Links.first post) = some (Links.last pre) := by
  unfold prev
  rw [if_pos h.ok_first, h.ring.link.2]

theorem Holds.next_head (h : q.Holds l) : q.next .head = some (Links.first l) := by
  have h' : q.Holds ([] ++ l) := h
  exact h'.next_last

theorem Holds.isEmpty (h : q.Holds l) : q.isEmpty = l.isEmpty := by
  unfold Queue.isEmpty
  rw [h.ring.next_head]
  cases l <;> rfl

/-- `CIRCLEQ_FOREACH` visits the members in order and ends. -/
theorem Holds.foreach (h : q.Holds (pre ++ post)) (f : β → α → β) {fuel : ℕ}
    (hf : post.length < fuel) (s : β) :
    q.foreach f fuel (Links.first post) s = some (post.foldl f s) := by
  induction post generalizing pre fuel s with
  | nil =>
    obtain ⟨fuel, rfl⟩ := Nat.exists_eq_add_one_of_ne_zero (Nat.ne_zero_of_lt hf)
    rfl
  | cons a post ih =>
    obtain ⟨fuel, rfl⟩ := Nat.exists_eq_add_one_of_ne_zero (Nat.ne_zero_of_lt hf)
    have h' : q.Holds ((pre ++ [a]) ++ post) := by simpa using h
    show (q.next (.entry a)).bind (fun p => q.foreach f fuel p (f s a)) = _
    rw [h.next_entry, Option.bind_some, List.foldl_cons]
    apply ih h'
    rw [List.length_cons] at hf
    omega

variable [DecidableEq α] {b : α}

theorem Holds.member_insert (h : q.Holds l) (b : α) :
    Function.update q.member a true b = true ↔ b = a ∨ b ∈ l := by
  by_cases hb : b = a
  · simp [hb]
  · simp [hb, h.member]

/-- An empty queue. -/
theorem holds_init (m : Links α) : (init m).Holds [] :=
  ⟨Links.ring_init m, fun b => by simp [init]⟩

/-- Each macro on a sound queue leaves a sound queue. -/
theorem Holds.insertHead (h : q.Holds l) (ha : a ∉ l) :
    ∃ q', q.insertHead a = some q' ∧ q'.Holds (Circleq.insertHead l a) := by
  refine ⟨_, if_pos ?_, h.ring.insertHead ha, fun b => ?_⟩
  · have h' : q.Holds ([] ++ l) := h
    rw [h.ring.next_head]
    exact h'.ok_first
  · rw [mem_insertHead]
    exact h.member_insert b

/-- A new tail is linked without touching freed memory. -/
theorem Holds.insertTail (h : q.Holds l) (ha : a ∉ l) :
    ∃ q', q.insertTail a = some q' ∧ q'.Holds (Circleq.insertTail l a) := by
  refine ⟨_, if_pos ?_, h.ring.insertTail ha, fun b => ?_⟩
  · have h' : q.Holds (l ++ []) := by rwa [List.append_nil]
    rw [h.ring.prev_head]
    exact h'.ok_last
  · rw [mem_insertTail, or_comm]
    exact h.member_insert b

/-- And so is an entry behind a member. -/
theorem Holds.insertAfter (h : q.Holds l) (hb : b ∈ l) (ha : a ∉ l) :
    ∃ q', q.insertAfter b a = some q' ∧ q'.Holds (Circleq.insertAfter l b a) := by
  refine ⟨_, if_pos ?_, h.ring.insertAfter hb ha, fun c => ?_⟩
  · obtain ⟨pre, post, rfl, -⟩ := List.eq_append_cons_of_mem hb
    have h' : q.Holds ((pre ++ [b]) ++ post) := by simpa using h
    rw [h.ring.next_entry, (h.member b).mpr hb, h'.ok_first]
    rfl
  · rw [mem_insertAfter hb]
    exact h.member_insert c

/-- A member is unlinked without touching freed memory. -/
theorem Holds.remove (h : q.Holds l) (ha : a ∈ l) :
    ∃ q', q.remove a = some q' ∧ q'.Holds (Circleq.remove l a) := by
  refine ⟨{ links := q.links.remove a, member := Function.update q.member a false }, ?_, ?_, ?_⟩
  · obtain ⟨pre, post, rfl, -⟩ := List.eq_append_cons_of_mem ha
    have h' : q.Holds ((pre ++ [a]) ++ post) := by simpa using h
    unfold Queue.remove
    rw [h.ring.next_entry, h.ring.prev_entry, (h.member a).mpr ha, h.ok_last, h'.ok_first]
    rfl
  · exact h.ring.remove ha
  · intro b
    rw [mem_remove h.ring.nodup]
    by_cases hb : b = a
    · simp [hb]
    · simp [hb, h.member]

/-- Every list of different entries is the members of some sound queue. -/
theorem exists_holds (hn : l.Nodup) : ∃ q : Queue α, q.Holds l := by
  obtain ⟨m, hm⟩ := Links.exists_ring hn
  exact ⟨{ links := m, member := fun a => decide (a ∈ l) }, hm, by simp⟩

end Holds

end Queue

end Circleq
