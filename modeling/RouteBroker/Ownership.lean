/-
# Allocated objects and their owners

A `Pool` maps pointers to the objects that are allocated, and remembers whether one was
freed that was not.  A program that frees by hand is right if each allocated object has
exactly one owner at any time (`Pool.Owned`): what has an owner is not freed twice, and
what has none was freed.

Who owns what is a relation over any type of owners.  An allocation gives the object an
owner (`Owned.alloc`), a free takes object and owner away (`Owned.free`), and what is handed
over changes the owner only (`Owned.move`).
-/
import Mathlib.Logic.Function.Basic

/-- Allocated objects by address. -/
structure Pool (Ptr Data : Type*) where
  live : Ptr → Option Data
  /-- Something was freed or read that is not allocated. -/
  fault : Bool

namespace Pool

variable {Ptr Data Owner : Type*}

/-- Nothing is allocated. -/
def empty : Pool Ptr Data := ⟨fun _ => none, false⟩

variable [DecidableEq Ptr]

/-- Allocate at an address that is free. -/
def alloc (P : Pool Ptr Data) (p : Ptr) (d : Data) : Pool Ptr Data :=
  { P with live := Function.update P.live p (some d) }

/-- Free what is allocated at `p`. -/
def free (P : Pool Ptr Data) (p : Ptr) : Pool Ptr Data :=
  match P.live p with
  | some _ => { P with live := Function.update P.live p none }
  | none => { P with fault := true }

omit [DecidableEq Ptr] in
/-- Every allocated object has one owner, and nothing went wrong. -/
structure Owned (P : Pool Ptr Data) (owns : Owner → Ptr → Prop) : Prop where
  sound : P.fault = false
  live : ∀ p, (P.live p).isSome ↔ ∃ o, owns o p
  unique : ∀ p o o', owns o p → owns o' p → o = o'

variable {P : Pool Ptr Data} {owns owns' : Owner → Ptr → Prop} {p : Ptr} {d : Data} {o o' : Owner}

omit [DecidableEq Ptr] in
theorem owned_empty (h : ∀ o p, ¬ owns o p) : (empty : Pool Ptr Data).Owned owns where
  sound := rfl
  live := by
    intro p
    refine iff_of_false (fun hp => by cases hp) ?_
    rintro ⟨o, ho⟩
    exact h o p ho
  unique := fun p o _ ho _ => absurd ho (h o p)

omit [DecidableEq Ptr] in
theorem Owned.congr (h : P.Owned owns) (howns : ∀ o p, owns' o p ↔ owns o p) : P.Owned owns' := by
  have heq : owns' = owns := by
    funext o p
    exact propext (howns o p)
  rw [heq]
  exact h

omit [DecidableEq Ptr] in
/-- What has an owner is allocated. -/
theorem Owned.exists_live (h : P.Owned owns) (ho : owns o p) : ∃ d, P.live p = some d :=
  Option.isSome_iff_exists.mp ((h.live p).mpr ⟨o, ho⟩)

omit [DecidableEq Ptr] in
/-- What is not allocated has no owner. -/
theorem Owned.not_owns (h : P.Owned owns) (hp : P.live p = none) : ¬ owns o p := by
  intro ho
  obtain ⟨d, hd⟩ := h.exists_live ho
  rw [hp] at hd
  cases hd

theorem Owned.alloc (h : P.Owned owns) (hp : P.live p = none)
    (howns : ∀ o' q, owns' o' q ↔ owns o' q ∨ o' = o ∧ q = p) : (P.alloc p d).Owned owns' := by
  have hfresh : ∀ o', ¬ owns o' p := fun o' => h.not_owns hp
  constructor
  · exact h.sound
  · intro q
    show (Function.update P.live p (some d) q).isSome ↔ _
    by_cases hq : q = p
    · subst hq
      rw [Function.update_self]
      exact iff_of_true rfl ⟨o, (howns o q).mpr (Or.inr ⟨rfl, rfl⟩)⟩
    · rw [Function.update_of_ne hq, h.live]
      refine exists_congr fun o' => ?_
      rw [howns]
      exact ⟨Or.inl, fun hx => hx.resolve_right fun hy => hq hy.2⟩
  · intro q o₁ o₂ h₁ h₂
    rcases (howns o₁ q).mp h₁ with h₁ | ⟨rfl, rfl⟩
    · rcases (howns o₂ q).mp h₂ with h₂ | ⟨rfl, rfl⟩
      · exact h.unique q o₁ o₂ h₁ h₂
      · exact absurd h₁ (hfresh o₁)
    · rcases (howns o₂ q).mp h₂ with h₂ | ⟨rfl, -⟩
      · exact absurd h₂ (hfresh o₂)
      · rfl

theorem Owned.free_eq (h : P.Owned owns) (ho : owns o p) :
    P.free p = { P with live := Function.update P.live p none } := by
  obtain ⟨d, hd⟩ := h.exists_live ho
  unfold Pool.free
  rw [hd]

/-- A free leaves alone what belongs to others. -/
theorem Owned.free_live (h : P.Owned owns) (ho : owns o p) {q : Ptr} (hq : owns o' q)
    (hne : o' ≠ o) : (P.free p).live q = P.live q := by
  rw [h.free_eq ho]
  apply Function.update_of_ne
  rintro rfl
  exact hne (h.unique q o' o hq ho)

theorem Owned.free (h : P.Owned owns) (ho : owns o p)
    (howns : ∀ o₁ q, owns' o₁ q ↔ owns o₁ q ∧ ¬ (o₁ = o ∧ q = p)) : (P.free p).Owned owns' := by
  rw [h.free_eq ho]
  constructor
  · exact h.sound
  · intro q
    show (Function.update P.live p none q).isSome ↔ _
    by_cases hq : q = p
    · subst hq
      rw [Function.update_self]
      refine iff_of_false (by simp) ?_
      rintro ⟨o₁, h₁⟩
      obtain ⟨h₁, hne⟩ := (howns o₁ q).mp h₁
      exact hne ⟨h.unique q o₁ o h₁ ho, rfl⟩
    · rw [Function.update_of_ne hq, h.live]
      refine exists_congr fun o₁ => ?_
      rw [howns]
      exact (and_iff_left fun hx => hq hx.2).symm
  · intro q o₁ o₂ h₁ h₂
    exact h.unique q o₁ o₂ ((howns o₁ q).mp h₁).1 ((howns o₂ q).mp h₂).1

omit [DecidableEq Ptr] in
/-- The owner `o` hands the object over to `e`. -/
theorem Owned.move {e : Owner} (h : P.Owned owns) (ho : owns o p)
    (howns : ∀ o₁ q, owns' o₁ q ↔ owns o₁ q ∧ ¬ (o₁ = o ∧ q = p) ∨ o₁ = e ∧ q = p) :
    P.Owned owns' := by
  constructor
  · exact h.sound
  · intro q
    rw [h.live]
    by_cases hq : q = p
    · subst hq
      exact iff_of_true ⟨o, ho⟩ ⟨e, (howns e q).mpr (Or.inr ⟨rfl, rfl⟩)⟩
    · refine exists_congr fun o₁ => ?_
      rw [howns, and_iff_left fun hx => hq hx.2]
      exact ⟨Or.inl, fun hx => hx.resolve_right fun hy => hq hy.2⟩
  · intro q o₁ o₂ h₁ h₂
    rcases (howns o₁ q).mp h₁ with ⟨h₁, hne⟩ | ⟨rfl, rfl⟩
    · rcases (howns o₂ q).mp h₂ with ⟨h₂, -⟩ | ⟨-, rfl⟩
      · exact h.unique q o₁ o₂ h₁ h₂
      · exact absurd ⟨h.unique q o₁ o h₁ ho, rfl⟩ hne
    · rcases (howns o₂ q).mp h₂ with ⟨h₂, hne⟩ | ⟨rfl, -⟩
      · exact absurd ⟨h.unique q o₂ o h₂ ho, rfl⟩ hne
      · rfl

end Pool
