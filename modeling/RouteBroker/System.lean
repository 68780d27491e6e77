/-
# Guarded transition systems and their runs

A library module.  A system is an initial state and an executable step function
`step : σ → α → Option σ`: `step s a = some t` when the action `a` is allowed in
the state `s` and leads to `t`.  A run is a list of actions, and `exec` replays it.

The induction rules are stated once here:

* `exec_induction`, `exec_induction_of_mem`, `Reachable.induction`: what every step
  (every action of the run) preserves holds at the end of the run;
* `exec_rel`: two systems whose steps are related have related runs;
* `Guarded G s as`: every step of the run `as` from `s` meets the condition `G`,
  and `exec_guarded_induction` is the induction rule for such runs;
* `Along P s as`: `P` holds of every state the run `as` passes through, and
  `along_iff_guarded` says when that is the same as `Guarded`;
* `trace ev s as`: what can be seen of the run `as`, and `exec_trace_induction` is the
  induction rule for statements about a state and what was seen on the way to it;
* `exec_part`, `guarded_part`, `trace_part`: a system that is part of another one makes
  runs of its own.
-/
import Mathlib

/-- A transition system: an initial state and a guarded step function. -/
structure System (σ α : Type*) where
  init : σ
  step : σ → α → Option σ

namespace System

variable {σ α : Type*} (M : System σ α)

/-- Replay the actions `as` from `s`; `none` if one of them is not allowed. -/
def exec (s : σ) : List α → Option σ
  | [] => some s
  | a :: as => (M.step s a).bind fun t => exec t as

@[simp] theorem exec_nil (s : σ) : M.exec s [] = some s := rfl

theorem exec_cons (s : σ) (a : α) (as : List α) :
    M.exec s (a :: as) = (M.step s a).bind fun t => M.exec t as := rfl

theorem exec_cons_eq_some {s u : σ} {a : α} {as : List α} :
    M.exec s (a :: as) = some u ↔ ∃ t, M.step s a = some t ∧ M.exec t as = some u := by
  rw [exec_cons, Option.bind_eq_some_iff]

theorem exec_append (s : σ) (as bs : List α) :
    M.exec s (as ++ bs) = (M.exec s as).bind fun t => M.exec t bs := by
  induction as generalizing s with
  | nil => rfl
  | cons a as ih =>
    rw [List.cons_append, exec_cons, exec_cons]
    cases M.step s a with
    | none => rfl
    | some t => exact ih t

theorem exec_append_eq_some {s u : σ} {as bs : List α} :
    M.exec s (as ++ bs) = some u ↔ ∃ t, M.exec s as = some t ∧ M.exec t bs = some u := by
  rw [exec_append, Option.bind_eq_some_iff]

/-- The same action over and over, along a sequence of states. -/
theorem exec_replicate {a : α} (t : ℕ → σ) (h : ∀ k, M.step (t k) a = some (t (k + 1)))
    (n : ℕ) : M.exec (t 0) (List.replicate n a) = some (t n) := by
  induction n with
  | zero => rfl
  | succ n ih =>
    rw [List.replicate_succ', exec_append, ih, Option.bind_some, exec_cons, h n]
    rfl

/-- A test on the end of a run, for runs that are evaluated. -/
theorem exists_of_exec_any (s : σ) (as : List α) (p : σ → Bool)
    (h : (M.exec s as).any p = true) : ∃ t, M.exec s as = some t ∧ p t = true := by
  cases hex : M.exec s as with
  | none => simp [hex] at h
  | some t => exact ⟨t, rfl, by simpa [hex] using h⟩

/-- The states some run from the initial state ends in. -/
def Reachable (s : σ) : Prop := ∃ as, M.exec M.init as = some s

variable {M}

/-- What every action of a run preserves, the run preserves. -/
theorem exec_induction_of_mem {P : σ → Prop} {as : List α}
    (hstep : ∀ a ∈ as, ∀ s t, P s → M.step s a = some t → P t) {s u : σ}
    (h : M.exec s as = some u) (hs : P s) : P u := by
  induction as generalizing s with
  | nil =>
    rw [exec_nil, Option.some.injEq] at h
    exact h ▸ hs
  | cons a as ih =>
    obtain ⟨t, hst, htu⟩ := M.exec_cons_eq_some.mp h
    exact ih (fun b hb => hstep b (List.mem_cons_of_mem a hb)) htu
      (hstep a List.mem_cons_self s t hs hst)

/-- What every step preserves, every run preserves. -/
theorem exec_induction {P : σ → Prop}
    (hstep : ∀ s a t, P s → M.step s a = some t → P t) {as : List α} {s u : σ}
    (h : M.exec s as = some u) (hs : P s) : P u :=
  exec_induction_of_mem (fun a _ s t => hstep s a t) h hs

theorem Reachable.induction {P : σ → Prop} (h0 : P M.init)
    (hstep : ∀ s a t, P s → M.step s a = some t → P t) {s : σ} (h : M.Reachable s) : P s := by
  obtain ⟨as, has⟩ := h
  exact exec_induction hstep has h0

theorem Reachable.step {s t : σ} {a : α} (h : M.Reachable s) (hst : M.step s a = some t) :
    M.Reachable t := by
  obtain ⟨as, has⟩ := h
  refine ⟨as ++ [a], M.exec_append_eq_some.mpr ⟨s, has, ?_⟩⟩
  exact M.exec_cons_eq_some.mpr ⟨t, hst, rfl⟩

theorem Reachable.exec {s t : σ} {as : List α} (h : M.Reachable s)
    (hst : M.exec s as = some t) : M.Reachable t :=
  exec_induction (P := M.Reachable) (fun _ _ _ hs h => hs.step h) hst h

/-- Two systems in lockstep: related steps make related runs.  `J n` is what the
second one needs for `n` more steps. -/
theorem exec_rel {τ : Type*} {N : System τ α} {R : σ → τ → Prop} {J : ℕ → τ → Prop}
    (hstep : ∀ n s t a, R s t → J (n + 1) t → Option.Rel R (M.step s a) (N.step t a))
    (hJ : ∀ n t a u, J (n + 1) t → N.step t a = some u → J n u) {as : List α} {s : σ} {t : τ}
    (hR : R s t) (hj : J as.length t) : Option.Rel R (M.exec s as) (N.exec t as) := by
  induction as generalizing s t with
  | nil => exact .some hR
  | cons a as ih =>
    have h := hstep as.length s t a hR hj
    rw [exec_cons, exec_cons]
    cases hs : M.step s a <;> cases ht : N.step t a <;> rw [hs, ht] at h <;> cases h
    · exact .none
    · apply ih ‹_›
      exact hJ as.length t a _ hj ht

variable (M)

/-! ## Runs whose steps all meet a condition -/

/-- Every step the run `as` makes from `s` meets the condition `G`. -/
def Guarded (G : σ → α → Prop) : σ → List α → Prop
  | _, [] => True
  | s, a :: as => ∀ t, M.step s a = some t → G s a ∧ Guarded G t as

instance decidableGuarded (G : σ → α → Prop) [∀ s a, Decidable (G s a)] (s : σ) (as : List α) :
    Decidable (M.Guarded G s as) :=
  match as with
  | [] => isTrue trivial
  | a :: as =>
    have : ∀ t, Decidable (M.Guarded G t as) := fun t => decidableGuarded G t as
    inferInstanceAs (Decidable (∀ t ∈ M.step s a, G s a ∧ M.Guarded G t as))

/-- `P` holds of every state the run `as` from `s` passes through. -/
def Along (P : σ → Prop) : σ → List α → Prop
  | s, [] => P s
  | s, a :: as => P s ∧ ∀ t, M.step s a = some t → Along P t as

variable {M}

theorem exec_guarded_induction {P : σ → Prop} {G : σ → α → Prop}
    (hstep : ∀ s a t, P s → G s a → M.step s a = some t → P t) {as : List α} {s u : σ}
    (h : M.exec s as = some u) (hG : M.Guarded G s as) (hs : P s) : P u := by
  induction as generalizing s with
  | nil =>
    rw [exec_nil, Option.some.injEq] at h
    exact h ▸ hs
  | cons a as ih =>
    obtain ⟨t, hst, htu⟩ := M.exec_cons_eq_some.mp h
    obtain ⟨hga, hgas⟩ := hG t hst
    exact ih htu hgas (hstep s a t hs hga hst)

/-- What the condition says about one step of a run that meets it. -/
theorem guarded_step {G : σ → α → Prop} {as bs : List α} {a : α} {s t u : σ}
    (hexec : M.exec s as = some t) (hst : M.step t a = some u)
    (h : M.Guarded G s (as ++ a :: bs)) : G t a := by
  induction as generalizing s with
  | nil =>
    rw [exec_nil, Option.some.injEq] at hexec
    rw [hexec] at h
    exact (h u hst).1
  | cons b as ih =>
    obtain ⟨s', hs', hrest⟩ := M.exec_cons_eq_some.mp hexec
    exact ih hrest (h s' hs').2

theorem guarded_of_forall {G : σ → α → Prop} (h : ∀ s a, G s a) (s : σ) (as : List α) :
    M.Guarded G s as := by
  induction as generalizing s with
  | nil => exact trivial
  | cons a as ih => exact fun t _ => ⟨h s a, ih t⟩

theorem guarded_append {G : σ → α → Prop} {as bs : List α} {s t : σ} (h : M.exec s as = some t)
    (has : M.Guarded G s as) (hbs : M.Guarded G t bs) : M.Guarded G s (as ++ bs) := by
  induction as generalizing s with
  | nil =>
    rw [exec_nil, Option.some.injEq] at h
    exact h ▸ hbs
  | cons a as ih =>
    intro u hu
    obtain ⟨hga, hgas⟩ := has u hu
    obtain ⟨u', hu', hut⟩ := M.exec_cons_eq_some.mp h
    rw [hu, Option.some.injEq] at hu'
    exact ⟨hga, ih (hu' ▸ hut) hgas⟩

/-- A condition that follows from what the actions of a run preserve. -/
theorem guarded_of_mem {P : σ → Prop} {G : σ → α → Prop} {as : List α}
    (hstep : ∀ a ∈ as, ∀ s t, P s → M.step s a = some t → P t)
    (hG : ∀ a ∈ as, ∀ s, P s → G s a) {s : σ} (hs : P s) : M.Guarded G s as := by
  induction as generalizing s with
  | nil => exact trivial
  | cons a as ih =>
    intro t hst
    refine ⟨hG a List.mem_cons_self s hs, ih (fun b hb => hstep b (List.mem_cons_of_mem a hb))
      (fun b hb => hG b (List.mem_cons_of_mem a hb)) ?_⟩
    exact hstep a List.mem_cons_self s t hs hst

/-- A condition that follows from another one in the states with `P`, which the steps that
meet the other one keep. -/
theorem Guarded.of_invariant {P : σ → Prop} {G H : σ → α → Prop}
    (hstep : ∀ s a t, P s → G s a → M.step s a = some t → P t)
    (hGH : ∀ s a, P s → G s a → H s a) {s : σ} {as : List α} (hs : P s)
    (h : M.Guarded G s as) : M.Guarded H s as := by
  induction as generalizing s with
  | nil => exact trivial
  | cons a as ih =>
    intro t hst
    obtain ⟨hga, hgas⟩ := h t hst
    exact ⟨hGH s a hs hga, ih (hstep s a t hs hga hst) hgas⟩

/-- Two conditions that mean the same in the states with `J` mean the same along a run,
if the steps that meet them keep `J`. -/
theorem guarded_congr {J : σ → Prop} {G H : σ → α → Prop}
    (hJ : ∀ s a t, J s → H s a → M.step s a = some t → J t)
    (hGH : ∀ s a t, J s → M.step s a = some t → (G s a ↔ H s a)) {as : List α} {s : σ}
    (hj : J s) : M.Guarded G s as ↔ M.Guarded H s as := by
  induction as generalizing s with
  | nil => exact Iff.rfl
  | cons a as ih =>
    rw [Guarded, Guarded]
    refine forall_congr' fun t => imp_congr_right fun hst => ?_
    rw [hGH s a t hj hst]
    refine and_congr_right fun ha => ?_
    exact ih (hJ s a t hj ha hst)

/-- The same for runs that end in a state with `B`, which no step leads to from a state
without it. -/
theorem guarded_congr_of_exec {J B : σ → Prop} {G H : σ → α → Prop}
    (hJ : ∀ s a t, J s → M.step s a = some t → J t)
    (hB : ∀ s a t, J s → M.step s a = some t → B t → B s)
    (hGH : ∀ s a t, J s → B t → M.step s a = some t → (G s a ↔ H s a)) {as : List α} {s u : σ}
    (hu : M.exec s as = some u) (hb : B u) (hj : J s) :
    (M.Guarded G s as ↔ M.Guarded H s as) ∧ B s := by
  induction as generalizing s with
  | nil =>
    rw [exec_nil, Option.some.injEq] at hu
    exact ⟨Iff.rfl, hu ▸ hb⟩
  | cons a as ih =>
    obtain ⟨t, hst, htu⟩ := M.exec_cons_eq_some.mp hu
    obtain ⟨hrest, hbt⟩ := ih htu (hJ s a t hj hst)
    refine ⟨?_, hB s a t hj hst hbt⟩
    rw [Guarded, Guarded]
    refine forall_congr' fun t' => imp_congr_right fun hst' => ?_
    rw [hst, Option.some.injEq] at hst'
    rw [← hst', hGH s a t hj hbt hst, hrest]

/-- The first state of a run is one it passes through. -/
theorem Along.head {P : σ → Prop} {s : σ} {as : List α} (h : M.Along P s as) : P s := by
  cases as with
  | nil => exact h
  | cons a as => exact h.1

/-- Where one step from a state with `P` keeps `P` exactly if it meets `G`, a run
keeps `P` all along exactly if all its steps meet `G`.  `J` is what holds in every
state, whatever the steps. -/
theorem along_iff_guarded {P J : σ → Prop} {G : σ → α → Prop}
    (hJ : ∀ s a t, J s → M.step s a = some t → J t)
    (hstep : ∀ s a t, J s → P s → M.step s a = some t → (P t ↔ G s a))
    {as : List α} {s : σ} (hj : J s) (hp : P s) :
    M.Along P s as ↔ M.Guarded G s as := by
  induction as generalizing s with
  | nil => exact ⟨fun _ => trivial, fun _ => hp⟩
  | cons a as ih =>
    rw [Along, Guarded]
    constructor
    · rintro ⟨-, h⟩ t hst
      have hpt := (h t hst).head
      exact ⟨(hstep s a t hj hp hst).mp hpt, (ih (hJ s a t hj hst) hpt).mp (h t hst)⟩
    · intro h
      refine ⟨hp, fun t hst => ?_⟩
      obtain ⟨hga, hgas⟩ := h t hst
      exact (ih (hJ s a t hj hst) ((hstep s a t hj hp hst).mpr hga)).mpr hgas

/-! ## What can be seen of a run -/

section Trace

variable {β : Type*}

variable (M) in
/-- What can be seen of the run `as` from `s`, where `ev s a` is what can be seen of the
step `a` from `s`. -/
def trace (ev : σ → α → List β) : σ → List α → List β
  | _, [] => []
  | s, a :: as =>
    match M.step s a with
    | some t => ev s a ++ trace ev t as
    | none => []

@[simp] theorem trace_nil (ev : σ → α → List β) (s : σ) : M.trace ev s [] = [] := rfl

theorem trace_cons {ev : σ → α → List β} {s t : σ} {a : α} (h : M.step s a = some t)
    (as : List α) : M.trace ev s (a :: as) = ev s a ++ M.trace ev t as := by
  rw [trace, h]

/-- What every step that meets the condition keeps, with what can be seen of it added, a
run keeps. -/
theorem exec_trace_induction {ev : σ → α → List β} {P : σ → List β → Prop} {G : σ → α → Prop}
    (hstep : ∀ s a t l, P s l → G s a → M.step s a = some t → P t (l ++ ev s a))
    {as : List α} {s u : σ} (h : M.exec s as = some u) (hG : M.Guarded G s as) {l : List β}
    (hs : P s l) : P u (l ++ M.trace ev s as) := by
  induction as generalizing s l with
  | nil =>
    rw [exec_nil, Option.some.injEq] at h
    rw [trace_nil, List.append_nil, ← h]
    exact hs
  | cons a as ih =>
    obtain ⟨t, hst, htu⟩ := M.exec_cons_eq_some.mp h
    obtain ⟨hga, hgas⟩ := hG t hst
    rw [trace_cons hst, ← List.append_assoc]
    apply ih htu hgas
    exact hstep s a t l hs hga hst

theorem trace_append {ev : σ → α → List β} {as bs : List α} {s t : σ} (h : M.exec s as = some t) :
    M.trace ev s (as ++ bs) = M.trace ev s as ++ M.trace ev t bs := by
  induction as generalizing s with
  | nil =>
    rw [exec_nil, Option.some.injEq] at h
    rw [List.nil_append, trace_nil, List.nil_append, h]
  | cons a as ih =>
    obtain ⟨u, hsu, hut⟩ := M.exec_cons_eq_some.mp h
    rw [List.cons_append, trace_cons hsu, trace_cons hsu, ih hut, List.append_assoc]

/-! ### A system inside of another one

The state has a part `π s`, and the step `a` from `s` moves it by the run `steps s a` of the
system `N`. -/

variable {τ γ : Type*} {N : System τ β} {π : σ → τ} {steps : σ → α → List β}

/-- The part makes a run of its own. -/
theorem exec_part (hpart : ∀ s a t, M.step s a = some t → N.exec (π s) (steps s a) = some (π t))
    {as : List α} {s u : σ} (h : M.exec s as = some u) :
    N.exec (π s) (M.trace steps s as) = some (π u) := by
  induction as generalizing s with
  | nil =>
    rw [exec_nil, Option.some.injEq] at h
    rw [trace_nil, exec_nil, h]
  | cons a as ih =>
    obtain ⟨t, hst, htu⟩ := M.exec_cons_eq_some.mp h
    rw [trace_cons hst, exec_append_eq_some]
    exact ⟨π t, hpart s a t hst, ih htu⟩

/-- The steps of the part meet a condition. -/
theorem guarded_part (hpart : ∀ s a t, M.step s a = some t → N.exec (π s) (steps s a) = some (π t))
    {G : σ → α → Prop} {H : τ → β → Prop} (hG : ∀ s a, G s a → N.Guarded H (π s) (steps s a))
    {as : List α} {s u : σ} (h : M.exec s as = some u) (hguard : M.Guarded G s as) :
    N.Guarded H (π s) (M.trace steps s as) := by
  induction as generalizing s with
  | nil => exact trivial
  | cons a as ih =>
    obtain ⟨t, hst, htu⟩ := M.exec_cons_eq_some.mp h
    obtain ⟨hga, hgas⟩ := hguard t hst
    rw [trace_cons hst]
    apply guarded_append (hpart s a t hst) (hG s a hga)
    exact ih htu hgas

/-- What can be seen of the part. -/
theorem trace_part (hpart : ∀ s a t, M.step s a = some t → N.exec (π s) (steps s a) = some (π t))
    (ev : τ → β → List γ) {as : List α} {s u : σ} (h : M.exec s as = some u) :
    N.trace ev (π s) (M.trace steps s as)
      = M.trace (fun s a => N.trace ev (π s) (steps s a)) s as := by
  induction as generalizing s with
  | nil => rfl
  | cons a as ih =>
    obtain ⟨t, hst, htu⟩ := M.exec_cons_eq_some.mp h
    rw [trace_cons hst, trace_cons hst, trace_append (hpart s a t hst), ih htu]

end Trace

end System
