/-
# Repeated updates of one object

`broker->id` is a 64-bit counter, so a run of `2^64` changes brings it back to where
it was.  Such a run cannot be evaluated step by step; here is its closed form: while
the newest object `o` is updated over and over, only the id of `o` and the counter
move on.

Main result: `exec_updates`.
-/
import RouteBroker.BrokerRun

open Circleq Broker

variable {Obj Cl Data : Type*} [DecidableEq Obj] [DecidableEq Cl]

namespace Broker

/-- The broker after `n` more updates of its newest object `o`. -/
def aged (b : Broker Obj Cl) (o : Obj) (n : ℕ) : Broker Obj Cl :=
  { b with
    id := (b.id + n) % 2 ^ 64
    bobj := Function.update b.bobj (.obj o)
      { b.bobj (.obj o) with id := (b.id + n) % 2 ^ 64 }
    increments := b.increments + n }

/-- The object `o` is the last of the queue and not marked deleted. -/
def Newest (b : Broker Obj Cl) (o : Obj) : Prop :=
  insertTail (remove b.objList (.obj o)) (.obj o) = b.objList ∧
    (b.bobj (.obj o)).flags.delete = false

instance (b : Broker Obj Cl) (o : Obj) : Decidable (b.Newest o) := instDecidableAnd

theorem Newest.aged {b : Broker Obj Cl} {o : Obj} (h : b.Newest o) (n : ℕ) :
    (b.aged o n).Newest o := by
  refine ⟨h.1, ?_⟩
  show (Function.update b.bobj (.obj o) _ (.obj o)).flags.delete = false
  rw [Function.update_self]
  exact h.2

/-- Updating the newest object leaves the queue as it is. -/
theorem Newest.updObj {b : Broker Obj Cl} {o : Obj} (h : b.Newest o) :
    brokerUpdObj b o = b.aged o 1 := by
  unfold brokerUpdObj
  simp only [h.2, Bool.false_eq_true, if_false]
  unfold moveToTail Broker.aged incId setId setObj
  simp only [h.1]

theorem aged_aged (b : Broker Obj Cl) (o : Obj) (m n : ℕ) :
    (b.aged o m).aged o n = b.aged o (m + n) := by
  unfold aged
  simp only [Function.update_self, Function.update_idem, Nat.mod_add_mod, Nat.add_assoc]

end Broker

/-- The world after `n` more updates of `o` that leave its data as it is. -/
def World.aged (w : World Obj Cl Data) (o : Obj) (n : ℕ) : World Obj Cl Data :=
  { w with
    broker := w.broker.aged o n
    owner := { w.owner with now := w.owner.now + n } }

namespace World

variable {w : World Obj Cl Data} {o : Obj} {d : Data}

theorem updObj_newest (hnew : w.broker.Newest o) (hd : w.owner.data o = d) :
    w.updObj o d = w.aged o 1 := by
  have hstore : w.owner.store o d = w.owner := by
    unfold Owner.store
    rw [← hd, Function.update_eq_self]
  show w.after (brokerUpdObj w.broker o, w.owner.store o d) = w.aged o 1
  rw [hnew.updObj, hstore]
  rfl

theorem aged_aged (w : World Obj Cl Data) (o : Obj) (m n : ℕ) :
    (w.aged o m).aged o n = w.aged o (m + n) := by
  unfold aged
  simp only [Broker.aged_aged, Nat.add_assoc]

end World

/-- **Any number of updates of the newest object.** -/
theorem exec_updates {d₀ : Obj → Data} {w : World Obj Cl Data} {o : Obj} {d : Data}
    (ho : w.broker.Listed o) (hnew : w.broker.Newest o) (hd : w.owner.data o = d) (n : ℕ) :
    (brokerSystem Cl d₀).exec w (List.replicate (n + 1) (.updObj o d))
      = some (w.aged o (n + 1)) := by
  have hnext : ∀ k, (brokerSystem Cl d₀).step (w.aged o (k + 1)) (.updObj o d)
      = some (w.aged o (k + 1 + 1)) := by
    intro k
    refine call_updObj.mpr ⟨ho, ?_⟩
    have hk : (w.aged o (k + 1)).broker.Newest o := hnew.aged (k + 1)
    rw [World.updObj_newest hk hd, World.aged_aged]
  have hfirst : w.call (.updObj o d) = some (w.aged o 1) :=
    call_updObj.mpr ⟨ho, (World.updObj_newest hnew hd).symm⟩
  rw [List.replicate_succ]
  exact (System.exec_cons_eq_some _).mpr ⟨_, hfirst,
    (brokerSystem Cl d₀).exec_replicate (fun k => w.aged o (k + 1)) hnext n⟩

/-- The calls `as`, then `n` updates of `o`, then the calls `bs`. -/
def aroundUpdates (as : List (Call Obj Cl Data)) (n : ℕ) (o : Obj) (d : Data)
    (bs : List (Call Obj Cl Data)) : List (Call Obj Cl Data) :=
  as ++ List.replicate n (.updObj o d) ++ bs

/-- A test on the end of such a run: everything but the updates is evaluated. -/
theorem exec_around_updates [DecidableEq Data] (d₀ : Obj → Data)
    (as : List (Call Obj Cl Data)) (n : ℕ) (o : Obj) (d : Data) (bs : List (Call Obj Cl Data))
    (p : World Obj Cl Data → Bool)
    (h : (((brokerSystem Cl d₀).exec (World.start d₀) as).any fun v =>
      decide (v.broker.Listed o ∧ v.broker.Newest o ∧ v.owner.data o = d) &&
        ((brokerSystem Cl d₀).exec (v.aged o (n + 1)) bs).any p) = true) :
    ∃ w, (brokerSystem Cl d₀).exec (World.start d₀)
      (aroundUpdates as (n + 1) o d bs) = some w ∧ p w = true := by
  obtain ⟨v, hv, hp⟩ := System.exists_of_exec_any _ _ _ _ h
  rw [Bool.and_eq_true, decide_eq_true_eq] at hp
  obtain ⟨⟨ho, hnew, hd⟩, hbs⟩ := hp
  obtain ⟨w, hw, hpw⟩ := System.exists_of_exec_any _ _ _ _ hbs
  refine ⟨w, ?_, hpw⟩
  unfold aroundUpdates
  rw [System.exec_append_eq_some]
  refine ⟨v.aged o (n + 1), ?_, hw⟩
  rw [System.exec_append_eq_some]
  exact ⟨v, hv, exec_updates ho hnew hd n⟩
