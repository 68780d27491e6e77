/-
# Classic BPF

Socket filters: programs of one accumulator whose jumps only go forward.  A program that the
kernel accepts never runs off its end (`run_isSome`), and what it does to a packet depends on
the bytes that it loads (`run_congr`).
-/
import Mathlib.Data.List.Basic
import Mathlib.Data.List.Infix

namespace Bpf

/-- An instruction. -/
inductive Insn
  /-- `BPF_LD|BPF_ABS|BPF_B`: load the byte at `k` -/
  | ldAbsB (k : ℕ)
  /-- `BPF_JMP|BPF_JEQ`: skip `jt` instructions if the accumulator is `k`, else `jf` -/
  | jeq (k jt jf : ℕ)
  /-- `BPF_RET`: let `k` bytes of the packet through -/
  | ret (k : ℕ)
  deriving DecidableEq

/-- Run a program after its first `skip` instructions, with `acc` in the accumulator.  A load
from behind the packet lets nothing through.  There is no result if the run leaves the
program. -/
def run (pkt : List UInt8) : List Insn → ℕ → ℕ → Option ℕ
  | [], _, _ => none
  | _ :: prog, skip + 1, acc => run pkt prog skip acc
  | .ldAbsB k :: prog, 0, _ =>
    match pkt[k]? with
    | none => some 0
    | some b => run pkt prog 0 b.toNat
  | .jeq k jt jf :: prog, 0, acc => run pkt prog (if acc = k then jt else jf) acc
  | .ret k :: _, 0, _ => some k

/-- What the kernel checks when a program is attached: no jump leaves it, and its last
instruction returns. -/
def Checked : List Insn → Bool
  | [] => false
  | .ldAbsB _ :: prog => Checked prog
  | .jeq _ jt jf :: prog => jt < prog.length && jf < prog.length && Checked prog
  | .ret _ :: prog => prog.isEmpty || Checked prog

/-- The addresses that a program loads from. -/
def loads : List Insn → List ℕ
  | [] => []
  | .ldAbsB k :: prog => k :: loads prog
  | _ :: prog => loads prog

/-- What a socket with this filter delivers of a packet. -/
def deliver (prog : List Insn) (pkt : List UInt8) : Option (List UInt8) :=
  match run pkt prog 0 0 with
  | some (k + 1) => some (pkt.take (k + 1))
  | _ => none

section Run

variable {pkt pkt' : List UInt8} {prog : List Insn} {skip acc k : ℕ}

@[simp] theorem run_skip (i : Insn) :
    run pkt (i :: prog) (skip + 1) acc = run pkt prog skip acc := by
  cases i with
  | ldAbsB k => rfl
  | jeq k jt jf => rfl
  | ret k => rfl

/-- A load past the end of the packet ends the program with 0. -/
theorem run_ldAbsB : run pkt (.ldAbsB k :: prog) 0 acc
    = (pkt[k]?).elim (some 0) fun b => run pkt prog 0 b.toNat := by
  rw [run]
  cases pkt[k]? with
  | none => rfl
  | some b => rfl

@[simp] theorem run_jeq {jt jf : ℕ} : run pkt (.jeq k jt jf :: prog) 0 acc
    = run pkt prog (if acc = k then jt else jf) acc := rfl

@[simp] theorem run_ret : run pkt (.ret k :: prog) 0 acc = some k := rfl

/-- **A checked program returns.** -/
theorem run_isSome (h : Checked prog = true) (hskip : skip < prog.length) :
    (run pkt prog skip acc).isSome = true := by
  induction prog generalizing skip acc with
  | nil => exact absurd hskip (Nat.not_lt_zero _)
  | cons i prog ih =>
    cases skip with
    | succ skip =>
      rw [List.length_cons] at hskip
      rw [run_skip]
      apply ih
      · cases i with
        | ldAbsB k => exact h
        | jeq k jt jf =>
          rw [Checked, Bool.and_eq_true] at h
          exact h.2
        | ret k =>
          rw [Checked, Bool.or_eq_true] at h
          rcases h with h | h
          · rw [List.isEmpty_iff] at h
            rw [h] at hskip
            simp at hskip
          · exact h
      · omega
    | zero =>
      cases i with
      | ldAbsB k =>
        rw [run_ldAbsB]
        cases pkt[k]? with
        | none => rfl
        | some b =>
          apply ih h
          cases prog with
          | nil => cases h
          | cons j prog => exact Nat.succ_pos _
      | jeq k jt jf =>
        rw [Checked, Bool.and_eq_true, Bool.and_eq_true, decide_eq_true_eq,
          decide_eq_true_eq] at h
        rw [run_jeq]
        apply ih h.2
        split_ifs
        · exact h.1.1
        · exact h.1.2
      | ret k => rfl

/-- **A program sees the bytes that it loads.** -/
theorem run_congr (h : ∀ k ∈ loads prog, pkt[k]? = pkt'[k]?) :
    run pkt prog skip acc = run pkt' prog skip acc := by
  induction prog generalizing skip acc with
  | nil => rfl
  | cons i prog ih =>
    have hrest : ∀ k ∈ loads prog, pkt[k]? = pkt'[k]? := by
      intro k hk
      apply h
      cases i with
      | ldAbsB j => exact List.mem_cons_of_mem _ hk
      | jeq j jt jf => exact hk
      | ret j => exact hk
    cases skip with
    | succ skip =>
      rw [run_skip, run_skip]
      exact ih hrest
    | zero =>
      cases i with
      | ldAbsB k =>
        rw [run_ldAbsB, run_ldAbsB, ← h k List.mem_cons_self]
        congr 1
        funext b
        exact ih hrest
      | jeq k jt jf =>
        rw [run_jeq, run_jeq]
        exact ih hrest
      | ret k => rfl

end Run

end Bpf
