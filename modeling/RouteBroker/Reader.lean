/-
# Programs that read memory

A library module.  A `Reader` asks for bytes of memory, one after the other, where the
next address may depend on what was read, and then returns a result.  `run` is the result
on a memory, and `trace` are the addresses that were read on the way.

A program cannot tell apart two memories that agree on what it has read (`run_congr`).
-/
import RouteBroker.Bytes

/-- A program that reads memory. -/
inductive Reader (α : Type)
  | ret (x : α)
  | read (a : ℕ) (k : UInt8 → Reader α)

namespace Reader

variable {α β : Type}

/-- Go on with the result. -/
def bind : Reader α → (α → Reader β) → Reader β
  | ret x, f => f x
  | read a k, f => read a fun b => bind (k b) f

instance : Monad Reader where
  pure := ret
  bind := bind

/-- The result on the memory `m`. -/
def run (m : Mem) : Reader α → α
  | ret x => x
  | read a k => run m (k (m a))

/-- The addresses that are read. -/
def trace (m : Mem) : Reader α → List ℕ
  | ret _ => []
  | read a k => a :: trace m (k (m a))

@[simp] theorem run_pure (m : Mem) (x : α) : run m (pure x) = x := rfl

@[simp] theorem trace_pure (m : Mem) (x : α) : trace m (pure x) = [] := rfl

/-- The result of a program in two parts. -/
@[simp] theorem run_bind (m : Mem) (p : Reader α) (f : α → Reader β) :
    run m (p >>= f) = run m (f (run m p)) := by
  induction p with
  | ret x => rfl
  | read a k ih => exact ih (m a)

/-- The second part reads behind the first. -/
@[simp] theorem trace_bind (m : Mem) (p : Reader α) (f : α → Reader β) :
    trace m (p >>= f) = trace m p ++ trace m (f (run m p)) := by
  induction p with
  | ret x => rfl
  | read a k ih => exact congrArg (a :: ·) (ih (m a))

/-- **A program depends on what it reads only.** -/
theorem run_congr {m m' : Mem} {p : Reader α} (h : ∀ a ∈ trace m p, m' a = m a) :
    run m' p = run m p := by
  induction p with
  | ret x => rfl
  | read a k ih =>
    have ha : m' a = m a := h a List.mem_cons_self
    show run m' (k (m' a)) = run m (k (m a))
    rw [ha]
    exact ih (m a) (fun b hb => h b (List.mem_cons_of_mem a hb))

/-- All reads are below the address `n`. -/
def Within (m : Mem) (n : ℕ) (p : Reader α) : Prop := ∀ a ∈ trace m p, a < n

@[simp] theorem within_pure (m : Mem) (n : ℕ) (x : α) : Within m n (pure x : Reader α) := by
  intro a ha
  cases ha

/-- Both parts of a program have to stay below. -/
@[simp] theorem within_bind (m : Mem) (n : ℕ) (p : Reader α) (f : α → Reader β) :
    Within m n (p >>= f) ↔ Within m n p ∧ Within m n (f (run m p)) := by
  unfold Within
  rw [trace_bind]
  exact List.forall_mem_append

/-- Programs whose reads are below `n` can not tell apart memories that agree there. -/
theorem Within.run_eq {m m' : Mem} {n : ℕ} {p : Reader α} (h : Within m n p)
    (hsame : ∀ a < n, m' a = m a) : run m' p = run m p :=
  run_congr fun a ha => hsame a (h a ha)

/-- And they stay below in the other memory, too. -/
theorem Within.congr {m m' : Mem} {n : ℕ} {p : Reader α} (h : Within m n p)
    (hsame : ∀ a < n, m' a = m a) : Within m' n p := by
  induction p with
  | ret x => exact within_pure m' n x
  | read a k ih =>
    have ha : a < n := h a List.mem_cons_self
    have hk : Within m n (k (m a)) := fun b hb => h b (List.mem_cons_of_mem a hb)
    intro b hb
    rcases List.mem_cons.mp hb with rfl | hb
    · exact ha
    · rw [hsame a ha] at hb
      exact ih (m a) hk b hb

/-! ## Numbers and stretches of bytes -/

/-- Read the byte at `a`. -/
def u8 (a : ℕ) : Reader UInt8 := read a ret

/-- Read a 16 bit number. -/
def u16 (o : ByteOrder) (a : ℕ) : Reader ℕ := do
  let x ← u8 a
  let y ← u8 (a + 1)
  return o.u16 x y

/-- Read a 32 bit number. -/
def u32 (o : ByteOrder) (a : ℕ) : Reader ℕ := do
  let w ← u8 a
  let x ← u8 (a + 1)
  let y ← u8 (a + 2)
  let z ← u8 (a + 3)
  return o.u32 w x y z

/-- Read `n` bytes. -/
def bytes (a : ℕ) : ℕ → Reader (List UInt8)
  | 0 => return []
  | n + 1 => do
    let x ← u8 a
    let xs ← bytes (a + 1) n
    return x :: xs

@[simp] theorem run_u8 (m : Mem) (a : ℕ) : run m (u8 a) = m a := rfl

@[simp] theorem trace_u8 (m : Mem) (a : ℕ) : trace m (u8 a) = [a] := rfl

@[simp] theorem run_u16 (m : Mem) (o : ByteOrder) (a : ℕ) : run m (u16 o a) = load16 o m a := rfl

@[simp] theorem trace_u16 (m : Mem) (o : ByteOrder) (a : ℕ) :
    trace m (u16 o a) = [a, a + 1] := rfl

@[simp] theorem run_u32 (m : Mem) (o : ByteOrder) (a : ℕ) : run m (u32 o a) = load32 o m a := rfl

@[simp] theorem trace_u32 (m : Mem) (o : ByteOrder) (a : ℕ) :
    trace m (u32 o a) = [a, a + 1, a + 2, a + 3] := rfl

/-- What is read byte by byte is a stretch of memory. -/
@[simp] theorem run_bytes (m : Mem) (a n : ℕ) : run m (bytes a n) = slice m a n := by
  induction n generalizing a with
  | zero => rfl
  | succ n ih =>
    rw [bytes, run_bind, run_bind, ih, slice_succ]
    rfl

/-- Reading a stretch touches its addresses and no others. -/
theorem mem_trace_bytes (m : Mem) (a n : ℕ) {x : ℕ} :
    x ∈ trace m (bytes a n) ↔ a ≤ x ∧ x < a + n := by
  induction n generalizing a with
  | zero =>
    rw [bytes, trace_pure]
    exact iff_of_false List.not_mem_nil (by omega)
  | succ n ih =>
    rw [bytes, trace_bind, trace_bind, trace_pure, List.append_nil, trace_u8,
      List.singleton_append, List.mem_cons, ih]
    omega

/-- One byte. -/
@[simp] theorem within_u8 (m : Mem) (n a : ℕ) : Within m n (u8 a) ↔ a < n := by
  unfold Within
  rw [trace_u8, List.forall_mem_singleton]

/-- Both bytes of a number. -/
@[simp] theorem within_u16 (m : Mem) (n : ℕ) (o : ByteOrder) (a : ℕ) :
    Within m n (u16 o a) ↔ a + 2 ≤ n := by
  unfold Within
  rw [trace_u16, List.forall_mem_cons, List.forall_mem_singleton]
  omega

/-- All four bytes of a number. -/
@[simp] theorem within_u32 (m : Mem) (n : ℕ) (o : ByteOrder) (a : ℕ) :
    Within m n (u32 o a) ↔ a + 4 ≤ n := by
  unfold Within
  rw [trace_u32, List.forall_mem_cons, List.forall_mem_cons, List.forall_mem_cons,
    List.forall_mem_singleton]
  omega

/-- A stretch stays below if its end does. -/
theorem within_bytes (m : Mem) {n a : ℕ} (k : ℕ) (h : a ≤ n) :
    Within m n (bytes a k) ↔ a + k ≤ n := by
  constructor
  · intro hw
    rcases Nat.eq_zero_or_pos k with rfl | hk
    · exact h
    · have hlast : a + k - 1 < n := hw _ ((mem_trace_bytes m a k).mpr (by omega))
      omega
  · intro hle x hx
    have hx' := (mem_trace_bytes m a k).mp hx
    omega

end Reader
