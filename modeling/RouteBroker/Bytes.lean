/-
# Bytes in memory

A library module.  Memory is a byte at every address, so that a read outside of an object
yields whatever lies there; which reads stay inside is a matter of proof.  Numbers of 16
and 32 bits are read and written in the byte order of the machine.

* `load16`, `load32`, `store16`: numbers in memory;
* `slice m a n`: the `n` bytes from `a` on, and `blit m a bs`, which copies `bs` to `a`;
* `SameFrom a m m'`: the memories agree from the address `a` on.
-/
import Mathlib

/-- How a machine lays out numbers. -/
inductive ByteOrder
  | little
  | big
  deriving DecidableEq, Repr

/-- A byte at every address. -/
abbrev Mem := ℕ → UInt8

/-! ## Numbers -/

namespace ByteOrder

/-- The number with the bytes `x` and `y`, in the order of their addresses. -/
def u16 : ByteOrder → UInt8 → UInt8 → ℕ
  | little, x, y => x.toNat + 256 * y.toNat
  | big, x, y => 256 * x.toNat + y.toNat

/-- The number with the bytes `w`, `x`, `y` and `z`. -/
def u32 : ByteOrder → UInt8 → UInt8 → UInt8 → UInt8 → ℕ
  | little, w, x, y, z => w.toNat + 256 * (x.toNat + 256 * (y.toNat + 256 * z.toNat))
  | big, w, x, y, z => z.toNat + 256 * (y.toNat + 256 * (x.toNat + 256 * w.toNat))

/-- The bytes of a number. -/
def bytes16 : ByteOrder → ℕ → UInt8 × UInt8
  | little, v => (UInt8.ofNat (v % 256), UInt8.ofNat (v / 256 % 256))
  | big, v => (UInt8.ofNat (v / 256 % 256), UInt8.ofNat (v % 256))

/-- The bytes of a 32 bit number. -/
def bytes32 : ByteOrder → UInt32 → List UInt8
  | little, v => [v.toUInt8, (v >>> 8).toUInt8, (v >>> 16).toUInt8, (v >>> 24).toUInt8]
  | big, v => [(v >>> 24).toUInt8, (v >>> 16).toUInt8, (v >>> 8).toUInt8, v.toUInt8]

/-- Two bytes make a number of 16 bits. -/
theorem u16_lt (o : ByteOrder) (x y : UInt8) : o.u16 x y < 2 ^ 16 := by
  have hx := x.toNat_lt
  have hy := y.toNat_lt
  cases o with
  | little => rw [u16]; omega
  | big => rw [u16]; omega

/-- Four bytes make a number of 32 bits. -/
theorem u32_lt (o : ByteOrder) (w x y z : UInt8) : o.u32 w x y z < 2 ^ 32 := by
  have hw := w.toNat_lt
  have hx := x.toNat_lt
  have hy := y.toNat_lt
  have hz := z.toNat_lt
  cases o with
  | little => rw [u32]; omega
  | big => rw [u32]; omega

/-- Only zeros make zero, in either order. -/
theorem u32_eq_zero_iff (o : ByteOrder) (w x y z : UInt8) :
    o.u32 w x y z = 0 ↔ w = 0 ∧ x = 0 ∧ y = 0 ∧ z = 0 := by
  have hzero : ∀ b : UInt8, b = 0 ↔ b.toNat = 0 := fun b => by
    rw [← UInt8.toNat_inj]
    rfl
  rw [hzero, hzero, hzero, hzero]
  cases o with
  | little => rw [u32]; omega
  | big => rw [u32]; omega

theorem toNat_ofNat_mod (v : ℕ) : (UInt8.ofNat (v % 256)).toNat = v % 256 := by
  rw [UInt8.toNat_ofNat']
  omega

/-- A number is read back from its bytes. -/
theorem u16_bytes16 (o : ByteOrder) {v : ℕ} (h : v < 2 ^ 16) :
    o.u16 (o.bytes16 v).1 (o.bytes16 v).2 = v := by
  cases o with
  | little =>
    rw [u16, bytes16, toNat_ofNat_mod, toNat_ofNat_mod]
    omega
  | big =>
    rw [u16, bytes16, toNat_ofNat_mod, toNat_ofNat_mod]
    omega

/-- The byte of a number that is shifted out by `k` bits. -/
theorem toNat_shiftRight (v : UInt32) (k : ℕ) (hk : k < 32) :
    (v >>> UInt32.ofNat k).toUInt8.toNat = v.toNat / 2 ^ k % 256 := by
  rw [UInt32.toNat_toUInt8, UInt32.toNat_shiftRight, UInt32.toNat_ofNat',
    Nat.mod_eq_of_lt (by omega : k < 2 ^ 32), Nat.mod_eq_of_lt hk, Nat.shiftRight_eq_div_pow]

/-- A 32 bit number is read back from its bytes, too. -/
theorem u32_bytes32 (o : ByteOrder) (v : UInt32) :
    ∃ w x y z, o.bytes32 v = [w, x, y, z] ∧ o.u32 w x y z = v.toNat := by
  have hv := v.toNat_lt
  have h0 : v.toUInt8.toNat = v.toNat % 256 := UInt32.toNat_toUInt8 v
  have h8 : (v >>> 8).toUInt8.toNat = v.toNat / 2 ^ 8 % 256 := toNat_shiftRight v 8 (by omega)
  have h16 : (v >>> 16).toUInt8.toNat = v.toNat / 2 ^ 16 % 256 := toNat_shiftRight v 16 (by omega)
  have h24 : (v >>> 24).toUInt8.toNat = v.toNat / 2 ^ 24 % 256 := toNat_shiftRight v 24 (by omega)
  cases o with
  | little =>
    refine ⟨_, _, _, _, rfl, ?_⟩
    rw [u32, h0, h8, h16, h24]
    omega
  | big =>
    refine ⟨_, _, _, _, rfl, ?_⟩
    rw [u32, h0, h8, h16, h24]
    omega

/-- Bytes are got back from the number they make. -/
theorem bytes16_u16 (o : ByteOrder) (x y : UInt8) : o.bytes16 (o.u16 x y) = (x, y) := by
  have hx := x.toNat_lt
  have hy := y.toNat_lt
  cases o with
  | little =>
    have h1 : (x.toNat + 256 * y.toNat) % 256 = x.toNat := by omega
    have h2 : (x.toNat + 256 * y.toNat) / 256 % 256 = y.toNat := by omega
    rw [u16, bytes16, h1, h2, UInt8.ofNat_toNat, UInt8.ofNat_toNat]
  | big =>
    have h1 : (256 * x.toNat + y.toNat) % 256 = y.toNat := by omega
    have h2 : (256 * x.toNat + y.toNat) / 256 % 256 = x.toNat := by omega
    rw [u16, bytes16, h1, h2, UInt8.ofNat_toNat, UInt8.ofNat_toNat]

end ByteOrder

/-! ## Numbers in memory -/

/-- The 16 bit number at `a`. -/
def load16 (o : ByteOrder) (m : Mem) (a : ℕ) : ℕ := o.u16 (m a) (m (a + 1))

/-- The 32 bit number at `a`. -/
def load32 (o : ByteOrder) (m : Mem) (a : ℕ) : ℕ :=
  o.u32 (m a) (m (a + 1)) (m (a + 2)) (m (a + 3))

/-- Write the 16 bit number `v` at `a`. -/
def store16 (o : ByteOrder) (m : Mem) (a v : ℕ) : Mem :=
  Function.update (Function.update m a (o.bytes16 v).1) (a + 1) (o.bytes16 v).2

/-- What was written is read. -/
theorem load16_store16 (o : ByteOrder) (m : Mem) (a : ℕ) {v : ℕ} (h : v < 2 ^ 16) :
    load16 o (store16 o m a v) a = v := by
  have ha : store16 o m a v a = (o.bytes16 v).1 := by
    rw [store16, Function.update_of_ne (by omega), Function.update_self]
  have ha1 : store16 o m a v (a + 1) = (o.bytes16 v).2 := by
    rw [store16, Function.update_self]
  rw [load16, ha, ha1, o.u16_bytes16 h]

/-- Writing what is there changes nothing. -/
theorem store16_load16 (o : ByteOrder) (m : Mem) (a : ℕ) : store16 o m a (load16 o m a) = m := by
  funext x
  rw [store16, load16, o.bytes16_u16]
  by_cases h1 : x = a + 1
  · rw [h1, Function.update_self]
  · rw [Function.update_of_ne h1]
    by_cases h : x = a
    · rw [h, Function.update_self]
    · rw [Function.update_of_ne h]

/-- Writing a number changes two bytes. -/
theorem store16_of_ne (o : ByteOrder) (m : Mem) (a v : ℕ) {x : ℕ} (h : x ≠ a)
    (h1 : x ≠ a + 1) : store16 o m a v x = m x := by
  rw [store16, Function.update_of_ne h1, Function.update_of_ne h]

/-! ## Stretches of memory -/

/-- The `n` bytes from `a` on. -/
def slice (m : Mem) (a n : ℕ) : List UInt8 := (List.range n).map fun i => m (a + i)

/-- Copy `bs` to `a`. -/
def blit (m : Mem) (a : ℕ) (bs : List UInt8) : Mem :=
  fun x => if a ≤ x then bs.getD (x - a) (m x) else m x

/-- The bytes `bs` as a memory, from address 0 on. -/
def memOf (bs : List UInt8) : Mem := fun i => bs.getD i 0

@[simp] theorem length_slice (m : Mem) (a n : ℕ) : (slice m a n).length = n := by
  simp [slice]

/-- The bytes of a stretch. -/
theorem getElem_slice (m : Mem) (a n i : ℕ) (h : i < (slice m a n).length) :
    (slice m a n)[i] = m (a + i) := by
  simp [slice]

/-- A stretch depends on its bytes only. -/
theorem slice_congr {m m' : Mem} {a n : ℕ} (h : ∀ x, a ≤ x → x < a + n → m' x = m x) :
    slice m' a n = slice m a n := by
  unfold slice
  apply List.map_congr_left
  intro i hi
  rw [List.mem_range] at hi
  exact h (a + i) (by omega) (by omega)

/-- Equal stretches hold equal bytes. -/
theorem eq_of_slice_eq {m m' : Mem} {a a' n : ℕ} (h : slice m' a' n = slice m a n) {i : ℕ}
    (hi : i < n) : m' (a' + i) = m (a + i) := by
  have hlen : i < (slice m a n).length := by rw [length_slice]; exact hi
  have hlen' : i < (slice m' a' n).length := by rw [length_slice]; exact hi
  have hget : (slice m' a' n)[i] = (slice m a n)[i] := by simp only [h]
  rwa [getElem_slice, getElem_slice] at hget

/-- A stretch in two parts. -/
theorem slice_append (m : Mem) (a n k : ℕ) :
    slice m a (n + k) = slice m a n ++ slice m (a + n) k := by
  unfold slice
  rw [List.range_add, List.map_append, List.map_map]
  congr 1
  apply List.map_congr_left
  intro i _
  rw [Function.comp_apply, Nat.add_assoc]

theorem slice_succ (m : Mem) (a n : ℕ) : slice m a (n + 1) = m a :: slice m (a + 1) n := by
  rw [Nat.add_comm n 1, slice_append]
  rfl

/-- Where a byte of a stretch comes from. -/
theorem mem_slice {m : Mem} {a n : ℕ} {b : UInt8} (h : b ∈ slice m a n) :
    ∃ j < n, m (a + j) = b := by
  unfold slice at h
  obtain ⟨j, hj, rfl⟩ := List.mem_map.mp h
  exact ⟨j, List.mem_range.mp hj, rfl⟩

/-- The front of a stretch. -/
theorem slice_take (m : Mem) (a : ℕ) {n k : ℕ} (h : k ≤ n) :
    (slice m a n).take k = slice m a k := by
  obtain ⟨j, rfl⟩ := Nat.exists_eq_add_of_le h
  rw [slice_append, List.take_append_of_le_length (by rw [length_slice]),
    List.take_of_length_le (by rw [length_slice])]

/-- The back of a stretch. -/
theorem slice_drop (m : Mem) (a : ℕ) {n k : ℕ} (h : k ≤ n) :
    (slice m a n).drop k = slice m (a + k) (n - k) := by
  obtain ⟨j, rfl⟩ := Nat.exists_eq_add_of_le h
  rw [slice_append, List.drop_append, List.drop_eq_nil_of_le (by rw [length_slice]),
    length_slice, Nat.sub_self, List.drop_zero, List.nil_append, Nat.add_sub_cancel_left]

/-- Reading from a copy of a stretch. -/
theorem memOf_slice (m : Mem) (a : ℕ) {n i : ℕ} (h : i < n) : memOf (slice m a n) i = m (a + i) := by
  have hi : i < (slice m a n).length := by rw [length_slice]; exact h
  rw [memOf, List.getD_eq_getElem _ _ hi, getElem_slice]

theorem memOf_take (bs : List UInt8) {k i : ℕ} (h : i < k) : memOf (bs.take k) i = memOf bs i := by
  rw [memOf, memOf, List.getD_eq_getElem?_getD, List.getD_eq_getElem?_getD,
    List.getElem?_take_of_lt h]

/-- In front of what is copied nothing changes. -/
theorem blit_of_lt (m : Mem) {a x : ℕ} (bs : List UInt8) (h : x < a) : blit m a bs x = m x := by
  rw [blit, if_neg (by omega)]

/-- Nor behind it. -/
theorem blit_of_ge (m : Mem) {a x : ℕ} {bs : List UInt8} (h : a + bs.length ≤ x) :
    blit m a bs x = m x := by
  rw [blit, if_pos (by omega), List.getD_eq_default _ _ (by omega)]

/-- What was copied is there. -/
theorem slice_blit (m : Mem) (a : ℕ) (bs : List UInt8) : slice (blit m a bs) a bs.length = bs := by
  apply List.ext_getElem
  · rw [length_slice]
  · intro i hi hi'
    rw [getElem_slice, blit, if_pos (by omega), Nat.add_sub_cancel_left,
      List.getD_eq_getElem _ _ hi']

theorem blit_nil (m : Mem) (a : ℕ) : blit m a [] = m := by
  funext x
  by_cases h : x < a
  · exact blit_of_lt m [] h
  · exact blit_of_ge m (by simpa using h)

/-- Copying two stretches one after the other. -/
theorem blit_append (m : Mem) (a : ℕ) (bs cs : List UInt8) :
    blit (blit m a bs) (a + bs.length) cs = blit m a (bs ++ cs) := by
  funext x
  by_cases hlt : x < a
  · rw [blit_of_lt _ _ (by omega), blit_of_lt _ _ hlt, blit_of_lt _ _ hlt]
  by_cases hbs : x < a + bs.length
  · rw [blit_of_lt _ _ hbs, blit, blit, if_pos (by omega), if_pos (by omega),
      List.getD_append _ _ _ _ (by omega)]
  · rw [blit, if_pos (by omega), blit_of_ge _ (by omega), blit, if_pos (by omega),
      List.getD_append_right _ _ _ _ (by omega)]
    congr 1
    omega

/-- Reading from what was copied. -/
theorem blit_of_mem (m : Mem) (a : ℕ) {bs : List UInt8} {i : ℕ} (h : i < bs.length) :
    blit m a bs (a + i) = memOf bs i := by
  rw [blit, if_pos (by omega), Nat.add_sub_cancel_left, memOf, List.getD_eq_getElem _ _ h,
    List.getD_eq_getElem _ _ h]

/-! ## Equal stretches -/

/-- The `n` bytes at `p'` in `m'` are those at `p` in `m`. -/
def SameBytes (n : ℕ) (m : Mem) (p : ℕ) (m' : Mem) (p' : ℕ) : Prop :=
  ∀ i < n, m' (p' + i) = m (p + i)

section SameBytes

variable {n p p' : ℕ} {m m' : Mem}

theorem SameBytes.symm (h : SameBytes n m p m' p') : SameBytes n m' p' m p :=
  fun i hi => (h i hi).symm

theorem SameBytes.mono {k : ℕ} (h : SameBytes n m p m' p') (hk : k ≤ n) :
    SameBytes k m p m' p' := fun i hi => h i (by omega)

/-- The bytes from the offset `k` on. -/
theorem SameBytes.drop (h : SameBytes n m p m' p') (k : ℕ) :
    SameBytes (n - k) m (p + k) m' (p' + k) := by
  intro i hi
  rw [Nat.add_assoc, Nat.add_assoc]
  exact h (k + i) (by omega)

/-- Equal stretches hold equal numbers. -/
theorem SameBytes.load16_eq (h : SameBytes n m p m' p') (o : ByteOrder) {k : ℕ} (hk : k + 2 ≤ n) :
    load16 o m' (p' + k) = load16 o m (p + k) := by
  unfold load16
  rw [Nat.add_assoc, Nat.add_assoc, h k (by omega), h (k + 1) (by omega)]

theorem SameBytes.load32_eq (h : SameBytes n m p m' p') (o : ByteOrder) {k : ℕ} (hk : k + 4 ≤ n) :
    load32 o m' (p' + k) = load32 o m (p + k) := by
  unfold load32
  simp only [Nat.add_assoc]
  rw [h k (by omega), h (k + 1) (by omega), h (k + 2) (by omega), h (k + 3) (by omega)]

/-- Equal stretches are equal as lists. -/
theorem SameBytes.slice_eq (h : SameBytes n m p m' p') : slice m' p' n = slice m p n := by
  unfold slice
  apply List.map_congr_left
  intro i hi
  exact h i (List.mem_range.mp hi)

/-- The same change on both sides keeps them equal. -/
theorem SameBytes.update (h : SameBytes n m p m' p') (k : ℕ) (v : UInt8) :
    SameBytes n (Function.update m (p + k) v) p (Function.update m' (p' + k) v) p' := by
  intro i hi
  by_cases hik : i = k
  · rw [hik, Function.update_self, Function.update_self]
  · rw [Function.update_of_ne (by omega), Function.update_of_ne (by omega)]
    exact h i hi

theorem SameBytes.store (h : SameBytes n m p m' p') (o : ByteOrder) (k v : ℕ) :
    SameBytes n (store16 o m (p + k) v) p (store16 o m' (p' + k) v) p' :=
  (h.update k _).update (k + 1) _

end SameBytes

/-- A list and the memory it was read from. -/
theorem sameBytes_slice (m : Mem) (p n : ℕ) : SameBytes n m p (memOf (slice m p n)) 0 := by
  intro i hi
  rw [Nat.zero_add, memOf_slice m p hi]

/-- What was copied and the original. -/
theorem sameBytes_blit (m : Mem) (a : ℕ) (bs : List UInt8) :
    SameBytes bs.length (memOf bs) 0 (blit m a bs) a := by
  intro i hi
  rw [blit_of_mem m a hi, Nat.zero_add]

/-- The memories agree from the address `a` on. -/
def SameFrom (a : ℕ) (m m' : Mem) : Prop := ∀ x, a ≤ x → m' x = m x

theorem SameFrom.mono {a b : ℕ} {m m' : Mem} (h : SameFrom a m m') (hab : a ≤ b) :
    SameFrom b m m' := fun x hx => h x (hab.trans hx)

/-- Stretches that start behind `a` are the same. -/
theorem SameFrom.slice_eq {a p : ℕ} {m m' : Mem} (h : SameFrom a m m') (hp : a ≤ p) (n : ℕ) :
    slice m' p n = slice m p n := slice_congr fun x hx _ => h x (hp.trans hx)

theorem SameFrom.load16_eq {a p : ℕ} {m m' : Mem} (h : SameFrom a m m') (hp : a ≤ p)
    (o : ByteOrder) : load16 o m' p = load16 o m p := by
  unfold load16
  rw [h p hp, h (p + 1) (by omega)]

theorem SameFrom.load32_eq {a p : ℕ} {m m' : Mem} (h : SameFrom a m m') (hp : a ≤ p)
    (o : ByteOrder) : load32 o m' p = load32 o m p := by
  unfold load32
  rw [h p hp, h (p + 1) (by omega), h (p + 2) (by omega), h (p + 3) (by omega)]
