/-
# C strings in memory

A library module.  A C string is a stretch of bytes other than NUL with a NUL behind it,
and the functions of `string.h` find its end by reading on until they meet one: `strrchr`
and `cstring` are programs that read memory, with a bound on the number of their rounds.

* `IsString m a s`: the string at the address `a` is `s`;
* `Spells bs s`: a text that starts with the bytes `bs` and a NUL is `s`, and `cstr_eq_iff`:
  it is what `cstr` makes of them;
* `run_strrchr`, `run_cstring`: what they find in a string;
* `within_strrchr_iff`: the search stays below an address if and only if there is a NUL
  below it.
-/
import RouteBroker.Reader
import RouteBroker.Text

/-- The bytes of a text. -/
def ascii (s : Text) : List UInt8 := s.map fun c => UInt8.ofNat c.toNat

/-- The C string at the start of `bs`. -/
def cstr (bs : List UInt8) : List UInt8 := bs.takeWhile (· ≠ 0)

/-- Read as a C string, the bytes are `s`: they end with it or go on with a NUL. -/
def Spells (bs s : List UInt8) : Prop :=
  (0 : UInt8) ∉ s ∧ (bs = s ∨ ∃ rest, bs = s ++ 0 :: rest)

/-- The C string at the address `a` is `s`. -/
structure IsString (m : Mem) (a : ℕ) (s : List UInt8) : Prop where
  bytes : slice m a s.length = s
  nul : m (a + s.length) = 0
  nonzero : (0 : UInt8) ∉ s

/-- The loop of `strrchr`, with the last place at which the byte `c` was met; `none` when
there are rounds to go. -/
def strrchrFrom (c : UInt8) : ℕ → ℕ → Option ℕ → Reader (Option (Option ℕ))
  | 0, _, _ => return none
  | fuel + 1, a, last => do
    let b ← Reader.u8 a
    if b = 0 then return some last
    else strrchrFrom c fuel (a + 1) (if b = c then some a else last)

/-- `strrchr(a, c)` for a byte `c` other than NUL. -/
def strrchr (c : UInt8) (fuel a : ℕ) : Reader (Option (Option ℕ)) := strrchrFrom c fuel a none

/-- The bytes from `a` on up to a NUL. -/
def cstring : ℕ → ℕ → Reader (Option (List UInt8))
  | 0, _ => return none
  | fuel + 1, a => do
    let b ← Reader.u8 a
    if b = 0 then return some []
    else do
      let s ← cstring fuel (a + 1)
      return s.map (b :: ·)

/-! ## Strings -/

section Strings

variable {m : Mem} {a k : ℕ} {b c : UInt8} {s t : List UInt8}

theorem IsString.head (h : IsString m a (b :: s)) : m a = b ∧ b ≠ 0 := by
  have hbytes := h.bytes
  rw [List.length_cons, slice_succ] at hbytes
  refine ⟨(List.cons.inj hbytes).1, ?_⟩
  intro hb
  exact h.nonzero (hb ▸ List.mem_cons_self)

theorem IsString.tail (h : IsString m a (b :: s)) : IsString m (a + 1) s := by
  have hbytes := h.bytes
  rw [List.length_cons, slice_succ] at hbytes
  refine ⟨(List.cons.inj hbytes).2, ?_, fun hs => h.nonzero (List.mem_cons_of_mem b hs)⟩
  have hnul := h.nul
  rw [List.length_cons] at hnul
  rw [Nat.add_assoc, Nat.add_comm 1]
  exact hnul

/-- **Bytes have one C string**, and it is the one that `cstr` cuts off. -/
theorem cstr_eq_iff {bs : List UInt8} : cstr bs = s ↔ Spells bs s := by
  constructor
  · rintro rfl
    refine ⟨fun h => ?_, ?_⟩
    · have hnonzero := List.mem_takeWhile_imp h
      simp at hnonzero
    · have hsplit : cstr bs ++ bs.dropWhile (· ≠ 0) = bs := List.takeWhile_append_dropWhile
      cases hrest : bs.dropWhile (· ≠ 0) with
      | nil =>
        rw [hrest, List.append_nil] at hsplit
        exact Or.inl hsplit.symm
      | cons b rest =>
        have hb : b = 0 := by
          have hhead := List.head?_dropWhile_not (fun c : UInt8 => decide (c ≠ 0)) bs
          rw [hrest] at hhead
          simpa using hhead
        rw [hrest, hb] at hsplit
        exact Or.inr ⟨rest, hsplit.symm⟩
  · rintro ⟨hs, rfl | ⟨rest, rfl⟩⟩
    · exact List.takeWhile_eq_self_iff.mpr fun b hb => decide_eq_true (ne_of_mem_of_not_mem hb hs)
    · unfold cstr
      rw [List.takeWhile_append_of_pos fun b hb => decide_eq_true (ne_of_mem_of_not_mem hb hs),
        List.takeWhile_cons_of_neg (by simp), List.append_nil]

instance (bs s : List UInt8) : Decidable (Spells bs s) := decidable_of_iff _ cstr_eq_iff

/-- A NUL ends a string, and there is one before the next NUL at the latest. -/
theorem exists_isString (hk : a ≤ k) (h0 : m k = 0) :
    ∃ n, a + n ≤ k ∧ IsString m a (slice m a n) := by
  have hex : ∃ n, m (a + n) = 0 := by
    obtain ⟨n, rfl⟩ := Nat.exists_eq_add_of_le hk
    exact ⟨n, h0⟩
  refine ⟨Nat.find hex, ?_, ?_, ?_, ?_⟩
  · obtain ⟨n, rfl⟩ := Nat.exists_eq_add_of_le hk
    exact Nat.add_le_add_left (Nat.find_min' hex h0) a
  · rw [length_slice]
  · rw [length_slice]
    exact Nat.find_spec hex
  · intro hmem
    obtain ⟨j, hj, hz⟩ := mem_slice hmem
    exact Nat.find_min hex hj hz

/-- What is copied in front of a string becomes part of it. -/
theorem IsString.blit (h : IsString m (a + s.length) t) (hs : (0 : UInt8) ∉ s) :
    IsString (blit m a s) a (s ++ t) := by
  refine ⟨?_, ?_, ?_⟩
  · rw [List.length_append, slice_append, slice_blit]
    congr 1
    rw [slice_congr fun x hx _ => blit_of_ge m hx]
    exact h.bytes
  · rw [List.length_append, ← Nat.add_assoc, blit_of_ge m (by omega)]
    exact h.nul
  · intro hmem
    rcases List.mem_append.mp hmem with hmem | hmem
    · exact hs hmem
    · exact h.nonzero hmem

/-- Writing a NUL into a string cuts it off there. -/
theorem IsString.cut (h : IsString m a (s ++ t)) :
    IsString (Function.update m (a + s.length) 0) a s := by
  refine ⟨?_, Function.update_self _ _ _, fun hs => h.nonzero (List.mem_append_left t hs)⟩
  rw [slice_congr fun x _ hlt => Function.update_of_ne (by omega) _ _]
  have hbytes := h.bytes
  rw [List.length_append, slice_append] at hbytes
  exact (List.append_inj hbytes (by rw [length_slice])).1

/-- The last place of a byte in a list. -/
theorem exists_last (h : c ∈ s) : ∃ u v, s = u ++ c :: v ∧ c ∉ v := by
  obtain ⟨u, v, huv, hu⟩ := List.eq_append_cons_of_mem (List.mem_reverse.mpr h)
  refine ⟨v.reverse, u.reverse, ?_, fun hv => hu (List.mem_reverse.mp hv)⟩
  rw [← List.reverse_reverse s, huv, List.reverse_append, List.reverse_cons, List.append_assoc]
  rfl

end Strings

/-! ## What the functions find -/

section Find

variable {m : Mem} {a fuel : ℕ} {c : UInt8} {s t : List UInt8}

theorem run_cstring (h : IsString m a s) (hfuel : s.length < fuel) :
    (cstring fuel a).run m = some s := by
  induction s generalizing a fuel with
  | nil =>
    obtain ⟨fuel, rfl⟩ := Nat.exists_eq_add_of_lt hfuel
    have hnul : m a = 0 := h.nul
    rw [cstring, Reader.run_bind, Reader.run_u8, if_pos hnul]
    rfl
  | cons b s ih =>
    obtain ⟨fuel, rfl⟩ := Nat.exists_eq_succ_of_ne_zero (Nat.ne_zero_of_lt hfuel)
    obtain ⟨hb, hb0⟩ := h.head
    rw [cstring, Reader.run_bind, Reader.run_u8, hb, if_neg hb0, Reader.run_bind,
      ih h.tail (Nat.lt_of_succ_lt_succ hfuel)]
    rfl

theorem run_strrchrFrom_of_notMem (h : IsString m a s) (hc : c ∉ s) (hfuel : s.length < fuel)
    (last : Option ℕ) : (strrchrFrom c fuel a last).run m = some last := by
  induction s generalizing a fuel with
  | nil =>
    obtain ⟨fuel, rfl⟩ := Nat.exists_eq_add_of_lt hfuel
    have hnul : m a = 0 := h.nul
    rw [strrchrFrom, Reader.run_bind, Reader.run_u8, if_pos hnul]
    rfl
  | cons b s ih =>
    obtain ⟨fuel, rfl⟩ := Nat.exists_eq_succ_of_ne_zero (Nat.ne_zero_of_lt hfuel)
    obtain ⟨hb, hb0⟩ := h.head
    have hbc : b ≠ c := by
      intro he
      exact hc (he ▸ List.mem_cons_self)
    rw [strrchrFrom, Reader.run_bind, Reader.run_u8, hb, if_neg hb0, if_neg hbc]
    exact ih h.tail (List.not_mem_of_not_mem_cons hc) (Nat.lt_of_succ_lt_succ hfuel)

theorem run_strrchrFrom (h : IsString m a (s ++ c :: t)) (hc : c ∉ t)
    (hfuel : (s ++ c :: t).length < fuel) (last : Option ℕ) :
    (strrchrFrom c fuel a last).run m = some (some (a + s.length)) := by
  induction s generalizing a fuel last with
  | nil =>
    obtain ⟨fuel, rfl⟩ := Nat.exists_eq_succ_of_ne_zero (Nat.ne_zero_of_lt hfuel)
    obtain ⟨hb, hb0⟩ := h.head
    rw [strrchrFrom, Reader.run_bind, Reader.run_u8, hb, if_neg hb0, if_pos rfl]
    exact run_strrchrFrom_of_notMem h.tail hc (Nat.lt_of_succ_lt_succ hfuel) (some a)
  | cons b s ih =>
    obtain ⟨fuel, rfl⟩ := Nat.exists_eq_succ_of_ne_zero (Nat.ne_zero_of_lt hfuel)
    obtain ⟨hb, hb0⟩ := h.head
    rw [strrchrFrom, Reader.run_bind, Reader.run_u8, hb, if_neg hb0,
      ih h.tail (Nat.lt_of_succ_lt_succ hfuel), List.length_cons, Nat.add_assoc, Nat.add_comm 1]

/-- **`strrchr` finds the last place of `c` in the string.** -/
theorem run_strrchr (h : IsString m a (s ++ c :: t)) (hc : c ∉ t)
    (hfuel : (s ++ c :: t).length < fuel) :
    (strrchr c fuel a).run m = some (some (a + s.length)) :=
  run_strrchrFrom h hc hfuel none

end Find

/-! ## Where the search ends -/

section Within

variable {m : Mem} {a n k : ℕ} {c : UInt8}

theorem within_strrchrFrom (hak : a ≤ k) (hkn : k < n) (h0 : m k = 0) (fuel : ℕ)
    (last : Option ℕ) : Reader.Within m n (strrchrFrom c fuel a last) := by
  induction fuel generalizing a last with
  | zero => exact Reader.within_pure m n none
  | succ fuel ih =>
    rw [strrchrFrom, Reader.within_bind, Reader.within_u8, Reader.run_u8]
    refine ⟨by omega, ?_⟩
    split_ifs with ha hac
    · exact Reader.within_pure m n _
    · have hne : a ≠ k := by
        intro he
        exact ha (he ▸ h0)
      exact ih (by omega) _
    · have hne : a ≠ k := by
        intro he
        exact ha (he ▸ h0)
      exact ih (by omega) _

/-- Without a NUL the search comes to the address `n`. -/
theorem not_within_strrchrFrom {d : ℕ} (hd : a + d = n) (h : ∀ k, a ≤ k → k < n → m k ≠ 0)
    (last : Option ℕ) : ¬ Reader.Within m n (strrchrFrom c (d + 1) a last) := by
  induction d generalizing a last with
  | zero =>
    rw [strrchrFrom, Reader.within_bind, Reader.within_u8]
    rintro ⟨hlt, -⟩
    omega
  | succ d ih =>
    rw [strrchrFrom, Reader.within_bind, Reader.run_u8, if_neg (h a le_rfl (by omega))]
    rintro ⟨-, hrest⟩
    exact ih (by omega) (fun k hk => h k (by omega)) _ hrest

/-- **The search stays below `n` if and only if there is a NUL below `n`.** -/
theorem within_strrchr_iff (ha : a ≤ n) : (∀ fuel, Reader.Within m n (strrchr c fuel a)) ↔
    ∃ k, a ≤ k ∧ k < n ∧ m k = 0 := by
  constructor
  · intro h
    by_contra hno
    push Not at hno
    exact not_within_strrchrFrom (Nat.add_sub_of_le ha) hno none (h _)
  · rintro ⟨k, hak, hkn, h0⟩ fuel
    exact within_strrchrFrom hak hkn h0 fuel none

end Within
