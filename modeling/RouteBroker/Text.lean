/-
# Text and printed numbers

A library module.  Texts are lists of characters, and numbers are printed as `printf` does
it.  A number can be told from its digits (`toDigits_inj`, `decimal_inj`, `signed_inj`), and
the fields of a text can be told from the text if no field contains the separator behind it
(`separated_inj`).
-/
import Mathlib

/-- Characters of a C string. -/
abbrev Text := List Char

/-- `%u` -/
def decimal (n : ℕ) : Text := Nat.toDigits 10 n

/-- `%d` for an `int` that was assigned the 32 bit number `n` -/
def signed (n : ℕ) : Text := if n < 2 ^ 31 then decimal n else '-' :: decimal (2 ^ 32 - n)

/-- `%s` for a pointer that is `NULL` if there is no text -/
def orNull (s : Option Text) : Text := s.getD ['(', 'n', 'u', 'l', 'l', ')']

/-- `snprintf(buf, len, ...)` of `text`: the result, and the text in the buffer. -/
def snprintf (len : ℕ) (text : Text) : ℤ × Text := (text.length, text.take (len - 1))

/-- A text that fits is stored as a whole. -/
theorem snprintf_of_lt {len : ℕ} {text : Text} (h : text.length < len) :
    snprintf len text = ((text.length : ℤ), text) := by
  rw [snprintf, List.take_of_length_le (by omega)]

/-! ## Digits -/

/-- The digits of numbers up to base 16. -/
def hexDigits : Text :=
  ['0', '1', '2', '3', '4', '5', '6', '7', '8', '9', 'a', 'b', 'c', 'd', 'e', 'f']

theorem digitChar_eq {n : ℕ} (h : n < 16) : hexDigits[n]? = some n.digitChar := by
  interval_cases n <;> rfl

theorem digitChar_mem {n : ℕ} (h : n < 16) : n.digitChar ∈ hexDigits :=
  List.mem_of_getElem? (digitChar_eq h)

theorem digitChar_inj {n k : ℕ} (hn : n < 16) (hk : k < 16) (h : n.digitChar = k.digitChar) :
    n = k := by
  have hnodup : hexDigits.Nodup := by decide
  have heq : hexDigits[n]? = hexDigits[k]? := by
    rw [digitChar_eq hn, digitChar_eq hk, h]
  exact (List.getElem?_inj hn hnodup).mp heq

section Digits

variable {b n k : ℕ}

theorem mem_toDigits (hb : 1 < b) (hb16 : b ≤ 16) {c : Char} (h : c ∈ Nat.toDigits b n) :
    c ∈ hexDigits := by
  induction n using Nat.strong_induction_on with
  | h n ih =>
    rw [Nat.toDigits_eq_if hb] at h
    split_ifs at h with hlt
    · rw [List.mem_singleton.mp h]
      exact digitChar_mem (by omega)
    · rcases List.mem_append.mp h with h | h
      · exact ih (n / b) (Nat.div_lt_self (by omega) hb) h
      · have hmod : n % b < b := Nat.mod_lt n (by omega)
        rw [List.mem_singleton.mp h]
        exact digitChar_mem (by omega)

/-- A number can be told from its digits. -/
theorem toDigits_inj (hb : 1 < b) (hb16 : b ≤ 16) (h : Nat.toDigits b n = Nat.toDigits b k) :
    n = k := by
  induction n using Nat.strong_induction_on generalizing k with
  | h n ih =>
    rw [Nat.toDigits_eq_if (n := n) hb, Nat.toDigits_eq_if (n := k) hb] at h
    have hpos (j : ℕ) : 0 < (Nat.toDigits b j).length := Nat.length_toDigits_pos
    split_ifs at h with hn hk hk
    · exact digitChar_inj (by omega) (by omega) (List.singleton_inj.mp h)
    · have hlen := congrArg List.length h
      have hkpos := hpos (k / b)
      rw [List.length_append, List.length_singleton, List.length_singleton] at hlen
      omega
    · have hlen := congrArg List.length h
      have hnpos := hpos (n / b)
      rw [List.length_append, List.length_singleton, List.length_singleton] at hlen
      omega
    · obtain ⟨hdiv, hmod⟩ := List.append_inj' h rfl
      have hnb : n % b < b := Nat.mod_lt n (by omega)
      have hkb : k % b < b := Nat.mod_lt k (by omega)
      have hmod' : n % b = k % b :=
        digitChar_inj (by omega) (by omega) (List.singleton_inj.mp hmod)
      have hdiv' : n / b = k / b := ih (n / b) (Nat.div_lt_self (by omega) hb) hdiv
      rw [← Nat.div_add_mod n b, ← Nat.div_add_mod k b, hdiv', hmod']

end Digits

/-! ## Printed numbers -/

section Numbers

variable {n k : ℕ}

/-- A number can be told from its decimal digits. -/
theorem decimal_inj (h : decimal n = decimal k) : n = k :=
  toDigits_inj (by omega) (by omega) h

/-- Only digits are printed. -/
theorem mem_decimal {c : Char} (h : c ∈ decimal n) : c ∈ hexDigits :=
  mem_toDigits (by omega) (by omega) h

/-- Numbers below `10 ^ d` have at most `d` digits. -/
theorem length_decimal_le {d : ℕ} (hd : 0 < d) (h : n < 10 ^ d) : (decimal n).length ≤ d :=
  (Nat.length_toDigits_le_iff (by omega) hd).mpr h

/-- A 32 bit number can be told from the signed number that `%d` makes of it. -/
theorem signed_inj (hn : n < 2 ^ 32) (hk : k < 2 ^ 32) (h : signed n = signed k) : n = k := by
  have hminus : ∀ j j' : ℕ, decimal j ≠ '-' :: decimal j' := by
    intro j j' heq
    have hmem : '-' ∈ decimal j := by
      rw [heq]
      exact List.mem_cons_self
    exact absurd (mem_decimal hmem) (by decide)
  unfold signed at h
  split_ifs at h
  · exact decimal_inj h
  · exact absurd h (hminus _ _)
  · exact absurd h.symm (hminus _ _)
  · have hsub := decimal_inj (List.cons.inj h).2
    omega

/-- Only digits and a minus sign are printed. -/
theorem mem_signed {c : Char} (h : c ∈ signed n) : c = '-' ∨ c ∈ hexDigits := by
  unfold signed at h
  split_ifs at h
  · exact .inr (mem_decimal h)
  · rcases List.mem_cons.mp h with rfl | h
    · exact .inl rfl
    · exact .inr (mem_decimal h)

/-- A signed number takes at most eleven characters. -/
theorem length_signed_le (hn : n < 2 ^ 32) : (signed n).length ≤ 11 := by
  unfold signed
  split_ifs with h
  · have hlen : (decimal n).length ≤ 10 := length_decimal_le (by omega) (by omega)
    omega
  · have hlen : (decimal (2 ^ 32 - n)).length ≤ 10 := length_decimal_le (by omega) (by omega)
    rw [List.length_cons]
    omega

end Numbers

/-! ## Fields -/

/-- Fields, each with the separator behind it, and the last field. -/
def separated : List (Text × Char) → Text → Text
  | [], last => last
  | (s, c) :: fields, last => s ++ c :: separated fields last

/-- A text can be cut at the first separator. -/
theorem append_cons_inj_of_notMem_left {c : Char} {s s' t t' : Text} (hs : c ∉ s) (hs' : c ∉ s')
    (h : s ++ c :: t = s' ++ c :: t') : s = s' ∧ t = t' := by
  induction s generalizing s' with
  | nil =>
    cases s' with
    | nil => exact ⟨rfl, (List.cons.inj h).2⟩
    | cons x s' =>
      have hx : c = x := (List.cons.inj h).1
      rw [hx] at hs'
      exact absurd List.mem_cons_self hs'
  | cons x s ih =>
    cases s' with
    | nil =>
      have hx : x = c := (List.cons.inj h).1
      rw [hx] at hs
      exact absurd List.mem_cons_self hs
    | cons y s' =>
      obtain ⟨rfl, htail⟩ := List.cons.inj h
      obtain ⟨rfl, rfl⟩ := ih (List.not_mem_of_not_mem_cons hs)
        (List.not_mem_of_not_mem_cons hs') htail
      exact ⟨rfl, rfl⟩

/-- **The fields can be told from the text.** -/
theorem separated_inj {fields fields' : List (Text × Char)} {last last' : Text}
    (hsep : fields.map Prod.snd = fields'.map Prod.snd) (hfields : ∀ f ∈ fields, f.2 ∉ f.1)
    (hfields' : ∀ f ∈ fields', f.2 ∉ f.1)
    (h : separated fields last = separated fields' last') : fields = fields' ∧ last = last' := by
  induction fields generalizing fields' with
  | nil =>
    rw [List.map_nil, eq_comm, List.map_eq_nil_iff] at hsep
    rw [hsep] at h ⊢
    exact ⟨rfl, h⟩
  | cons f fields ih =>
    cases fields' with
    | nil => exact absurd hsep (List.cons_ne_nil _ _)
    | cons f' fields' =>
      obtain ⟨s, c⟩ := f
      obtain ⟨s', c'⟩ := f'
      obtain ⟨rfl, hsep'⟩ := List.cons.inj hsep
      obtain ⟨hs, htail⟩ := List.forall_mem_cons.mp hfields
      obtain ⟨hs', htail'⟩ := List.forall_mem_cons.mp hfields'
      obtain ⟨rfl, hrest⟩ := append_cons_inj_of_notMem_left hs hs' h
      obtain ⟨rfl, rfl⟩ := ih hsep' htail htail' hrest
      exact ⟨rfl, rfl⟩

/-! ## Joined texts -/

section Joined

variable {c : Char} {xs ys : List Text}

/-- The pieces can be told from the joined text if none of them contains the separator. -/
theorem intercalate_inj (hxs : xs ≠ []) (hys : ys ≠ []) (hx : ∀ x ∈ xs, c ∉ x)
    (hy : ∀ y ∈ ys, c ∉ y) (h : List.intercalate [c] xs = List.intercalate [c] ys) : xs = ys := by
  rw [← List.splitOn_intercalate c hx hxs, h, List.splitOn_intercalate c hy hys]

/-- A joined text has the characters of its pieces and the separator. -/
theorem mem_intercalate {d : Char} (h : d ∈ List.intercalate [c] xs) :
    d = c ∨ ∃ x ∈ xs, d ∈ x := by
  induction xs with
  | nil => cases h
  | cons x xs ih =>
    cases xs with
    | nil =>
      rw [List.intercalate_singleton] at h
      exact .inr ⟨x, List.mem_cons_self, h⟩
    | cons y zs =>
      rw [List.intercalate_cons_cons, List.mem_append, List.mem_append, List.mem_singleton] at h
      rcases h with (h | h) | h
      · exact .inr ⟨x, List.mem_cons_self, h⟩
      · exact .inl h
      · rcases ih h with hc | ⟨z, hz, hd⟩
        · exact .inl hc
        · exact .inr ⟨z, List.mem_cons_of_mem x hz, hd⟩

/-- The length of a joined text, with one separator for each piece. -/
theorem length_intercalate_le {k : ℕ} (h : ∀ x ∈ xs, x.length ≤ k) :
    (List.intercalate [c] xs).length ≤ (k + 1) * xs.length := by
  induction xs with
  | nil => exact Nat.zero_le _
  | cons x xs ih =>
    obtain ⟨hx, hxs⟩ := List.forall_mem_cons.mp h
    have htail := ih hxs
    cases xs with
    | nil =>
      rw [List.intercalate_singleton, List.length_singleton]
      omega
    | cons y zs =>
      rw [List.intercalate_cons_cons, List.length_append, List.length_append,
        List.length_singleton, List.length_cons, Nat.mul_add]
      omega

end Joined
