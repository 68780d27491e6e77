/-
# Reading from a stream socket

A library module.  A stream socket hands out its bytes in pieces: `recv` returns at most
what was asked for, at least one byte while there are any, and at the end of the stream a
result that is not positive, `0` or an error.  `Sock` lists the pieces; every way of
cutting a stream into non-empty pieces is one.

`recvLoop` is the loop that reads on until `bound` bytes are in a buffer.  What it does
depends on the bytes of the stream only, not on the pieces (`recvLoop_enough`,
`recvLoop_short`).
-/
import RouteBroker.Bytes

/-- A stream socket: the pieces that can still be received, and what `recv` returns
afterwards. -/
structure Sock where
  chunks : List (List UInt8)
  fin : ℤ
  nonempty : ∀ c ∈ chunks, c ≠ []
  fin_le : fin ≤ 0

namespace Sock

/-- The bytes that can still be received. -/
def bytes (s : Sock) : List UInt8 := s.chunks.flatten

/-- `recv(fd, _, want, 0)`: its result, the bytes received, and the socket afterwards. -/
def recv (s : Sock) (want : ℕ) : ℤ × List UInt8 × Sock :=
  match h : s.chunks with
  | [] => (s.fin, [], s)
  | c :: cs =>
    ((c.take want).length, c.take want,
      { s with
        chunks := if c.drop want = [] then cs else c.drop want :: cs
        nonempty := by
          intro c' hc'
          have hs := s.nonempty
          rw [h] at hs
          split_ifs at hc' with hrest
          · exact hs c' (List.mem_cons_of_mem c hc')
          · rcases List.mem_cons.mp hc' with rfl | hc'
            · exact hrest
            · exact hs c' (List.mem_cons_of_mem c hc') })

theorem recv_of_bytes_nil {s : Sock} (h : s.bytes = []) (want : ℕ) :
    s.recv want = (s.fin, [], s) := by
  obtain ⟨chunks, fin, hne, hfin⟩ := s
  cases chunks with
  | nil => rfl
  | cons c cs =>
    have hc : c = [] := (List.append_eq_nil_iff.mp h).1
    exact absurd hc (hne c List.mem_cons_self)

/-- A `recv` while there are bytes: it takes some of them, in order. -/
theorem recv_of_bytes {s : Sock} (h : s.bytes ≠ []) (want : ℕ) (hwant : 0 < want) :
    ∃ got s', s.recv want = ((got.length : ℤ), got, s') ∧ got ≠ [] ∧ got.length ≤ want ∧
      s.bytes = got ++ s'.bytes ∧ s'.fin = s.fin := by
  obtain ⟨chunks, fin, hne, hfin⟩ := s
  cases chunks with
  | nil => exact absurd rfl h
  | cons c cs =>
    have hc : c ≠ [] := hne c List.mem_cons_self
    refine ⟨c.take want, _, rfl, ?_, ?_, ?_, rfl⟩
    · intro hnil
      rcases List.take_eq_nil_iff.mp hnil with h0 | h0
      · omega
      · exact hc h0
    · rw [List.length_take]
      omega
    · -- the rest of the piece stays first, unless nothing is left of it
      have hrest : (if c.drop want = [] then cs else c.drop want :: cs).flatten
          = c.drop want ++ cs.flatten := by
        split_ifs with hnil
        · rw [hnil, List.nil_append]
        · exact List.flatten_cons
      show (c :: cs).flatten = _ ++ (if c.drop want = [] then cs else c.drop want :: cs).flatten
      rw [hrest, ← List.append_assoc, List.take_append_drop, List.flatten_cons]

end Sock

/-! ## Filling a buffer -/

/-- The state of a loop that reads into a buffer: memory and socket, how many bytes are in
the buffer, the last result of `recv`, and for each `recv` so far the offset and the number
of bytes it was allowed to write. -/
structure RecvState where
  mem : Mem
  sock : Sock
  l : ℕ
  n : ℤ
  writes : List (ℕ × ℕ)

/-- `for (; l < bound; l += n) { n = recv(fd, buf + l, bound - l, 0); if (n <= 0) return n; }`
The Boolean tells whether the loop ran to its end; `none` if `fuel` rounds are too few. -/
def recvLoop (bound : Mem → ℕ) (buf : ℕ) : ℕ → RecvState → Option (RecvState × Bool)
  | 0, _ => none
  | fuel + 1, s =>
    if s.l < bound s.mem then
      let want := bound s.mem - s.l
      let r := s.sock.recv want
      let writes := s.writes ++ [(s.l, want)]
      if r.1 ≤ 0 then some ({ s with sock := r.2.2, n := r.1, writes := writes }, false)
      else
        recvLoop bound buf fuel
          { mem := blit s.mem (buf + s.l) r.2.1
            sock := r.2.2
            l := s.l + r.2.1.length
            n := r.1
            writes := writes }
    else some (s, true)

section Loop

variable {bound : Mem → ℕ} {buf B : ℕ}

/-- Writing behind the first `l` bytes of the buffer does not change the bound. -/
def Stable (bound : Mem → ℕ) (buf l B : ℕ) (m : Mem) : Prop :=
  ∀ m', (∀ x < buf + l, m' x = m x) → bound m' = B

theorem Stable.eq {l : ℕ} {m : Mem} (h : Stable bound buf l B m) : bound m = B :=
  h m (fun _ _ => rfl)

theorem Stable.blit {l : ℕ} {m : Mem} (h : Stable bound buf l B m) (bs : List UInt8) :
    Stable bound buf (l + bs.length) B (blit m (buf + l) bs) := by
  intro m' hm'
  apply h
  intro x hx
  rw [hm' x (by omega), blit_of_lt _ _ hx]

/-- A round that receives something. -/
theorem recvLoop_round {s : RecvState} (hstable : Stable bound buf s.l B s.mem) (hmore : s.l < B)
    (hne : s.sock.bytes ≠ []) :
    ∃ got sock', 0 < got.length ∧ got.length ≤ B - s.l ∧
      s.sock.bytes = got ++ sock'.bytes ∧ sock'.fin = s.sock.fin ∧
      ∀ fuel, recvLoop bound buf (fuel + 1) s = recvLoop bound buf fuel
        ⟨blit s.mem (buf + s.l) got, sock', s.l + got.length, got.length,
          s.writes ++ [(s.l, B - s.l)]⟩ := by
  obtain ⟨got, sock', hrecv, hgot, hle, hbytes, hfin⟩ :=
    s.sock.recv_of_bytes hne (B - s.l) (by omega)
  have hpos : 0 < got.length := List.length_pos_iff.mpr hgot
  refine ⟨got, sock', hpos, hle, hbytes, hfin, fun fuel => ?_⟩
  rw [recvLoop, hstable.eq, if_pos hmore]
  dsimp only
  rw [hrecv]
  dsimp only
  rw [if_neg (by omega)]

/-- Each round adds one write, which ends at the bound. -/
theorem mem_writes {w : ℕ × ℕ} {ws : List (ℕ × ℕ)} {l : ℕ} (hl : l ≤ B)
    (hw : w ∈ ws ++ [(l, B - l)]) : w ∈ ws ∨ w.1 + w.2 ≤ B := by
  rcases List.mem_append.mp hw with hw | hw
  · exact Or.inl hw
  · rw [List.mem_singleton] at hw
    right
    rw [hw]
    dsimp only
    omega

/-- The loop when the stream has enough bytes. -/
theorem recvLoop_enough {fuel : ℕ} {s : RecvState} (hfuel : s.sock.bytes.length < fuel)
    (hstable : Stable bound buf s.l B s.mem) (hl : s.l ≤ B)
    (henough : B - s.l ≤ s.sock.bytes.length) :
    ∃ s', recvLoop bound buf fuel s = some (s', true) ∧
      s'.mem = blit s.mem (buf + s.l) (s.sock.bytes.take (B - s.l)) ∧
      s'.sock.bytes = s.sock.bytes.drop (B - s.l) ∧ s'.sock.fin = s.sock.fin ∧ s'.l = B ∧
      (0 < s.n ∨ s.l < B → 0 < s'.n) ∧
      (∀ w ∈ s'.writes, w ∈ s.writes ∨ w.1 + w.2 ≤ B) := by
  -- by induction on the rounds; each `recv` takes the next bytes of the stream
  induction fuel generalizing s with
  | zero => exact absurd hfuel (Nat.not_lt_zero _)
  | succ fuel ih =>
    by_cases hmore : s.l < B
    · have hne : s.sock.bytes ≠ [] := by
        intro hnil
        rw [hnil, List.length_nil] at henough
        omega
      obtain ⟨got, sock', hpos, hle, hbytes, hfin, hround⟩ := recvLoop_round hstable hmore hne
      have hlen : s.sock.bytes.length = got.length + sock'.bytes.length := by
        rw [hbytes, List.length_append]
      obtain ⟨s', hrun, hmem, hsock, hfin', hl', hn, hwrites⟩ := ih
        (s := ⟨blit s.mem (buf + s.l) got, sock', s.l + got.length, got.length,
          s.writes ++ [(s.l, B - s.l)]⟩) (by dsimp only; omega) (hstable.blit got)
        (by dsimp only; omega) (by dsimp only; omega)
      dsimp only at hmem hsock hfin' hn hwrites
      have htake : s.sock.bytes.take (B - s.l)
          = got ++ sock'.bytes.take (B - (s.l + got.length)) := by
        rw [hbytes, List.take_append, List.take_of_length_le hle, Nat.sub_sub]
      have hdrop : s.sock.bytes.drop (B - s.l) = sock'.bytes.drop (B - (s.l + got.length)) := by
        rw [hbytes, List.drop_append, List.drop_eq_nil_of_le hle, List.nil_append, Nat.sub_sub]
      refine ⟨s', (hround fuel).trans hrun, ?_, ?_, hfin'.trans hfin, hl',
        fun _ => hn (Or.inl (by omega)), fun w hw => ?_⟩
      · rw [hmem, htake, ← blit_append, Nat.add_assoc]
      · rw [hsock, hdrop]
      · rcases hwrites w hw with hw | hw
        · exact mem_writes hl hw
        · exact Or.inr hw
    · have heq : s.l = B := by omega
      refine ⟨s, ?_, ?_, ?_, rfl, heq, fun h => ?_, fun w hw => Or.inl hw⟩
      · rw [recvLoop, hstable.eq, if_neg hmore]
      · rw [heq, Nat.sub_self, List.take_zero, blit_nil]
      · rw [heq, Nat.sub_self, List.drop_zero]
      · rcases h with h | h
        · exact h
        · omega

/-- The loop when the stream ends too early. -/
theorem recvLoop_short {fuel : ℕ} {s : RecvState} (hfuel : s.sock.bytes.length < fuel)
    (hstable : Stable bound buf s.l B s.mem) (hshort : s.sock.bytes.length < B - s.l) :
    ∃ s', recvLoop bound buf fuel s = some (s', false) ∧ s'.n = s.sock.fin ∧
      (∀ w ∈ s'.writes, w ∈ s.writes ∨ w.1 + w.2 ≤ B) := by
  induction fuel generalizing s with
  | zero => exact absurd hfuel (Nat.not_lt_zero _)
  | succ fuel ih =>
    by_cases hne : s.sock.bytes = []
    · refine ⟨{ s with n := s.sock.fin, writes := s.writes ++ [(s.l, B - s.l)] }, ?_, rfl,
        fun w hw => mem_writes (by omega) hw⟩
      rw [recvLoop, hstable.eq, if_pos (by omega)]
      dsimp only
      rw [s.sock.recv_of_bytes_nil hne]
      dsimp only
      rw [if_pos s.sock.fin_le]
    · obtain ⟨got, sock', hpos, hle, hbytes, hfin, hround⟩ :=
        recvLoop_round hstable (by omega) hne
      have hlen : s.sock.bytes.length = got.length + sock'.bytes.length := by
        rw [hbytes, List.length_append]
      obtain ⟨s', hrun, hn, hwrites⟩ := ih
        (s := ⟨blit s.mem (buf + s.l) got, sock', s.l + got.length, got.length,
          s.writes ++ [(s.l, B - s.l)]⟩) (by dsimp only; omega) (hstable.blit got)
        (by dsimp only; omega)
      refine ⟨s', (hround fuel).trans hrun, hn.trans hfin, fun w hw => ?_⟩
      rcases hwrites w hw with hw | hw
      · exact mem_writes (by omega) hw
      · exact Or.inr hw

end Loop
