/-
# The socket of a data thread

`broker_dp_data_init` of `route_broker_dp_data.c` binds the socket of a data thread and
fixes the permissions of a Unix domain socket and, when the endpoint was a wildcard, of the
temporary directory that the library has made for it.  The name of the directory is made in
the local array `ep_dir`: the path is copied there with `memcpy`, without the NUL behind
it, and is then cut off at its last slash, which `strrchr` looks for.

The array starts at the address 0 of a memory that holds whatever is on the stack.  What
is found there behind the path decides about the result: `chmod_socket_dir_iff`.
-/
import RouteBroker.CString

/-- `PATH_MAX` -/
def pathMax : ℕ := 4096

/-- `'/'` -/
def slash : UInt8 := 47

/-- `"ipc://"` -/
def ipcPrefix : List UInt8 := ascii ['i', 'p', 'c', ':', '/', '/']

/-- `"ipc://*"` -/
def ipcWildcard : List UInt8 := ascii ['i', 'p', 'c', ':', '/', '/', '*']

/-- What `broker_dp_data_init` has done. -/
structure DpDataInit where
  /-- the paths passed to `chmod`, in order -/
  chmods : List (List UInt8)
  /-- the endpoint it returns; none if an assertion fails -/
  ep : Option (List UInt8)
  deriving DecidableEq

/-- The string in `ep_dir` after `memcpy` and `*strrchr(ep_dir, '/') = '\0'`; none when
there are rounds to go, or without a slash. -/
def epDirOf (fuel : ℕ) (stack : Mem) (path : List UInt8) : Option (List UInt8) :=
  let epDir := blit stack 0 path
  match (strrchr slash fuel 0).run epDir with
  | some (some p) => (cstring fuel 0).run (Function.update epDir p 0)
  | _ => none

/-- `broker_dp_data_init`, for a socket that is bound to `sock_ep` and whose last endpoint is
`actual_ep`; `chmod` says for which paths the call succeeds. -/
def brokerDpDataInit (fuel : ℕ) (chmod : List UInt8 → Bool) (stack : Mem)
    (sockEp actualEp : List UInt8) : Option DpDataInit :=
  if actualEp.take 6 = ipcPrefix then
    -- skip over ipc://
    let path := actualEp.drop 6
    if chmod path then
      if sockEp = ipcWildcard ∧ slash ∈ path then
        (epDirOf fuel stack path).map fun dir =>
          { chmods := [path, dir], ep := if chmod dir then some actualEp else none }
      else some { chmods := [path], ep := some actualEp }
    else some { chmods := [path], ep := none }
  else some { chmods := [], ep := some actualEp }

/-! ## The directory -/

/-- The search for the slash stays inside of `ep_dir`. -/
def SearchInside (stack : Mem) (path : List UInt8) : Prop :=
  ∀ fuel, Reader.Within (blit stack 0 path) pathMax (strrchr slash fuel 0)

/-- The call comes to an end, and the path it passes to the second `chmod` is `dir`. -/
def SecondChmod (chmod : List UInt8 → Bool) (stack : Mem) (sockEp actualEp dir : List UInt8) :
    Prop :=
  ∃ n, ∀ fuel, n < fuel → ∃ r, brokerDpDataInit fuel chmod stack sockEp actualEp = some r ∧
    r.chmods[1]? = some dir

/-- Behind the path there is a NUL in the array, and no slash before it. -/
def EndsCleanly (stack : Mem) (path : List UInt8) : Prop :=
  ∃ k, path.length ≤ k ∧ k < pathMax ∧ stack k = 0 ∧
    ∀ j, path.length ≤ j → j < k → stack j ≠ slash

section Directory

variable {stack : Mem} {path dir base rest : List UInt8}

/-- What lies in `ep_dir` is the path with what was on the stack behind it. -/
theorem isString_epDir (hpath : (0 : UInt8) ∉ path) {k : ℕ} (hk : path.length ≤ k)
    (h0 : stack k = 0) : ∃ n, path.length + n ≤ k ∧
      IsString (blit stack 0 path) 0 (path ++ slice stack path.length n) := by
  obtain ⟨n, hn, hs⟩ := exists_isString hk h0
  refine ⟨n, hn, IsString.blit ?_ hpath⟩
  rw [Nat.zero_add]
  exact hs

/-- The string is cut off at the last slash in the array, be it in the path or behind it. -/
theorem epDirOf_eq (h : IsString (blit stack 0 path) 0 (dir ++ slash :: rest))
    (hrest : slash ∉ rest) {fuel : ℕ} (hfuel : (dir ++ slash :: rest).length < fuel) :
    epDirOf fuel stack path = some dir := by
  have hdir : dir.length < fuel := by
    rw [List.length_append] at hfuel
    omega
  unfold epDirOf
  simp only [run_strrchr h hrest hfuel]
  exact run_cstring h.cut hdir

theorem searchInside_iff : SearchInside stack path ↔
    ∃ k, k < pathMax ∧ blit stack 0 path k = 0 := by
  rw [SearchInside, within_strrchr_iff (Nat.zero_le _)]
  simp only [Nat.zero_le, true_and]

/-- A NUL in the array can only lie behind the path. -/
theorem nul_behind (hpath : (0 : UInt8) ∉ path) {k : ℕ} (h0 : blit stack 0 path k = 0) :
    path.length ≤ k ∧ stack k = 0 := by
  have hk : path.length ≤ k := by
    by_contra hlt
    rw [not_le] at hlt
    apply hpath
    have hget := blit_of_mem stack 0 hlt
    rw [Nat.zero_add, h0, memOf, List.getD_eq_getElem _ _ hlt] at hget
    exact hget ▸ List.getElem_mem hlt
  rw [blit_of_ge stack (by omega)] at h0
  exact ⟨hk, h0⟩

end Directory

/-- The second `chmod` of a call for a wildcard endpoint. -/
theorem brokerDpDataInit_wildcard {chmod : List UInt8 → Bool} {path : List UInt8}
    (hchmod : chmod path = true) (hslash : slash ∈ path) (fuel : ℕ) (stack : Mem) :
    brokerDpDataInit fuel chmod stack ipcWildcard (ipcPrefix ++ path)
      = (epDirOf fuel stack path).map fun dir =>
        { chmods := [path, dir]
          ep := if chmod dir then some (ipcPrefix ++ path) else none } := by
  have htake : (ipcPrefix ++ path).take 6 = ipcPrefix := List.take_left' rfl
  have hdrop : (ipcPrefix ++ path).drop 6 = path := List.drop_left' rfl
  unfold brokerDpDataInit
  rw [if_pos htake, hdrop]
  dsimp only
  rw [if_pos hchmod, if_pos ⟨rfl, hslash⟩]

section SecondChmod

variable {chmod : List UInt8 → Bool} {stack : Mem} {dir base : List UInt8}

/-- The path passed to the second `chmod` is what stands before the last slash in the array. -/
theorem secondChmod_iff {path found rest : List UInt8} (hchmod : chmod path = true)
    (hslash : slash ∈ path) (h : IsString (blit stack 0 path) 0 (found ++ slash :: rest))
    (hrest : slash ∉ rest) :
    SecondChmod chmod stack ipcWildcard (ipcPrefix ++ path) dir ↔ dir = found := by
  have hcall : ∀ fuel, (found ++ slash :: rest).length < fuel →
      brokerDpDataInit fuel chmod stack ipcWildcard (ipcPrefix ++ path) = some
        { chmods := [path, found]
          ep := if chmod found then some (ipcPrefix ++ path) else none } := by
    intro fuel hfuel
    rw [brokerDpDataInit_wildcard hchmod hslash, epDirOf_eq h hrest hfuel]
    rfl
  constructor
  · rintro ⟨n, hn⟩
    obtain ⟨r, hr, hdir⟩ := hn (max n (found ++ slash :: rest).length + 1) (by omega)
    rw [hcall _ (by omega)] at hr
    rw [← Option.some.inj hr] at hdir
    exact (Option.some.inj hdir).symm
  · rintro rfl
    exact ⟨_, fun fuel hfuel => ⟨_, hcall fuel hfuel, rfl⟩⟩

/-- **The directory of the socket.**  Take a socket that was bound to `ipc://*` at the path
`dir/base`, `base` being without a slash.  Whatever is on the stack: the search for the last
slash stays inside of `ep_dir` and the second `chmod` is one of `dir` if and only if the
bytes that happen to lie behind the path end in a NUL inside of the array and have no slash
before it. -/
theorem chmod_socket_dir_iff (hpath : (0 : UInt8) ∉ dir ++ slash :: base) (hbase : slash ∉ base)
    (hchmod : chmod (dir ++ slash :: base) = true) :
    (SearchInside stack (dir ++ slash :: base) ∧
      SecondChmod chmod stack ipcWildcard (ipcPrefix ++ (dir ++ slash :: base)) dir) ↔
    EndsCleanly stack (dir ++ slash :: base) := by
  have hslash : slash ∈ dir ++ slash :: base := List.mem_append_right dir List.mem_cons_self
  constructor
  · rintro ⟨hinside, hsecond⟩
    obtain ⟨k, hk, h0⟩ := searchInside_iff.mp hinside
    obtain ⟨hle, h0⟩ := nul_behind hpath h0
    obtain ⟨n, hn, hs⟩ := isString_epDir hpath hle h0
    have hclean : slash ∉ slice stack (dir ++ slash :: base).length n := by
      intro hmem
      obtain ⟨u, v, huv, hv⟩ := exists_last hmem
      rw [huv, ← List.append_assoc] at hs
      -- the slash behind the path is the one that is found
      have hdir := congrArg List.length ((secondChmod_iff hchmod hslash hs hv).mp hsecond)
      simp only [List.length_append, List.length_cons] at hdir
      omega
    refine ⟨(dir ++ slash :: base).length + n, by omega, by omega, ?_, ?_⟩
    · have hnul := hs.nul
      rw [List.length_append, length_slice, Nat.zero_add, blit_of_ge _ (by omega)] at hnul
      exact hnul
    · intro j hj hjn he
      apply hclean
      obtain ⟨i, rfl⟩ := Nat.exists_eq_add_of_le hj
      have hmem : stack ((dir ++ slash :: base).length + i)
          ∈ slice stack (dir ++ slash :: base).length n :=
        List.mem_map_of_mem (List.mem_range.mpr (by omega))
      rw [he] at hmem
      exact hmem
  · rintro ⟨k, hle, hk, h0, hclean⟩
    obtain ⟨n, hn, hs⟩ := isString_epDir hpath hle h0
    refine ⟨searchInside_iff.mpr ⟨k, hk, ?_⟩, ?_⟩
    · rw [blit_of_ge stack (by omega)]
      exact h0
    · rw [List.append_assoc, List.cons_append] at hs
      refine (secondChmod_iff hchmod hslash hs ?_).mpr rfl
      intro hmem
      rcases List.mem_append.mp hmem with hmem | hmem
      · exact hbase hmem
      · obtain ⟨j, hj, he⟩ := mem_slice hmem
        exact hclean _ (Nat.le_add_right _ j) (by omega) he

end SecondChmod

/-- `/tmp/Dx` -/
def tmpDir : List UInt8 := ascii ['/', 't', 'm', 'p', '/', 'D', 'x']

/-- `/tmp/Dx/0`, of the form in which the library names the sockets that it makes up. -/
def tmpSocket : List UInt8 := tmpDir ++ slash :: ascii ['0']

/-- The theorem on a stack that holds zeros. -/
theorem chmod_socket_dir_zeros :
    SearchInside (fun _ => 0) tmpSocket ∧
      SecondChmod (fun _ => true) (fun _ => 0) ipcWildcard (ipcPrefix ++ tmpSocket) tmpDir :=
  (chmod_socket_dir_iff (by decide) (by decide) rfl).mpr
    ⟨9, by decide, by decide, rfl, fun _ _ _ => (by decide : (0 : UInt8) ≠ slash)⟩

/-- A stack on which a slash and a NUL lie behind the path. -/
def usedStack : Mem := fun i => if i = tmpSocket.length then slash else 0

/-- With the slash on the stack the second `chmod` is one of the socket itself. -/
theorem chmod_misses_dir :
    SecondChmod (fun _ => true) usedStack ipcWildcard (ipcPrefix ++ tmpSocket) tmpSocket ∧
      ¬ (SearchInside usedStack tmpSocket ∧
        SecondChmod (fun _ => true) usedStack ipcWildcard (ipcPrefix ++ tmpSocket) tmpDir) := by
  have hs : IsString (blit usedStack 0 tmpSocket) 0 (tmpSocket ++ slash :: []) :=
    ⟨by decide, by decide, by decide⟩
  have hiff : ∀ dir, SecondChmod (fun _ => true) usedStack ipcWildcard (ipcPrefix ++ tmpSocket) dir
      ↔ dir = tmpSocket :=
    fun _ => secondChmod_iff rfl (by decide) hs List.not_mem_nil
  refine ⟨(hiff tmpSocket).mpr rfl, ?_⟩
  rintro ⟨-, hsecond⟩
  exact absurd ((hiff tmpDir).mp hsecond) (by decide)
