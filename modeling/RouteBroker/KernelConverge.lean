/-
# The table of the kernel

What `obj_kernel_publish` is called with builds the table that was published.  The threads of
`RouteClients.lean` drive the route broker through its calls, one at most in a step
(`ClientWorld.Kept.moves_call`), so that the run they make is one of `RouteConverge.lean`; and
the kernel thread passes on what it is handed, in order, and once.

A call of `obj_kernel_publish` that fails is only counted.  So it is the attempts that build
the table, and as long as `client->errors` is 0, fewer than `2^64` calls having failed, that is
what the kernel has taken.

Main result: `kernel_converges`.
-/
import RouteBroker.RouteClients
import RouteBroker.RouteConverge

open Circleq Broker

variable {Addr Cl Topic Data Ptr : Type*} [DecidableEq Addr] [DecidableEq Cl]
  [DecidableEq Topic] [DecidableEq Ptr]

/-! ## The calls of the threads -/

/-- A call of a client, whose copy, if it makes one, succeeds. -/
def PtrCall.ByClient : PtrCall Addr Cl Ptr Data → Prop
  | .publish _ _ _ _ => False
  | .clientGetData dup _ => dup.isSome = true
  | _ => True

section Calls

variable {gen : Data → ℤ × Topic × Bool} {copy : Data → Data}
  {w w' : ClientWorld Addr Cl Topic Ptr Data} {c : Cl} {t u : ClientThread (Ptr × Data)}
  {dup : Option Ptr} {x : DataStep (Ptr × Data)}

/-- **A step of a thread is one call of the route broker, or none.** -/
theorem ClientWorld.Kept.moves_call (h : w.Kept gen) (ht : w.thread c = some t)
    (hdup : dup.all (fun p => (w.ptr.broker.pool.live p).isNone) = true)
    (hsome : ∀ got, x = .getData got → dup.isSome = true)
    {cs : List (DataCall (Ptr × Data))} (hmoves : Moves t u x cs) :
    cs.foldl (PtrWorld.perform copy c t.name dup) w.ptr = w.ptr ∨
    ∃ y, y.ByClient ∧ w.ptr.call gen copy y
      = some (cs.foldl (PtrWorld.perform copy c t.name dup) w.ptr) := by
  have hclient : c ∈ w.ptr.broker.rb.clientList ↔ t.isClient = true :=
    (h.client c).trans (kept_at ht _)
  cases hmoves with
  | silent hsilent _ _ _ => exact Or.inl (perform_silent _ hsilent _)
  | create _ hc _ _ _ _ =>
    refine Or.inr ⟨.clientCreate c t.name, trivial, if_neg ?_⟩
    rw [hclient, hc]
    exact Bool.false_ne_true
  | getData hx hc _ _ _ =>
    exact Or.inr ⟨.clientGetData dup c, hsome _ hx, if_pos ⟨hclient.mpr hc, hdup⟩⟩
  | @freeData obj y hsilent _ _ ha _ _ =>
    have hholds : w.ptr.holder obj.1 = some (c, obj.2) :=
      ((h.holds obj.1 c obj.2).trans (kept_at ht _)).mpr ha
    have hy : [y].foldl (PtrWorld.perform copy c t.name dup) w.ptr = w.ptr :=
      perform_silent t.name (by simpa using hsilent) w.ptr
    refine Or.inr ⟨.clientFreeData c obj.1, trivial, ?_⟩
    refine (if_pos ?_).trans (congrArg (fun v => some (PtrWorld.clientFreeData v obj.1)) hy.symm)
    rw [hholds]
    exact decide_eq_true rfl
  | delete hc _ _ _ _ =>
    exact Or.inr ⟨.clientDelete c, trivial, if_pos (hclient.mpr hc)⟩

theorem ClientWorld.Kept.run_call (h : w.Kept gen)
    (hdup : dup.all (fun p => (w.ptr.broker.pool.live p).isNone) = true)
    (hsome : ∀ got, x = .getData got → dup.isSome = true)
    (hrun : w.run copy c dup x = some w') : w'.ptr = w.ptr ∨
    ∃ y, y.ByClient ∧ w.ptr.call gen copy y = some w'.ptr := by
  obtain ⟨t, ht, hrun⟩ := Option.bind_eq_some_iff.mp hrun
  obtain ⟨u, hu, rfl⟩ := Option.map_eq_some_iff.mp hrun
  obtain ⟨-, cs, hcalls, hmoves⟩ := ClientThread.step_moves (h.inv c t ht) hu
  rw [hcalls, List.drop_left]
  exact h.moves_call ht hdup hsome hmoves

end Calls

/-! ## The runs of the threads -/

/-- The copies that the step makes succeed, and it is no delete that overtakes. -/
def ClientWorld.Calm (gen : Data → ℤ × Topic × Bool) (w : ClientWorld Addr Cl Topic Ptr Data) :
    ClientAct Addr Cl Ptr Data → Prop
  | .publish a dup obj pri =>
    dup.isSome = true ∧ ¬ w.ptr.read.DeleteOvertakes gen id (.publish a obj pri)
  | .getData _ dup => dup.isSome = true
  | _ => True

instance (gen : Data → ℤ × Topic × Bool) (w : ClientWorld Addr Cl Topic Ptr Data)
    (y : ClientAct Addr Cl Ptr Data) : Decidable (w.Calm gen y) :=
  match y with
  | .publish a dup obj pri => inferInstanceAs (Decidable (dup.isSome = true ∧
      ¬ w.ptr.read.DeleteOvertakes gen id (.publish a obj pri)))
  | .getData _ dup => inferInstanceAs (Decidable (dup.isSome = true))
  | .spawn _ _ | .arrive _ _ | .attempt _ _ | .next _ => isTrue trivial

section Converge

variable {gen : Data → ℤ × Topic × Bool} {v v' : PtrWorld Addr Cl Topic Ptr Data}
  {w w' : ClientWorld Addr Cl Topic Ptr Data}

/-- One call with pointers, read as a call with data. -/
theorem Converging.ptrCall (h : Converging gen v.read) (hown : v.Owned gen)
    {y : PtrCall Addr Cl Ptr Data} (hy : v.call gen id y = some v')
    (hsteps : ∀ z ∈ y.steps, ∃ x, z = .call x ∧ ¬ v.read.DeleteOvertakes gen id x) :
    Converging gen v'.read := by
  have hexec := (ptrStep_steps hown hy).2
  cases hlist : y.steps with
  | nil =>
    rw [hlist, System.exec_nil, Option.some.injEq] at hexec
    rw [← hexec]
    exact h
  | cons z zs =>
    have hone : zs = [] := by
      cases y with
      | publish a dup obj pri => cases dup <;> cases hlist <;> rfl
      | clientGetData dup c => cases dup <;> cases hlist <;> rfl
      | clientCreate c name => cases hlist; rfl
      | clientDelete c => cases hlist; rfl
      | clientFreeData c p => cases hlist
    rw [hlist] at hsteps
    obtain ⟨x, rfl, hover⟩ := hsteps z List.mem_cons_self
    rw [hlist, hone] at hexec
    obtain ⟨r, hr, hend⟩ := (System.exec_cons_eq_some _).mp hexec
    rw [System.exec_nil, Option.some.injEq] at hend
    rw [← hend]
    exact h.step hover hr

omit [DecidableEq Addr] [DecidableEq Cl] [DecidableEq Topic] [DecidableEq Ptr] in
/-- A call of a client is no delete. -/
theorem steps_byClient {y : PtrCall Addr Cl Ptr Data} (hy : y.ByClient) :
    ∀ z ∈ y.steps, ∃ x, z = .call x ∧ ¬ v.read.DeleteOvertakes gen id x := by
  intro z hz
  cases y with
  | publish a dup obj pri => exact absurd hy id
  | clientCreate c name =>
    exact ⟨_, List.mem_singleton.mp hz, fun h => h⟩
  | clientDelete c =>
    exact ⟨_, List.mem_singleton.mp hz, fun h => h⟩
  | clientGetData dup c =>
    obtain ⟨p, rfl⟩ := Option.isSome_iff_exists.mp hy
    exact ⟨_, List.mem_singleton.mp hz, fun h => h⟩
  | clientFreeData c q => exact absurd hz List.not_mem_nil

/-- What holds along the runs whose steps are calm. -/
structure ClientWorld.Converges (gen : Data → ℤ × Topic × Bool)
    (w : ClientWorld Addr Cl Topic Ptr Data) : Prop where
  kept : w.Kept gen
  converging : Converging gen w.ptr.read

theorem ClientWorld.Converges.step (h : w.Converges gen) {y : ClientAct Addr Cl Ptr Data}
    (hcalm : w.Calm gen y) (hstep : w.step gen id y = some w') : w'.Converges gen := by
  refine ⟨h.kept.step hstep, ?_⟩
  -- a thread makes one call at most
  have hrun : ∀ {c : Cl} {dup : Option Ptr} {x : DataStep (Ptr × Data)},
      dup.all (fun p => (w.ptr.broker.pool.live p).isNone) = true →
      (∀ got, x = .getData got → dup.isSome = true) → w.run id c dup x = some w' →
      Converging gen w'.ptr.read := by
    intro c dup x hdup hsome hrun
    rcases h.kept.run_call hdup hsome hrun with hsame | ⟨z, hz, hcall⟩
    · rw [hsame]
      exact h.converging
    · exact h.converging.ptrCall h.kept.owned hcall (steps_byClient hz)
  cases y with
  | publish a dup obj pri =>
    obtain ⟨v, hv, rfl⟩ := Option.map_eq_some_iff.mp hstep
    obtain ⟨hsome, hover⟩ := hcalm
    obtain ⟨p, rfl⟩ := Option.isSome_iff_exists.mp hsome
    apply h.converging.ptrCall h.kept.owned hv
    intro z hz
    exact ⟨_, List.mem_singleton.mp hz, hover⟩
  | spawn c kernel =>
    simp only [ClientWorld.step, Option.ite_none_right_eq_some, Option.some.injEq] at hstep
    obtain ⟨-, rfl⟩ := hstep
    exact h.converging
  | getData c dup =>
    simp only [ClientWorld.step, Option.ite_none_right_eq_some] at hstep
    exact hrun hstep.1 (fun _ _ => hcalm) hstep.2
  | arrive c msg =>
    have hnone : w.run id c none (.arrive msg) = some w' := hstep
    exact hrun rfl (fun _ hx => by cases hx) hnone
  | attempt c r =>
    have hnone : w.run id c none (.publish r) = some w' := hstep
    exact hrun rfl (fun _ hx => by cases hx) hnone
  | next c =>
    have hnone : w.run id c none .next = some w' := hstep
    exact hrun rfl (fun _ hx => by cases hx) hnone

omit [DecidableEq Ptr] in
/-- What a thread was handed builds the table, but for what is pending. -/
theorem ClientWorld.Converges.consumed (h : w.Converges gen)
    (hw : ∀ i, (w.ptr.broker.rb.level i).increments < 2 ^ 64) {c : Cl}
    {t : ClientThread (Ptr × Data)} (ht : w.thread c = some t) (hclient : t.isClient = true)
    {topic : Topic} (htopic : topic ∉ w.ptr.read.rb.pendingTopics c) :
    tableOf gen ((DataThread.consumed t.calls).map Prod.snd) topic = w.ptr.read.table gen topic := by
  have hsync := (h.converging.synced hw).2
  have hmem : c ∈ w.ptr.broker.rb.clientList := (h.kept.client c).mpr ⟨t, ht, hclient⟩
  rw [← h.kept.received c t ht hclient]
  exact hsync c hmem topic htopic

end Converge

/-! ## What the kernel is told -/

section Attempts

open DataThread

/-- What is counted in a `uint64_t` and differs by less than `2^64` is the same: the kernel has
taken everything. -/
theorem sent_eq_attempts {calls : List (DataCall Data)}
    (h : UInt64.ofNat (sent calls).length = UInt64.ofNat (attempts calls).length)
    (hlt : (attempts calls).length < (sent calls).length + 2 ^ 64) :
    sent calls = attempts calls := by
  have hsub : ∀ calls : List (DataCall Data), (sent calls).Sublist (attempts calls) := by
    intro calls
    induction calls with
    | nil => exact List.Sublist.slnil
    | cons x xs ih =>
      cases x with
      | publish obj r =>
        cases r with
        | ok => exact ih.cons_cons obj
        | again | error => exact ih.cons obj
      | _ => exact ih
  have hle := (hsub calls).length_le
  have hmod := congrArg UInt64.toNat h
  rw [UInt64.toNat_ofNat', UInt64.toNat_ofNat'] at hmod
  exact (hsub calls).eq_of_length (by omega)

/-- The object at hand makes no difference to the other topics. -/
theorem tableOf_atHand {gen : Data → ℤ × Topic × Bool} {ms : List Data} {hand : Option Data}
    {topic : Topic} (h : ∀ d, hand = some d → (gen d).2.1 ≠ topic) :
    tableOf gen (ms ++ hand.toList) topic = tableOf gen ms topic := by
  cases hand with
  | none => rw [Option.toList_none, List.append_nil]
  | some d =>
    rw [Option.toList_some, tableOf_concat, Function.update_of_ne]
    exact Ne.symm (h d rfl)

end Attempts

/-- **The table of the kernel.**  Kernel threads and data threads run over the route broker in
any order, with any results of `obj_kernel_publish` and of the sends, while messages are
published and threads come and go, as long as copies succeed, no delete overtakes and no id is
counted up `2^64` times.  Then for every topic that is neither pending for the kernel thread nor the
one of the object it is about to pass on, what `obj_kernel_publish` was called with makes the
entry that all published messages make; and while `client->errors` is 0, and has not come back
to 0, that is what it has accepted. -/
theorem kernel_converges {gen : Data → ℤ × Topic × Bool} {ys : List (ClientAct Addr Cl Ptr Data)}
    {w : ClientWorld Addr Cl Topic Ptr Data}
    (hexec : (clientSystem Addr Cl Ptr gen id).exec .start ys = some w)
    (hcalm : (clientSystem Addr Cl Ptr gen id).Guarded (fun w y => w.Calm gen y) .start ys)
    (hw : ∀ i, (w.ptr.broker.rb.level i).increments < 2 ^ 64) {c : Cl}
    {t : KernelThread (Ptr × Data)} (ht : w.thread c = some (.kernel t)) (hpc : t.pc ≠ .start)
    {topic : Topic} (hpending : topic ∉ w.ptr.read.rb.pendingTopics c)
    (hhand : ∀ obj, KernelThread.atHand t.pc = some obj → (gen obj.2).2.1 ≠ topic) :
    tableOf gen ((DataThread.attempts t.calls).map Prod.snd) topic
        = tableOf gen (w.ptr.published.filter fun d => 0 < (gen d).1) topic ∧
      (t.errors = 0 → (DataThread.attempts t.calls).length
          < (DataThread.sent t.calls).length + 2 ^ 64 →
        DataThread.sent t.calls = DataThread.attempts t.calls) := by
  have hconv : w.Converges gen :=
    System.exec_guarded_induction (P := fun w => w.Converges gen)
      (fun _ _ _ h hG hstep => h.step hG hstep) hexec hcalm ⟨kept_start gen, converging_start⟩
  have hinv : t.Inv := hconv.kept.inv c _ ht
  have hclient : (ClientThread.kernel t).isClient = true := by
    cases hk : t.pc <;> first | exact absurd hk hpc | simp [ClientThread.isClient, hk]
  have htable : tableOf gen ((DataThread.consumed t.calls).map Prod.snd) topic
      = tableOf gen (w.ptr.published.filter fun d => 0 < (gen d).1) topic :=
    hconv.consumed hw ht hclient hpending
  constructor
  · have hmap : (KernelThread.atHand t.pc).toList.map Prod.snd
        = ((KernelThread.atHand t.pc).map Prod.snd).toList := by
      cases KernelThread.atHand t.pc with
      | none => rfl
      | some obj => rfl
    rw [← hinv.passed, List.map_append, hmap, tableOf_atHand] at htable
    · exact htable
    · intro d hd
      obtain ⟨obj, hobj, rfl⟩ := Option.map_eq_some_iff.mp hd
      exact hhand obj hobj
  · intro herrors hfewer
    have hcounted := hinv.counted
    rw [herrors, UInt64.zero_add] at hcounted
    exact sent_eq_attempts hcounted hfewer

/-- A run of a kernel thread and a data thread: of the first two messages the kernel is
told the second one only, the third deletes the route. -/
def kernelActs : List (ClientAct ℕ ℕ ℕ (ℕ × ℕ × Bool)) :=
  [.spawn 0 true, .spawn 1 false, .next 0, .next 1, .publish 100 (some 1) (7, 1, false) 1,
    .publish 101 (some 2) (7, 2, false) 1, .getData 0 (some 3), .attempt 0 .ok,
    .publish 102 (some 4) (7, 3, true) 1, .publish 103 (some 5) (8, 1, false) 2,
    .getData 0 (some 6), .attempt 0 .ok, .getData 0 (some 7), .attempt 0 .ok]

/-- The thread of a client, if it is a kernel thread. -/
def ClientThread.asKernel {Data : Type*} : ClientThread Data → Option (KernelThread Data)
  | .dp _ => none
  | .kernel t => some t

/-- The theorem at the end of this run. -/
theorem kernel_converges_drained :
    ∃ w t, (clientSystem ℕ ℕ ℕ plainGen id).exec .start kernelActs = some w ∧
      w.thread 0 = some (.kernel t) ∧
      (DataThread.sent t.calls).map Prod.snd = [(7, 2, false), (7, 3, true), (8, 1, false)] ∧
      ∀ topic, tableOf plainGen ((DataThread.sent t.calls).map Prod.snd) topic
        = tableOf plainGen (w.ptr.published.filter fun d => 0 < (plainGen d).1) topic := by
  obtain ⟨w, hexec, hp⟩ := (clientSystem ℕ ℕ ℕ plainGen id).exists_of_exec_any .start kernelActs
    (fun w => decide ((∀ i, (w.ptr.broker.rb.level i).increments < 2 ^ 64) ∧
      ∀ i, brokerGetNextDataObj (w.ptr.broker.rb.level i) (.client 0) = none) &&
      ((w.thread 0).bind ClientThread.asKernel).any fun t : KernelThread (ℕ × ℕ × ℕ × Bool) =>
        decide (t.pc = .polling ∧ t.errors = 0 ∧ (DataThread.attempts t.calls).length
          < (DataThread.sent t.calls).length + 2 ^ 64 ∧ (DataThread.sent t.calls).map Prod.snd
          = [(7, 2, false), (7, 3, true), (8, 1, false)])) (by decide +kernel)
  rw [Bool.and_eq_true, decide_eq_true_eq] at hp
  obtain ⟨⟨hw, hnext⟩, ht⟩ := hp
  obtain ⟨t, hbind, ht⟩ := (Option.any_eq_true _ _).mp ht
  obtain ⟨hpc, herrors, hfewer, hsent⟩ := of_decide_eq_true ht
  have hthread : w.thread 0 = some (.kernel t) := by
    obtain ⟨s, hs, hkernel⟩ := Option.bind_eq_some_iff.mp hbind
    rw [hs]
    cases s with
    | dp s => cases hkernel
    | kernel s => rw [Option.some.inj hkernel]
  have hkept : w.Kept plainGen :=
    (clientSystem ℕ ℕ ℕ plainGen id).exec_induction (P := fun w => w.Kept plainGen)
      (fun _ _ _ hw hstep => hw.step hstep) hexec (kept_start plainGen)
  have hs := hkept.owned.consistent.sound
  have hpending : w.ptr.read.rb.pendingTopics 0 = ∅ :=
    pendingTopics_eq_empty fun i a => (getNextDataObj_eq_none (hs.linked i)).mp (hnext i) a
  refine ⟨w, t, hexec, hthread, hsent, fun topic => ?_⟩
  have hnotin : topic ∉ w.ptr.read.rb.pendingTopics 0 := by
    rw [hpending]
    exact Set.notMem_empty topic
  have hall := kernel_converges hexec (by decide +kernel) hw hthread
    (fun h => by rw [hpc] at h; cases h) hnotin (fun obj h => by rw [hpc] at h; cases h)
  rw [hall.2 herrors hfewer]
  exact hall.1
