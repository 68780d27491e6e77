/-
# Wake-ups

A consumer that finds nothing gives the mutex up and blocks on the condition of its client
until it is signalled, until the wait times out, or for no reason.  `Wakeups` adds to the
threads of `RouteThreads.lean` which blocked clients have been signalled since they
blocked.  A publisher signals the clients for which `data_available_for_client` finds a
level, before it gives the mutex up.

* What a consumer does leaves the ids that another one looks at as they are (`Apart`), so
  that a client that has nothing to read still has nothing to read.
* As long as no level has counted up its id `2^64` times, equal ids mean that nothing is
  pending (`threads_ordered`).

Main result: `no_lost_wakeup`.
-/
import RouteBroker.RouteThreads
import RouteBroker.RouteOrder

open Circleq Broker

variable {Addr Cl Topic Data : Type*} [DecidableEq Addr] [DecidableEq Cl] [DecidableEq Topic]

/-! ## What one consumer does to the levels -/

/-- The consumer that makes a step, if it is not a publisher's. -/
def ThreadStep.consumer : ThreadStep Addr Cl Data → Option Cl
  | .publishPrepare _ _ _ | .publishLocked _ => none
  | .allocate c | .createLocked c _ _ | .condInit c _ | .link c | .createFailed c | .getData c
  | .timedOut c | .deleteLocked c | .unlink c | .free c => some c

section Apart

variable {gen : Data → ℤ × Topic × Bool} {c : Cl} {rb rb' : RouteBroker Addr Cl Topic Data}

omit [DecidableEq Addr] [DecidableEq Cl] [DecidableEq Topic] in
/-- From `rb` to `rb'` no route was stored, no id was counted up, and in the levels nothing
happened to the clients other than `c`. -/
structure Apart (gen : Data → ℤ × Topic × Bool) (c : Cl) (rb rb' : RouteBroker Addr Cl Topic Data) :
    Prop where
  sound : Sound gen rb'
  heap : ∀ a, rb.store.heap a = none → rb'.store.heap a = none
  order : KeepsOrder rb rb'
  id : ∀ i, (rb'.level i).id = (rb.level i).id
  clients : ∀ i e, e ≠ c → (e ∈ (rb'.level i).clientList ↔ e ∈ (rb.level i).clientList)
  cursor : ∀ i e, e ≠ c → (rb'.level i).bobj (.client e) = (rb.level i).bobj (.client e)

omit [DecidableEq Addr] [DecidableEq Cl] [DecidableEq Topic] in
theorem apart_of_eq (hs : Sound gen rb) (hlevel : rb'.level = rb.level)
    (hstore : rb'.store = rb.store) (c : Cl) : Apart gen c rb rb' where
  sound := hs.of_eq hstore hlevel
  heap := by
    rw [hstore]
    exact fun _ h => h
  order := keepsOrder_of_level_eq hlevel
  id := fun i => by rw [hlevel]
  clients := fun i e _ => by rw [hlevel]
  cursor := fun i e _ => by rw [hlevel]

/-- What `broker_client_create` makes of a level, if it fails or not. -/
theorem clientCreate_cases (b : Broker Addr Cl) (c : Cl) (ok : Bool) (strdup : Option String) :
    brokerClientCreate b (if ok then some c else none) strdup = (none, b) ∨
      ∃ name, brokerClientCreate b (if ok then some c else none) strdup =
        brokerClientCreate b (some c) (some name) := by
  cases ok with
  | false => exact .inl rfl
  | true =>
    cases strdup with
    | none => exact .inl rfl
    | some name => exact .inr ⟨name, rfl⟩

omit [DecidableEq Topic] in
theorem apart_createLocked (hs : Sound gen rb) (hnew : ∀ i, c ∉ (rb.level i).clientList)
    (calloc : Level → Bool) (strdup : Level → Option String) : Apart gen c rb
      (rb.clientCreateLocked c (fun i => if calloc i then some c else none) strdup) := by
  -- a level is either as it was or has one client more
  have hcases : ∀ i, (rb.clientCreateLocked c (fun i => if calloc i then some c else none)
      strdup).level i = rb.level i ∨ ∃ name, (rb.clientCreateLocked c
        (fun i => if calloc i then some c else none) strdup).level i =
          (brokerClientCreate (rb.level i) (some c) (some name)).2 := by
    intro i
    rcases clientCreate_cases (rb.level i) c (calloc i) (strdup i) with h | ⟨name, h⟩
    · exact .inl (congrArg Prod.snd h)
    · exact .inr ⟨name, congrArg Prod.snd h⟩
  constructor
  · refine hs.relevel rfl (fun i => ?_) (fun i a => ?_)
    · rcases hcases i with h | ⟨name, h⟩
      · rw [h]
        exact hs.linked i
      · rw [h]
        exact (hs.linked i).clientCreate (hnew i) name
    · rcases hcases i with h | ⟨name, h⟩
      · rw [h]
      · rw [h]
        exact listed_clientCreate (rb.level i) c name a
  · exact fun _ h => h
  · intro i
    rcases hcases i with h | ⟨name, h⟩
    · rw [h]
      exact ⟨le_refl _, fun _ hb => hb⟩
    · rw [h, clientCreate_increments]
      exact ⟨le_refl _, fun _ hb => hb.clientCreate (hnew i) name⟩
  · intro i
    rcases hcases i with h | ⟨name, h⟩
    · rw [h]
    · rw [h, clientCreate_id]
  · intro i e hne
    rcases hcases i with h | ⟨name, h⟩
    · rw [h]
    · rw [h, clientCreate_clientList, List.mem_cons]
      exact or_iff_right hne
  · intro i e hne
    rcases hcases i with h | ⟨name, h⟩
    · rw [h]
    · rw [h]
      exact clientCreate_bobj_of_ne (rb.level i) c name fun heq => hne (Ref.client.inj heq)

/-- A level after `broker_client_delete`, if the client had a `broker_client` there. -/
theorem clientDeleteLevels_cases (hs : Sound gen rb)
    (hname : ∀ i k, (rb.rclient c).client i = some k → k = c) (i : Level) :
    ((rb.rclient c).client i = none ∧ (rb.clientDeleteLevels c).level i = rb.level i) ∨
      (rb.clientDeleteLevels c).level i =
        (brokerClientDelete routeBrokerOps (rb.level i) rb.store c).1 := by
  have h := (foldl_clientDeleteLevel hs hname (List.nodup_finRange routePriorityMax)).2.2 i
  by_cases hnone : (rb.rclient c).client i = none
  · rw [if_neg fun hi => hi.2 hnone] at h
    exact .inl ⟨hnone, h⟩
  · rw [if_pos ⟨List.mem_finRange i, hnone⟩] at h
    exact .inr h

theorem apart_deleteLevels (hs : Sound gen rb)
    (hname : ∀ i k, (rb.rclient c).client i = some k → k = c) :
    Apart gen c rb (rb.clientDeleteLevels c) := by
  have htidy := tidy_clientDeleteLevels hs c
  have hcases := clientDeleteLevels_cases hs hname
  constructor
  · exact htidy.sound hs
  · exact fun _ ha => htidy.heap_none hs ha
  · intro i
    rcases hcases i with ⟨-, h⟩ | h
    · rw [h]
      exact ⟨le_refl _, fun _ hb => hb⟩
    · rw [h, clientDelete_increments routeBrokerOps (hs.linked i)]
      exact ⟨le_refl _, fun _ hb => hb.clientDelete routeBrokerOps rb.store c⟩
  · intro i
    rcases hcases i with ⟨-, h⟩ | h
    · rw [h]
    · rw [h, clientDelete_id routeBrokerOps (hs.linked i)]
  · intro i e hne
    rcases hcases i with ⟨-, h⟩ | h
    · rw [h]
    · rw [h, clientDelete_clientList, mem_remove (hs.linked i).clients_nodup]
      exact and_iff_right hne
  · intro i e hne
    rcases hcases i with ⟨-, h⟩ | h
    · rw [h]
    · rw [h, clientDelete_bobj routeBrokerOps (hs.linked i)]

theorem apart_getData (hs : Sound gen rb)
    (hname : ∀ i k, (rb.rclient c).client i = some k → k = c) (copyObj : Data → Option Data) :
    Apart gen c rb (rb.clientGetData copyObj c).2 := by
  have htidy := tidy_clientGetData hs copyObj c
  have hlevel : ∀ i, ((rb.clientGetData copyObj c).2.level i).id = (rb.level i).id ∧
      ((rb.clientGetData copyObj c).2.level i).clientList = (rb.level i).clientList ∧
      ∀ e, e ≠ c → ((rb.clientGetData copyObj c).2.level i).bobj (.client e)
        = (rb.level i).bobj (.client e) := by
    unfold RouteBroker.clientGetData
    cases rb.dataAvailableForClient c with
    | none => exact fun _ => ⟨rfl, rfl, fun _ _ => rfl⟩
    | some j =>
      refine forall_onLevel (P := fun i b => b.id = (rb.level i).id ∧
        b.clientList = (rb.level i).clientList ∧
        ∀ e, e ≠ c → b.bobj (.client e) = (rb.level i).bobj (.client e)) ?_
        (fun _ _ => ⟨rfl, rfl, fun _ _ => rfl⟩)
      refine ⟨getData_id _ _ rb.store _, getData_clientList _ _ rb.store _, fun e hne => ?_⟩
      cases hk : (rb.rclient c).client j with
      | none => rfl
      | some k =>
        obtain rfl := hname j k hk
        exact getData_bobj_of_ne _ _ rb.store fun heq => hne (Ref.client.inj heq)
  constructor
  · exact htidy.sound hs
  · exact fun _ ha => htidy.heap_none hs ha
  · exact keepsOrder_clientGetData rb copyObj c
  · exact fun i => (hlevel i).1
  · intro i e _
    rw [(hlevel i).2.1]
  · exact fun i => (hlevel i).2.2

end Apart

/-! ## The levels between the critical sections -/

/-- What is known between the critical sections: the routes and the levels agree, every
publisher that waits has a route for a free address, and a client is in a level only
between the sections that create and delete it. -/
structure Stored (gen : Data → ℤ × Topic × Bool) (s : Threads Addr Cl Topic Data) : Prop where
  staged : Staged s
  sound : Sound gen s.rb
  prepared : ∀ a route del, s.inFlight a = some (route, del) → Prepared gen s.rb a route del
  placed : ∀ c i, c ∈ (s.rb.level i).clientList →
    (s.stage c).holds ∧ (s.rb.rclient c).client i = some c

section Stored

variable {gen : Data → ℤ × Topic × Bool} {init : ObjectBrokerInit Topic Data}
  {s t : Threads Addr Cl Topic Data} {x : ThreadStep Addr Cl Data} {c : Cl}
  {rb : RouteBroker Addr Cl Topic Data} {st : Stage} {a : Addr} {route : RibRoute Topic Data}
  {del : Bool}

omit [DecidableEq Addr] [DecidableEq Cl] [DecidableEq Topic] in
theorem stored_start : Stored gen (Threads.start : Threads Addr Cl Topic Data) where
  staged := staged_start
  sound := sound_init
  prepared := fun _ _ _ h => nomatch h
  placed := fun _ _ h => absurd h List.not_mem_nil

omit [DecidableEq Addr] [DecidableEq Cl] [DecidableEq Topic] in
theorem Stored.name (hs : Stored gen s) (c : Cl) (i : Level) (k : Cl)
    (h : (s.rb.rclient c).client i = some k) : k = c :=
  (hs.staged.client c).name i k h

omit [DecidableEq Addr] [DecidableEq Cl] [DecidableEq Topic] in
theorem Stored.not_placed (hs : Stored gen s) (hst : (s.stage c).holds = false) (i : Level) :
    c ∉ (s.rb.level i).clientList := by
  intro hc
  have hholds := (hs.placed c i hc).1
  rw [hst] at hholds
  cases hholds

/-- What the step of the consumer of `c` leaves: `rb` and the stage `st`. -/
structure Acts (gen : Data → ℤ × Topic × Bool) (s : Threads Addr Cl Topic Data)
    (x : ThreadStep Addr Cl Data) (c : Cl) (rb : RouteBroker Addr Cl Topic Data) (st : Stage) :
    Prop where
  consumes : Consumes s x c rb st
  apart : Apart gen c s.rb rb
  placed : ∀ i, c ∈ (rb.level i).clientList → st.holds ∧ (rb.rclient c).client i = some c
  waiting : st = .waiting → rb.dataAvailableForClient c = none

omit [DecidableEq Addr] [DecidableEq Topic] in
theorem Acts.stored (h : Acts gen s x c rb st) (hs : Stored gen s) : Stored gen (s.move c rb st) where
  staged := h.consumes.staged hs.staged
  sound := h.apart.sound
  prepared := by
    intro a route del hfl
    have hp := hs.prepared a route del hfl
    exact ⟨h.apart.heap a hp.free, hp.refcount, hp.gen_pos, hp.gen_topic, hp.gen_del⟩
  placed := by
    intro e i he
    by_cases hec : e = c
    · subst hec
      rw [Threads.move_stage_self]
      exact h.placed i he
    · have hstage : (s.move c rb st).stage e = s.stage e := Function.update_of_ne hec _ _
      have hplaced := hs.placed e i ((h.apart.clients i e hec).mp he)
      rw [hstage, Threads.move_rb, h.consumes.spares.rclient e hec]
      exact hplaced

omit [DecidableEq Addr] [DecidableEq Cl] [DecidableEq Topic] in
/-- A step that leaves the route broker alone. -/
theorem acts_stage {st' : Stage} (hs : Stored gen s) (hx : ¬ s.Endangers x)
    (hst : s.stage c = st') (hholds : st.holds = st'.holds) (hlinked : st.linked = st'.linked)
    (husable : st.usable → st'.usable) (hwait : st = .waiting → s.rb.dataAvailableForClient c = none) :
    Acts gen s x c s.rb st where
  consumes := consumes_stage hs.staged hx hst (fun h => hholds ▸ h) hlinked husable
  apart := apart_of_eq hs.sound rfl rfl c
  placed := by
    intro i hc
    obtain ⟨h1, h2⟩ := hs.placed c i hc
    rw [hst] at h1
    rw [hholds]
    exact ⟨h1, h2⟩
  waiting := hwait

omit [DecidableEq Addr] [DecidableEq Cl] [DecidableEq Topic] in
/-- A route that was filled in is prepared. -/
theorem prepared_of_publishPrepare {rb rb' : RouteBroker Addr Cl Topic Data}
    {alloc : Option Addr} {obj : Data} {pri : Level}
    (h : rb.publishPrepare init alloc obj pri = (rb', some (a, route, del)))
    (hfree : ∀ b ∈ alloc, rb.store.heap b = none) : Prepared init.topicGen rb' a route del := by
  unfold RouteBroker.publishPrepare at h
  cases alloc with
  | none => cases h
  | some b =>
    dsimp only at h
    cases hcopy : init.copyObj obj with
    | none =>
      rw [hcopy] at h
      cases h
    | some data =>
      rw [hcopy] at h
      dsimp only at h
      split_ifs at h with hneg
      · cases h
      · cases h
        exact ⟨hfree a rfl, rfl, not_le.mp hneg, rfl, rfl⟩

omit [DecidableEq Topic] in
theorem acts_createLocked (hs : Stored gen s) (hst : s.stage c = .allocated)
    (calloc : Level → Bool) (strdup : Level → Option String) :
    Acts gen s (.createLocked c calloc strdup) c
      (s.rb.clientCreateLocked c (fun i => if calloc i then some c else none) strdup) .created where
  consumes := consumes_createLocked hs.staged hst calloc strdup
  apart := by
    apply apart_createLocked hs.sound
    exact hs.not_placed (by rw [hst]; rfl)
  placed := by
    intro i hc
    refine ⟨rfl, ?_⟩
    have hnew := hs.not_placed (c := c) (by rw [hst]; rfl) i
    show ((Function.update s.rb.rclient c _) c).client i = some c
    rw [Function.update_self]
    -- only a level that has linked the client stores its name
    rcases clientCreate_cases (s.rb.level i) c (calloc i) (strdup i) with h | ⟨name, h⟩
    · have hlevel := congrArg (fun r => r.2.clientList) h
      exact absurd (hlevel ▸ hc) hnew
    · exact congrArg Prod.fst h
  waiting := fun h => nomatch h

/-- After the client has left its levels. -/
theorem not_mem_deleteLevels (hs : Stored gen s) (c : Cl) (i : Level) :
    c ∉ ((s.rb.clientDeleteLevels c).level i).clientList := by
  rcases clientDeleteLevels_cases hs.sound (hs.name c) i with ⟨hnone, h⟩ | h
  · rw [h]
    intro hc
    have hsome := (hs.placed c i hc).2
    rw [hnone] at hsome
    cases hsome
  · rw [h, clientDelete_clientList]
    exact not_mem_remove (hs.sound.linked i).clients_nodup

theorem acts_createFailed (hs : Stored gen s) (hst : s.stage c = .failed) :
    Acts gen s (.createFailed c : ThreadStep Addr Cl Data) c (s.rb.clientDeleteLevels c)
      .absent where
  consumes := consumes_createFailed hs.staged hst
  apart := apart_deleteLevels hs.sound (hs.name c)
  placed := fun i hc => absurd hc (not_mem_deleteLevels hs c i)
  waiting := fun h => nomatch h

theorem acts_deleteLocked (hs : Stored gen s) (hst : s.stage c = .registered) :
    Acts gen s (.deleteLocked c : ThreadStep Addr Cl Data) c (s.rb.clientDeleteLocked c)
      .deleted where
  consumes := consumes_deleteLocked hs.staged hst
  apart := by
    obtain ⟨h1, h2, h3, h4, h5, h6⟩ := apart_deleteLevels hs.sound (hs.name c)
    exact ⟨h1.of_eq rfl rfl, h2, h3, h4, h5, h6⟩
  placed := fun i hc => absurd hc (not_mem_deleteLevels hs c i)
  waiting := fun h => nomatch h

theorem acts_getData (hs : Stored gen s) (hst : s.stage c = .registered ∨ s.stage c = .waiting)
    (copyObj : Data → Option Data) :
    Acts gen s (.getData c) c (s.rb.clientGetData copyObj c).2 .registered where
  consumes := consumes_getData hs.staged hst copyObj
  apart := apart_getData hs.sound (hs.name c) copyObj
  placed := by
    intro i hc
    have hsame := sameClients_clientGetData s.rb copyObj c
    rw [hsame.levels] at hc
    rw [hsame.rclient]
    exact ⟨rfl, (hs.placed c i hc).2⟩
  waiting := fun h => nomatch h

omit [DecidableEq Addr] [DecidableEq Topic] in
theorem acts_condInit (hs : Stored gen s) (hst : s.stage c = .created) :
    Acts gen s (.condInit c true) c (s.rb.condInit c) .ready where
  consumes := consumes_condInit hs.staged hst
  apart := by
    apply apart_of_eq hs.sound
    · rfl
    · rfl
  placed := by
    intro i hc
    refine ⟨rfl, ?_⟩
    show ((Function.update s.rb.rclient c _) c).client i = some c
    rw [Function.update_self]
    exact (hs.placed c i hc).2
  waiting := fun h => nomatch h

omit [DecidableEq Addr] [DecidableEq Cl] [DecidableEq Topic] in
theorem acts_link (hs : Stored gen s) (hst : s.stage c = .ready) :
    Acts gen s (.link c : ThreadStep Addr Cl Data) c (s.rb.linkClient c) .registered where
  consumes := consumes_link hs.staged hst
  apart := by
    apply apart_of_eq hs.sound
    · rfl
    · rfl
  placed := fun i hc => ⟨rfl, (hs.placed c i hc).2⟩
  waiting := fun h => nomatch h

omit [DecidableEq Addr] [DecidableEq Topic] in
theorem acts_unlink (hs : Stored gen s) (hst : s.stage c = .deleted) :
    Acts gen s (.unlink c : ThreadStep Addr Cl Data) c (s.rb.unlinkClient c) .unlinked where
  consumes := consumes_unlink hs.staged hst
  apart := by
    apply apart_of_eq hs.sound
    · rfl
    · rfl
  placed := fun i hc => absurd hc (hs.not_placed (by rw [hst]; rfl) i)
  waiting := fun h => nomatch h

/-- **The step of a consumer.** -/
theorem threadStep_acts (hs : Stored gen s) (h : s.step init x = some t)
    (hx : x.consumer = some c) : ∃ rb st, t = s.move c rb st ∧ Acts gen s x c rb st := by
  cases x with
  | publishPrepare alloc obj pri => cases hx
  | publishLocked a => cases hx
  | allocate c =>
    cases hx
    simp only [Threads.step, Option.ite_none_right_eq_some, Option.some.injEq] at h
    obtain ⟨hst, rfl⟩ := h
    exact ⟨s.rb, .allocated, rfl, acts_stage hs id hst rfl rfl (by decide) (fun h => absurd h (by decide))⟩
  | createLocked c calloc strdup =>
    cases hx
    simp only [Threads.step, Option.ite_none_right_eq_some, Option.some.injEq] at h
    obtain ⟨hst, rfl⟩ := h
    exact ⟨_, .created, rfl, acts_createLocked hs hst calloc strdup⟩
  | condInit c ok =>
    cases hx
    simp only [Threads.step, Option.ite_none_right_eq_some] at h
    obtain ⟨hst, h⟩ := h
    cases ok with
    | true =>
      obtain rfl := Option.some.inj h
      exact ⟨_, .ready, rfl, acts_condInit hs hst⟩
    | false =>
      obtain rfl := Option.some.inj h
      exact ⟨s.rb, .failed, rfl, acts_stage hs id hst rfl rfl (by decide) (fun h => absurd h (by decide))⟩
  | link c =>
    cases hx
    simp only [Threads.step, Option.ite_none_right_eq_some, Option.some.injEq] at h
    obtain ⟨hst, rfl⟩ := h
    exact ⟨_, .registered, rfl, acts_link hs hst⟩
  | createFailed c =>
    cases hx
    simp only [Threads.step, Option.ite_none_right_eq_some, Option.some.injEq] at h
    obtain ⟨hst, rfl⟩ := h
    exact ⟨_, .absent, rfl, acts_createFailed hs hst⟩
  | getData c =>
    cases hx
    simp only [Threads.step, Option.ite_none_right_eq_some] at h
    obtain ⟨hst, h⟩ := h
    cases hav : s.rb.dataAvailableForClient c with
    | none =>
      rw [hav] at h
      obtain rfl := Option.some.inj h
      refine ⟨s.rb, .waiting, rfl, ?_⟩
      rcases hst with hst | hst
      · exact acts_stage hs id hst rfl rfl (by decide) (fun _ => hav)
      · exact acts_stage hs id hst rfl rfl (by decide) (fun _ => hav)
    | some i =>
      rw [hav] at h
      obtain rfl := Option.some.inj h
      exact ⟨_, .registered, rfl, acts_getData hs hst init.copyObj⟩
  | timedOut c =>
    cases hx
    simp only [Threads.step, Option.ite_none_right_eq_some, Option.some.injEq] at h
    obtain ⟨hst, rfl⟩ := h
    exact ⟨s.rb, .registered, rfl, acts_stage hs id hst rfl rfl (by decide) (fun h => absurd h (by decide))⟩
  | deleteLocked c =>
    cases hx
    simp only [Threads.step, Option.ite_none_right_eq_some, Option.some.injEq] at h
    obtain ⟨hst, rfl⟩ := h
    exact ⟨_, .deleted, rfl, acts_deleteLocked hs hst⟩
  | unlink c =>
    cases hx
    simp only [Threads.step, Option.ite_none_right_eq_some, Option.some.injEq] at h
    obtain ⟨hst, rfl⟩ := h
    exact ⟨_, .unlinked, rfl, acts_unlink hs hst⟩
  | free c =>
    cases hx
    simp only [Threads.step, Option.ite_none_right_eq_some, Option.some.injEq] at h
    obtain ⟨hst, rfl⟩ := h
    exact ⟨s.rb, .absent, rfl, acts_stage hs id hst rfl rfl (by decide) (fun h => absurd h (by decide))⟩

omit [DecidableEq Addr] [DecidableEq Cl] [DecidableEq Topic] in
/-- Before it takes the mutex a publisher counts, and nothing else. -/
theorem publishPrepare_levels (rb : RouteBroker Addr Cl Topic Data)
    (init : ObjectBrokerInit Topic Data) (alloc : Option Addr) (obj : Data) (pri : Level) :
    (rb.publishPrepare init alloc obj pri).1.level = rb.level ∧
      (rb.publishPrepare init alloc obj pri).1.store = rb.store := by
  unfold RouteBroker.publishPrepare
  cases alloc with
  | none => exact ⟨rfl, rfl⟩
  | some b =>
    cases init.copyObj obj with
    | none => exact ⟨rfl, rfl⟩
    | some data =>
      dsimp only
      split_ifs
      · exact ⟨rfl, rfl⟩
      · exact ⟨rfl, rfl⟩

omit [DecidableEq Addr] [DecidableEq Cl] [DecidableEq Topic] in
/-- A step after which at most one more publisher waits, with a route that is prepared. -/
theorem Stored.of_eq (hs : Stored gen s) (hstaged : Staged t) (hstage : t.stage = s.stage)
    (hlevel : t.rb.level = s.rb.level) (hstore : t.rb.store = s.rb.store)
    (hrclient : t.rb.rclient = s.rb.rclient)
    (hfl : ∀ a route del, t.inFlight a = some (route, del) →
      s.inFlight a = some (route, del) ∨ Prepared gen t.rb a route del) : Stored gen t where
  staged := hstaged
  sound := hs.sound.of_eq hstore hlevel
  prepared := by
    intro a route del h
    rcases hfl a route del h with hold | hnew
    · have hp := hs.prepared a route del hold
      have hfree : t.rb.store.heap a = none := by
        rw [hstore]
        exact hp.free
      exact ⟨hfree, hp.refcount, hp.gen_pos, hp.gen_topic, hp.gen_del⟩
    · exact hnew
  placed := by
    rw [hlevel, hrclient, hstage]
    exact hs.placed

/-- What a publisher does before it takes the mutex. -/
theorem threadStep_publishPrepare {alloc : Option Addr} {obj : Data} {pri : Level}
    (hs : Stored init.topicGen s) (h : s.step init (.publishPrepare alloc obj pri) = some t) :
    Stored init.topicGen t ∧ t.stage = s.stage ∧ t.rb.level = s.rb.level ∧
      t.rb.rclient = s.rb.rclient := by
  have hstaged := threadStep_staged h hs.staged
  simp only [Threads.step, Option.ite_none_right_eq_some] at h
  obtain ⟨hfree, h⟩ := h
  have hnone : ∀ b ∈ alloc, s.rb.store.heap b = none := by
    rintro b rfl
    rw [Option.all_some, Bool.and_eq_true, Option.isNone_iff_eq_none] at hfree
    exact hfree.1
  have hsame := sameClients_publishPrepare s.rb init alloc obj pri
  have hlevels := publishPrepare_levels s.rb init alloc obj pri
  generalize hprep : s.rb.publishPrepare init alloc obj pri = r at h hlevels hsame
  obtain ⟨rb, out⟩ := r
  obtain ⟨hlevel, hstore⟩ := hlevels
  cases out with
  | none =>
    obtain rfl := Option.some.inj h
    refine ⟨hs.of_eq hstaged rfl hlevel hstore hsame.rclient ?_, rfl, hlevel, hsame.rclient⟩
    intro a route del hfl
    exact .inl hfl
  | some out =>
    obtain ⟨b, route, del⟩ := out
    obtain rfl := Option.some.inj h
    refine ⟨hs.of_eq hstaged rfl hlevel hstore hsame.rclient ?_, rfl, hlevel, hsame.rclient⟩
    intro a route' del' hfl
    change Function.update s.inFlight b (some (route, del)) a = some (route', del') at hfl
    by_cases hab : a = b
    · rw [hab] at hfl ⊢
      rw [Function.update_self] at hfl
      cases hfl
      exact .inr (prepared_of_publishPrepare hprep hnone)
    · rw [Function.update_of_ne hab] at hfl
      exact .inl hfl

/-- What a publisher does with the mutex. -/
theorem threadStep_publishLocked (hs : Stored init.topicGen s)
    (h : s.step init (.publishLocked a) = some t) :
    Stored init.topicGen t ∧ t.stage = s.stage ∧ KeepsOrder s.rb t.rb := by
  have hstaged := threadStep_staged h hs.staged
  cases hfl : s.inFlight a with
  | none =>
    rw [Threads.step, hfl] at h
    cases h
  | some r =>
    rw [Threads.step, hfl] at h
    obtain rfl := Option.some.inj h
    have hp := hs.prepared a r.1 r.2 hfl
    have hpub := publishRoute_published hs.sound a r.1 r.2
    have hsame := hpub.sameClients
    refine ⟨⟨hstaged, hpub.sound hs.sound hp, ?_, ?_⟩, rfl, hpub.keepsOrder hs.sound hp⟩
    · intro b route del hb
      change Function.update s.inFlight a none b = some (route, del) at hb
      have hba : b ≠ a := by
        rintro rfl
        rw [Function.update_self] at hb
        cases hb
      rw [Function.update_of_ne hba] at hb
      have hq := hs.prepared b route del hb
      exact ⟨hpub.heap_none hs.sound hp hba hq.free, hq.refcount, hq.gen_pos, hq.gen_topic,
        hq.gen_del⟩
    · intro c i hc
      rw [hsame.levels] at hc
      rw [hsame.rclient]
      exact hs.placed c i hc

/-- **Every step keeps the routes and the levels in order.** -/
theorem threadStep_stored (hs : Stored init.topicGen s) (h : s.step init x = some t) :
    Stored init.topicGen t ∧ KeepsOrder s.rb t.rb := by
  cases hx : x.consumer with
  | some c =>
    obtain ⟨rb, st, rfl, hacts⟩ := threadStep_acts hs h hx
    exact ⟨hacts.stored hs, hacts.apart.order⟩
  | none =>
    cases x with
    | publishPrepare alloc obj pri =>
      obtain ⟨hst, -, hlevel, -⟩ := threadStep_publishPrepare hs h
      exact ⟨hst, keepsOrder_of_level_eq hlevel⟩
    | publishLocked a =>
      obtain ⟨hst, -, horder⟩ := threadStep_publishLocked hs h
      exact ⟨hst, horder⟩
    | _ => cases hx

end Stored

/-! ## Signals -/

/-- The threads, and which of the blocked clients were signalled since they blocked. -/
structure Wakeups (Addr Cl Topic Data : Type*) where
  threads : Threads Addr Cl Topic Data
  signalled : Cl → Bool

/-- One step of the threads.  A signal for a client that is not blocked is lost; a consumer
that looks again, because of a signal or not, and still finds nothing, blocks anew. -/
def Wakeups.step (init : ObjectBrokerInit Topic Data) (s : Wakeups Addr Cl Topic Data)
    (x : ThreadStep Addr Cl Data) : Option (Wakeups Addr Cl Topic Data) :=
  (s.threads.step init x).map fun t =>
    { threads := t
      signalled := match x with
        | .publishLocked _ => fun c =>
          s.signalled c || decide (t.stage c = .waiting ∧ c ∈ t.rb.wakeClients)
        | .getData c | .timedOut c => Function.update s.signalled c false
        | _ => s.signalled }

/-- All interleavings of the threads, with signals. -/
def wakeSystem (Addr Cl : Type*) [DecidableEq Addr] [DecidableEq Cl]
    (init : ObjectBrokerInit Topic Data) :
    System (Wakeups Addr Cl Topic Data) (ThreadStep Addr Cl Data) where
  init := { threads := .start, signalled := fun _ => false }
  step := Wakeups.step init

section Signals

variable {gen : Data → ℤ × Topic × Bool} {init : ObjectBrokerInit Topic Data}
  {s t : Wakeups Addr Cl Topic Data} {x : ThreadStep Addr Cl Data} {c e : Cl}
  {rb rb' : RouteBroker Addr Cl Topic Data}

omit [DecidableEq Addr] [DecidableEq Cl] [DecidableEq Topic] in
/-- What a client finds depends on the ids only. -/
theorem dataAvailable_congr (hr : rb'.rclient e = rb.rclient e)
    (hid : ∀ i k, (rb.rclient e).client i = some k →
      ((rb'.level i).bobj (.client k)).id = ((rb.level i).bobj (.client k)).id ∧
        (rb'.level i).id = (rb.level i).id) :
    rb'.dataAvailableForClient e = rb.dataAvailableForClient e := by
  unfold RouteBroker.dataAvailableForClient
  rw [hr]
  congr 1
  funext i
  cases hk : (rb.rclient e).client i with
  | none => rfl
  | some k =>
    obtain ⟨h1, h2⟩ := hid i k hk
    rw [Option.any_some, Option.any_some, h1, h2]

omit [DecidableEq Addr] [DecidableEq Cl] [DecidableEq Topic] in
/-- The consumer of `c` does not change what another client finds. -/
theorem Apart.dataAvailable (h : Apart gen c rb rb') (hr : rb'.rclient e = rb.rclient e)
    (hname : ∀ i k, (rb.rclient e).client i = some k → k = e) (hne : e ≠ c) :
    rb'.dataAvailableForClient e = rb.dataAvailableForClient e := by
  apply dataAvailable_congr hr
  intro i k hk
  obtain rfl := hname i k hk
  rw [h.cursor i k hne]
  exact ⟨rfl, h.id i⟩

/-- A blocked client that was not signalled has nothing to read. -/
def Awake (s : Wakeups Addr Cl Topic Data) : Prop :=
  ∀ c, s.threads.stage c = .waiting → s.signalled c = false →
    s.threads.rb.dataAvailableForClient c = none

theorem wakeStep_threads (h : s.step init x = some t) :
    s.threads.step init x = some t.threads := by
  obtain ⟨t', ht, rfl⟩ := Option.map_eq_some_iff.mp h
  exact ht

/-- The consumer of `c` takes no signal from another client. -/
theorem wakeStep_signalled (h : s.step init x = some t) (hx : x.consumer = some c) (hne : e ≠ c) :
    t.signalled e = s.signalled e := by
  obtain ⟨t', -, rfl⟩ := Option.map_eq_some_iff.mp h
  cases x with
  | getData c' =>
    cases hx
    exact Function.update_of_ne hne _ _
  | timedOut c' =>
    cases hx
    exact Function.update_of_ne hne _ _
  | publishPrepare alloc obj pri => cases hx
  | publishLocked a => cases hx
  | _ => rfl

omit [DecidableEq Addr] [DecidableEq Cl] [DecidableEq Topic] in
theorem mem_wakeClients : c ∈ rb.wakeClients ↔
    c ∈ rb.clientList ∧ rb.dataAvailableForClient c ≠ none := by
  rw [RouteBroker.wakeClients, List.mem_filter, Option.isSome_iff_ne_none]

omit [DecidableEq Addr] [DecidableEq Cl] [DecidableEq Topic] in
/-- A blocked client is on the list that a publisher goes through. -/
theorem Stored.listed_of_waiting {s : Threads Addr Cl Topic Data} (hs : Stored gen s)
    (hst : s.stage c = .waiting) : c ∈ s.rb.clientList := by
  rw [(hs.staged.client c).listed, hst]
  rfl

/-- **No step leaves a blocked client with something to read and without a signal.** -/
theorem wakeStep_awake (hs : Stored init.topicGen s.threads) (haw : Awake s)
    (h : s.step init x = some t) : Awake t := by
  have hthreads := wakeStep_threads h
  intro e he hsig
  cases hx : x.consumer with
  | some c =>
    have hsignal := wakeStep_signalled (e := e) h hx
    obtain ⟨rb, st, hmove, hacts⟩ := threadStep_acts hs hthreads hx
    rw [hmove] at he ⊢
    by_cases hec : e = c
    · rw [hec, Threads.move_stage_self] at he
      rw [hec]
      exact hacts.waiting he
    · have hstage : (s.threads.move c rb st).stage e = s.threads.stage e :=
        Function.update_of_ne hec _ _
      rw [hstage] at he
      rw [hsignal hec] at hsig
      rw [Threads.move_rb, hacts.apart.dataAvailable (hacts.consumes.spares.rclient e hec)
        (hs.name e) hec]
      exact haw e he hsig
  | none =>
    cases x with
    | publishPrepare alloc obj pri =>
      obtain ⟨-, hstage, hlevel, hrclient⟩ := threadStep_publishPrepare hs hthreads
      have hdata : t.threads.rb.dataAvailableForClient e
          = s.threads.rb.dataAvailableForClient e := by
        apply dataAvailable_congr (by rw [hrclient])
        intro i k _
        rw [hlevel]
        exact ⟨rfl, rfl⟩
      rw [hstage] at he
      rw [hdata]
      obtain ⟨t', -, rfl⟩ := Option.map_eq_some_iff.mp h
      exact haw e he hsig
    | publishLocked a =>
      -- the publisher has just looked at all clients
      have hlisted := (threadStep_publishLocked hs hthreads).1.listed_of_waiting he
      obtain ⟨t', -, rfl⟩ := Option.map_eq_some_iff.mp h
      rw [Bool.or_eq_false_iff, decide_eq_false_iff_not] at hsig
      by_contra hsome
      exact hsig.2 ⟨he, mem_wakeClients.mpr ⟨hlisted, hsome⟩⟩
    | _ => cases hx

omit [DecidableEq Addr] [DecidableEq Cl] [DecidableEq Topic] in
/-- **Nothing is pending for a client that finds nothing.** -/
theorem not_pending_of_none {s : Threads Addr Cl Topic Data} (hs : Stored gen s)
    (hord : ∀ i, (s.rb.level i).Ordered) (h : s.rb.dataAvailableForClient c = none) (i : Level)
    (a : Addr) : ¬ (s.rb.level i).Pending c a := by
  intro hp
  have hplaced := (hs.placed c i (hp.registered (hs.sound.linked i))).2
  unfold RouteBroker.dataAvailableForClient at h
  have hlevel := List.find?_eq_none.mp h i (List.mem_finRange i)
  rw [hplaced, Option.any_some, decide_eq_true_eq, not_not] at hlevel
  exact (hord i).not_pending_of_id_eq hlevel a hp

theorem awake_start : Awake (wakeSystem Addr Cl init).init := by
  intro c hc
  have hstage : Stage.absent = .waiting := hc
  cases hstage

/-- Between the critical sections, in every interleaving: the routes and the levels agree,
levels that have not been counted up `2^64` times are ordered, and nobody sleeps on something
to read. -/
theorem wake_reachable (h : (wakeSystem Addr Cl init).Reachable s) :
    Stored init.topicGen s.threads ∧
      (∀ i, (s.threads.rb.level i).increments < 2 ^ 64 → (s.threads.rb.level i).Ordered) ∧
      Awake s := by
  refine h.induction (P := fun s => Stored init.topicGen s.threads ∧
    (∀ i, (s.threads.rb.level i).increments < 2 ^ 64 → (s.threads.rb.level i).Ordered) ∧ Awake s)
    ⟨stored_start, fun i _ => levels_ordered_start i, awake_start⟩ ?_
  rintro v x v' ⟨hs, hord, haw⟩ hstep
  obtain ⟨hs', hkeep⟩ := threadStep_stored hs (wakeStep_threads hstep)
  refine ⟨hs', fun i hlt => ?_, wakeStep_awake hs haw hstep⟩
  obtain ⟨hle, hnext⟩ := hkeep i
  exact hnext hlt (hord i (lt_of_le_of_lt hle hlt))

end Signals

/-- **No lost wake-ups.**  Take any interleaving of the steps of any number of publishers and
consumers in which no level counts up its id `2^64` times.  Nothing is pending for a blocked
client that has not been signalled since it blocked, nor for any client for which
`data_available_for_client` returns `-1`; and a publisher that leaves something pending for a
blocked client signals it. -/
theorem no_lost_wakeup {init : ObjectBrokerInit Topic Data} {s : Wakeups Addr Cl Topic Data}
    (h : (wakeSystem Addr Cl init).Reachable s)
    (hw : ∀ i, (s.threads.rb.level i).increments < 2 ^ 64) (c : Cl) :
    (s.threads.stage c = .waiting → s.signalled c = false →
      ∀ i a, ¬ (s.threads.rb.level i).Pending c a) ∧
    (s.threads.rb.dataAvailableForClient c = none →
      ∀ i a, ¬ (s.threads.rb.level i).Pending c a) ∧
    ∀ b t, (wakeSystem Addr Cl init).step s (.publishLocked b) = some t →
      (∀ i, (t.threads.rb.level i).increments < 2 ^ 64) → t.threads.stage c = .waiting →
      (∃ i a, (t.threads.rb.level i).Pending c a) →
      c ∈ t.threads.rb.wakeClients ∧ t.signalled c = true := by
  have hnone : ∀ {v : Wakeups Addr Cl Topic Data}, (wakeSystem Addr Cl init).Reachable v →
      (∀ i, (v.threads.rb.level i).increments < 2 ^ 64) →
      v.threads.rb.dataAvailableForClient c = none →
      ∀ i a, ¬ (v.threads.rb.level i).Pending c a := by
    intro v hv hlt
    obtain ⟨hs, hord, -⟩ := wake_reachable hv
    exact not_pending_of_none hs fun i => hord i (hlt i)
  refine ⟨?_, hnone h hw, ?_⟩
  · intro hst hsig
    exact hnone h hw ((wake_reachable h).2.2 c hst hsig)
  · rintro b t hstep hlt hst ⟨i, a, hp⟩
    have ht := h.step hstep
    obtain ⟨hs, -, haw⟩ := wake_reachable ht
    have hsome : t.threads.rb.dataAvailableForClient c ≠ none :=
      fun hn => hnone ht hlt hn i a hp
    refine ⟨mem_wakeClients.mpr ⟨hs.listed_of_waiting hst, hsome⟩, ?_⟩
    by_contra hsig
    rw [Bool.not_eq_true] at hsig
    exact hsome (haw c hst hsig)

/-- A client is created, reads a route and blocks. -/
def blockingRun : List (ThreadStep ℕ ℕ (ℕ × ℕ × Bool)) :=
  [.allocate 0, .createLocked 0 (fun _ => true) (fun _ => some "dp"), .condInit 0 true, .link 0,
    .publishPrepare (some 100) (7, 1, false) 2, .publishLocked 100, .getData 0, .getData 0]

theorem no_lost_wakeup_blocked :
    ∃ s, (wakeSystem ℕ ℕ (succeeding plainGen id)).exec
        (wakeSystem ℕ ℕ (succeeding plainGen id)).init blockingRun = some s ∧
      s.threads.stage 0 = .waiting ∧ s.signalled 0 = false ∧
      ∀ i a, ¬ (s.threads.rb.level i).Pending 0 a := by
  obtain ⟨s, hexec, hp⟩ := (wakeSystem ℕ ℕ (succeeding plainGen id)).exists_of_exec_any
    (wakeSystem ℕ ℕ (succeeding plainGen id)).init blockingRun
    (fun s => decide (s.threads.stage 0 = .waiting ∧ s.signalled 0 = false ∧
      ∀ i, (s.threads.rb.level i).increments < 2 ^ 64)) (by decide +kernel)
  rw [decide_eq_true_eq] at hp
  obtain ⟨hst, hsig, hw⟩ := hp
  exact ⟨s, hexec, hst, hsig, (no_lost_wakeup ⟨_, hexec⟩ hw 0).1 hst hsig⟩

/-- Every state of the threads is one with signals. -/
theorem exists_wakeups {init : ObjectBrokerInit Topic Data} {s : Threads Addr Cl Topic Data}
    (h : (threadSystem Addr Cl init).Reachable s) :
    ∃ v, (wakeSystem Addr Cl init).Reachable v ∧ v.threads = s := by
  refine h.induction (P := fun s => ∃ v, (wakeSystem Addr Cl init).Reachable v ∧ v.threads = s)
    ⟨(wakeSystem Addr Cl init).init, ⟨[], rfl⟩, rfl⟩ ?_
  rintro u x t ⟨v, hv, rfl⟩ hstep
  obtain ⟨v', hv', ht⟩ : ∃ v', v.step init x = some v' ∧ v'.threads = t := by
    have hthreads : v.threads.step init x = some t := hstep
    rw [Wakeups.step, hthreads]
    exact ⟨_, rfl, rfl⟩
  exact ⟨v', hv.step hv', ht⟩

/-- Without the bound a consumer can sleep on a route: it creates its client and reads the
first route of level `0`, which is then published `2^64` times while the consumer is not
blocked.  The id of the level is again the one the client has read, so that it blocks on its
next call, although the route lies after its cursor. -/
theorem wakeup_lost_after_wrap :
    ∃ s : Wakeups ℕ ℕ ℕ (ℕ × ℕ × Bool),
      (wakeSystem ℕ ℕ (succeeding plainGen id)).Reachable s ∧ s.threads.stage 0 = .waiting ∧
      s.signalled 0 = false ∧ (s.threads.rb.level 0).Pending 0 100 := by
  obtain ⟨w, hexec, hp⟩ := exec_thenPublishes plainGen [.clientCreate 0 "dp",
    .publish 100 (7, 1, false) 0, .clientGetData 0, .publish 101 (7, 1, false) 0]
    (2 ^ 64 - 2) 101 100 { refcount := 1, pri := 0, topic := 7, data := (7, 1, false) } 0
    (fun w => decide (0 ∈ w.rb.clientList ∧
      Precedes (w.rb.level 0).objList (.client 0) (.obj 100) ∧
      w.rb.dataAvailableForClient 0 = none)) (by decide +kernel)
  rw [decide_eq_true_eq] at hp
  obtain ⟨hc, hpend, hnone⟩ := hp
  obtain ⟨u, hu, hquiet⟩ := reachable_quiet ⟨_, hexec⟩
  obtain ⟨v, hv, rfl⟩ := exists_wakeups hu
  have hst := hquiet.registered 0 hc
  rw [← hquiet.same] at hpend hnone
  obtain ⟨t, ht, hwait⟩ : ∃ t, v.step (succeeding plainGen id) (.getData 0) = some t ∧
      t.threads = v.threads.move 0 v.threads.rb .waiting ∧ t.signalled 0 = false := by
    have hstep : v.threads.step (succeeding plainGen id) (.getData 0)
        = some (v.threads.move 0 v.threads.rb .waiting) := by
      rw [Threads.step, if_pos (.inl hst), hnone]
    rw [Wakeups.step, hstep]
    refine ⟨_, rfl, rfl, ?_⟩
    show Function.update v.signalled 0 false 0 = false
    exact Function.update_self _ _ _
  refine ⟨t, hv.step ht, ?_, hwait.2, ?_⟩
  · rw [hwait.1, Threads.move_stage_self]
  · rw [hwait.1]
    exact hpend
