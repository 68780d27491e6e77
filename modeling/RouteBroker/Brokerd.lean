/-
# The whole daemon

The main thread and the threads of the dataplanes together.  `main` goes through its rounds
and makes the calls of its log one after the other, `route_broker_publish` among them, each
of them while the other threads are between two steps; it starts a round only when it has
made all calls of the one before.  What the other threads do is up to the scheduler, and so
is when the control thread leaves its loop.

`route_broker_init_all` of the daemon passes on `route_topic` and `rib_nl_copy`.  A
`malloc` that fails is left out, and `rib_nl_copy` copies the whole message, which is what
the first part of the main result says about all published messages.

Main result: `dataplane_holds_routes`.
-/
import RouteBroker.Daemon
import RouteBroker.DpDelivery
import RouteBroker.Rib

open Circleq Broker DataThread DpEvent

/-- `main` and the other threads. -/
structure Brokerd (Addr Uuid : Type*) where
  main : Daemon
  /-- how many calls of its log `main` has made -/
  made : ℕ
  dp : DpWorld Addr Uuid Text (List UInt8)

inductive BrokerdStep (Addr Uuid : Type*)
  /-- `main` goes through a round, for a result of `poll` -/
  | round (polled : Option (ℕ × ℕ))
  /-- `main` makes its next call, where a new route is allocated at `a` -/
  | call (a : Addr)
  /-- a step of the other threads -/
  | dp (x : DpStep Addr Uuid (List UInt8))

/-- What the daemon passes to `object_broker_init_all`, for copies with `behind` behind. -/
def ribInit (o : ByteOrder) (ntop : Ntop) (behind : List UInt8 → List UInt8) :
    ObjectBrokerInit Text (List UInt8) := succeeding (ribGen o ntop behind) id

/-- A call of `object_broker_publish`, which is for `main` to make. -/
def DpStep.isPublish {Addr Uuid Data : Type*} : DpStep Addr Uuid Data → Bool
  | .publish .. => true
  | _ => false

namespace Brokerd

variable {Addr Uuid : Type*} (s : Brokerd Addr Uuid)

/-- The next call of `main`. -/
def nextCall : Option MainEvent := s.main.log[s.made]?

/-- The steps that the broker and the other threads make in a step. -/
def dpSteps : BrokerdStep Addr Uuid → List (DpStep Addr Uuid (List UInt8))
  | .round _ => []
  | .call a =>
    match s.nextCall with
    | some (.publish _ msg pri) => [.publish a msg pri]
    | _ => []
  | .dp x => [x]

/-- The rounds of `main` in a step. -/
def mainSteps : BrokerdStep Addr Uuid → List (Option (ℕ × ℕ))
  | .round polled => [polled]
  | .call _ | .dp _ => []

variable [DecidableEq Addr] [DecidableEq Uuid]

/-- One step. -/
def step (o : ByteOrder) (nlBuf fpmBuf : ℕ) (init : ObjectBrokerInit Text (List UInt8)) :
    BrokerdStep Addr Uuid → Option (Brokerd Addr Uuid)
  | .round polled =>
    if s.made = s.main.log.length then
      (s.main.round o nlBuf fpmBuf polled).map fun main => { s with main := main }
    else none
  | .call a =>
    match s.nextCall with
    | some (.publish _ msg pri) =>
      (s.dp.step init (.publish a msg pri)).map fun dp => { s with made := s.made + 1, dp := dp }
    -- the control thread is told to leave its loop
    | some .shutdownAll => some { s with made := s.made + 1 }
    | none => none
  | .dp x =>
    if x.isPublish then none else (s.dp.step init x).map fun dp => { s with dp := dp }

/-- The daemon when `main` has got its dump. -/
def start (main : Daemon) : Brokerd Addr Uuid := ⟨main, 0, .start⟩

end Brokerd

/-- The runs of the daemon. -/
def brokerdSystem (Addr Uuid : Type*) [DecidableEq Addr] [DecidableEq Uuid] (o : ByteOrder)
    (nlBuf fpmBuf : ℕ) (init : ObjectBrokerInit Text (List UInt8)) (main : Daemon) :
    System (Brokerd Addr Uuid) (BrokerdStep Addr Uuid) where
  init := .start main
  step := fun s x => s.step o nlBuf fpmBuf init x

/-! ## What was published -/

/-- All published messages of a log, with their priorities. -/
def publishedAll (log : List MainEvent) : List (List UInt8 × Level) :=
  log.filterMap fun
    | .publish _ msg pri => some (msg, pri)
    | .shutdownAll => none

/-- The published objects, with their priorities. -/
def publishCalls {Addr Data : Type*} (l : List (DpEvent Addr Data)) : List (Data × Level) :=
  l.filterMap fun | .call (.publish _ obj pri) => some (obj, pri) | _ => none

@[simp] theorem publishedAll_append (l l' : List MainEvent) :
    publishedAll (l ++ l') = publishedAll l ++ publishedAll l' := List.filterMap_append

@[simp] theorem publishCalls_append {Addr Data : Type*} (l l' : List (DpEvent Addr Data)) :
    publishCalls (l ++ l') = publishCalls l ++ publishCalls l' := List.filterMap_append

theorem publishedIn_eq {Addr Data : Type*} (l : List (DpEvent Addr Data)) :
    publishedIn l = (publishCalls l).map Prod.fst := by
  unfold publishedIn publishCalls
  rw [List.map_filterMap]
  apply List.filterMap_congr
  intro e _
  cases e with
  | call c => cases c <;> rfl
  | sent n obj sock => rfl

theorem mem_publishCalls {Addr Data : Type*} {l : List (DpEvent Addr Data)} {a : Addr} {obj : Data}
    {pri : Level} (h : .publish a obj pri ∈ callsIn l) : (obj, pri) ∈ publishCalls l := by
  obtain ⟨e, he, hcall⟩ := List.mem_filterMap.mp h
  cases e with
  | call c =>
    obtain rfl := Option.some.inj hcall
    exact List.mem_filterMap.mpr ⟨_, he, rfl⟩
  | sent n obj' sock => cases hcall

theorem mem_publishedAll {log : List MainEvent} {p : List UInt8 × Level} :
    p ∈ publishedAll log ↔ ∃ src, .publish src p.1 p.2 ∈ log := by
  unfold publishedAll
  rw [List.mem_filterMap]
  constructor
  · rintro ⟨e, he, hp⟩
    cases e with
    | publish src msg pri =>
      obtain rfl := Option.some.inj hp
      exact ⟨src, he⟩
    | shutdownAll => cases hp
  · rintro ⟨src, hp⟩
    exact ⟨_, hp, rfl⟩

section Filter

variable {o : ByteOrder} {log : List MainEvent} {src : Source} {key : TopicKey}

/-- The messages speak of the key. -/
def Speaks (o : ByteOrder) (key : TopicKey) (p : List UInt8 × Level) : Prop :=
  topicKey o (memOf p.1) = key

instance (o : ByteOrder) (key : TopicKey) (p : List UInt8 × Level) : Decidable (Speaks o key p) :=
  inferInstanceAs (Decidable (_ = _))

/-- The table that published messages make. -/
def fibOfPublished (o : ByteOrder) (ps : List (List UInt8 × Level)) :
    TopicKey → Option (List UInt8) := fibOf o (ps.map Prod.fst)

/-- Only what is published of a key matters for its entry. -/
theorem fibOfPublished_congr {ps ps' : List (List UInt8 × Level)}
    (h : ps.filter (Speaks o key) = ps'.filter (Speaks o key)) :
    fibOfPublished o ps key = fibOfPublished o ps' key := by
  have hfilter : ∀ ps : List (List UInt8 × Level), fibOfPublished o ps key
      = fibOf o ((ps.filter (Speaks o key)).map Prod.fst) key := by
    intro ps
    have hmap : (ps.filter (Speaks o key)).map Prod.fst
        = (ps.map Prod.fst).filter fun msg => topicKey o (memOf msg) = key := by
      rw [List.filter_map]
      rfl
    rw [hmap]
    exact (fibOf_filter fun msg _ hmsg => decide_eq_true hmsg).symm
  rw [hfilter ps, hfilter ps', h]

/-- What is published of a key of which only one source speaks. -/
theorem filter_publishedAll (h : ∀ src' msg pri, .publish src' msg pri ∈ log →
      topicKey o (memOf msg) = key → src' = src) :
    (publishedAll log).filter (Speaks o key) = (publishedFrom src log).filter (Speaks o key) := by
  unfold publishedAll publishedFrom
  rw [List.filter_filterMap, List.filter_filterMap]
  apply List.filterMap_congr
  intro e he
  cases e with
  | publish src' msg pri =>
    by_cases hkey : topicKey o (memOf msg) = key
    · have hsrc := h src' msg pri he hkey
      simp [hsrc]
    · have hno : ¬ Speaks o key (msg, pri) := hkey
      by_cases hsrc : src' = src
      · simp [hsrc]
      · simp [hsrc, hno]
  | shutdownAll => rfl

end Filter

/-! ## What `main` publishes are whole messages -/

section Whole

variable {o : ByteOrder} {pub : List (List UInt8 × Level)} {nl : List (Option (List UInt8))}
  {fpm : Sock} {s : Daemon} {p : List UInt8 × Level}

theorem mem_publishedFrom {log : List MainEvent} {src : Source} :
    p ∈ publishedFrom src log ↔ .publish src p.1 p.2 ∈ log := by
  unfold publishedFrom
  rw [List.mem_filterMap]
  constructor
  · rintro ⟨e, he, hp⟩
    cases e with
    | publish src' msg pri =>
      dsimp only at hp
      split_ifs at hp with hsrc
      obtain rfl := Option.some.inj hp
      exact hsrc ▸ he
    | shutdownAll => cases hp
  · intro hp
    exact ⟨_, hp, if_pos rfl⟩

theorem FpmProgress.mem (h : FpmProgress o fpm s) (hp : p ∈ publishedFrom .fpm s.log) :
    p ∈ fpmForms o fpm.bytes := by
  have hprefix : ∀ rest, publishedFrom .fpm s.log ++ rest = fpmForms o fpm.bytes →
      p ∈ fpmForms o fpm.bytes := by
    intro rest hrest
    rw [← hrest]
    exact List.mem_append_left _ hp
  unfold FpmProgress at h
  cases hexit : s.exit with
  | none =>
    rw [hexit] at h
    exact hprefix _ h.1
  | some e =>
    rw [hexit] at h
    cases e with
    | fpmFailed => exact h.1 ▸ hp
    | fpmClosed => exact h.1 ▸ hp
    | _ => exact hprefix _ h.1

/-- What the sources have to say. -/
theorem MainInv.mem (h : MainInv o pub nl fpm s) (hp : p ∈ publishedAll s.log) :
    p ∈ pub ++ nl.flatMap (nlForms o) ∨ p ∈ fpmForms o fpm.bytes := by
  obtain ⟨src, hsrc⟩ := mem_publishedAll.mp hp
  have hin := mem_publishedFrom.mpr hsrc
  cases src with
  | dump =>
    rw [h.dump] at hin
    exact Or.inl (List.mem_append_left _ hin)
  | nl =>
    obtain ⟨k, -, hpub⟩ := h.nl
    rw [hpub] at hin
    obtain ⟨r, hr, hform⟩ := List.mem_flatMap.mp hin
    left
    apply List.mem_append_right
    exact List.mem_flatMap.mpr ⟨r, List.mem_of_mem_take hr, hform⟩
  | fpm => exact Or.inr (h.fpm.mem hin)

theorem MainInv.isRouteMsg (h : MainInv o pub nl fpm s) (hpub : ∀ p ∈ pub, IsRouteMsg o p.1)
    (hp : p ∈ publishedAll s.log) : IsRouteMsg o p.1 := by
  have hlive : ∀ {msgs : List (List UInt8)}, p ∈ msgs.filterMap (liveForm o) →
      IsRouteMsg o p.1 := by
    intro msgs hp
    obtain ⟨msg, -, hform⟩ := List.mem_filterMap.mp hp
    exact isRouteMsg_of_liveForm hform
  rcases h.mem hp with hin | hin
  · rcases List.mem_append.mp hin with hin | hin
    · exact hpub p hin
    · obtain ⟨r, -, hform⟩ := List.mem_flatMap.mp hin
      cases r with
      | none => cases hform
      | some datagram => exact hlive hform
  · exact hlive hin

theorem isRouteMsg_of_dump {d : DumpInput} {rest : List DumpRecv}
    (h : brokerDumpRoutes o d = (pub, .done rest)) (hp : p ∈ pub) : IsRouteMsg o p.1 := by
  obtain ⟨used, -, -, rfl⟩ := brokerDumpRoutes_done h
  obtain ⟨msg, -, hform⟩ := List.mem_filterMap.mp hp
  exact isRouteMsg_of_dumpForm hform

end Whole

/-! ## Runs -/

section Runs

variable {Addr Uuid : Type*} [DecidableEq Addr] [DecidableEq Uuid] {o : ByteOrder}
  {nlBuf fpmBuf : ℕ} {init : ObjectBrokerInit Text (List UInt8)} {main : Daemon}
  {s t : Brokerd Addr Uuid} {x : BrokerdStep Addr Uuid}

theorem dpSteps_exec (h : s.step o nlBuf fpmBuf init x = some t) :
    (dpSystem Addr Uuid init).exec s.dp (s.dpSteps x) = some t.dp := by
  have hone : ∀ {y : DpStep Addr Uuid (List UInt8)} {f : DpWorld Addr Uuid Text (List UInt8) →
      Brokerd Addr Uuid}, (∀ dp, (f dp).dp = dp) → (s.dp.step init y).map f = some t →
      (dpSystem Addr Uuid init).exec s.dp [y] = some t.dp := by
    intro y f hf hy
    obtain ⟨dp, hdp, rfl⟩ := Option.map_eq_some_iff.mp hy
    rw [hf]
    exact (System.exec_cons_eq_some _).mpr ⟨dp, hdp, rfl⟩
  cases x with
  | round polled =>
    rw [Brokerd.step] at h
    split_ifs at h
    obtain ⟨main', -, rfl⟩ := Option.map_eq_some_iff.mp h
    rfl
  | call a =>
    rw [Brokerd.step] at h
    rw [Brokerd.dpSteps]
    cases hcall : s.nextCall with
    | none =>
      rw [hcall] at h
      cases h
    | some e =>
      rw [hcall] at h
      cases e with
      | publish src msg pri => exact hone (fun _ => rfl) h
      | shutdownAll =>
        cases h
        rfl
  | dp y =>
    rw [Brokerd.step] at h
    split_ifs at h
    exact hone (fun _ => rfl) h

theorem mainSteps_exec (h : s.step o nlBuf fpmBuf init x = some t) :
    (daemonSystem o nlBuf fpmBuf main).exec s.main (Brokerd.mainSteps x) = some t.main := by
  cases x with
  | round polled =>
    rw [Brokerd.step] at h
    split_ifs at h
    obtain ⟨main', hmain, rfl⟩ := Option.map_eq_some_iff.mp h
    exact (System.exec_cons_eq_some _).mpr ⟨main', hmain, rfl⟩
  | call a =>
    rw [Brokerd.step] at h
    cases hcall : s.nextCall with
    | none =>
      rw [hcall] at h
      cases h
    | some e =>
      rw [hcall] at h
      cases e with
      | publish src msg pri =>
        obtain ⟨dp, -, rfl⟩ := Option.map_eq_some_iff.mp h
        rfl
      | shutdownAll =>
        cases h
        rfl
  | dp y =>
    rw [Brokerd.step] at h
    split_ifs at h
    obtain ⟨dp, -, rfl⟩ := Option.map_eq_some_iff.mp h
    rfl

/-- What can be seen of the other threads in a step. -/
def Brokerd.seen (init : ObjectBrokerInit Text (List UInt8)) (s : Brokerd Addr Uuid)
    (x : BrokerdStep Addr Uuid) : List (DpEvent Addr (List UInt8)) :=
  (dpSystem Addr Uuid init).trace DpWorld.events s.dp (s.dpSteps x)

/-- The calls that were seen are those that `main` has made. -/
structure Made (s : Brokerd Addr Uuid) (l : List (DpEvent Addr (List UInt8))) : Prop where
  le : s.made ≤ s.main.log.length
  calls : publishCalls l = publishedAll (s.main.log.take s.made)

omit [DecidableEq Addr] [DecidableEq Uuid] in
/-- Only a publish publishes. -/
theorem publishCalls_events {w : DpWorld Addr Uuid Text (List UInt8)}
    {y : DpStep Addr Uuid (List UInt8)} (hy : y.isPublish = false) :
    publishCalls (w.events y) = [] := by
  cases y with
  | publish a obj pri => cases hy
  | thread n r =>
    rw [DpWorld.events]
    cases (w.session n).pc with
    | sending obj =>
      dsimp only
      split_ifs <;> rfl
    | _ => rfl
  | _ => rfl

theorem Made.step {l : List (DpEvent Addr (List UInt8))} (hm : Made s l)
    (h : s.step o nlBuf fpmBuf init x = some t) : Made t (l ++ s.seen init x) := by
  -- one more call is made
  have hnext : ∀ {e}, s.nextCall = some e → s.made + 1 ≤ s.main.log.length ∧
      s.main.log.take (s.made + 1) = s.main.log.take s.made ++ [e] := by
    intro e he
    obtain ⟨hlt, hget⟩ := List.getElem?_eq_some_iff.mp he
    refine ⟨hlt, ?_⟩
    rw [List.take_succ_eq_append_getElem hlt, hget]
  cases x with
  | round polled =>
    rw [Brokerd.step] at h
    split_ifs at h with hmade
    obtain ⟨main', hmain, rfl⟩ := Option.map_eq_some_iff.mp h
    obtain ⟨new, hnew, -⟩ := grows_round hmain
    constructor
    · show s.made ≤ main'.log.length
      rw [hnew, List.length_append]
      exact hm.le.trans (Nat.le_add_right _ _)
    · show publishCalls (l ++ []) = publishedAll (main'.log.take s.made)
      rw [List.append_nil, hnew, List.take_append_of_le_length hm.le]
      exact hm.calls
  | call a =>
    rw [Brokerd.step] at h
    unfold Brokerd.seen
    rw [Brokerd.dpSteps]
    cases hcall : s.nextCall with
    | none =>
      rw [hcall] at h
      cases h
    | some e =>
      rw [hcall] at h
      obtain ⟨hle, htake⟩ := hnext hcall
      cases e with
      | publish src msg pri =>
        obtain ⟨dp, hdp, rfl⟩ := Option.map_eq_some_iff.mp h
        refine ⟨hle, ?_⟩
        show publishCalls (l ++ (dpSystem Addr Uuid init).trace _ _ _)
          = publishedAll (s.main.log.take (s.made + 1))
        have hstep : (dpSystem Addr Uuid init).step s.dp (.publish a msg pri) = some dp := hdp
        rw [htake, System.trace_cons hstep, publishCalls_append, publishedAll_append, hm.calls]
        rfl
      | shutdownAll =>
        cases h
        refine ⟨hle, ?_⟩
        show publishCalls (l ++ []) = publishedAll (s.main.log.take (s.made + 1))
        rw [htake, List.append_nil, publishedAll_append, hm.calls]
        exact (List.append_nil _).symm
  | dp y =>
    rw [Brokerd.step] at h
    split_ifs at h with hy
    obtain ⟨dp, hdp, rfl⟩ := Option.map_eq_some_iff.mp h
    have hstep : (dpSystem Addr Uuid init).step s.dp y = some dp := hdp
    refine ⟨hm.le, ?_⟩
    show publishCalls (l ++ (dpSystem Addr Uuid init).trace _ _ [y]) = _
    rw [System.trace_cons hstep, System.trace_nil, List.append_nil, publishCalls_append,
      publishCalls_events (by simpa using hy), List.append_nil]
    exact hm.calls

/-- **A run of the daemon is a run of its threads.**  The loop of `main` makes a run, the
other threads do, and the calls they see are those of `main`. -/
theorem brokerd_run {xs : List (BrokerdStep Addr Uuid)}
    (hexec : (brokerdSystem Addr Uuid o nlBuf fpmBuf init main).exec (.start main) xs = some s) :
    let system := brokerdSystem Addr Uuid o nlBuf fpmBuf init main
    let seen := system.trace (Brokerd.seen init) (.start main) xs
    let ys := system.trace Brokerd.dpSteps (.start main) xs
    (dpSystem Addr Uuid init).exec .start ys = some s.dp ∧
      (dpSystem Addr Uuid init).trace DpWorld.events .start ys = seen ∧ Made s seen ∧
      ∃ polls, (daemonSystem o nlBuf fpmBuf main).exec main polls = some s.main := by
  intro system seen ys
  refine ⟨?_, ?_, ?_, ?_⟩
  · exact System.exec_part (fun _ _ _ h => dpSteps_exec h) hexec
  · exact System.trace_part (fun _ _ _ h => dpSteps_exec h) _ hexec
  · exact System.exec_trace_induction (l := []) (G := fun _ _ => True) (P := Made)
      (fun _ _ _ _ hm _ h => hm.step h) hexec (System.guarded_of_forall (fun _ _ => trivial) _ _)
      ⟨Nat.zero_le _, rfl⟩
  · exact ⟨_, System.exec_part (fun _ _ _ h => mainSteps_exec h) hexec⟩

end Runs

/-! ## What the dataplanes are sent -/

namespace Brokerd

variable {Addr Uuid : Type*} (s : Brokerd Addr Uuid)

/-- A `CONNECT` for another uuid than that of the open session. -/
def Foreign : BrokerdStep Addr Uuid → Prop
  | .dp x => s.dp.Foreign x
  | _ => False

/-- All that there is to receive has been received and published. -/
structure Settled : Prop where
  running : s.main.exit = none
  made : s.made = s.main.log.length
  nl : s.main.nl = []
  fpm : s.main.fpm.bytes = []

end Brokerd

section Sent

variable {Addr Uuid : Type*} [DecidableEq Addr] [DecidableEq Uuid] {o : ByteOrder} {ntop : Ntop}
  {behind : List UInt8 → List UInt8} {nlBuf fpmBuf : ℕ} {priorityOf : TopicKey → Level}
  {key : TopicKey} {l : List (DpEvent Addr (List UInt8))}

instance : Inhabited TopicKey := ⟨.mpls 0⟩

omit [DecidableEq Uuid] in
/-- Keys with one priority each make topics with one priority each. -/
theorem hasPriority_of_keys (hntop : ntop.Faithful)
    (hmsgs : ∀ p ∈ publishCalls l, IsRouteMsg o p.1 ∧ Legible o p.1)
    (hpri : ∀ p ∈ publishCalls l, p.2 = priorityOf (topicKey o (memOf p.1))) :
    (routeSystem Addr ℕ (ribGen o ntop behind) id).Guarded (fun _ x => x.HasPriority
      (ribGen o ntop behind) id
      fun topic => priorityOf (Function.invFunOn (keyText ntop) {k | k.Valid} topic))
      .start (callsIn l) := by
  apply System.guarded_of_mem (P := fun _ => True) (fun _ _ _ _ _ _ => trivial) ?_ trivial
  rintro x hx - -
  cases x with
  | publish a obj pri =>
    intro hpos
    obtain ⟨hwhole, hleg⟩ := hmsgs _ (mem_publishCalls hx)
    have hrouted := (ribGen_pos_iff hwhole hleg.fits).mp hpos
    have htopic := (ribGen_routed behind hwhole hleg hntop hrouted).2.1
    have hinj : Set.InjOn (keyText ntop) {k | k.Valid} := fun k hk k' hk' => hntop.keyText_inj hk hk'
    have hinv := hinj.leftInvOn_invFunOn (hleg.printed.topicKey_valid (o := o))
    show pri = priorityOf (Function.invFunOn _ _ (ribGen o ntop behind obj).2.1)
    rw [htopic, hinv]
    exact hpri _ (mem_publishCalls hx)
  | _ => trivial

omit [DecidableEq Uuid] in
/-- What is sent for a running session makes the same entry as all published messages, for
every key of which no message is under way to it. -/
theorem Delivering.sentBy_fib {s : DpWorld Addr Uuid Text (List UInt8)}
    (h : Delivering (ribGen o ntop behind) s l) (hntop : ntop.Faithful)
    (hmsgs : ∀ p ∈ publishCalls l, IsRouteMsg o p.1 ∧ Legible o p.1)
    (hpri : ∀ p ∈ publishCalls l, p.2 = priorityOf (topicKey o (memOf p.1)))
    (hinc : ∀ i, (s.rb.level i).increments < 2 ^ 64) {n : ℕ}
    (hrun : (s.session n).pc.running = true)
    (hpending : keyText ntop key ∉ s.rb.pendingTopics n)
    (hhand : ∀ obj, atHand (s.session n).pc = some obj → topicKey o (memOf obj) ≠ key) :
    fibOf o (sentBy n l) key = fibOfPublished o (publishCalls l) key := by
  have hmsgs' : ∀ msg ∈ publishedIn l, IsRouteMsg o msg ∧ Legible o msg := by
    rw [publishedIn_eq]
    intro msg hmsg
    obtain ⟨p, hp, rfl⟩ := List.mem_map.mp hmsg
    exact hmsgs p hp
  have hsent : ∀ msg ∈ sentBy n l, msg ∈ publishedIn l ∧ 0 < (ribGen o ntop behind msg).1 :=
    fun msg hmsg => h.published_of_handed hrun (List.mem_append_left _ hmsg)
  have htotal : fibOfPublished o (publishCalls l) key = fibOf o (publishedIn l) key := by
    rw [publishedIn_eq]
    rfl
  rw [htotal]
  by_cases hkey : key.Valid
  · have hhand' : ∀ obj, atHand (s.session n).pc = some obj →
        (ribGen o ntop behind obj).2.1 ≠ keyText ntop key := by
      intro obj hobj heq
      obtain ⟨hpub, hpos⟩ := h.published_of_handed hrun (d := obj)
        (List.mem_append_right _ (by rw [hobj]; exact List.mem_singleton.mpr rfl))
      obtain ⟨hwhole, hleg⟩ := hmsgs' obj hpub
      have hrouted := (ribGen_pos_iff hwhole hleg.fits).mp hpos
      rw [(ribGen_routed behind hwhole hleg hntop hrouted).2.1] at heq
      exact hhand obj hobj (hntop.keyText_inj hleg.printed.topicKey_valid hkey heq)
    have htable := h.sentBy_table
      (not_overtakes_of_priorities (hasPriority_of_keys hntop hmsgs hpri)) hinc hrun hpending hhand'
    rw [tableOf_eq_fibOf behind hntop hmsgs' hkey] at htable
    rw [← htable, ← tableOf_eq_fibOf behind hntop
      (fun msg hmsg => hmsgs' msg (hsent msg hmsg).1) hkey]
    congr 1
    exact (List.filter_eq_self.mpr fun msg hmsg => decide_eq_true (hsent msg hmsg).2)
  · -- no message has such a key
    have hnone : ∀ msg ∈ publishedIn l, topicKey o (memOf msg) ≠ key := by
      intro msg hmsg heq
      apply hkey
      rw [← heq]
      exact (hmsgs' msg hmsg).2.printed.topicKey_valid
    rw [fibOf_eq_none hnone, fibOf_eq_none fun msg hmsg => hnone msg (hsent msg hmsg).1]

end Sent

/-! ## What has been received -/

section Received

variable {o : ByteOrder} {pub : List (List UInt8 × Level)} {m : Mem}
  {nl : List (Option (List UInt8))} {fpm : Sock} {s : Daemon} {key : TopicKey}

theorem publishedAll_map (src : Source) (pub : List (List UInt8 × Level)) :
    publishedAll (pub.map fun p => .publish src p.1 p.2) = pub := by
  unfold publishedAll
  rw [List.filterMap_map]
  exact List.filterMap_some

/-- All messages of the kernel, if the FPM does not speak of the key. -/
theorem MainInv.filter_kernel (h : MainInv o pub nl fpm s) (hgrows : Grows (.start pub m nl fpm) s)
    (hnl : s.nl = []) (hfpm : ∀ p ∈ fpmForms o fpm.bytes, ¬ Speaks o key p) :
    (publishedAll s.log).filter (Speaks o key)
      = (pub ++ nl.flatMap (nlForms o)).filter (Speaks o key) := by
  obtain ⟨new, hnew, hdump⟩ := hgrows
  have hlog : s.log = (pub.map fun p => .publish .dump p.1 p.2) ++ new := hnew
  obtain ⟨k, hk, hpub⟩ := h.nl
  have hall : nl.take k = nl := by
    rw [hnl] at hk
    exact List.take_of_length_le (List.drop_eq_nil_iff.mp hk.symm)
  have hfrom : publishedFrom .nl new = nl.flatMap (nlForms o) := by
    rw [hlog, publishedFrom_append, publishedFrom_map, if_neg (by decide), hall] at hpub
    exact hpub
  have honly : ∀ src' msg pri, .publish src' msg pri ∈ new → topicKey o (memOf msg) = key →
      src' = .nl := by
    intro src' msg pri hin hkey
    cases src' with
    | dump => exact absurd hin (hdump msg pri)
    | nl => rfl
    | fpm =>
      have hmem : (msg, pri) ∈ publishedFrom .fpm s.log := by
        rw [hlog, publishedFrom_append]
        exact List.mem_append_right _ (mem_publishedFrom.mpr hin)
      exact absurd hkey (hfpm _ (h.fpm.mem hmem))
  rw [hlog, publishedAll_append, publishedAll_map, List.filter_append, List.filter_append,
    filter_publishedAll honly, hfrom]

/-- All messages of the FPM, if the kernel does not speak of the key. -/
theorem MainInv.filter_fpm (h : MainInv o pub nl fpm s) (hrun : s.exit = none)
    (hbytes : s.fpm.bytes = [])
    (hkernel : ∀ p ∈ pub ++ nl.flatMap (nlForms o), ¬ Speaks o key p) :
    (publishedAll s.log).filter (Speaks o key)
      = (fpmForms o fpm.bytes).filter (Speaks o key) := by
  have honly : ∀ src' msg pri, .publish src' msg pri ∈ s.log → topicKey o (memOf msg) = key →
      src' = .fpm := by
    intro src' msg pri hin hkey
    have hmem := mem_publishedFrom (p := (msg, pri)).mpr hin
    cases src' with
    | dump =>
      rw [h.dump] at hmem
      exact absurd hkey (hkernel _ (List.mem_append_left _ hmem))
    | nl =>
      obtain ⟨k, -, hpub⟩ := h.nl
      rw [hpub] at hmem
      obtain ⟨r, hr, hform⟩ := List.mem_flatMap.mp hmem
      have hin' : (msg, pri) ∈ nl.flatMap (nlForms o) :=
        List.mem_flatMap.mpr ⟨r, List.mem_of_mem_take hr, hform⟩
      exact absurd hkey (hkernel _ (List.mem_append_right _ hin'))
    | fpm => rfl
  have hnil : fpmForms o [] = [] := by
    unfold fpmForms
    rw [decodeStream, if_neg (by simp)]
    rfl
  have hfrom : publishedFrom .fpm s.log = fpmForms o fpm.bytes := by
    have hprogress := ((fpmProgress_iff hrun).mp h.fpm).1
    rw [hbytes, hnil, List.append_nil] at hprogress
    exact hprogress
  rw [filter_publishedAll honly, hfrom]

end Received

/-! ## The result -/

/-- `main` sends no `CONNECT`. -/
theorem guarded_dpSteps {Addr Uuid : Type*} [DecidableEq Addr] [DecidableEq Uuid]
    {init : ObjectBrokerInit Text (List UInt8)} {s : Brokerd Addr Uuid}
    {x : BrokerdStep Addr Uuid} (h : ¬ s.Foreign x) :
    (dpSystem Addr Uuid init).Guarded (fun s x => ¬ s.Foreign x) s.dp (s.dpSteps x) := by
  cases x with
  | round polled => exact trivial
  | call a =>
    rw [Brokerd.dpSteps]
    split
    · exact fun _ _ => ⟨fun h => h, trivial⟩
    · exact trivial
  | dp y => exact fun _ _ => ⟨h, trivial⟩

/-- With one dataplane there is no `CONNECT` of another one. -/
theorem brokerd_guarded_of_one_uuid {Addr Uuid : Type*} [DecidableEq Addr] [DecidableEq Uuid]
    {o : ByteOrder} {nlBuf fpmBuf : ℕ} {init : ObjectBrokerInit Text (List UInt8)}
    {main : Daemon} {xs : List (BrokerdStep Addr Uuid)} (u : Uuid)
    (h : ∀ v, .dp (.connect v) ∈ xs → v = u) :
    (brokerdSystem Addr Uuid o nlBuf fpmBuf init main).Guarded (fun s x => ¬ s.Foreign x)
      (.start main) xs := by
  -- the steps of the other threads keep it that way
  have hconnect : ∀ {s : Brokerd Addr Uuid} {x}, x ∈ xs → ∀ v, .connect v ∈ s.dpSteps x → v = u := by
    intro s x hx v hv
    cases x with
    | round polled => cases hv
    | call a =>
      rw [Brokerd.dpSteps] at hv
      split at hv
      · cases List.mem_singleton.mp hv
      · cases hv
    | dp y =>
      obtain rfl := List.mem_singleton.mp hv
      exact h v hx
  apply System.guarded_of_mem (P := fun s => OnlyUuid u s.dp)
  · intro x hx s t hs hstep
    exact System.exec_induction_of_mem (P := OnlyUuid u)
      (fun y hy _ _ hs hstep => hs.step (fun v hv => hconnect hx v (hv ▸ hy)) hstep)
      (dpSteps_exec hstep) hs
  · intro x hx s hs hforeign
    cases x with
    | dp y =>
      cases y with
      | connect v =>
        obtain ⟨w, hne, hw⟩ := hforeign
        exact hw (hs.table w fun he => hne (he.trans (h v hx).symm))
      | _ => exact hforeign
    | _ => exact hforeign
  · exact ⟨fun _ _ => rfl, fun _ _ h => by cases h⟩

section Result

variable {Addr Uuid : Type*} [DecidableEq Addr] [DecidableEq Uuid] {o : ByteOrder} {ntop : Ntop}
  {behind : List UInt8 → List UInt8} {nlBuf fpmBuf : ℕ} {pub : List (List UInt8 × Level)}
  {m : Mem} {nl : List (Option (List UInt8))} {fpm : Sock} {s : Brokerd Addr Uuid}

/-- **A dataplane holds the routes of the kernel and of FRR.**  Take a dump that ends well,
well cut datagrams, any stream of the FPM, cut in any way, and any interleaving of `main` and
the other threads in which copies succeed, no `CONNECT` comes in for a uuid while a session for
another one is open and no level counts up its id `2^64` times.  Let the key be legible in all
published messages, and every key be published with one priority.

`rib_nl_copy` copies every published message as a whole.  The messages sent through the
socket whose endpoint the dataplane of a running session was told make the entry of a key
that all messages published so far make, unless the key is pending for the session in a
level of the broker or is that of the object the session is trying to send.  And when all
has been received and published, it is the entry that the messages of the dump and of the
datagrams make, if the FPM does not speak of the key, or the one that the reference decoder
makes of the stream of the FPM, if the kernel does not speak of the key. -/
theorem dataplane_holds_routes (hntop : ntop.Faithful) {d : DumpInput} {rest : List DumpRecv}
    (hdump : brokerDumpRoutes o d = (pub, .done rest))
    (hcut : ∀ d, some d ∈ nl → DatagramCut o d) {xs : List (BrokerdStep Addr Uuid)}
    (hexec : (brokerdSystem Addr Uuid o nlBuf fpmBuf (ribInit o ntop behind)
      (.start pub m nl fpm)).exec (.start (.start pub m nl fpm)) xs = some s)
    (hone : (brokerdSystem Addr Uuid o nlBuf fpmBuf (ribInit o ntop behind)
      (.start pub m nl fpm)).Guarded (fun s x => ¬ s.Foreign x) (.start (.start pub m nl fpm)) xs)
    (hlegible : ∀ p ∈ publishedAll s.main.log, Legible o p.1) {priorityOf : TopicKey → Level}
    (hpri : ∀ p ∈ publishedAll s.main.log, p.2 = priorityOf (topicKey o (memOf p.1)))
    (hinc : ∀ i, (s.dp.rb.level i).increments < 2 ^ 64) {u : Uuid} {n k : ℕ}
    (haccept : (u, n, some k) ∈ s.dp.accepted) (hrun : (s.dp.session n).pc.running = true)
    (key : TopicKey) (hpending : keyText ntop key ∉ s.dp.rb.pendingTopics n)
    (hhand : ∀ obj, atHand (s.dp.session n).pc = some obj → topicKey o (memOf obj) ≠ key) :
    let seen := (brokerdSystem Addr Uuid o nlBuf fpmBuf (ribInit o ntop behind)
      (.start pub m nl fpm)).trace (Brokerd.seen (ribInit o ntop behind))
      (.start (.start pub m nl fpm)) xs
    (∀ msg ∈ publishedIn seen, ribNlCopy o msg = msg) ∧
    fibOf o (sentOn k seen) key = fibOfPublished o (publishCalls seen) key ∧
    (s.Settled →
      ((∀ p ∈ fpmForms o fpm.bytes, ¬ Speaks o key p) →
        fibOf o (sentOn k seen) key = fibOfPublished o (pub ++ nl.flatMap (nlForms o)) key) ∧
      ((∀ p ∈ pub ++ nl.flatMap (nlForms o), ¬ Speaks o key p) →
        fibOf o (sentOn k seen) key = fibOfPublished o (fpmForms o fpm.bytes) key)) := by
  intro seen
  obtain ⟨hdp, hseen, hmade, polls, hmain⟩ := brokerd_run hexec
  have hinv := mainInv_exec hcut hmain
  have hgrows : Grows (.start pub m nl fpm) s.main :=
    System.exec_induction (P := Grows (.start pub m nl fpm))
      (fun _ _ _ h hstep => h.trans (grows_round hstep)) hmain (.refl _)
  -- the calls so far are some of those in the log
  have hcalls : ∀ p ∈ publishCalls seen, p ∈ publishedAll s.main.log := by
    rw [hmade.calls]
    intro p hp
    obtain ⟨src, hsrc⟩ := mem_publishedAll.mp hp
    exact mem_publishedAll.mpr ⟨src, List.mem_of_mem_take hsrc⟩
  have hwhole : ∀ p ∈ publishCalls seen, IsRouteMsg o p.1 := fun p hp =>
    hinv.isRouteMsg (fun p hp => isRouteMsg_of_dump hdump hp) (hcalls p hp)
  -- the other threads
  have hseen' : (dpSystem Addr Uuid (ribInit o ntop behind)).trace DpWorld.events .start _
      = seen := hseen
  have hdel : Delivering (ribGen o ntop behind) s.dp seen := by
    rw [← hseen']
    exact (delivering_run (H := fun _ _ => True) hdp
      (System.guarded_of_forall (fun _ _ _ _ _ _ => trivial) _ _)).1
  have hsent : sentOn k seen = sentBy n seen :=
    sentOn_accepted hdp (System.guarded_part (fun _ _ _ h => dpSteps_exec h)
      (fun _ _ h => guarded_dpSteps h) hexec hone) hdel.attempted haccept
  have hfib := hdel.sentBy_fib hntop (fun p hp => ⟨hwhole p hp, hlegible p (hcalls p hp)⟩)
    (fun p hp => hpri p (hcalls p hp)) hinc hrun hpending hhand
  rw [← hsent] at hfib
  refine ⟨?_, hfib, ?_⟩
  · rw [publishedIn_eq]
    intro msg hmsg
    obtain ⟨p, hp, rfl⟩ := List.mem_map.mp hmsg
    exact (hwhole p hp).copy_eq
  · intro hsettled
    rw [hmade.calls, hsettled.made, List.take_length] at hfib
    constructor
    · intro hfpm
      rw [hfib]
      exact fibOfPublished_congr (hinv.filter_kernel hgrows hsettled.nl hfpm)
    · intro hkernel
      rw [hfib]
      exact fibOfPublished_congr (hinv.filter_fpm hsettled.running hsettled.fpm hkernel)

end Result

/-- The route 10.1.0.0/16 from FRR. -/
def frrRoute16 : List UInt8 :=
  [36, 0, 0, 0, 24, 0, 0, 1, 0, 0, 0, 0, 7, 0, 0, 0,
   2, 16, 0, 0, 254, 11, 0, 1, 0, 0, 0, 0,
   8, 0, 1, 0, 10, 1, 0, 0]

/-- A stream with this route, which comes in two pieces. -/
def frrStream : Sock :=
  { oneRecord with
    chunks := [[1, 1, 0], 40 :: frrRoute16]
    nonempty := by decide }

/-- `main` after a dump of a default route, with the stream to come. -/
def frrStart : Daemon :=
  .start ([defaultRoute 0].filterMap (dumpForm .little)) (fun _ => 0) [] frrStream

/-- The daemon with nothing behind its copies. -/
def frrSystem : System (Brokerd ℕ ℕ) (BrokerdStep ℕ ℕ) :=
  brokerdSystem ℕ ℕ .little 0 8192 (ribInit .little plainNtop fun _ => []) frrStart

/-- A dataplane connects, the dump and the stream are published, and the session sends all. -/
def frrSteps : List (BrokerdStep ℕ ℕ) :=
  .dp (.connect 1) :: (List.replicate 5 (.dp (.thread 0 .ok)) ++ .dp .accept :: .call 100 ::
    .round (some (0, 1)) :: .call 101 :: List.replicate 8 (.dp (.thread 0 .ok)))

/-- The route from FRR has the lower priority. -/
def frrPriority (key : TopicKey) : Level :=
  if key = topicKey .little (memOf frrRoute16) then routeOther else routeConnected

/-- The theorem at this run: the dataplane holds the route from FRR. -/
theorem dataplane_holds_routes_once :
    fibOf .little (sentOn 0 (frrSystem.trace (Brokerd.seen (ribInit .little plainNtop fun _ => []))
        (.start frrStart) frrSteps)) (topicKey .little (memOf frrRoute16))
      = fibOfPublished .little (fpmForms .little frrStream.bytes)
        (topicKey .little (memOf frrRoute16)) := by
  obtain ⟨s, hexec, hp⟩ := frrSystem.exists_of_exec_any (.start frrStart) frrSteps
    (fun s => decide ((1, 0, some 0) ∈ s.dp.accepted ∧
      (∀ i, (s.dp.rb.level i).increments < 2 ^ 64) ∧ (s.dp.session 0).pc = .polling ∧
      (∀ i, brokerGetNextDataObj (s.dp.rb.level i) (.client 0) = none) ∧
      publishedAll s.main.log
        = [defaultRoute 0].filterMap (dumpForm .little) ++ [(frrRoute16, 2)] ∧
      s.main.exit = none ∧ s.made = s.main.log.length ∧ s.main.nl = [] ∧ s.main.fpm.bytes = []))
    (by decide +kernel)
  rw [decide_eq_true_eq] at hp
  obtain ⟨haccept, hinc, hpc, hnext, hlog, hsettled⟩ := hp
  have hdump : brokerDumpRoutes .little
      ⟨true, true, true, [.datagram [defaultRoute 0] 1, .datagram [] 0, .datagram [] 0]⟩
      = ([defaultRoute 0].filterMap (dumpForm .little), .done []) := rfl
  have hmsgs : ∀ p ∈ publishedAll s.main.log, (ValuesFit .little (memOf p.1) ∧
      rtmType (memOf p.1) 0 ≠ rtnMulticast ∧ rtmFamily (memOf p.1) 0 = afInet) ∧
      p.2 = frrPriority (topicKey .little (memOf p.1)) := by
    rw [hlog]
    unfold ValuesFit ValueFits
    decide +kernel
  obtain ⟨hdp, -⟩ := brokerd_run hexec
  have hsound : Sound (ribGen .little plainNtop fun _ => []) s.dp.rb :=
    (dp_consistent ⟨_, hdp⟩).sound
  have hall := dataplane_holds_routes plainNtop_faithful hdump (fun d hd => absurd hd List.not_mem_nil)
    hexec (brokerd_guarded_of_one_uuid 1 fun v hv => by simpa [frrSteps] using hv)
    (fun p hp => ⟨(hmsgs p hp).1.1, .inr (.inr ⟨(hmsgs p hp).1.2.1, .inl (hmsgs p hp).1.2.2⟩)⟩)
    (fun p hp => (hmsgs p hp).2) hinc haccept (by rw [hpc]; rfl)
    (topicKey .little (memOf frrRoute16))
    (by
      rw [pendingTopics_eq_empty
        (fun i a => (getNextDataObj_eq_none (hsound.linked i)).mp (hnext i) a)]
      exact Set.notMem_empty _)
    (by
      rw [hpc]
      intro obj hobj
      cases hobj)
  obtain ⟨-, -, hsources⟩ := hall
  exact (hsources ⟨hsettled.1, hsettled.2.1, hsettled.2.2.1, hsettled.2.2.2⟩).2 (by decide +kernel)
