/-
# Runs of the route broker

All interleavings of publishes, client creations and deletions and reads, each of
them in one go under `route_broker_mutex`, with allocations and copies that succeed.
`routeSystem gen copy` is the transition system; `gen` is `topic_gen` and `copy` what
`copy_obj` makes of an object, the identity if it is faithful.  A publish may use any
address that is free.

The world also records what was published, and what each client was handed since it
was created.

Main result: `stored_route_consistent`.
-/
import RouteBroker.System
import RouteBroker.RouteStore

open Circleq Broker

/-- The calls of the publisher and of the clients. -/
inductive RouteCall (Addr Cl Data : Type*)
  | publish (a : Addr) (obj : Data) (pri : Level)
  | clientCreate (c : Cl) (name : String)
  | clientDelete (c : Cl)
  | clientGetData (c : Cl)

/-- The route broker, with what was published and what each client received. -/
structure RouteWorld (Addr Cl Topic Data : Type*) where
  rb : RouteBroker Addr Cl Topic Data
  published : List Data
  received : Cl → List Data

variable {Addr Cl Topic Data : Type*}

/-- Callbacks that succeed. -/
def succeeding (gen : Data → ℤ × Topic × Bool) (copy : Data → Data) :
    ObjectBrokerInit Topic Data where
  topicGen := gen
  copyObj := fun d => some (copy d)

variable [DecidableEq Addr] [DecidableEq Cl] [DecidableEq Topic]

namespace RouteWorld

variable (gen : Data → ℤ × Topic × Bool) (copy : Data → Data)

/-- `object_broker_publish(obj, pri)`, the new route being allocated at `a`. -/
def publish (w : RouteWorld Addr Cl Topic Data) (a : Addr) (obj : Data) (pri : Level) :
    RouteWorld Addr Cl Topic Data :=
  { w with
    rb := (w.rb.objectBrokerPublish (succeeding gen copy) (some a) obj pri).1
    published := w.published ++ [obj] }

/-- `route_broker_client_create(name)`. -/
def clientCreate (w : RouteWorld Addr Cl Topic Data) (c : Cl) (name : String) :
    RouteWorld Addr Cl Topic Data :=
  { w with rb := w.rb.clientCreate c name, received := Function.update w.received c [] }

/-- `route_broker_client_delete(c)`. -/
def clientDelete (w : RouteWorld Addr Cl Topic Data) (c : Cl) : RouteWorld Addr Cl Topic Data :=
  { w with rb := w.rb.clientDelete c }

/-- `route_broker_client_get_data(c)`. -/
def clientGetData (w : RouteWorld Addr Cl Topic Data) (c : Cl) : RouteWorld Addr Cl Topic Data :=
  let r := w.rb.clientGetData (fun d => some (copy d)) c
  { w with
    rb := r.2
    received := Function.update w.received c (w.received c ++ r.1.1.toList) }

/-- One call. -/
def call (w : RouteWorld Addr Cl Topic Data) :
    RouteCall Addr Cl Data → Option (RouteWorld Addr Cl Topic Data)
  | .publish a obj pri =>
    if (w.rb.store.heap a).isNone then some (w.publish gen copy a obj pri) else none
  | .clientCreate c name =>
    if c ∈ w.rb.clientList then none else some (w.clientCreate c name)
  | .clientDelete c => if c ∈ w.rb.clientList then some (w.clientDelete c) else none
  | .clientGetData c => if c ∈ w.rb.clientList then some (w.clientGetData copy c) else none

end RouteWorld

/-- The world after `route_broker_init`. -/
def RouteWorld.start : RouteWorld Addr Cl Topic Data where
  rb := routeBrokerInit
  published := []
  received := fun _ => []

/-- All runs of the route broker. -/
def routeSystem (Addr Cl : Type*) [DecidableEq Addr] [DecidableEq Cl]
    (gen : Data → ℤ × Topic × Bool) (copy : Data → Data) :
    System (RouteWorld Addr Cl Topic Data) (RouteCall Addr Cl Data) where
  init := .start
  step := RouteWorld.call gen copy

/-! ## What one call does -/

section Inversion

variable {gen : Data → ℤ × Topic × Bool} {copy : Data → Data}
  {w w' : RouteWorld Addr Cl Topic Data} {c : Cl} {a : Addr} {obj : Data} {pri : Level}
  {name : String}

/-- A publish needs an address that is free. -/
theorem routeCall_publish : w.call gen copy (.publish a obj pri) = some w' ↔
    w.rb.store.heap a = none ∧ w' = w.publish gen copy a obj pri := by
  simp only [RouteWorld.call, Option.isNone_iff_eq_none, Option.ite_none_right_eq_some,
    Option.some.injEq]
  exact and_congr_right (fun _ => eq_comm)

/-- A client is created under a name that is not in use. -/
theorem routeCall_clientCreate : w.call gen copy (.clientCreate c name) = some w' ↔
    c ∉ w.rb.clientList ∧ w' = w.clientCreate c name := by
  simp [RouteWorld.call, eq_comm]

/-- A client that is there is deleted. -/
theorem routeCall_clientDelete : w.call gen copy (.clientDelete c) = some w' ↔
    c ∈ w.rb.clientList ∧ w' = w.clientDelete c := by
  simp [RouteWorld.call, eq_comm]

/-- A client that is there reads. -/
theorem routeCall_clientGetData : w.call gen copy (.clientGetData c) = some w' ↔
    c ∈ w.rb.clientList ∧ w' = w.clientGetData copy c := by
  simp [RouteWorld.call, eq_comm]

omit [DecidableEq Addr] [DecidableEq Cl] [DecidableEq Topic] in
/-- The state in which `object_broker_publish` takes the mutex. -/
def RouteBroker.counted (rb : RouteBroker Addr Cl Topic Data) : RouteBroker Addr Cl Topic Data :=
  { rb with processed := rb.processed + 1 }

omit [DecidableEq Addr] [DecidableEq Cl] [DecidableEq Topic] in
theorem Sound.counted {rb : RouteBroker Addr Cl Topic Data} (hs : Sound gen rb) :
    Sound gen rb.counted := hs.of_eq rfl rfl

/-- The route `object_broker_publish` fills in. -/
def newRoute (gen : Data → ℤ × Topic × Bool) (data : Data) (pri : Level) :
    RibRoute Topic Data where
  pri := pri
  topic := (gen data).2.1
  data := data

/-- A message without a topic is counted only. -/
theorem publish_rb_of_ignored (w : RouteWorld Addr Cl Topic Data)
    (h : (gen (copy obj)).1 ≤ 0) : (w.publish gen copy a obj pri).rb
      = { w.rb.counted with ignored := w.rb.ignored + 1 } := by
  simp [RouteWorld.publish, RouteBroker.objectBrokerPublish, RouteBroker.publishPrepare,
    succeeding, h, RouteBroker.counted]

/-- A message with a topic enters the critical section with a new route. -/
theorem publish_rb_of_pos (w : RouteWorld Addr Cl Topic Data) (h : 0 < (gen (copy obj)).1) :
    (w.publish gen copy a obj pri).rb
      = w.rb.counted.publishRoute a (newRoute gen (copy obj) pri) (gen (copy obj)).2.2 := by
  simp [RouteWorld.publish, RouteBroker.objectBrokerPublish, RouteBroker.publishPrepare,
    succeeding, not_le.mpr h, RouteBroker.counted, newRoute]

omit [DecidableEq Addr] [DecidableEq Cl] [DecidableEq Topic] in
/-- The new route is as `topic_gen` says. -/
theorem prepared_newRoute {rb : RouteBroker Addr Cl Topic Data} {data : Data}
    (ha : rb.store.heap a = none) (h : 0 < (gen data).1) :
    Prepared gen rb.counted a (newRoute gen data pri) (gen data).2.2 :=
  ⟨ha, rfl, h, rfl, rfl⟩

end Inversion

/-! ## The invariant -/

/-- Between two calls the store is sound, every mark is right and the clients are
wired up. -/
structure Consistent (gen : Data → ℤ × Topic × Bool) (rb : RouteBroker Addr Cl Topic Data) :
    Prop where
  sound : Sound gen rb
  kind : ∀ a, Kind gen rb a
  wired : Wired rb

section Invariant

variable {gen : Data → ℤ × Topic × Bool} {copy : Data → Data}
  {rb rb' : RouteBroker Addr Cl Topic Data} {a : Addr} {route : RibRoute Topic Data} {del : Bool}

omit [DecidableEq Addr] [DecidableEq Cl] [DecidableEq Topic] in
/-- Counting messages changes nothing. -/
theorem Consistent.counted (hc : Consistent gen rb) : Consistent gen rb.counted :=
  ⟨hc.sound.counted, hc.kind, hc.wired.clients, hc.wired.client⟩

/-- **A publish keeps the store consistent**, whatever it does to the levels. -/
theorem Consistent.published (hc : Consistent gen rb) (hp : Prepared gen rb a route del)
    (hpub : Published rb a route del rb') : Consistent gen rb' := by
  have hsame := hpub.sameClients
  refine ⟨hpub.sound hc.sound hp, hpub.kind hc.sound hp hc.kind, fun i => ?_, ?_⟩
  · rw [hsame.levels, hsame.clientList, hc.wired.clients]
  · rw [hsame.clientList, hsame.rclient]
    exact hc.wired.client

omit [DecidableEq Topic] in
/-- So does a new client, which is put in front of every level. -/
theorem Consistent.clientCreate (hc : Consistent gen rb) {c : Cl} (hnew : c ∉ rb.clientList)
    (name : String) : Consistent gen (rb.clientCreate c name) := by
  have hlevel : ∀ i, (rb.clientCreate c name).level i
      = (brokerClientCreate (rb.level i) (some c) (some name)).2 := fun _ => rfl
  refine ⟨?_, fun a => ?_, fun i => ?_, fun e he i => ?_⟩
  · refine hc.sound.relevel rfl (fun i => ?_) (fun i a => ?_)
    · rw [hlevel]
      refine (hc.sound.linked i).clientCreate ?_ name
      rw [hc.wired.clients]
      exact hnew
    · rw [hlevel]
      exact listed_clientCreate (rb.level i) c name a
  · refine (hc.kind a).of_eq rfl (fun i => ?_)
    rw [hlevel]
    exact deleted_clientCreate (rb.level i) c name a
  · rw [hlevel, clientCreate_clientList, hc.wired.clients]
    rfl
  · have hr : (rb.clientCreate c name).rclient
        = Function.update (Function.update rb.rclient c { client := fun _ => some c }) c
          { client := fun _ => some c, cond := .ready } := by
      unfold RouteBroker.clientCreate RouteBroker.linkClient RouteBroker.condInit
        RouteBroker.clientCreateLocked
      simp only [Function.update_self, clientCreate_eq]
    rw [hr]
    by_cases hec : e = c
    · rw [hec, Function.update_self]
    · rw [Function.update_of_ne hec, Function.update_of_ne hec]
      exact hc.wired.client e ((List.mem_cons.mp he).resolve_left hec) i

omit [DecidableEq Addr] [DecidableEq Cl] [DecidableEq Topic] in
/-- No client is listed twice. -/
theorem Consistent.clients_nodup (hc : Consistent gen rb) : rb.clientList.Nodup :=
  hc.wired.clients 0 ▸ (hc.sound.linked 0).clients_nodup

/-- A deleted client is taken from the list. -/
theorem Consistent.clientDelete_clientList (hc : Consistent gen rb) {c : Cl}
    (hmem : c ∈ rb.clientList) : (rb.clientDelete c).clientList = remove rb.clientList c := by
  obtain ⟨-, hl, -⟩ := foldl_clientDeleteLevel hc.sound
    (name_of_wired (hc.wired.client c hmem)) (List.nodup_finRange routePriorityMax)
  exact congrArg (remove · c) hl

/-- A deleted client leaves no cursor, and reclaims what only it still needed. -/
theorem Consistent.clientDelete (hc : Consistent gen rb) {c : Cl} (hmem : c ∈ rb.clientList) :
    Consistent gen (rb.clientDelete c) := by
  have htidy := tidy_clientDeleteLevels hc.sound c
  have hnames := hc.wired.client c hmem
  obtain ⟨hr, -, -⟩ :=
    foldl_clientDeleteLevel hc.sound (name_of_wired hnames)
      (List.nodup_finRange routePriorityMax)
  have hlist := hc.clientDelete_clientList hmem
  refine ⟨?_, fun a => ?_, fun i => ?_, fun e he i => ?_⟩
  · exact (htidy.sound hc.sound).of_eq rfl rfl
  · exact (htidy.kind hc.sound hc.kind a).of_eq rfl (fun _ => Iff.rfl)
  · rw [clientDelete_level hc.sound hnames, hlist,
      Broker.clientDelete_clientList, hc.wired.clients]
  · rw [hlist, mem_remove hc.clients_nodup] at he
    have hother : (rb.clientDelete c).rclient e = rb.rclient e := by
      rw [← hr]
      exact Function.update_of_ne he.1 _ _
    rw [hother]
    exact hc.wired.client e he.2 i

/-- A read moves a cursor, and may reclaim a tombstone. -/
theorem Consistent.clientGetData (hc : Consistent gen rb) (copyObj : Data → Option Data) (c : Cl) :
    Consistent gen (rb.clientGetData copyObj c).2 := by
  have htidy := tidy_clientGetData hc.sound copyObj c
  refine ⟨htidy.sound hc.sound, htidy.kind hc.sound hc.kind, ?_⟩
  unfold RouteBroker.clientGetData
  cases rb.dataAvailableForClient c with
  | none => exact hc.wired
  | some i =>
    refine ⟨fun j => ?_, hc.wired.client⟩
    refine forall_onLevel (P := fun _ b => b.clientList = rb.clientList) ?_
      (fun j _ => hc.wired.clients j) j
    rw [getData_clientList]
    exact hc.wired.clients i

/-- **Every call keeps the store consistent.** -/
theorem routeCall_consistent {w w' : RouteWorld Addr Cl Topic Data} {x : RouteCall Addr Cl Data}
    (h : w.call gen copy x = some w') (hc : Consistent gen w.rb) : Consistent gen w'.rb := by
  cases x with
  | publish a obj pri =>
    obtain ⟨ha, rfl⟩ := routeCall_publish.mp h
    have hc' := hc.counted
    by_cases hpos : 0 < (gen (copy obj)).1
    · rw [publish_rb_of_pos w hpos]
      exact hc'.published (prepared_newRoute ha hpos) (publishRoute_published hc'.sound _ _ _)
    · rw [publish_rb_of_ignored w (not_lt.mp hpos)]
      exact ⟨hc'.sound.of_eq rfl rfl, hc'.kind,
        hc'.wired.clients, hc'.wired.client⟩
  | clientCreate c name =>
    obtain ⟨hnew, rfl⟩ := routeCall_clientCreate.mp h
    exact hc.clientCreate hnew name
  | clientDelete c =>
    obtain ⟨hmem, rfl⟩ := routeCall_clientDelete.mp h
    exact hc.clientDelete hmem
  | clientGetData c =>
    obtain ⟨-, rfl⟩ := routeCall_clientGetData.mp h
    exact hc.clientGetData _ c

omit [DecidableEq Addr] [DecidableEq Cl] [DecidableEq Topic] in
/-- The broker starts with nothing in it. -/
theorem consistent_start : Consistent gen (RouteWorld.start : RouteWorld Addr Cl Topic Data).rb :=
  ⟨sound_init, fun _ _ h => (nomatch h), wired_init⟩

/-- **The store is consistent in every reachable state.** -/
theorem reachable_consistent {w : RouteWorld Addr Cl Topic Data}
    (h : (routeSystem Addr Cl gen copy).Reachable w) : Consistent gen w.rb :=
  h.induction (P := fun w => Consistent gen w.rb) consistent_start
    (fun _ _ _ hc hstep => routeCall_consistent hstep hc)

end Invariant

/-! ## Stored routes -/

/-- **Stored route consistency.**  In every reachable state, every route that is linked
in some level is linked once, in no other level, and that level is `route->pri`; it has
one reference; `topic_gen` of its data yields its topic, and reports delete exactly if
the route is marked.  So what `route_broker_client_get_data` hands out has the kind the
broker holds for the object. -/
theorem stored_route_consistent {gen : Data → ℤ × Topic × Bool}
    {w : RouteWorld Addr Cl Topic Data} (h : (routeSystem Addr Cl gen id).Reachable w) :
    (∀ i a, .obj a ∈ (w.rb.level i).objList →
      (w.rb.level i).objList.count (.obj a) = 1 ∧
      (∀ j, .obj a ∈ (w.rb.level j).objList → j = i) ∧
      ∃ r, w.rb.store.heap a = some r ∧ r.pri = i ∧ r.refcount = 1 ∧
        0 < (gen r.data).1 ∧ (gen r.data).2.1 = r.topic ∧
        ((w.rb.level i).bobj (.obj a)).flags.delete = (gen r.data).2.2) ∧
    (∀ c ∈ w.rb.clientList, ∀ i d, (w.rb.clientGetData some c).1 = (some d, some i) →
      ∃ a, brokerGetNextDataObj (w.rb.level i) (.client c) = some (.obj a) ∧
        (gen d).2.2 = ((w.rb.level i).bobj (.obj a)).flags.delete) := by
  have hc := reachable_consistent h
  have hflag : ∀ i a r, w.rb.store.heap a = some r → r.pri = i →
      ((w.rb.level i).bobj (.obj a)).flags.delete = (gen r.data).2.2 := by
    intro i a r hr hi
    subst hi
    exact Bool.eq_iff_iff.mpr (hc.kind a r hr).symm
  refine ⟨fun i a ha => ⟨?_, fun j hj => ?_, ?_⟩, fun c hmem i d hget => ?_⟩
  · rw [(hc.sound.linked i).nodup.count, if_pos ha]
  · obtain ⟨r, hr, hi⟩ := hc.sound.heap_of_listed ha
    obtain ⟨r', hr', hj'⟩ := hc.sound.heap_of_listed hj
    rw [hr] at hr'
    rw [← hi, ← hj', Option.some.inj hr']
  · obtain ⟨r, hr, hi⟩ := hc.sound.heap_of_listed ha
    obtain ⟨hpos, htop⟩ := hc.sound.topic a r hr
    exact ⟨r, hr, hi, hc.sound.refcount a r hr, hpos, htop, hflag i a r hr hi⟩
  · unfold RouteBroker.clientGetData at hget
    cases hav : w.rb.dataAvailableForClient c with
    | none => simp [hav] at hget
    | some i' =>
      rw [hav] at hget
      obtain ⟨hdata, hi⟩ := Prod.mk.injEq _ _ _ _ ▸ hget
      -- the object comes from the level that was found
      cases Option.some.inj hi
      rw [hc.wired.client c hmem] at hdata
      cases hnext : brokerGetNextDataObj (w.rb.level i) (.client c) with
      | none =>
        rw [getData_of_none routeBrokerOps (routeBrokerClientOps some) w.rb.store hnext] at hdata
        exact nomatch hdata
      | some r =>
        obtain ⟨a, rfl, hp, -⟩ := getNextDataObj_eq_some (hc.sound.linked i) hnext
        obtain ⟨r, hr, hpri⟩ := hc.sound.heap_of_listed hp.listed
        rw [getData_of_some routeBrokerOps (routeBrokerClientOps some) w.rb.store hnext] at hdata
        have hd : some r.data = some d := by
          rw [← hdata]
          simp [routeBrokerClientOps, routeBrokerClientGet, hr]
        refine ⟨a, rfl, ?_⟩
        rw [← Option.some.inj hd, hflag i a r hr hpri]

/-- A `topic_gen` for messages that consist of a topic, a version and whether they are
a delete. -/
def plainGen (d : ℕ × ℕ × Bool) : ℤ × ℕ × Bool := (1, d.1, d.2.2)

/-- The theorem at a run with a move to a higher priority and a pending delete. -/
theorem stored_route_consistent_moved :
    ∃ w, (routeSystem ℕ ℕ plainGen id).exec .start [.clientCreate 0 "dp",
        .publish 100 (7, 1, false) 2, .publish 101 (7, 2, false) 1, .clientGetData 0,
        .publish 102 (7, 3, true) 1] = some w ∧
      .obj 101 ∈ (w.rb.level 1).objList ∧
      ∃ r, w.rb.store.heap 101 = some r ∧ r.pri = 1 ∧ r.refcount = 1 ∧
        0 < (plainGen r.data).1 ∧ (plainGen r.data).2.1 = r.topic ∧
        ((w.rb.level 1).bobj (.obj 101)).flags.delete = (plainGen r.data).2.2 := by
  obtain ⟨w, hexec, hp⟩ := (routeSystem ℕ ℕ plainGen id).exists_of_exec_any .start
    [.clientCreate 0 "dp", .publish 100 (7, 1, false) 2, .publish 101 (7, 2, false) 1,
      .clientGetData 0, .publish 102 (7, 3, true) 1]
    (fun w => decide (.obj 101 ∈ (w.rb.level 1).objList)) (by decide +kernel)
  rw [decide_eq_true_eq] at hp
  exact ⟨w, hexec, hp, ((stored_route_consistent ⟨_, hexec⟩).1 1 101 hp).2.2⟩
