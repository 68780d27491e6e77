/-
# The hash table and the levels

The hash table finds a route by its topic, the levels list it by address, and
`object_broker_publish` relies on the two to agree.  Every way through it keeps them in
step but one: a delete that finds its topic stored at a lower priority unlinks the old
route, which takes the entry of the topic along, and links the new one as a tombstone
without entering it.  With a client around the tombstone stays listed; nothing finds it
any more.

`hash_agrees_iff` says that this is the only way: the hash table agrees with the levels
all along a run exactly if the run makes no such publish.
-/
import RouteBroker.RouteRun

open Circleq Broker

variable {Addr Cl Topic Data : Type*}

/-! ## Agreement -/

/-- There is at most one route for each topic in the levels, and the hash table maps the
topic to it and has no other entries. -/
structure HashAgrees (rb : RouteBroker Addr Cl Topic Data) : Prop where
  unique : ∀ i j a a' r r', .obj a ∈ (rb.level i).objList → .obj a' ∈ (rb.level j).objList →
    rb.store.heap a = some r → rb.store.heap a' = some r' → r.topic = r'.topic → a = a'
  iff : ∀ t a, rb.store.hash t = some a ↔
    ∃ r, rb.store.heap a = some r ∧ r.topic = t ∧ .obj a ∈ (rb.level r.pri).objList

/-- Every route on the heap is found by its topic. -/
def Store.Hashed (s : Store Addr Topic Data) : Prop :=
  ∀ a r, s.heap a = some r → s.hash r.topic = some a

section Agreement

variable {gen : Data → ℤ × Topic × Bool} {rb : RouteBroker Addr Cl Topic Data}

/-- In a sound state the routes on the heap are the listed ones. -/
theorem Sound.hashAgrees_iff (hs : Sound gen rb) : HashAgrees rb ↔ rb.store.Hashed := by
  constructor
  · intro h a r hr
    exact (h.iff r.topic a).mpr ⟨r, hr, rfl, hs.listed_of_heap hr⟩
  · intro h
    refine ⟨fun i j a a' r r' _ _ hr hr' ht => ?_, fun t a => ⟨fun hh => ?_, ?_⟩⟩
    · have h1 := h a r hr
      have h2 := h a' r' hr'
      rw [ht, h2] at h1
      exact (Option.some.inj h1).symm
    · obtain ⟨r, hr, ht⟩ := hs.hashed t a hh
      exact ⟨r, hr, ht, hs.listed_of_heap hr⟩
    · rintro ⟨r, hr, rfl, -⟩
      exact h a r hr

/-- Two routes with the same topic are the same. -/
theorem Store.Hashed.eq {s : Store Addr Topic Data} (h : s.Hashed) {a a' : Addr}
    {r r' : RibRoute Topic Data} (hr : s.heap a = some r) (hr' : s.heap a' = some r')
    (ht : r.topic = r'.topic) : a = a' := by
  have h1 := h a r hr
  rw [ht, h a' r' hr'] at h1
  exact (Option.some.inj h1).symm

end Agreement

variable [DecidableEq Addr] [DecidableEq Cl] [DecidableEq Topic]

/-! ## The operations -/

section Operations

variable {gen : Data → ℤ × Topic × Bool} {rb rb' : RouteBroker Addr Cl Topic Data} {a : Addr}
  {route r : RibRoute Topic Data} {del : Bool}

omit [DecidableEq Cl] in
/-- Freeing a route that is found by its topic removes its own entry. -/
theorem Store.Hashed.free {s : Store Addr Topic Data} (h : s.Hashed) (ha : s.heap a = some r) :
    (s.free a r.topic).Hashed := by
  intro a' r' hr'
  by_cases he : a' = a
  · simp [Store.free, he] at hr'
  · have hr : s.heap a' = some r' := by simpa [Store.free, he] using hr'
    have ht : r'.topic ≠ r.topic := fun ht => he (h.eq hr ha ht)
    show Function.update s.hash r.topic none r'.topic = some a'
    rw [Function.update_of_ne ht]
    exact h a' r' hr

theorem TidyStep.hashed (hs : Sound gen rb) (hstep : TidyStep rb rb') (h : rb.store.Hashed) :
    rb'.store.Hashed := by
  cases hstep with
  | cursor i b hl hlist hdel => exact h
  | unlink i a ha =>
    obtain ⟨r, hr, rfl⟩ := hs.heap_of_listed ha.1
    rw [delObjNow_store hs hr]
    exact h.free hr

theorem Tidy.hashed (htidy : Tidy rb rb') (hs : Sound gen rb) (h : rb.store.Hashed) :
    rb'.store.Hashed :=
  (htidy.induction (P := fun v => v.store.Hashed) (fun _ _ hs hstep => hstep.hashed hs) hs h).2

omit [DecidableEq Cl] [DecidableEq Topic] in
theorem Store.Hashed.setData (h : rb.store.Hashed) (ha : rb.store.heap a = some r) (d : Data) :
    (rb.setData a r d).store.Hashed := by
  intro a' r' hr'
  by_cases he : a' = a
  · rw [he, setData_heap_self] at hr'
    rw [← Option.some.inj hr', he]
    exact h a r ha
  · exact h a' r' ((touches_setData rb a r d).heap a' he ▸ hr')

theorem Store.Hashed.delObj (h : rb.store.Hashed) (hs : Sound gen rb) {i : Level}
    (ha : (rb.level i).Listed a) : (rb.delObj i a).store.Hashed := by
  by_cases hc : (rb.level i).clientList = []
  · obtain ⟨r, hr, -⟩ := hs.heap_of_listed ha
    rw [delObj_of_no_clients hc, delObjNow_store hs hr]
    exact h.free hr
  · rw [delObj_of_clients hc]
    exact h

/-- A new route is found if it is entered. -/
theorem Store.Hashed.added (h : rb.store.Hashed) (hp : Prepared gen rb a route del)
    (hnone : rb.store.hash route.topic = none) :
    ((rb.addObj a route).zhashInsert route.topic a).store.Hashed := by
  have hnone' : (rb.addObj a route).store.hash route.topic = none := by
    rw [addObj_hash]
    exact hnone
  rw [zhashInsert_store hnone']
  intro a' r' hr'
  show Function.update (rb.addObj a route).store.hash route.topic (some a) r'.topic = some a'
  by_cases he : a' = a
  · have hr : some { route with refcount := 1 } = some r' := by
      rw [he] at hr'
      exact (addObj_heap_self hp).symm.trans hr'
    rw [← Option.some.inj hr, Function.update_self, he]
  · have hr : rb.store.heap a' = some r' := by
      rw [← hr']
      show _ = (rb.addObj a route).store.heap a'
      rw [addObj_heap rb a route hp.refcount, Function.update_of_ne he]
    have ht : r'.topic ≠ route.topic := fun ht => by
      have hh := h a' r' hr
      rw [ht, hnone] at hh
      exact nomatch hh
    rw [Function.update_of_ne ht, addObj_hash]
    exact h a' r' hr

/-- A route that was linked but not entered is not found. -/
theorem not_hashed_movedDeleted (hs : Sound gen rb) (hp : Prepared gen rb a route del)
    (hnone : rb.store.hash route.topic = none) (hc : (rb.level route.pri).clientList ≠ []) :
    ¬ ((rb.addObj a route).delObj route.pri a).store.Hashed := by
  intro h
  have hclients : ((rb.addObj a route).level route.pri).clientList ≠ [] := by
    rw [(touches_addObj (a := a) hs hp.refcount).clients]
    exact hc
  rw [delObj_of_clients hclients] at h
  have hhash := h a _ (addObj_heap_self hp)
  have hsame : (rb.addObj a route).store.hash route.topic = some a := hhash
  rw [addObj_hash, hnone] at hsame
  exact nomatch hsame

/-- Without clients the new route goes as it came. -/
theorem movedDeleted_store (hs : Sound gen rb) (hp : Prepared gen rb a route del)
    (hnone : rb.store.hash route.topic = none) (hc : (rb.level route.pri).clientList = []) :
    ((rb.addObj a route).delObj route.pri a).store = rb.store := by
  have hclients : ((rb.addObj a route).level route.pri).clientList = [] := by
    rw [(touches_addObj (a := a) hs hp.refcount).clients]
    exact hc
  rw [delObj_of_no_clients hclients,
    delObjNow_store (hs.addObj hp.free hp.refcount hp.gen_ok) (addObj_heap_self hp)]
  unfold Store.free
  rw [addObj_hash, addObj_heap rb a route hp.refcount, Function.update_idem,
    Function.update_eq_self_iff.mpr hp.free.symm, Function.update_eq_self_iff.mpr hnone.symm]

end Operations

/-! ## Runs -/

section Runs

variable {gen : Data → ℤ × Topic × Bool} {copy : Data → Data}

/-- A delete that finds its topic stored at a lower priority (a greater number) than its
own, while clients are registered. -/
def RouteWorld.DeleteOvertakes (gen : Data → ℤ × Topic × Bool) (copy : Data → Data)
    (w : RouteWorld Addr Cl Topic Data) : RouteCall Addr Cl Data → Prop
  | .publish _ obj pri => 0 < (gen (copy obj)).1 ∧ (gen (copy obj)).2.2 = true ∧
      w.rb.clientList ≠ [] ∧ ∃ h r, w.rb.store.hash (gen (copy obj)).2.1 = some h ∧
        w.rb.store.heap h = some r ∧ pri < r.pri
  | _ => False

instance (gen : Data → ℤ × Topic × Bool) (copy : Data → Data)
    (w : RouteWorld Addr Cl Topic Data) (x : RouteCall Addr Cl Data) :
    Decidable (w.DeleteOvertakes gen copy x) :=
  match x with
  | .publish _ obj pri =>
    decidable_of_iff (0 < (gen (copy obj)).1 ∧ (gen (copy obj)).2.2 = true ∧
      w.rb.clientList ≠ [] ∧ ∃ h ∈ w.rb.store.hash (gen (copy obj)).2.1,
        ∃ r ∈ w.rb.store.heap h, pri < r.pri) (by simp [RouteWorld.DeleteOvertakes])
  | .clientCreate _ _ => isFalse id
  | .clientDelete _ => isFalse id
  | .clientGetData _ => isFalse id

/-- A publish keeps the hash table right exactly if it is not of that kind. -/
theorem Published.hashed_iff {rb rb' : RouteBroker Addr Cl Topic Data} {a : Addr}
    {route : RibRoute Topic Data} {del : Bool} (hc : Consistent gen rb)
    (hp : Prepared gen rb a route del) (hpub : Published rb a route del rb')
    (h : rb.store.Hashed) :
    rb'.store.Hashed ↔ ¬ (del = true ∧ rb.clientList ≠ [] ∧
      ∃ h r, rb.store.hash route.topic = some h ∧ rb.store.heap h = some r ∧
        route.pri < r.pri) := by
  have hs := hc.sound
  cases hpub with
  | unknown hnone =>
    refine iff_of_true h ?_
    rintro ⟨-, -, h, r, hh, -⟩
    rw [hnone] at hh
    exact nomatch hh
  | added hnone => exact iff_of_true (h.added hp hnone) (fun hx => Bool.noConfusion hx.1)
  | @deleted x hashed hh hheap hpri =>
    have hs' := hp.sound_setData hs hh hheap
    refine iff_of_true ((h.setData hheap route.data).delObj hs' (hs.listed_of_heap hheap)) ?_
    rintro ⟨-, -, y, r, hh', hr, hlt⟩
    rw [hh] at hh'
    rw [← Option.some.inj hh', hheap] at hr
    rw [← Option.some.inj hr] at hlt
    exact not_lt.mpr hpri hlt
  | updated hh hheap hpri =>
    rw [updObj_eq_mark]
    exact iff_of_true (h.setData hheap route.data) (fun hx => Bool.noConfusion hx.1)
  | @movedDeleted x hashed hh hheap hpri =>
    have hf := freed_delObjNow hs hheap
    have hp' := hp.of_freed hf hheap
    have hnone := hf.hash_eq_none (hs.hashed_topic hh hheap)
    have hclients : ((rb.delObjNow hashed.pri x).level route.pri).clientList = rb.clientList :=
      (hf.touches.clients route.pri).trans (hc.wired.clients route.pri)
    -- without clients the new route is freed again, with clients it stays without an entry
    by_cases hnil : rb.clientList = []
    · rw [movedDeleted_store hf.sound hp' hnone (hclients.trans hnil), hf.store]
      exact iff_of_true (h.free hheap) (fun hx => hx.2.1 hnil)
    · have hne : ((rb.delObjNow hashed.pri x).level route.pri).clientList ≠ [] := by
        rw [hclients]
        exact hnil
      refine iff_of_false (not_hashed_movedDeleted hf.sound hp' hnone hne) ?_
      exact fun hx => hx ⟨rfl, hnil, x, hashed, hh, hheap, hpri⟩
  | @moved x hashed hh hheap hpri =>
    have hf := freed_delObjNow hs hheap
    have hp' := hp.of_freed hf hheap
    have hnone := hf.hash_eq_none (hs.hashed_topic hh hheap)
    have hfree : (rb.delObjNow hashed.pri x).store.Hashed := by
      rw [hf.store]
      exact h.free hheap
    exact iff_of_true (hfree.added hp' hnone) (fun hx => Bool.noConfusion hx.1)

/-- **One call keeps the hash table right exactly if it is no overtaking delete.** -/
theorem routeCall_hashed_iff {w w' : RouteWorld Addr Cl Topic Data} {x : RouteCall Addr Cl Data}
    (hstep : w.call gen copy x = some w') (hc : Consistent gen w.rb) (h : w.rb.store.Hashed) :
    w'.rb.store.Hashed ↔ ¬ w.DeleteOvertakes gen copy x := by
  cases x with
  | publish a obj pri =>
    obtain ⟨ha, rfl⟩ := routeCall_publish.mp hstep
    have hc' := hc.counted
    by_cases hpos : 0 < (gen (copy obj)).1
    · rw [publish_rb_of_pos w hpos, (publishRoute_published hc'.sound _ _ _).hashed_iff hc'
        (prepared_newRoute ha hpos) h]
      exact not_congr ⟨fun hx => ⟨hpos, hx⟩, fun hx => hx.2⟩
    · rw [publish_rb_of_ignored w (not_lt.mp hpos)]
      exact iff_of_true h (fun hx => hpos hx.1)
  | clientCreate c name =>
    obtain ⟨-, rfl⟩ := routeCall_clientCreate.mp hstep
    exact iff_of_true h id
  | clientDelete c =>
    obtain ⟨-, rfl⟩ := routeCall_clientDelete.mp hstep
    exact iff_of_true ((tidy_clientDeleteLevels hc.sound c).hashed hc.sound h) id
  | clientGetData c =>
    obtain ⟨-, rfl⟩ := routeCall_clientGetData.mp hstep
    exact iff_of_true ((tidy_clientGetData hc.sound _ c).hashed hc.sound h) id

/-! ### One priority for each topic -/

/-- A publish that gives its topic the priority that the topic has. -/
def RouteCall.HasPriority (gen : Data → ℤ × Topic × Bool) (copy : Data → Data)
    (priorityOf : Topic → Level) : RouteCall Addr Cl Data → Prop
  | .publish _ obj pri => 0 < (gen (copy obj)).1 → pri = priorityOf (gen (copy obj)).2.1
  | _ => True

/-- Every route is stored at the priority of its topic. -/
def Store.Prioritised (s : Store Addr Topic Data) (priorityOf : Topic → Level) : Prop :=
  ∀ a r, s.heap a = some r → r.pri = priorityOf r.topic

omit [DecidableEq Cl] in
theorem Store.Prioritised.free {s : Store Addr Topic Data} {priorityOf : Topic → Level}
    (h : s.Prioritised priorityOf) (a : Addr) (t : Topic) : (s.free a t).Prioritised priorityOf := by
  intro a' r' hr'
  by_cases he : a' = a
  · simp [Store.free, he] at hr'
  · apply h a' r'
    simpa [Store.free, he] using hr'

theorem Store.Prioritised.delObj {rb : RouteBroker Addr Cl Topic Data} {priorityOf : Topic → Level}
    (h : rb.store.Prioritised priorityOf) (hs : Sound gen rb) {i : Level} {a : Addr}
    (ha : (rb.level i).Listed a) : (rb.delObj i a).store.Prioritised priorityOf := by
  by_cases hc : (rb.level i).clientList = []
  · obtain ⟨r, hr, -⟩ := hs.heap_of_listed ha
    rw [delObj_of_no_clients hc, delObjNow_store hs hr]
    exact h.free a r.topic
  · rw [delObj_of_clients hc]
    exact h

omit [DecidableEq Cl] [DecidableEq Topic] in
theorem Store.Prioritised.setData {rb : RouteBroker Addr Cl Topic Data} {priorityOf : Topic → Level}
    (h : rb.store.Prioritised priorityOf) {a : Addr} {r : RibRoute Topic Data}
    (ha : rb.store.heap a = some r) (d : Data) :
    (rb.setData a r d).store.Prioritised priorityOf :=
  fun _ _ hr' => forall_heap_update hr' h (h a r ha)

theorem Tidy.prioritised {rb rb' : RouteBroker Addr Cl Topic Data} {priorityOf : Topic → Level}
    (htidy : Tidy rb rb') (hs : Sound gen rb) (h : rb.store.Prioritised priorityOf) :
    rb'.store.Prioritised priorityOf :=
  fun a r hr => h a r (htidy.heap_of_heap hs hr)

/-- A publish at the priority of its topic never finds the topic at another one. -/
theorem Published.prioritised {rb rb' : RouteBroker Addr Cl Topic Data}
    {priorityOf : Topic → Level} {a : Addr} {route : RibRoute Topic Data} {del : Bool}
    (hs : Sound gen rb) (hp : Prepared gen rb a route del) (hpub : Published rb a route del rb')
    (h : rb.store.Prioritised priorityOf) (hpri : route.pri = priorityOf route.topic) :
    rb'.store.Prioritised priorityOf := by
  -- the stored route of the topic, if there is one, has the priority of the new one
  have hsame : ∀ {x : Addr} {hashed : RibRoute Topic Data},
      rb.store.hash route.topic = some x → rb.store.heap x = some hashed →
      hashed.pri = route.pri := by
    intro x hashed hh hheap
    rw [h x hashed hheap, hs.hashed_topic hh hheap, hpri]
  cases hpub with
  | unknown hnone => exact h
  | added hnone =>
    have hnone' : (rb.addObj a route).store.hash route.topic = none := by
      rw [addObj_hash]
      exact hnone
    rw [zhashInsert_store hnone']
    intro a' r' hr'
    have hr : Function.update rb.store.heap a (some { route with refcount := 1 }) a' = some r' := by
      rw [← addObj_heap rb a route hp.refcount]
      exact hr'
    exact forall_heap_update hr h hpri
  | @deleted x hashed hh hheap _ =>
    have hs' := hp.sound_setData hs hh hheap
    exact (h.setData hheap route.data).delObj hs' (hs.listed_of_heap hheap)
  | updated hh hheap _ =>
    rw [updObj_eq_mark]
    exact h.setData hheap route.data
  | movedDeleted hh hheap hlt => exact absurd (hsame hh hheap).symm hlt.ne
  | moved hh hheap hlt => exact absurd (hsame hh hheap).symm hlt.ne

theorem routeCall_prioritised {w w' : RouteWorld Addr Cl Topic Data} {x : RouteCall Addr Cl Data}
    {priorityOf : Topic → Level} (hstep : w.call gen copy x = some w') (hc : Consistent gen w.rb)
    (hx : x.HasPriority gen copy priorityOf) (h : w.rb.store.Prioritised priorityOf) :
    w'.rb.store.Prioritised priorityOf := by
  cases x with
  | publish a obj pri =>
    obtain ⟨ha, rfl⟩ := routeCall_publish.mp hstep
    have hc' := hc.counted
    by_cases hpos : 0 < (gen (copy obj)).1
    · rw [publish_rb_of_pos w hpos]
      exact (publishRoute_published hc'.sound _ _ _).prioritised hc'.sound
        (prepared_newRoute ha hpos) h (hx hpos)
    · rw [publish_rb_of_ignored w (not_lt.mp hpos)]
      exact h
  | clientCreate c name =>
    obtain ⟨-, rfl⟩ := routeCall_clientCreate.mp hstep
    exact h
  | clientDelete c =>
    obtain ⟨-, rfl⟩ := routeCall_clientDelete.mp hstep
    exact (tidy_clientDeleteLevels hc.sound c).prioritised hc.sound h
  | clientGetData c =>
    obtain ⟨-, rfl⟩ := routeCall_clientGetData.mp hstep
    exact (tidy_clientGetData hc.sound _ c).prioritised hc.sound h

/-- **With one priority for each topic no delete overtakes.** -/
theorem not_overtakes_of_priorities {priorityOf : Topic → Level}
    {xs : List (RouteCall Addr Cl Data)}
    (h : (routeSystem Addr Cl gen copy).Guarded (fun _ x => x.HasPriority gen copy priorityOf)
      .start xs) :
    (routeSystem Addr Cl gen copy).Guarded (fun w x => ¬ w.DeleteOvertakes gen copy x)
      .start xs := by
  refine h.of_invariant
    (P := fun w => Consistent gen w.rb ∧ w.rb.store.Prioritised priorityOf) ?_ ?_
    ⟨consistent_start, fun _ _ hr => by cases hr⟩
  · rintro w x w' ⟨hc, hprio⟩ hx hstep
    exact ⟨routeCall_consistent hstep hc, routeCall_prioritised hstep hc hx hprio⟩
  · rintro w x ⟨hc, hprio⟩ hx hover
    cases x with
    | publish a obj pri =>
      obtain ⟨hpos, -, -, y, r, hh, hr, hlt⟩ := hover
      rw [hx hpos, hprio y r hr, hc.sound.hashed_topic hh hr] at hlt
      exact lt_irrefl _ hlt
    | _ => exact hover

omit [DecidableEq Addr] [DecidableEq Cl] [DecidableEq Topic] in
theorem hashed_start : (RouteWorld.start : RouteWorld Addr Cl Topic Data).rb.store.Hashed :=
  fun _ _ h => nomatch h

/-- **Hash and lists agree exactly in the runs without overtaking deletes.**  Take any
sequence of calls.  In every state it passes through there is at most one route for each
topic, and the hash table maps a topic to a route if and only if that route is listed
in the level `route->pri` with that topic, exactly if no publish of a delete in it finds
its topic stored at a priority numerically greater than its own while a client is
registered. -/
theorem hash_agrees_iff (gen : Data → ℤ × Topic × Bool) (copy : Data → Data)
    (xs : List (RouteCall Addr Cl Data)) :
    (routeSystem Addr Cl gen copy).Along (fun w => HashAgrees w.rb) .start xs ↔
      (routeSystem Addr Cl gen copy).Guarded (fun w x => ¬ w.DeleteOvertakes gen copy x)
        .start xs := by
  have h0 : Consistent gen (RouteWorld.start : RouteWorld Addr Cl Topic Data).rb :=
    consistent_start
  refine System.along_iff_guarded (J := fun w => Consistent gen w.rb)
    (fun w x w' hc hstep => routeCall_consistent hstep hc) (fun w x w' hc h hstep => ?_)
    h0 (h0.sound.hashAgrees_iff.mpr hashed_start)
  rw [(routeCall_consistent hstep hc).sound.hashAgrees_iff]
  exact routeCall_hashed_iff hstep hc (hc.sound.hashAgrees_iff.mp h)

/-- A delete that overtakes: the topic `7` is stored in level `2` and deleted with the
priority `1` while a client is registered.  The tombstone is listed in level `1`, but
the hash table has no entry for its topic. -/
theorem tombstone_not_hashed :
    ∃ w, (routeSystem ℕ ℕ plainGen id).exec .start [.clientCreate 0 "dp",
        .publish 100 (7, 1, false) 2, .publish 101 (7, 2, true) 1] = some w ∧
      .obj 101 ∈ (w.rb.level 1).objList ∧ w.rb.store.hash 7 = none ∧ ¬ HashAgrees w.rb := by
  obtain ⟨w, hexec, hp⟩ := (routeSystem ℕ ℕ plainGen id).exists_of_exec_any .start
    [.clientCreate 0 "dp", .publish 100 (7, 1, false) 2, .publish 101 (7, 2, true) 1]
    (fun w => decide (.obj 101 ∈ (w.rb.level 1).objList ∧ w.rb.store.hash 7 = none ∧
      (w.rb.store.heap 101).map RibRoute.topic = some 7)) (by decide +kernel)
  rw [decide_eq_true_eq] at hp
  obtain ⟨hlist, hnone, htopic⟩ := hp
  refine ⟨w, hexec, hlist, hnone, fun hagree => ?_⟩
  have hc := reachable_consistent ⟨_, hexec⟩
  obtain ⟨r, hr, ht⟩ := Option.map_eq_some_iff.mp htopic
  have hh := hc.sound.hashAgrees_iff.mp hagree 101 r hr
  rw [ht, hnone] at hh
  exact nomatch hh

end Runs
