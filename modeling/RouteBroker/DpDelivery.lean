/-
# What arrives at a dataplane

The sessions of the dataplanes as clients of the route broker.  What can be seen of a run
of the threads are the calls to the broker and what `client_publish` sends.  The calls are
a run of the route broker, and what was sent for a session is what it was handed, up to the
object it is still trying to send (`dp_run`).

So what the sent messages say is what the published ones say, for all topics but those
that are under way: pending in a level of the broker, or at hand in the session.  With one
dataplane at a time that is so for the messages sent through the socket whose endpoint the
dataplane was told.

Main result: `dataplane_converges`.
-/
import RouteBroker.DpDataClient
import RouteBroker.RouteConverge

open Circleq Broker DataThread

/-- What can be seen of the threads. -/
inductive DpEvent (Addr Data : Type*)
  /-- a call to the route broker -/
  | call (c : RouteCall Addr ℕ Data)
  /-- `client_publish` has sent an object for a session, through a socket -/
  | sent (n : ℕ) (obj : Data) (sock : Option ℕ)

variable {Addr Uuid Topic Data : Type*}

namespace DpEvent

/-- The calls to the route broker, in order. -/
def callsIn (l : List (DpEvent Addr Data)) : List (RouteCall Addr ℕ Data) :=
  l.filterMap fun | .call c => some c | .sent .. => none

/-- The published objects, in order. -/
def publishedIn (l : List (DpEvent Addr Data)) : List Data :=
  l.filterMap fun | .call (.publish _ obj _) => some obj | _ => none

/-- What was sent for session `n`, in order. -/
def sentBy (n : ℕ) (l : List (DpEvent Addr Data)) : List Data :=
  l.filterMap fun
    | .call _ => none
    | .sent m obj _ => if m = n then some obj else none

/-- What was sent through the socket `k`, in order. -/
def sentOn (k : ℕ) (l : List (DpEvent Addr Data)) : List Data :=
  l.filterMap fun
    | .call _ => none
    | .sent _ obj sock => if sock = some k then some obj else none

@[simp] theorem callsIn_append (l m : List (DpEvent Addr Data)) :
    callsIn (l ++ m) = callsIn l ++ callsIn m := List.filterMap_append

@[simp] theorem publishedIn_append (l m : List (DpEvent Addr Data)) :
    publishedIn (l ++ m) = publishedIn l ++ publishedIn m := List.filterMap_append

@[simp] theorem sentBy_append (n : ℕ) (l m : List (DpEvent Addr Data)) :
    sentBy n (l ++ m) = sentBy n l ++ sentBy n m := List.filterMap_append

theorem sentBy_call (n : ℕ) (l : List (DpEvent Addr Data)) (c : RouteCall Addr ℕ Data) :
    sentBy n (l ++ [.call c]) = sentBy n l := by
  rw [sentBy_append]
  exact List.append_nil _

end DpEvent

open DpEvent

namespace DpWorld

/-- What can be seen of a step. -/
def events (s : DpWorld Addr Uuid Topic Data) :
    DpStep Addr Uuid Data → List (DpEvent Addr Data)
  | .publish a obj pri => [.call (.publish a obj pri)]
  | .thread n r =>
    match (s.session n).pc with
    | .start => [.call (.clientCreate n "dp")]
    | .polling => [.call (.clientGetData n)]
    | .sending obj => if r = .ok then [.sent n obj s.dpDataSock] else []
    | .stopping => [.call (.clientDelete n)]
    | _ => []
  | _ => []

/-- A publish of a delete that overtakes, as in `RouteWorld.DeleteOvertakes`. -/
def DeleteOvertakes [DecidableEq Topic] (gen : Data → ℤ × Topic × Bool)
    (s : DpWorld Addr Uuid Topic Data) : DpStep Addr Uuid Data → Prop
  | .publish _ obj pri => 0 < (gen obj).1 ∧ (gen obj).2.2 = true ∧ s.rb.clientList ≠ [] ∧
      ∃ h r, s.rb.store.hash (gen obj).2.1 = some h ∧ s.rb.store.heap h = some r ∧ pri < r.pri
  | _ => False

instance [DecidableEq Topic] (gen : Data → ℤ × Topic × Bool) (s : DpWorld Addr Uuid Topic Data)
    (x : DpStep Addr Uuid Data) : Decidable (s.DeleteOvertakes gen x) :=
  match x with
  | .publish _ obj pri =>
    decidable_of_iff (0 < (gen obj).1 ∧ (gen obj).2.2 = true ∧ s.rb.clientList ≠ [] ∧
      ∃ h ∈ s.rb.store.hash (gen obj).2.1, ∃ r ∈ s.rb.store.heap h, pri < r.pri)
      (by simp [DpWorld.DeleteOvertakes])
  | .connect _ | .stopped | .accept | .shutdown | .closeSession _ | .thread _ _ => isFalse id

end DpWorld

/-! ## Where the objects come from -/

/-- Whatever is stored or was received has been published, and was not ignored. -/
structure Sourced {Cl : Type*} (gen : Data → ℤ × Topic × Bool) (w : RouteWorld Addr Cl Topic Data) :
    Prop where
  stored : ∀ a r, w.rb.store.heap a = some r → r.data ∈ w.published
  received : ∀ c, ∀ d ∈ w.received c, d ∈ w.published ∧ 0 < (gen d).1

section Sources

variable [DecidableEq Addr] [DecidableEq Topic] {Cl : Type*} [DecidableEq Cl]
  {gen : Data → ℤ × Topic × Bool} {rb rb' : RouteBroker Addr Cl Topic Data}
  {w w' : RouteWorld Addr Cl Topic Data} {a a' : Addr} {r' : RibRoute Topic Data}

theorem heap_of_delObjNow (hs : Sound gen rb) {i : Level} {x : Addr} (hx : (rb.level i).Listed x)
    (h : (rb.delObjNow i x).store.heap a' = some r') : rb.store.heap a' = some r' := by
  obtain ⟨r, hr, -⟩ := hs.heap_of_listed hx
  rw [delObjNow_store hs hr] at h
  by_cases he : a' = x
  · simp [Store.free, he] at h
  · simpa [Store.free, he] using h

theorem heap_of_delObj (hs : Sound gen rb) {i : Level} {x : Addr} (hx : (rb.level i).Listed x)
    (h : (rb.delObj i x).store.heap a' = some r') : rb.store.heap a' = some r' := by
  by_cases hc : (rb.level i).clientList = []
  · rw [delObj_of_no_clients hc] at h
    exact heap_of_delObjNow hs hx h
  · rw [delObj_of_clients hc] at h
    exact h

/-- The data of a route after a publish is the one before, or that of the new route. -/
theorem Published.data_of_heap {route : RibRoute Topic Data} {del : Bool} (hs : Sound gen rb)
    (hp : Prepared gen rb a route del) (hpub : Published rb a route del rb')
    (h : rb'.store.heap a' = some r') :
    r'.data = route.data ∨ ∃ r, rb.store.heap a' = some r ∧ r.data = r'.data := by
  -- an entry of the heap that is written, with data of the new route
  have hupdate : ∀ {v : RouteBroker Addr Cl Topic Data} {x : Addr} {r : RibRoute Topic Data},
      r.data = route.data → Function.update v.store.heap x (some r) a' = some r' →
      r'.data = route.data ∨ v.store.heap a' = some r' := by
    intro v x r hr hx
    by_cases he : a' = x
    · rw [he, Function.update_self] at hx
      exact Or.inl (Option.some.inj hx ▸ hr)
    · rw [Function.update_of_ne he] at hx
      exact Or.inr hx
  have hadd : ∀ {v : RouteBroker Addr Cl Topic Data},
      (v.addObj a route).store.heap a' = some r' →
      r'.data = route.data ∨ v.store.heap a' = some r' := by
    intro v hv
    rw [addObj_heap v a route hp.refcount] at hv
    exact hupdate (r := { route with refcount := 1 }) rfl hv
  have hzhash : ∀ {v : RouteBroker Addr Cl Topic Data},
      (v.zhashInsert route.topic a).store.heap = v.store.heap := by
    intro v
    unfold RouteBroker.zhashInsert Store.zhashInsert
    cases v.store.hash route.topic <;> rfl
  cases hpub with
  | unknown hnone => exact Or.inr ⟨r', h, rfl⟩
  | added hnone =>
    rw [hzhash] at h
    exact (hadd h).imp_right fun h => ⟨r', h, rfl⟩
  | @deleted x hashed hh hheap _ =>
    have hs' := hp.sound_setData hs hh hheap
    have h' := heap_of_delObj hs' (hs.listed_of_heap hheap) h
    exact (hupdate (r := { hashed with data := route.data }) rfl h').imp_right
      fun h => ⟨r', h, rfl⟩
  | @updated x hashed hh hheap _ =>
    rw [updObj_eq_mark] at h
    exact (hupdate (r := { hashed with data := route.data }) rfl h).imp_right
      fun h => ⟨r', h, rfl⟩
  | @movedDeleted x hashed hh hheap _ =>
    have hlisted := hs.listed_of_heap hheap
    have hf := freed_delObjNow hs hheap
    have hp' := hp.of_freed hf hheap
    have hs' := hf.sound.addObj hp'.free hp'.refcount hp'.gen_ok
    rcases hadd (heap_of_delObj hs' (addObj_listed_self hp' hs') h) with h | h
    · exact Or.inl h
    · exact Or.inr ⟨r', heap_of_delObjNow hs hlisted h, rfl⟩
  | @moved x hashed hh hheap _ =>
    rw [hzhash] at h
    rcases hadd h with h | h
    · exact Or.inl h
    · exact Or.inr ⟨r', heap_of_delObjNow hs (hs.listed_of_heap hheap) h, rfl⟩

theorem routeCall_sourced {x : RouteCall Addr Cl Data}
    (hstep : w.call gen (fun d => d) x = some w') (hc : Consistent gen w.rb)
    (h : Sourced gen w) : Sourced gen w' := by
  cases x with
  | publish a obj pri =>
    obtain ⟨ha, rfl⟩ := routeCall_publish.mp hstep
    have hc' := hc.counted
    have hmono : ∀ {d}, d ∈ w.published → d ∈ w.published ++ [obj] :=
      fun hd => List.mem_append_left _ hd
    refine ⟨fun a' r' hr' => ?_, fun c d hd => ⟨hmono (h.received c d hd).1, (h.received c d hd).2⟩⟩
    by_cases hpos : 0 < (gen obj).1
    · rw [publish_rb_of_pos w hpos] at hr'
      rcases (publishRoute_published hc'.sound _ _ _).data_of_heap hc'.sound
        (prepared_newRoute ha hpos) hr' with hnew | ⟨r, hr, hdata⟩
      · rw [hnew]
        exact List.mem_append_right _ List.mem_cons_self
      · rw [← hdata]
        exact hmono (h.stored a' r hr)
    · rw [publish_rb_of_ignored w (not_lt.mp hpos)] at hr'
      exact hmono (h.stored a' r' hr')
  | clientCreate c name =>
    obtain ⟨-, rfl⟩ := routeCall_clientCreate.mp hstep
    refine ⟨h.stored, fun c' d hd => ?_⟩
    change d ∈ Function.update w.received c [] c' at hd
    by_cases he : c' = c
    · rw [he, Function.update_self] at hd
      cases hd
    · rw [Function.update_of_ne he] at hd
      exact h.received c' d hd
  | clientDelete c =>
    obtain ⟨-, rfl⟩ := routeCall_clientDelete.mp hstep
    exact ⟨fun a r hr => h.stored a r
      ((tidy_clientDeleteLevels hc.sound c).heap_of_heap hc.sound hr), h.received⟩
  | clientGetData c =>
    obtain ⟨hmem, rfl⟩ := routeCall_clientGetData.mp hstep
    refine ⟨fun a r hr => h.stored a r
      ((tidy_clientGetData hc.sound _ c).heap_of_heap hc.sound hr), fun c' d hd => ?_⟩
    change d ∈ Function.update w.received c
      (w.received c ++ (w.rb.clientGetData (fun d => some d) c).1.1.toList) c' at hd
    by_cases he : c' = c
    · rw [he, Function.update_self] at hd
      rcases List.mem_append.mp hd with hd | hd
      · exact h.received c d hd
      · cases hav : w.rb.dataAvailableForClient c with
        | none =>
          unfold RouteBroker.clientGetData at hd
          rw [hav] at hd
          cases hd
        | some i =>
          cases hnext : brokerGetNextDataObj (w.rb.level i) (.client c) with
          | none =>
            rw [clientGetData_of_phantom hc.wired hmem _ hav hnext] at hd
            cases hd
          | some b =>
            obtain ⟨x, rfl, -⟩ := getNextDataObj_eq_some (hc.sound.linked i) hnext
            obtain ⟨r, hr, -, hget⟩ := clientGetData_of_next hc hmem (fun d => d) hav hnext
            rw [hget] at hd
            obtain rfl := List.mem_singleton.mp hd
            exact ⟨h.stored x r hr, (hc.sound.topic x r hr).1⟩
    · rw [Function.update_of_ne he] at hd
      exact h.received c' d hd

/-- **Nothing comes from nowhere.** -/
theorem reachable_sourced {xs : List (RouteCall Addr Cl Data)}
    (h : (routeSystem Addr Cl gen id).exec .start xs = some w) : Sourced gen w := by
  refine (System.exec_induction (P := fun w => Consistent gen w.rb ∧ Sourced gen w) ?_ h
    ⟨consistent_start, fun _ _ hr => (by cases hr), fun _ _ hd => absurd hd List.not_mem_nil⟩).2
  rintro w x w' ⟨hc, hw⟩ hstep
  exact ⟨routeCall_consistent hstep hc, routeCall_sourced hstep hc hw⟩

end Sources

/-! ## The books of the sessions -/

/-- What is known about a session at the call `pc`: whether it is a client of the broker,
what it received as such, and what was sent for it. -/
def Account (isClient : Prop) (received sent : List Data) : Pc Data → Prop
  | .start => ¬ isClient ∧ sent = []
  | .stopping => isClient
  | .closing | .done => ¬ isClient
  | pc => isClient ∧ received = sent ++ (atHand pc).toList

/-- The calls that were seen lead to the state `w` of the route broker, which is the one of
`s`, and the books of all sessions are right. -/
structure Accounts [DecidableEq Addr] [DecidableEq Topic] (gen : Data → ℤ × Topic × Bool)
    (s : DpWorld Addr Uuid Topic Data) (l : List (DpEvent Addr Data))
    (w : RouteWorld Addr ℕ Topic Data) : Prop where
  run : (routeSystem Addr ℕ gen id).exec .start (callsIn l) = some w
  rb : w.rb = s.rb
  published : w.published = publishedIn l
  unborn : ∀ n, s.sessions ≤ n → sentBy n l = []
  account : ∀ n, Account (n ∈ s.rb.clientList) (w.received n) (sentBy n l) (s.session n).pc

section Books

variable [DecidableEq Addr] [DecidableEq Topic] {gen : Data → ℤ × Topic × Bool}
  {s t : DpWorld Addr Uuid Topic Data} {l m : List (DpEvent Addr Data)}
  {w w' : RouteWorld Addr ℕ Topic Data} {n : ℕ} {S' : Session Uuid Data}

theorem Accounts.consistent (h : Accounts gen s l w) : Consistent gen w.rb :=
  reachable_consistent ⟨callsIn l, h.run⟩

/-- A step of session `n` leaves the books of the others alone. -/
theorem Accounts.frame (h : Accounts gen s l w) (hn : n < s.sessions)
    (hrun : (routeSystem Addr ℕ gen id).exec .start (callsIn m) = some w') (hrb : w'.rb = t.rb)
    (hpublished : w'.published = publishedIn m) (hsessions : t.sessions = s.sessions)
    (hsession : t.session = Function.update s.session n S')
    (hothers : ∀ k, k ≠ n → (k ∈ t.rb.clientList ↔ k ∈ s.rb.clientList) ∧
      w'.received k = w.received k ∧ sentBy k m = sentBy k l)
    (hself : Account (n ∈ t.rb.clientList) (w'.received n) (sentBy n m) S'.pc) :
    Accounts gen t m w' := by
  refine ⟨hrun, hrb, hpublished, fun k hk => ?_, fun k => ?_⟩
  · rw [hsessions] at hk
    rw [(hothers k (by omega)).2.2]
    exact h.unborn k hk
  · rw [hsession]
    by_cases he : k = n
    · rw [he, Function.update_self]
      exact hself
    · obtain ⟨hclients, hreceived, hsent⟩ := hothers k he
      rw [Function.update_of_ne he, hreceived, hsent]
      unfold Account
      simp only [hclients]
      exact h.account k

/-- A step that shows nothing and has nothing to do with the broker. -/
theorem Accounts.silent (h : Accounts gen s l w) (hn : n < s.sessions) (hrb : t.rb = s.rb)
    (hsessions : t.sessions = s.sessions) (hsession : t.session = Function.update s.session n S')
    (hself : Account (n ∈ s.rb.clientList) (w.received n) (sentBy n l) S'.pc) :
    Accounts gen t l w := by
  apply h.frame hn h.run (h.rb.trans hrb.symm) h.published hsessions hsession
  · intro k _
    rw [hrb]
    exact ⟨Iff.rfl, rfl, rfl⟩
  · rw [hrb]
    exact hself

/-- `client_needs_restart` gives nothing away. -/
theorem Accounts.needsRestart (h : Accounts gen s l w) (hn : n < s.sessions) {pc : Pc Data}
    (hclient : n ∈ s.rb.clientList)
    (hself : Account (n ∈ s.rb.clientList) (w.received n) (sentBy n l) pc) :
    Accounts gen (s.needsRestart n pc) l w := by
  unfold DpWorld.needsRestart
  split_ifs
  · exact h.silent hn rfl rfl rfl hclient
  · exact h.silent hn rfl rfl rfl hself

/-- One more call. -/
theorem Accounts.run_call (h : Accounts gen s l w) {c : RouteCall Addr ℕ Data}
    (hcall : w.call gen (fun d => d) c = some w') :
    (routeSystem Addr ℕ gen id).exec .start (callsIn (l ++ [.call c])) = some w' := by
  rw [callsIn_append, System.exec_append_eq_some]
  exact ⟨w, h.run, (System.exec_cons_eq_some _).mpr ⟨w', hcall, rfl⟩⟩

/-- A call of session `n`, which publishes nothing. -/
theorem Accounts.call (h : Accounts gen s l w) (hn : n < s.sessions) {c : RouteCall Addr ℕ Data}
    (hcall : w.call gen (fun d => d) c = some w') (hrb : w'.rb = t.rb)
    (hpublished : w'.published = w.published ∧
      publishedIn ([.call c] : List (DpEvent Addr Data)) = [])
    (hsessions : t.sessions = s.sessions) (hsession : t.session = Function.update s.session n S')
    (hclients : ∀ k, k ≠ n → (k ∈ t.rb.clientList ↔ k ∈ s.rb.clientList))
    (hreceived : ∀ k, k ≠ n → w'.received k = w.received k)
    (hself : Account (n ∈ t.rb.clientList) (w'.received n) (sentBy n l) S'.pc) :
    Accounts gen t (l ++ [.call c]) w' := by
  apply h.frame hn (h.run_call hcall) hrb ?_ hsessions hsession
  · intro k hk
    exact ⟨hclients k hk, hreceived k hk, sentBy_call k l c⟩
  · rw [sentBy_call]
    exact hself
  · rw [publishedIn_append, hpublished.1, hpublished.2, List.append_nil]
    exact h.published

/-- `route_broker_client_create` in a session. -/
theorem Accounts.create (h : Accounts gen s l w) (hn : n < s.sessions)
    (hpc : (s.session n).pc = .start) :
    ∃ w', Accounts gen { s.setSession n { s.session n with pc := .created } with
      rb := s.rb.clientCreate n "dp" } (l ++ [.call (.clientCreate n "dp")]) w' := by
  have hacc := h.account n
  rw [hpc] at hacc
  obtain ⟨hnew, hsent⟩ := hacc
  have hcall : w.call gen (fun d => d) (.clientCreate n "dp") = some (w.clientCreate n "dp") :=
    routeCall_clientCreate.mpr ⟨by rw [h.rb]; exact hnew, rfl⟩
  refine ⟨_, h.call hn hcall ?_ ⟨rfl, rfl⟩ rfl rfl (fun k hk => ?_) (fun k hk => ?_) ?_⟩
  · show w.rb.clientCreate n "dp" = s.rb.clientCreate n "dp"
    rw [h.rb]
  · show k ∈ n :: s.rb.clientList ↔ _
    rw [List.mem_cons]
    exact or_iff_right hk
  · exact Function.update_of_ne hk _ _
  · show n ∈ n :: s.rb.clientList ∧ Function.update w.received n [] n = _
    rw [Function.update_self, hsent]
    exact ⟨List.mem_cons_self, rfl⟩

/-- `route_broker_client_get_data` in a session: what it returns is at hand. -/
theorem Accounts.getData (h : Accounts gen s l w) (hn : n < s.sessions)
    (hpc : (s.session n).pc = .polling) {got : Option Data}
    (hgot : (s.rb.clientGetData (fun d => some d) n).1.1 = got) :
    ∃ w', Accounts gen
      { s.setSession n { s.session n with pc := got.elim .checking .sending } with
        rb := (s.rb.clientGetData (fun d => some d) n).2 }
      (l ++ [.call (.clientGetData n)]) w' := by
  have hacc := h.account n
  rw [hpc] at hacc
  obtain ⟨hmem, hrec⟩ := hacc
  have hlist : (s.rb.clientGetData (fun d => some d) n).2.clientList = s.rb.clientList := by
    unfold RouteBroker.clientGetData
    cases s.rb.dataAvailableForClient n <;> rfl
  have hcall : w.call gen (fun d => d) (.clientGetData n)
      = some (w.clientGetData (fun d => d) n) :=
    routeCall_clientGetData.mpr ⟨by rw [h.rb]; exact hmem, rfl⟩
  have hreceived : (w.clientGetData (fun d => d) n).received n = sentBy n l ++ got.toList := by
    show Function.update w.received n (w.received n ++
      (w.rb.clientGetData (fun d => some d) n).1.1.toList) n = _
    rw [Function.update_self, hrec, h.rb, hgot]
    exact congrArg (· ++ got.toList) (List.append_nil _)
  refine ⟨_, h.call hn hcall ?_ ⟨rfl, rfl⟩ rfl rfl (fun k hk => ?_) (fun k hk => ?_) ?_⟩
  · show (w.rb.clientGetData (fun d => some d) n).2 = _
    rw [h.rb]
  · show k ∈ (s.rb.clientGetData (fun d => some d) n).2.clientList ↔ _
    rw [hlist]
  · exact Function.update_of_ne hk _ _
  · show Account (n ∈ (s.rb.clientGetData (fun d => some d) n).2.clientList) _ _
      (got.elim .checking .sending)
    rw [hlist, hreceived]
    cases got with
    | none => exact ⟨hmem, rfl⟩
    | some obj => exact ⟨hmem, rfl⟩

/-- `route_broker_client_delete` in a session. -/
theorem Accounts.delete (h : Accounts gen s l w) (hn : n < s.sessions)
    (hpc : (s.session n).pc = .stopping) :
    ∃ w', Accounts gen { s.setSession n { s.session n with pc := .closing } with
      rb := s.rb.clientDelete n } (l ++ [.call (.clientDelete n)]) w' := by
  have hmem : n ∈ s.rb.clientList := by
    have hacc := h.account n
    rw [hpc] at hacc
    exact hacc
  have hcons := h.consistent
  rw [h.rb] at hcons
  have hcall : w.call gen (fun d => d) (.clientDelete n) = some (w.clientDelete n) :=
    routeCall_clientDelete.mpr ⟨by rw [h.rb]; exact hmem, rfl⟩
  have hlist : ∀ k, k ∈ (s.rb.clientDelete n).clientList ↔ k ≠ n ∧ k ∈ s.rb.clientList := by
    intro k
    rw [hcons.clientDelete_clientList hmem]
    exact mem_remove hcons.clients_nodup
  refine ⟨_, h.call hn hcall ?_ ⟨rfl, rfl⟩ rfl rfl (fun k hk => ?_) (fun _ _ => rfl) ?_⟩
  · show w.rb.clientDelete n = s.rb.clientDelete n
    rw [h.rb]
  · show k ∈ (s.rb.clientDelete n).clientList ↔ _
    rw [hlist]
    exact and_iff_right hk
  · show n ∉ (s.rb.clientDelete n).clientList
    rw [hlist]
    exact fun hx => hx.1 rfl

/-- `client_publish` in a session. -/
theorem Accounts.send (h : Accounts gen s l w) (hn : n < s.sessions) {obj : Data}
    (hpc : (s.session n).pc = .sending obj) (r : SendResult)
    (hS : S'.pc = if r = .ok then .checking else .failed obj) (hrb : t.rb = s.rb)
    (hsessions : t.sessions = s.sessions)
    (hsession : t.session = Function.update s.session n S') :
    Accounts gen t (l ++ if r = .ok then [.sent n obj s.dpDataSock] else []) w := by
  have hacc := h.account n
  rw [hpc] at hacc
  split_ifs at hS ⊢ with hr
  · apply h.frame hn ?_ (h.rb.trans hrb.symm) ?_ hsessions hsession
    · intro k hk
      rw [hrb, sentBy_append]
      refine ⟨Iff.rfl, rfl, ?_⟩
      simp [sentBy, Ne.symm hk]
    · rw [hrb, hS, sentBy_append]
      refine ⟨hacc.1, hacc.2.trans ?_⟩
      simp [sentBy, atHand]
    · rw [callsIn_append]
      exact (congrArg _ (List.append_nil _)).trans h.run
    · rw [publishedIn_append, h.published]
      exact (List.append_nil _).symm
  · rw [List.append_nil]
    apply h.silent hn hrb hsessions hsession
    rw [hS]
    exact hacc

/-- **A data thread keeps the books right.** -/
theorem Accounts.thread (h : Accounts gen s l w) (hn : n < s.sessions) {r : SendResult}
    (hstep : s.thread (succeeding gen id) n r = some t) :
    ∃ w', Accounts gen t (l ++ s.events (.thread n r)) w' := by
  have hacc := h.account n
  cases hpc : (s.session n).pc with
  | start =>
    rw [DpWorld.thread, hpc] at hstep
    rw [DpWorld.events, hpc]
    cases hstep
    exact h.create hn hpc
  | polling =>
    rw [DpWorld.thread, hpc] at hstep
    rw [DpWorld.events, hpc]
    cases hstep
    exact h.getData hn hpc rfl
  | sending obj =>
    rw [DpWorld.thread, hpc] at hstep
    rw [DpWorld.events, hpc]
    refine ⟨w, ?_⟩
    cases r with
    | ok =>
      cases hstep
      exact h.send hn hpc .ok rfl rfl rfl rfl
    | again =>
      cases hstep
      exact h.send hn hpc .again rfl rfl rfl rfl
    | error =>
      cases hstep
      exact h.send hn hpc .error rfl rfl rfl rfl
  | failed obj =>
    rw [DpWorld.thread, hpc] at hstep
    rw [hpc] at hacc
    cases hstep
    rw [DpWorld.events, hpc, List.append_nil]
    exact ⟨w, h.needsRestart hn hacc.1 hacc⟩
  | checking =>
    rw [DpWorld.thread, hpc] at hstep
    rw [hpc] at hacc
    cases hstep
    rw [DpWorld.events, hpc, List.append_nil]
    exact ⟨w, h.needsRestart hn hacc.1 hacc⟩
  | stopping =>
    rw [DpWorld.thread, hpc] at hstep
    rw [DpWorld.events, hpc]
    cases hstep
    exact h.delete hn hpc
  | done =>
    rw [DpWorld.thread, hpc] at hstep
    cases hstep
  | _ =>
    -- the socket is none of the concern of the broker
    rw [DpWorld.thread, hpc] at hstep
    rw [hpc] at hacc
    cases hstep
    rw [DpWorld.events, hpc, List.append_nil]
    exact ⟨w, h.silent hn rfl rfl rfl hacc⟩

end Books

/-! ## Runs -/

/-- What holds along a run of the threads, for a state and what was seen on the way to it. -/
structure Delivering [DecidableEq Addr] [DecidableEq Topic] (gen : Data → ℤ × Topic × Bool)
    (s : DpWorld Addr Uuid Topic Data) (l : List (DpEvent Addr Data)) : Prop where
  staffed : Staffed s
  books : ∃ w, Accounts gen s l w
  attempted : ∀ n obj sock, .sent n obj sock ∈ l → (n, obj, sock) ∈ s.published

section Runs

variable [DecidableEq Addr] [DecidableEq Topic] {gen : Data → ℤ × Topic × Bool}
  {s t : DpWorld Addr Uuid Topic Data} {l : List (DpEvent Addr Data)}
  {w : RouteWorld Addr ℕ Topic Data} {init : ObjectBrokerInit Topic Data}

/-- A step of the control thread that touches no session. -/
theorem Accounts.congr (h : Accounts gen s l w) (hrb : t.rb = s.rb)
    (hsessions : t.sessions = s.sessions) (hsession : t.session = s.session) :
    Accounts gen t l w := by
  refine ⟨h.run, h.rb.trans hrb.symm, h.published, ?_, ?_⟩
  · rw [hsessions]
    exact h.unborn
  · rw [hrb, hsession]
    exact h.account

/-- `object_broker_publish`. -/
theorem Accounts.publish (h : Accounts gen s l w) {a : Addr} {obj : Data} {pri : Level}
    (ha : s.rb.store.heap a = none) : ∃ w', Accounts gen
      { s with rb := (s.rb.objectBrokerPublish (succeeding gen id) (some a) obj pri).1 }
      (l ++ [.call (.publish a obj pri)]) w' := by
  rw [← h.rb] at ha
  have hcall : w.call gen (fun d => d) (.publish a obj pri)
      = some (w.publish gen (fun d => d) a obj pri) := routeCall_publish.mpr ⟨ha, rfl⟩
  have hc' : Consistent gen w.rb.counted := h.consistent.counted
  have hlist : (w.publish gen (fun d => d) a obj pri).rb.clientList = w.rb.clientList := by
    by_cases hpos : 0 < (gen obj).1
    · rw [publish_rb_of_pos w hpos]
      exact (publishRoute_published hc'.sound _ _ _).sameClients.clientList
    · rw [publish_rb_of_ignored w (not_lt.mp hpos)]
      rfl
  have hrb : (w.publish gen (fun d => d) a obj pri).rb
      = (s.rb.objectBrokerPublish (succeeding gen id) (some a) obj pri).1 := by
    rw [← h.rb]
    rfl
  refine ⟨_, h.run_call hcall, hrb, ?_, fun n hn => ?_, fun n => ?_⟩
  · rw [publishedIn_append, ← h.published]
    rfl
  · rw [sentBy_call]
    exact h.unborn n hn
  · rw [sentBy_call, ← hrb, hlist, h.rb]
    exact h.account n

omit [DecidableEq Addr] [DecidableEq Topic] in
/-- Only `client_publish` sends. -/
theorem sent_mem_events {m n : ℕ} {r : SendResult} {obj : Data} {sock : Option ℕ}
    (h : .sent m obj sock ∈ s.events (.thread n r)) :
    m = n ∧ sock = s.dpDataSock ∧ (s.session n).pc = .sending obj := by
  rw [DpWorld.events] at h
  cases hpc : (s.session n).pc with
  | sending obj' =>
    rw [hpc] at h
    dsimp only at h
    split_ifs at h
    · cases List.mem_singleton.mp h
      exact ⟨rfl, rfl, rfl⟩
    · cases h
  | _ =>
    rw [hpc] at h
    simp at h

/-- What a data thread has passed to `client_publish` stays, and what it sends is there
too. -/
theorem published_thread {n : ℕ} {r : SendResult} (h : s.thread init n r = some t) :
    (∀ p ∈ s.published, p ∈ t.published) ∧
      ∀ m obj sock, .sent m obj sock ∈ s.events (.thread n r) → (m, obj, sock) ∈ t.published := by
  by_cases hsend : ∃ obj, (s.session n).pc = .sending obj
  · obtain ⟨obj, hpc⟩ := hsend
    have ht : t.published = s.published ++ [(n, obj, s.dpDataSock)] := by
      rw [DpWorld.thread, hpc] at h
      cases r <;>
      · cases h
        rfl
    rw [ht]
    refine ⟨fun p hp => List.mem_append_left _ hp, fun m obj' sock hm => ?_⟩
    obtain ⟨rfl, rfl, hpc'⟩ := sent_mem_events hm
    rw [hpc] at hpc'
    cases hpc'
    exact List.mem_append_right _ List.mem_cons_self
  · have ht : t.published = s.published := by
      have hrestart : ∀ pc, (s.needsRestart n pc).published = s.published := by
        intro pc
        unfold DpWorld.needsRestart
        split_ifs <;> rfl
      cases hpc : (s.session n).pc with
      | sending obj => exact absurd ⟨obj, hpc⟩ hsend
      | failed obj =>
        rw [DpWorld.thread, hpc] at h
        cases h
        exact hrestart _
      | checking =>
        rw [DpWorld.thread, hpc] at h
        cases h
        exact hrestart _
      | done =>
        rw [DpWorld.thread, hpc] at h
        cases h
      | _ =>
        rw [DpWorld.thread, hpc] at h
        cases h
        rfl
    rw [ht]
    refine ⟨fun p hp => hp, fun m obj sock hm => absurd ⟨obj, ?_⟩ hsend⟩
    exact (sent_mem_events hm).2.2

variable [DecidableEq Uuid] {x : DpStep Addr Uuid Data}

theorem Accounts.closeDpSession (h : Accounts gen s l w) {u : Uuid} {n : ℕ} (hn : n < s.sessions)
    (next : Option Uuid) : Accounts gen (s.closeDpSession u n next) l w :=
  h.silent hn rfl rfl rfl (h.account n)

theorem Accounts.startNewDpDataThread (h : Accounts gen s l w) (hs : Staffed s) (u : Uuid) :
    Accounts gen (s.startNewDpDataThread u) l w := by
  refine ⟨h.run, h.rb, h.published, fun n hn => h.unborn n (Nat.le_of_succ_le hn), fun n => ?_⟩
  have hacc := h.account n
  show Account (n ∈ s.rb.clientList) _ _ (Function.update s.session s.sessions _ n).pc
  by_cases he : n = s.sessions
  · -- the session that had this number until now has never run
    rw [he, (hs.unborn s.sessions le_rfl).1] at hacc
    rw [he, Function.update_self]
    exact ⟨hacc, h.unborn s.sessions le_rfl⟩
  · rw [Function.update_of_ne he]
    exact hacc

/-- **Every step keeps the books right.** -/
theorem Delivering.step (h : Delivering gen s l)
    (hstep : s.step (succeeding gen id) x = some t) :
    Delivering gen t (l ++ s.events x) := by
  obtain ⟨w, hacc⟩ := h.books
  -- the control thread shows nothing
  have hquiet : ∀ {t : DpWorld Addr Uuid Topic Data}, s.events x = [] → Staffed t →
      Accounts gen t l w → t.published = s.published → Delivering gen t (l ++ s.events x) := by
    intro t hev hs ht hpub
    rw [hev, List.append_nil]
    refine ⟨hs, ⟨w, ht⟩, fun n obj sock hm => ?_⟩
    rw [hpub]
    exact h.attempted n obj sock hm
  have hs' := h.staffed.step hstep
  cases x with
  | connect u =>
    obtain ⟨-, rfl⟩ := dpStep_connect.mp hstep
    unfold DpWorld.processConnectMessage at hs' ⊢
    cases hu : s.table u with
    | none =>
      rw [hu] at hs'
      exact hquiet rfl hs' (hacc.startNewDpDataThread h.staffed u) rfl
    | some n =>
      rw [hu] at hs'
      exact hquiet rfl hs' (hacc.closeDpSession (h.staffed.table u n hu) (some u)) rfl
  | stopped =>
    obtain ⟨next, n, -, -, rfl⟩ := dpStep_stopped.mp hstep
    cases next with
    | none => exact hquiet rfl hs' (hacc.congr rfl rfl rfl) rfl
    | some u => exact hquiet rfl hs' (hacc.startNewDpDataThread h.staffed u) rfl
  | accept =>
    obtain ⟨u, n, -, -, rfl⟩ := dpStep_accept.mp hstep
    exact hquiet rfl hs' (hacc.congr rfl rfl rfl) rfl
  | shutdown =>
    obtain ⟨-, rfl⟩ := dpStep_shutdown.mp hstep
    exact hquiet rfl hs' (hacc.congr rfl rfl rfl) rfl
  | closeSession u =>
    obtain ⟨-, n, hu, rfl⟩ := dpStep_closeSession.mp hstep
    exact hquiet rfl hs' (hacc.closeDpSession (h.staffed.table u n hu) none) rfl
  | publish a obj pri =>
    obtain ⟨ha, rfl⟩ := dpStep_publish.mp hstep
    refine ⟨hs', hacc.publish ha, fun n obj' sock hm => h.attempted n obj' sock ?_⟩
    rcases List.mem_append.mp hm with hm | hm
    · exact hm
    · cases List.mem_singleton.mp hm
  | thread n r =>
    have hthread : s.thread (succeeding gen id) n r = some t := hstep
    have hn : n < s.sessions := by
      by_contra hle
      rw [DpWorld.thread, (h.staffed.unborn n (not_lt.mp hle)).1] at hthread
      cases hthread
    obtain ⟨hkept, hsent⟩ := published_thread hthread
    refine ⟨hs', hacc.thread hn hthread, fun m obj sock hm => ?_⟩
    rcases List.mem_append.mp hm with hm | hm
    · exact hkept _ (h.attempted m obj sock hm)
    · exact hsent m obj sock hm

omit [DecidableEq Uuid] in
theorem delivering_start : Delivering gen (DpWorld.start : DpWorld Addr Uuid Topic Data) [] where
  staffed := ⟨fun _ _ h => (by cases h), fun _ _ => ⟨rfl, rfl⟩,
    fun _ h => absurd h (Nat.not_lt_zero _)⟩
  books := ⟨.start, rfl, rfl, rfl, fun _ _ => rfl, fun _ => List.not_mem_nil⟩
  attempted := fun _ _ _ h => absurd h List.not_mem_nil

/-- The steps of the threads that make a call to the broker only if it meets `H`. -/
def CallsMeet (H : RouteWorld Addr ℕ Topic Data → RouteCall Addr ℕ Data → Prop)
    (s : DpWorld Addr Uuid Topic Data) (x : DpStep Addr Uuid Data) : Prop :=
  ∀ w : RouteWorld Addr ℕ Topic Data, w.rb = s.rb → ∀ c, .call c ∈ s.events x → H w c

/-- **A run of the threads is a run of the route broker.**  The calls that are seen of it
are one, which ends in the broker of the last state, and the books of all sessions are
right.  If the calls meet a condition, they do so in the run of the route broker. -/
theorem delivering_run {xs : List (DpStep Addr Uuid Data)}
    {H : RouteWorld Addr ℕ Topic Data → RouteCall Addr ℕ Data → Prop}
    (hexec : (dpSystem Addr Uuid (succeeding gen id)).exec .start xs = some s)
    (hH : (dpSystem Addr Uuid (succeeding gen id)).Guarded (CallsMeet H) .start xs) :
    let seen := (dpSystem Addr Uuid (succeeding gen id)).trace DpWorld.events .start xs
    Delivering gen s seen ∧ (routeSystem Addr ℕ gen id).Guarded H .start (callsIn seen) := by
  refine System.exec_trace_induction (l := []) (P := fun s l => Delivering gen s l ∧
    (routeSystem Addr ℕ gen id).Guarded H .start (callsIn l)) ?_ hexec hH
    ⟨delivering_start, trivial⟩
  rintro s x t l ⟨hdel, hguard⟩ hx hstep
  refine ⟨hdel.step hstep, ?_⟩
  obtain ⟨w, hacc⟩ := hdel.books
  rw [callsIn_append]
  apply System.guarded_append hacc.run hguard
  -- a step makes at most one call
  have hone : callsIn (s.events x) = [] ∨ ∃ c, s.events x = [.call c] := by
    cases x with
    | publish a obj pri => exact Or.inr ⟨_, rfl⟩
    | thread n r =>
      rw [DpWorld.events]
      cases (s.session n).pc with
      | start => exact Or.inr ⟨_, rfl⟩
      | polling => exact Or.inr ⟨_, rfl⟩
      | stopping => exact Or.inr ⟨_, rfl⟩
      | sending obj =>
        left
        dsimp only
        split_ifs <;> rfl
      | _ => exact Or.inl rfl
    | _ => exact Or.inl rfl
  rcases hone with hnil | ⟨c, hc⟩
  · rw [hnil]
    trivial
  · rw [hc]
    intro w' hw'
    refine ⟨hx w hacc.rb c ?_, trivial⟩
    rw [hc]
    exact List.mem_singleton.mpr rfl

/-- The broker of a reachable state. -/
theorem dp_consistent (h : (dpSystem Addr Uuid (succeeding gen id)).Reachable s) :
    Consistent gen s.rb := by
  obtain ⟨xs, hexec⟩ := h
  have hmeet : (dpSystem Addr Uuid (succeeding gen id)).Guarded
      (CallsMeet fun _ _ => True) .start xs := 
    System.guarded_of_forall (fun _ _ _ _ _ _ => trivial) _ _
  obtain ⟨w, hacc⟩ := (delivering_run hexec hmeet).1.books
  rw [← hacc.rb]
  exact hacc.consistent

omit [DecidableEq Uuid] in
/-- A running session is a client of the broker, and was handed what was sent for it and the
object at hand. -/
theorem Delivering.handed (h : Delivering gen s l) {n : ℕ}
    (hrun : (s.session n).pc.running = true) :
    ∃ w, Accounts gen s l w ∧ n ∈ w.rb.clientList ∧
      w.received n = sentBy n l ++ (atHand (s.session n).pc).toList := by
  obtain ⟨w, hacc⟩ := h.books
  refine ⟨w, hacc, ?_⟩
  rw [hacc.rb]
  have hself := hacc.account n
  cases hpc : (s.session n).pc <;> rw [hpc] at hself hrun <;>
    first | exact hself | exact Bool.noConfusion hrun

omit [DecidableEq Uuid] in
/-- All of it was published. -/
theorem Delivering.published_of_handed (h : Delivering gen s l) {n : ℕ}
    (hrun : (s.session n).pc.running = true) {d : Data}
    (hd : d ∈ sentBy n l ++ (atHand (s.session n).pc).toList) :
    d ∈ publishedIn l ∧ 0 < (gen d).1 := by
  obtain ⟨w, hacc, -, hrec⟩ := h.handed hrun
  rw [← hacc.published]
  apply (reachable_sourced hacc.run).received n
  rw [hrec]
  exact hd

omit [DecidableEq Uuid] in
/-- The messages sent for a running session say what the published ones say, for every
topic that is not under way to it. -/
theorem Delivering.sentBy_table (h : Delivering gen s l)
    (hover : (routeSystem Addr ℕ gen id).Guarded (fun w c => ¬ w.DeleteOvertakes gen id c)
      .start (callsIn l))
    (hinc : ∀ i, (s.rb.level i).increments < 2 ^ 64) {n : ℕ}
    (hrun : (s.session n).pc.running = true) {topic : Topic}
    (hpending : topic ∉ s.rb.pendingTopics n)
    (hhand : ∀ obj, atHand (s.session n).pc = some obj → (gen obj).2.1 ≠ topic) :
    tableOf gen (sentBy n l) topic
      = tableOf gen ((publishedIn l).filter fun d => 0 < (gen d).1) topic := by
  obtain ⟨w, hacc, hmem, hrec⟩ := h.handed hrun
  have hconv : Converging gen w :=
    System.exec_guarded_induction (P := Converging gen) (fun _ _ _ h hG hstep => h.step hG hstep)
      hacc.run hover converging_start
  -- the object at hand says nothing about this topic
  have hview : tableOf gen (w.received n) topic = tableOf gen (sentBy n l) topic := by
    rw [hrec]
    cases hobj : atHand (s.session n).pc with
    | none =>
      show tableOf gen (sentBy n l ++ []) topic = _
      rw [List.append_nil]
    | some obj =>
      show tableOf gen (sentBy n l ++ [obj]) topic = _
      rw [tableOf_concat, Function.update_of_ne (hhand obj hobj).symm]
  rw [← hacc.rb] at hinc hpending
  rw [← hview, ← hacc.published]
  exact (hconv.synced hinc).2 n hmem topic hpending

omit [DecidableEq Uuid] [DecidableEq Addr] [DecidableEq Topic] in
/-- With isolated sessions, what went through the socket of a session is what was sent for
it. -/
theorem sentOn_eq_sentBy (hiso : Isolated s)
    (hatt : ∀ n obj sock, .sent n obj sock ∈ l → (n, obj, sock) ∈ s.published) {n k : ℕ}
    (hsock : (s.session n).boundSock = some k) : sentOn k l = sentBy n l := by
  unfold sentOn sentBy
  apply List.filterMap_congr
  intro e he
  cases e with
  | call c => rfl
  | sent m obj sock =>
    have hown := (hiso.published _ (hatt m obj sock he)).2
    have hiff : sock = some k ↔ m = n := by
      constructor
      · intro hk
        exact hiso.own m n k (hown.trans hk) hsock
      · intro hm
        rw [hm, hsock] at hown
        exact hown.symm
    simp only [hiff]

/-- The socket that the dataplane of a session was told, when the sessions are isolated. -/
theorem sentOn_accepted {xs : List (DpStep Addr Uuid Data)}
    (hexec : (dpSystem Addr Uuid init).exec .start xs = some s)
    (hone : (dpSystem Addr Uuid init).Guarded (fun s x => ¬ s.Foreign x) .start xs)
    (hatt : ∀ n obj sock, .sent n obj sock ∈ l → (n, obj, sock) ∈ s.published) {u : Uuid}
    {n k : ℕ} (haccept : (u, n, some k) ∈ s.accepted) : sentOn k l = sentBy n l := by
  have hcalm : ∃ cur, Calm s cur :=
    System.exec_guarded_induction (P := fun s => ∃ cur, Calm s cur)
      (fun _ _ _ ⟨_, hc⟩ hx hstep => calm_step hc hx hstep) hexec hone ⟨none, calm_start⟩
  obtain ⟨cur, hc⟩ := hcalm
  exact sentOn_eq_sentBy hc.isolated hatt (hc.isolated.accepted _ haccept).2.1

omit [DecidableEq Uuid] [DecidableEq Addr] in
theorem callsMeet_of_not_overtakes (h : ¬ s.DeleteOvertakes gen x) :
    CallsMeet (fun w c => ¬ w.DeleteOvertakes gen id c) s x := by
  intro w hw c hc
  cases c with
  | publish a obj pri =>
    cases x with
    | publish a' obj' pri' =>
      cases List.mem_singleton.mp hc
      unfold RouteWorld.DeleteOvertakes
      rw [hw]
      exact h
    | thread n r =>
      rw [DpWorld.events] at hc
      cases hpc : (s.session n).pc <;> rw [hpc] at hc <;> simp at hc
    | _ => cases hc
  | _ => exact fun hx => hx

/-- **A dataplane is told the table.**  Take any interleaving of the threads in which copies
succeed, no `CONNECT` comes in for a uuid while a session for another one is open, no delete
overtakes and no level counts up its id `2^64` times.  For every session that is running, the
messages sent through the socket whose endpoint its dataplane was told in the `ACCEPT` say
about a topic what all published messages that are not ignored say, unless the topic is
pending for the session in a level of the broker or is that of the object the session is
trying to send. -/
theorem dataplane_converges {xs : List (DpStep Addr Uuid Data)}
    (hexec : (dpSystem Addr Uuid (succeeding gen id)).exec .start xs = some s)
    (hone : (dpSystem Addr Uuid (succeeding gen id)).Guarded (fun s x => ¬ s.Foreign x) .start xs)
    (hover : (dpSystem Addr Uuid (succeeding gen id)).Guarded
      (fun s x => ¬ s.DeleteOvertakes gen x) .start xs)
    (hinc : ∀ i, (s.rb.level i).increments < 2 ^ 64) {u : Uuid} {n k : ℕ}
    (haccept : (u, n, some k) ∈ s.accepted) (hrun : (s.session n).pc.running = true)
    (topic : Topic) (hpending : topic ∉ s.rb.pendingTopics n)
    (hhand : ∀ obj, atHand (s.session n).pc = some obj → (gen obj).2.1 ≠ topic) :
    let seen := (dpSystem Addr Uuid (succeeding gen id)).trace DpWorld.events .start xs
    tableOf gen (sentOn k seen) topic
      = tableOf gen ((publishedIn seen).filter fun d => 0 < (gen d).1) topic := by
  intro seen
  have hmeet : (dpSystem Addr Uuid (succeeding gen id)).Guarded
      (CallsMeet fun w c => ¬ w.DeleteOvertakes gen id c) .start xs :=
    hover.of_invariant (P := fun _ => True) (fun _ _ _ _ _ _ => trivial)
      (fun _ _ _ h => callsMeet_of_not_overtakes h) trivial
  obtain ⟨hdel, hguard⟩ := delivering_run hexec hmeet
  rw [sentOn_accepted hexec hone hdel.attempted haccept]
  exact hdel.sentBy_table hguard hinc hrun hpending hhand

end Runs

/-- The theorem at a run with a reconnect: the first session could not send the route, the
second one has. -/
theorem dataplane_converges_reconnect :
    ∃ s, (dpSystem ℕ ℕ (succeeding plainGen id)).exec .start reconnectSteps = some s ∧
      (1, 1, some 1) ∈ s.accepted ∧
      tableOf plainGen (sentOn 1 ((dpSystem ℕ ℕ (succeeding plainGen id)).trace DpWorld.events
        .start reconnectSteps)) 7 = some (7, 1, false) := by
  obtain ⟨s, hexec, hp⟩ := (dpSystem ℕ ℕ (succeeding plainGen id)).exists_of_exec_any .start
    reconnectSteps (fun s => decide ((1, 1, some 1) ∈ s.accepted ∧
      (∀ i, (s.rb.level i).increments < 2 ^ 64) ∧ (s.session 1).pc = .checking ∧
      ∀ i, brokerGetNextDataObj (s.rb.level i) (.client 1) = none)) (by decide +kernel)
  rw [decide_eq_true_eq] at hp
  obtain ⟨haccept, hinc, hpc, hnext⟩ := hp
  have hone : (dpSystem ℕ ℕ (succeeding plainGen id)).Guarded (fun s x => ¬ s.Foreign x) .start
      reconnectSteps := guarded_of_one_uuid 1
    (fun v hv => by simpa [reconnectSteps, setUp] using hv)
  have hsound : Sound plainGen s.rb := (dp_consistent ⟨_, hexec⟩).sound
  refine ⟨s, hexec, haccept, ?_⟩
  refine (dataplane_converges hexec hone (by decide +kernel) hinc haccept ?_ 7 ?_ ?_).trans ?_
  · rw [hpc]
    rfl
  · rw [pendingTopics_eq_empty
      (fun i a => (getNextDataObj_eq_none (hsound.linked i)).mp (hnext i) a)]
    exact Set.notMem_empty 7
  · rw [hpc]
    intro obj hobj
    cases hobj
  · decide +kernel
