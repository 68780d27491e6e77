/-
# Reads whose copy fails

`route_broker_client_get` hands out a copy of the route, and the copy may fail.
`broker_client_get_data` does not look at what the callback returns: the cursor moves past
the object, a tombstone that nobody else needs is reclaimed, and `NULL` is returned, which
the caller takes for "no more data".

So a version of a route is lost for a client exactly by reads that find something and
whose copy fails; `Kept` says what may become of a pending version in one step.

Main result: `copy_failure_loses_iff`.
-/
import RouteBroker.RouteConverge

open Circleq Broker

/-- The calls of `RouteCall`, whose copies succeed, and publishes and reads whose copy
fails. -/
inductive CopyCall (Addr Cl Data : Type*)
  | call (x : RouteCall Addr Cl Data)
  | publishFails (a : Addr) (obj : Data) (pri : Level)
  | getDataFails (c : Cl)

variable {Addr Cl Topic Data : Type*} [DecidableEq Addr] [DecidableEq Cl] [DecidableEq Topic]

/-- `copy_obj` when there is no memory. -/
def copyFails (_ : Data) : Option Data := none

namespace RouteWorld

variable (gen : Data → ℤ × Topic × Bool) (copy : Data → Data) (w : RouteWorld Addr Cl Topic Data)

/-- `object_broker_publish(obj, pri)`, the copy of the message failing. -/
def publishFails (a : Addr) (obj : Data) (pri : Level) : RouteWorld Addr Cl Topic Data :=
  { w with rb := (w.rb.objectBrokerPublish ⟨gen, copyFails⟩ (some a) obj pri).1 }

/-- `route_broker_client_get_data(c)`, the copy of the route failing. -/
def getDataFails (c : Cl) : RouteWorld Addr Cl Topic Data :=
  { w with
    rb := (w.rb.clientGetData copyFails c).2
    received := Function.update w.received c
      (w.received c ++ (w.rb.clientGetData copyFails c).1.1.toList) }

/-- One call. -/
def copyStep : CopyCall Addr Cl Data → Option (RouteWorld Addr Cl Topic Data)
  | .call x => w.call gen copy x
  | .publishFails a obj pri =>
    if (w.rb.store.heap a).isNone then some (w.publishFails gen a obj pri) else none
  | .getDataFails c => if c ∈ w.rb.clientList then some (w.getDataFails c) else none

end RouteWorld

/-- All runs of the route broker in which copies may fail. -/
def copySystem (Addr Cl : Type*) [DecidableEq Addr] [DecidableEq Cl]
    (gen : Data → ℤ × Topic × Bool) (copy : Data → Data) :
    System (RouteWorld Addr Cl Topic Data) (CopyCall Addr Cl Data) where
  init := .start
  step := RouteWorld.copyStep gen copy

/-! ## What is asked of a read -/

omit [DecidableEq Topic] [DecidableEq Addr] [DecidableEq Cl] in
/-- The cursors and ids, the lists with the tombstones, the routes and the hash table are
the same. -/
structure Unread (rb rb' : RouteBroker Addr Cl Topic Data) : Prop where
  objList : ∀ i, (rb'.level i).objList = (rb.level i).objList
  bobj : ∀ i, (rb'.level i).bobj = (rb.level i).bobj
  store : rb'.store = rb.store

/-- The read of `c` finds an object. -/
def Finds (rb : RouteBroker Addr Cl Topic Data) (c : Cl) : Prop :=
  ∃ i r, rb.dataAvailableForClient c = some i ∧
    brokerGetNextDataObj (rb.level i) (.client c) = some r

/-- If the read finds an object and returns `NULL`, nothing is lost. -/
def NullKeeps (copyObj : Data → Option Data) (rb : RouteBroker Addr Cl Topic Data) (c : Cl) :
    Prop :=
  Finds rb c → (rb.clientGetData copyObj c).1.1 = none → Unread rb (rb.clientGetData copyObj c).2

/-- If the call is a read, `NULL` loses nothing. -/
def nullKeepsState (copy : Data → Data) (w : RouteWorld Addr Cl Topic Data) :
    CopyCall Addr Cl Data → Prop
  | .call (.clientGetData c) => NullKeeps (fun d => some (copy d)) w.rb c
  | .getDataFails c => NullKeeps copyFails w.rb c
  | _ => True

/-- If the call is a read whose copy fails, it finds nothing to copy. -/
def copySucceeds (w : RouteWorld Addr Cl Topic Data) : CopyCall Addr Cl Data → Prop
  | .getDataFails c => ¬ Finds w.rb c
  | _ => True

/-- What may become of the version `r` at `a`, pending for `c` in level `i`, when the call
`x` leads from `w` to `w'`: it stays pending, it is handed out, or it is superseded by a
message with the same topic. -/
def Kept (gen : Data → ℤ × Topic × Bool) (copy : Data → Data) (w : RouteWorld Addr Cl Topic Data)
    (x : CopyCall Addr Cl Data) (w' : RouteWorld Addr Cl Topic Data) (c : Cl) (i : Level)
    (a : Addr) (r : RibRoute Topic Data) : Prop :=
  ((w'.rb.level i).Pending c a ∧ w'.rb.store.heap a = some r) ∨
  (x = .call (.clientGetData c) ∧ w'.received c = w.received c ++ [copy r.data]) ∨
  ∃ a' obj pri, x = .call (.publish a' obj pri) ∧ 0 < (gen (copy obj)).1 ∧
    (gen (copy obj)).2.1 = r.topic

/-- Every version pending for a client that stays is kept. -/
def lossless (gen : Data → ℤ × Topic × Bool) (copy : Data → Data)
    (w : RouteWorld Addr Cl Topic Data) (x : CopyCall Addr Cl Data) : Prop :=
  ∀ w', w.copyStep gen copy x = some w' → ∀ c ∈ w.rb.clientList, c ∈ w'.rb.clientList →
    ∀ i a r, (w.rb.level i).Pending c a → w.rb.store.heap a = some r →
      Kept gen copy w x w' c i a r

/-! ## One read -/

section Read

variable {gen : Data → ℤ × Topic × Bool} {copy : Data → Data}
  {rb rb' : RouteBroker Addr Cl Topic Data} {w w' : RouteWorld Addr Cl Topic Data} {c : Cl}

omit [DecidableEq Topic] in
theorem Finds.obj (hc : Consistent gen rb) (h : Finds rb c) :
    ∃ i a, rb.dataAvailableForClient c = some i ∧
      brokerGetNextDataObj (rb.level i) (.client c) = some (.obj a) ∧
      (rb.level i).Pending c a := by
  obtain ⟨i, r, hav, hnext⟩ := h
  obtain ⟨a, rfl, hp, -⟩ := getNextDataObj_eq_some (hc.sound.linked i) hnext
  exact ⟨i, a, hav, hnext, hp⟩

/-- A read that finds an object and whose copy succeeds does not return `NULL`. -/
theorem nullKeeps_copy (hc : Consistent gen rb) (hmem : c ∈ rb.clientList) (copy : Data → Data) :
    NullKeeps (fun d => some (copy d)) rb c := by
  intro hfinds hnull
  obtain ⟨i, a, hav, hnext, -⟩ := hfinds.obj hc
  obtain ⟨r, -, -, hget⟩ := clientGetData_of_next hc hmem copy hav hnext
  rw [hget] at hnull
  exact nomatch hnull

/-- A read whose copy fails returns `NULL`. -/
theorem clientGetData_copyFails (rb : RouteBroker Addr Cl Topic Data) (c : Cl) :
    (rb.clientGetData copyFails c).1.1 = none := by
  have hget : ∀ (r : Ref Addr Cl) (s : Store Addr Topic Data),
      routeBrokerClientGet copyFails r s = none := by
    intro r s
    cases r with
    | obj a => exact Option.bind_eq_none_iff.mpr (fun _ _ => rfl)
    | client d => rfl
  unfold RouteBroker.clientGetData
  cases rb.dataAvailableForClient c with
  | none => rfl
  | some i =>
    show (brokerClientGetData _ _ _ _ _).1 = none
    cases (rb.rclient c).client i with
    | none => rfl
    | some k =>
      unfold brokerClientGetData
      dsimp only
      cases brokerGetNextDataObj (rb.level i) (.client k) with
      | none => rfl
      | some r =>
        simp only [routeBrokerClientOps, hget]
        exact ite_self none

/-- After a read the object is not pending for the reader, whatever the copy returned. -/
theorem not_pending_after_read (hc : Consistent gen rb) (hmem : c ∈ rb.clientList)
    (copyObj : Data → Option Data) {i : Level} {a : Addr}
    (hav : rb.dataAvailableForClient c = some i)
    (hnext : brokerGetNextDataObj (rb.level i) (.client c) = some (.obj a)) :
    ¬ ((rb.clientGetData copyObj c).2.level i).Pending c a := by
  rw [clientGetData_rb hc hmem copyObj hav, onLevel_level_self,
    pending_getData routeBrokerOps _ (hc.sound.linked i) rb.store hnext]
  exact fun h => h.2.1 ⟨rfl, rfl⟩

/-- So a read whose copy fails keeps the state only if it finds nothing. -/
theorem nullKeeps_copyFails_iff (hc : Consistent gen rb) (hmem : c ∈ rb.clientList) :
    NullKeeps copyFails rb c ↔ ¬ Finds rb c := by
  constructor
  · intro h hfinds
    obtain ⟨i, a, hav, hnext, hp⟩ := hfinds.obj hc
    apply not_pending_after_read hc hmem copyFails hav hnext
    unfold Pending
    rw [(h hfinds (clientGetData_copyFails rb c)).objList]
    exact hp
  · exact fun h hfinds => absurd hfinds h

end Read

/-! ## One call -/

section Call

variable {gen : Data → ℤ × Topic × Bool} {copy : Data → Data}
  {w w' : RouteWorld Addr Cl Topic Data} {c : Cl}

theorem copyStep_publishFails {a : Addr} {obj : Data} {pri : Level} :
    w.copyStep gen copy (.publishFails a obj pri) = some w' ↔
      w.rb.store.heap a = none ∧ w' = w.publishFails gen a obj pri := by
  simp only [RouteWorld.copyStep, Option.isNone_iff_eq_none, Option.ite_none_right_eq_some,
    Option.some.injEq]
  exact and_congr_right (fun _ => eq_comm)

theorem copyStep_getDataFails : w.copyStep gen copy (.getDataFails c) = some w' ↔
    c ∈ w.rb.clientList ∧ w' = w.getDataFails c := by
  simp [RouteWorld.copyStep, eq_comm]

/-- A publish whose copy fails is only counted. -/
theorem publishFails_rb (w : RouteWorld Addr Cl Topic Data) (a : Addr) (obj : Data) (pri : Level) :
    (w.publishFails gen a obj pri).rb
      = { w.rb.counted with dropped := w.rb.dropped + 1 } := rfl

/-- **Every call keeps the store consistent**, also if copies fail. -/
theorem copyStep_consistent {x : CopyCall Addr Cl Data} (hc : Consistent gen w.rb)
    (h : w.copyStep gen copy x = some w') : Consistent gen w'.rb := by
  cases x with
  | call x => exact routeCall_consistent h hc
  | publishFails a obj pri =>
    obtain ⟨-, rfl⟩ := copyStep_publishFails.mp h
    rw [publishFails_rb]
    exact ⟨hc.sound.of_eq rfl rfl, hc.kind, hc.wired.clients,
      hc.wired.client⟩
  | getDataFails c =>
    obtain ⟨-, rfl⟩ := copyStep_getDataFails.mp h
    exact hc.clientGetData copyFails c

theorem copyStep_keepsOrder {x : CopyCall Addr Cl Data} (hc : Consistent gen w.rb)
    (h : w.copyStep gen copy x = some w') : KeepsOrder w.rb w'.rb := by
  cases x with
  | call x => exact routeCall_keepsOrder h hc
  | publishFails a obj pri =>
    obtain ⟨-, rfl⟩ := copyStep_publishFails.mp h
    exact keepsOrder_of_level_eq rfl
  | getDataFails c =>
    obtain ⟨-, rfl⟩ := copyStep_getDataFails.mp h
    exact keepsOrder_clientGetData w.rb copyFails c

/-- `NULL` loses nothing in a call exactly if the call has nothing to copy or copies it. -/
theorem nullKeepsState_iff {x : CopyCall Addr Cl Data} (hc : Consistent gen w.rb)
    (h : w.copyStep gen copy x = some w') : nullKeepsState copy w x ↔ copySucceeds w x := by
  cases x with
  | call x =>
    cases x with
    | clientGetData c =>
      have hcall : w.call gen copy (.clientGetData c) = some w' := h
      obtain ⟨hmem, -⟩ := routeCall_clientGetData.mp hcall
      exact iff_of_true (nullKeeps_copy hc hmem copy) trivial
    | publish a obj pri => exact Iff.rfl
    | clientCreate c name => exact Iff.rfl
    | clientDelete c => exact Iff.rfl
  | publishFails a obj pri => exact Iff.rfl
  | getDataFails c =>
    obtain ⟨hmem, -⟩ := copyStep_getDataFails.mp h
    exact nullKeeps_copyFails_iff hc hmem

/-- Reads keep every version that stays pending. -/
theorem kept_of_tidy (htidy : Tidy w.rb w'.rb) (hc : Consistent gen w.rb)
    {x : CopyCall Addr Cl Data} {i : Level} {a : Addr} {r : RibRoute Topic Data}
    (hp : (w'.rb.level i).Pending c a) (hr : w.rb.store.heap a = some r) :
    Kept gen copy w x w' c i a r :=
  Or.inl ⟨hp, htidy.heap_of_listed hc.sound hp.listed hr⟩

theorem lossless_publish (hc : Consistent gen w.rb) (a : Addr) (obj : Data) (pri : Level) :
    lossless gen copy w (.call (.publish a obj pri)) := by
  intro w' h c _ _ i x r hp hr
  have hcall : w.call gen copy (.publish a obj pri) = some w' := h
  obtain ⟨ha, rfl⟩ := routeCall_publish.mp hcall
  by_cases hpos : 0 < (gen (copy obj)).1
  · by_cases htopic : (gen (copy obj)).2.1 = r.topic
    · exact Or.inr (Or.inr ⟨a, obj, pri, rfl, hpos, htopic⟩)
    · -- routes with other topics are not touched
      left
      rw [publish_rb_of_pos w hpos]
      have htouch := (publishRoute_published hc.sound.counted a (newRoute gen (copy obj) pri)
        (gen (copy obj)).2.2).touchesTopic hc.sound.counted (prepared_newRoute ha hpos)
      have hne : r.topic ≠ (newRoute gen (copy obj) pri).topic := fun he => htopic he.symm
      exact ⟨(htouch.pending x r hr hne i c).mpr hp, (htouch.heap x r hne).mpr hr⟩
  · left
    rw [publish_rb_of_ignored w (not_lt.mp hpos)]
    exact ⟨hp, hr⟩

theorem lossless_clientCreate (d : Cl) (name : String) :
    lossless gen copy w (.call (.clientCreate d name)) := by
  intro w' h c _ _ i x r hp hr
  have hcall : w.call gen copy (.clientCreate d name) = some w' := h
  obtain ⟨-, rfl⟩ := routeCall_clientCreate.mp hcall
  exact Or.inl ⟨(pending_clientCreate (w.rb.level i) d name c x).mpr (Or.inr hp), hr⟩

theorem lossless_clientDelete (hc : Consistent gen w.rb) (hord : ∀ i, (w.rb.level i).Ordered)
    (d : Cl) : lossless gen copy w (.call (.clientDelete d)) := by
  intro w' h c _ hstays i x r hp hr
  have hcall : w.call gen copy (.clientDelete d) = some w' := h
  obtain ⟨hmem, rfl⟩ := routeCall_clientDelete.mp hcall
  have hlevel : ∀ j, (w.clientDelete d).rb.level j
      = (brokerClientDelete routeBrokerOps (w.rb.level j) w.rb.store d).1 :=
    clientDelete_level hc.sound (hc.wired.client d hmem)
  have hstays' : c ∈ remove w.rb.clientList d := hc.clientDelete_clientList hmem ▸ hstays
  have hcd : c ≠ d := ((mem_remove hc.clients_nodup).mp hstays').1
  have hp' : ((w.clientDelete d).rb.level i).Pending c x := by
    rw [hlevel]
    exact ((hord i).pending_clientDelete w.rb.store d c x).mpr ⟨hp, hcd⟩
  have hlisted : ((w.rb.clientDeleteLevels d).level i).Listed x := hp'.listed
  exact Or.inl ⟨hp', (tidy_clientDeleteLevels hc.sound d).heap_of_listed hc.sound hlisted hr⟩

/-- The objects that are pending after a read that found nothing. -/
theorem pending_of_not_finds (hc : Consistent gen w.rb) (copyObj : Data → Option Data) {d : Cl}
    (hmem : d ∈ w.rb.clientList) (h : ¬ Finds w.rb d) (i : Level) (x : Addr) :
    ((w.rb.clientGetData copyObj d).2.level i).Pending c x ↔ (w.rb.level i).Pending c x := by
  cases hav : w.rb.dataAvailableForClient d with
  | none =>
    unfold RouteBroker.clientGetData
    rw [hav]
  | some j =>
    have hnext : brokerGetNextDataObj (w.rb.level j) (.client d) = none := by
      rw [Option.eq_none_iff_forall_not_mem]
      exact fun r hr => h ⟨j, r, hav, hr⟩
    rw [clientGetData_of_phantom hc.wired hmem copyObj hav hnext]
    exact pending_after w.rb d j i c x

theorem lossless_clientGetData (hc : Consistent gen w.rb) (hord : ∀ i, (w.rb.level i).Ordered)
    (d : Cl) : lossless gen copy w (.call (.clientGetData d)) := by
  intro w' h c _ _ i x r hp hr
  have hcall : w.call gen copy (.clientGetData d) = some w' := h
  obtain ⟨hmem, rfl⟩ := routeCall_clientGetData.mp hcall
  have htidy := tidy_clientGetData hc.sound (fun d => some (copy d)) d
  by_cases hfinds : Finds w.rb d
  · obtain ⟨j, a, hav, hnext, -⟩ := hfinds.obj hc
    by_cases hread : c = d ∧ x = a
    · -- the version is handed out
      obtain ⟨rfl, rfl⟩ := hread
      obtain ⟨r', hr', -, hget⟩ := clientGetData_of_next hc hmem copy hav hnext
      rw [hr] at hr'
      refine Or.inr (Or.inl ⟨rfl, ?_⟩)
      show Function.update w.received c (w.received c ++ _) c = _
      rw [Function.update_self, hget, Option.some.inj hr']
      rfl
    · refine kept_of_tidy htidy hc ?_ hr
      exact (pending_clientGetData hc hord hmem _ hav hnext c i x).mpr ⟨hp, hread⟩
  · refine kept_of_tidy htidy hc ?_ hr
    exact (pending_of_not_finds hc _ hmem hfinds i x).mpr hp

theorem lossless_getDataFails_iff (hc : Consistent gen w.rb) {d : Cl}
    (hmem : d ∈ w.rb.clientList) :
    lossless gen copy w (.getDataFails d) ↔ ¬ Finds w.rb d := by
  constructor
  · intro h hfinds
    obtain ⟨i, a, hav, hnext, hp⟩ := hfinds.obj hc
    obtain ⟨r, hr, -⟩ := hc.sound.heap_of_listed hp.listed
    have hstays : d ∈ (w.getDataFails d).rb.clientList := by
      show d ∈ (w.rb.clientGetData copyFails d).2.clientList
      rw [clientGetData_rb hc hmem copyFails hav]
      exact hmem
    rcases h _ (copyStep_getDataFails.mpr ⟨hmem, rfl⟩) d hmem hstays i a r hp hr with
      hkept | ⟨hx, -⟩ | ⟨a', obj, pri, hx, -⟩
    · exact not_pending_after_read hc hmem copyFails hav hnext hkept.1
    · exact nomatch hx
    · exact nomatch hx
  · intro hnone w' h c _ _ i x r hp hr
    obtain ⟨-, rfl⟩ := copyStep_getDataFails.mp h
    refine kept_of_tidy (tidy_clientGetData hc.sound copyFails d) hc ?_ hr
    exact (pending_of_not_finds hc copyFails hmem hnone i x).mpr hp

/-- In ordered levels a call loses something exactly if it fails to copy it. -/
theorem lossless_iff {x : CopyCall Addr Cl Data} (hc : Consistent gen w.rb)
    (hord : ∀ i, (w.rb.level i).Ordered) (h : w.copyStep gen copy x = some w') :
    lossless gen copy w x ↔ copySucceeds w x := by
  cases x with
  | call x =>
    refine iff_of_true ?_ trivial
    cases x with
    | publish a obj pri => exact lossless_publish hc a obj pri
    | clientCreate d name => exact lossless_clientCreate d name
    | clientDelete d => exact lossless_clientDelete hc hord d
    | clientGetData d => exact lossless_clientGetData hc hord d
  | publishFails a obj pri =>
    refine iff_of_true ?_ trivial
    intro w' h c _ _ i x r hp hr
    obtain ⟨-, rfl⟩ := copyStep_publishFails.mp h
    rw [Kept, publishFails_rb]
    exact Or.inl ⟨hp, hr⟩
  | getDataFails d =>
    obtain ⟨hmem, -⟩ := copyStep_getDataFails.mp h
    exact lossless_getDataFails_iff hc hmem

end Call

/-! ## Runs -/

/-- **Updates are lost exactly by reads that fail to copy what they found.**  Along every
run with any pattern of copy failures, a read that finds an object and returns `NULL`
leaves the cursor, the lists and the hash table as they were, if and only if no read that
finds an object fails to copy it.  And in runs that count no level up `2^64` times the same
condition decides whether every version that is pending for a client stays pending until
it is handed out or superseded by a message with the same topic. -/
theorem copy_failure_loses_iff (gen : Data → ℤ × Topic × Bool) (copy : Data → Data)
    (as : List (CopyCall Addr Cl Data)) :
    ((copySystem Addr Cl gen copy).Guarded (nullKeepsState copy) .start as ↔
      (copySystem Addr Cl gen copy).Guarded copySucceeds .start as) ∧
    ∀ w, (copySystem Addr Cl gen copy).exec .start as = some w →
      (∀ i, (w.rb.level i).increments < 2 ^ 64) →
      ((copySystem Addr Cl gen copy).Guarded (lossless gen copy) .start as ↔
        (copySystem Addr Cl gen copy).Guarded copySucceeds .start as) := by
  constructor
  · exact System.guarded_congr (J := fun w => Consistent gen w.rb)
      (fun w x w' hc _ h => copyStep_consistent hc h) (fun w x w' hc h => nullKeepsState_iff hc h)
      consistent_start
  · intro w hexec hlt
    -- levels below `2^64` were so, and were ordered, at every earlier step
    refine (System.guarded_congr_of_exec (J := fun w => Consistent gen w.rb ∧
      ∀ i, (w.rb.level i).increments < 2 ^ 64 → (w.rb.level i).Ordered)
      (B := fun w => ∀ i, (w.rb.level i).increments < 2 ^ 64) ?_ ?_ ?_ hexec hlt
      ⟨consistent_start, fun i _ => levels_ordered_start i⟩).1
    · rintro v x v' ⟨hc, hord⟩ hstep
      refine ⟨copyStep_consistent hc hstep, fun i hi => ?_⟩
      obtain ⟨hle, hnext⟩ := copyStep_keepsOrder hc hstep i
      exact hnext hi (hord i (lt_of_le_of_lt hle hi))
    · rintro v x v' ⟨hc, -⟩ hstep hb i
      exact lt_of_le_of_lt (copyStep_keepsOrder hc hstep i).1 (hb i)
    · rintro v x v' ⟨hc, hord⟩ hb hstep
      refine lossless_iff hc (fun i => hord i ?_) hstep
      exact lt_of_le_of_lt (copyStep_keepsOrder hc hstep i).1 (hb i)

/-- The client reads a route and then its delete, and publishing another one fails. -/
def updateAndDelete : List (CopyCall ℕ ℕ (ℕ × ℕ × Bool)) :=
  [.call (.clientCreate 0 "dp"), .call (.publish 100 (7, 1, false) 1), .call (.clientGetData 0),
    .call (.publish 101 (7, 2, true) 1), .call (.clientGetData 0), .publishFails 102 (8, 1, false) 1]

/-- The theorem at this run, in which the client receives both. -/
theorem copy_failure_loses_read :
    (∃ w, (copySystem ℕ ℕ plainGen id).exec .start updateAndDelete = some w ∧
      w.received 0 = [(7, 1, false), (7, 2, true)]) ∧
      (copySystem ℕ ℕ plainGen id).Guarded (nullKeepsState id) .start updateAndDelete ∧
      (copySystem ℕ ℕ plainGen id).Guarded (lossless plainGen id) .start updateAndDelete := by
  have hcopy : (copySystem ℕ ℕ plainGen id).Guarded copySucceeds .start updateAndDelete :=
    fun _ _ => ⟨trivial, fun _ _ => ⟨trivial, fun _ _ => ⟨trivial, fun _ _ => ⟨trivial,
      fun _ _ => ⟨trivial, fun _ _ => ⟨trivial, trivial⟩⟩⟩⟩⟩⟩
  obtain ⟨w, hexec, hw⟩ := (copySystem ℕ ℕ plainGen id).exists_of_exec_any .start updateAndDelete
    (fun w => decide (w.received 0 = [(7, 1, false), (7, 2, true)] ∧
      ∀ i, (w.rb.level i).increments < 2 ^ 64)) (by decide +kernel)
  rw [decide_eq_true_eq] at hw
  exact ⟨⟨w, hexec, hw.1⟩, (copy_failure_loses_iff plainGen id _).1.mpr hcopy,
    ((copy_failure_loses_iff plainGen id _).2 w hexec hw.2).mpr hcopy⟩

/-- **A failed copy loses the route.**  The read of the only route fails to copy it; the
client has received nothing, and there is no level for it to read from any more. -/
theorem copy_failure_loses_route :
    ∃ w, (copySystem ℕ ℕ plainGen id).exec .start [.call (.clientCreate 0 "dp"),
        .call (.publish 100 (7, 1, false) 1), .getDataFails 0] = some w ∧
      w.received 0 = [] ∧ w.rb.dataAvailableForClient 0 = none ∧
      ¬ (copySystem ℕ ℕ plainGen id).Guarded (nullKeepsState id) .start
        [.call (.clientCreate 0 "dp"), .call (.publish 100 (7, 1, false) 1), .getDataFails 0] ∧
      ¬ (copySystem ℕ ℕ plainGen id).Guarded (lossless plainGen id) .start
        [.call (.clientCreate 0 "dp"), .call (.publish 100 (7, 1, false) 1),
          .getDataFails 0] := by
  obtain ⟨w, hexec, hw⟩ := (copySystem ℕ ℕ plainGen id).exists_of_exec_any .start
    [.call (.clientCreate 0 "dp"), .call (.publish 100 (7, 1, false) 1), .getDataFails 0]
    (fun w => decide (w.received 0 = [] ∧ w.rb.dataAvailableForClient 0 = none))
    (by decide +kernel)
  rw [decide_eq_true_eq] at hw
  -- the state in which the read is made
  obtain ⟨v, hv, hp⟩ := (copySystem ℕ ℕ plainGen id).exists_of_exec_any .start
    [.call (.clientCreate 0 "dp"), .call (.publish 100 (7, 1, false) 1)]
    (fun w => decide (0 ∈ w.rb.clientList ∧ w.rb.dataAvailableForClient 0 = some 1 ∧
      brokerGetNextDataObj (w.rb.level 1) (.client 0) = some (.obj 100))) (by decide +kernel)
  rw [decide_eq_true_eq] at hp
  obtain ⟨hmem, hav, hnext⟩ := hp
  have hc : Consistent plainGen v.rb :=
    System.exec_induction (P := fun w => Consistent plainGen w.rb)
      (fun _ _ _ hc h => copyStep_consistent hc h) hv consistent_start
  have hread : v.copyStep plainGen id (.getDataFails 0) = some (v.getDataFails 0) :=
    copyStep_getDataFails.mpr ⟨hmem, rfl⟩
  have hfinds : Finds v.rb 0 := ⟨1, .obj 100, hav, hnext⟩
  refine ⟨w, hexec, hw.1, hw.2, fun hall => ?_, fun hall => ?_⟩
  · have hkeeps : nullKeepsState id v (.getDataFails 0) := System.guarded_step hv hread hall
    exact (nullKeeps_copyFails_iff hc hmem).mp hkeeps hfinds
  · have hkept : lossless plainGen id v (.getDataFails 0) := System.guarded_step hv hread hall
    exact (lossless_getDataFails_iff hc hmem).mp hkept hfinds
