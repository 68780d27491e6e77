/-
# Where objects and cursors stand in the queue of a broker

The part of the broker's state that does not depend on the 64-bit ids.

* `Broker.Linked` is the structural invariant: no entry is linked twice, the
  cursors in the queue are those of the registered clients, and the flags tell
  objects from cursors.  Every operation keeps it, without any bound on the ids.
* `Broker.Pending c o`: the object `o` lies after the cursor of `c`, so `c` has not
  been handed its current version.  For every operation there is one lemma that
  says what it does to `Pending` (`pending_addObj`, `pending_moveToTail`, ...).
* `sweep_eq` turns the reclaim loop of `broker_client_delete` into a filter.
-/
import RouteBroker.Broker

open Circleq

variable {Obj Cl Ext Msg : Type*}

namespace Broker

/-- The data object `o` is in the queue. -/
def Listed (b : Broker Obj Cl) (o : Obj) : Prop := Ref.obj o ∈ b.objList

/-- The data object `o` lies after the cursor of `c`. -/
def Pending (b : Broker Obj Cl) (c : Cl) (o : Obj) : Prop :=
  Precedes b.objList (.client c) (.obj o)

/-- The mark `BROKER_FLAGS_DELETE` of `o`. -/
def Deleted (b : Broker Obj Cl) (o : Obj) : Prop := (b.bobj (.obj o)).flags.delete = true

/-- The object `o` is listed and not marked deleted. -/
def Live (b : Broker Obj Cl) (o : Obj) : Prop := b.Listed o ∧ ¬ b.Deleted o

/-- The object `o` is still listed, but marked deleted. -/
def Tombstone (b : Broker Obj Cl) (o : Obj) : Prop := b.Listed o ∧ b.Deleted o

/-- The test of the sweep: a deleted data object that no client needs any more. -/
def reclaimable (b : Broker Obj Cl) (r : Ref Obj Cl) : Bool :=
  (b.bobj r).flags.obj && (b.bobj r).flags.delete && noClientsNeedThis b r

/-- No entry is linked twice, the cursors are those of the registered clients, and
the flags tell objects from cursors. -/
structure Linked (b : Broker Obj Cl) : Prop where
  nodup : b.objList.Nodup
  clients_nodup : b.clientList.Nodup
  cursor_mem : ∀ c, .client c ∈ b.objList ↔ c ∈ b.clientList
  obj_flag : ∀ o, .obj o ∈ b.objList → (b.bobj (.obj o)).flags.obj = true
  cursor_flag : ∀ c, .client c ∈ b.objList → (b.bobj (.client c)).flags.obj = false

/-- The queues are empty at first. -/
theorem linked_create : (brokerCreate : Broker Obj Cl).Linked where
  nodup := List.nodup_nil
  clients_nodup := List.nodup_nil
  cursor_mem := by simp [brokerCreate]
  obj_flag := by simp [brokerCreate]
  cursor_flag := by simp [brokerCreate]

/-- Only what is in the queue is pending. -/
theorem Pending.listed {b : Broker Obj Cl} {c : Cl} {o : Obj} (h : b.Pending c o) :
    b.Listed o := h.mem_right

/-- And only for a client that has a cursor there. -/
theorem Pending.registered {b : Broker Obj Cl} (hl : b.Linked) {c : Cl} {o : Obj}
    (h : b.Pending c o) : c ∈ b.clientList :=
  (hl.cursor_mem c).mp h.mem_left

variable [DecidableEq Obj] [DecidableEq Cl]

instance (b : Broker Obj Cl) (c : Cl) (o : Obj) : Decidable (b.Pending c o) :=
  inferInstanceAs (Decidable (Precedes b.objList (.client c) (.obj o)))

instance (b : Broker Obj Cl) (o : Obj) : Decidable (b.Listed o) :=
  inferInstanceAs (Decidable (Ref.obj o ∈ b.objList))

instance (b : Broker Obj Cl) (o : Obj) : Decidable (b.Deleted o) :=
  inferInstanceAs (Decidable ((b.bobj (.obj o)).flags.delete = true))

instance (b : Broker Obj Cl) (o : Obj) : Decidable (b.Live o) :=
  inferInstanceAs (Decidable (b.Listed o ∧ ¬ b.Deleted o))

instance (b : Broker Obj Cl) (o : Obj) : Decidable (b.Tombstone o) :=
  inferInstanceAs (Decidable (b.Listed o ∧ b.Deleted o))

/-! ## Changes of objects -/

section Objects

variable {b : Broker Obj Cl} {o : Obj}

/-- A new object goes to the tail. -/
theorem Linked.addObj (ops : BrokerOps Obj Cl Ext) (hl : b.Linked) (ho : ¬ b.Listed o)
    (s : Ext) (type : ℕ) : (brokerAddObj ops b s o type).1.Linked where
  nodup := nodup_insertTail ho hl.nodup
  clients_nodup := hl.clients_nodup
  cursor_mem := fun c => by simp [brokerAddObj, setObj, hl.cursor_mem]
  obj_flag := fun o' h => by
    by_cases he : o' = o
    · simp [brokerAddObj, setObj, he]
    · have h' : Ref.obj o' ∈ b.objList := by simpa [brokerAddObj, setObj, he] using h
      simpa [brokerAddObj, setObj, he] using hl.obj_flag o' h'
  cursor_flag := fun c h => by
    have h' : Ref.client c ∈ b.objList := by simpa [brokerAddObj, setObj] using h
    simpa [brokerAddObj, setObj] using hl.cursor_flag c h'

/-- A new object is pending for every client. -/
theorem pending_addObj (ops : BrokerOps Obj Cl Ext) (hl : b.Linked) (s : Ext) (type : ℕ)
    (c : Cl) (o' : Obj) : (brokerAddObj ops b s o type).1.Pending c o' ↔
      b.Pending c o' ∨ (c ∈ b.clientList ∧ o' = o) := by
  simp [Pending, brokerAddObj, setObj, precedes_insertTail, hl.cursor_mem]

/-- Marking and unmarking leaves the queue alone. -/
theorem Linked.setDelete (hl : b.Linked) (r : Ref Obj Cl) (d : Bool) :
    (b.setDelete r d).Linked where
  nodup := hl.nodup
  clients_nodup := hl.clients_nodup
  cursor_mem := hl.cursor_mem
  obj_flag := fun o h => by simpa using hl.obj_flag o h
  cursor_flag := fun c h => by simpa using hl.cursor_flag c h

/-- Moving an object to the tail takes nothing away. -/
theorem mem_moveToTail (hl : b.Linked) (ho : b.Listed o) (r : Ref Obj Cl) :
    r ∈ (b.moveToTail (.obj o)).objList ↔ r ∈ b.objList := by
  rw [moveToTail_objList, mem_insertTail, mem_remove hl.nodup]
  constructor
  · rintro (⟨-, h⟩ | rfl)
    · exact h
    · exact ho
  · intro h
    by_cases hr : r = .obj o
    · exact Or.inr hr
    · exact Or.inl ⟨hr, h⟩

theorem Linked.moveToTail (hl : b.Linked) (ho : b.Listed o) :
    (b.moveToTail (.obj o)).Linked where
  nodup := nodup_insertTail (not_mem_remove hl.nodup) (nodup_remove hl.nodup)
  clients_nodup := hl.clients_nodup
  cursor_mem := fun c => by rw [mem_moveToTail hl ho, hl.cursor_mem]; rfl
  obj_flag := fun o' h => by
    rw [moveToTail_flags]
    exact hl.obj_flag o' ((mem_moveToTail hl ho _).mp h)
  cursor_flag := fun c h => by
    rw [moveToTail_flags]
    exact hl.cursor_flag c ((mem_moveToTail hl ho _).mp h)

/-- An object at the tail is pending for every client, the others are where they were. -/
theorem pending_moveToTail (hl : b.Linked) (c : Cl) (o' : Obj) :
    (b.moveToTail (.obj o)).Pending c o' ↔
      (b.Pending c o' ∧ o' ≠ o) ∨ (c ∈ b.clientList ∧ o' = o) := by
  unfold Pending
  rw [moveToTail_objList, precedes_insertTail, precedes_remove hl.nodup,
    mem_remove hl.nodup, hl.cursor_mem]
  simp

/-- Unlinking an object leaves the rest as it was. -/
theorem Linked.delObjNow (ops : BrokerOps Obj Cl Ext) (hl : b.Linked) (s : Ext) :
    (brokerDelObjNow ops b s (.obj o)).1.Linked where
  nodup := nodup_remove hl.nodup
  clients_nodup := hl.clients_nodup
  cursor_mem := fun c => by
    simp [brokerDelObjNow, mem_remove hl.nodup, hl.cursor_mem]
  obj_flag := fun o' h => hl.obj_flag o' ((mem_remove hl.nodup).mp h).2
  cursor_flag := fun c h => hl.cursor_flag c ((mem_remove hl.nodup).mp h).2

/-- An object that is unlinked is pending for no one. -/
theorem pending_delObjNow (ops : BrokerOps Obj Cl Ext) (hl : b.Linked) (s : Ext) (c : Cl)
    (o' : Obj) : (brokerDelObjNow ops b s (.obj o)).1.Pending c o' ↔
      b.Pending c o' ∧ o' ≠ o := by
  simp [Pending, brokerDelObjNow, precedes_remove hl.nodup]

theorem listed_delObjNow (ops : BrokerOps Obj Cl Ext) (hl : b.Linked) (s : Ext) (o' : Obj) :
    (brokerDelObjNow ops b s (.obj o)).1.Listed o' ↔ b.Listed o' ∧ o' ≠ o := by
  simp [Listed, brokerDelObjNow, mem_remove hl.nodup, and_comm]

/-- With clients a delete is an update that marks the object. -/
theorem brokerDelObj_of_clients (ops : BrokerOps Obj Cl Ext) (h : b.clientList ≠ []) (s : Ext)
    (o : Obj) : brokerDelObj ops b s o
      = ((b.setDelete (.obj o) true).moveToTail (.obj o), s) := by
  simp [brokerDelObj, h]

/-- Without clients no one has to be told. -/
theorem brokerDelObj_of_no_clients (ops : BrokerOps Obj Cl Ext) (h : b.clientList = [])
    (s : Ext) (o : Obj) : brokerDelObj ops b s o = brokerDelObjNow ops b s (.obj o) := by
  simp [brokerDelObj, h]

theorem Linked.delObj (ops : BrokerOps Obj Cl Ext) (hl : b.Linked) (ho : b.Listed o) (s : Ext) :
    (brokerDelObj ops b s o).1.Linked := by
  by_cases hc : b.clientList = []
  · rw [brokerDelObj_of_no_clients ops hc]
    exact hl.delObjNow ops s
  · rw [brokerDelObj_of_clients ops hc]
    exact (hl.setDelete _ _).moveToTail ho

/-- Only a delete that clients are told of counts up the id. -/
theorem delObj_increments (ops : BrokerOps Obj Cl Ext) (b : Broker Obj Cl) (s : Ext) (o : Obj) :
    (brokerDelObj ops b s o).1.increments
      = b.increments + if b.clientList = [] then 0 else 1 := by
  by_cases hc : b.clientList = []
  · rw [brokerDelObj_of_no_clients ops hc, if_pos hc]
    rfl
  · rw [brokerDelObj_of_clients ops hc, if_neg hc]
    rfl

/-- Clearing a mark that is not there changes nothing. -/
theorem brokerUpdObj_eq (b : Broker Obj Cl) (o : Obj) :
    brokerUpdObj b o = (b.setDelete (.obj o) false).moveToTail (.obj o) := by
  unfold brokerUpdObj
  by_cases h : (b.bobj (.obj o)).flags.delete = true
  · simp [h]
  · have hd : (b.bobj (.obj o)).flags.delete = false := by simpa using h
    have hb : b.setDelete (.obj o) false = b := by
      unfold Broker.setDelete setObj
      rw [← hd]
      simp
    simp [h, hb]

/-- An update moves the object to the tail. -/
theorem Linked.updObj (hl : b.Linked) (ho : b.Listed o) : (brokerUpdObj b o).Linked := by
  rw [brokerUpdObj_eq]
  exact (hl.setDelete _ _).moveToTail ho

theorem listed_moveToTail (hl : b.Linked) (ho : b.Listed o) (o' : Obj) :
    (b.moveToTail (.obj o)).Listed o' ↔ b.Listed o' :=
  mem_moveToTail hl ho _

/-- An update takes nothing out of the queue and puts nothing into it. -/
theorem listed_updObj (hl : b.Linked) (ho : b.Listed o) (o' : Obj) :
    (brokerUpdObj b o).Listed o' ↔ b.Listed o' := by
  rw [brokerUpdObj_eq]
  exact listed_moveToTail (hl.setDelete _ _) ho o'

theorem listed_addObj (ops : BrokerOps Obj Cl Ext) (b : Broker Obj Cl) (s : Ext) (type : ℕ)
    (o' : Obj) : (brokerAddObj ops b s o type).1.Listed o' ↔ b.Listed o' ∨ o' = o := by
  simp [Listed, brokerAddObj, setObj]

/-- A new object is not marked. -/
theorem deleted_addObj (ops : BrokerOps Obj Cl Ext) (b : Broker Obj Cl) (s : Ext) (type : ℕ)
    (o' : Obj) : (brokerAddObj ops b s o type).1.Deleted o' ↔ b.Deleted o' ∧ o' ≠ o := by
  by_cases he : o' = o
  · simp [Deleted, brokerAddObj, setObj, he]
  · simp [Deleted, brokerAddObj, setObj, he]

/-- The mark after `broker_upd_obj` (`d = false`) and `broker_del_obj` (`d = true`). -/
theorem deleted_mark (b : Broker Obj Cl) (d : Bool) (o' : Obj) :
    ((b.setDelete (.obj o) d).moveToTail (.obj o)).Deleted o' ↔
      if o' = o then d = true else b.Deleted o' := by
  unfold Deleted
  rw [moveToTail_flags, setDelete_flags_delete]
  by_cases he : o' = o
  · simp [he]
  · simp [he]

end Objects

/-! ## Reading -/

section Reading

variable {b : Broker Obj Cl} {c : Cl} {o : Obj}

omit [DecidableEq Obj] [DecidableEq Cl] in
/-- Only data objects carry `BROKER_FLAGS_OBJ`. -/
theorem Linked.eq_obj_of_flag (hl : b.Linked) {r : Ref Obj Cl} (hr : r ∈ b.objList)
    (hf : (b.bobj r).flags.obj = true) : ∃ o, r = .obj o := by
  cases r with
  | obj o => exact ⟨o, rfl⟩
  | client c => simp [hl.cursor_flag c hr] at hf

/-- What `broker_get_next_data_obj` finds for a client is its first pending object. -/
theorem getNextDataObj_eq_some (hl : b.Linked) {r : Ref Obj Cl}
    (h : brokerGetNextDataObj b (.client c) = some r) :
    ∃ o, r = .obj o ∧ b.Pending c o ∧
      ∀ o', b.Pending c o' → o' = o ∨ Precedes b.objList (.obj o) (.obj o') := by
  obtain ⟨hf, hp, hmin⟩ := find?_after_eq_some hl.nodup h
  obtain ⟨o, rfl⟩ := hl.eq_obj_of_flag hp.mem_right hf
  refine ⟨o, rfl, hp, fun o' ho' => ?_⟩
  rcases hmin (.obj o') (hl.obj_flag o' ho'.listed) ho' with he | hlt
  · exact Or.inl (Ref.obj.inj he)
  · exact Or.inr hlt

/-- It finds nothing exactly if nothing is pending. -/
theorem getNextDataObj_eq_none (hl : b.Linked) :
    brokerGetNextDataObj b (.client c) = none ↔ ∀ o, ¬ b.Pending c o := by
  unfold brokerGetNextDataObj
  rw [find?_after_eq_none hl.nodup]
  constructor
  · intro h o ho
    simpa [hl.obj_flag o ho.listed] using h _ ho
  · intro h r hr
    by_contra hf
    obtain ⟨o, rfl⟩ := hl.eq_obj_of_flag hr.mem_right (by simpa using hf)
    exact h o hr

/-- `broker_has_more_data` says whether something is pending. -/
theorem brokerHasMoreData_eq_false (hl : b.Linked) :
    brokerHasMoreData b c = false ↔ ∀ o, ¬ b.Pending c o := by
  rw [← getNextDataObj_eq_none hl]
  simp [brokerHasMoreData]

/-- A cursor that is moved stays in the queue. -/
theorem mem_advance (hl : b.Linked) (hp : b.Pending c o) (r : Ref Obj Cl) :
    r ∈ (b.advance c (.obj o)).objList ↔ r ∈ b.objList := by
  have ho : Ref.obj o ∈ remove b.objList (.client c) :=
    (mem_remove hl.nodup).mpr ⟨by simp, hp.listed⟩
  rw [advance_objList, mem_insertAfter ho, mem_remove hl.nodup]
  constructor
  · rintro (rfl | ⟨-, h⟩)
    · exact hp.mem_left
    · exact h
  · intro h
    by_cases hr : r = .client c
    · exact Or.inl hr
    · exact Or.inr ⟨hr, h⟩

/-- Moving a cursor changes the order of that cursor only: it now stands right
after the object. -/
theorem precedes_advance (hl : b.Linked) (hp : b.Pending c o) (x y : Ref Obj Cl) :
    Precedes (b.advance c (.obj o)).objList x y ↔
      (Precedes b.objList x y ∧ x ≠ .client c ∧ y ≠ .client c) ∨
      (x = .client c ∧ Precedes b.objList (.obj o) y ∧ y ≠ .client c) ∨
      (y = .client c ∧ (x = .obj o ∨ (Precedes b.objList x (.obj o) ∧ x ≠ .client c))) := by
  have ho : Ref.obj o ∈ remove b.objList (.client c) :=
    (mem_remove hl.nodup).mpr ⟨by simp, hp.listed⟩
  rw [advance_objList, precedes_insertAfter (nodup_remove hl.nodup) ho (not_mem_remove hl.nodup),
    precedes_remove hl.nodup, precedes_remove hl.nodup, precedes_remove hl.nodup]
  simp

/-- The cursor is unlinked and linked once, behind the object. -/
theorem Linked.advance (hl : b.Linked) (hp : b.Pending c o) :
    (b.advance c (.obj o)).Linked where
  nodup := by
    have ho : Ref.obj o ∈ remove b.objList (.client c) :=
      (mem_remove hl.nodup).mpr ⟨by simp, hp.listed⟩
    exact nodup_insertAfter ho (not_mem_remove hl.nodup) (nodup_remove hl.nodup)
  clients_nodup := hl.clients_nodup
  cursor_mem := fun d => by rw [mem_advance hl hp, hl.cursor_mem]; rfl
  obj_flag := fun o' h => by
    rw [advance_flags]
    exact hl.obj_flag o' ((mem_advance hl hp _).mp h)
  cursor_flag := fun d h => by
    rw [advance_flags]
    exact hl.cursor_flag d ((mem_advance hl hp _).mp h)

/-- After the step to its first pending object, the client has one object less
pending and the other clients are where they were. -/
theorem pending_advance (hl : b.Linked) (hp : b.Pending c o)
    (hmin : ∀ o', b.Pending c o' → o' = o ∨ Precedes b.objList (.obj o) (.obj o'))
    (d : Cl) (o' : Obj) :
    (b.advance c (.obj o)).Pending d o' ↔ b.Pending d o' ∧ ¬ (d = c ∧ o' = o) := by
  unfold Pending
  rw [precedes_advance hl hp]
  by_cases hd : d = c
  · subst hd
    simp only [ne_eq, not_true_eq_false, and_false, true_and, reduceCtorEq,
      not_false_eq_true, and_true, or_false, false_or]
    -- what came after the cursor of `c` is `o` itself or comes after `o`
    constructor
    · intro h
      refine ⟨hp.trans hl.nodup h, fun he => ?_⟩
      exact (h.ne hl.nodup) (by rw [he])
    · rintro ⟨h, hne⟩
      exact (hmin o' h).resolve_left hne
  · simp [hd]

/-- The id of a client alone does not matter to the queue. -/
theorem Linked.setId (hl : b.Linked) (r : Ref Obj Cl) (n : ℕ) : (b.setId r n).Linked where
  nodup := hl.nodup
  clients_nodup := hl.clients_nodup
  cursor_mem := hl.cursor_mem
  obj_flag := fun o h => by simpa using hl.obj_flag o h
  cursor_flag := fun c h => by simpa using hl.cursor_flag c h

omit [DecidableEq Obj] in
/-- `consumed` is a statistic. -/
theorem Linked.incConsumed (hl : b.Linked) (c : Cl) : (b.incConsumed c).Linked :=
  ⟨hl.nodup, hl.clients_nodup, hl.cursor_mem, hl.obj_flag, hl.cursor_flag⟩

/-- `broker_client_get_data` with nothing pending. -/
theorem getData_of_none (ops : BrokerOps Obj Cl Ext) (cops : BrokerClientOps Obj Cl Ext Msg)
    (s : Ext) (h : brokerGetNextDataObj b (.client c) = none) :
    brokerClientGetData ops cops b s (some c) = (none, b.setId (.client c) b.id, s) := by
  simp [brokerClientGetData, h]

/-- `broker_client_get_data` with a pending object. -/
theorem getData_of_some (ops : BrokerOps Obj Cl Ext) (cops : BrokerClientOps Obj Cl Ext Msg)
    (s : Ext) {r : Ref Obj Cl} (h : brokerGetNextDataObj b (.client c) = some r) :
    brokerClientGetData ops cops b s (some c) =
      (if (b.bobj r).flags.delete then cops.delObj r (b.bobj r) s else cops.addObj r (b.bobj r) s,
        if (b.bobj r).flags.delete && noClientsNeedThis (b.advance c r) r then
          ((brokerDelObjNow ops (b.advance c r) s r).1.incConsumed c, ops.unlockObj r s)
        else ((b.advance c r).incConsumed c, s)) := by
  simp only [brokerClientGetData, h, advance_flags]
  split_ifs <;> rfl

/-- The object just read is reclaimed: it was deleted and nobody needs it now. -/
def reclaimedBy (b : Broker Obj Cl) (c : Cl) (o : Obj) : Bool :=
  (b.bobj (.obj o)).flags.delete && noClientsNeedThis (b.advance c (.obj o)) (.obj o)

/-- **A read keeps the queue in order**, whether or not it reclaims the object. -/
theorem Linked.getData (ops : BrokerOps Obj Cl Ext) (cops : BrokerClientOps Obj Cl Ext Msg)
    (hl : b.Linked) (s : Ext) (client : Option Cl) :
    (brokerClientGetData ops cops b s client).2.1.Linked := by
  cases client with
  | none => exact hl
  | some c =>
    cases h : brokerGetNextDataObj b (.client c) with
    | none =>
      rw [getData_of_none ops cops s h]
      exact hl.setId _ _
    | some r =>
      obtain ⟨o, rfl, hp, -⟩ := getNextDataObj_eq_some hl h
      rw [getData_of_some ops cops s h]
      dsimp only
      split_ifs
      · exact ((hl.advance hp).delObjNow ops s).incConsumed c
      · exact (hl.advance hp).incConsumed c

section ReadSome

variable (ops : BrokerOps Obj Cl Ext) (cops : BrokerClientOps Obj Cl Ext Msg)

/-- The object that was read is no longer pending for the reader, and for no one if it is
reclaimed. -/
theorem pending_getData (hl : b.Linked) (s : Ext)
    (h : brokerGetNextDataObj b (.client c) = some (.obj o)) (d : Cl) (o' : Obj) :
    (brokerClientGetData ops cops b s (some c)).2.1.Pending d o' ↔
      b.Pending d o' ∧ ¬ (d = c ∧ o' = o) ∧ ¬ (b.reclaimedBy c o = true ∧ o' = o) := by
  obtain ⟨o₁, ho₁, hp, hmin⟩ := getNextDataObj_eq_some hl h
  cases ho₁
  rw [getData_of_some ops cops s h]
  change (if b.reclaimedBy c o = true then _ else _ : Broker Obj Cl × Ext).1.Pending d o' ↔ _
  split_ifs with hr
  · have hpend : ((brokerDelObjNow ops (b.advance c (.obj o)) s (.obj o)).1.incConsumed c).Pending
        d o' ↔ _ := pending_delObjNow ops (hl.advance hp) s d o'
    rw [hpend, pending_advance hl hp hmin]
    simp [hr, and_assoc]
  · have hpend : ((b.advance c (.obj o)).incConsumed c).Pending d o' ↔ _ :=
      pending_advance hl hp hmin d o'
    rw [hpend]
    simp [hr]

/-- A read takes at most the object that was read out of the queue. -/
theorem listed_getData (hl : b.Linked) (s : Ext)
    (h : brokerGetNextDataObj b (.client c) = some (.obj o)) (o' : Obj) :
    (brokerClientGetData ops cops b s (some c)).2.1.Listed o' ↔
      b.Listed o' ∧ ¬ (b.reclaimedBy c o = true ∧ o' = o) := by
  obtain ⟨o₁, ho₁, hp, -⟩ := getNextDataObj_eq_some hl h
  cases ho₁
  have hadv : ∀ o', (b.advance c (.obj o)).Listed o' ↔ b.Listed o' :=
    fun o' => mem_advance hl hp (.obj o')
  rw [getData_of_some ops cops s h]
  change (if b.reclaimedBy c o = true then _ else _ : Broker Obj Cl × Ext).1.Listed o' ↔ _
  split_ifs with hr
  · have hlist : ((brokerDelObjNow ops (b.advance c (.obj o)) s (.obj o)).1.incConsumed c).Listed
        o' ↔ _ := listed_delObjNow ops (hl.advance hp) s o'
    rw [hlist, hadv]
    simp [hr]
  · have hlist : ((b.advance c (.obj o)).incConsumed c).Listed o' ↔ _ := hadv o'
    rw [hlist]
    simp [hr]

/-- What holds of the broker, with any client brought level, and with any cursor moved
and the object behind it reclaimed or not, holds after a read. -/
theorem getData_cases {P : Broker Obj Cl → Prop} (s : Ext) (client : Option Cl) (hsame : P b)
    (hlevel : ∀ c, P (b.setId (.client c) b.id))
    (hreclaim : ∀ c r, P ((brokerDelObjNow ops (b.advance c r) s r).1.incConsumed c))
    (hkeep : ∀ c r, P ((b.advance c r).incConsumed c)) :
    P (brokerClientGetData ops cops b s client).2.1 := by
  cases client with
  | none => exact hsame
  | some c =>
    cases h : brokerGetNextDataObj b (.client c) with
    | none =>
      rw [getData_of_none ops cops s h]
      exact hlevel c
    | some r =>
      rw [getData_of_some ops cops s h]
      dsimp only
      split_ifs
      · exact hreclaim c r
      · exact hkeep c r

@[simp] theorem getData_clientList (s : Ext) (client : Option Cl) :
    (brokerClientGetData ops cops b s client).2.1.clientList = b.clientList :=
  getData_cases ops cops (P := fun b' => b'.clientList = b.clientList) s client rfl
    (fun _ => rfl) (fun _ _ => rfl) (fun _ _ => rfl)

@[simp] theorem getData_id (s : Ext) (client : Option Cl) :
    (brokerClientGetData ops cops b s client).2.1.id = b.id :=
  getData_cases ops cops (P := fun b' => b'.id = b.id) s client rfl
    (fun _ => rfl) (fun _ _ => rfl) (fun _ _ => rfl)

@[simp] theorem getData_increments (s : Ext) (client : Option Cl) :
    (brokerClientGetData ops cops b s client).2.1.increments = b.increments :=
  getData_cases ops cops (P := fun b' => b'.increments = b.increments) s client rfl
    (fun _ => rfl) (fun _ _ => rfl) (fun _ _ => rfl)

@[simp] theorem getData_flags (s : Ext) (client : Option Cl) (r : Ref Obj Cl) :
    ((brokerClientGetData ops cops b s client).2.1.bobj r).flags = (b.bobj r).flags := by
  apply getData_cases ops cops (P := fun b' => (b'.bobj r).flags = (b.bobj r).flags)
  · rfl
  · intro c
    rw [setId_flags]
  · intro c r'
    exact advance_flags b r' r c
  · intro c r'
    exact advance_flags b r' r c

/-- A read writes to the cursor of the reader only. -/
theorem getData_bobj_of_ne (s : Ext) {r : Ref Obj Cl} (hr : r ≠ .client c) :
    (brokerClientGetData ops cops b s (some c)).2.1.bobj r = b.bobj r := by
  cases h : brokerGetNextDataObj b (.client c) with
  | none =>
    rw [getData_of_none ops cops s h]
    exact Function.update_of_ne hr _ _
  | some r' =>
    rw [getData_of_some ops cops s h]
    dsimp only
    split_ifs <;> exact Function.update_of_ne hr _ _

/-- The reader takes over the id of the object. -/
theorem getData_client_id (s : Ext) (h : brokerGetNextDataObj b (.client c) = some (.obj o)) :
    ((brokerClientGetData ops cops b s (some c)).2.1.bobj (.client c)).id
      = (b.bobj (.obj o)).id := by
  rw [getData_of_some ops cops s h]
  dsimp only
  split_ifs <;> simp [brokerDelObjNow, advance_bobj_id]

/-- A read marks nothing. -/
theorem deleted_getData (s : Ext) (client : Option Cl) (o' : Obj) :
    (brokerClientGetData ops cops b s client).2.1.Deleted o' ↔ b.Deleted o' := by
  unfold Deleted
  rw [getData_flags]

end ReadSome

end Reading

/-! ## Clients that come and go -/

section Clients

variable {b : Broker Obj Cl} {c : Cl}

/-- The broker with a cursor for the new client `c` at the head of the queue. -/
def withClient (b : Broker Obj Cl) (c : Cl) (name : String) : Broker Obj Cl :=
  let b := b.setObj (.client c) { flags := { client := true } }
  { b with
    client := Function.update b.client c { name := name }
    clientList := insertHead b.clientList c
    objList := insertHead b.objList (.client c) }

/-- `broker_client_create` links the cursor, and gives it the id of the broker if it has nothing
to read. -/
theorem clientCreate_eq (b : Broker Obj Cl) (c : Cl) (name : String) :
    brokerClientCreate b (some c) (some name) =
      (some c, if brokerHasMoreData (b.withClient c name) c then b.withClient c name
        else (b.withClient c name).setId (.client c) b.id) := rfl

@[simp] theorem clientCreate_objList (b : Broker Obj Cl) (c : Cl) (name : String) :
    (brokerClientCreate b (some c) (some name)).2.objList = .client c :: b.objList := by
  rw [clientCreate_eq]
  dsimp only
  split_ifs <;> rfl

@[simp] theorem clientCreate_clientList (b : Broker Obj Cl) (c : Cl) (name : String) :
    (brokerClientCreate b (some c) (some name)).2.clientList = c :: b.clientList := by
  rw [clientCreate_eq]
  dsimp only
  split_ifs <;> rfl

@[simp] theorem clientCreate_id (b : Broker Obj Cl) (c : Cl) (name : String) :
    (brokerClientCreate b (some c) (some name)).2.id = b.id := by
  rw [clientCreate_eq]
  dsimp only
  split_ifs <;> rfl

@[simp] theorem clientCreate_increments (b : Broker Obj Cl) (c : Cl) (name : String) :
    (brokerClientCreate b (some c) (some name)).2.increments = b.increments := by
  rw [clientCreate_eq]
  dsimp only
  split_ifs <;> rfl

theorem clientCreate_flags (b : Broker Obj Cl) (c : Cl) (name : String) (r : Ref Obj Cl) :
    ((brokerClientCreate b (some c) (some name)).2.bobj r).flags
      = if r = .client c then { client := true } else (b.bobj r).flags := by
  have hw : ((b.withClient c name).bobj r).flags
      = if r = .client c then { client := true } else (b.bobj r).flags := by
    by_cases h : r = .client c
    · simp [withClient, setObj, h]
    · simp [withClient, setObj, h]
  rw [clientCreate_eq]
  dsimp only
  split_ifs at hw ⊢ <;> simp [hw]

/-- A new client writes to its own cursor only. -/
theorem clientCreate_bobj_of_ne (b : Broker Obj Cl) (c : Cl) (name : String) {r : Ref Obj Cl}
    (hr : r ≠ .client c) : (brokerClientCreate b (some c) (some name)).2.bobj r = b.bobj r := by
  have hw : (b.withClient c name).bobj r = b.bobj r := Function.update_of_ne hr _ _
  rw [clientCreate_eq]
  dsimp only
  split_ifs
  · exact hw
  · rw [← hw]
    exact Function.update_of_ne hr _ _

theorem deleted_clientCreate (b : Broker Obj Cl) (c : Cl) (name : String) (o : Obj) :
    (brokerClientCreate b (some c) (some name)).2.Deleted o ↔ b.Deleted o := by
  unfold Deleted
  rw [clientCreate_flags, if_neg (by simp)]

/-- A new cursor is linked once. -/
theorem Linked.withClient (hl : b.Linked) (hc : c ∉ b.clientList) (name : String) :
    (b.withClient c name).Linked := by
  have hcm : Ref.client c ∉ b.objList := fun h => hc ((hl.cursor_mem c).mp h)
  refine ⟨nodup_insertHead hcm hl.nodup, nodup_insertHead hc hl.clients_nodup, ?_, ?_, ?_⟩
  · intro d
    simp [Broker.withClient, setObj, hl.cursor_mem]
  · intro o ho
    have ho' : Ref.obj o ∈ b.objList := by simpa [Broker.withClient, setObj] using ho
    simpa [Broker.withClient, setObj] using hl.obj_flag o ho'
  · intro d hd
    by_cases he : d = c
    · simp [Broker.withClient, setObj, he]
    · have hd' : Ref.client d ∈ b.objList := by
        simpa [Broker.withClient, setObj, he] using hd
      simpa [Broker.withClient, setObj, he] using hl.cursor_flag d hd'

theorem Linked.clientCreate (hl : b.Linked) (hc : c ∉ b.clientList) (name : String) :
    (brokerClientCreate b (some c) (some name)).2.Linked := by
  rw [clientCreate_eq]
  dsimp only
  split_ifs
  · exact hl.withClient hc name
  · exact (hl.withClient hc name).setId _ _

/-- Everything in the queue is pending for a new client. -/
theorem pending_clientCreate (b : Broker Obj Cl) (c : Cl) (name : String) (d : Cl) (o : Obj) :
    (brokerClientCreate b (some c) (some name)).2.Pending d o ↔
      (d = c ∧ b.Listed o) ∨ b.Pending d o := by
  simp [Pending, Listed, precedes_cons]

theorem listed_clientCreate (b : Broker Obj Cl) (c : Cl) (name : String) (o : Obj) :
    (brokerClientCreate b (some c) (some name)).2.Listed o ↔ b.Listed o := by
  simp [Listed]

/-- The broker without the client `c`, before the sweep. -/
def withoutClient (b : Broker Obj Cl) (c : Cl) : Broker Obj Cl :=
  { b with
    clientList := remove b.clientList c
    objList := remove b.objList (.client c) }

/-- So is the rest once a cursor is unlinked. -/
theorem Linked.withoutClient (hl : b.Linked) (c : Cl) : (b.withoutClient c).Linked := by
  refine ⟨nodup_remove hl.nodup, nodup_remove hl.clients_nodup, ?_, ?_, ?_⟩
  · intro d
    change Ref.client d ∈ remove _ _ ↔ d ∈ remove _ _
    rw [mem_remove hl.nodup, mem_remove hl.clients_nodup, hl.cursor_mem]
    simp
  · intro o ho
    exact hl.obj_flag o ((mem_remove hl.nodup).mp ho).2
  · intro d hd
    exact hl.cursor_flag d ((mem_remove hl.nodup).mp hd).2

/-- The sweep unlinks and unlocks the reclaimable entries it walks over, in order,
and changes nothing else. -/
theorem sweep_eq (ops : BrokerOps Obj Cl Ext) (rs : List (Ref Obj Cl)) (b : Broker Obj Cl)
    (s : Ext) : sweep ops rs (b, s) =
      ({ b with objList := (rs.filter b.reclaimable).foldl remove b.objList },
        (rs.filter b.reclaimable).foldl (fun s r => ops.unlockObj r s) s) := by
  induction rs generalizing b s with
  | nil => rfl
  | cons r rs ih =>
    -- unlinking an entry does not change which entries are reclaimable
    have hrec : (brokerDelObjNow ops b s r).1.reclaimable = b.reclaimable := rfl
    by_cases hr : b.reclaimable r = true
    · have hr' := hr
      simp only [reclaimable, Bool.and_eq_true] at hr'
      rw [List.filter_cons_of_pos hr, sweep]
      simp only [hr'.1.1, hr'.1.2, hr'.2, Bool.and_self, if_true]
      rw [ih, hrec]
      rfl
    · rw [List.filter_cons_of_neg hr, sweep]
      simp only [reclaimable, Bool.and_eq_true] at hr
      split_ifs with h1 h2
      · exact absurd ⟨by simpa using h1, h2⟩ hr
      · exact ih b s
      · exact ih b s

/-- **`broker_client_delete` is a filter**: the cursor goes, and what no one needs any more. -/
theorem clientDelete_eq (ops : BrokerOps Obj Cl Ext) (hl : b.Linked) (s : Ext) (c : Cl) :
    brokerClientDelete ops b s c =
      ({ b.withoutClient c with
          objList := (b.withoutClient c).objList.filter fun r => !(b.withoutClient c).reclaimable r },
        ((b.withoutClient c).objList.filter (b.withoutClient c).reclaimable).foldl
          (fun s r => ops.unlockObj r s) s) := by
  have hn : (b.withoutClient c).objList.Nodup := nodup_remove hl.nodup
  have h : brokerClientDelete ops b s c
      = sweep ops (b.withoutClient c).objList (b.withoutClient c, s) := rfl
  rw [h, sweep_eq, foldl_remove_filter hn]

/-- What unlinking a tombstone keeps, the sweep keeps. -/
theorem sweep_induction (ops : BrokerOps Obj Cl Ext) {P : Broker Obj Cl × Ext → Prop}
    (hstep : ∀ b s o, P (b, s) → b.Tombstone o → P (brokerDelObjNow ops b s (.obj o)))
    {rs : List (Ref Obj Cl)} {b : Broker Obj Cl} {s : Ext} (hl : b.Linked) (hn : rs.Nodup)
    (hrs : ∀ r ∈ rs, r ∈ b.objList) (h : P (b, s)) : P (sweep ops rs (b, s)) := by
  induction rs generalizing b s with
  | nil => exact h
  | cons r rs ih =>
    rw [List.nodup_cons] at hn
    have hrest : ∀ r' ∈ rs, r' ∈ b.objList := fun r' hr' => hrs r' (List.mem_cons_of_mem r hr')
    rw [sweep]
    split_ifs with hflags hneed
    · rw [Bool.and_eq_true] at hflags
      obtain ⟨o, rfl⟩ := hl.eq_obj_of_flag (hrs r List.mem_cons_self) hflags.1
      -- the entries still to be visited are not unlinked by this
      refine ih (hl.delObjNow ops s) hn.2 (fun r' hr' => ?_)
        (hstep b s o h ⟨hrs _ List.mem_cons_self, hflags.2⟩)
      exact (mem_remove hl.nodup).mpr ⟨fun he => hn.1 (he ▸ hr'), hrest r' hr'⟩
    · exact ih hl hn.2 hrest h
    · exact ih hl hn.2 hrest h

/-- The sweep decides by the broker alone, whatever the callbacks do. -/
theorem clientDelete_fst {Ext' : Type*} (ops : BrokerOps Obj Cl Ext) (ops' : BrokerOps Obj Cl Ext')
    (hl : b.Linked) (s : Ext) (s' : Ext') (c : Cl) :
    (brokerClientDelete ops b s c).1 = (brokerClientDelete ops' b s' c).1 := by
  rw [clientDelete_eq ops hl, clientDelete_eq ops' hl]

/-- What is left in the queue. -/
theorem mem_clientDelete (ops : BrokerOps Obj Cl Ext) (hl : b.Linked) (s : Ext) (c : Cl)
    (r : Ref Obj Cl) : r ∈ (brokerClientDelete ops b s c).1.objList ↔
      r ∈ b.objList ∧ r ≠ .client c ∧ (b.withoutClient c).reclaimable r = false := by
  rw [clientDelete_eq ops hl]
  simp only [List.mem_filter, withoutClient, mem_remove hl.nodup, Bool.not_eq_true']
  tauto

/-- What is left keeps its order. -/
theorem precedes_clientDelete (ops : BrokerOps Obj Cl Ext) (hl : b.Linked) (s : Ext) (c : Cl)
    (x y : Ref Obj Cl) : Precedes (brokerClientDelete ops b s c).1.objList x y ↔
      Precedes b.objList x y ∧ (x ≠ .client c ∧ y ≠ .client c) ∧
        (b.withoutClient c).reclaimable x = false ∧
        (b.withoutClient c).reclaimable y = false := by
  rw [clientDelete_eq ops hl]
  simp only [precedes_filter, withoutClient, precedes_remove hl.nodup, Bool.not_eq_true']
  tauto

@[simp] theorem clientDelete_clientList (ops : BrokerOps Obj Cl Ext) (b : Broker Obj Cl) (s : Ext)
    (c : Cl) : (brokerClientDelete ops b s c).1.clientList = remove b.clientList c := by
  show (sweep ops (b.withoutClient c).objList (b.withoutClient c, s)).1.clientList = _
  rw [sweep_eq]
  rfl

@[simp] theorem clientDelete_bobj (ops : BrokerOps Obj Cl Ext) (hl : b.Linked) (s : Ext)
    (c : Cl) : (brokerClientDelete ops b s c).1.bobj = b.bobj := by
  rw [clientDelete_eq ops hl]
  rfl

@[simp] theorem clientDelete_id (ops : BrokerOps Obj Cl Ext) (hl : b.Linked) (s : Ext)
    (c : Cl) : (brokerClientDelete ops b s c).1.id = b.id := by
  rw [clientDelete_eq ops hl]
  rfl

@[simp] theorem clientDelete_increments (ops : BrokerOps Obj Cl Ext) (hl : b.Linked) (s : Ext)
    (c : Cl) : (brokerClientDelete ops b s c).1.increments = b.increments := by
  rw [clientDelete_eq ops hl]
  rfl

/-- Cursors are never swept. -/
theorem Linked.reclaimable_client (hl : b.Linked) (c : Cl) {d : Cl} (hd : d ∈ b.clientList) :
    (b.withoutClient c).reclaimable (.client d) = false := by
  have hf : (b.bobj (.client d)).flags.obj = false :=
    hl.cursor_flag d ((hl.cursor_mem d).mpr hd)
  simp [reclaimable, Broker.withoutClient, hf]

/-- **Deleting a client keeps the queue in order.** -/
theorem Linked.clientDelete (ops : BrokerOps Obj Cl Ext) (hl : b.Linked) (s : Ext) (c : Cl) :
    (brokerClientDelete ops b s c).1.Linked where
  nodup := by
    rw [clientDelete_eq ops hl]
    exact (nodup_remove hl.nodup).filter _
  clients_nodup := by
    rw [clientDelete_clientList]
    exact nodup_remove hl.clients_nodup
  cursor_mem := fun d => by
    rw [mem_clientDelete ops hl, clientDelete_clientList, mem_remove hl.clients_nodup,
      hl.cursor_mem]
    constructor
    · rintro ⟨h, hne, -⟩
      exact ⟨fun he => hne (by rw [he]), h⟩
    · rintro ⟨hne, h⟩
      exact ⟨h, fun he => hne (Ref.client.inj he), hl.reclaimable_client c h⟩
  obj_flag := fun o h => by
    rw [clientDelete_bobj ops hl]
    exact hl.obj_flag o ((mem_clientDelete ops hl s c _).mp h).1
  cursor_flag := fun d h => by
    rw [clientDelete_bobj ops hl]
    exact hl.cursor_flag d ((mem_clientDelete ops hl s c _).mp h).1

/-- What was pending for the others still is, except for what the sweep reclaims, which is pending
for no one. -/
theorem pending_clientDelete (ops : BrokerOps Obj Cl Ext) (hl : b.Linked) (s : Ext) (c d : Cl)
    (o : Obj) : (brokerClientDelete ops b s c).1.Pending d o ↔
      b.Pending d o ∧ d ≠ c ∧ (b.withoutClient c).reclaimable (.obj o) = false := by
  unfold Pending
  rw [precedes_clientDelete ops hl]
  constructor
  · rintro ⟨h, ⟨hne, -⟩, -, hr⟩
    exact ⟨h, fun he => hne (by rw [he]), hr⟩
  · rintro ⟨h, hne, hr⟩
    exact ⟨h, ⟨fun he => hne (Ref.client.inj he), by simp⟩,
      hl.reclaimable_client c ((hl.cursor_mem d).mp h.mem_left), hr⟩

theorem deleted_clientDelete (ops : BrokerOps Obj Cl Ext) (hl : b.Linked) (s : Ext) (c : Cl)
    (o : Obj) : (brokerClientDelete ops b s c).1.Deleted o ↔ b.Deleted o := by
  unfold Deleted
  rw [clientDelete_bobj ops hl]

/-- An object stays unless the sweep reclaims it. -/
theorem listed_clientDelete (ops : BrokerOps Obj Cl Ext) (hl : b.Linked) (s : Ext) (c : Cl)
    (o : Obj) : (brokerClientDelete ops b s c).1.Listed o ↔
      b.Listed o ∧ (b.withoutClient c).reclaimable (.obj o) = false := by
  unfold Listed
  rw [mem_clientDelete ops hl]
  simp

end Clients

end Broker
