/-
# The lifetime of a tombstone

An object that was deleted stays listed, marked, until every client that may know it
was told.  Two facts carry the argument along a run: a tombstone is pending for at
least one client, and a client for which it is no longer pending was handed it as
deleted after the last `broker_del_obj`.  The second one makes the reclaim paths of
`broker_client_get_data` and `broker_client_delete` safe, the first one says that
nothing is left behind.

Main result: `tombstone_lifetime`.
-/
import RouteBroker.BrokerWrap

open Circleq Broker

variable {Obj Cl Data : Type*}

namespace World

/-- The client `c` was handed `o` as deleted since the last delete of `o`. -/
def Told (w : World Obj Cl Data) (c : Cl) (o : Obj) : Prop :=
  ∃ d ∈ w.received c, d.obj = o ∧ d.deleted = true ∧ w.deletedAt o < d.time

theorem Told.mono {w w' : World Obj Cl Data} {c : Cl} {o : Obj} (h : w.Told c o)
    (hrec : ∀ d ∈ w.received c, d ∈ w'.received c) (hat : w'.deletedAt o = w.deletedAt o) :
    w'.Told c o := by
  obtain ⟨d, hd, hobj, hdel, htime⟩ := h
  exact ⟨d, hrec d hd, hobj, hdel, by rw [hat]; exact htime⟩

/-- Every tombstone is pending for somebody, and everybody else was told. -/
structure TombstonesKept (w : World Obj Cl Data) : Prop where
  needed : ∀ o, w.broker.Tombstone o → ∃ c, w.broker.Pending c o
  told : ∀ o, w.broker.Tombstone o → ∀ c ∈ w.broker.clientList, ¬ w.broker.Pending c o →
    w.Told c o
  past : ∀ o, w.deletedAt o < w.owner.now

theorem tombstonesKept_start (d₀ : Obj → Data) :
    (World.start d₀ : World Obj Cl Data).TombstonesKept where
  needed := fun _ h => absurd h.1 List.not_mem_nil
  told := fun _ h => absurd h.1 List.not_mem_nil
  past := fun _ => Nat.zero_lt_one

variable {w w' : World Obj Cl Data}

/-! ## Changes -/

/-- A change of `o` leaves the other tombstones alone; it keeps the invariant if
afterwards `o` is pending for every client, should it be a tombstone. -/
theorem TombstonesKept.change (h : w.TombstonesKept) (o : Obj)
    (htomb : ∀ o', o' ≠ o → w'.broker.Tombstone o' → w.broker.Tombstone o')
    (hself : w'.broker.Tombstone o → w'.broker.clientList ≠ [] ∧
      ∀ c ∈ w'.broker.clientList, w'.broker.Pending c o)
    (hpend : ∀ c o', o' ≠ o → (w'.broker.Pending c o' ↔ w.broker.Pending c o'))
    (hclients : w'.broker.clientList = w.broker.clientList)
    (hrec : w'.received = w.received)
    (hat : ∀ o', o' ≠ o → w'.deletedAt o' = w.deletedAt o')
    (hself_at : w'.deletedAt o ≤ w.owner.now) (hnow : w'.owner.now = w.owner.now + 1) :
    w'.TombstonesKept := by
  refine ⟨fun o' ho' => ?_, fun o' ho' c hc hp => ?_, fun o' => ?_⟩
  · by_cases he : o' = o
    · subst he
      obtain ⟨hne, hall⟩ := hself ho'
      obtain ⟨c, hc⟩ := List.exists_mem_of_ne_nil _ hne
      exact ⟨c, hall c hc⟩
    · obtain ⟨c, hc⟩ := h.needed o' (htomb o' he ho')
      exact ⟨c, (hpend c o' he).mpr hc⟩
  · by_cases he : o' = o
    · subst he
      exact absurd ((hself ho').2 c hc) hp
    · rw [hclients] at hc
      refine (h.told o' (htomb o' he ho') c hc ?_).mono (fun d hd => by rwa [hrec]) (hat o' he)
      exact fun hp' => hp ((hpend c o' he).mpr hp')
  · rw [hnow]
    by_cases he : o' = o
    · subst he
      omega
    · rw [hat o' he]
      exact Nat.lt_succ_of_lt (h.past o')

variable [DecidableEq Obj] [DecidableEq Cl]

theorem TombstonesKept.addObj (h : w.TombstonesKept) (hl : w.broker.Linked) (o : Obj)
    (d : Data) : (w.addObj o d).TombstonesKept := by
  have hlist : ∀ o', (w.addObj o d).broker.Listed o' ↔ w.broker.Listed o' ∨ o' = o :=
    listed_addObj ownerOps w.broker (w.owner.store o d) 0
  have hdel : ∀ o', (w.addObj o d).broker.Deleted o' ↔ w.broker.Deleted o' ∧ o' ≠ o :=
    deleted_addObj ownerOps w.broker (w.owner.store o d) 0
  have hpend : ∀ c o', (w.addObj o d).broker.Pending c o' ↔
      w.broker.Pending c o' ∨ (c ∈ w.broker.clientList ∧ o' = o) :=
    pending_addObj ownerOps hl (w.owner.store o d) 0
  refine h.change o (fun o' he ho' => ?_) (fun ho' => ?_) (fun c o' he => ?_) rfl rfl
    (fun _ _ => rfl) (le_of_lt (h.past o)) rfl
  · exact ⟨((hlist o').mp ho'.1).resolve_right he, ((hdel o').mp ho'.2).1⟩
  · exact absurd rfl ((hdel o).mp ho'.2).2
  · rw [hpend]
    simp [he]

/-- Both `broker_upd_obj` and `broker_del_obj` with clients. -/
theorem TombstonesKept.moveToTail (h : w.TombstonesKept) (hl : w.broker.Linked) {o : Obj}
    (ho : w.broker.Listed o) (mark : Bool) (hmark : mark = true → w.broker.clientList ≠ [])
    (hbroker : w'.broker = (w.broker.setDelete (.obj o) mark).moveToTail (.obj o))
    (hrec : w'.received = w.received)
    (hat : ∀ o', o' ≠ o → w'.deletedAt o' = w.deletedAt o')
    (hself_at : w'.deletedAt o ≤ w.owner.now) (hnow : w'.owner.now = w.owner.now + 1) :
    w'.TombstonesKept := by
  have hl' := hl.setDelete (.obj o) mark
  have hlist : ∀ o', w'.broker.Listed o' ↔ w.broker.Listed o' := fun o' => by
    rw [hbroker]
    exact listed_moveToTail hl' ho o'
  have hdel : ∀ o', w'.broker.Deleted o' ↔ if o' = o then mark = true else w.broker.Deleted o' := by
    intro o'
    rw [hbroker, deleted_mark]
  have hpend : ∀ c o', w'.broker.Pending c o' ↔
      (w.broker.Pending c o' ∧ o' ≠ o) ∨ (c ∈ w.broker.clientList ∧ o' = o) := by
    intro c o'
    rw [hbroker]
    exact pending_moveToTail hl' c o'
  have hclients : w'.broker.clientList = w.broker.clientList := by
    rw [hbroker]
    rfl
  refine h.change o (fun o' he ho' => ?_) (fun ho' => ?_) (fun c o' he => ?_) hclients hrec
    hat hself_at hnow
  · have hd := (hdel o').mp ho'.2
    rw [if_neg he] at hd
    exact ⟨(hlist o').mp ho'.1, hd⟩
  · have hd := (hdel o).mp ho'.2
    rw [if_pos rfl] at hd
    rw [hclients]
    exact ⟨hmark hd, fun c hc => (hpend c o).mpr (Or.inr ⟨hc, rfl⟩)⟩
  · rw [hpend]
    simp [he]

/-- Without clients there are no tombstones, and a delete makes none. -/
theorem TombstonesKept.delObj_no_clients (h : w.TombstonesKept) (hl : w.broker.Linked)
    (hc : w.broker.clientList = []) (o : Obj) (d : Data) : (w.delObj o d).TombstonesKept := by
  have hbroker : (w.delObj o d).broker
      = (brokerDelObjNow ownerOps w.broker (w.owner.store o d) (.obj o)).1 := by
    rw [← brokerDelObj_of_no_clients ownerOps hc]
    rfl
  have hlist : ∀ o', (w.delObj o d).broker.Listed o' ↔ w.broker.Listed o' ∧ o' ≠ o := by
    rw [hbroker]
    exact listed_delObjNow ownerOps hl (w.owner.store o d)
  have hpend : ∀ c o', (w.delObj o d).broker.Pending c o' ↔ w.broker.Pending c o' ∧ o' ≠ o := by
    rw [hbroker]
    exact pending_delObjNow ownerOps hl (w.owner.store o d)
  have hnow : (w.delObj o d).owner.now = w.owner.now + 1 := by
    show (brokerDelObj ownerOps w.broker (w.owner.store o d) o).2.now + 1 = _
    rw [brokerDelObj_of_no_clients ownerOps hc]
    rfl
  refine h.change o (fun o' he ho' => ?_) (fun ho' => ?_) (fun c o' he => ?_) ?_ rfl
    (fun o' he => Function.update_of_ne he _ _) ?_ hnow
  · refine ⟨((hlist o').mp ho'.1).1, ?_⟩
    have hd := ho'.2
    rw [hbroker] at hd
    exact hd
  · exact absurd rfl ((hlist o).mp ho'.1).2
  · rw [hpend]
    simp [he]
  · rw [hbroker]
    rfl
  · show Function.update w.deletedAt o w.owner.now o ≤ w.owner.now
    rw [Function.update_self]

/-! ## Clients -/

theorem TombstonesKept.clientCreate (h : w.TombstonesKept) (c : Cl) (name : String) :
    (w.clientCreate c name).TombstonesKept := by
  have hlist : ∀ o, (w.clientCreate c name).broker.Listed o ↔ w.broker.Listed o :=
    listed_clientCreate w.broker c name
  have hdel : ∀ o, (w.clientCreate c name).broker.Deleted o ↔ w.broker.Deleted o :=
    deleted_clientCreate w.broker c name
  have hpend : ∀ e o, (w.clientCreate c name).broker.Pending e o ↔
      (e = c ∧ w.broker.Listed o) ∨ w.broker.Pending e o :=
    pending_clientCreate w.broker c name
  have htomb : ∀ o, (w.clientCreate c name).broker.Tombstone o → w.broker.Tombstone o :=
    fun o ho => ⟨(hlist o).mp ho.1, (hdel o).mp ho.2⟩
  refine ⟨fun o ho => ?_, fun o ho e he hp => ?_, fun o => Nat.lt_succ_of_lt (h.past o)⟩
  · obtain ⟨e, he⟩ := h.needed o (htomb o ho)
    exact ⟨e, (hpend e o).mpr (Or.inr he)⟩
  · -- everything that is listed is pending for the new client
    have hec : e ≠ c := fun hec => hp ((hpend e o).mpr (Or.inl ⟨hec, (htomb o ho).1⟩))
    have he' : e ∈ w.broker.clientList := by
      have : e ∈ (brokerClientCreate w.broker (some c) (some name)).2.clientList := he
      rw [clientCreate_clientList] at this
      exact (List.mem_cons.mp this).resolve_left hec
    refine (h.told o (htomb o ho) e he' (fun hp' => hp ((hpend e o).mpr (Or.inr hp')))).mono
      (fun d hd => ?_) rfl
    show d ∈ Function.update w.received c [] e
    rwa [Function.update_of_ne hec]

theorem mem_clientDelete_clients (hl : w.broker.Linked) {c e : Cl} :
    e ∈ (w.clientDelete c).broker.clientList ↔ e ≠ c ∧ e ∈ w.broker.clientList := by
  show e ∈ (brokerClientDelete ownerOps w.broker w.owner c).1.clientList ↔ _
  rw [clientDelete_clientList, mem_remove hl.clients_nodup]

theorem TombstonesKept.clientDelete (h : w.TombstonesKept) (hb : w.broker.Ordered) (c : Cl) :
    (w.clientDelete c).TombstonesKept := by
  have htomb : ∀ o, (w.clientDelete c).broker.Tombstone o ↔
      w.broker.Tombstone o ∧ ∃ e, e ≠ c ∧ w.broker.Pending e o :=
    hb.tombstone_clientDelete w.owner c
  have hpend : ∀ e o, (w.clientDelete c).broker.Pending e o ↔ w.broker.Pending e o ∧ e ≠ c :=
    hb.pending_clientDelete w.owner c
  have hnow : (w.clientDelete c).owner.now = w.owner.now + 1 := by
    show (brokerClientDelete ownerOps w.broker w.owner c).2.now + 1 = _
    rw [clientDelete_eq ownerOps hb.toLinked]
    exact congrArg (· + 1) (foldl_unlockObj _ _).2.1
  refine ⟨fun o ho => ?_, fun o ho e he hp => ?_, fun o => ?_⟩
  -- the sweep has left those that another client needs
  · obtain ⟨-, e, hec, hp⟩ := (htomb o).mp ho
    exact ⟨e, (hpend e o).mpr ⟨hp, hec⟩⟩
  · obtain ⟨hec, he'⟩ := (mem_clientDelete_clients hb.toLinked).mp he
    exact h.told o ((htomb o).mp ho).1 e he' (fun hp' => hp ((hpend e o).mpr ⟨hp', hec⟩))
  · rw [hnow]
    exact Nat.lt_succ_of_lt (h.past o)

theorem clientGetData_now (w : World Obj Cl Data) (c : Cl) :
    (w.clientGetData c).owner.now = w.owner.now + 1 :=
  congrArg (· + 1) (getData_owner w.owner w.broker c).2.1

theorem TombstonesKept.clientGetData_none {c : Cl} (h : w.TombstonesKept)
    (hnext : brokerGetNextDataObj w.broker (.client c) = none) :
    (w.clientGetData c).TombstonesKept := by
  have hbroker : (w.clientGetData c).broker = w.broker.setId (.client c) w.broker.id := by
    simp [World.clientGetData, World.after, getData_of_none ownerOps handOver w.owner hnext]
  have htomb : ∀ o, (w.clientGetData c).broker.Tombstone o → w.broker.Tombstone o := by
    intro o ho
    have hd := ho.2
    rw [Deleted, hbroker, setId_flags] at hd
    have hlist := ho.1
    rw [hbroker] at hlist
    exact ⟨hlist, hd⟩
  have hpend : ∀ e o, (w.clientGetData c).broker.Pending e o ↔ w.broker.Pending e o := by
    intro e o
    rw [hbroker]
    exact Iff.rfl
  refine ⟨fun o ho => ?_, fun o ho e he hp => ?_, fun o => ?_⟩
  · obtain ⟨e, he⟩ := h.needed o (htomb o ho)
    exact ⟨e, (hpend e o).mpr he⟩
  · rw [hbroker] at he
    refine (h.told o (htomb o ho) e he (fun hp' => hp ((hpend e o).mpr hp'))).mono
      (fun d hd => ?_) rfl
    rwa [received_of_none hnext]
  · rw [clientGetData_now]
    exact Nat.lt_succ_of_lt (h.past o)

/-- After a read of the tombstone `o`, the reader was told. -/
theorem told_of_read {c : Cl} {o : Obj} (h : w.TombstonesKept)
    (hnext : brokerGetNextDataObj w.broker (.client c) = some (.obj o))
    (hdel : w.broker.Deleted o) : (w.clientGetData c).Told c o := by
  refine ⟨w.version o, ?_, rfl, hdel, h.past o⟩
  rw [received_of_some hnext, Function.update_self]
  simp

/-- A read takes nothing back. -/
theorem received_subset_clientGetData {c : Cl} {o : Obj}
    (hnext : brokerGetNextDataObj w.broker (.client c) = some (.obj o)) (e : Cl) :
    ∀ d ∈ w.received e, d ∈ (w.clientGetData c).received e := by
  intro d hd
  rw [received_of_some hnext]
  by_cases he : e = c
  · subst he
    rw [Function.update_self]
    exact List.mem_append_left _ hd
  · rwa [Function.update_of_ne he]

theorem TombstonesKept.clientGetData_some {c : Cl} {o : Obj} (h : w.TombstonesKept)
    (hb : w.broker.Ordered)
    (hnext : brokerGetNextDataObj w.broker (.client c) = some (.obj o)) :
    (w.clientGetData c).TombstonesKept := by
  have htomb : ∀ o', (w.clientGetData c).broker.Tombstone o' ↔
      w.broker.Tombstone o' ∧ (o' = o → ∃ e, e ≠ c ∧ w.broker.Pending e o) :=
    hb.tombstone_getData w.owner hnext
  have hpend : ∀ e o', (w.clientGetData c).broker.Pending e o' ↔
      w.broker.Pending e o' ∧ ¬ (e = c ∧ o' = o) := hb.pending_getData w.owner hnext
  refine ⟨fun o' ho' => ?_, fun o' ho' e he hp => ?_, fun o' => ?_⟩
  · obtain ⟨ht, hother⟩ := (htomb o').mp ho'
    by_cases heq : o' = o
    -- the object just read is kept because another client needs it
    · obtain ⟨e, hec, hp⟩ := hother heq
      exact ⟨e, (hpend e o').mpr ⟨heq ▸ hp, fun hx => hec hx.1⟩⟩
    · obtain ⟨e, hp⟩ := h.needed o' ht
      exact ⟨e, (hpend e o').mpr ⟨hp, fun hx => heq hx.2⟩⟩
  · obtain ⟨ht, -⟩ := (htomb o').mp ho'
    by_cases hread : e = c ∧ o' = o
    · rw [hread.1, hread.2]
      exact told_of_read h hnext (hread.2 ▸ ht.2)
    · have he' : e ∈ w.broker.clientList := by
        have : e ∈ (brokerClientGetData ownerOps handOver w.broker w.owner (some c)).2.1.clientList :=
          he
        rwa [getData_clientList] at this
      exact (h.told o' ht e he' (fun hp' => hp ((hpend e o').mpr ⟨hp', hread⟩))).mono
        (received_subset_clientGetData hnext e) rfl
  · rw [clientGetData_now]
    exact Nat.lt_succ_of_lt (h.past o')

end World

/-! ## Runs -/

variable [DecidableEq Obj] [DecidableEq Cl]

theorem call_tombstonesKept {w w' : World Obj Cl Data} {a : Call Obj Cl Data}
    (h : w.call a = some w') (ha : a.isDelObjNow = false) (hb : w.broker.Ordered)
    (hi : w.TombstonesKept) : w'.TombstonesKept := by
  cases a with
  | addObj o d =>
    obtain ⟨-, rfl⟩ := call_addObj.mp h
    exact hi.addObj hb.toLinked o d
  | updObj o d =>
    obtain ⟨ho, rfl⟩ := call_updObj.mp h
    exact hi.moveToTail hb.toLinked ho false (by simp) (brokerUpdObj_eq w.broker o) rfl
      (fun _ _ => rfl) (le_of_lt (hi.past o)) rfl
  | delObj o d =>
    obtain ⟨ho, rfl⟩ := call_delObj.mp h
    by_cases hc : w.broker.clientList = []
    · exact hi.delObj_no_clients hb.toLinked hc o d
    · refine hi.moveToTail hb.toLinked ho true (fun _ => hc) ?_ rfl
        (fun o' he => Function.update_of_ne he _ _) ?_ ?_
      · simp [World.delObj, World.after, brokerDelObj_of_clients ownerOps hc]
      · show Function.update w.deletedAt o w.owner.now o ≤ w.owner.now
        rw [Function.update_self]
      · show (brokerDelObj ownerOps w.broker (w.owner.store o d) o).2.now + 1 = _
        rw [brokerDelObj_of_clients ownerOps hc]
        rfl
  | delObjNow o => simp [Call.isDelObjNow] at ha
  | clientCreate c name =>
    obtain ⟨-, rfl⟩ := call_clientCreate.mp h
    exact hi.clientCreate c name
  | clientDelete c =>
    obtain ⟨-, rfl⟩ := call_clientDelete.mp h
    exact hi.clientDelete hb c
  | clientGetData c =>
    obtain ⟨-, rfl⟩ := call_clientGetData.mp h
    cases hnext : brokerGetNextDataObj w.broker (.client c) with
    | none => exact hi.clientGetData_none hnext
    | some r =>
      obtain ⟨o, rfl, -, -⟩ := getNextDataObj_eq_some hb.toLinked hnext
      exact hi.clientGetData_some hb hnext

/-- **How a tombstone ends.**  By an update, which makes it live again, or by being
unlinked, after everybody who is still registered was told. -/
theorem call_ends_tombstone {w w' : World Obj Cl Data} {a : Call Obj Cl Data} {o : Obj}
    (h : w.call a = some w') (ha : a.isDelObjNow = false) (hb : w.broker.Ordered)
    (hi : w.TombstonesKept) (ho : w.broker.Tombstone o) (ho' : ¬ w'.broker.Tombstone o) :
    (∃ d, a = .updObj o d ∧ w'.broker.Live o) ∨
      (¬ w'.broker.Listed o ∧ ∀ c ∈ w'.broker.clientList, w'.Told c o) := by
  have hl := hb.toLinked
  cases a with
  | addObj o₁ d =>
    obtain ⟨ho₁, rfl⟩ := call_addObj.mp h
    have hne : o ≠ o₁ := fun he => ho₁ (he ▸ ho.1)
    refine absurd ⟨?_, ?_⟩ ho'
    · exact (listed_addObj ownerOps w.broker (w.owner.store o₁ d) 0 o).mpr (Or.inl ho.1)
    · exact (deleted_addObj ownerOps w.broker (w.owner.store o₁ d) 0 o).mpr ⟨ho.2, hne⟩
  | updObj o₁ d =>
    obtain ⟨ho₁, rfl⟩ := call_updObj.mp h
    have hlist := (listed_updObj hl ho₁ o).mpr ho.1
    have hdel : (w.updObj o₁ d).broker.Deleted o ↔
        if o = o₁ then false = true else w.broker.Deleted o := by
      show (brokerUpdObj w.broker o₁).Deleted o ↔ _
      rw [brokerUpdObj_eq, deleted_mark]
    by_cases he : o = o₁
    · subst he
      rw [if_pos rfl] at hdel
      exact Or.inl ⟨d, rfl, hlist, fun hd => Bool.noConfusion (hdel.mp hd)⟩
    · rw [if_neg he] at hdel
      exact absurd ⟨hlist, hdel.mpr ho.2⟩ ho'
  | delObj o₁ d =>
    obtain ⟨ho₁, rfl⟩ := call_delObj.mp h
    -- the tombstone is pending for somebody, so there are clients
    obtain ⟨c, hc⟩ := hi.needed o ho
    have hne : w.broker.clientList ≠ [] := List.ne_nil_of_mem (hc.registered hl)
    have hbroker : (w.delObj o₁ d).broker
        = (w.broker.setDelete (.obj o₁) true).moveToTail (.obj o₁) := by
      simp [World.delObj, World.after, brokerDelObj_of_clients ownerOps hne]
    refine absurd ⟨?_, ?_⟩ ho'
    · rw [hbroker]
      exact (listed_moveToTail (hl.setDelete _ _) ho₁ o).mpr ho.1
    · rw [hbroker, deleted_mark]
      split_ifs
      · rfl
      · exact ho.2
  | delObjNow o₁ => simp [Call.isDelObjNow] at ha
  | clientCreate c name =>
    obtain ⟨-, rfl⟩ := call_clientCreate.mp h
    refine absurd ⟨?_, ?_⟩ ho'
    · exact (listed_clientCreate w.broker c name o).mpr ho.1
    · exact (deleted_clientCreate w.broker c name o).mpr ho.2
  | clientDelete c =>
    obtain ⟨-, rfl⟩ := call_clientDelete.mp h
    have hdel : (w.clientDelete c).broker.Deleted o :=
      (deleted_clientDelete ownerOps hl w.owner c o).mpr ho.2
    refine Or.inr ⟨fun hlist => ho' ⟨hlist, hdel⟩, fun e he => ?_⟩
    obtain ⟨hec, he'⟩ := (World.mem_clientDelete_clients hl).mp he
    refine (hi.told o ho e he' (fun hp => ho' ?_)).mono (fun d hd => hd) rfl
    exact (hb.tombstone_clientDelete w.owner c o).mpr ⟨ho, e, hec, hp⟩
  | clientGetData c =>
    obtain ⟨-, rfl⟩ := call_clientGetData.mp h
    have hdel : (w.clientGetData c).broker.Deleted o :=
      (deleted_getData ownerOps handOver w.owner (some c) o).mpr ho.2
    refine Or.inr ⟨fun hlist => ho' ⟨hlist, hdel⟩, fun e he => ?_⟩
    have he' : e ∈ w.broker.clientList := by
      have : e ∈ (brokerClientGetData ownerOps handOver w.broker w.owner (some c)).2.1.clientList :=
        he
      rwa [getData_clientList] at this
    cases hnext : brokerGetNextDataObj w.broker (.client c) with
    | none =>
      refine absurd ⟨?_, hdel⟩ ho'
      show (brokerClientGetData ownerOps handOver w.broker w.owner (some c)).2.1.Listed o
      rw [getData_of_none ownerOps handOver w.owner hnext]
      exact ho.1
    | some r =>
      obtain ⟨o₁, rfl, -, -⟩ := getNextDataObj_eq_some hl hnext
      -- the read reclaimed it, so that it was read and nobody else needs it
      have hread : o = o₁ ∧ ∀ e, e ≠ c → ¬ w.broker.Pending e o₁ := by
        by_contra hn
        refine ho' ((hb.tombstone_getData w.owner hnext o).mpr ⟨ho, fun heq => ?_⟩)
        by_contra hnone
        exact hn ⟨heq, fun e hec hp => hnone ⟨e, hec, hp⟩⟩
      obtain ⟨rfl, hnone⟩ := hread
      by_cases hec : e = c
      · rw [hec]
        exact World.told_of_read hi hnext ho.2
      · exact (hi.told o ho e he' (hnone e hec)).mono
          (World.received_subset_clientGetData hnext e) rfl

/-- **Tombstone lifetime.**  In every state reached without forced removals and with
fewer than `2^64` increments of the broker's id, each object marked deleted has a
client cursor before it; in particular there are no tombstones without clients.  And
whatever call is made next, a tombstone stops being one only by `broker_upd_obj`
re-creating it, or by being unlinked and unlocked, once, in a call after which every
registered client has been handed it as deleted by a read made after the most recent
`broker_del_obj` on it. -/
theorem tombstone_lifetime {d₀ : Obj → Data} {as : List (Call Obj Cl Data)}
    {w : World Obj Cl Data} (has : ∀ a ∈ as, a.isDelObjNow = false)
    (h : (brokerSystem Cl d₀).exec (World.start d₀) as = some w)
    (hw : w.broker.increments < 2 ^ 64) :
    (∀ o, w.broker.Tombstone o → ∃ c ∈ w.broker.clientList,
      Precedes w.broker.objList (.client c) (.obj o)) ∧
    (w.broker.clientList = [] → ∀ o, ¬ w.broker.Tombstone o) ∧
    (∀ a w' o, w.call a = some w' → a.isDelObjNow = false → w.broker.Tombstone o →
      ¬ w'.broker.Tombstone o →
      (∃ d, a = .updObj o d ∧ w'.broker.Live o) ∨
      (¬ w'.broker.Listed o ∧ w'.owner.unlocked.count o = w.owner.unlocked.count o + 1 ∧
        ∀ c ∈ w'.broker.clientList, ∃ d ∈ w'.received c, d.obj = o ∧ d.deleted = true ∧
          w'.deletedAt o < d.time)) := by
  obtain ⟨hb, hi⟩ := run_invariant h hw (I := World.TombstonesKept)
    (World.tombstonesKept_start d₀)
    (fun a ha v v' hcall hb _ hi => call_tombstonesKept hcall (has a ha) hb hi)
  have hneeded : ∀ o, w.broker.Tombstone o → ∃ c ∈ w.broker.clientList,
      Precedes w.broker.objList (.client c) (.obj o) := by
    intro o ho
    obtain ⟨c, hc⟩ := hi.needed o ho
    exact ⟨c, hc.registered hb.toLinked, hc⟩
  refine ⟨hneeded, fun hnil o ho => ?_, fun a w' o hcall ha ho ho' => ?_⟩
  · obtain ⟨c, hc, -⟩ := hneeded o ho
    rw [hnil] at hc
    exact List.not_mem_nil hc
  · rcases call_ends_tombstone hcall ha hb hi ho ho' with hupd | ⟨hlist, htold⟩
    · exact Or.inl hupd
    · refine Or.inr ⟨hlist, ?_, htold⟩
      rw [call_unlocked hcall hb.toLinked o, if_pos ⟨ho.1, hlist⟩]

/-- The theorem at a run with two clients, one of which has read a deleted object:
the read of the other one reclaims it. -/
theorem tombstone_lifetime_last_reader :
    ∃ w w', (brokerSystem ℕ fun _ : ℕ => 0).exec (World.start fun _ => 0) [.clientCreate 0 "dp",
        .addObj 7 1, .clientCreate 1 "kernel", .delObj 7 2, .clientGetData 0] = some w ∧
      w.call (.clientGetData 1) = some w' ∧ w.broker.Tombstone 7 ∧
      ¬ w'.broker.Listed 7 ∧ w'.owner.unlocked.count 7 = w.owner.unlocked.count 7 + 1 ∧
      ∀ c ∈ w'.broker.clientList, ∃ d ∈ w'.received c, d.obj = 7 ∧ d.deleted = true ∧
        w'.deletedAt 7 < d.time := by
  obtain ⟨w, hexec, hp⟩ := (brokerSystem ℕ fun _ : ℕ => 0).exists_of_exec_any
    (World.start fun _ => 0) [.clientCreate 0 "dp",
        .addObj 7 1, .clientCreate 1 "kernel", .delObj 7 2, .clientGetData 0]
    (fun w => w.broker.increments < 2 ^ 64 ∧ 1 ∈ w.broker.clientList ∧ w.broker.Tombstone 7
      ∧ ¬ (w.clientGetData 1).broker.Tombstone 7) (by decide +kernel)
  rw [decide_eq_true_eq] at hp
  obtain ⟨hw, hc, ho, ho'⟩ := hp
  have hcall : w.call (.clientGetData 1) = some (w.clientGetData 1) :=
    call_clientGetData.mpr ⟨hc, rfl⟩
  refine ⟨w, _, hexec, hcall, ho, ?_⟩
  rcases (tombstone_lifetime (by decide) hexec hw).2.2 _ _ 7 hcall rfl ho ho' with
    ⟨d, hupd, -⟩ | hrest
  · cases hupd
  · exact hrest

/-- Without the bound on the increments a tombstone can go before everybody was told:
here the delete gets the id `0`, so that the read of the client `1` reclaims the
object, which the client `0` was never handed as deleted. -/
theorem tombstone_reclaimed_early_after_wrap :
    ∃ w w', (brokerSystem ℕ fun _ : ℕ => 0).exec (World.start fun _ => 0)
        (aroundUpdates [.clientCreate 0 "dp", .addObj 7 0, .clientGetData 0, .updObj 7 0]
          (2 ^ 64 - 3) 7 0 [.delObj 7 0, .clientCreate 1 "kernel"]) = some w ∧
      w.call (.clientGetData 1) = some w' ∧ w.broker.Tombstone 7 ∧
      ¬ w'.broker.Listed 7 ∧ 0 ∈ w'.broker.clientList ∧
      ∀ d ∈ w'.received 0, d.deleted = false := by
  obtain ⟨w, hexec, hp⟩ := exec_around_updates (fun _ => 0)
    [.clientCreate 0 "dp", .addObj 7 0, .clientGetData 0, .updObj 7 0]
    (2 ^ 64 - 4) 7 0 [.delObj 7 0, .clientCreate 1 "kernel"]
    (fun w => decide (1 ∈ w.broker.clientList ∧ w.broker.Tombstone 7 ∧
      ¬ (w.clientGetData 1).broker.Listed 7 ∧ 0 ∈ (w.clientGetData 1).broker.clientList ∧
      ∀ d ∈ (w.clientGetData 1).received 0, d.deleted = false))
    (by decide +kernel)
  rw [decide_eq_true_eq] at hp
  obtain ⟨hc, hrest⟩ := hp
  exact ⟨w, _, hexec, call_clientGetData.mpr ⟨hc, rfl⟩, hrest⟩
