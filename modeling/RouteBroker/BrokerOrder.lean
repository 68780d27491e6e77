/-
# Positions and ids agree

A broker keeps the progress of a client twice: as the position of its cursor in
the queue and as a 64-bit id.  Delivery looks at positions, reclaiming
(`no_clients_need_this`) and waking up look at ids.  `Broker.Ordered` says that the
two agree: along the queue the ids of the objects strictly increase, and a cursor
has an id that separates the objects before it from those after it.

Every operation keeps `Ordered` as long as `++broker->id` does not wrap.  What it
buys is `noClientsNeedThis_iff`: the test on ids is a test on positions.
-/
import RouteBroker.BrokerQueue

open Circleq

variable {Obj Cl Ext Msg : Type*}

namespace Broker

/-- How the ids of `x` and `y` compare when `x` stands before `y`. -/
def InOrder (b : Broker Obj Cl) : Ref Obj Cl → Ref Obj Cl → Prop
  | x, .obj o => (b.bobj x).id < (b.bobj (.obj o)).id
  | .obj o, .client c => (b.bobj (.obj o)).id ≤ (b.bobj (.client c)).id
  | .client _, .client _ => True

/-- Whether two entries are in order is a matter of their ids. -/
theorem InOrder.of_ids {b b' : Broker Obj Cl} {x y : Ref Obj Cl} (h : b.InOrder x y)
    (hx : (b'.bobj x).id = (b.bobj x).id) (hy : (b'.bobj y).id = (b.bobj y).id) :
    b'.InOrder x y := by
  cases y with
  | obj o =>
    change (b'.bobj x).id < (b'.bobj (.obj o)).id
    rw [hx, hy]
    exact h
  | client c =>
    cases x with
    | obj o =>
      change (b'.bobj (.obj o)).id ≤ (b'.bobj (.client c)).id
      rw [hx, hy]
      exact h
    | client d => trivial

/-- The queue is well linked and its ids are in order. -/
structure Ordered (b : Broker Obj Cl) : Prop extends Linked b where
  order : ∀ x y, Precedes b.objList x y → b.InOrder x y
  id_le : ∀ r ∈ b.objList, (b.bobj r).id ≤ b.id
  obj_pos : ∀ o, b.Listed o → 0 < (b.bobj (.obj o)).id
  id_eq : b.id = b.increments
  id_lt : b.id < 2 ^ 64

/-- The empty list is in order. -/
theorem ordered_create : (brokerCreate : Broker Obj Cl).Ordered where
  toLinked := linked_create
  order := by simp [brokerCreate]
  id_le := by simp [brokerCreate]
  obj_pos := by simp [Listed, brokerCreate]
  id_eq := rfl
  id_lt := by simp [brokerCreate]

/-! ## The test on ids -/

/-- The running minimum of `no_clients_need_this`. -/
theorem le_foldl_least (f : Cl → ℕ) (l : List Cl) (m n : ℕ) :
    n ≤ l.foldl (fun id c => if f c < id then f c else id) m ↔ n ≤ m ∧ ∀ c ∈ l, n ≤ f c := by
  induction l generalizing m with
  | nil => simp
  | cons c l ih =>
    rw [List.foldl_cons, ih, List.forall_mem_cons]
    split_ifs with h
    · constructor
      · rintro ⟨hc, hl⟩
        exact ⟨by omega, hc, hl⟩
      · rintro ⟨-, hc, hl⟩
        exact ⟨hc, hl⟩
    · constructor
      · rintro ⟨hm, hl⟩
        exact ⟨hm, by omega, hl⟩
      · rintro ⟨hm, -, hl⟩
        exact ⟨hm, hl⟩

/-- `no_clients_need_this` says that every cursor has come as far as the entry. -/
theorem noClientsNeedThis_iff_ids {b : Broker Obj Cl} {r : Ref Obj Cl}
    (hr : (b.bobj r).id < 2 ^ 64) : noClientsNeedThis b r = true ↔
      ∀ c ∈ b.clientList, (b.bobj r).id ≤ (b.bobj (.client c)).id := by
  unfold noClientsNeedThis
  by_cases he : b.clientList = []
  · simp [he]
  · rw [if_neg (by simpa using he), decide_eq_true_eq, leastClientId, le_foldl_least]
    constructor
    · rintro ⟨-, h⟩
      exact h
    · intro h
      exact ⟨by omega, h⟩

section Positions

variable {b : Broker Obj Cl} (hb : b.Ordered)

include hb

/-- An object is pending for a client exactly if it is listed with a greater id. -/
theorem Ordered.pending_iff {c : Cl} (hc : c ∈ b.clientList) (o : Obj) :
    b.Pending c o ↔ b.Listed o ∧ (b.bobj (.client c)).id < (b.bobj (.obj o)).id := by
  constructor
  · intro h
    exact ⟨h.listed, hb.order _ _ h⟩
  · rintro ⟨ho, hlt⟩
    have hcm : Ref.client c ∈ b.objList := (hb.cursor_mem c).mpr hc
    rcases precedes_total hcm ho (by simp) with h | h
    · exact h
    · have hle : (b.bobj (.obj o)).id ≤ (b.bobj (.client c)).id := hb.order _ _ h
      omega

/-- **The reclaim test is exact**: it succeeds exactly if no cursor stands before
the object. -/
theorem Ordered.noClientsNeedThis_iff {o : Obj} (ho : b.Listed o) :
    noClientsNeedThis b (.obj o) = true ↔ ∀ c, ¬ b.Pending c o := by
  have hlt : (b.bobj (.obj o)).id < 2 ^ 64 := lt_of_le_of_lt (hb.id_le _ ho) hb.id_lt
  rw [noClientsNeedThis_iff_ids hlt]
  constructor
  · intro h c hp
    have hc := hp.registered hb.toLinked
    have hle := h c hc
    have hgt := ((hb.pending_iff hc o).mp hp).2
    omega
  · intro h c hc
    by_contra hgt
    exact h c ((hb.pending_iff hc o).mpr ⟨ho, by omega⟩)

/-- A client level with the broker has nothing pending. -/
theorem Ordered.not_pending_of_id_eq {c : Cl} (hc : (b.bobj (.client c)).id = b.id) (o : Obj) :
    ¬ b.Pending c o := by
  intro h
  have hlt : (b.bobj (.client c)).id < (b.bobj (.obj o)).id := hb.order _ _ h
  have hle := hb.id_le _ h.listed
  omega

end Positions

variable [DecidableEq Obj] [DecidableEq Cl]

/-! ## Changes of objects -/

section Objects

variable {b : Broker Obj Cl} {o : Obj}

omit [DecidableEq Obj] [DecidableEq Cl] in
/-- As long as the counter does not wrap, `++broker->id` adds one. -/
theorem Ordered.inc_eq (hb : b.Ordered) (hw : b.increments + 1 < 2 ^ 64) :
    (b.id + 1) % 2 ^ 64 = b.id + 1 :=
  Nat.mod_eq_of_lt (by rw [hb.id_eq]; exact hw)

/-- The new object has the largest id and stands at the tail. -/
theorem Ordered.addObj (ops : BrokerOps Obj Cl Ext) (hb : b.Ordered) (ho : ¬ b.Listed o)
    (s : Ext) (type : ℕ) (hw : b.increments + 1 < 2 ^ 64) :
    (brokerAddObj ops b s o type).1.Ordered := by
  have hinc := hb.inc_eq hw
  have hid : ∀ r, ((brokerAddObj ops b s o type).1.bobj r).id
      = if r = .obj o then b.id + 1 else (b.bobj r).id := by
    intro r
    by_cases hr : r = .obj o
    · simp only [brokerAddObj, setObj, hr, incId_bobj, Function.update_self, incId_id, hinc,
        if_true]
    · simp [brokerAddObj, setObj, hr]
  have hne : ∀ r ∈ b.objList, r ≠ .obj o := fun r hr he => by
    rw [he] at hr
    exact ho hr
  refine ⟨hb.toLinked.addObj ops ho s type, ?_, ?_, ?_, ?_, ?_⟩
  · intro x y hxy
    rcases precedes_insertTail.mp hxy with h | ⟨hx, rfl⟩
    · -- both entries were there before and keep their ids
      refine (hb.order x y h).of_ids ?_ ?_
      · rw [hid, if_neg (hne x h.mem_left)]
      · rw [hid, if_neg (hne y h.mem_right)]
    -- the new object goes to the tail, with an id greater than all others
    · have hle := hb.id_le x hx
      simp only [InOrder, hid, hne x hx, if_false, if_true]
      omega
  · intro r hr
    rw [hid]
    change _ ≤ (b.id + 1) % 2 ^ 64
    rw [hinc]
    rcases mem_insertTail.mp hr with h | rfl
    · have hle := hb.id_le r h
      rw [if_neg (hne r h)]
      omega
    · rw [if_pos rfl]
  · intro o' ho'
    rw [hid]
    split_ifs with h
    · omega
    · exact hb.obj_pos o' ((mem_insertTail.mp ho').resolve_right h)
  · change (b.id + 1) % 2 ^ 64 = b.increments + 1
    rw [hinc, hb.id_eq]
  · exact Nat.mod_lt _ (by norm_num)

theorem Ordered.setDelete (hb : b.Ordered) (r : Ref Obj Cl) (d : Bool) :
    (b.setDelete r d).Ordered := by
  refine ⟨hb.toLinked.setDelete r d, ?_, ?_, ?_, hb.id_eq, hb.id_lt⟩
  · intro x y hxy
    exact (hb.order x y hxy).of_ids (by simp) (by simp)
  · intro r' hr'
    simpa using hb.id_le r' hr'
  · intro o ho
    simpa using hb.obj_pos o ho

/-- So has one that is moved. -/
theorem Ordered.moveToTail (hb : b.Ordered) (ho : b.Listed o)
    (hw : b.increments + 1 < 2 ^ 64) : (b.moveToTail (.obj o)).Ordered := by
  have hinc := hb.inc_eq hw
  have hid : ∀ r, ((b.moveToTail (.obj o)).bobj r).id
      = if r = .obj o then b.id + 1 else (b.bobj r).id := by
    intro r
    rw [moveToTail_bobj_id, hinc]
  refine ⟨hb.toLinked.moveToTail ho, ?_, ?_, ?_, ?_, ?_⟩
  · intro x y hxy
    rw [moveToTail_objList, precedes_insertTail, precedes_remove hb.nodup,
      mem_remove hb.nodup] at hxy
    rcases hxy with ⟨h, hx, hy⟩ | ⟨⟨hx, hmem⟩, rfl⟩
    -- neither of the two entries was moved
    · refine (hb.order x y h).of_ids ?_ ?_
      · rw [hid, if_neg hx]
      · rw [hid, if_neg hy]
    -- the moved entry has got the greatest id
    · have hle := hb.id_le x hmem
      simp only [InOrder, hid, hx, if_false, if_true]
      omega
  · intro r hr
    have hle := hb.id_le r ((mem_moveToTail hb.toLinked ho r).mp hr)
    rw [hid, moveToTail_id, hinc]
    split_ifs
    · exact le_refl _
    · omega
  · intro o' ho'
    rw [hid]
    split_ifs
    · omega
    · exact hb.obj_pos o' ((mem_moveToTail hb.toLinked ho _).mp ho')
  · rw [moveToTail_id, moveToTail_increments, hinc, hb.id_eq]
  · rw [moveToTail_id]
    exact Nat.mod_lt _ (by norm_num)

omit [DecidableEq Obj] [DecidableEq Cl] in
/-- Dropping entries from the queue keeps the order of the others. -/
theorem Ordered.of_sublist {b' : Broker Obj Cl} (hb : b.Ordered) (hl : b'.Linked)
    (hsub : b'.objList.Sublist b.objList) (hbobj : b'.bobj = b.bobj) (hid : b'.id = b.id)
    (hinc : b'.increments = b.increments) : b'.Ordered := by
  refine ⟨hl, ?_, ?_, ?_, ?_, ?_⟩
  · intro x y hxy
    exact (hb.order x y (hxy.sublist hsub)).of_ids (by rw [hbobj]) (by rw [hbobj])
  · intro r hr
    rw [hbobj, hid]
    exact hb.id_le r (hsub.subset hr)
  · intro o ho
    rw [hbobj]
    exact hb.obj_pos o (hsub.subset ho)
  · rw [hid, hinc, hb.id_eq]
  · rw [hid]
    exact hb.id_lt

theorem Ordered.delObjNow (ops : BrokerOps Obj Cl Ext) (hb : b.Ordered) (s : Ext) (o : Obj) :
    (brokerDelObjNow ops b s (.obj o)).1.Ordered :=
  hb.of_sublist (hb.toLinked.delObjNow ops s) List.erase_sublist rfl rfl rfl

/-- A delete frees the object or moves it to the tail. -/
theorem Ordered.delObj (ops : BrokerOps Obj Cl Ext) (hb : b.Ordered) (ho : b.Listed o) (s : Ext)
    (hw : (brokerDelObj ops b s o).1.increments < 2 ^ 64) :
    (brokerDelObj ops b s o).1.Ordered := by
  rw [delObj_increments] at hw
  by_cases hc : b.clientList = []
  · rw [brokerDelObj_of_no_clients ops hc]
    exact hb.delObjNow ops s o
  · rw [brokerDelObj_of_clients ops hc]
    rw [if_neg hc] at hw
    exact (hb.setDelete _ _).moveToTail ho hw

theorem Ordered.updObj (hb : b.Ordered) (ho : b.Listed o) (hw : b.increments + 1 < 2 ^ 64) :
    (brokerUpdObj b o).Ordered := by
  rw [brokerUpdObj_eq]
  exact (hb.setDelete _ _).moveToTail ho hw

end Objects

/-! ## Clients -/

section Clients

variable {b : Broker Obj Cl} {c : Cl} {o : Obj}

/-- A cursor moved right behind a pending object takes the id of the object. -/
theorem Ordered.advance (hb : b.Ordered) (hp : b.Pending c o) :
    (b.advance c (.obj o)).Ordered := by
  have hid : ∀ r, ((b.advance c (.obj o)).bobj r).id
      = if r = .client c then (b.bobj (.obj o)).id else (b.bobj r).id :=
    fun r => advance_bobj_id b (.obj o) r c
  refine ⟨hb.toLinked.advance hp, ?_, ?_, ?_, hb.id_eq, hb.id_lt⟩
  · intro x y hxy
    rcases (precedes_advance hb.toLinked hp x y).mp hxy with
      ⟨h, hx, hy⟩ | ⟨rfl, h, -⟩ | ⟨rfl, h⟩
    · refine (hb.order x y h).of_ids ?_ ?_
      · rw [hid, if_neg hx]
      · rw [hid, if_neg hy]
    · -- what comes after the cursor now came after the object
      cases y with
      | obj o' =>
        have hlt : (b.bobj (.obj o)).id < (b.bobj (.obj o')).id := hb.order _ _ h
        simpa [InOrder, hid] using hlt
      | client d => trivial
    · -- what comes before the cursor now is the object or came before it
      cases x with
      | obj o' =>
        change (_ : ℕ) ≤ _
        rw [hid, hid, if_neg (by simp), if_pos rfl]
        rcases h with h | ⟨h, -⟩
        · rw [h]
        · exact le_of_lt (hb.order _ _ h)
      | client d => trivial
  · intro r hr
    rw [hid, advance_id]
    split_ifs
    · exact hb.id_le _ hp.listed
    · exact hb.id_le r ((mem_advance hb.toLinked hp r).mp hr)
  · intro o' ho'
    rw [hid, if_neg (by simp)]
    exact hb.obj_pos o' ((mem_advance hb.toLinked hp _).mp ho')

/-- A client with nothing pending may be brought level with the broker. -/
theorem Ordered.setId_level (hb : b.Ordered) (hp : ∀ o, ¬ b.Pending c o) :
    (b.setId (.client c) b.id).Ordered := by
  have hid := fun r => setId_bobj_id b (.client c) r b.id
  refine ⟨hb.toLinked.setId _ _, ?_, ?_, ?_, hb.id_eq, hb.id_lt⟩
  · intro x y hxy
    by_cases hx : x = .client c
    -- behind the cursor there are only other cursors
    · cases y with
      | obj o =>
        rw [hx] at hxy
        exact absurd hxy (hp o)
      | client d =>
        rw [hx]
        trivial
    · by_cases hy : y = .client c
      -- before the cursor no id is ahead of the id of the broker
      · cases x with
        | obj o =>
          rw [hy]
          change (_ : ℕ) ≤ _
          rw [hid, hid, if_neg (by simp), if_pos rfl]
          exact hb.id_le _ hxy.mem_left
        | client d =>
          rw [hy]
          trivial
      · refine (hb.order x y hxy).of_ids ?_ ?_
        · rw [hid, if_neg hx]
        · rw [hid, if_neg hy]
  · intro r hr
    rw [hid]
    split_ifs
    · exact le_refl _
    · exact hb.id_le r hr
  · intro o ho
    rw [hid, if_neg (by simp)]
    exact hb.obj_pos o ho

omit [DecidableEq Obj] in
theorem Ordered.incConsumed (hb : b.Ordered) (c : Cl) : (b.incConsumed c).Ordered :=
  hb.of_sublist (hb.toLinked.incConsumed c) (List.Sublist.refl _) rfl rfl rfl

/-- A read keeps the order: the cursor goes behind an object and takes its id. -/
theorem Ordered.getData (ops : BrokerOps Obj Cl Ext) (cops : BrokerClientOps Obj Cl Ext Msg)
    (hb : b.Ordered) (s : Ext) (client : Option Cl) :
    (brokerClientGetData ops cops b s client).2.1.Ordered := by
  cases client with
  | none => exact hb
  | some c =>
    cases h : brokerGetNextDataObj b (.client c) with
    | none =>
      rw [getData_of_none ops cops s h]
      exact hb.setId_level ((getNextDataObj_eq_none hb.toLinked).mp h)
    | some r =>
      obtain ⟨o, rfl, hp, -⟩ := getNextDataObj_eq_some hb.toLinked h
      rw [getData_of_some ops cops s h]
      dsimp only
      split_ifs
      · exact ((hb.advance hp).delObjNow ops s o).incConsumed c
      · exact (hb.advance hp).incConsumed c

/-- What a read reclaims: a deleted object that no other client has pending. -/
theorem Ordered.reclaimedBy_iff (hb : b.Ordered)
    (h : brokerGetNextDataObj b (.client c) = some (.obj o)) :
    b.reclaimedBy c o = true ↔ b.Deleted o ∧ ∀ d, d ≠ c → ¬ b.Pending d o := by
  obtain ⟨o₁, ho₁, hp, hmin⟩ := getNextDataObj_eq_some hb.toLinked h
  cases ho₁
  have hlist : (b.advance c (.obj o)).Listed o := (mem_advance hb.toLinked hp _).mpr hp.listed
  unfold reclaimedBy Deleted
  rw [Bool.and_eq_true, (hb.advance hp).noClientsNeedThis_iff hlist]
  refine and_congr_right (fun _ => ?_)
  -- the cursor of the reader has passed the object already
  simp only [pending_advance hb.toLinked hp hmin]
  constructor
  · intro hn d hd hpd
    exact hn d ⟨hpd, fun he => hd he.1⟩
  · rintro hn d ⟨hpd, hne⟩
    exact hn d (fun he => hne ⟨he, trivial⟩) hpd

theorem Ordered.withClient (hb : b.Ordered) (hc : c ∉ b.clientList) (name : String) :
    (b.withClient c name).Ordered := by
  have hid : ∀ r, ((b.withClient c name).bobj r).id
      = if r = .client c then 0 else (b.bobj r).id := by
    intro r
    by_cases hr : r = .client c
    · simp [Broker.withClient, setObj, hr]
    · simp [Broker.withClient, setObj, hr]
  have hne : ∀ r ∈ b.objList, r ≠ .client c := fun r hr he => by
    rw [he, hb.cursor_mem] at hr
    exact hc hr
  refine ⟨hb.toLinked.withClient hc name, ?_, ?_, ?_, hb.id_eq, hb.id_lt⟩
  · intro x y hxy
    rcases precedes_insertHead.mp hxy with ⟨rfl, hy⟩ | h
    -- the cursor is new, with the id `0` that no object has
    · cases y with
      | obj o =>
        change (_ : ℕ) < _
        rw [hid, hid, if_pos rfl, if_neg (by simp)]
        exact hb.obj_pos o hy
      | client d => trivial
    · refine (hb.order x y h).of_ids ?_ ?_
      · rw [hid, if_neg (hne x h.mem_left)]
      · rw [hid, if_neg (hne y h.mem_right)]
  · intro r hr
    rw [hid]
    rcases mem_insertHead.mp hr with rfl | h
    · rw [if_pos rfl]
      exact Nat.zero_le _
    · rw [if_neg (hne r h)]
      exact hb.id_le r h
  · intro o ho
    rw [hid, if_neg (by simp)]
    exact hb.obj_pos o ((mem_insertHead.mp ho).resolve_left (by simp))

/-- A new cursor stands at the head, with id 0 unless there is nothing to read. -/
theorem Ordered.clientCreate (hb : b.Ordered) (hc : c ∉ b.clientList) (name : String) :
    (brokerClientCreate b (some c) (some name)).2.Ordered := by
  have hw := hb.withClient hc name
  rw [clientCreate_eq]
  dsimp only
  split_ifs with h
  · exact hw
  · refine hw.setId_level ((brokerHasMoreData_eq_false hw.toLinked).mp ?_)
    simpa using h

theorem Ordered.withoutClient (hb : b.Ordered) (c : Cl) : (b.withoutClient c).Ordered :=
  hb.of_sublist (hb.toLinked.withoutClient c) List.erase_sublist rfl rfl rfl

theorem Ordered.clientDelete (ops : BrokerOps Obj Cl Ext) (hb : b.Ordered) (s : Ext) (c : Cl) :
    (brokerClientDelete ops b s c).1.Ordered := by
  refine hb.of_sublist (hb.toLinked.clientDelete ops s c) ?_ ?_ ?_ ?_ <;>
    rw [clientDelete_eq ops hb.toLinked]
  · exact List.filter_sublist.trans List.erase_sublist
  · rfl
  · rfl
  · rfl

/-- What the sweep of a departing client reclaims: the deleted objects that no
other client has pending. -/
theorem Ordered.reclaimable_iff (hb : b.Ordered) (c : Cl) (ho : b.Listed o) :
    (b.withoutClient c).reclaimable (.obj o) = true ↔
      b.Deleted o ∧ ∀ d, d ≠ c → ¬ b.Pending d o := by
  have ho' : (b.withoutClient c).Listed o := (mem_remove hb.nodup).mpr ⟨by simp, ho⟩
  have hf : ((b.withoutClient c).bobj (.obj o)).flags.obj = true := hb.obj_flag o ho
  unfold reclaimable
  rw [hf, Bool.true_and, Bool.and_eq_true, (hb.withoutClient c).noClientsNeedThis_iff ho']
  refine and_congr Iff.rfl ?_
  have hp : ∀ d, (b.withoutClient c).Pending d o ↔ b.Pending d o ∧ d ≠ c := by
    intro d
    unfold Pending
    change Precedes (remove _ _) _ _ ↔ _
    rw [precedes_remove hb.nodup]
    simp
  simp only [hp]
  constructor
  · intro hn d hd hpd
    exact hn d ⟨hpd, hd⟩
  · rintro hn d ⟨hpd, hd⟩
    exact hn d hd hpd

/-! In an ordered queue only tombstones leave, and only when they are pending for
nobody. -/

variable {ops : BrokerOps Obj Cl Ext} {cops : BrokerClientOps Obj Cl Ext Msg}

/-- **A read takes one object off the pending ones of its client**, and nothing else. -/
theorem Ordered.pending_getData (hb : b.Ordered) (s : Ext)
    (h : brokerGetNextDataObj b (.client c) = some (.obj o)) (d : Cl) (o' : Obj) :
    (brokerClientGetData ops cops b s (some c)).2.1.Pending d o' ↔
      b.Pending d o' ∧ ¬ (d = c ∧ o' = o) := by
  rw [Broker.pending_getData ops cops hb.toLinked s h]
  refine ⟨fun hp => ⟨hp.1, hp.2.1⟩, fun hp => ⟨hp.1, hp.2, ?_⟩⟩
  -- a reclaimed object was pending for the reader only
  rintro ⟨hr, rfl⟩
  exact ((hb.reclaimedBy_iff h).mp hr).2 d (fun hd => hp.2 ⟨hd, rfl⟩) hp.1

/-- A read leaves the live objects as they are. -/
theorem Ordered.live_getData (hb : b.Ordered) (s : Ext)
    (h : brokerGetNextDataObj b (.client c) = some (.obj o)) (o' : Obj) :
    (brokerClientGetData ops cops b s (some c)).2.1.Live o' ↔ b.Live o' := by
  unfold Live
  rw [Broker.listed_getData ops cops hb.toLinked s h, deleted_getData]
  refine ⟨fun hl => ⟨hl.1.1, hl.2⟩, fun hl => ⟨⟨hl.1, ?_⟩, hl.2⟩⟩
  rintro ⟨hr, rfl⟩
  exact hl.2 ((hb.reclaimedBy_iff h).mp hr).1

/-- A read frees the tombstone that it was the last one to need. -/
theorem Ordered.tombstone_getData (hb : b.Ordered) (s : Ext)
    (h : brokerGetNextDataObj b (.client c) = some (.obj o)) (o' : Obj) :
    (brokerClientGetData ops cops b s (some c)).2.1.Tombstone o' ↔
      b.Tombstone o' ∧ (o' = o → ∃ d, d ≠ c ∧ b.Pending d o) := by
  unfold Tombstone
  rw [Broker.listed_getData ops cops hb.toLinked s h, deleted_getData, hb.reclaimedBy_iff h]
  constructor
  · rintro ⟨⟨hl, hr⟩, hd⟩
    refine ⟨⟨hl, hd⟩, fun he => ?_⟩
    by_contra hn
    exact hr ⟨⟨he ▸ hd, fun d hdc hp => hn ⟨d, hdc, hp⟩⟩, he⟩
  · rintro ⟨⟨hl, hd⟩, hr⟩
    refine ⟨⟨hl, ?_⟩, hd⟩
    rintro ⟨⟨-, hn⟩, he⟩
    obtain ⟨d, hdc, hp⟩ := hr he
    exact hn d hdc hp

/-- With a client goes what was pending for it. -/
theorem Ordered.pending_clientDelete (hb : b.Ordered) (s : Ext) (c d : Cl) (o : Obj) :
    (brokerClientDelete ops b s c).1.Pending d o ↔ b.Pending d o ∧ d ≠ c := by
  rw [Broker.pending_clientDelete ops hb.toLinked s]
  refine ⟨fun hp => ⟨hp.1, hp.2.1⟩, fun hp => ⟨hp.1, hp.2, ?_⟩⟩
  by_contra hr
  exact ((hb.reclaimable_iff c hp.1.listed).mp (by simpa using hr)).2 d hp.2 hp.1

theorem Ordered.live_clientDelete (hb : b.Ordered) (s : Ext) (c : Cl) (o : Obj) :
    (brokerClientDelete ops b s c).1.Live o ↔ b.Live o := by
  unfold Live
  rw [listed_clientDelete ops hb.toLinked s, deleted_clientDelete ops hb.toLinked]
  refine ⟨fun hl => ⟨hl.1.1, hl.2⟩, fun hl => ⟨⟨hl.1, ?_⟩, hl.2⟩⟩
  by_contra hr
  exact hl.2 ((hb.reclaimable_iff c hl.1).mp (by simpa using hr)).1

/-- With a client go the tombstones that nobody else needs. -/
theorem Ordered.tombstone_clientDelete (hb : b.Ordered) (s : Ext) (c : Cl) (o : Obj) :
    (brokerClientDelete ops b s c).1.Tombstone o ↔
      b.Tombstone o ∧ ∃ d, d ≠ c ∧ b.Pending d o := by
  unfold Tombstone
  rw [listed_clientDelete ops hb.toLinked s, deleted_clientDelete ops hb.toLinked]
  constructor
  · rintro ⟨⟨hl, hr⟩, hd⟩
    refine ⟨⟨hl, hd⟩, ?_⟩
    by_contra hn
    rw [(hb.reclaimable_iff c hl).mpr ⟨hd, fun d hdc hp => hn ⟨d, hdc, hp⟩⟩] at hr
    exact Bool.noConfusion hr
  · rintro ⟨⟨hl, hd⟩, d, hdc, hp⟩
    refine ⟨⟨hl, ?_⟩, hd⟩
    by_contra hr
    exact ((hb.reclaimable_iff c hl).mp (by simpa using hr)).2 d hdc hp

end Clients

end Broker
