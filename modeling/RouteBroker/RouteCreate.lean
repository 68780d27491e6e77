/-
# Creating a client when allocations fail

`route_broker_client_create` allocates the client, a `broker_client` and its name in
every level, and a condition variable.  When the condition fails, the levels are rolled
back with `broker_client_delete`, whose sweep might take tombstones with it.

The roll-back restores every level in which no tombstone is due for reclaiming, and by
the tombstone invariant (`TombstonesNeeded`) there never is one below `2^64` changes.
What does go wrong is the test for a failed level: it compares the array
`rclient->client` with `NULL`, which is never true, and a client that lacks a level is
linked and returned.

Main result: `create_all_or_nothing_iff`.
-/
import RouteBroker.RouteOrder

open Circleq Broker

variable {Addr Cl Topic Data : Type*} [DecidableEq Addr] [DecidableEq Cl]

/-! ## Rolling back one level -/

section Rollback

variable {Obj Ext : Type*} [DecidableEq Obj] {b : Broker Obj Cl} {c : Cl} {name : String}

omit [DecidableEq Obj] [DecidableEq Cl] in
/-- What `no_clients_need_this` looks at. -/
theorem noClientsNeedThis_congr {b' : Broker Obj Cl} {r : Ref Obj Cl}
    (hclients : b'.clientList = b.clientList)
    (hcursors : ∀ d ∈ b.clientList, b'.bobj (.client d) = b.bobj (.client d))
    (hr : b'.bobj r = b.bobj r) : noClientsNeedThis b' r = noClientsNeedThis b r := by
  have hleast : leastClientId b' = leastClientId b := by
    unfold leastClientId
    rw [hclients]
    apply List.foldl_ext
    intro id d hd
    rw [hcursors d hd]
  unfold noClientsNeedThis
  rw [hclients, hr, hleast]

theorem withoutClient_create_objList (b : Broker Obj Cl) (c : Cl) (name : String) :
    ((brokerClientCreate b (some c) (some name)).2.withoutClient c).objList = b.objList := by
  unfold withoutClient remove
  rw [clientCreate_objList, List.erase_cons_head]

theorem withoutClient_create_clientList (b : Broker Obj Cl) (c : Cl) (name : String) :
    ((brokerClientCreate b (some c) (some name)).2.withoutClient c).clientList = b.clientList := by
  unfold withoutClient remove
  rw [clientCreate_clientList, List.erase_cons_head]

/-- For the sweep the departed client has never been there. -/
theorem reclaimable_create (hl : b.Linked) (hc : c ∉ b.clientList) {r : Ref Obj Cl}
    (hr : r ∈ b.objList) :
    ((brokerClientCreate b (some c) (some name)).2.withoutClient c).reclaimable r
      = b.reclaimable r := by
  have hbobj : ∀ r, r ≠ .client c →
      ((brokerClientCreate b (some c) (some name)).2.withoutClient c).bobj r = b.bobj r :=
    fun r => clientCreate_bobj_of_ne b c name
  have hne : r ≠ .client c := by
    intro he
    rw [he, hl.cursor_mem] at hr
    exact hc hr
  have hneed : noClientsNeedThis ((brokerClientCreate b (some c) (some name)).2.withoutClient c) r
      = noClientsNeedThis b r := by
    refine noClientsNeedThis_congr (withoutClient_create_clientList b c name) ?_ (hbobj r hne)
    intro d hd
    refine hbobj _ (fun he => hc ?_)
    rw [← Ref.client.inj he]
    exact hd
  unfold reclaimable
  rw [hbobj r hne, hneed]

variable (ops : BrokerOps Obj Cl Ext) (s : Ext)

/-- Creating a client and deleting it again leaves what a sweep leaves. -/
theorem rollback_eq (hl : b.Linked) (hc : c ∉ b.clientList) (name : String) :
    (brokerClientDelete ops (brokerClientCreate b (some c) (some name)).2 s c).1.objList
        = b.objList.filter (fun r => !b.reclaimable r) ∧
      (brokerClientDelete ops (brokerClientCreate b (some c) (some name)).2 s c).2
        = (b.objList.filter b.reclaimable).foldl (fun s r => ops.unlockObj r s) s := by
  have hl' := hl.clientCreate hc name
  have hfilter : b.objList.filter
      ((brokerClientCreate b (some c) (some name)).2.withoutClient c).reclaimable
      = b.objList.filter b.reclaimable := by
    apply List.filter_congr
    intro r hr
    exact reclaimable_create hl hc hr
  rw [clientDelete_eq ops hl', withoutClient_create_objList]
  constructor
  · apply List.filter_congr
    intro r hr
    rw [reclaimable_create hl hc hr]
  · dsimp only
    rw [hfilter]

theorem rollback_clientList (b : Broker Obj Cl) (c : Cl) (name : String) :
    (brokerClientDelete ops (brokerClientCreate b (some c) (some name)).2 s c).1.clientList
      = b.clientList := by
  rw [clientDelete_clientList, clientCreate_clientList]
  exact List.erase_cons_head ..

theorem rollback_bobj (hl : b.Linked) (hc : c ∉ b.clientList) (name : String) {r : Ref Obj Cl}
    (hr : r ≠ .client c) :
    (brokerClientDelete ops (brokerClientCreate b (some c) (some name)).2 s c).1.bobj r
      = b.bobj r := by
  rw [clientDelete_bobj ops (hl.clientCreate hc name)]
  exact clientCreate_bobj_of_ne b c name hr

theorem rollback_id (hl : b.Linked) (hc : c ∉ b.clientList) (name : String) :
    (brokerClientDelete ops (brokerClientCreate b (some c) (some name)).2 s c).1.id = b.id := by
  rw [clientDelete_id ops (hl.clientCreate hc name), clientCreate_id]

/-- No tombstone is due for reclaiming. -/
def Broker.Settled (b : Broker Obj Cl) : Prop :=
  ∀ o, b.Tombstone o → noClientsNeedThis b (.obj o) = false

omit [DecidableEq Obj] [DecidableEq Cl] in
theorem settled_iff (hl : b.Linked) :
    b.Settled ↔ ∀ r ∈ b.objList, b.reclaimable r = false := by
  constructor
  · intro h r hr
    cases r with
    | obj o =>
      cases hdel : (b.bobj (.obj o)).flags.delete with
      | false => simp [reclaimable, hdel]
      | true => simp [reclaimable, h o ⟨hr, hdel⟩]
    | client d => simp [reclaimable, hl.cursor_flag d hr]
  · intro h o ho
    have hr := h (.obj o) ho.1
    have hdel : (b.bobj (.obj o)).flags.delete = true := ho.2
    simpa [reclaimable, hl.obj_flag o ho.1, hdel] using hr

/-- The list is restored exactly if no tombstone is due. -/
theorem rollback_objList_eq_iff (hl : b.Linked) (hc : c ∉ b.clientList) (name : String) :
    (brokerClientDelete ops (brokerClientCreate b (some c) (some name)).2 s c).1.objList
      = b.objList ↔ b.Settled := by
  rw [(rollback_eq ops s hl hc name).1, List.filter_eq_self, settled_iff hl]
  simp only [Bool.not_eq_true']

theorem rollback_store (hl : b.Linked) (hc : c ∉ b.clientList) (name : String) (h : b.Settled) :
    (brokerClientDelete ops (brokerClientCreate b (some c) (some name)).2 s c).2 = s := by
  have hnil : b.objList.filter b.reclaimable = [] := by
    rw [List.filter_eq_nil_iff]
    intro r hr
    rw [(settled_iff hl).mp h r hr]
    exact Bool.false_ne_true
  rw [(rollback_eq ops s hl hc name).2, hnil]
  rfl

end Rollback

/-! ## Tombstones that somebody needs -/

section Needed

variable {Obj Ext Msg : Type*} [DecidableEq Obj] {b b' : Broker Obj Cl} {c : Cl} {o : Obj}

/-- Every tombstone is pending for somebody. -/
def Broker.TombstonesNeeded (b : Broker Obj Cl) : Prop :=
  ∀ o, b.Tombstone o → ∃ c, b.Pending c o

omit [DecidableEq Obj] [DecidableEq Cl] in
/-- In an ordered queue, what is pending for somebody is not due for reclaiming. -/
theorem Broker.TombstonesNeeded.settled (h : b.TombstonesNeeded) (hb : b.Ordered) :
    b.Settled := by
  intro o ho
  obtain ⟨c, hp⟩ := h o ho
  by_contra hn
  exact (hb.noClientsNeedThis_iff ho.1).mp (Bool.of_not_eq_false hn) c hp

omit [DecidableEq Obj] [DecidableEq Cl] in
/-- A change of the object `o` alone. -/
theorem Broker.TombstonesNeeded.change (h : b.TombstonesNeeded) (o : Obj)
    (htomb : ∀ o', o' ≠ o → b'.Tombstone o' → b.Tombstone o')
    (hpend : ∀ c o', o' ≠ o → b.Pending c o' → b'.Pending c o')
    (hself : b'.Tombstone o → ∃ c, b'.Pending c o) : b'.TombstonesNeeded := by
  intro o' ho'
  by_cases he : o' = o
  · subst he
    exact hself ho'
  · obtain ⟨c, hp⟩ := h o' (htomb o' he ho')
    exact ⟨c, hpend c o' he hp⟩

variable (ops : BrokerOps Obj Cl Ext) (cops : BrokerClientOps Obj Cl Ext Msg) (s : Ext)

theorem Broker.TombstonesNeeded.addObj (h : b.TombstonesNeeded) (hl : b.Linked) (o : Obj)
    (type : ℕ) : (brokerAddObj ops b s o type).1.TombstonesNeeded := by
  refine h.change o (fun o' he ho' => ?_) (fun c o' _ hp => ?_) (fun ho => ?_)
  · exact ⟨((listed_addObj ops b s type o').mp ho'.1).resolve_right he,
      ((deleted_addObj ops b s type o').mp ho'.2).1⟩
  · exact (pending_addObj ops hl s type c o').mpr (Or.inl hp)
  · exact absurd rfl ((deleted_addObj ops b s type o).mp ho.2).2

theorem Broker.TombstonesNeeded.delObjNow (h : b.TombstonesNeeded) (hl : b.Linked) (o : Obj) :
    (brokerDelObjNow ops b s (.obj o)).1.TombstonesNeeded := by
  refine h.change o (fun o' _ ho' => ?_) (fun c o' he hp => ?_) (fun ho => ?_)
  · exact ⟨((listed_delObjNow ops hl s o').mp ho'.1).1, ho'.2⟩
  · exact (pending_delObjNow ops hl s c o').mpr ⟨hp, he⟩
  · exact absurd rfl ((listed_delObjNow ops hl s o).mp ho.1).2

/-- Both `broker_upd_obj` and `broker_del_obj` with clients. -/
theorem Broker.TombstonesNeeded.mark (h : b.TombstonesNeeded) (hl : b.Linked) (ho : b.Listed o)
    {m : Bool} (hm : m = true → b.clientList ≠ []) :
    ((b.setDelete (.obj o) m).moveToTail (.obj o)).TombstonesNeeded := by
  have hl' := hl.setDelete (.obj o) m
  refine h.change o (fun o' he ho' => ?_) (fun c o' he hp => ?_) (fun ho' => ?_)
  · have hdel := (deleted_mark b m o').mp ho'.2
    rw [if_neg he] at hdel
    exact ⟨(listed_moveToTail hl' ho o').mp ho'.1, hdel⟩
  · exact (pending_moveToTail hl' c o').mpr (Or.inl ⟨hp, he⟩)
  · -- the object is at the tail, behind every client
    have hdel := (deleted_mark b m o).mp ho'.2
    rw [if_pos rfl] at hdel
    obtain ⟨c, hc⟩ := List.exists_mem_of_ne_nil _ (hm hdel)
    exact ⟨c, (pending_moveToTail hl' c o).mpr (Or.inr ⟨hc, rfl⟩)⟩

theorem Broker.TombstonesNeeded.updObj (h : b.TombstonesNeeded) (hl : b.Linked)
    (ho : b.Listed o) : (brokerUpdObj b o).TombstonesNeeded := by
  rw [brokerUpdObj_eq]
  exact h.mark hl ho (fun hm => absurd hm Bool.false_ne_true)

theorem Broker.TombstonesNeeded.delObj (h : b.TombstonesNeeded) (hl : b.Linked)
    (ho : b.Listed o) : (brokerDelObj ops b s o).1.TombstonesNeeded := by
  by_cases hc : b.clientList = []
  · rw [brokerDelObj_of_no_clients ops hc]
    exact h.delObjNow ops s hl o
  · rw [brokerDelObj_of_clients ops hc]
    exact h.mark hl ho (fun _ => hc)

theorem Broker.TombstonesNeeded.clientCreate (h : b.TombstonesNeeded) (c : Cl) (name : String) :
    (brokerClientCreate b (some c) (some name)).2.TombstonesNeeded := by
  intro o ho
  have ho' : b.Tombstone o :=
    ⟨(listed_clientCreate b c name o).mp ho.1, (deleted_clientCreate b c name o).mp ho.2⟩
  obtain ⟨d, hp⟩ := h o ho'
  exact ⟨d, (pending_clientCreate b c name d o).mpr (Or.inr hp)⟩

theorem Broker.TombstonesNeeded.clientDelete (hb : b.Ordered) (c : Cl) :
    (brokerClientDelete ops b s c).1.TombstonesNeeded := by
  intro o ho
  obtain ⟨-, d, hdc, hp⟩ := (hb.tombstone_clientDelete s c o).mp ho
  exact ⟨d, (hb.pending_clientDelete s c d o).mpr ⟨hp, hdc⟩⟩

theorem Broker.TombstonesNeeded.getData (h : b.TombstonesNeeded) (hb : b.Ordered)
    (client : Option Cl) : (brokerClientGetData ops cops b s client).2.1.TombstonesNeeded := by
  cases client with
  | none => exact h
  | some c =>
    cases hnext : brokerGetNextDataObj b (.client c) with
    | none =>
      rw [getData_of_none ops cops s hnext]
      intro o ho
      refine h o ⟨ho.1, ?_⟩
      have hdel := ho.2
      rw [Deleted, setId_flags] at hdel
      exact hdel
    | some r =>
      obtain ⟨o, rfl, -, -⟩ := getNextDataObj_eq_some hb.toLinked hnext
      intro o' ho'
      obtain ⟨ht, hself⟩ := (hb.tombstone_getData s hnext o').mp ho'
      by_cases he : o' = o
      · -- the object that was read is still pending for somebody else
        obtain ⟨d, hdc, hp⟩ := hself he
        subst he
        exact ⟨d, (hb.pending_getData s hnext d o').mpr ⟨hp, fun hx => hdc hx.1⟩⟩
      · obtain ⟨d, hp⟩ := h o' ht
        exact ⟨d, (hb.pending_getData s hnext d o').mpr ⟨hp, fun hx => he hx.2⟩⟩

end Needed

/-! ## The call -/

/-- What the allocations of one call of `route_broker_client_create` return. -/
structure CreateAllocs where
  /-- the `calloc` of the `route_broker_client` succeeds -/
  rclient : Bool
  /-- the `calloc` of `broker_client_create` succeeds in the level -/
  calloc : Level → Bool
  /-- so does its `strdup` -/
  strdup : Level → Bool
  /-- `pthread_cond_init` succeeds -/
  condInit : Bool

/-- The level gets a `broker_client`. -/
def CreateAllocs.level (m : CreateAllocs) (i : Level) : Bool := m.calloc i && m.strdup i

namespace RouteBroker

variable (rb : RouteBroker Addr Cl Topic Data)

/-- The critical section of `route_broker_client_create`. -/
def createLocked (c : Cl) (name : String) (m : CreateAllocs) : RouteBroker Addr Cl Topic Data :=
  rb.clientCreateLocked c (fun i => if m.calloc i then some c else none)
    (fun i => if m.strdup i then some name else none)

variable [DecidableEq Topic]

/-- `route_broker_client_create(name)` in one go: what it returns, and the state
afterwards.  `c` is the memory that `calloc` returns for the client. -/
def createWith (c : Cl) (name : Option String) (m : CreateAllocs) :
    Option Cl × RouteBroker Addr Cl Topic Data :=
  match name with
  | none => (none, rb)
  | some name =>
    if m.rclient then
      let rb := rb.createLocked c name m
      if m.condInit then (some c, (rb.condInit c).linkClient c)
      -- failed
      else (none, rb.clientDeleteLevels c)
    else (none, rb)

end RouteBroker

/-- The returned client has a listed `broker_client` in every level and is on
`client_list_head`. -/
def RouteBroker.Complete (rb : RouteBroker Addr Cl Topic Data) (c : Cl) : Prop :=
  c ∈ rb.clientList ∧ ∀ i, ∃ k, (rb.rclient c).client i = some k ∧
    k ∈ (rb.level i).clientList ∧ .client k ∈ (rb.level i).objList

/-- The lists of the levels with all that is in them, the ids of the brokers, the routes
and their hash table and `client_list_head` are the same.  `c` is memory that is not in
use. -/
structure SameLists (c : Cl) (rb rb' : RouteBroker Addr Cl Topic Data) : Prop where
  objList : ∀ i, (rb'.level i).objList = (rb.level i).objList
  bobj : ∀ i r, r ≠ .client c → (rb'.level i).bobj r = (rb.level i).bobj r
  levelClients : ∀ i, (rb'.level i).clientList = (rb.level i).clientList
  id : ∀ i, (rb'.level i).id = (rb.level i).id
  increments : ∀ i, (rb'.level i).increments = (rb.level i).increments
  store : rb'.store = rb.store
  clientList : rb'.clientList = rb.clientList
  rclient : ∀ e, e ≠ c → rb'.rclient e = rb.rclient e

/-- All or nothing: `out` is what the call returned and left in the state `rb`. -/
def AllOrNothing (c : Cl) (rb : RouteBroker Addr Cl Topic Data)
    (out : Option Cl × RouteBroker Addr Cl Topic Data) : Prop :=
  (out.1 = some c ∧ out.2.Complete c) ∨ (out.1 = none ∧ SameLists c rb out.2)

/-- The allocations go well, or badly in a way the code handles: there is no client at
all, or no condition variable, and then no tombstone that the roll-back would reclaim in
a level that it rolls back. -/
def CreateAllocs.Handled (m : CreateAllocs) (name : Option String)
    (rb : RouteBroker Addr Cl Topic Data) : Prop :=
  name = none ∨ m.rclient = false ∨ (m.condInit = true ∧ ∀ i, m.level i = true) ∨
    (m.condInit = false ∧ ∀ i, m.level i = true → (rb.level i).Settled)

/-! ## One call -/

section Call

variable {gen : Data → ℤ × Topic × Bool} {rb : RouteBroker Addr Cl Topic Data} {c : Cl}

theorem clientCreate_alloc (b : Broker Addr Cl) (c : Cl) (name : String) (x y : Bool) :
    brokerClientCreate b (if x then some c else none) (if y then some name else none)
      = if x && y then brokerClientCreate b (some c) (some name) else (none, b) := by
  cases x with
  | false => rfl
  | true =>
    cases y with
    | false => rfl
    | true => rfl

theorem createLocked_level (rb : RouteBroker Addr Cl Topic Data) (c : Cl) (name : String)
    (m : CreateAllocs) (i : Level) : (rb.createLocked c name m).level i
    = if m.level i then (brokerClientCreate (rb.level i) (some c) (some name)).2
      else rb.level i := by
  have h : (rb.createLocked c name m).level i = (brokerClientCreate (rb.level i)
      (if m.calloc i then some c else none) (if m.strdup i then some name else none)).2 := rfl
  rw [h, clientCreate_alloc]
  unfold CreateAllocs.level
  split_ifs <;> rfl

theorem createLocked_client (rb : RouteBroker Addr Cl Topic Data) (c : Cl) (name : String)
    (m : CreateAllocs) (i : Level) : ((rb.createLocked c name m).rclient c).client i
    = if m.level i then some c else none := by
  have h : ((rb.createLocked c name m).rclient c).client i = (brokerClientCreate (rb.level i)
      (if m.calloc i then some c else none) (if m.strdup i then some name else none)).1 := by
    unfold RouteBroker.createLocked RouteBroker.clientCreateLocked
    dsimp only
    rw [Function.update_self]
  rw [h, clientCreate_alloc]
  unfold CreateAllocs.level
  split_ifs <;> rfl

theorem createLocked_name (name : String) (m : CreateAllocs) (i : Level) (k : Cl)
    (hk : ((rb.createLocked c name m).rclient c).client i = some k) : k = c := by
  rw [createLocked_client, Option.ite_none_right_eq_some] at hk
  exact (Option.some.inj hk.2).symm

theorem Sound.createLocked (hs : Sound gen rb) (hc : ∀ i, c ∉ (rb.level i).clientList)
    (name : String) (m : CreateAllocs) :
    Sound gen (rb.createLocked c name m) := by
  refine hs.relevel rfl (fun i => ?_) (fun i a => ?_)
  · rw [createLocked_level]
    split_ifs
    · exact (hs.linked i).clientCreate (hc i) name
    · exact hs.linked i
  · rw [createLocked_level]
    split_ifs
    · exact listed_clientCreate (rb.level i) c name a
    · exact Iff.rfl

variable [DecidableEq Topic]

/-- The loop leaves the store alone if each of its rounds does. -/
theorem foldl_clientDeleteLevel_store {is : List Level} (hn : is.Nodup)
    (hname : ∀ i k, (rb.rclient c).client i = some k → k = c)
    (h : ∀ i ∈ is, (rb.rclient c).client i ≠ none →
      ∀ s : Store Addr Topic Data, (brokerClientDelete routeBrokerOps (rb.level i) s c).2 = s) :
    (is.foldl (fun rb i => rb.clientDeleteLevel c i) rb).store = rb.store := by
  induction is generalizing rb with
  | nil => rfl
  | cons i is ih =>
    rw [List.nodup_cons] at hn
    rw [List.foldl_cons]
    cases hk : (rb.rclient c).client i with
    | none =>
      have hone : rb.clientDeleteLevel c i = rb := by
        unfold RouteBroker.clientDeleteLevel
        rw [hk]
      rw [hone]
      exact ih hn.2 hname (fun j hj => h j (List.mem_cons_of_mem i hj))
    | some k =>
      have hone : rb.clientDeleteLevel c i
          = rb.onLevel i (brokerClientDelete routeBrokerOps (rb.level i) rb.store c) := by
        unfold RouteBroker.clientDeleteLevel
        rw [hk, hname i k hk]
      have hrest : ∀ j ∈ is, (rb.rclient c).client j ≠ none → ∀ s : Store Addr Topic Data,
          (brokerClientDelete routeBrokerOps
            ((rb.clientDeleteLevel c i).level j) s c).2 = s := by
        intro j hj hne s
        have hji : j ≠ i := by
          intro he
          rw [he] at hj
          exact hn.1 hj
        rw [hone, onLevel_level_of_ne rb _ hji]
        exact h j (List.mem_cons_of_mem i hj) hne s
      have hstore : (rb.clientDeleteLevel c i).store = rb.store := by
        rw [hone]
        exact h i List.mem_cons_self (by rw [hk]; exact Option.some_ne_none k) rb.store
      rw [← hstore]
      refine ih hn.2 ?_ ?_
      · rw [hone]
        exact hname
      · intro j hj hne
        rw [hone] at hne
        exact hrest j hj hne

/-- What the roll-back leaves of a level. -/
theorem rolledBack_level (hs : Sound gen rb) (hc : ∀ i, c ∉ (rb.level i).clientList)
    (name : String) (m : CreateAllocs) (i : Level) :
    ((rb.createLocked c name m).clientDeleteLevels c).level i
      = if m.level i then (brokerClientDelete routeBrokerOps
          (brokerClientCreate (rb.level i) (some c) (some name)).2 rb.store c).1
        else rb.level i := by
  have h := (foldl_clientDeleteLevel (hs.createLocked hc name m) (createLocked_name name m)
    (List.nodup_finRange routePriorityMax)).2.2 i
  refine Eq.trans h ?_
  rw [createLocked_client, createLocked_level]
  by_cases hi : m.level i = true
  · rw [if_pos ⟨List.mem_finRange i, by simp [hi]⟩, if_pos hi, if_pos hi]
    rfl
  · rw [if_neg (fun hx => hx.2 (if_neg hi)), if_neg hi, if_neg hi]

/-- The roll-back restores the state if no tombstone is due. -/
theorem sameLists_rolledBack (hs : Sound gen rb) (hc : ∀ i, c ∉ (rb.level i).clientList)
    (name : String) {m : CreateAllocs} (h : ∀ i, m.level i = true → (rb.level i).Settled) :
    SameLists c rb ((rb.createLocked c name m).clientDeleteLevels c) := by
  have hloop := foldl_clientDeleteLevel (hs.createLocked hc name m) (createLocked_name name m)
    (List.nodup_finRange routePriorityMax)
  have hl := hs.linked
  refine ⟨fun i => ?_, fun i r hr => ?_, fun i => ?_, fun i => ?_, fun i => ?_, ?_, ?_, ?_⟩
  · rw [rolledBack_level hs hc]
    split_ifs with hi
    · exact (rollback_objList_eq_iff routeBrokerOps rb.store (hl i) (hc i) name).mpr (h i hi)
    · rfl
  · rw [rolledBack_level hs hc]
    split_ifs
    · exact rollback_bobj routeBrokerOps rb.store (hl i) (hc i) name hr
    · rfl
  · rw [rolledBack_level hs hc]
    split_ifs
    · exact rollback_clientList routeBrokerOps rb.store (rb.level i) c name
    · rfl
  · rw [rolledBack_level hs hc]
    split_ifs
    · exact rollback_id routeBrokerOps rb.store (hl i) (hc i) name
    · rfl
  · rw [rolledBack_level hs hc]
    split_ifs
    · rw [clientDelete_increments routeBrokerOps ((hl i).clientCreate (hc i) name),
        clientCreate_increments]
    · rfl
  · refine foldl_clientDeleteLevel_store (List.nodup_finRange routePriorityMax)
      (createLocked_name name m) (fun i _ hi s => ?_)
    rw [createLocked_client] at hi
    have hi' : m.level i = true := by
      by_contra hn
      exact hi (if_neg hn)
    rw [createLocked_level, if_pos hi']
    exact rollback_store routeBrokerOps s (hl i) (hc i) name (h i hi')
  · exact hloop.2.1
  · intro e he
    refine (congrFun hloop.1 e).trans ?_
    exact Function.update_of_ne he _ _

omit [DecidableEq Topic] in
/-- The returned client is complete exactly if every level has got its `broker_client`. -/
theorem complete_iff (rb : RouteBroker Addr Cl Topic Data) (c : Cl) (name : String)
    (m : CreateAllocs) :
    (((rb.createLocked c name m).condInit c).linkClient c).Complete c ↔
      ∀ i, m.level i = true := by
  have hclient : ∀ i, ((((rb.createLocked c name m).condInit c).linkClient c).rclient c).client i
      = if m.level i then some c else none := by
    intro i
    have h : ((((rb.createLocked c name m).condInit c).linkClient c).rclient c).client
        = ((rb.createLocked c name m).rclient c).client := by
      unfold RouteBroker.linkClient RouteBroker.condInit
      dsimp only
      rw [Function.update_self]
    rw [h]
    exact createLocked_client rb c name m i
  constructor
  · rintro ⟨-, h⟩ i
    obtain ⟨k, hk, -⟩ := h i
    rw [hclient, Option.ite_none_right_eq_some] at hk
    exact hk.1
  · intro h
    refine ⟨List.mem_cons_self, fun i => ⟨c, ?_, ?_⟩⟩
    · rw [hclient, if_pos (h i)]
    · have hlevel : (((rb.createLocked c name m).condInit c).linkClient c).level i
          = (brokerClientCreate (rb.level i) (some c) (some name)).2 := by
        show (rb.createLocked c name m).level i = _
        rw [createLocked_level, if_pos (h i)]
      rw [hlevel, clientCreate_clientList, clientCreate_objList]
      exact ⟨List.mem_cons_self, List.mem_cons_self⟩

/-- **One call is all or nothing exactly if its allocations are handled.** -/
theorem createWith_allOrNothing_iff (hs : Sound gen rb) (hc : ∀ i, c ∉ (rb.level i).clientList)
    (name : Option String) (m : CreateAllocs) :
    AllOrNothing c rb (rb.createWith c name m) ↔ m.Handled name rb := by
  have hsame : SameLists c rb rb :=
    ⟨fun _ => rfl, fun _ _ _ => rfl, fun _ => rfl, fun _ => rfl, fun _ => rfl, rfl, rfl,
      fun _ _ => rfl⟩
  unfold CreateAllocs.Handled RouteBroker.createWith
  cases name with
  | none => exact iff_of_true (Or.inr ⟨rfl, hsame⟩) (Or.inl rfl)
  | some name =>
    cases hr : m.rclient with
    | false => exact iff_of_true (Or.inr ⟨rfl, hsame⟩) (Or.inr (Or.inl rfl))
    | true =>
      cases hcond : m.condInit with
      | true =>
        have hiff := complete_iff rb c name m
        simp [AllOrNothing, hiff]
      | false =>
        have hiff : SameLists c rb ((rb.createLocked c name m).clientDeleteLevels c) ↔
            ∀ i, m.level i = true → (rb.level i).Settled := by
          refine ⟨fun h i hi => ?_, sameLists_rolledBack hs hc name⟩
          have hobj := h.objList i
          rw [rolledBack_level hs hc, if_pos hi] at hobj
          exact (rollback_objList_eq_iff routeBrokerOps rb.store (hs.linked i) (hc i) name).mp hobj
        simp [AllOrNothing, hiff]

end Call

/-! ## Runs with failing allocations -/

/-- The calls of `RouteCall`, and creations in which allocations may fail. -/
inductive CreateCall (Addr Cl Data : Type*)
  | call (x : RouteCall Addr Cl Data)
  | create (c : Cl) (name : Option String) (m : CreateAllocs)

section System

variable [DecidableEq Topic]

/-- `route_broker_client_create(name)`. -/
def RouteWorld.create (w : RouteWorld Addr Cl Topic Data) (c : Cl) (name : Option String)
    (m : CreateAllocs) : RouteWorld Addr Cl Topic Data :=
  { w with rb := (w.rb.createWith c name m).2, received := Function.update w.received c [] }

/-- One call. -/
def RouteWorld.createStep (gen : Data → ℤ × Topic × Bool) (copy : Data → Data)
    (w : RouteWorld Addr Cl Topic Data) :
    CreateCall Addr Cl Data → Option (RouteWorld Addr Cl Topic Data)
  | .call x => w.call gen copy x
  | .create c name m => if c ∈ w.rb.clientList then none else some (w.create c name m)

/-- All runs of the route broker in which the creation of a client may fail. -/
def createSystem (Addr Cl : Type*) [DecidableEq Addr] [DecidableEq Cl]
    (gen : Data → ℤ × Topic × Bool) (copy : Data → Data) :
    System (RouteWorld Addr Cl Topic Data) (CreateCall Addr Cl Data) where
  init := .start
  step := RouteWorld.createStep gen copy

/-- If the call is a creation, it is all or nothing. -/
def createsAllOrNothing (w : RouteWorld Addr Cl Topic Data) : CreateCall Addr Cl Data → Prop
  | .call _ => True
  | .create c name m => AllOrNothing c w.rb (w.rb.createWith c name m)

/-- If the call is a creation, its allocations are handled. -/
def createsHandled (w : RouteWorld Addr Cl Topic Data) : CreateCall Addr Cl Data → Prop
  | .call _ => True
  | .create _ name m => m.Handled name w.rb

variable {gen : Data → ℤ × Topic × Bool} {copy : Data → Data}
  {w w' : RouteWorld Addr Cl Topic Data} {rb rb' : RouteBroker Addr Cl Topic Data} {c : Cl}

theorem createStep_create {name : Option String} {m : CreateAllocs} :
    w.createStep gen copy (.create c name m) = some w' ↔
      c ∉ w.rb.clientList ∧ w' = w.create c name m := by
  simp [RouteWorld.createStep, eq_comm]

/-- What a handled creation does: nothing, all of it, or a creation of some levels that is
rolled back. -/
theorem createWith_cases {name : Option String} {m : CreateAllocs} (h : m.Handled name rb) :
    (rb.createWith c name m).2 = rb ∨
      (∃ n, (rb.createWith c name m).2 = rb.clientCreate c n) ∨
      ∃ n, (rb.createWith c name m).2 = (rb.createLocked c n m).clientDeleteLevels c ∧
        ∀ i, m.level i = true → (rb.level i).Settled := by
  unfold RouteBroker.createWith
  cases name with
  | none => exact Or.inl rfl
  | some n =>
    cases hr : m.rclient with
    | false => exact Or.inl rfl
    | true =>
      rcases h with h | h | ⟨hcond, hall⟩ | ⟨hcond, hsettled⟩
      · exact nomatch h
      · rw [hr] at h
        exact nomatch h
      · have hlocked : rb.createLocked c n m
            = rb.clientCreateLocked c (fun _ => some c) (fun _ => some n) := by
          unfold RouteBroker.createLocked
          congr
          · funext i
            rw [if_pos (Bool.and_eq_true_iff.mp (hall i)).1]
          · funext i
            rw [if_pos (Bool.and_eq_true_iff.mp (hall i)).2]
        refine Or.inr (Or.inl ⟨n, ?_⟩)
        rw [hcond]
        show ((rb.createLocked c n m).condInit c).linkClient c = rb.clientCreate c n
        rw [hlocked]
        rfl
      · refine Or.inr (Or.inr ⟨n, ?_, hsettled⟩)
        rw [hcond]
        rfl

/-- The roll-back keeps the store consistent. -/
theorem Consistent.rolledBack (hc : Consistent gen rb) (hnew : c ∉ rb.clientList) (n : String)
    {m : CreateAllocs} (hsettled : ∀ i, m.level i = true → (rb.level i).Settled) :
    Consistent gen ((rb.createLocked c n m).clientDeleteLevels c) := by
  have hlevels : ∀ i, c ∉ (rb.level i).clientList := by
    intro i
    rw [hc.wired.clients]
    exact hnew
  have hs := hc.sound.createLocked hlevels n m
  have hk : ∀ a, Kind gen (rb.createLocked c n m) a := by
    intro a
    refine (hc.kind a).of_eq rfl (fun i => ?_)
    rw [createLocked_level]
    split_ifs
    · exact deleted_clientCreate (rb.level i) c n a
    · exact Iff.rfl
  have hsame := sameLists_rolledBack hc.sound hlevels n hsettled
  have htidy := tidy_clientDeleteLevels hs c
  refine ⟨htidy.sound hs, htidy.kind hs hk, fun i => ?_, fun e he i => ?_⟩
  · rw [hsame.levelClients, hsame.clientList, hc.wired.clients]
  · rw [hsame.clientList] at he
    have hec : e ≠ c := by
      intro hx
      rw [hx] at he
      exact hnew he
    rw [hsame.rclient e hec]
    exact hc.wired.client e he i

/-- **Calls that are handled keep the store consistent.** -/
theorem createStep_consistent {x : CreateCall Addr Cl Data} (hc : Consistent gen w.rb)
    (hx : createsHandled w x) (h : w.createStep gen copy x = some w') : Consistent gen w'.rb := by
  cases x with
  | call x => exact routeCall_consistent h hc
  | create c name m =>
    obtain ⟨hnew, rfl⟩ := createStep_create.mp h
    show Consistent gen (w.rb.createWith c name m).2
    rcases createWith_cases (c := c) hx with heq | ⟨n, heq⟩ | ⟨n, heq, hsettled⟩
    · rw [heq]
      exact hc
    · rw [heq]
      exact hc.clientCreate hnew n
    · rw [heq]
      exact hc.rolledBack hnew n hsettled

/-! ## No tombstone is due below `2^64` changes -/

/-- From `rb` to `rb'` no tombstone is left that nobody needs. -/
def KeepsNeeded (rb rb' : RouteBroker Addr Cl Topic Data) : Prop :=
  ∀ i, (rb.level i).TombstonesNeeded → (rb'.level i).TombstonesNeeded

omit [DecidableEq Addr] [DecidableEq Cl] [DecidableEq Topic] in
theorem KeepsNeeded.trans {rb'' : RouteBroker Addr Cl Topic Data} (h : KeepsNeeded rb rb')
    (h' : KeepsNeeded rb' rb'') : KeepsNeeded rb rb'' := fun i hi => h' i (h i hi)

omit [DecidableEq Addr] [DecidableEq Cl] [DecidableEq Topic] in
theorem keepsNeeded_of_level_eq (h : rb'.level = rb.level) : KeepsNeeded rb rb' := by
  intro i hi
  rw [h]
  exact hi

omit [DecidableEq Addr] [DecidableEq Cl] [DecidableEq Topic] in
theorem keepsNeeded_onLevel {i : Level} {bs : Broker Addr Cl × Store Addr Topic Data}
    (h : (rb.level i).TombstonesNeeded → bs.1.TombstonesNeeded) :
    KeepsNeeded rb (rb.onLevel i bs) :=
  forall_onLevel (P := fun i b => (rb.level i).TombstonesNeeded → b.TombstonesNeeded) h
    (fun _ _ hi => hi)

theorem keepsNeeded_addObj (hs : Sound gen rb) (a : Addr) (route : RibRoute Topic Data) :
    KeepsNeeded rb (rb.addObj a route) :=
  keepsNeeded_onLevel (fun hi => hi.addObj routeBrokerOps _ (hs.linked _) a 0)

theorem keepsNeeded_delObj (hs : Sound gen rb) {i : Level} {a : Addr}
    (ha : (rb.level i).Listed a) : KeepsNeeded rb (rb.delObj i a) :=
  keepsNeeded_onLevel (fun hi => hi.delObj routeBrokerOps rb.store (hs.linked i) ha)

theorem Published.keepsNeeded {a : Addr} {route : RibRoute Topic Data} {del : Bool}
    (hs : Sound gen rb) (hp : Prepared gen rb a route del)
    (hpub : Published rb a route del rb') : KeepsNeeded rb rb' := by
  cases hpub with
  | unknown hnone => exact keepsNeeded_of_level_eq rfl
  | added hnone => exact (keepsNeeded_addObj hs a route).trans (keepsNeeded_of_level_eq rfl)
  | @deleted h hashed hh hheap hpri =>
    have hset : KeepsNeeded rb (rb.setData h hashed route.data) := keepsNeeded_of_level_eq rfl
    have hs' := hp.sound_setData hs hh hheap
    exact hset.trans (keepsNeeded_delObj hs' (hs.listed_of_heap hheap))
  | @updated h hashed hh hheap hpri =>
    have hset : KeepsNeeded rb (rb.setData h hashed route.data) := keepsNeeded_of_level_eq rfl
    have hs' := hp.sound_setData hs hh hheap
    exact hset.trans (keepsNeeded_onLevel
      (fun hi => hi.updObj (hs'.linked _) (hs.listed_of_heap hheap)))
  | @movedDeleted h hashed hh hheap hpri =>
    have hf := freed_delObjNow hs hheap
    have hp' := hp.of_freed hf hheap
    have hs' := hf.sound.addObj hp'.free hp'.refcount hp'.gen_ok
    have hfreed : KeepsNeeded rb (rb.delObjNow hashed.pri h) :=
      keepsNeeded_onLevel (fun hi => hi.delObjNow routeBrokerOps rb.store (hs.linked _) h)
    exact hfreed.trans ((keepsNeeded_addObj hf.sound a route).trans
      (keepsNeeded_delObj hs' (addObj_listed_self hp' hs')))
  | @moved h hashed hh hheap hpri =>
    have hf := freed_delObjNow hs hheap
    have hfreed : KeepsNeeded rb (rb.delObjNow hashed.pri h) :=
      keepsNeeded_onLevel (fun hi => hi.delObjNow routeBrokerOps rb.store (hs.linked _) h)
    exact hfreed.trans ((keepsNeeded_addObj hf.sound a route).trans (keepsNeeded_of_level_eq rfl))

/-- A level with its queue in order and no tombstone that nobody needs. -/
def Tended (b : Broker Addr Cl) : Prop := b.Ordered ∧ b.TombstonesNeeded

/-- **Every call tends the levels that have not been counted up `2^64` times.** -/
theorem routeCall_tended {x : RouteCall Addr Cl Data} (h : w.call gen copy x = some w')
    (hc : Consistent gen w.rb) (i : Level) (hlt : (w'.rb.level i).increments < 2 ^ 64)
    (hi : Tended (w.rb.level i)) : Tended (w'.rb.level i) := by
  obtain ⟨hord, hneed⟩ := hi
  refine ⟨(routeCall_keepsOrder h hc i).2 hlt hord, ?_⟩
  cases x with
  | publish a obj pri =>
    obtain ⟨ha, rfl⟩ := routeCall_publish.mp h
    by_cases hpos : 0 < (gen (copy obj)).1
    · rw [publish_rb_of_pos w hpos]
      exact (publishRoute_published hc.sound.counted _ _ _).keepsNeeded hc.sound.counted
        (prepared_newRoute ha hpos) i hneed
    · rw [publish_rb_of_ignored w (not_lt.mp hpos)]
      exact hneed
  | clientCreate c name =>
    obtain ⟨-, rfl⟩ := routeCall_clientCreate.mp h
    exact hneed.clientCreate c name
  | clientDelete c =>
    obtain ⟨hmem, rfl⟩ := routeCall_clientDelete.mp h
    have hlevel : (w.clientDelete c).rb.level i
        = (brokerClientDelete routeBrokerOps (w.rb.level i) w.rb.store c).1 :=
      clientDelete_level hc.sound (hc.wired.client c hmem) i
    rw [hlevel]
    exact TombstonesNeeded.clientDelete routeBrokerOps w.rb.store hord c
  | clientGetData c =>
    obtain ⟨-, rfl⟩ := routeCall_clientGetData.mp h
    show ((w.rb.clientGetData (fun d => some (copy d)) c).2.level i).TombstonesNeeded
    unfold RouteBroker.clientGetData
    cases w.rb.dataAvailableForClient c with
    | none => exact hneed
    | some j =>
      refine forall_onLevel (P := fun i b => (w.rb.level i).Ordered →
        (w.rb.level i).TombstonesNeeded → b.TombstonesNeeded) ?_ (fun _ _ _ hn => hn) i hord hneed
      exact fun ho hn => hn.getData routeBrokerOps _ w.rb.store ho _

/-- So does every creation that is handled. -/
theorem createStep_tended {x : CreateCall Addr Cl Data} (hc : Consistent gen w.rb)
    (hx : createsHandled w x) (h : w.createStep gen copy x = some w') (i : Level) :
    (w.rb.level i).increments ≤ (w'.rb.level i).increments ∧
      ((w'.rb.level i).increments < 2 ^ 64 → Tended (w.rb.level i) → Tended (w'.rb.level i)) := by
  cases x with
  | call x => exact ⟨(routeCall_keepsOrder h hc i).1, routeCall_tended h hc i⟩
  | create c name m =>
    obtain ⟨hnew, rfl⟩ := createStep_create.mp h
    have hlevels : ∀ i, c ∉ (w.rb.level i).clientList := by
      intro i
      rw [hc.wired.clients]
      exact hnew
    show _ ≤ ((w.rb.createWith c name m).2.level i).increments ∧
      (((w.rb.createWith c name m).2.level i).increments < 2 ^ 64 → _ →
        Tended ((w.rb.createWith c name m).2.level i))
    rcases createWith_cases (c := c) hx with heq | ⟨n, heq⟩ | ⟨n, heq, hsettled⟩
    · rw [heq]
      exact ⟨le_refl _, fun _ hi => hi⟩
    · have hcreate : w.call gen copy (.clientCreate c n) = some (w.clientCreate c n) :=
        routeCall_clientCreate.mpr ⟨hnew, rfl⟩
      rw [heq]
      exact ⟨(routeCall_keepsOrder hcreate hc i).1, routeCall_tended hcreate hc i⟩
    · rw [heq, (sameLists_rolledBack hc.sound hlevels n hsettled).increments]
      refine ⟨le_refl _, fun _ hi => ?_⟩
      rw [rolledBack_level hc.sound hlevels]
      split_ifs
      · have hord := hi.1.clientCreate (hlevels i) n
        exact ⟨hord.clientDelete routeBrokerOps w.rb.store c,
          TombstonesNeeded.clientDelete routeBrokerOps w.rb.store hord c⟩
      · exact hi

/-! ## All or nothing -/

/-- **Creation is all or nothing, exactly where its failures are handled.**  Along every
run of publishes, reads, deletions and creations with any pattern of failing allocations,
every creation either returns a client that is listed in every level, or returns `NULL`
and leaves everything as it was, if and only if every creation is handled: the name is
`NULL`, there is no memory for the client, every level gets its `broker_client` and the
condition is initialised, or the condition fails and no tombstone is due in a level that
is rolled back.  Below `2^64` changes of a level no tombstone is due in it. -/
theorem create_all_or_nothing_iff (gen : Data → ℤ × Topic × Bool) (copy : Data → Data)
    (as : List (CreateCall Addr Cl Data)) :
    ((createSystem Addr Cl gen copy).Guarded createsAllOrNothing .start as ↔
      (createSystem Addr Cl gen copy).Guarded createsHandled .start as) ∧
    ∀ w, (createSystem Addr Cl gen copy).exec .start as = some w →
      (createSystem Addr Cl gen copy).Guarded createsHandled .start as →
      ∀ i, (w.rb.level i).increments < 2 ^ 64 → (w.rb.level i).Settled := by
  constructor
  · refine System.guarded_congr (J := fun w => Consistent gen w.rb)
      (fun w x w' hc hx h => createStep_consistent hc hx h) (fun w x w' hc h => ?_)
      consistent_start
    cases x with
    | call x => exact Iff.rfl
    | create c name m =>
      have hstep : w.createStep gen copy (.create c name m) = some w' := h
      obtain ⟨hnew, -⟩ := createStep_create.mp hstep
      refine createWith_allOrNothing_iff hc.sound (fun i => ?_) name m
      rw [hc.wired.clients]
      exact hnew
  · intro w hexec hhandled
    have hrun : Consistent gen w.rb ∧
        ∀ i, (w.rb.level i).increments < 2 ^ 64 → Tended (w.rb.level i) := by
      refine System.exec_guarded_induction (P := fun w => Consistent gen w.rb ∧
        ∀ i, (w.rb.level i).increments < 2 ^ 64 → Tended (w.rb.level i)) ?_ hexec hhandled
        ⟨consistent_start, fun i _ => ⟨levels_ordered_start i, fun _ h => absurd h.1
          List.not_mem_nil⟩⟩
      rintro v x v' ⟨hc, htended⟩ hx hstep
      refine ⟨createStep_consistent hc hx hstep, fun i hlt => ?_⟩
      obtain ⟨hle, hnext⟩ := createStep_tended hc hx hstep i
      exact hnext hlt (htended i (lt_of_le_of_lt hle hlt))
    intro i hlt
    exact (hrun.2 i hlt).2.settled (hrun.2 i hlt).1

end System

/-- Allocations that all succeed. -/
def CreateAllocs.ok : CreateAllocs where
  rclient := true
  calloc := fun _ => true
  strdup := fun _ => true
  condInit := true

/-- A client and a route, the delete of which is pending. -/
def pendingDelete : List (CreateCall ℕ ℕ (ℕ × ℕ × Bool)) :=
  [.create 0 (some "dp") .ok, .call (.publish 100 (7, 1, false) 1),
    .call (.publish 101 (7, 2, true) 1)]

/-- A creation of which `pthread_cond_init` fails. -/
def unconditioned : CreateCall ℕ ℕ (ℕ × ℕ × Bool) :=
  .create 1 (some "late") { CreateAllocs.ok with condInit := false }

/-- The theorem at a run in which a creation is rolled back while a delete is pending: the
client is not listed, and the tombstone is still there. -/
theorem create_all_or_nothing_tombstone :
    ∃ w, (createSystem ℕ ℕ plainGen id).exec .start (pendingDelete ++ [unconditioned]) = some w ∧
      w.rb.clientList = [0] ∧ (w.rb.level 1).Tombstone 100 ∧ (∀ i, (w.rb.level i).Settled) ∧
      (createSystem ℕ ℕ plainGen id).Guarded createsAllOrNothing .start
        (pendingDelete ++ [unconditioned]) := by
  -- nothing is due when the creation starts
  obtain ⟨v, hv, hlt⟩ := (createSystem ℕ ℕ plainGen id).exists_of_exec_any .start pendingDelete
    (fun w => decide (∀ i, (w.rb.level i).increments < 2 ^ 64)) (by decide +kernel)
  rw [decide_eq_true_eq] at hlt
  have hok : createsHandled (.start : RouteWorld ℕ ℕ ℕ (ℕ × ℕ × Bool))
      (.create 0 (some "dp") .ok) := Or.inr (Or.inr (Or.inl ⟨rfl, fun _ => rfl⟩))
  have hpending : (createSystem ℕ ℕ plainGen id).Guarded createsHandled .start pendingDelete :=
    fun _ _ => ⟨hok, fun _ _ => ⟨trivial, fun _ _ => ⟨trivial, trivial⟩⟩⟩
  have hsettled : ∀ i, (v.rb.level i).Settled := fun i =>
    (create_all_or_nothing_iff plainGen id pendingDelete).2 v hv hpending i (hlt i)
  have hfails : createsHandled v unconditioned :=
    Or.inr (Or.inr (Or.inr ⟨rfl, fun i _ => hsettled i⟩))
  have hhandled : (createSystem ℕ ℕ plainGen id).Guarded createsHandled .start
      (pendingDelete ++ [unconditioned]) :=
    System.guarded_append hv hpending fun _ _ => ⟨hfails, trivial⟩
  obtain ⟨w, hexec, hp⟩ := (createSystem ℕ ℕ plainGen id).exists_of_exec_any .start
    (pendingDelete ++ [unconditioned])
    (fun w => decide (w.rb.clientList = [0] ∧ .obj 100 ∈ (w.rb.level 1).objList ∧
      ((w.rb.level 1).bobj (.obj 100)).flags.delete = true ∧
      ∀ i, (w.rb.level i).increments < 2 ^ 64)) (by decide +kernel)
  rw [decide_eq_true_eq] at hp
  obtain ⟨hclients, hlisted, hdeleted, hlt'⟩ := hp
  obtain ⟨hall, hend⟩ := create_all_or_nothing_iff plainGen id (pendingDelete ++ [unconditioned])
  exact ⟨w, hexec, hclients, ⟨hlisted, hdeleted⟩, fun i => hend w hexec hhandled i (hlt' i),
    hall.mpr hhandled⟩

/-- **A client without a level is returned.**  The `broker_client` of level 1 cannot be
allocated, the test of the array `rclient->client` against `NULL` does not notice, and the
client is linked. -/
theorem create_returns_partial_client :
    ∃ w, (createSystem ℕ ℕ plainGen id).exec .start
        [.create 0 (some "dp") { CreateAllocs.ok with calloc := fun i => i != 1 }] = some w ∧
      0 ∈ w.rb.clientList ∧ (w.rb.rclient 0).client 1 = none ∧
      ¬ (createSystem ℕ ℕ plainGen id).Guarded createsAllOrNothing .start
        [.create 0 (some "dp") { CreateAllocs.ok with calloc := fun i => i != 1 }] := by
  obtain ⟨w, hexec, hp⟩ := (createSystem ℕ ℕ plainGen id).exists_of_exec_any .start
    [.create 0 (some "dp") { CreateAllocs.ok with calloc := fun i => i != 1 }]
    (fun w => decide (0 ∈ w.rb.clientList ∧ (w.rb.rclient 0).client 1 = none)) (by decide +kernel)
  rw [decide_eq_true_eq] at hp
  refine ⟨w, hexec, hp.1, hp.2, fun hall => ?_⟩
  obtain ⟨hfirst, -⟩ := hall _ rfl
  rcases hfirst with ⟨-, -, hlevels⟩ | ⟨hnull, -⟩
  · obtain ⟨k, hk, -⟩ := hlevels 1
    have hnone : (((routeBrokerInit : RouteBroker ℕ ℕ ℕ (ℕ × ℕ × Bool)).createWith 0 (some "dp")
        { CreateAllocs.ok with calloc := fun i => i != 1 }).2.rclient 0).client 1 = none := by
      decide +kernel
    exact nomatch hnone.symm.trans hk
  · exact nomatch hnull
