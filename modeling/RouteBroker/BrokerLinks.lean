/-
# The broker on linked queues

`Broker.lean` has the queues of a broker as lists.  Here the same functions of
`broker.c` run on the links (`CircleqLinks.lean`), and what they follow is watched:
a `LinkBroker` is the broker with its two queues in memory, and every function
returns `none` when it follows a link of an entry that is in no queue any more, or
when it does not end within the rounds it is given.

`LinkBroker.Represents` ties a `LinkBroker` to a broker of `Broker.lean`, and each
function has one lemma that says it does on the links what it does on the lists.
The loop of `broker_client_delete` unlinks the entry it stands on and goes on from
the entry before it, which may be the head; `sweepLinks_eq` is that loop, with the
queue cut at the current entry.  `client_delete_filters` is the result for every
broker that a run reaches.
-/
import RouteBroker.CircleqLinks
import RouteBroker.BrokerWrap

open Circleq Broker

/-- `struct broker` with its queues as links in memory. -/
structure LinkBroker (Obj Cl : Type*) where
  /-- `b_obj_list_head` -/
  objList : Queue (Ref Obj Cl)
  /-- `b_client_list_head` -/
  clientList : Queue Cl
  id : ℕ
  bobj : Ref Obj Cl → BrokerObj
  client : Cl → BrokerClient
  /-- How often `++broker->id` was executed. -/
  increments : ℕ

variable {Obj Cl Ext Msg Data : Type*}

/-- `no_clients_need_this`. -/
def noClientsNeedThisLinks (fuel : ℕ) (b : LinkBroker Obj Cl) (entry : Ref Obj Cl) :
    Option Bool :=
  if b.clientList.isEmpty then some true
  else
    (b.clientList.next .head).bind fun client =>
      (b.clientList.foreach
        (fun id c => if (b.bobj (.client c)).id < id then (b.bobj (.client c)).id else id)
        fuel client (2 ^ 64 - 1)).map fun id => decide ((b.bobj entry).id ≤ id)

variable [DecidableEq Obj] [DecidableEq Cl]

/-- `broker_del_obj_now`. -/
def brokerDelObjNowLinks (ops : BrokerOps Obj Cl Ext) (b : LinkBroker Obj Cl) (s : Ext)
    (entry : Ref Obj Cl) : Option (LinkBroker Obj Cl × Ext) :=
  (b.objList.remove entry).map fun q => ({ b with objList := q }, ops.unlockObj entry s)

/-! ## The other functions of `broker.c` -/

namespace LinkBroker

/-- Write the whole `struct broker_obj` at `r`. -/
def setObj (b : LinkBroker Obj Cl) (r : Ref Obj Cl) (o : BrokerObj) : LinkBroker Obj Cl :=
  { b with bobj := Function.update b.bobj r o }

/-- `r->id = n`. -/
def setId (b : LinkBroker Obj Cl) (r : Ref Obj Cl) (n : ℕ) : LinkBroker Obj Cl :=
  b.setObj r { b.bobj r with id := n }

/-- Set or clear `BROKER_FLAGS_DELETE` in `r->flags`. -/
def setDelete (b : LinkBroker Obj Cl) (r : Ref Obj Cl) (d : Bool) : LinkBroker Obj Cl :=
  b.setObj r { b.bobj r with flags := { (b.bobj r).flags with delete := d } }

omit [DecidableEq Obj] [DecidableEq Cl] in
/-- `++broker->id`. -/
def incId (b : LinkBroker Obj Cl) : LinkBroker Obj Cl :=
  { b with id := (b.id + 1) % 2 ^ 64, increments := b.increments + 1 }

omit [DecidableEq Obj] in
/-- `client->consumed++`. -/
def incConsumed (b : LinkBroker Obj Cl) (c : Cl) : LinkBroker Obj Cl :=
  let cl := b.client c
  { b with client := Function.update b.client c { cl with consumed := cl.consumed + 1 } }

end LinkBroker

/-- The state `broker_create` leaves, whatever the links were. -/
def brokerCreateLinks (m : Links (Ref Obj Cl)) (m' : Links Cl) : LinkBroker Obj Cl where
  objList := Queue.init m
  clientList := Queue.init m'
  id := 0
  bobj := fun _ => {}
  client := fun _ => {}
  increments := 0

/-- `broker_add_obj`. -/
def brokerAddObjLinks (ops : BrokerOps Obj Cl Ext) (b : LinkBroker Obj Cl) (s : Ext) (obj : Obj)
    (type : ℕ) : Option (LinkBroker Obj Cl × Ext) :=
  let new := Ref.obj obj
  let b := b.incId
  let b := b.setObj new { objType := type, flags := { obj := true }, id := b.id }
  (b.objList.insertTail new).map fun q => ({ b with objList := q }, ops.lockObj new s)

/-- Unlink `r` and link it again at the tail, with the next id. -/
def LinkBroker.moveToTail (b : LinkBroker Obj Cl) (r : Ref Obj Cl) : Option (LinkBroker Obj Cl) :=
  (b.objList.remove r).bind fun q =>
    (q.insertTail r).map fun q =>
      let b := { b with objList := q }
      let b := b.incId
      b.setId r b.id

/-- `broker_del_obj`. -/
def brokerDelObjLinks (ops : BrokerOps Obj Cl Ext) (b : LinkBroker Obj Cl) (s : Ext) (obj : Obj) :
    Option (LinkBroker Obj Cl × Ext) :=
  let entry := Ref.obj obj
  if b.clientList.isEmpty then brokerDelObjNowLinks ops b s entry
  else ((b.setDelete entry true).moveToTail entry).map fun b => (b, s)

/-- `broker_upd_obj`. -/
def brokerUpdObjLinks (b : LinkBroker Obj Cl) (obj : Obj) : Option (LinkBroker Obj Cl) :=
  let entry := Ref.obj obj
  let b := if (b.bobj entry).flags.delete then b.setDelete entry false else b
  b.moveToTail entry

omit [DecidableEq Obj] [DecidableEq Cl] in
/-- `broker_get_next_data_obj` from `b_obj`, for at most so many rounds. -/
def brokerGetNextDataObjLinks : ℕ → LinkBroker Obj Cl → Ref Obj Cl → Option (Option (Ref Obj Cl))
  | 0, _, _ => none
  | fuel + 1, b, b_obj =>
    (b.objList.next (.entry b_obj)).bind fun
      | .head => some none
      | .entry r =>
        if (b.bobj r).flags.obj then some (some r) else brokerGetNextDataObjLinks fuel b r

/-- Link the new client `c` and its cursor. -/
def LinkBroker.withClient (b : LinkBroker Obj Cl) (c : Cl) (name : String) :
    Option (LinkBroker Obj Cl) :=
  let b := b.setObj (.client c) { flags := { client := true } }
  (b.clientList.insertHead c).bind fun cq =>
    (b.objList.insertHead (.client c)).map fun oq =>
      { b with
        client := Function.update b.client c { name := name }
        clientList := cq
        objList := oq }

/-- `broker_client_create`, with allocations that succeed. -/
def brokerClientCreateLinks (fuel : ℕ) (b : LinkBroker Obj Cl) (c : Cl) (name : String) :
    Option (LinkBroker Obj Cl) :=
  (b.withClient c name).bind fun b =>
    -- with nothing to read the client starts level with the broker
    (brokerGetNextDataObjLinks fuel b (.client c)).map fun more =>
      if more.isSome then b else b.setId (.client c) b.id

/-- Unlink the cursor of `c`, link it again right after `o` and give it the id of `o`. -/
def LinkBroker.advance (b : LinkBroker Obj Cl) (c : Cl) (o : Ref Obj Cl) :
    Option (LinkBroker Obj Cl) :=
  (b.objList.remove (.client c)).bind fun q =>
    (q.insertAfter o (.client c)).map fun q =>
      let b := { b with objList := q }
      b.setId (.client c) (b.bobj o).id

/-- `broker_client_get_data` of a client. -/
def brokerClientGetDataLinks (ops : BrokerOps Obj Cl Ext) (cops : BrokerClientOps Obj Cl Ext Msg)
    (fuel : ℕ) (b : LinkBroker Obj Cl) (s : Ext) (c : Cl) :
    Option (Option Msg × LinkBroker Obj Cl × Ext) :=
  (brokerGetNextDataObjLinks fuel b (.client c)).bind fun
    -- No more data.  Ensure id up to date so don't keep asking
    | none => some (none, b.setId (.client c) b.id, s)
    | some o =>
      let data := if (b.bobj o).flags.delete then cops.delObj o (b.bobj o) s
        else cops.addObj o (b.bobj o) s
      (b.advance c o).bind fun b =>
        if (b.bobj o).flags.delete then
          (noClientsNeedThisLinks fuel b o).bind fun unneeded =>
            if unneeded then
              (brokerDelObjNowLinks ops b s o).map fun bs => (data, bs.1.incConsumed c, bs.2)
            else some (data, b.incConsumed c, s)
        else some (data, b.incConsumed c, s)

/-! ## `broker_client_delete` -/

/-- One round of the loop of `broker_client_delete` at the entry `b_obj`: `temp`, from
which the loop goes on, and the state. -/
def sweepEntry (ops : BrokerOps Obj Cl Ext) (fuel : ℕ) (b : LinkBroker Obj Cl) (s : Ext)
    (b_obj : Ref Obj Cl) : Option (Ptr (Ref Obj Cl) × LinkBroker Obj Cl × Ext) :=
  if (b.bobj b_obj).flags.obj && (b.bobj b_obj).flags.delete then
    (noClientsNeedThisLinks fuel b b_obj).bind fun unneeded =>
      if unneeded then
        -- remove it, so keep track of obj before
        (b.objList.prev (.entry b_obj)).bind fun temp =>
          (brokerDelObjNowLinks ops b s b_obj).map fun bs => (temp, bs)
      else some (.entry b_obj, b, s)
  else some (.entry b_obj, b, s)

/-- The loop of `broker_client_delete` from `b_obj` on, for at most so many rounds. -/
def sweepLinks (ops : BrokerOps Obj Cl Ext) : ℕ → Ptr (Ref Obj Cl) → LinkBroker Obj Cl → Ext →
    Option (LinkBroker Obj Cl × Ext)
  | 0, _, _, _ => none
  | _ + 1, .head, b, s => some (b, s)
  | fuel + 1, .entry b_obj, b, s =>
    (sweepEntry ops fuel b s b_obj).bind fun (temp, b, s) =>
      (b.objList.next temp).bind fun b_obj => sweepLinks ops fuel b_obj b s

/-- `broker_client_delete`. -/
def brokerClientDeleteLinks (ops : BrokerOps Obj Cl Ext) (fuel : ℕ) (b : LinkBroker Obj Cl)
    (s : Ext) (c : Cl) : Option (LinkBroker Obj Cl × Ext) :=
  (b.clientList.remove c).bind fun cq =>
    (b.objList.remove (.client c)).bind fun oq =>
      let b := { b with clientList := cq, objList := oq }
      (b.objList.next .head).bind fun b_obj => sweepLinks ops fuel b_obj b s

/-! ## The two levels -/

/-- The broker in memory is the broker `b`: both queues are sound and hold the members
of the lists, and everything else is the same. -/
structure LinkBroker.Represents {Obj Cl : Type*} (v : LinkBroker Obj Cl) (b : Broker Obj Cl) :
    Prop where
  objList : v.objList.Holds b.objList
  clientList : v.clientList.Holds b.clientList
  id : v.id = b.id
  bobj : v.bobj = b.bobj
  client : v.client = b.client
  increments : v.increments = b.increments

variable {v : LinkBroker Obj Cl} {b : Broker Obj Cl}

/-- Every broker whose queues link no entry twice has a place in memory. -/
theorem exists_represents (hn : b.objList.Nodup) (hc : b.clientList.Nodup) :
    ∃ v : LinkBroker Obj Cl, v.Represents b := by
  obtain ⟨oq, ho⟩ := Queue.exists_holds hn
  obtain ⟨cq, hq⟩ := Queue.exists_holds hc
  let v : LinkBroker Obj Cl :=
    { objList := oq
      clientList := cq
      id := b.id
      bobj := b.bobj
      client := b.client
      increments := b.increments }
  exact ⟨v, ho, hq, rfl, rfl, rfl, rfl⟩

omit [DecidableEq Obj] [DecidableEq Cl] in
/-- `no_clients_need_this` walks over the clients once. -/
theorem noClientsNeedThisLinks_eq (h : v.Represents b) {fuel : ℕ}
    (hf : b.clientList.length < fuel) (r : Ref Obj Cl) :
    noClientsNeedThisLinks fuel v r = some (noClientsNeedThis b r) := by
  unfold noClientsNeedThisLinks noClientsNeedThis
  rw [h.clientList.isEmpty]
  by_cases he : b.clientList.isEmpty = true
  · rw [if_pos he, if_pos he]
  · have hcl : v.clientList.Holds ([] ++ b.clientList) := h.clientList
    rw [if_neg he, if_neg he, h.clientList.next_head, Option.bind_some, hcl.foreach _ hf, h.bobj]
    rfl

/-- Unlinking an object, on the links. -/
theorem brokerDelObjNowLinks_eq (ops : BrokerOps Obj Cl Ext) (h : v.Represents b)
    {r : Ref Obj Cl} (hr : r ∈ b.objList) (s : Ext) :
    ∃ v', brokerDelObjNowLinks ops v s r = some (v', (brokerDelObjNow ops b s r).2) ∧
      v'.Represents (brokerDelObjNow ops b s r).1 := by
  obtain ⟨q, hq, hholds⟩ := h.objList.remove hr
  refine ⟨{ v with objList := q }, ?_, hholds, h.clientList, h.id, h.bobj, h.client,
    h.increments⟩
  unfold brokerDelObjNowLinks
  rw [hq]
  rfl

/-! Assignments do not touch the queues. -/

theorem LinkBroker.Represents.setObj (h : v.Represents b) (r : Ref Obj Cl) (o : BrokerObj) :
    (v.setObj r o).Represents (b.setObj r o) := by
  refine ⟨h.objList, h.clientList, h.id, ?_, h.client, h.increments⟩
  show Function.update v.bobj r o = Function.update b.bobj r o
  rw [h.bobj]

theorem LinkBroker.Represents.setId (h : v.Represents b) (r : Ref Obj Cl) (n : ℕ) :
    (v.setId r n).Represents (b.setId r n) := by
  unfold LinkBroker.setId Broker.setId
  rw [h.bobj]
  exact h.setObj r _

theorem LinkBroker.Represents.setDelete (h : v.Represents b) (r : Ref Obj Cl) (d : Bool) :
    (v.setDelete r d).Represents (b.setDelete r d) := by
  unfold LinkBroker.setDelete Broker.setDelete
  rw [h.bobj]
  exact h.setObj r _

omit [DecidableEq Obj] [DecidableEq Cl] in
theorem LinkBroker.Represents.incId (h : v.Represents b) : v.incId.Represents b.incId := by
  refine ⟨h.objList, h.clientList, ?_, h.bobj, h.client, ?_⟩
  · show (v.id + 1) % 2 ^ 64 = (b.id + 1) % 2 ^ 64
    rw [h.id]
  · show v.increments + 1 = b.increments + 1
    rw [h.increments]

omit [DecidableEq Obj] in
theorem LinkBroker.Represents.incConsumed (h : v.Represents b) (c : Cl) :
    (v.incConsumed c).Represents (b.incConsumed c) := by
  refine ⟨h.objList, h.clientList, h.id, h.bobj, ?_, h.increments⟩
  show Function.update v.client c _ = Function.update b.client c _
  rw [h.client]

omit [DecidableEq Obj] [DecidableEq Cl] in
theorem LinkBroker.Represents.setObjList (h : v.Represents b) {q : Queue (Ref Obj Cl)}
    {l : List (Ref Obj Cl)} (hq : q.Holds l) :
    ({ v with objList := q } : LinkBroker Obj Cl).Represents { b with objList := l } :=
  ⟨hq, h.clientList, h.id, h.bobj, h.client, h.increments⟩

/-- A new broker. -/
theorem represents_create (m : Links (Ref Obj Cl)) (m' : Links Cl) :
    (brokerCreateLinks m m').Represents brokerCreate :=
  ⟨Queue.holds_init m, Queue.holds_init m', rfl, rfl, rfl, rfl⟩

/-! Each function does on the links what it does on the lists. -/

/-- Adding an object, on the links. -/
theorem brokerAddObjLinks_eq (ops : BrokerOps Obj Cl Ext) (h : v.Represents b) {o : Obj}
    (ho : ¬ b.Listed o) (s : Ext) (type : ℕ) :
    ∃ v', brokerAddObjLinks ops v s o type = some (v', (brokerAddObj ops b s o type).2) ∧
      v'.Represents (brokerAddObj ops b s o type).1 := by
  obtain ⟨q, hq, hholds⟩ := h.objList.insertTail ho
  have hset := h.incId.setObj (.obj o) { objType := type, flags := { obj := true }, id := b.incId.id }
  refine ⟨_, ?_, hset.setObjList hholds⟩
  unfold brokerAddObjLinks
  dsimp only
  rw [h.incId.id]
  show (v.objList.insertTail (.obj o)).map _ = _
  rw [hq]
  rfl

theorem moveToTailLinks_eq (h : v.Represents b) {r : Ref Obj Cl} (hr : r ∈ b.objList) :
    ∃ v', v.moveToTail r = some v' ∧ v'.Represents (b.moveToTail r) := by
  obtain ⟨q, hq, hholds⟩ := h.objList.remove hr
  obtain ⟨q', hq', hholds'⟩ := hholds.insertTail (not_mem_remove h.objList.ring.nodup)
  have hset := (h.setObjList hholds').incId
  refine ⟨_, ?_, hset.setId r ((b.id + 1) % 2 ^ 64)⟩
  unfold LinkBroker.moveToTail
  rw [hq, Option.bind_some, hq', Option.map_some]
  show some (LinkBroker.setId _ r ((v.id + 1) % 2 ^ 64)) = _
  rw [h.id]

/-- Deleting an object, on the links. -/
theorem brokerDelObjLinks_eq (ops : BrokerOps Obj Cl Ext) (h : v.Represents b) {o : Obj}
    (ho : b.Listed o) (s : Ext) :
    ∃ v', brokerDelObjLinks ops v s o = some (v', (brokerDelObj ops b s o).2) ∧
      v'.Represents (brokerDelObj ops b s o).1 := by
  unfold brokerDelObjLinks brokerDelObj
  dsimp only
  rw [h.clientList.isEmpty]
  by_cases he : b.clientList.isEmpty = true
  · rw [if_pos he, if_pos he]
    exact brokerDelObjNowLinks_eq ops h ho s
  · obtain ⟨v', hv', hrep⟩ := moveToTailLinks_eq (h.setDelete (.obj o) true) ho
    rw [if_neg he, if_neg he, hv']
    exact ⟨v', rfl, hrep⟩

/-- Updating an object, on the links. -/
theorem brokerUpdObjLinks_eq (h : v.Represents b) {o : Obj} (ho : b.Listed o) :
    ∃ v', brokerUpdObjLinks v o = some v' ∧ v'.Represents (brokerUpdObj b o) := by
  unfold brokerUpdObjLinks brokerUpdObj
  dsimp only
  rw [h.bobj]
  by_cases hd : (b.bobj (.obj o)).flags.delete = true
  · rw [if_pos hd, if_pos hd]
    exact moveToTailLinks_eq (h.setDelete (.obj o) false) ho
  · rw [if_neg hd, if_neg hd]
    exact moveToTailLinks_eq h ho

omit [DecidableEq Obj] [DecidableEq Cl] in
/-- The search from an entry looks at what comes after it. -/
theorem getNextDataObjLinks_find (h : v.Represents b) {pre post : List (Ref Obj Cl)}
    {r : Ref Obj Cl} (hl : b.objList = pre ++ r :: post) {fuel : ℕ} (hf : post.length < fuel) :
    brokerGetNextDataObjLinks fuel v r = some (post.find? fun r => (b.bobj r).flags.obj) := by
  induction post generalizing pre r fuel with
  | nil =>
    obtain ⟨fuel, rfl⟩ := Nat.exists_eq_add_one_of_ne_zero (Nat.ne_zero_of_lt hf)
    have hholds : v.objList.Holds (pre ++ r :: []) := hl ▸ h.objList
    rw [brokerGetNextDataObjLinks, hholds.next_entry]
    rfl
  | cons r' post ih =>
    obtain ⟨fuel, rfl⟩ := Nat.exists_eq_add_one_of_ne_zero (Nat.ne_zero_of_lt hf)
    have hl' : b.objList = (pre ++ [r]) ++ r' :: post := by simp [hl]
    have hholds : v.objList.Holds (pre ++ r :: r' :: post) := hl ▸ h.objList
    rw [brokerGetNextDataObjLinks, hholds.next_entry, List.find?_cons]
    show (if (v.bobj r').flags.obj then _ else _) = _
    rw [h.bobj]
    cases hflag : (b.bobj r').flags.obj with
    | true => rfl
    | false =>
      rw [List.length_cons] at hf
      exact ih hl' (by omega)

/-- The search for the next object walks over the queue once. -/
theorem brokerGetNextDataObjLinks_eq (h : v.Represents b) {r : Ref Obj Cl} (hr : r ∈ b.objList)
    {fuel : ℕ} (hf : b.objList.length < fuel) :
    brokerGetNextDataObjLinks fuel v r = some (brokerGetNextDataObj b r) := by
  obtain ⟨pre, post, hl⟩ := List.append_of_mem hr
  have hn : (pre ++ r :: post).Nodup := hl ▸ h.objList.ring.nodup
  have hlen : post.length < fuel := by
    rw [hl, List.length_append, List.length_cons] at hf
    omega
  unfold brokerGetNextDataObj
  rw [getNextDataObjLinks_find h hl hlen, hl, after_append_cons hn]

theorem withClientLinks_eq (h : v.Represents b) (hb : b.Linked) {c : Cl}
    (hc : c ∉ b.clientList) (name : String) :
    ∃ v', v.withClient c name = some v' ∧ v'.Represents (b.withClient c name) := by
  have hcur : Ref.client c ∉ b.objList := fun hmem => hc ((hb.cursor_mem c).mp hmem)
  obtain ⟨cq, hcq, hcl⟩ := h.clientList.insertHead hc
  obtain ⟨oq, hoq, hol⟩ := h.objList.insertHead hcur
  have hset := h.setObj (.client c) { flags := { client := true } }
  refine ⟨{ v.setObj (.client c) { flags := { client := true } } with
    client := Function.update v.client c { name := name }
    clientList := cq
    objList := oq }, ?_, hol, hcl, h.id, hset.bobj, ?_, h.increments⟩
  · show (v.clientList.insertHead c).bind (fun cq =>
      (v.objList.insertHead (.client c)).map fun oq => _) = _
    rw [hcq, Option.bind_some, hoq]
    rfl
  · show Function.update v.client c _ = Function.update b.client c _
    rw [h.client]

/-- Creating a client, on the links. -/
theorem brokerClientCreateLinks_eq (h : v.Represents b) (hb : b.Linked) {c : Cl}
    (hc : c ∉ b.clientList) (name : String) {fuel : ℕ} (hf : b.objList.length + 1 < fuel) :
    ∃ v', brokerClientCreateLinks fuel v c name = some v' ∧
      v'.Represents (brokerClientCreate b (some c) (some name)).2 := by
  obtain ⟨v', hv', hrep⟩ := withClientLinks_eq h hb hc name
  have hnext := brokerGetNextDataObjLinks_eq hrep
    (show Ref.client c ∈ Circleq.insertHead b.objList (.client c) from List.mem_cons_self) hf
  have hid : v'.id = b.id := hrep.id
  rw [clientCreate_eq]
  unfold brokerClientCreateLinks brokerHasMoreData
  rw [hv', Option.bind_some, hnext, Option.map_some, hid]
  refine ⟨_, rfl, ?_⟩
  split_ifs
  · exact hrep
  · exact hrep.setId (.client c) b.id

theorem advanceLinks_eq (h : v.Represents b) {c : Cl} {o : Ref Obj Cl}
    (hc : .client c ∈ b.objList) (ho : o ∈ b.objList) (hne : o ≠ .client c) :
    ∃ v', v.advance c o = some v' ∧ v'.Represents (b.advance c o) := by
  have hn := h.objList.ring.nodup
  obtain ⟨q, hq, hholds⟩ := h.objList.remove hc
  obtain ⟨q', hq', hholds'⟩ := hholds.insertAfter ((mem_remove hn).mpr ⟨hne, ho⟩)
    (not_mem_remove hn)
  have hset := (h.setObjList hholds').setId (.client c) (b.bobj o).id
  refine ⟨_, ?_, hset⟩
  unfold LinkBroker.advance
  rw [hq, Option.bind_some, hq', Option.map_some]
  show some (LinkBroker.setId _ (.client c) (v.bobj o).id) = _
  rw [h.bobj]

/-- **Reading, on the links.** -/
theorem brokerClientGetDataLinks_eq (ops : BrokerOps Obj Cl Ext)
    (cops : BrokerClientOps Obj Cl Ext Msg) (h : v.Represents b) (hb : b.Linked) {c : Cl}
    (hc : c ∈ b.clientList) {fuel : ℕ}
    (hf : b.objList.length + b.clientList.length < fuel) (s : Ext) :
    ∃ v', brokerClientGetDataLinks ops cops fuel v s c
        = some ((brokerClientGetData ops cops b s (some c)).1, v',
          (brokerClientGetData ops cops b s (some c)).2.2) ∧
      v'.Represents (brokerClientGetData ops cops b s (some c)).2.1 := by
  have hcur : Ref.client c ∈ b.objList := (hb.cursor_mem c).mpr hc
  unfold brokerClientGetDataLinks
  rw [brokerGetNextDataObjLinks_eq h hcur (by omega), Option.bind_some]
  cases hnext : brokerGetNextDataObj b (.client c) with
  | none =>
    rw [getData_of_none ops cops s hnext]
    refine ⟨v.setId (.client c) b.id, ?_, h.setId (.client c) b.id⟩
    show some (none, v.setId (.client c) v.id, s) = _
    rw [h.id]
  | some r =>
    obtain ⟨o, rfl, hp, -⟩ := getNextDataObj_eq_some hb hnext
    obtain ⟨v₁, hadv, hv₁⟩ := advanceLinks_eq h hcur hp.listed (by simp)
    have hclients : (b.advance c (.obj o)).clientList.length < fuel := by
      rw [advance_clientList]
      omega
    rw [getData_of_some ops cops s hnext]
    dsimp only
    rw [hadv, Option.bind_some, h.bobj, hv₁.bobj, advance_flags]
    by_cases hd : (b.bobj (.obj o)).flags.delete = true
    · rw [if_pos hd, noClientsNeedThisLinks_eq hv₁ hclients, Option.bind_some, hd, Bool.true_and]
      by_cases hneed : noClientsNeedThis (b.advance c (.obj o)) (.obj o) = true
      · -- the cursor of `c` was the last one before the deleted object
        have hmem : Ref.obj o ∈ (b.advance c (.obj o)).objList :=
          (mem_advance hb hp _).mpr hp.listed
        obtain ⟨v₂, hdel, hv₂⟩ := brokerDelObjNowLinks_eq ops hv₁ hmem s
        rw [if_pos hneed, if_pos hneed, hdel]
        exact ⟨_, rfl, hv₂.incConsumed c⟩
      · rw [if_neg hneed, if_neg hneed]
        exact ⟨_, rfl, hv₁.incConsumed c⟩
    · rw [Bool.not_eq_true] at hd
      rw [hd, Bool.false_and, if_neg Bool.false_ne_true, if_neg Bool.false_ne_true]
      exact ⟨_, rfl, hv₁.incConsumed c⟩

/-- **The loop on the links.**  The queue is cut at the entry the loop stands on: what
is in front of it has been swept, and the loop does to the rest what `sweep` does. -/
theorem sweepLinks_eq (ops : BrokerOps Obj Cl Ext) {pre rest : List (Ref Obj Cl)}
    (h : v.Represents b) (hl : b.objList = pre ++ rest) {fuel : ℕ}
    (hf : rest.length + b.clientList.length < fuel) (s : Ext) :
    ∃ v', sweepLinks ops fuel (Links.first rest) v s = some (v', (sweep ops rest (b, s)).2) ∧
      v'.Represents (sweep ops rest (b, s)).1 := by
  induction rest generalizing pre v b fuel s with
  | nil =>
    obtain ⟨fuel, rfl⟩ := Nat.exists_eq_add_one_of_ne_zero (Nat.ne_zero_of_lt hf)
    exact ⟨v, rfl, h⟩
  | cons r rest ih =>
    obtain ⟨fuel, rfl⟩ := Nat.exists_eq_add_one_of_ne_zero (Nat.ne_zero_of_lt hf)
    have hlen : rest.length + b.clientList.length < fuel := by
      rw [List.length_cons] at hf
      omega
    have hholds : v.objList.Holds (pre ++ r :: rest) := hl ▸ h.objList
    have hnr : r ∉ pre := by
      have hn := hholds.ring.nodup
      rw [List.nodup_middle, List.nodup_cons, List.mem_append, not_or] at hn
      exact hn.1.1
    -- an entry that stays becomes the last one of the front
    have hkeep : ∃ v', ((v.objList.next (.entry r)).bind fun p => sweepLinks ops fuel p v s)
          = some (v', (sweep ops rest (b, s)).2) ∧ v'.Represents (sweep ops rest (b, s)).1 := by
      have hl' : b.objList = (pre ++ [r]) ++ rest := by simp [hl]
      rw [hholds.next_entry, Option.bind_some]
      exact ih h hl' hlen s
    show ∃ v', ((sweepEntry ops fuel v s r).bind fun x => (x.2.1.objList.next x.1).bind fun p =>
      sweepLinks ops fuel p x.2.1 x.2.2) = _ ∧ _
    rw [sweep, sweepEntry, h.bobj]
    split_ifs with hflags hneed
    · obtain ⟨v', hdel, hv'⟩ := brokerDelObjNowLinks_eq ops h (r := r) (by simp [hl]) s
      have hl' : (brokerDelObjNow ops b s r).1.objList = pre ++ rest := by
        show Circleq.remove b.objList r = _
        unfold Circleq.remove
        rw [hl, List.erase_append_right _ hnr, List.erase_cons_head]
      -- the walk goes on from the entry before, or from the head
      have hnext := (hl' ▸ hv'.objList : v'.objList.Holds (pre ++ rest)).next_last
      rw [noClientsNeedThisLinks_eq h (by omega), hneed, Option.bind_some, if_pos rfl,
        show Ptr.entry r = Links.first (r :: rest) from rfl, hholds.prev_first,
        Option.bind_some, hdel]
      show ∃ v'', ((v'.objList.next (Links.last pre)).bind fun p =>
        sweepLinks ops fuel p v' (brokerDelObjNow ops b s r).2) = _ ∧ _
      rw [hnext, Option.bind_some]
      exact ih hv' hl' hlen _
    · rw [noClientsNeedThisLinks_eq h (by omega), Bool.eq_false_iff.mpr hneed,
        Option.bind_some]
      exact hkeep
    · exact hkeep

/-- On the links `broker_client_delete` does what it does on the lists. -/
theorem brokerClientDeleteLinks_eq (ops : BrokerOps Obj Cl Ext) (h : v.Represents b)
    (hb : b.Linked) {c : Cl} (hc : c ∈ b.clientList) {fuel : ℕ}
    (hf : b.objList.length + b.clientList.length < fuel) (s : Ext) :
    ∃ v', brokerClientDeleteLinks ops fuel v s c = some (v', (brokerClientDelete ops b s c).2) ∧
      v'.Represents (brokerClientDelete ops b s c).1 := by
  obtain ⟨cq, hcq, hcl⟩ := h.clientList.remove hc
  obtain ⟨oq, hoq, hol⟩ := h.objList.remove ((hb.cursor_mem c).mpr hc)
  have hv : ({ v with clientList := cq, objList := oq } : LinkBroker Obj Cl).Represents
      (b.withoutClient c) := ⟨hol, hcl, h.id, h.bobj, h.client, h.increments⟩
  have hlen : (b.withoutClient c).objList.length + (b.withoutClient c).clientList.length
      < fuel := by
    have h1 : (b.withoutClient c).objList.length ≤ b.objList.length :=
      List.length_erase_le
    have h2 : (b.withoutClient c).clientList.length ≤ b.clientList.length :=
      List.length_erase_le
    omega
  unfold brokerClientDeleteLinks
  rw [hcq, Option.bind_some, hoq, Option.bind_some]
  dsimp only
  rw [hol.next_head, Option.bind_some]
  exact sweepLinks_eq ops hv (List.nil_append _).symm hlen s

/-! ## The sweep is a filter -/

/-- A data object of `b` that is marked deleted and that no cursor precedes but,
possibly, the one of `c`. -/
def Broker.Unneeded (b : Broker Obj Cl) (c : Cl) (r : Ref Obj Cl) : Prop :=
  (b.bobj r).flags.obj = true ∧ (b.bobj r).flags.delete = true ∧
    ∀ d ∈ b.clientList, d ≠ c → ¬ Precedes b.objList (.client d) r

instance (b : Broker Obj Cl) (c : Cl) : DecidablePred (b.Unneeded c) :=
  fun r => inferInstanceAs (Decidable ((b.bobj r).flags.obj = true ∧
    (b.bobj r).flags.delete = true ∧
      ∀ d ∈ b.clientList, d ≠ c → ¬ Precedes b.objList (.client d) r))

section Filter

/-- In an ordered queue the test on the ids is the test on the cursors. -/
theorem Broker.Ordered.reclaimable_eq (hb : b.Ordered) (c : Cl) {r : Ref Obj Cl}
    (hr : r ∈ b.objList) : (b.withoutClient c).reclaimable r = decide (b.Unneeded c r) := by
  rw [Bool.eq_iff_iff, decide_eq_true_eq]
  cases r with
  | obj o =>
    rw [hb.reclaimable_iff c hr]
    constructor
    · rintro ⟨hd, hp⟩
      exact ⟨hb.obj_flag o hr, hd, fun d _ hne => hp d hne⟩
    · rintro ⟨-, hd, hp⟩
      refine ⟨hd, fun d hne hpd => ?_⟩
      exact hp d (Pending.registered hb.toLinked hpd) hne hpd
  | client d =>
    have hf := hb.cursor_flag d hr
    have hf' : ((b.withoutClient c).bobj (.client d)).flags.obj = false := hf
    simp [reclaimable, Unneeded, hf, hf']

theorem Broker.Ordered.withoutClient_filter (hb : b.Ordered) (c : Cl) :
    (b.withoutClient c).objList.filter (b.withoutClient c).reclaimable
        = b.objList.filter (b.Unneeded c) ∧
      (b.withoutClient c).objList.filter (fun r => !(b.withoutClient c).reclaimable r)
        = b.objList.filter (fun r => r ≠ .client c ∧ ¬ b.Unneeded c r) := by
  have herase : (b.withoutClient c).objList = b.objList.filter (fun r => r != .client c) :=
    hb.nodup.erase_eq_filter _
  rw [herase, List.filter_filter, List.filter_filter]
  constructor
  · apply List.filter_congr
    intro r hr
    rw [hb.reclaimable_eq c hr]
    by_cases hu : b.Unneeded c r
    · -- a cursor is no data object
      have hne : r ≠ .client c := by
        rintro rfl
        rw [Unneeded, hb.cursor_flag c hr] at hu
        exact Bool.false_ne_true hu.1
      simp [hu, hne]
    · simp [hu]
  · apply List.filter_congr
    intro r hr
    rw [hb.reclaimable_eq c hr]
    by_cases hu : b.Unneeded c r <;> by_cases hne : r = .client c <;> simp [hu, hne]

/-- **The in-place sweep is a filter.**  Whatever the links are in which the queues of
a broker lie that is reached with fewer than `2^64` increments of its id, and whatever
the callbacks do: `broker_client_delete` of one of its clients ends, never follows a
link of an entry it has unlinked, and leaves a sound queue with exactly the entries
that are neither the cursor of the client nor data objects marked deleted which no
other cursor precedes, in the order they had.  Those objects are unlocked, each once
and in order, and no entry gets another id or other flags. -/
theorem client_delete_filters {d₀ : Obj → Data} {w : World Obj Cl Data}
    (h : (brokerSystem Cl d₀).Reachable w) (hw : w.broker.increments < 2 ^ 64) {c : Cl}
    (hc : c ∈ w.broker.clientList) (hv : v.Represents w.broker) (ops : BrokerOps Obj Cl Ext)
    (s : Ext) {fuel : ℕ}
    (hf : w.broker.objList.length + w.broker.clientList.length < fuel) :
    ∃ v', brokerClientDeleteLinks ops fuel v s c
        = some (v', (w.broker.objList.filter (w.broker.Unneeded c)).foldl
          (fun s r => ops.unlockObj r s) s) ∧
      (w.broker.objList.filter (w.broker.Unneeded c)).Nodup ∧
      v'.objList.Holds
        (w.broker.objList.filter fun r => r ≠ .client c ∧ ¬ w.broker.Unneeded c r) ∧
      v'.clientList.Holds (Circleq.remove w.broker.clientList c) ∧ v'.bobj = v.bobj := by
  have hb := reachable_ordered h hw
  obtain ⟨v', hrun, hv'⟩ := brokerClientDeleteLinks_eq ops hv hb.toLinked hc hf s
  obtain ⟨hgone, hkept⟩ := hb.withoutClient_filter c
  have hold := hv'.objList
  have hbobj := hv'.bobj
  have hclients := hv'.clientList
  rw [clientDelete_clientList] at hclients
  rw [clientDelete_bobj ops hb.toLinked] at hbobj
  rw [clientDelete_eq ops hb.toLinked] at hrun hold
  dsimp only at hrun hold
  rw [hgone] at hrun
  rw [hkept] at hold
  exact ⟨v', hrun, hb.nodup.filter _, hold, hclients, hbobj.trans hv.bobj.symm⟩

end Filter

/-- The theorem at a run after which the whole queue goes: two deleted objects behind
the only cursor. -/
theorem client_delete_filters_all :
    ∃ w v v', (brokerSystem ℕ fun _ : ℕ => 0).exec (World.start fun _ => 0) [.addObj 7 1,
        .addObj 8 1, .clientCreate 0 "dp", .delObj 7 2, .delObj 8 2] = some w ∧
      w.broker.objList = [.client 0, .obj 7, .obj 8] ∧ v.Represents w.broker ∧
      brokerClientDeleteLinks ownerOps 9 v w.owner 0
        = some (v', { w.owner with unlocked := 8 :: 7 :: w.owner.unlocked }) ∧
      v'.objList.Holds [] := by
  obtain ⟨w, hexec, hp⟩ := (brokerSystem ℕ fun _ : ℕ => 0).exists_of_exec_any
    (World.start fun _ => 0) [.addObj 7 1, .addObj 8 1, .clientCreate 0 "dp", .delObj 7 2,
      .delObj 8 2]
    (fun w => w.broker.increments < 2 ^ 64 ∧ w.broker.clientList = [0]
      ∧ w.broker.objList = [.client 0, .obj 7, .obj 8]
      ∧ w.broker.objList.filter (w.broker.Unneeded 0) = [.obj 7, .obj 8]
      ∧ w.broker.objList.filter (fun r => r ≠ .client 0 ∧ ¬ w.broker.Unneeded 0 r) = [])
    (by decide +kernel)
  rw [decide_eq_true_eq] at hp
  obtain ⟨hw, hclients, hlist, hgone, hkept⟩ := hp
  obtain ⟨v, hv⟩ := exists_represents (b := w.broker) (by rw [hlist]; decide)
    (by rw [hclients]; decide)
  have hf : w.broker.objList.length + w.broker.clientList.length < 9 := by
    rw [hlist, hclients]
    decide
  obtain ⟨v', hrun, -, hold, -⟩ := client_delete_filters ⟨_, hexec⟩ hw (c := 0)
    (by rw [hclients]; decide) hv ownerOps w.owner hf
  rw [hgone] at hrun
  rw [hkept] at hold
  exact ⟨w, v, v', hexec, hlist, hv, hrun, hold⟩

/-- Without the bound on the increments the sweep can take an object that is needed:
here the delete gets the id `0`, and deleting the client `1` unlinks the object `7`,
which the cursor of the client `0` precedes. -/
theorem client_delete_takes_needed_after_wrap :
    ∃ w, (brokerSystem ℕ fun _ : ℕ => 0).exec (World.start fun _ => 0)
        (aroundUpdates [.addObj 7 0, .clientCreate 0 "dp", .clientCreate 1 "kernel",
          .updObj 7 0] (2 ^ 64 - 3) 7 0 [.delObj 7 0]) = some w ∧
      1 ∈ w.broker.clientList ∧ 0 ∈ w.broker.clientList ∧
      Precedes w.broker.objList (.client 0) (.obj 7) ∧
      ∀ v : LinkBroker ℕ ℕ, v.Represents w.broker → ∀ fuel,
        w.broker.objList.length + w.broker.clientList.length < fuel →
        ∃ v' s', brokerClientDeleteLinks ownerOps fuel v w.owner 1 = some (v', s') ∧
          v'.objList.Holds [.client 0] ∧
          ¬ v'.objList.Holds
            (w.broker.objList.filter fun r => r ≠ .client 1 ∧ ¬ w.broker.Unneeded 1 r) := by
  obtain ⟨w, hexec, hp⟩ := exec_around_updates (fun _ => 0)
    [.addObj 7 0, .clientCreate 0 "dp", .clientCreate 1 "kernel", .updObj 7 0]
    (2 ^ 64 - 4) 7 0 [.delObj 7 0]
    (fun w : World ℕ ℕ ℕ => decide (1 ∈ w.broker.clientList ∧ 0 ∈ w.broker.clientList ∧
      Precedes w.broker.objList (.client 0) (.obj 7) ∧
      (brokerClientDelete ownerOps w.broker w.owner 1).1.objList = [.client 0] ∧
      (w.broker.objList.filter fun r => r ≠ .client 1 ∧ ¬ w.broker.Unneeded 1 r)
        = [.client 0, .obj 7]))
    (by decide +kernel)
  rw [decide_eq_true_eq] at hp
  obtain ⟨h1, h0, hprec, hleft, hkept⟩ := hp
  have hl : w.broker.Linked := by
    refine System.exec_induction (M := brokerSystem ℕ fun _ : ℕ => 0)
      (P := fun w => w.broker.Linked) (fun s a t hs hst => ?_) hexec linked_create
    exact call_linked hst hs
  refine ⟨w, hexec, h1, h0, hprec, fun v hv fuel hf => ?_⟩
  obtain ⟨v', hrun, hv'⟩ := brokerClientDeleteLinks_eq ownerOps hv hl h1 hf w.owner
  have hold := hv'.objList
  rw [hleft] at hold
  refine ⟨v', _, hrun, hold, ?_⟩
  rw [hkept]
  intro hother
  -- the links of a queue leave no choice of its members
  exact absurd (hold.ring.unique hother.ring) (by decide)
