/-
# The broker (`broker.c`, `broker.h`)

One broker keeps a single queue `b_obj_list` in which the *data objects* handed to
it and one *cursor* for each of its clients stand side by side.  A change of an
object moves the object to the tail of the queue; a client reads by moving its
cursor past the next data object.  A deleted object stays in the queue, marked,
until no client needs to hear of the delete any more.

The model follows the source function by function, under its names:

* a `Ref` is a pointer to a `struct broker_obj`: the one embedded in a data object
  or the one embedded in a client (its cursor).  `bobj` is the memory they point
  to, so that `client->broker_obj.id` is `(b.bobj (.client c)).id`;
* the queues are lists, head first (`Circleq.lean`);
* the callbacks of `struct broker_ops` act on a state `Ext` of the broker's owner,
  those of `struct broker_client_ops` read it;
* `id` is a `uint64_t`: `++broker->id` wraps.  `increments` is not in the source:
  it counts the executions of `++broker->id`, to be able to say "fewer than 2^64".

`imp_dels` and `type_count` are never read, and the fields `flags` and `id` of
`struct broker_client` (not those of its `broker_obj`) are never used; they have no
counterpart.  `obj_to_broker_obj` is `Ref.obj`.
-/
import RouteBroker.Circleq

/-! ## The data types of `broker.h` -/

/-- The bits of `broker_obj.flags`: `BROKER_FLAGS_OBJ`, `BROKER_FLAGS_CLIENT` and
`BROKER_FLAGS_DELETE`. -/
structure BrokerFlags where
  obj : Bool := false
  client : Bool := false
  delete : Bool := false
  deriving DecidableEq, Repr

/-- `struct broker_obj` without its links. -/
structure BrokerObj where
  objType : ℕ := 0
  flags : BrokerFlags := {}
  id : ℕ := 0
  deriving DecidableEq, Repr

/-- A pointer to a `struct broker_obj`: the one inside the data object `o`, or the
cursor inside the client `c`. -/
inductive Ref (Obj Cl : Type*)
  | obj (o : Obj)
  | client (c : Cl)
  deriving DecidableEq, Repr

/-- What is left of `struct broker_client` besides its cursor. -/
structure BrokerClient where
  consumed : ℕ := 0
  name : String := ""
  deriving DecidableEq, Repr

/-- `struct broker`, with the memory its queues point into. -/
structure Broker (Obj Cl : Type*) where
  /-- `b_obj_list_head` -/
  objList : List (Ref Obj Cl)
  /-- `b_client_list_head` -/
  clientList : List Cl
  id : ℕ
  bobj : Ref Obj Cl → BrokerObj
  client : Cl → BrokerClient
  /-- How often `++broker->id` was executed. -/
  increments : ℕ

/-- The callbacks of `struct broker_ops` that have an effect. -/
structure BrokerOps (Obj Cl Ext : Type*) where
  lockObj : Ref Obj Cl → Ext → Ext
  unlockObj : Ref Obj Cl → Ext → Ext

/-- `struct broker_client_ops`: what a client is given for an object, `none` for
`NULL`. -/
structure BrokerClientOps (Obj Cl Ext Msg : Type*) where
  addObj : Ref Obj Cl → BrokerObj → Ext → Option Msg
  delObj : Ref Obj Cl → BrokerObj → Ext → Option Msg

variable {Obj Cl Ext Msg : Type*}

/-- The state `broker_create` leaves (the structure comes from `calloc`). -/
def brokerCreate : Broker Obj Cl where
  objList := []
  clientList := []
  id := 0
  bobj := fun _ => {}
  client := fun _ => {}
  increments := 0

/-! ## Ids -/

/-- `++broker->id`. -/
def Broker.incId (b : Broker Obj Cl) : Broker Obj Cl :=
  { b with id := (b.id + 1) % 2 ^ 64, increments := b.increments + 1 }

@[simp] theorem incId_objList (b : Broker Obj Cl) : b.incId.objList = b.objList := rfl
@[simp] theorem incId_clientList (b : Broker Obj Cl) :
    b.incId.clientList = b.clientList := rfl
@[simp] theorem incId_bobj (b : Broker Obj Cl) : b.incId.bobj = b.bobj := rfl
@[simp] theorem incId_id (b : Broker Obj Cl) :
    b.incId.id = (b.id + 1) % 2 ^ 64 := rfl
@[simp] theorem incId_increments (b : Broker Obj Cl) :
    b.incId.increments = b.increments + 1 := rfl

/-- The loop of `no_clients_need_this`: the least client id, starting from `~0`. -/
def leastClientId (b : Broker Obj Cl) : ℕ :=
  b.clientList.foldl
    (fun id c => if (b.bobj (.client c)).id < id then (b.bobj (.client c)).id else id)
    (2 ^ 64 - 1)

/-- `no_clients_need_this`. -/
def noClientsNeedThis (b : Broker Obj Cl) (entry : Ref Obj Cl) : Bool :=
  if b.clientList.isEmpty then true
  else decide ((b.bobj entry).id ≤ leastClientId b)

variable [DecidableEq Obj] [DecidableEq Cl]

/-! ## Assignments -/

/-- Write the whole `struct broker_obj` at `r`. -/
def Broker.setObj (b : Broker Obj Cl) (r : Ref Obj Cl) (o : BrokerObj) : Broker Obj Cl :=
  { b with bobj := Function.update b.bobj r o }

/-- `r->id = n`. -/
def Broker.setId (b : Broker Obj Cl) (r : Ref Obj Cl) (n : ℕ) : Broker Obj Cl :=
  b.setObj r { b.bobj r with id := n }

/-- Set or clear `BROKER_FLAGS_DELETE` in `r->flags`. -/
def Broker.setDelete (b : Broker Obj Cl) (r : Ref Obj Cl) (d : Bool) : Broker Obj Cl :=
  b.setObj r { b.bobj r with flags := { (b.bobj r).flags with delete := d } }

/-- `client->consumed++`. -/
def Broker.incConsumed (b : Broker Obj Cl) (c : Cl) : Broker Obj Cl :=
  let cl := b.client c
  { b with client := Function.update b.client c { cl with consumed := cl.consumed + 1 } }

/-! ## Objects -/

/-- `broker_add_obj`. -/
def brokerAddObj (ops : BrokerOps Obj Cl Ext) (b : Broker Obj Cl) (s : Ext) (obj : Obj)
    (type : ℕ) : Broker Obj Cl × Ext :=
  let new := Ref.obj obj
  let b := b.incId
  let b := b.setObj new { objType := type, flags := { obj := true }, id := b.id }
  ({ b with objList := Circleq.insertTail b.objList new }, ops.lockObj new s)

/-- `broker_del_obj_now`. -/
def brokerDelObjNow (ops : BrokerOps Obj Cl Ext) (b : Broker Obj Cl) (s : Ext)
    (entry : Ref Obj Cl) : Broker Obj Cl × Ext :=
  ({ b with objList := Circleq.remove b.objList entry }, ops.unlockObj entry s)

/-- Unlink `r` and link it again at the tail, with the next id.  Both
`broker_del_obj` and `broker_upd_obj` end this way. -/
def Broker.moveToTail (b : Broker Obj Cl) (r : Ref Obj Cl) : Broker Obj Cl :=
  let b := { b with objList := Circleq.insertTail (Circleq.remove b.objList r) r }
  let b := b.incId
  b.setId r b.id

/-- `broker_del_obj`. -/
def brokerDelObj (ops : BrokerOps Obj Cl Ext) (b : Broker Obj Cl) (s : Ext) (obj : Obj) :
    Broker Obj Cl × Ext :=
  let entry := Ref.obj obj
  if b.clientList.isEmpty then brokerDelObjNow ops b s entry
  else ((b.setDelete entry true).moveToTail entry, s)

/-- `broker_upd_obj`.  An update of a to-be-deleted object recreates it. -/
def brokerUpdObj (b : Broker Obj Cl) (obj : Obj) : Broker Obj Cl :=
  let entry := Ref.obj obj
  let b := if (b.bobj entry).flags.delete then b.setDelete entry false else b
  b.moveToTail entry

/-! ## Clients -/

/-- `broker_get_next_data_obj`. -/
def brokerGetNextDataObj (b : Broker Obj Cl) (r : Ref Obj Cl) : Option (Ref Obj Cl) :=
  (Circleq.after b.objList r).find? fun r => (b.bobj r).flags.obj

/-- `broker_has_more_data`. -/
def brokerHasMoreData (b : Broker Obj Cl) (c : Cl) : Bool :=
  (brokerGetNextDataObj b (.client c)).isSome

/-- `broker_client_create`, given what `calloc` and `strdup` return. -/
def brokerClientCreate (b : Broker Obj Cl) (calloc : Option Cl) (strdup : Option String) :
    Option Cl × Broker Obj Cl :=
  match calloc, strdup with
  | some c, some name =>
    let b := b.setObj (.client c) { flags := { client := true } }
    let b := { b with
      client := Function.update b.client c { name := name }
      clientList := Circleq.insertHead b.clientList c
      objList := Circleq.insertHead b.objList (.client c) }
    -- with nothing to read the client starts level with the broker
    (some c, if brokerHasMoreData b c then b else b.setId (.client c) b.id)
  | _, _ => (none, b)

/-- The loop of `broker_client_delete`: walk the entries and reclaim every deleted
object that no client needs any more. -/
def sweep (ops : BrokerOps Obj Cl Ext) : List (Ref Obj Cl) → Broker Obj Cl × Ext →
    Broker Obj Cl × Ext
  | [], bs => bs
  | r :: rs, (b, s) =>
    if (b.bobj r).flags.obj && (b.bobj r).flags.delete then
      if noClientsNeedThis b r then sweep ops rs (brokerDelObjNow ops b s r)
      else sweep ops rs (b, s)
    else sweep ops rs (b, s)

/-- `broker_client_delete`. -/
def brokerClientDelete (ops : BrokerOps Obj Cl Ext) (b : Broker Obj Cl) (s : Ext) (c : Cl) :
    Broker Obj Cl × Ext :=
  let b := { b with
    clientList := Circleq.remove b.clientList c
    objList := Circleq.remove b.objList (.client c) }
  sweep ops b.objList (b, s)

/-- Unlink the cursor of `c`, link it again right after `o` and give it the id of
`o`. -/
def Broker.advance (b : Broker Obj Cl) (c : Cl) (o : Ref Obj Cl) : Broker Obj Cl :=
  let b := { b with objList :=
    Circleq.insertAfter (Circleq.remove b.objList (.client c)) o (.client c) }
  b.setId (.client c) (b.bobj o).id

/-- `broker_client_get_data`: the data handed out (`none` for `NULL`) and the state
afterwards. -/
def brokerClientGetData (ops : BrokerOps Obj Cl Ext) (cops : BrokerClientOps Obj Cl Ext Msg)
    (b : Broker Obj Cl) (s : Ext) (client : Option Cl) : Option Msg × Broker Obj Cl × Ext :=
  match client with
  | none => (none, b, s)
  | some c =>
    match brokerGetNextDataObj b (.client c) with
    -- No more data.  Ensure id up to date so don't keep asking
    | none => (none, b.setId (.client c) b.id, s)
    | some o =>
      let data := if (b.bobj o).flags.delete then cops.delObj o (b.bobj o) s
        else cops.addObj o (b.bobj o) s
      let b := b.advance c o
      let bs := if (b.bobj o).flags.delete && noClientsNeedThis b o then
        brokerDelObjNow ops b s o else (b, s)
      (data, bs.1.incConsumed c, bs.2)

/-! ## What the assignments leave alone -/

section Assignments

variable (b : Broker Obj Cl) (r r' : Ref Obj Cl) (n : ℕ) (d : Bool) (c : Cl)

@[simp] theorem setId_objList : (b.setId r n).objList = b.objList := rfl
@[simp] theorem setId_clientList : (b.setId r n).clientList = b.clientList := rfl
@[simp] theorem setId_id : (b.setId r n).id = b.id := rfl
@[simp] theorem setId_increments : (b.setId r n).increments = b.increments := rfl

@[simp] theorem setId_flags : ((b.setId r n).bobj r').flags = (b.bobj r').flags := by
  by_cases h : r' = r
  · subst h; simp [Broker.setId, Broker.setObj]
  · simp [Broker.setId, Broker.setObj, h]

/-- Only the entry that gets the id changes its id. -/
theorem setId_bobj_id : ((b.setId r n).bobj r').id = if r' = r then n else (b.bobj r').id := by
  by_cases h : r' = r
  · subst h; simp [Broker.setId, Broker.setObj]
  · simp [Broker.setId, Broker.setObj, h]

@[simp] theorem setDelete_objList : (b.setDelete r d).objList = b.objList := rfl
@[simp] theorem setDelete_clientList : (b.setDelete r d).clientList = b.clientList := rfl
@[simp] theorem setDelete_id : (b.setDelete r d).id = b.id := rfl
@[simp] theorem setDelete_increments : (b.setDelete r d).increments = b.increments := rfl

@[simp] theorem setDelete_bobj_id : ((b.setDelete r d).bobj r').id = (b.bobj r').id := by
  by_cases h : r' = r
  · subst h; simp [Broker.setDelete, Broker.setObj]
  · simp [Broker.setDelete, Broker.setObj, h]

/-- A mark does not make an object of a client, nor a client of an object. -/
@[simp] theorem setDelete_flags_obj :
    ((b.setDelete r d).bobj r').flags.obj = (b.bobj r').flags.obj := by
  by_cases h : r' = r
  · subst h; simp [Broker.setDelete, Broker.setObj]
  · simp [Broker.setDelete, Broker.setObj, h]

/-- Only the entry that is marked changes its mark. -/
theorem setDelete_flags_delete :
    ((b.setDelete r d).bobj r').flags.delete = if r' = r then d else (b.bobj r').flags.delete := by
  by_cases h : r' = r
  · subst h; simp [Broker.setDelete, Broker.setObj]
  · simp [Broker.setDelete, Broker.setObj, h]

@[simp] theorem moveToTail_objList : (b.moveToTail r).objList
    = Circleq.insertTail (Circleq.remove b.objList r) r := rfl
@[simp] theorem moveToTail_clientList : (b.moveToTail r).clientList = b.clientList := rfl
@[simp] theorem moveToTail_id : (b.moveToTail r).id = (b.id + 1) % 2 ^ 64 := rfl
@[simp] theorem moveToTail_increments : (b.moveToTail r).increments = b.increments + 1 := rfl

@[simp] theorem moveToTail_flags : ((b.moveToTail r).bobj r').flags = (b.bobj r').flags := by
  simp [Broker.moveToTail]

/-- The entry at the tail has the counter as its id. -/
theorem moveToTail_bobj_id : ((b.moveToTail r).bobj r').id
    = if r' = r then (b.id + 1) % 2 ^ 64 else (b.bobj r').id := by
  simp [Broker.moveToTail, setId_bobj_id]

omit [DecidableEq Obj] in
@[simp] theorem incConsumed_objList : (b.incConsumed c).objList = b.objList := rfl
omit [DecidableEq Obj] in
@[simp] theorem incConsumed_clientList : (b.incConsumed c).clientList = b.clientList := rfl
omit [DecidableEq Obj] in
@[simp] theorem incConsumed_id : (b.incConsumed c).id = b.id := rfl
omit [DecidableEq Obj] in
@[simp] theorem incConsumed_increments : (b.incConsumed c).increments = b.increments := rfl
omit [DecidableEq Obj] in
@[simp] theorem incConsumed_bobj : (b.incConsumed c).bobj = b.bobj := rfl

/-- The cursor stands right behind what it has read. -/
@[simp] theorem advance_objList : (b.advance c r).objList
    = Circleq.insertAfter (Circleq.remove b.objList (.client c)) r (.client c) := rfl
@[simp] theorem advance_clientList : (b.advance c r).clientList = b.clientList := rfl
@[simp] theorem advance_id : (b.advance c r).id = b.id := rfl
@[simp] theorem advance_increments : (b.advance c r).increments = b.increments := rfl

@[simp] theorem advance_flags : ((b.advance c r).bobj r').flags = (b.bobj r').flags := by
  simp [Broker.advance]

/-- The cursor has the id of what it has read. -/
theorem advance_bobj_id : ((b.advance c r).bobj r').id
    = if r' = .client c then (b.bobj r).id else (b.bobj r').id := by
  simp [Broker.advance, setId_bobj_id]

end Assignments
