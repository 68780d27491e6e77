/-
# The route broker

The model of `route_broker.c`: one broker for each priority level, all of them over
the same store of routes.  A route (`struct rib_route`) lives on the heap at an
address and is known to the outside by its topic, through the hash table
`route_hashtbl`; the levels list routes by address.

* The heap holds the routes that are linked in a level.  The `route` that
  `object_broker_publish` allocates and fills in is a value of its own until it is
  linked, at an address that is free then.
* `topic_gen` and `copy_obj` are the callbacks of `struct object_broker_init`.
  `topic_gen` is a pure function; `copy_obj` may fail (`none` for `NULL`).
* A `route_broker_client` and its `broker_client`s in the levels go by the same name.
* Each critical section of `route_broker_mutex` is one function; what a function does
  outside of the mutex is a function of its own (`publishPrepare`, `linkClient`,
  `unlinkClient`).
-/
import RouteBroker.Broker

open Circleq

/-! ## The state -/

/-- `ROUTE_PRIORITY_MAX`. -/
abbrev routePriorityMax : ℕ := 3

/-- `enum route_priority`: `ROUTE_CONNECTED`, `ROUTE_IGP`, `ROUTE_OTHER`. -/
abbrev Level := Fin routePriorityMax

instance neZeroRoutePriorityMax : NeZero routePriorityMax := ⟨by decide⟩

/-- `struct rib_route`.  The field `b_obj` is kept by the broker that lists the route. -/
structure RibRoute (Topic Data : Type*) where
  refcount : UInt32 := 0
  pri : Level
  topic : Topic
  data : Data
  deriving DecidableEq

/-- The routes and `route_hashtbl`. -/
structure Store (Addr Topic Data : Type*) where
  heap : Addr → Option (RibRoute Topic Data)
  hash : Topic → Option Addr

/-- What a `pthread_cond_t` is good for. -/
inductive Cond
  | uninit
  | ready
  | destroyed
  deriving DecidableEq

/-- `struct route_broker_client`. -/
structure RouteBrokerClient (Cl : Type*) where
  client : Level → Option Cl := fun _ => none
  cond : Cond := .uninit

/-- The global state of `route_broker.c`. -/
structure RouteBroker (Addr Cl Topic Data : Type*) where
  /-- `route_broker` -/
  level : Level → Broker Addr Cl
  store : Store Addr Topic Data
  rclient : Cl → RouteBrokerClient Cl
  /-- `client_list_head` -/
  clientList : List Cl
  processed : ℕ
  ignored : ℕ
  dropped : ℕ

/-- The callbacks of `struct object_broker_init`: the result of `topic_gen` is its
return value, the topic and the delete flag. -/
structure ObjectBrokerInit (Topic Data : Type*) where
  topicGen : Data → ℤ × Topic × Bool
  copyObj : Data → Option Data

variable {Addr Cl Topic Data : Type*}

/-- The state `route_broker_init` leaves. -/
def routeBrokerInit : RouteBroker Addr Cl Topic Data where
  level := fun _ => brokerCreate
  store := { heap := fun _ => none, hash := fun _ => none }
  rclient := fun _ => {}
  clientList := []
  processed := 0
  ignored := 0
  dropped := 0

variable [DecidableEq Addr] [DecidableEq Cl] [DecidableEq Topic]

/-! ## Routes -/

/-- `zhash_insert`: an entry that is there stays. -/
def Store.zhashInsert (s : Store Addr Topic Data) (t : Topic) (a : Addr) :
    Store Addr Topic Data :=
  match s.hash t with
  | some _ => s
  | none => { s with hash := Function.update s.hash t (some a) }

/-- `rib_route_delete`. -/
def ribRouteDelete (a : Addr) (s : Store Addr Topic Data) : Store Addr Topic Data :=
  match s.heap a with
  | none => s
  | some r =>
    let r := { r with refcount := r.refcount - 1 }
    if r.refcount = 0 then
      { heap := Function.update s.heap a none, hash := Function.update s.hash r.topic none }
    else { s with heap := Function.update s.heap a (some r) }

/-- `rib_route_lock`. -/
def ribRouteLock (a : Addr) (s : Store Addr Topic Data) : Store Addr Topic Data :=
  match s.heap a with
  | none => s
  | some r => { s with heap := Function.update s.heap a (some { r with refcount := r.refcount + 1 }) }

/-- `route_broker_ops`. -/
def routeBrokerOps : BrokerOps Addr Cl (Store Addr Topic Data) where
  lockObj r s := match r with
    | .obj a => ribRouteLock a s
    | .client _ => s
  unlockObj r s := match r with
    | .obj a => ribRouteDelete a s
    | .client _ => s

/-- `route_broker_client_get`. -/
def routeBrokerClientGet (copyObj : Data → Option Data) (r : Ref Addr Cl)
    (s : Store Addr Topic Data) : Option Data :=
  match r with
  | .obj a => (s.heap a).bind fun r => copyObj r.data
  | .client _ => none

/-- `route_broker_client_ops`: the same callback for added and for deleted objects. -/
def routeBrokerClientOps (copyObj : Data → Option Data) :
    BrokerClientOps Addr Cl (Store Addr Topic Data) Data where
  addObj r _ s := routeBrokerClientGet copyObj r s
  delObj r _ s := routeBrokerClientGet copyObj r s

/-! ## The levels -/

namespace RouteBroker

variable (rb : RouteBroker Addr Cl Topic Data)

/-- Call a function of `broker.c` on `route_broker[i]`. -/
def onLevel (i : Level) (bs : Broker Addr Cl × Store Addr Topic Data) :
    RouteBroker Addr Cl Topic Data :=
  { rb with level := Function.update rb.level i bs.1, store := bs.2 }

/-- `broker_add_obj(route_broker[route->pri], route, ...)`, with the route put on the heap at `a`. -/
def addObj (a : Addr) (route : RibRoute Topic Data) : RouteBroker Addr Cl Topic Data :=
  rb.onLevel route.pri (brokerAddObj routeBrokerOps (rb.level route.pri)
    { rb.store with heap := Function.update rb.store.heap a (some route) } a 0)

/-- `broker_del_obj_now(route_broker[i], a)`. -/
def delObjNow (i : Level) (a : Addr) : RouteBroker Addr Cl Topic Data :=
  rb.onLevel i (brokerDelObjNow routeBrokerOps (rb.level i) rb.store (.obj a))

/-- `broker_del_obj(route_broker[i], a, ...)`. -/
def delObj (i : Level) (a : Addr) : RouteBroker Addr Cl Topic Data :=
  rb.onLevel i (brokerDelObj routeBrokerOps (rb.level i) rb.store a)

/-- `broker_upd_obj(route_broker[i], a, ...)`. -/
def updObj (i : Level) (a : Addr) : RouteBroker Addr Cl Topic Data :=
  rb.onLevel i (brokerUpdObj (rb.level i) a, rb.store)

/-- Swap the data of the route `r` at `a` to the most recent version. -/
def setData (a : Addr) (r : RibRoute Topic Data) (d : Data) : RouteBroker Addr Cl Topic Data :=
  { rb with store :=
    { rb.store with heap := Function.update rb.store.heap a (some { r with data := d }) } }

/-- `zhash_insert(route_hashtbl, t, a)`. -/
def zhashInsert (t : Topic) (a : Addr) : RouteBroker Addr Cl Topic Data :=
  { rb with store := rb.store.zhashInsert t a }

/-! ## Publishing -/

/-- What `object_broker_publish` does before it takes the mutex, given what
`rib_route_create` returns: the filled in route and whether it is a delete, or nothing
if the message is dropped or ignored. -/
def publishPrepare (init : ObjectBrokerInit Topic Data) (alloc : Option Addr) (obj : Data)
    (pri : Level) :
    RouteBroker Addr Cl Topic Data × Option (Addr × RibRoute Topic Data × Bool) :=
  let rb := { rb with processed := rb.processed + 1 }
  match alloc with
  | none => ({ rb with dropped := rb.dropped + 1 }, none)
  | some a =>
    match init.copyObj obj with
    | none => ({ rb with dropped := rb.dropped + 1 }, none)
    | some data =>
      let (rc, topic, del) := init.topicGen data
      -- Some routes such as local broadcast are ignored
      if rc ≤ 0 then ({ rb with ignored := rb.ignored + 1 }, none)
      else (rb, some (a, { pri := pri, topic := topic, data := data }, del))

/-- `data_available_for_client`: the first level whose id differs from that of the
client, `none` for `-1`.  A client has a `broker_client` in every level; the code
follows the pointer without a test. -/
def dataAvailableForClient (c : Cl) : Option Level :=
  (List.finRange routePriorityMax).find? fun i =>
    ((rb.rclient c).client i).any fun k => ((rb.level i).bobj (.client k)).id ≠ (rb.level i).id

/-- `route_broker_wake_clients`: the clients that are signalled. -/
def wakeClients : List Cl :=
  rb.clientList.filter fun c => (rb.dataAvailableForClient c).isSome

/-- The critical section of `object_broker_publish` up to the wake-up, for a filled in
`route`. -/
def publishRoute (a : Addr) (route : RibRoute Topic Data) (del : Bool) :
    RouteBroker Addr Cl Topic Data :=
  match rb.store.hash route.topic with
  | some h =>
    match rb.store.heap h with
    | some hashed =>
      if del then
        if hashed.pri > route.pri then
          -- add then delete as we can't add a 'delete'
          ((rb.delObjNow hashed.pri h).addObj a route).delObj route.pri a
        else (rb.setData h hashed route.data).delObj hashed.pri h
      else
        if hashed.pri > route.pri then
          ((rb.delObjNow hashed.pri h).addObj a route).zhashInsert route.topic a
        -- also at a lower priority the route stays where it is
        else (rb.setData h hashed route.data).updObj hashed.pri h
    | none => rb
  | none =>
    if del then rb else (rb.addObj a route).zhashInsert route.topic a

/-- `object_broker_publish` in one go: the state afterwards and the signalled clients. -/
def objectBrokerPublish (init : ObjectBrokerInit Topic Data) (alloc : Option Addr) (obj : Data)
    (pri : Level) : RouteBroker Addr Cl Topic Data × List Cl :=
  match rb.publishPrepare init alloc obj pri with
  | (rb, none) => (rb, [])
  | (rb, some (a, route, del)) =>
    let rb := rb.publishRoute a route del
    (rb, rb.wakeClients)

/-! ## Clients -/

/-- `route_broker_client_get_data`: the data and the level it comes from; no level when
the wait times out. -/
def clientGetData (copyObj : Data → Option Data) (c : Cl) :
    (Option Data × Option Level) × RouteBroker Addr Cl Topic Data :=
  match rb.dataAvailableForClient c with
  | none => ((none, none), rb)
  | some i =>
    let r := brokerClientGetData routeBrokerOps (routeBrokerClientOps copyObj) (rb.level i)
      rb.store ((rb.rclient c).client i)
    ((r.1, some i), rb.onLevel i r.2)

/-- The critical section of `route_broker_client_create`, given what the allocations in
the levels return.  The test for failure in its loop, `!rclient->client`, compares the
array itself with `NULL` and never holds, so that the loop always runs to its end. -/
def clientCreateLocked (c : Cl) (calloc : Level → Option Cl) (strdup : Level → Option String) :
    RouteBroker Addr Cl Topic Data :=
  { rb with
    level := fun i => (brokerClientCreate (rb.level i) (calloc i) (strdup i)).2
    rclient := Function.update rb.rclient c
      { client := fun i => (brokerClientCreate (rb.level i) (calloc i) (strdup i)).1 } }

/-- `pthread_cond_init(&rclient->client_cond, NULL)`, when it succeeds. -/
def condInit (c : Cl) : RouteBroker Addr Cl Topic Data :=
  { rb with rclient := Function.update rb.rclient c { rb.rclient c with cond := .ready } }

/-- The end of `route_broker_client_create`. -/
def linkClient (c : Cl) : RouteBroker Addr Cl Topic Data :=
  { rb with clientList := insertHead rb.clientList c }

/-- `broker_client_delete(rclient->client[i])`.  The failure path of
`route_broker_client_create` tests for `NULL` first; `route_broker_client_delete` does
not, and is undefined for a client that lacks a level. -/
def clientDeleteLevel (c : Cl) (i : Level) : RouteBroker Addr Cl Topic Data :=
  match (rb.rclient c).client i with
  | none => rb
  | some k => rb.onLevel i (brokerClientDelete routeBrokerOps (rb.level i) rb.store k)

/-- The loop over the levels of `route_broker_client_delete`, and of the failure path of
`route_broker_client_create`. -/
def clientDeleteLevels (c : Cl) : RouteBroker Addr Cl Topic Data :=
  (List.finRange routePriorityMax).foldl (fun rb i => rb.clientDeleteLevel c i) rb

/-- The critical section of `route_broker_client_delete`. -/
def clientDeleteLocked (c : Cl) : RouteBroker Addr Cl Topic Data :=
  let rb := rb.clientDeleteLevels c
  { rb with rclient := Function.update rb.rclient c { rb.rclient c with cond := .destroyed } }

/-- The end of `route_broker_client_delete`. -/
def unlinkClient (c : Cl) : RouteBroker Addr Cl Topic Data :=
  { rb with clientList := remove rb.clientList c }

/-- `route_broker_client_create` in one go, with allocations that succeed. -/
def clientCreate (c : Cl) (name : String) : RouteBroker Addr Cl Topic Data :=
  ((rb.clientCreateLocked c (fun _ => some c) (fun _ => some name)).condInit c).linkClient c

/-- `route_broker_client_delete` in one go. -/
def clientDelete (c : Cl) : RouteBroker Addr Cl Topic Data :=
  (rb.clientDeleteLocked c).unlinkClient c

end RouteBroker
