/-
# Who frees the data

`route_broker.c` copies every message with `copy_obj` and frees the copies with `free_obj`:
a route owns the data it points to, `object_broker_publish` owns the copy it made until it
is linked or freed, and a client owns what `route_broker_client_get_data` returned until it
calls `route_broker_client_free_data`.  In `Route.lean` the data are values.  Here a route
holds a pointer, and the copies live in a `Pool` in which every `copy_obj` allocates and every
`free_obj` frees, where the source does.

The two levels are related by reading the pointers (`Represents`): each operation does with
pointers what the one of `Route.lean` does with data, and every copy that is allocated has
exactly one owner before and after.

Main results: `Represents.publish`, `Represents.clientGetData`.
-/
import RouteBroker.Ownership
import RouteBroker.RouteCopy

open Circleq Broker

variable {Addr Cl Topic Data Ptr : Type*}

/-! ## One broker over two stores

The functions of `broker.c` pass the store to the callbacks and look at nothing in it, so
that related stores stay related. -/

section Stores

variable {Obj Ext Ext' Msg Msg' : Type*} [DecidableEq Obj] [DecidableEq Cl]
  {ops : BrokerOps Obj Cl Ext} {ops' : BrokerOps Obj Cl Ext'} {R : Ext' → Ext → Prop}
  {b : Broker Obj Cl} {s : Ext} {s' : Ext'}

/-- The same broker over related stores. -/
def Agree (R : Ext' → Ext → Prop) (x' : Broker Obj Cl × Ext') (x : Broker Obj Cl × Ext) : Prop :=
  x'.1 = x.1 ∧ R x'.2 x.2

/-- `unlock_obj` keeps the stores related. -/
def Unlocks (R : Ext' → Ext → Prop) (ops' : BrokerOps Obj Cl Ext') (ops : BrokerOps Obj Cl Ext) :
    Prop :=
  ∀ r s' s, R s' s → R (ops'.unlockObj r s') (ops.unlockObj r s)

theorem agree_delObjNow (h : Unlocks R ops' ops) (hs : R s' s) (r : Ref Obj Cl) :
    Agree R (brokerDelObjNow ops' b s' r) (brokerDelObjNow ops b s r) :=
  ⟨rfl, h r s' s hs⟩

theorem agree_delObj (h : Unlocks R ops' ops) (hs : R s' s) (o : Obj) :
    Agree R (brokerDelObj ops' b s' o) (brokerDelObj ops b s o) := by
  unfold brokerDelObj
  split
  · exact agree_delObjNow h hs _
  · exact ⟨rfl, hs⟩

theorem agree_sweep (h : Unlocks R ops' ops) (rs : List (Ref Obj Cl)) (hs : R s' s) :
    Agree R (sweep ops' rs (b, s')) (sweep ops rs (b, s)) := by
  induction rs generalizing b s s' with
  | nil => exact ⟨rfl, hs⟩
  | cons r rs ih =>
    unfold sweep
    split_ifs
    · exact ih (h r s' s hs)
    · exact ih hs
    · exact ih hs

theorem agree_clientDelete (h : Unlocks R ops' ops) (hs : R s' s) (c : Cl) :
    Agree R (brokerClientDelete ops' b s' c) (brokerClientDelete ops b s c) :=
  agree_sweep h _ hs

/-- A read hands out related data. -/
theorem agree_getData (cops' : BrokerClientOps Obj Cl Ext' Msg')
    (cops : BrokerClientOps Obj Cl Ext Msg) {Q : Option Msg' → Option Msg → Prop}
    (h : Unlocks R ops' ops) (hs : R s' s) (hnull : Q none none)
    (hadd : ∀ r o, Q (cops'.addObj r o s') (cops.addObj r o s))
    (hdel : ∀ r o, Q (cops'.delObj r o s') (cops.delObj r o s)) (c : Option Cl) :
    Q (brokerClientGetData ops' cops' b s' c).1 (brokerClientGetData ops cops b s c).1 ∧
      Agree R (brokerClientGetData ops' cops' b s' c).2
        (brokerClientGetData ops cops b s c).2 := by
  unfold brokerClientGetData
  cases c with
  | none => exact ⟨hnull, rfl, hs⟩
  | some c =>
    dsimp only
    cases brokerGetNextDataObj b (.client c) with
    | none => exact ⟨hnull, rfl, hs⟩
    | some r =>
      dsimp only
      constructor
      · split
        · exact hdel r _
        · exact hadd r _
      · split
        · exact ⟨rfl, h r s' s hs⟩
        · exact ⟨rfl, hs⟩

end Stores

/-! ## The model with pointers -/

/-- `route_broker.c` with `route->data` a pointer, and the copies. -/
structure DataBroker (Addr Cl Topic Ptr Data : Type*) where
  rb : RouteBroker Addr Cl Topic Ptr
  pool : Pool Ptr Data

section Model

variable [DecidableEq Addr] [DecidableEq Cl] [DecidableEq Topic] [DecidableEq Ptr]

/-- `rib_route_delete`. -/
def ribRouteDeleteData (a : Addr) (sp : Store Addr Topic Ptr × Pool Ptr Data) :
    Store Addr Topic Ptr × Pool Ptr Data :=
  match sp.1.heap a with
  | none => sp
  | some r =>
    (ribRouteDelete a sp.1, if r.refcount - 1 = 0 then sp.2.free r.data else sp.2)

/-- `route_broker_ops`. -/
def dataBrokerOps : BrokerOps Addr Cl (Store Addr Topic Ptr × Pool Ptr Data) where
  lockObj r sp := (routeBrokerOps.lockObj r sp.1, sp.2)
  unlockObj r sp := match r with
    | .obj a => ribRouteDeleteData a sp
    | .client _ => sp

/-- What `route_broker_client_get` copies: the outer `none` is `NULL`, the inner one a read
of freed memory. -/
def dataClientGet (copy : Data → Data) (r : Ref Addr Cl)
    (sp : Store Addr Topic Ptr × Pool Ptr Data) : Option (Option Data) :=
  match r with
  | .obj a => (sp.1.heap a).map fun r => (sp.2.live r.data).map copy
  | .client _ => none

/-- `route_broker_client_ops`. -/
def dataClientOps (copy : Data → Data) :
    BrokerClientOps Addr Cl (Store Addr Topic Ptr × Pool Ptr Data) (Option Data) where
  addObj r _ sp := dataClientGet copy r sp
  delObj r _ sp := dataClientGet copy r sp

namespace DataBroker

variable (w : DataBroker Addr Cl Topic Ptr Data)

/-- Call a function of `broker.c` on `route_broker[i]`. -/
def onLevel (i : Level) (x : Broker Addr Cl × Store Addr Topic Ptr × Pool Ptr Data) :
    DataBroker Addr Cl Topic Ptr Data :=
  { rb := w.rb.onLevel i (x.1, x.2.1), pool := x.2.2 }

/-- `broker_add_obj(route_broker[route->pri], route, ...)`. -/
def addObj (a : Addr) (route : RibRoute Topic Ptr) : DataBroker Addr Cl Topic Ptr Data :=
  { w with rb := w.rb.addObj a route }

/-- `broker_del_obj_now(route_broker[i], a)`. -/
def delObjNow (i : Level) (a : Addr) : DataBroker Addr Cl Topic Ptr Data :=
  w.onLevel i (brokerDelObjNow dataBrokerOps (w.rb.level i) (w.rb.store, w.pool) (.obj a))

/-- `broker_del_obj(route_broker[i], a, ...)`. -/
def delObj (i : Level) (a : Addr) : DataBroker Addr Cl Topic Ptr Data :=
  w.onLevel i (brokerDelObj dataBrokerOps (w.rb.level i) (w.rb.store, w.pool) a)

/-- `broker_upd_obj(route_broker[i], a, ...)`. -/
def updObj (i : Level) (a : Addr) : DataBroker Addr Cl Topic Ptr Data :=
  { w with rb := w.rb.updObj i a }

/-- Free the data of the route `r` at `a` and put `p` in its place. -/
def swapData (a : Addr) (r : RibRoute Topic Ptr) (p : Ptr) : DataBroker Addr Cl Topic Ptr Data :=
  { rb := w.rb.setData a r p, pool := w.pool.free r.data }

/-- `route_broker_free_obj(p)`. -/
def freeObj (p : Ptr) : DataBroker Addr Cl Topic Ptr Data :=
  { w with pool := w.pool.free p }

/-- `zhash_insert(route_hashtbl, t, a)`. -/
def zhashInsert (t : Topic) (a : Addr) : DataBroker Addr Cl Topic Ptr Data :=
  { w with rb := w.rb.zhashInsert t a }

/-- The critical section of `object_broker_publish`.  A hash table entry for a route that
was freed is a fault. -/
def publishRoute (a : Addr) (route : RibRoute Topic Ptr) (del : Bool) :
    DataBroker Addr Cl Topic Ptr Data :=
  match w.rb.store.hash route.topic with
  | some h =>
    match w.rb.store.heap h with
    | some hashed =>
      if del then
        if hashed.pri > route.pri then
          ((w.delObjNow hashed.pri h).addObj a route).delObj route.pri a
        else (w.swapData h hashed route.data).delObj hashed.pri h
      else
        if hashed.pri > route.pri then
          ((w.delObjNow hashed.pri h).addObj a route).zhashInsert route.topic a
        else (w.swapData h hashed route.data).updObj hashed.pri h
    | none => { w with pool := { w.pool with fault := true } }
  | none =>
    if del then w.freeObj route.data else (w.addObj a route).zhashInsert route.topic a

/-- `object_broker_publish`: the route is allocated at `a`, and `copy_obj` returns `dup`. -/
def publish (gen : Data → ℤ × Topic × Bool) (copy : Data → Data) (a : Addr) (dup : Option Ptr)
    (obj : Data) (pri : Level) : DataBroker Addr Cl Topic Ptr Data :=
  match dup with
  | none => { w with rb := { w.rb.counted with dropped := w.rb.dropped + 1 } }
  | some p =>
    let w := { w with pool := w.pool.alloc p (copy obj) }
    let (rc, topic, del) := gen (copy obj)
    if rc ≤ 0 then { w with rb := { w.rb.counted with ignored := w.rb.ignored + 1 } }.freeObj p
    else { w with rb := w.rb.counted }.publishRoute a { pri := pri, topic := topic, data := p } del

/-- `route_broker_client_get_data`: what it returns, and the state.  The copy that
`copy_obj` returns at `dup` is made before the object is unlinked, as `dataClientGet` reads
the store before. -/
def clientGetData (copy : Data → Data) (dup : Option Ptr) (c : Cl) :
    Option (Ptr × Data) × DataBroker Addr Cl Topic Ptr Data :=
  match w.rb.dataAvailableForClient c with
  | none => (none, w)
  | some i =>
    let x := brokerClientGetData dataBrokerOps (dataClientOps copy) (w.rb.level i)
      (w.rb.store, w.pool) ((w.rb.rclient c).client i)
    let w := w.onLevel i x.2
    match x.1, dup with
    | some (some d), some p => (some (p, d), { w with pool := w.pool.alloc p d })
    | some none, _ => (none, { w with pool := { w.pool with fault := true } })
    | _, _ => (none, w)

/-- `route_broker_client_create`. -/
def clientCreate (c : Cl) (name : String) : DataBroker Addr Cl Topic Ptr Data :=
  { w with rb := w.rb.clientCreate c name }

/-- `broker_client_delete(rclient->client[i])`. -/
def clientDeleteLevel (c : Cl) (i : Level) : DataBroker Addr Cl Topic Ptr Data :=
  match (w.rb.rclient c).client i with
  | none => w
  | some k => w.onLevel i (brokerClientDelete dataBrokerOps (w.rb.level i) (w.rb.store, w.pool) k)

/-- `route_broker_client_delete`. -/
def clientDelete (c : Cl) : DataBroker Addr Cl Topic Ptr Data :=
  let w := (List.finRange routePriorityMax).foldl (fun w i => w.clientDeleteLevel c i) w
  let rclient := Function.update w.rb.rclient c { w.rb.rclient c with cond := .destroyed }
  { w with rb := { w.rb with rclient := rclient }.unlinkClient c }

end DataBroker

end Model

/-! ## Owners -/

/-- Who may own a copy: a route, a client, or the publish that is going on. -/
inductive DataOwner (Addr Cl : Type*)
  | route (a : Addr)
  | client (c : Cl)
  | publisher

/-- A route owns its data, a client what `holder` says, and the publisher `held`. -/
def Owns (holder : Ptr → Option (Cl × Data)) (held : Option (Ptr × Data))
    (heap : Addr → Option (RibRoute Topic Ptr)) : DataOwner Addr Cl → Ptr → Prop
  | .route a, p => ∃ r, heap a = some r ∧ r.data = p
  | .client c, p => ∃ d, holder p = some (c, d)
  | .publisher, p => ∃ d, held = some (p, d)

/-- The route with its data instead of the pointer. -/
def RibRoute.withData (r : RibRoute Topic Ptr) (d : Data) : RibRoute Topic Data where
  refcount := r.refcount
  pri := r.pri
  topic := r.topic
  data := d

@[simp] theorem withData_pri (r : RibRoute Topic Ptr) (d : Data) : (r.withData d).pri = r.pri := rfl
@[simp] theorem withData_topic (r : RibRoute Topic Ptr) (d : Data) :
    (r.withData d).topic = r.topic := rfl
@[simp] theorem withData_data (r : RibRoute Topic Ptr) (d : Data) : (r.withData d).data = d := rfl

/-- The routes with their data. -/
def readHeap (heap : Addr → Option (RibRoute Topic Ptr)) (P : Pool Ptr Data) (a : Addr) :
    Option (RibRoute Topic Data) :=
  (heap a).bind fun r => (P.live r.data).map r.withData

/-- The store with data instead of pointers. -/
def Store.read (s : Store Addr Topic Ptr) (P : Pool Ptr Data) : Store Addr Topic Data where
  heap := readHeap s.heap P
  hash := s.hash

/-- Every copy has its owner, what clients and the publisher have is as they got it, and
`s` is the store with the data. -/
structure Reads (holder : Ptr → Option (Cl × Data)) (held : Option (Ptr × Data))
    (sp : Store Addr Topic Ptr × Pool Ptr Data) (s : Store Addr Topic Data) : Prop where
  owned : sp.2.Owned (Owns holder held sp.1.heap)
  intact : ∀ p c d, holder p = some (c, d) → sp.2.live p = some d
  inHand : ∀ p d, held = some (p, d) → sp.2.live p = some d
  read : s = sp.1.read sp.2

section Reading

variable {heap : Addr → Option (RibRoute Topic Ptr)} {P P' : Pool Ptr Data}
  {holder : Ptr → Option (Cl × Data)} {held : Option (Ptr × Data)} {a : Addr}
  {r r' : RibRoute Topic Ptr} {d : Data}

theorem readHeap_none (h : heap a = none) : readHeap heap P a = none := by
  unfold readHeap
  rw [h, Option.bind_none]

theorem readHeap_some (h : heap a = some r) (hd : P.live r.data = some d) :
    readHeap heap P a = some (r.withData d) := by
  unfold readHeap
  rw [h, Option.bind_some, hd, Option.map_some]

/-- A route that is there has data. -/
theorem live_of_heap (hown : P.Owned (Owns holder held heap)) (h : heap a = some r) :
    ∃ d, P.live r.data = some d := hown.exists_live (o := DataOwner.route a) ⟨r, h, rfl⟩

/-- No two routes share their data. -/
theorem data_ne_of_heap (hown : P.Owned (Owns holder held heap)) {a' : Addr}
    (h : heap a = some r) (h' : heap a' = some r') (hne : a' ≠ a) : r'.data ≠ r.data := by
  intro heq
  have hsame := hown.unique r.data (.route a) (.route a') ⟨r, h, rfl⟩ ⟨r', h', heq⟩
  cases hsame
  exact hne rfl

variable [DecidableEq Addr]

/-- A write to one route, when the data of the others stay. -/
theorem readHeap_update (x : Option (RibRoute Topic Ptr))
    (hlive : ∀ a' r', a' ≠ a → heap a' = some r' → P'.live r'.data = P.live r'.data) :
    readHeap (Function.update heap a x) P' = Function.update (readHeap heap P) a
      (x.bind fun r => (P'.live r.data).map r.withData) := by
  funext a'
  by_cases ha : a' = a
  · subst ha
    unfold readHeap
    rw [Function.update_self, Function.update_self]
  · rw [Function.update_of_ne ha]
    unfold readHeap
    rw [Function.update_of_ne ha]
    apply Option.bind_congr
    intro r' hr'
    rw [hlive a' r' ha hr']

/-- Writing a route that keeps its data. -/
theorem readHeap_set (hd : P.live r.data = some d) :
    readHeap (Function.update heap a (some r)) P
      = Function.update (readHeap heap P) a (some (r.withData d)) := by
  rw [readHeap_update (some r) fun _ _ _ _ => rfl, Option.bind_some, hd, Option.map_some]

theorem owned_set (hown : P.Owned (Owns holder held heap)) (hr : heap a = some r)
    (hdata : r'.data = r.data) :
    P.Owned (Owns holder held (Function.update heap a (some r'))) := by
  apply hown.congr
  rintro (a' | c | _) q
  · by_cases ha : a' = a
    · subst ha
      simp [Owns, hr, hdata]
    · simp [Owns, ha]
  · exact Iff.rfl
  · exact Iff.rfl

/-- The publisher hands its copy over to the route it links. -/
theorem owned_link (hown : P.Owned (Owns holder (some (r.data, d)) heap)) (hfree : heap a = none) :
    P.Owned (Owns holder none (Function.update heap a (some r))) := by
  apply hown.move (o := DataOwner.publisher) (e := DataOwner.route a) ⟨d, rfl⟩
  rintro (a' | c | _) q
  · by_cases ha : a' = a
    · subst ha
      simp [Owns, hfree, eq_comm]
    · simp [Owns, ha]
  · simp [Owns]
  · simp [Owns, eq_comm]

variable [DecidableEq Ptr]

/-- A route goes, and its data with it. -/
theorem owned_unlink (hown : P.Owned (Owns holder held heap)) (hr : heap a = some r) :
    (P.free r.data).Owned (Owns holder held (Function.update heap a none)) := by
  apply hown.free (o := DataOwner.route a) ⟨r, hr, rfl⟩
  rintro (a' | c | _) q
  · by_cases ha : a' = a
    · subst ha
      simp only [Owns, Function.update_self, hr, Option.some.injEq, exists_eq_left', true_and]
      simp [eq_comm]
    · simp [Owns, ha]
  · simp [Owns]
  · simp [Owns]

theorem readHeap_unlink (hown : P.Owned (Owns holder held heap)) (hr : heap a = some r) :
    readHeap (Function.update heap a none) (P.free r.data)
      = Function.update (readHeap heap P) a none := by
  apply readHeap_update none
  intro a' r' hne hr'
  rw [hown.free_eq (o := DataOwner.route a) ⟨r, hr, rfl⟩]
  exact Function.update_of_ne (data_ne_of_heap hown hr hr' hne) _ _

omit [DecidableEq Addr] in
/-- What is no route's stays as it is. -/
theorem live_unlink (hown : P.Owned (Owns holder held heap)) (hr : heap a = some r)
    {o : DataOwner Addr Cl} {q : Ptr} (ho : Owns holder held heap o q) (hne : ∀ a, o ≠ .route a) :
    (P.free r.data).live q = P.live q :=
  hown.free_live (o := DataOwner.route a) ⟨r, hr, rfl⟩ ho (hne a)

theorem Reads.unlink {s : Store Addr Topic Ptr} (h : Reads holder held (s, P) (s.read P))
    (hr : s.heap a = some r) (hash : Topic → Option Addr) :
    Reads holder held (⟨Function.update s.heap a none, hash⟩, P.free r.data)
      ⟨Function.update (readHeap s.heap P) a none, hash⟩ where
  owned := owned_unlink h.owned hr
  intact := by
    intro p c d hp
    exact (live_unlink h.owned hr (o := .client c) ⟨d, hp⟩ nofun).trans (h.intact p c d hp)
  inHand := by
    intro p d hp
    exact (live_unlink h.owned hr (o := .publisher) ⟨d, hp⟩ nofun).trans (h.inHand p d hp)
  read := by
    unfold Store.read
    rw [readHeap_unlink h.owned hr]

variable [DecidableEq Topic]

/-- `rib_route_delete` frees the data with the route. -/
theorem unlocks_reads (holder : Ptr → Option (Cl × Data)) (held : Option (Ptr × Data)) :
    Unlocks (Reads holder held) (dataBrokerOps : BrokerOps Addr Cl
      (Store Addr Topic Ptr × Pool Ptr Data)) routeBrokerOps := by
  rintro (a | c) ⟨s, P⟩ s' h
  · obtain rfl := h.read
    show Reads holder held (ribRouteDeleteData a (s, P)) (ribRouteDelete a (s.read P))
    unfold ribRouteDeleteData ribRouteDelete Store.read
    dsimp only
    cases hr : s.heap a with
    | none =>
      rw [readHeap_none hr]
      exact h
    | some r =>
      obtain ⟨d, hd⟩ := live_of_heap h.owned hr
      rw [readHeap_some hr hd]
      dsimp only [RibRoute.withData]
      split_ifs with hlast
      · exact h.unlink hr _
      · refine ⟨owned_set h.owned hr rfl, h.intact, h.inHand, ?_⟩
        unfold Store.read
        rw [readHeap_set (r := { r with refcount := r.refcount - 1 }) hd]
        rfl
  · exact h

end Reading

/-! ## The operations -/

/-- The route broker with data instead of pointers. -/
def DataBroker.read (w : DataBroker Addr Cl Topic Ptr Data) : RouteBroker Addr Cl Topic Data where
  level := w.rb.level
  store := w.rb.store.read w.pool
  rclient := w.rb.rclient
  clientList := w.rb.clientList
  processed := w.rb.processed
  ignored := w.rb.ignored
  dropped := w.rb.dropped

/-- `rb` is the route broker with the data, and every copy has its owner. -/
structure Represents (holder : Ptr → Option (Cl × Data)) (held : Option (Ptr × Data))
    (w : DataBroker Addr Cl Topic Ptr Data) (rb : RouteBroker Addr Cl Topic Data) : Prop where
  reads : Reads holder held (w.rb.store, w.pool) rb.store
  read : rb = w.read

section Operations

variable {w : DataBroker Addr Cl Topic Ptr Data} {rb : RouteBroker Addr Cl Topic Data}
  {holder : Ptr → Option (Cl × Data)} {held : Option (Ptr × Data)} {a : Addr}
  {route r : RibRoute Topic Ptr} {p : Ptr} {d : Data} {i : Level} {c : Cl}

theorem represents_of_reads (h : Reads holder held (w.rb.store, w.pool) rb.store)
    (hrb : rb = { w.read with store := rb.store }) : Represents holder held w rb := by
  refine ⟨h, hrb.trans ?_⟩
  rw [h.read]
  rfl

/-- The levels do not depend on what the data are. -/
theorem Represents.onLevel (h : Represents holder held w rb)
    {x' : Broker Addr Cl × Store Addr Topic Ptr × Pool Ptr Data}
    {x : Broker Addr Cl × Store Addr Topic Data} (hx : Agree (Reads holder held) x' x) :
    Represents holder held (w.onLevel i x') (rb.onLevel i x) := by
  obtain ⟨b, s⟩ := x
  obtain ⟨b', s', P'⟩ := x'
  obtain ⟨rfl, hreads⟩ := hx
  obtain rfl := hreads.read
  obtain rfl := h.read
  exact ⟨hreads, rfl⟩

variable [DecidableEq Addr] [DecidableEq Cl] [DecidableEq Topic] [DecidableEq Ptr]

theorem Represents.delObjNow (h : Represents holder held w rb) (i : Level) (a : Addr) :
    Represents holder held (w.delObjNow i a) (rb.delObjNow i a) := by
  have hreads := h.reads
  obtain rfl := h.read
  exact h.onLevel (agree_delObjNow (unlocks_reads holder held) hreads _)

theorem Represents.delObj (h : Represents holder held w rb) (i : Level) (a : Addr) :
    Represents holder held (w.delObj i a) (rb.delObj i a) := by
  have hreads := h.reads
  obtain rfl := h.read
  exact h.onLevel (agree_delObj (unlocks_reads holder held) hreads a)

omit [DecidableEq Topic] [DecidableEq Ptr] in
theorem Represents.updObj (h : Represents holder held w rb) (i : Level) (a : Addr) :
    Represents holder held (w.updObj i a) (rb.updObj i a) := by
  have hreads := h.reads
  obtain rfl := h.read
  have hagree : Agree (Reads holder held) (brokerUpdObj (w.rb.level i) a, w.rb.store, w.pool)
      (brokerUpdObj (w.rb.level i) a, w.rb.store.read w.pool) := ⟨rfl, hreads⟩
  exact h.onLevel hagree

theorem Represents.clientDeleteLevel (h : Represents holder held w rb) (c : Cl) (i : Level) :
    Represents holder held (w.clientDeleteLevel c i) (rb.clientDeleteLevel c i) := by
  have hreads := h.reads
  obtain rfl := h.read
  unfold DataBroker.clientDeleteLevel RouteBroker.clientDeleteLevel DataBroker.read
  dsimp only
  cases (w.rb.rclient c).client i with
  | none => exact h
  | some k => exact h.onLevel (agree_clientDelete (unlocks_reads holder held) hreads k)

omit [DecidableEq Cl] [DecidableEq Topic] in
/-- The publisher's copy takes the place of the data of a route. -/
theorem Represents.swapData (h : Represents holder (some (p, d)) w rb)
    (hr : w.rb.store.heap a = some r) (e : Data) :
    Represents holder none (w.swapData a r p) (rb.setData a (r.withData e) d) := by
  have hreads := h.reads
  obtain rfl := h.read
  have hfree := hreads.unlink hr w.rb.store.hash
  have hheap : Function.update (Function.update w.rb.store.heap a none) a
      (some { r with data := p }) = Function.update w.rb.store.heap a (some { r with data := p }) :=
    Function.update_idem _ _ _
  have howned : (w.pool.free r.data).Owned
      (Owns holder none (Function.update w.rb.store.heap a (some { r with data := p }))) := by
    rw [← hheap]
    exact owned_link (r := { r with data := p }) (d := d) hfree.owned (Function.update_self _ _ _)
  have hread : readHeap (Function.update w.rb.store.heap a (some { r with data := p }))
      (w.pool.free r.data) = Function.update (readHeap w.rb.store.heap w.pool) a
        (some { r.withData e with data := d }) := by
    rw [← hheap, readHeap_set (r := { r with data := p }) (hfree.inHand p d rfl),
      readHeap_unlink hreads.owned hr, Function.update_idem]
    rfl
  have hnew : Reads holder none ((w.swapData a r p).rb.store, (w.swapData a r p).pool)
      (w.read.setData a (r.withData e) d).store :=
    ⟨howned, hfree.intact, nofun, congrArg (Store.mk · w.rb.store.hash) hread.symm⟩
  exact represents_of_reads hnew rfl

omit [DecidableEq Ptr] in
/-- The publisher's copy goes to the route it links. -/
theorem Represents.addObj (h : Represents holder (some (route.data, d)) w rb)
    (hfree : w.rb.store.heap a = none) (hcount : route.refcount = 0) :
    Represents holder none (w.addObj a route) (rb.addObj a (route.withData d)) := by
  have hreads := h.reads
  obtain rfl := h.read
  have hheap := addObj_heap w.rb a route hcount
  have hhash := addObj_hash w.rb a route
  have hread : (w.read.addObj a (route.withData d)).store
      = ⟨Function.update w.read.store.heap a (some { route.withData d with refcount := 1 }),
        w.read.store.hash⟩ := by
    rw [← addObj_heap w.read a (route.withData d) hcount, ← addObj_hash w.read a]
  have hnew : Reads holder none ((w.addObj a route).rb.store, w.pool)
      (w.read.addObj a (route.withData d)).store := by
    refine ⟨?_, hreads.intact, nofun, ?_⟩
    · show w.pool.Owned (Owns holder none (w.rb.addObj a route).store.heap)
      rw [hheap]
      exact owned_link (r := { route with refcount := 1 }) (d := d) hreads.owned hfree
    · show _ = (w.rb.addObj a route).store.read w.pool
      unfold Store.read
      rw [hread, hheap, hhash,
        readHeap_set (r := { route with refcount := 1 }) (hreads.inHand _ d rfl)]
      rfl
  exact represents_of_reads hnew rfl

omit [DecidableEq Addr] [DecidableEq Cl] [DecidableEq Ptr] in
theorem Represents.zhashInsert (h : Represents holder held w rb) (t : Topic) (a : Addr) :
    Represents holder held (w.zhashInsert t a) (rb.zhashInsert t a) := by
  have hreads := h.reads
  obtain rfl := h.read
  have hstore : (w.rb.store.read w.pool).zhashInsert t a
      = (w.rb.store.zhashInsert t a).read w.pool := by
    unfold Store.zhashInsert Store.read
    dsimp only
    cases w.rb.store.hash t <;> rfl
  have hheap : (w.rb.store.zhashInsert t a).heap = w.rb.store.heap := by
    unfold Store.zhashInsert
    cases w.rb.store.hash t <;> rfl
  have hnew : Reads holder held ((w.zhashInsert t a).rb.store, w.pool)
      (w.read.zhashInsert t a).store := by
    refine ⟨?_, hreads.intact, hreads.inHand, hstore⟩
    show w.pool.Owned (Owns holder held (w.rb.store.zhashInsert t a).heap)
    rw [hheap]
    exact hreads.owned
  exact represents_of_reads hnew rfl

omit [DecidableEq Addr] [DecidableEq Cl] [DecidableEq Topic] [DecidableEq Ptr] in
/-- A change of the pool that leaves the data of the routes alone. -/
theorem Represents.repool (h : Represents holder held w rb) {P : Pool Ptr Data}
    {holder' : Ptr → Option (Cl × Data)} {held' : Option (Ptr × Data)}
    (hown : P.Owned (Owns holder' held' w.rb.store.heap))
    (hintact : ∀ p c d, holder' p = some (c, d) → P.live p = some d)
    (hhand : ∀ p d, held' = some (p, d) → P.live p = some d)
    (hlive : ∀ a r, w.rb.store.heap a = some r → P.live r.data = w.pool.live r.data) :
    Represents holder' held' { w with pool := P } rb := by
  obtain rfl := h.read
  have hread : readHeap w.rb.store.heap P = readHeap w.rb.store.heap w.pool := by
    funext a
    apply Option.bind_congr
    intro r hr
    rw [hlive a r hr]
  have hnew : Reads holder' held' (w.rb.store, P) w.read.store :=
    ⟨hown, hintact, hhand, congrArg (Store.mk · w.rb.store.hash) hread.symm⟩
  exact represents_of_reads hnew rfl

omit [DecidableEq Addr] [DecidableEq Cl] [DecidableEq Topic] in
/-- A new copy, which has an owner from the start. -/
theorem Represents.alloc (h : Represents holder held w rb) (hdead : w.pool.live p = none)
    {holder' : Ptr → Option (Cl × Data)} {held' : Option (Ptr × Data)} {o : DataOwner Addr Cl}
    (howns : ∀ o' q, Owns holder' held' w.rb.store.heap o' q ↔
      Owns holder held w.rb.store.heap o' q ∨ o' = o ∧ q = p)
    (hholder : ∀ q c e, holder' q = some (c, e) → q ≠ p ∧ holder q = some (c, e) ∨ q = p ∧ e = d)
    (hheld : ∀ q e, held' = some (q, e) → q ≠ p ∧ held = some (q, e) ∨ q = p ∧ e = d) :
    Represents holder' held' { w with pool := w.pool.alloc p d } rb := by
  have hown := h.reads.owned
  have hne : ∀ {q}, q ≠ p → (w.pool.alloc p d).live q = w.pool.live q :=
    fun hq => Function.update_of_ne hq _ _
  have hself : (w.pool.alloc p d).live p = some d := Function.update_self _ _ _
  apply h.repool (hown.alloc hdead howns)
  · intro q c e hq
    rcases hholder q c e hq with ⟨hqp, hq⟩ | ⟨rfl, rfl⟩
    · rw [hne hqp]
      exact h.reads.intact q c e hq
    · exact hself
  · intro q e hq
    rcases hheld q e hq with ⟨hqp, hq⟩ | ⟨rfl, rfl⟩
    · rw [hne hqp]
      exact h.reads.inHand q e hq
    · exact hself
  · intro a r hr
    apply hne
    intro heq
    obtain ⟨e, he⟩ := live_of_heap hown hr
    rw [heq, hdead] at he
    cases he

omit [DecidableEq Addr] [DecidableEq Cl] [DecidableEq Topic] in
/-- Whoever has a copy in hand frees it. -/
theorem Represents.free (h : Represents holder held w rb)
    {holder' : Ptr → Option (Cl × Data)} {held' : Option (Ptr × Data)} {o : DataOwner Addr Cl}
    (ho : Owns holder held w.rb.store.heap o p) (hroute : ∀ a, .route a ≠ o)
    (howns : ∀ o' q, Owns holder' held' w.rb.store.heap o' q ↔
      Owns holder held w.rb.store.heap o' q ∧ ¬ (o' = o ∧ q = p))
    (hholder : ∀ q c e, holder' q = some (c, e) → q ≠ p ∧ holder q = some (c, e))
    (hheld : ∀ q e, held' = some (q, e) → q ≠ p ∧ held = some (q, e)) :
    Represents holder' held' (w.freeObj p) rb := by
  have hown := h.reads.owned
  have hne : ∀ {q}, q ≠ p → (w.pool.free p).live q = w.pool.live q := by
    intro q hq
    rw [hown.free_eq ho]
    exact Function.update_of_ne hq _ _
  apply h.repool (hown.free ho howns)
  · intro q c e hq
    obtain ⟨hqp, hq⟩ := hholder q c e hq
    rw [hne hqp]
    exact h.reads.intact q c e hq
  · intro q e hq
    obtain ⟨hqp, hq⟩ := hheld q e hq
    rw [hne hqp]
    exact h.reads.inHand q e hq
  · intro a r hr
    have hr' : Owns holder held w.rb.store.heap (.route a) r.data := ⟨r, hr, rfl⟩
    exact hown.free_live ho hr' (hroute a)

omit [DecidableEq Addr] [DecidableEq Cl] [DecidableEq Topic] in
/-- The publisher makes its copy. -/
theorem Represents.copyObj (h : Represents holder none w rb) (hdead : w.pool.live p = none) :
    Represents holder (some (p, d)) { w with pool := w.pool.alloc p d } rb := by
  apply h.alloc hdead (o := .publisher)
  · rintro (a | c | _) q
    · simp [Owns]
    · simp [Owns]
    · simp [Owns, eq_comm]
  · intro q c e hq
    refine Or.inl ⟨?_, hq⟩
    rintro rfl
    have hlive := h.reads.intact _ c e hq
    rw [hdead] at hlive
    cases hlive
  · intro q e hq
    cases hq
    exact Or.inr ⟨rfl, rfl⟩

omit [DecidableEq Addr] [DecidableEq Cl] [DecidableEq Topic] in
/-- The publisher frees its copy. -/
theorem Represents.freeObj (h : Represents holder (some (p, d)) w rb) :
    Represents holder none (w.freeObj p) rb := by
  apply h.free (o := .publisher) ⟨d, rfl⟩ nofun
  · rintro (a | c | _) q
    · simp [Owns]
    · simp [Owns]
    · simp [Owns, eq_comm]
  · intro q c e hq
    refine ⟨?_, hq⟩
    rintro rfl
    have hsame := h.reads.owned.unique q (.client c) .publisher ⟨e, hq⟩ ⟨d, rfl⟩
    cases hsame
  · exact nofun

omit [DecidableEq Addr] [DecidableEq Cl] [DecidableEq Topic] in
/-- A client is handed a copy. -/
theorem Represents.handOut (h : Represents holder none w rb) (hdead : w.pool.live p = none) :
    Represents (Function.update holder p (some (c, d))) none
      { w with pool := w.pool.alloc p d } rb := by
  have hnone : holder p = none := by
    cases hp : holder p with
    | none => rfl
    | some x =>
      have hlive := h.reads.intact p x.1 x.2 hp
      rw [hdead] at hlive
      cases hlive
  apply h.alloc hdead (o := .client c)
  · rintro (a | e | _) q
    · simp [Owns]
    · by_cases hq : q = p
      · subst hq
        simp [Owns, hnone, eq_comm]
      · simp [Owns, hq]
    · simp [Owns]
  · intro q e x hq
    by_cases hqp : q = p
    · subst hqp
      rw [Function.update_self] at hq
      cases hq
      exact Or.inr ⟨rfl, rfl⟩
    · rw [Function.update_of_ne hqp] at hq
      exact Or.inl ⟨hqp, hq⟩
  · exact nofun

omit [DecidableEq Addr] [DecidableEq Cl] [DecidableEq Topic] in
/-- A client frees what it was handed. -/
theorem Represents.freeData (h : Represents holder none w rb) (hp : holder p = some (c, d)) :
    Represents (Function.update holder p none) none (w.freeObj p) rb := by
  apply h.free (o := .client c) ⟨d, hp⟩ nofun
  · rintro (a | e | _) q
    · simp [Owns]
    · by_cases hq : q = p
      · subst hq
        simp [Owns, hp, eq_comm]
      · simp [Owns, hq]
    · simp [Owns]
  · intro q e x hq
    by_cases hqp : q = p
    · rw [hqp, Function.update_self] at hq
      cases hq
    · rw [Function.update_of_ne hqp] at hq
      exact ⟨hqp, hq⟩
  · exact nofun

/-! ### Publishing -/

/-- A free address stays free when another route goes. -/
theorem delObjNow_heap_free {h : Addr} (hr : w.rb.store.heap h = some r)
    (hfree : w.rb.store.heap a = none) (i : Level) : (w.delObjNow i h).rb.store.heap a = none := by
  have hne : a ≠ h := by
    rintro rfl
    rw [hr] at hfree
    cases hfree
  show (ribRouteDeleteData h (w.rb.store, w.pool)).1.heap a = none
  unfold ribRouteDeleteData ribRouteDelete
  dsimp only
  rw [hr]
  dsimp only
  split_ifs
  · exact (Function.update_of_ne hne _ _).trans hfree
  · exact (Function.update_of_ne hne _ _).trans hfree

/-- **A publish frees what it replaces, or its own copy, or nothing.**  Either way the copy
it made ends up with a route or is freed. -/
theorem Represents.publishRoute {gen : Data → ℤ × Topic × Bool}
    (h : Represents holder (some (route.data, d)) w rb) (hs : Sound gen rb)
    (hfree : w.rb.store.heap a = none) (hcount : route.refcount = 0) (del : Bool) :
    Represents holder none (w.publishRoute a route del)
      (rb.publishRoute a (route.withData d) del) := by
  have hown := h.reads.owned
  have hhash : rb.store.hash = w.rb.store.hash := by rw [h.reads.read]; rfl
  have hheap : rb.store.heap = readHeap w.rb.store.heap w.pool := by rw [h.reads.read]; rfl
  unfold DataBroker.publishRoute RouteBroker.publishRoute
  rw [hhash, hheap]
  show Represents _ _ _ (match w.rb.store.hash route.topic with | some _ => _ | none => _)
  cases hh : w.rb.store.hash route.topic with
  | none =>
    dsimp only
    split_ifs
    · exact h.freeObj
    · exact (h.addObj hfree hcount).zhashInsert _ _
  | some x =>
    dsimp only
    cases hr : w.rb.store.heap x with
    | none =>
      -- the hash table has no entry for a route that is gone
      obtain ⟨r, hr', -⟩ := hs.hashed route.topic x (by rw [hhash]; exact hh)
      rw [hheap, readHeap_none hr] at hr'
      cases hr'
    | some hashed =>
      obtain ⟨e, he⟩ := live_of_heap hown hr
      rw [readHeap_some hr he]
      dsimp only
      have hmoved := (h.delObjNow hashed.pri x).addObj (delObjNow_heap_free hr hfree _) hcount
      have hswapped := h.swapData hr e
      by_cases hpri : hashed.pri > route.pri
      · simp only [withData_pri, withData_topic, hpri, if_true]
        split_ifs
        · exact hmoved.delObj _ _
        · exact hmoved.zhashInsert _ _
      · simp only [withData_pri, withData_data, hpri, if_false]
        split_ifs
        · exact hswapped.delObj _ _
        · exact hswapped.updObj _ _

/-! ### Clients -/

omit [DecidableEq Topic] [DecidableEq Ptr] in
theorem Represents.clientCreate (h : Represents holder held w rb) (c : Cl) (name : String) :
    Represents holder held (w.clientCreate c name) (rb.clientCreate c name) := by
  have hreads := h.reads
  obtain rfl := h.read
  exact represents_of_reads hreads rfl

theorem Represents.clientDelete (h : Represents holder held w rb) (c : Cl) :
    Represents holder held (w.clientDelete c) (rb.clientDelete c) := by
  have hfold : ∀ (is : List Level) {w : DataBroker Addr Cl Topic Ptr Data}
      {rb : RouteBroker Addr Cl Topic Data}, Represents holder held w rb →
      Represents holder held (is.foldl (fun w i => w.clientDeleteLevel c i) w)
        (is.foldl (fun rb i => rb.clientDeleteLevel c i) rb) := by
    intro is
    induction is with
    | nil => exact fun h => h
    | cons i is ih => exact fun h => ih (h.clientDeleteLevel c i)
  have hlevels := hfold (List.finRange routePriorityMax) h
  unfold RouteBroker.clientDelete RouteBroker.clientDeleteLocked RouteBroker.clientDeleteLevels
  rw [hlevels.read]
  have hreads := hlevels.reads
  rw [hreads.read] at hreads
  exact represents_of_reads hreads rfl

/-- The client `c` has what it was handed. -/
def hand (holder : Ptr → Option (Cl × Data)) (c : Cl) :
    Option (Ptr × Data) → Ptr → Option (Cl × Data)
  | none => holder
  | some (p, d) => Function.update holder p (some (c, d))

/-- What `copy_obj` returned, where it is asked. -/
def Copied (dup : Option Ptr) (x' : Option (Option Data)) (x : Option Data) : Prop :=
  (x' = none ∧ x = none) ∨ ∃ d, x' = some (some d) ∧ x = dup.map fun _ => d

omit [DecidableEq Addr] [DecidableEq Cl] [DecidableEq Topic] [DecidableEq Ptr] in
theorem copied_clientGet (copy : Data → Data) (dup : Option Ptr)
    {sp : Store Addr Topic Ptr × Pool Ptr Data} {s : Store Addr Topic Data}
    (h : Reads holder held sp s) (r : Ref Addr Cl) :
    Copied dup (dataClientGet copy r sp)
      (routeBrokerClientGet (fun d => dup.map fun _ => copy d) r s) := by
  obtain rfl := h.read
  cases r with
  | client c => exact Or.inl ⟨rfl, rfl⟩
  | obj a =>
    unfold dataClientGet routeBrokerClientGet Store.read
    dsimp only
    cases hr : sp.1.heap a with
    | none =>
      rw [readHeap_none hr]
      exact Or.inl ⟨rfl, rfl⟩
    | some r =>
      obtain ⟨d, hd⟩ := live_of_heap h.owned hr
      rw [readHeap_some hr hd, Option.map_some, hd]
      exact Or.inr ⟨copy d, rfl, rfl⟩

omit [DecidableEq Cl] in
/-- Unlinking allocates nothing. -/
theorem unlocks_dead (p : Ptr) : Unlocks
    (fun (sp : Store Addr Topic Ptr × Pool Ptr Data) (_ : Store Addr Topic Data) =>
      sp.2.live p = none)
    (dataBrokerOps : BrokerOps Addr Cl (Store Addr Topic Ptr × Pool Ptr Data))
    routeBrokerOps := by
  rintro (a | c) ⟨s, P⟩ _ hdead
  · show (ribRouteDeleteData a (s, P)).2.live p = none
    unfold ribRouteDeleteData
    dsimp only
    cases s.heap a with
    | none => exact hdead
    | some r =>
      dsimp only
      split_ifs
      · unfold Pool.free
        cases P.live r.data with
        | none => exact hdead
        | some d =>
          by_cases hp : p = r.data
          · rw [hp]
            exact Function.update_self _ _ _
          · exact (Function.update_of_ne hp _ _).trans hdead
      · exact hdead
  · exact hdead

/-- **A read hands out a copy of its own.**  It has the value that the route had. -/
theorem Represents.clientGetData (h : Represents holder none w rb) (copy : Data → Data)
    {dup : Option Ptr} (hdup : ∀ p, dup = some p → w.pool.live p = none) (c : Cl) :
    (rb.clientGetData (fun d => dup.map fun _ => copy d) c).1.1
        = (w.clientGetData copy dup c).1.map Prod.snd ∧
      Represents (hand holder c (w.clientGetData copy dup c).1) none (w.clientGetData copy dup c).2
        (rb.clientGetData (fun d => dup.map fun _ => copy d) c).2 := by
  have hreads := h.reads
  obtain rfl := h.read
  unfold DataBroker.clientGetData RouteBroker.clientGetData
  have hav : w.read.dataAvailableForClient c = w.rb.dataAvailableForClient c := rfl
  rw [hav]
  cases w.rb.dataAvailableForClient c with
  | none => exact ⟨rfl, h⟩
  | some i =>
    have hQ : ∀ r, Copied dup (dataClientGet copy r (w.rb.store, w.pool))
        (routeBrokerClientGet (fun d => dup.map fun _ => copy d) r w.read.store) :=
      copied_clientGet copy dup hreads
    have hnull : Copied dup (none : Option (Option Data)) none := Or.inl ⟨rfl, rfl⟩
    obtain ⟨hcopied, hagree⟩ := agree_getData (b := w.rb.level i) (dataClientOps copy)
      (routeBrokerClientOps fun d => dup.map fun _ => copy d) (unlocks_reads holder none) hreads
      hnull (fun r _ => hQ r) (fun r _ => hQ r) ((w.rb.rclient c).client i)
    have hdead : ∀ p, dup = some p → (brokerClientGetData dataBrokerOps (dataClientOps copy)
        (w.rb.level i) (w.rb.store, w.pool) ((w.rb.rclient c).client i)).2.2.2.live p = none := by
      intro p hp
      exact (agree_getData (b := w.rb.level i) (Q := fun _ _ => True) (dataClientOps copy)
        (routeBrokerClientOps some) (unlocks_dead p) (s := w.read.store) (hdup p hp) trivial
        (fun _ _ => trivial) (fun _ _ => trivial) ((w.rb.rclient c).client i)).2.2
    have hstate := h.onLevel (i := i) hagree
    dsimp only
    rcases hcopied with ⟨hx', hx⟩ | ⟨d, hx', hx⟩
    · rw [hx']
      exact ⟨hx, hstate⟩
    · rw [hx']
      cases dup with
      | none => exact ⟨hx, hstate⟩
      | some p => exact ⟨hx, hstate.handOut (hdead p rfl)⟩

/-! ### A whole publish -/

omit [DecidableEq Addr] [DecidableEq Cl] [DecidableEq Topic] [DecidableEq Ptr] in
/-- The statistics do not matter. -/
theorem Represents.recount (h : Represents holder held w rb) (n m k : ℕ) :
    Represents holder held
      { w with rb := { w.rb with processed := n, ignored := m, dropped := k } }
      { rb with processed := n, ignored := m, dropped := k } := by
  have hreads := h.reads
  obtain rfl := h.read
  exact represents_of_reads hreads rfl

theorem Represents.publish {gen : Data → ℤ × Topic × Bool} (h : Represents holder none w rb)
    (hs : Sound gen rb) (copy : Data → Data) (hfree : w.rb.store.heap a = none)
    {dup : Option Ptr} (hdup : ∀ p, dup = some p → w.pool.live p = none) (obj : Data)
    (pri : Level) : Represents holder none (w.publish gen copy a dup obj pri)
      (rb.objectBrokerPublish ⟨gen, fun d => dup.map fun _ => copy d⟩ (some a) obj pri).1 := by
  have hcount : rb.processed = w.rb.processed ∧ rb.ignored = w.rb.ignored ∧
      rb.dropped = w.rb.dropped := by
    rw [h.read]
    exact ⟨rfl, rfl, rfl⟩
  obtain ⟨hn, hm, hk⟩ := hcount
  cases dup with
  | none =>
    have hdropped := h.recount (w.rb.processed + 1) w.rb.ignored (w.rb.dropped + 1)
    unfold RouteBroker.objectBrokerPublish RouteBroker.publishPrepare
    dsimp only [Option.map_none]
    rw [hn, hm, hk]
    exact hdropped
  | some p =>
    have hcopied := h.copyObj (d := copy obj) (hdup p rfl)
    unfold DataBroker.publish RouteBroker.objectBrokerPublish RouteBroker.publishPrepare
    dsimp only [Option.map_some]
    by_cases hrc : (gen (copy obj)).1 ≤ 0
    · rw [if_pos hrc, if_pos hrc, hn, hm, hk]
      exact (hcopied.recount (w.rb.processed + 1) (w.rb.ignored + 1) w.rb.dropped).freeObj
    · rw [if_neg hrc, if_neg hrc, hn, hm, hk]
      let route : RibRoute Topic Ptr := { pri := pri, topic := (gen (copy obj)).2.1, data := p }
      have hentered : Represents holder (some (route.data, copy obj)) _ _ :=
        hcopied.recount (w.rb.processed + 1) w.rb.ignored w.rb.dropped
      exact hentered.publishRoute (hs.of_eq rfl rfl) hfree rfl _

end Operations
