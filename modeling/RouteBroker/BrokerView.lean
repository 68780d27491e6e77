/-
# What the clients of one broker see

One broker is a conflating change feed (`Feed.lean`): the table maps every live
object to its current data, the view of a client is replayed from what it was
handed, and an object is pending for a client while it lies after its cursor.
`call_refines` shows that every call is one of the moves of a feed.  The only
delicate point is reclaiming: a deleted object may only leave the queue when it is
not pending for anyone, which is what the order of the ids guarantees.

Main result: `client_view_converges`.
-/
import RouteBroker.Feed
import RouteBroker.BrokerWrap

open Circleq Broker

variable {Obj Cl Data : Type*} [DecidableEq Obj] [DecidableEq Cl]

/-- What a delivery tells the client about the object. -/
def Delivery.change (d : Delivery Obj Data) : Feed.Change Obj Data :=
  (d.obj, if d.deleted then none else some d.data)

namespace World

/-- The objects that are listed and not marked deleted, with their current data. -/
def table (w : World Obj Cl Data) (o : Obj) : Option Data :=
  if w.broker.Live o then some (w.owner.data o) else none

/-- The map the client builds from what it was handed. -/
def view (w : World Obj Cl Data) (c : Cl) : Obj → Option Data :=
  Feed.replay ((w.received c).map Delivery.change)

/-- The broker as a change feed. -/
def feed (w : World Obj Cl Data) : Feed Cl Obj Data where
  clients := {c | c ∈ w.broker.clientList}
  table := w.table
  view := w.view
  pending := fun c => {o | w.broker.Pending c o}

/-! ## Changes -/

section Changes

variable {w : World Obj Cl Data} {o : Obj} {d : Data}

/-- What is live and its data make the table. -/
theorem table_congr {w w' : World Obj Cl Data} (hlive : ∀ o, w'.broker.Live o ↔ w.broker.Live o)
    (hdata : w'.owner.data = w.owner.data) : w'.table = w.table := by
  funext o
  unfold table
  rw [hdata]
  exact if_congr (hlive o) rfl rfl

/-- The table after a change of `o` that leaves the other objects alone. -/
theorem table_eq_update {w w' : World Obj Cl Data} {o : Obj} {e : Option Data}
    (hlive : ∀ o', o' ≠ o → (w'.broker.Live o' ↔ w.broker.Live o'))
    (hdata : ∀ o', o' ≠ o → w'.owner.data o' = w.owner.data o') (he : w'.table o = e) :
    w'.table = Function.update w.table o e := by
  funext o'
  by_cases ho : o' = o
  · rw [ho, Function.update_self, he]
  · rw [Function.update_of_ne ho]
    unfold table
    rw [hdata o' ho]
    exact if_congr (hlive o' ho) rfl rfl

theorem feed_addObj (hl : w.broker.Linked) : Feed.Step w.feed (w.addObj o d).feed := by
  have hlist : ∀ o', (w.addObj o d).broker.Listed o' ↔ w.broker.Listed o' ∨ o' = o :=
    listed_addObj ownerOps w.broker (w.owner.store o d) 0
  have hdel : ∀ o', (w.addObj o d).broker.Deleted o' ↔ w.broker.Deleted o' ∧ o' ≠ o :=
    deleted_addObj ownerOps w.broker (w.owner.store o d) 0
  have hpend : ∀ c o', (w.addObj o d).broker.Pending c o' ↔
      w.broker.Pending c o' ∨ (c ∈ w.broker.clientList ∧ o' = o) :=
    pending_addObj ownerOps hl (w.owner.store o d) 0
  have hdata : (w.addObj o d).owner.data = Function.update w.owner.data o d := rfl
  refine .change o (some d) rfl (table_eq_update (fun o' he => ?_) (fun o' he => ?_) ?_)
    (fun c _ => rfl) (fun c hc => ?_)
  · unfold Live
    rw [hlist, hdel]
    simp [he]
  · rw [hdata, Function.update_of_ne he]
  · unfold table
    rw [if_pos ⟨(hlist o).mpr (Or.inr rfl), fun h => ((hdel o).mp h).2 rfl⟩, hdata,
      Function.update_self]
  · ext o'
    refine (hpend c o').trans ?_
    rw [Set.mem_insert_iff, or_comm]
    exact or_congr (and_iff_right hc) Iff.rfl

/-- Both `broker_upd_obj` and `broker_del_obj` with clients set or clear the mark and
move the object to the tail. -/
theorem feed_moveToTail (hl : w.broker.Linked) (ho : w.broker.Listed o) (mark : Bool)
    {w' : World Obj Cl Data}
    (hbroker : w'.broker = (w.broker.setDelete (.obj o) mark).moveToTail (.obj o))
    (hdata : w'.owner.data = Function.update w.owner.data o d)
    (hrec : w'.received = w.received) : Feed.Step w.feed w'.feed := by
  have hl' := hl.setDelete (.obj o) mark
  have hlist : ∀ o', w'.broker.Listed o' ↔ w.broker.Listed o' := fun o' => by
    rw [hbroker]
    exact listed_moveToTail hl' ho o'
  have hdel : ∀ o', w'.broker.Deleted o' ↔ if o' = o then mark = true else w.broker.Deleted o' := by
    intro o'
    rw [hbroker, deleted_mark]
  refine .change o (if mark then none else some d) ?_
    (table_eq_update (fun o' he => ?_) (fun o' he => ?_) ?_) ?_ ?_
  · show {c | c ∈ w'.broker.clientList} = _
    rw [hbroker]
    rfl
  · unfold Live
    rw [hlist, hdel, if_neg he]
  · rw [hdata, Function.update_of_ne he]
  · unfold table
    rw [hdata, Function.update_self]
    -- the entry for `o` is the new data, or none once it is marked
    cases mark with
    | false =>
      rw [if_pos ⟨(hlist o).mpr ho, by simp [hdel]⟩]
      rfl
    | true =>
      rw [if_neg (fun h => h.2 (by simp [hdel]))]
      rfl
  · intro c _
    show w'.view c = w.view c
    unfold view
    rw [hrec]
  · intro c hc
    have hc' : c ∈ w.broker.clientList := by
      have : c ∈ w'.broker.clientList := hc
      rw [hbroker] at this
      exact this
    ext o'
    show w'.broker.Pending c o' ↔ _
    rw [hbroker, pending_moveToTail hl', Set.mem_insert_iff]
    show (w.broker.Pending c o' ∧ o' ≠ o) ∨ (c ∈ w.broker.clientList ∧ o' = o) ↔
      o' = o ∨ w.broker.Pending c o'
    tauto

/-- Without clients a delete unlinks the object at once, and nobody is there to see. -/
theorem feed_delObj_no_clients (hl : w.broker.Linked) (hc : w.broker.clientList = []) :
    Feed.Step w.feed (w.delObj o d).feed := by
  have hbroker : (w.delObj o d).broker
      = (brokerDelObjNow ownerOps w.broker (w.owner.store o d) (.obj o)).1 := by
    rw [← brokerDelObj_of_no_clients ownerOps hc]
    rfl
  have hdata : (w.delObj o d).owner.data = Function.update w.owner.data o d := by
    show (brokerDelObj ownerOps w.broker (w.owner.store o d) o).2.data = _
    rw [brokerDelObj_of_no_clients ownerOps hc]
    rfl
  have hlist : ∀ o', (w.delObj o d).broker.Listed o' ↔ w.broker.Listed o' ∧ o' ≠ o := by
    rw [hbroker]
    exact listed_delObjNow ownerOps hl (w.owner.store o d)
  have hdel : ∀ o', (w.delObj o d).broker.Deleted o' ↔ w.broker.Deleted o' := fun o' => by
    rw [hbroker]
    exact Iff.rfl
  have hclients : (w.delObj o d).broker.clientList = [] := by
    rw [hbroker]
    exact hc
  have hnone : ∀ c, c ∉ (w.delObj o d).feed.clients := fun c hmem => by
    have hmem' : c ∈ (w.delObj o d).broker.clientList := hmem
    rw [hclients] at hmem'
    exact List.not_mem_nil hmem'
  refine .change o none ?_ (table_eq_update (fun o' he => ?_) (fun o' he => ?_) ?_)
    (fun c hmem => absurd hmem (hnone c)) (fun c hmem => absurd hmem (hnone c))
  · show {c | c ∈ (w.delObj o d).broker.clientList} = {c | c ∈ w.broker.clientList}
    rw [hclients, hc]
  · unfold Live
    rw [hlist, hdel, and_iff_left he]
  · rw [hdata, Function.update_of_ne he]
  · unfold table
    rw [if_neg (fun h => ((hlist o).mp h.1).2 rfl)]

end Changes

/-! ## Clients -/

section Clients

variable {w : World Obj Cl Data} {c : Cl}

theorem feed_clientCreate (name : String) :
    Feed.Step w.feed (w.clientCreate c name).feed := by
  have hlist : ∀ o, (w.clientCreate c name).broker.Listed o ↔ w.broker.Listed o :=
    listed_clientCreate w.broker c name
  have hpend : ∀ e o, (w.clientCreate c name).broker.Pending e o ↔
      (e = c ∧ w.broker.Listed o) ∨ w.broker.Pending e o :=
    pending_clientCreate w.broker c name
  have hdel : ∀ o, (w.clientCreate c name).broker.Deleted o ↔ w.broker.Deleted o :=
    deleted_clientCreate w.broker c name
  refine .join c ?_ ?_ (fun e _ he => ?_) (fun e _ he => ?_) (fun o => ?_) (fun o ho => ?_)
  · ext e
    show e ∈ (brokerClientCreate w.broker (some c) (some name)).2.clientList ↔ _
    rw [clientCreate_clientList, List.mem_cons]
    exact Iff.rfl
  · exact table_congr (fun o => and_congr (hlist o) (not_congr (hdel o))) rfl
  · simp [feed, view, World.clientCreate, he]
  · ext o
    refine (hpend e o).trans ?_
    simp [he, feed]
  · simp [feed, view, World.clientCreate]
  -- a new cursor stands before every listed object
  · have hlisted : w.broker.Listed o := by
      by_contra hn
      exact ho (if_neg (fun h => hn h.1))
    exact (hpend c o).mpr (Or.inl ⟨rfl, hlisted⟩)

/-- The sweep reclaims only what was deleted and is pending for nobody who stays. -/
theorem feed_clientDelete (hb : w.broker.Ordered) :
    Feed.Step w.feed (w.clientDelete c).feed := by
  have hl := hb.toLinked
  have hclients : ∀ e ∈ (w.clientDelete c).broker.clientList,
      e ≠ c ∧ e ∈ w.broker.clientList := by
    intro e he
    have he' : e ∈ (brokerClientDelete ownerOps w.broker w.owner c).1.clientList := he
    rwa [clientDelete_clientList, mem_remove hl.clients_nodup] at he'
  have hdata : (w.clientDelete c).owner.data = w.owner.data := by
    simp only [World.clientDelete, World.after, Owner.tick]
    rw [clientDelete_eq ownerOps hl]
    exact (foldl_unlockObj _ _).1
  refine .idle (fun e he => (hclients e he).2)
    (table_congr (hb.live_clientDelete w.owner c) hdata) (fun e _ => rfl) (fun e he => ?_)
  ext o
  refine (hb.pending_clientDelete w.owner c e o).trans ?_
  exact and_iff_left (hclients e he).1

/-- With nothing to hand over, only the id of the client changes. -/
theorem feed_clientGetData_none (hnext : brokerGetNextDataObj w.broker (.client c) = none) :
    Feed.Step w.feed (w.clientGetData c).feed := by
  have hbroker : (w.clientGetData c).broker = w.broker.setId (.client c) w.broker.id := by
    simp [World.clientGetData, World.after, getData_of_none ownerOps handOver w.owner hnext]
  have hdata : (w.clientGetData c).owner.data = w.owner.data :=
    (getData_owner w.owner w.broker c).1
  refine .idle ?_ ?_ (fun e _ => ?_) (fun e _ => ?_)
  · show {e | e ∈ (w.clientGetData c).broker.clientList} ⊆ _
    rw [hbroker]
    exact subset_rfl
  · refine table_congr (fun o => ?_) hdata
    unfold Live Deleted
    rw [hbroker, setId_flags]
    rfl
  · show (w.clientGetData c).view e = w.view e
    simp only [view, received_of_none hnext]
  · show {o | (w.clientGetData c).broker.Pending e o} = {o | w.broker.Pending e o}
    simp only [Pending, hbroker, setId_objList]

/-- A read hands over the current entry of the first pending object. -/
theorem feed_clientGetData_some {o : Obj} (hb : w.broker.Ordered)
    (hnext : brokerGetNextDataObj w.broker (.client c) = some (.obj o)) :
    Feed.Step w.feed (w.clientGetData c).feed := by
  obtain ⟨o₁, ho₁, hp, -⟩ := getNextDataObj_eq_some hb.toLinked hnext
  cases ho₁
  have hpend : ∀ e o', (w.clientGetData c).broker.Pending e o' ↔
      w.broker.Pending e o' ∧ ¬ (e = c ∧ o' = o) := hb.pending_getData w.owner hnext
  have hdata : (w.clientGetData c).owner.data = w.owner.data :=
    (getData_owner w.owner w.broker c).1
  -- what is handed over is the entry of the table: data, or a delete
  have hentry : w.table o = (w.version o).change.2 := by
    unfold table Live Deleted World.version Delivery.change
    by_cases hf : (w.broker.bobj (.obj o)).flags.delete = true
    · simp [hf]
    · simp [hf, hp.listed]
  refine .deliver c o ?_ (table_congr (hb.live_getData w.owner hnext) hdata)
    (fun e _ he => ?_) (fun e _ he => ?_) ?_ ?_
  · ext e
    show e ∈ (brokerClientGetData ownerOps handOver w.broker w.owner (some c)).2.1.clientList ↔ _
    rw [getData_clientList]
    exact Iff.rfl
  · simp [feed, view, received_of_some hnext, he]
  · ext o'
    exact (hpend e o').trans (and_iff_left (fun hx => he hx.1))
  · show (w.clientGetData c).view c = Function.update (w.view c) o (w.table o)
    unfold view
    rw [received_of_some hnext, Function.update_self, List.map_append, List.map_singleton,
      Feed.replay_concat, hentry]
    rfl
  · ext o'
    refine (hpend c o').trans ?_
    show _ ↔ w.broker.Pending c o' ∧ o' ∉ ({o} : Set Obj)
    rw [Set.mem_singleton_iff]
    exact and_congr_right (fun _ => not_congr (and_iff_right rfl))

end Clients

end World

/-! ## Convergence -/

/-- **One broker refines a conflating change feed.** -/
theorem call_refines {w w' : World Obj Cl Data} {a : Call Obj Cl Data}
    (h : w.call a = some w') (ha : a.isDelObjNow = false) (hb : w.broker.Ordered) :
    Feed.Step w.feed w'.feed := by
  cases a with
  | addObj o d =>
    obtain ⟨-, rfl⟩ := call_addObj.mp h
    exact World.feed_addObj hb.toLinked
  | updObj o d =>
    obtain ⟨ho, rfl⟩ := call_updObj.mp h
    exact World.feed_moveToTail hb.toLinked ho false (brokerUpdObj_eq w.broker o) rfl rfl
  | delObj o d =>
    obtain ⟨ho, rfl⟩ := call_delObj.mp h
    by_cases hc : w.broker.clientList = []
    · exact World.feed_delObj_no_clients hb.toLinked hc
    · refine World.feed_moveToTail (d := d) hb.toLinked ho true ?_ ?_ rfl
      · simp [World.delObj, World.after, brokerDelObj_of_clients ownerOps hc]
      · simp [World.delObj, World.after, Owner.tick, Owner.store,
          brokerDelObj_of_clients ownerOps hc]
  | delObjNow o => simp [Call.isDelObjNow] at ha
  | clientCreate c name =>
    obtain ⟨-, rfl⟩ := call_clientCreate.mp h
    exact World.feed_clientCreate name
  | clientDelete c =>
    obtain ⟨-, rfl⟩ := call_clientDelete.mp h
    exact World.feed_clientDelete hb
  | clientGetData c =>
    obtain ⟨-, rfl⟩ := call_clientGetData.mp h
    cases hnext : brokerGetNextDataObj w.broker (.client c) with
    | none => exact World.feed_clientGetData_none hnext
    | some r =>
      obtain ⟨o, rfl, -, -⟩ := getNextDataObj_eq_some hb.toLinked hnext
      exact World.feed_clientGetData_some hb hnext

theorem feed_synced {d₀ : Obj → Data} {as : List (Call Obj Cl Data)} {w : World Obj Cl Data}
    (has : ∀ a ∈ as, a.isDelObjNow = false)
    (h : (brokerSystem Cl d₀).exec (World.start d₀) as = some w)
    (hw : w.broker.increments < 2 ^ 64) : w.broker.Ordered ∧ w.feed.Synced := by
  refine run_invariant h hw (I := fun w => w.feed.Synced) ?_ ?_
  · intro c hc
    simp [World.feed, World.start, brokerCreate] at hc
  · intro a ha v v' hcall hb _ hsync
    exact (call_refines hcall (has a ha) hb).synced hsync

/-- **Per-client convergence of one broker.**  Take any run without forced removals
and with fewer than `2^64` increments of the broker's id.  For every client, the map
it can build from what it was handed agrees with the broker on every object that
does not lie after its cursor: the object is present with its current data if it is
listed and not marked deleted, and absent otherwise.  So when the client has no more
data, its map is exactly the set of live objects with their current data. -/
theorem client_view_converges {d₀ : Obj → Data} {as : List (Call Obj Cl Data)}
    {w : World Obj Cl Data} (has : ∀ a ∈ as, a.isDelObjNow = false)
    (h : (brokerSystem Cl d₀).exec (World.start d₀) as = some w)
    (hw : w.broker.increments < 2 ^ 64) (c : Cl) (hc : c ∈ w.broker.clientList) :
    (∀ o, ¬ Precedes w.broker.objList (.client c) (.obj o) → w.view c o
      = if w.broker.Listed o ∧ ¬ w.broker.Deleted o then some (w.owner.data o) else none) ∧
    (brokerHasMoreData w.broker c = false → w.view c
      = fun o => if w.broker.Listed o ∧ ¬ w.broker.Deleted o then some (w.owner.data o)
          else none) := by
  obtain ⟨hb, hsync⟩ := feed_synced has h hw
  refine ⟨fun o ho => hsync c hc o ho, fun hmore => ?_⟩
  have hnone := (brokerHasMoreData_eq_false hb.toLinked).mp hmore
  exact hsync.view_eq_table hc (Set.eq_empty_iff_forall_notMem.mpr hnone)

/-- The theorem at a run in which a client reads an object that is then deleted, and
another client joins late. -/
theorem client_view_converges_two_clients :
    ∃ w, (brokerSystem ℕ fun _ : ℕ => 0).exec (World.start fun _ => 0) [.clientCreate 0 "dp",
        .addObj 7 1, .addObj 8 1, .clientGetData 0, .clientCreate 1 "kernel", .delObj 7 2,
        .clientGetData 0, .clientGetData 0] = some w ∧
      w.view 0 = fun o => if w.broker.Listed o ∧ ¬ w.broker.Deleted o
        then some (w.owner.data o) else none := by
  obtain ⟨w, hexec, hp⟩ := (brokerSystem ℕ fun _ : ℕ => 0).exists_of_exec_any
    (World.start fun _ => 0) [.clientCreate 0 "dp",
        .addObj 7 1, .addObj 8 1, .clientGetData 0, .clientCreate 1 "kernel", .delObj 7 2,
        .clientGetData 0, .clientGetData 0]
    (fun w => w.broker.increments < 2 ^ 64 ∧ 0 ∈ w.broker.clientList
      ∧ brokerHasMoreData w.broker 0 = false) (by decide +kernel)
  rw [decide_eq_true_eq] at hp
  obtain ⟨hw, hc, hmore⟩ := hp
  exact ⟨w, hexec, (client_view_converges (by decide) hexec hw 0 hc).2 hmore⟩

/-- Without the bound on the increments the map can stay wrong for good.  The client
`0` has read the object `7`; then `7` is changed until the counter wraps, and deleted
with the id `0`.  The read of the new client `1`, whose id is `0` as well, reclaims
`7`: no client is behind it by the ids, although the cursor of `0` still is. -/
theorem client_view_stale_after_wrap :
    ∃ w, (brokerSystem ℕ fun _ : ℕ => 0).exec (World.start fun _ => 0)
        (aroundUpdates [.clientCreate 0 "dp", .addObj 7 0, .clientGetData 0, .updObj 7 0]
          (2 ^ 64 - 3) 7 0 [.delObj 7 0, .clientCreate 1 "kernel", .clientGetData 1]) = some w ∧
      0 ∈ w.broker.clientList ∧ brokerHasMoreData w.broker 0 = false ∧
      ¬ w.broker.Listed 7 ∧ w.view 0 7 = some 0 := by
  obtain ⟨w, hexec, hp⟩ := exec_around_updates (fun _ => 0)
    [.clientCreate 0 "dp", .addObj 7 0, .clientGetData 0, .updObj 7 0]
    (2 ^ 64 - 4) 7 0 [.delObj 7 0, .clientCreate 1 "kernel", .clientGetData 1]
    (fun w => decide (0 ∈ w.broker.clientList ∧ brokerHasMoreData w.broker 0 = false ∧
      ¬ w.broker.Listed 7 ∧ w.view 0 7 = some 0))
    (by decide +kernel)
  exact ⟨w, hexec, of_decide_eq_true hp⟩
