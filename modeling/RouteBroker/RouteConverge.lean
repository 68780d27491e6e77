/-
# End-to-end convergence

The route broker as a conflating change feed over topics: the table is replayed from
what was published, the view of a client from what it was handed, and a topic is pending
for a client while a route with this topic lies after its cursor in some level.

The levels and the hash table implement this only as long as there is one route for each
topic (`Store.Hashed`), which is why runs with an overtaking delete are left out here;
`lost_delete` shows what happens in them.  Besides, the table has to be what the levels
hold (`Current`).

Main result: `drained_client_converges`.
-/
import RouteBroker.Feed
import RouteBroker.RouteHash
import RouteBroker.RouteOrder

open Circleq Broker

variable {Addr Cl Topic Data : Type*}

/-! ## Tables of messages -/

/-- What a message says: an add sets its topic to the message, a delete removes it. -/
def changeOf (gen : Data → ℤ × Topic × Bool) (d : Data) : Feed.Change Topic Data :=
  ((gen d).2.1, if (gen d).2.2 then none else some d)

section Tables

variable [DecidableEq Topic]

/-- The table the messages build, in order, starting empty. -/
def tableOf (gen : Data → ℤ × Topic × Bool) (ms : List Data) : Topic → Option Data :=
  Feed.replay (ms.map (changeOf gen))

theorem tableOf_concat (gen : Data → ℤ × Topic × Bool) (ms : List Data) (d : Data) :
    tableOf gen (ms ++ [d]) = Function.update (tableOf gen ms) (gen d).2.1
      (if (gen d).2.2 then none else some d) := by
  unfold tableOf
  rw [List.map_append, List.map_singleton, Feed.replay_concat]
  rfl

/-- The table of all published messages that are not ignored. -/
def RouteWorld.table (gen : Data → ℤ × Topic × Bool) (w : RouteWorld Addr Cl Topic Data) :
    Topic → Option Data :=
  tableOf gen (w.published.filter fun d => 0 < (gen d).1)

/-- The table of the messages the client received. -/
def RouteWorld.view (gen : Data → ℤ × Topic × Bool) (w : RouteWorld Addr Cl Topic Data) (c : Cl) :
    Topic → Option Data :=
  tableOf gen (w.received c)

end Tables

/-- The topics of the routes after the cursor of `c`, in any level. -/
def RouteBroker.pendingTopics (rb : RouteBroker Addr Cl Topic Data) (c : Cl) : Set Topic :=
  {t | ∃ i a r, (rb.level i).Pending c a ∧ rb.store.heap a = some r ∧ r.topic = t}

/-- The levels hold the message `d` for the topic `t`. -/
def RouteBroker.Holds (rb : RouteBroker Addr Cl Topic Data) (t : Topic) (d : Data) : Prop :=
  ∃ a r, rb.store.heap a = some r ∧ r.topic = t ∧ r.data = d ∧ (rb.level r.pri).Live a

/-- The table is what the levels hold. -/
def Current (rb : RouteBroker Addr Cl Topic Data) (tbl : Topic → Option Data) : Prop :=
  ∀ t d, tbl t = some d ↔ rb.Holds t d

/-- The route broker as a change feed. -/
def RouteWorld.feed [DecidableEq Topic] (gen : Data → ℤ × Topic × Bool)
    (w : RouteWorld Addr Cl Topic Data) : Feed Cl Topic Data where
  clients := {c | c ∈ w.rb.clientList}
  table := w.table gen
  view := w.view gen
  pending := w.rb.pendingTopics

section Facts

variable {gen : Data → ℤ × Topic × Bool} {rb rb' : RouteBroker Addr Cl Topic Data}
  {tbl : Topic → Option Data} {a : Addr} {r : RibRoute Topic Data} {t : Topic}

/-- What the table says about the topic of a route. -/
theorem Current.entry (hcur : Current rb tbl) (hs : Sound gen rb) (hH : rb.store.Hashed)
    (hk : ∀ a, Kind gen rb a) (hr : rb.store.heap a = some r) :
    tbl r.topic = if (gen r.data).2.2 then none else some r.data := by
  have hkind := hk a r hr
  by_cases hdel : (gen r.data).2.2 = true
  · rw [if_pos hdel]
    -- the only route with this topic is marked
    rw [Option.eq_none_iff_forall_not_mem]
    intro d hd
    obtain ⟨a', r', hr', ht, -, hlive⟩ := (hcur r.topic d).mp hd
    have ha := hH.eq hr' hr ht
    rw [ha, hr] at hr'
    rw [ha, ← Option.some.inj hr'] at hlive
    exact hlive.2 (hkind.mp hdel)
  · rw [if_neg hdel]
    refine (hcur r.topic r.data).mpr ⟨a, r, hr, rfl, rfl, hs.listed_of_heap hr, ?_⟩
    exact fun h => hdel (hkind.mpr h)

/-- Without an entry in the hash table there is nothing in the table either. -/
theorem Current.none_of_hash (hcur : Current rb tbl) (hH : rb.store.Hashed)
    (hnone : rb.store.hash t = none) : tbl t = none := by
  rw [Option.eq_none_iff_forall_not_mem]
  intro d hd
  obtain ⟨a, r, hr, ht, -⟩ := (hcur t d).mp hd
  have hh := hH a r hr
  rw [ht, hnone] at hh
  exact nomatch hh

theorem Current.of_holds (hcur : Current rb tbl) (h : ∀ t d, rb'.Holds t d ↔ rb.Holds t d) :
    Current rb' tbl := fun t d => (hcur t d).trans (h t d).symm

end Facts

variable [DecidableEq Addr] [DecidableEq Cl] [DecidableEq Topic]

/-! ## Clients -/

section Clients

variable {gen : Data → ℤ × Topic × Bool} {rb rb' : RouteBroker Addr Cl Topic Data} {c : Cl}

/-- After a read or a departure, routes that are still listed are as before; so what the
levels hold is determined by what is live. -/
theorem Tidy.holds_iff (htidy : Tidy rb rb') (hs : Sound gen rb)
    (hlive : ∀ i a, (rb'.level i).Live a ↔ (rb.level i).Live a) (t : Topic) (d : Data) :
    rb'.Holds t d ↔ rb.Holds t d := by
  constructor
  · rintro ⟨a, r, hr, ht, hd, hl⟩
    exact ⟨a, r, htidy.heap_of_heap hs hr, ht, hd, (hlive _ a).mp hl⟩
  · rintro ⟨a, r, hr, ht, hd, hl⟩
    have hl' := (hlive _ a).mpr hl
    exact ⟨a, r, htidy.heap_of_listed hs hl'.1 hr, ht, hd, hl'⟩

/-- Likewise for the pending topics. -/
theorem Tidy.mem_pendingTopics (htidy : Tidy rb rb') (hs : Sound gen rb) {e : Cl}
    {Q : Level → Addr → Prop}
    (hpend : ∀ i a, (rb'.level i).Pending e a ↔ (rb.level i).Pending e a ∧ Q i a) (t : Topic) :
    t ∈ rb'.pendingTopics e ↔
      ∃ i a r, ((rb.level i).Pending e a ∧ Q i a) ∧ rb.store.heap a = some r ∧ r.topic = t := by
  constructor
  · rintro ⟨i, a, r, hp, hr, ht⟩
    exact ⟨i, a, r, (hpend i a).mp hp, htidy.heap_of_heap hs hr, ht⟩
  · rintro ⟨i, a, r, hp, hr, ht⟩
    have hp' := (hpend i a).mpr hp
    exact ⟨i, a, r, hp', htidy.heap_of_listed hs hp'.listed hr, ht⟩

theorem clientCreate_step {w : RouteWorld Addr Cl Topic Data}
    (hcur : Current w.rb (w.table gen)) (name : String) :
    Current (w.clientCreate c name).rb ((w.clientCreate c name).table gen) ∧
      Feed.Step (w.feed gen) ((w.clientCreate c name).feed gen) := by
  have hlevel : ∀ i, (w.clientCreate c name).rb.level i
      = (brokerClientCreate (w.rb.level i) (some c) (some name)).2 := fun _ => rfl
  have hstore : (w.clientCreate c name).rb.store = w.rb.store := rfl
  have hlive : ∀ i a, ((w.clientCreate c name).rb.level i).Live a ↔ (w.rb.level i).Live a := by
    intro i a
    rw [hlevel]
    exact and_congr (listed_clientCreate _ c name a)
      (not_congr (deleted_clientCreate _ c name a))
  have hpend : ∀ i e a, ((w.clientCreate c name).rb.level i).Pending e a ↔
      (e = c ∧ (w.rb.level i).Listed a) ∨ (w.rb.level i).Pending e a := by
    intro i e a
    rw [hlevel]
    exact pending_clientCreate _ c name e a
  refine ⟨hcur.of_holds (fun t d => ?_), .join c ?_ rfl (fun e _ he => ?_) (fun e _ he => ?_)
    (fun t => ?_) (fun t ht => ?_)⟩
  · unfold RouteBroker.Holds
    simp only [hlive, hstore]
  · ext e
    exact List.mem_cons
  · show tableOf gen (Function.update w.received c [] e) = tableOf gen (w.received e)
    rw [Function.update_of_ne he]
  · show (w.clientCreate c name).rb.pendingTopics e = w.rb.pendingTopics e
    unfold RouteBroker.pendingTopics
    simp only [hpend, he, false_and, false_or, hstore]
  · show tableOf gen (Function.update w.received c [] c) t = none
    rw [Function.update_self]
    rfl
  · -- what the table has is listed, and everything listed is pending for the new client
    obtain ⟨d, hd⟩ := Option.ne_none_iff_exists'.mp ht
    obtain ⟨a, r, hr, htop, -, hl⟩ := (hcur t d).mp hd
    exact ⟨r.pri, a, r, (hpend r.pri c a).mpr (Or.inl ⟨rfl, hl.1⟩), hr, htop⟩

theorem clientDelete_step {w : RouteWorld Addr Cl Topic Data} (hc : Consistent gen w.rb)
    (hord : ∀ i, (w.rb.level i).Ordered) (hcur : Current w.rb (w.table gen))
    (hmem : c ∈ w.rb.clientList) :
    Current (w.clientDelete c).rb ((w.clientDelete c).table gen) ∧
      Feed.Step (w.feed gen) ((w.clientDelete c).feed gen) := by
  have hs := hc.sound
  have hlevel : ∀ i, (w.clientDelete c).rb.level i
      = (brokerClientDelete routeBrokerOps (w.rb.level i) w.rb.store c).1 :=
    clientDelete_level hs (hc.wired.client c hmem)
  have htidy := tidy_clientDeleteLevels hs c
  have hlive : ∀ i a, ((w.clientDelete c).rb.level i).Live a ↔ (w.rb.level i).Live a := by
    intro i a
    rw [hlevel]
    exact (hord i).live_clientDelete w.rb.store c a
  have hpend : ∀ e i a, ((w.clientDelete c).rb.level i).Pending e a ↔
      (w.rb.level i).Pending e a ∧ e ≠ c := by
    intro e i a
    rw [hlevel]
    exact (hord i).pending_clientDelete w.rb.store c e a
  have hclients : ∀ e, e ∈ (w.clientDelete c).rb.clientList → e ≠ c ∧ e ∈ w.rb.clientList := by
    intro e he
    have he' : e ∈ remove w.rb.clientList c := hc.clientDelete_clientList hmem ▸ he
    exact (mem_remove hc.clients_nodup).mp he'
  refine ⟨hcur.of_holds (htidy.holds_iff hs hlive), .idle (fun e he => (hclients e he).2) rfl
    (fun _ _ => rfl) (fun e he => ?_)⟩
  ext t
  refine (htidy.mem_pendingTopics hs (hpend e) t).trans ?_
  simp only [and_iff_left (hclients e he).1]
  exact Iff.rfl

/-- The state after a read of the route at `a` in level `i`. -/
theorem clientGetData_rb (hc : Consistent gen rb) (hmem : c ∈ rb.clientList)
    (copyObj : Data → Option Data) {i : Level} (h : rb.dataAvailableForClient c = some i) :
    (rb.clientGetData copyObj c).2 = rb.onLevel i (brokerClientGetData routeBrokerOps
      (routeBrokerClientOps copyObj) (rb.level i) rb.store (some c)).2 := by
  unfold RouteBroker.clientGetData
  rw [h]
  dsimp only
  rw [hc.wired.client c hmem]

/-- A read of the route at `a` passes over this route alone, and for the reader alone. -/
theorem pending_clientGetData (hc : Consistent gen rb) (hord : ∀ i, (rb.level i).Ordered)
    (hmem : c ∈ rb.clientList) (copyObj : Data → Option Data) {i : Level} {a : Addr}
    (hav : rb.dataAvailableForClient c = some i)
    (hnext : brokerGetNextDataObj (rb.level i) (.client c) = some (.obj a)) (e : Cl) (j : Level)
    (a' : Addr) : ((rb.clientGetData copyObj c).2.level j).Pending e a' ↔
      (rb.level j).Pending e a' ∧ ¬ (e = c ∧ a' = a) := by
  rw [clientGetData_rb hc hmem copyObj hav]
  refine forall_onLevel (P := fun j b => b.Pending e a' ↔
    (rb.level j).Pending e a' ∧ ¬ (e = c ∧ a' = a))
    ((hord i).pending_getData rb.store hnext e a') (fun j hj => ?_) j
  -- the route read is not listed in another level
  refine (and_iff_left_of_imp (fun hp' hx => hj ?_)).symm
  obtain ⟨a₀, ha₀, hp, -⟩ := getNextDataObj_eq_some (hc.sound.linked i) hnext
  cases ha₀
  obtain ⟨r, hr, hpri⟩ := hc.sound.heap_of_listed hp.listed
  obtain ⟨r', hr', hpri'⟩ := hc.sound.heap_of_listed hp'.listed
  rw [hx.2, hr] at hr'
  rw [← hpri', ← Option.some.inj hr', hpri]

/-- A read from a phantom level: nothing a client can tell. -/
theorem clientGetData_step_phantom {w : RouteWorld Addr Cl Topic Data} (hc : Consistent gen w.rb)
    (hcur : Current w.rb (w.table gen)) (hmem : c ∈ w.rb.clientList) {i : Level}
    (hav : w.rb.dataAvailableForClient c = some i)
    (hnext : brokerGetNextDataObj (w.rb.level i) (.client c) = none) :
    Current (w.clientGetData id c).rb ((w.clientGetData id c).table gen) ∧
      Feed.Step (w.feed gen) ((w.clientGetData id c).feed gen) := by
  have hget := clientGetData_of_phantom hc.wired hmem (fun d => some (id d)) hav hnext
  have hstate : (w.clientGetData id c).rb
      = w.rb.onLevel i ((w.rb.level i).setId (.client c) (w.rb.level i).id, w.rb.store) := by
    show (w.rb.clientGetData (fun d => some (id d)) c).2 = _
    rw [hget]
  have hrec : (w.clientGetData id c).received = w.received := by
    show Function.update w.received c (w.received c ++ _) = w.received
    rw [hget]
    simp
  have hlive : ∀ j a, ((w.clientGetData id c).rb.level j).Live a ↔ (w.rb.level j).Live a := by
    intro j a
    rw [hstate]
    refine forall_onLevel (P := fun j b => b.Live a ↔ (w.rb.level j).Live a) ?_
      (fun _ _ => Iff.rfl) j
    unfold Live Deleted
    rw [setId_flags]
    exact Iff.rfl
  constructor
  · apply hcur.of_holds
    exact (tidy_clientGetData hc.sound _ c).holds_iff hc.sound hlive
  · apply Feed.Step.idle
    · show {e | e ∈ (w.clientGetData id c).rb.clientList} ⊆ _
      rw [hstate]
      exact subset_rfl
    · rfl
    · intro e _
      show tableOf gen ((w.clientGetData id c).received e) = _
      rw [hrec]
      rfl
    · intro e _
      show (w.clientGetData id c).rb.pendingTopics e = w.rb.pendingTopics e
      unfold RouteBroker.pendingTopics
      rw [hstate]
      simp only [pending_after, onLevel_store]

/-- A read of a route: its topic is delivered. -/
theorem clientGetData_step_object {w : RouteWorld Addr Cl Topic Data} (hc : Consistent gen w.rb)
    (hH : w.rb.store.Hashed) (hord : ∀ i, (w.rb.level i).Ordered)
    (hcur : Current w.rb (w.table gen)) (hmem : c ∈ w.rb.clientList) {i : Level} {a : Addr}
    (hav : w.rb.dataAvailableForClient c = some i)
    (hnext : brokerGetNextDataObj (w.rb.level i) (.client c) = some (.obj a)) :
    Current (w.clientGetData id c).rb ((w.clientGetData id c).table gen) ∧
      Feed.Step (w.feed gen) ((w.clientGetData id c).feed gen) := by
  have hs := hc.sound
  have hrb := clientGetData_rb hc hmem (fun d => some (id d)) hav
  have htidy : Tidy w.rb (w.clientGetData id c).rb := tidy_clientGetData hs _ c
  obtain ⟨r, hr, hpri, hget⟩ := clientGetData_of_next hc hmem id hav hnext
  have hrec : (w.clientGetData id c).received
      = Function.update w.received c (w.received c ++ [r.data]) := by
    show Function.update w.received c
      (w.received c ++ (w.rb.clientGetData (fun d => some (id d)) c).1.1.toList) = _
    rw [hget]
    rfl
  have hlive : ∀ j a', ((w.clientGetData id c).rb.level j).Live a' ↔ (w.rb.level j).Live a' := by
    intro j a'
    show ((w.rb.clientGetData _ c).2.level j).Live a' ↔ _
    rw [hrb]
    exact forall_onLevel (P := fun j b => b.Live a' ↔ (w.rb.level j).Live a')
      ((hord i).live_getData w.rb.store hnext a') (fun _ _ => Iff.rfl) j
  have hpend : ∀ e j a', ((w.clientGetData id c).rb.level j).Pending e a' ↔
      (w.rb.level j).Pending e a' ∧ ¬ (e = c ∧ a' = a) :=
    pending_clientGetData hc hord hmem _ hav hnext
  constructor
  · apply hcur.of_holds
    exact htidy.holds_iff hs hlive
  · refine .deliver c r.topic ?_ rfl (fun e _ he => ?_) (fun e _ he => ?_) ?_ ?_
    · show {e | e ∈ (w.rb.clientGetData _ c).2.clientList} = _
      rw [hrb]
      rfl
    · show tableOf gen ((w.clientGetData id c).received e) = tableOf gen (w.received e)
      rw [hrec, Function.update_of_ne he]
    · ext t
      refine (htidy.mem_pendingTopics hs (hpend e) t).trans ?_
      simp only [he, false_and, not_false_eq_true, and_true]
      exact Iff.rfl
    · show tableOf gen ((w.clientGetData id c).received c)
        = Function.update (tableOf gen (w.received c)) r.topic (w.table gen r.topic)
      rw [hrec, Function.update_self, tableOf_concat, (hs.topic a r hr).2,
        hcur.entry hs hH hc.kind hr]
    · -- with one route for each topic, what is done with is the topic
      ext t
      refine (htidy.mem_pendingTopics hs (hpend c) t).trans ?_
      constructor
      · rintro ⟨j, a', r', ⟨hp', hne⟩, hr', ht⟩
        refine ⟨⟨j, a', r', hp', hr', ht⟩, fun he => hne ⟨rfl, ?_⟩⟩
        exact hH.eq hr' hr (ht.trans he)
      · rintro ⟨⟨j, a', r', hp', hr', ht⟩, hne⟩
        refine ⟨j, a', r', ⟨hp', fun hx => hne ?_⟩, hr', ht⟩
        rw [hx.2, hr] at hr'
        rw [Set.mem_singleton_iff, ← ht, Option.some.inj hr']

theorem clientGetData_step {w : RouteWorld Addr Cl Topic Data} (hc : Consistent gen w.rb)
    (hH : w.rb.store.Hashed) (hord : ∀ i, (w.rb.level i).Ordered)
    (hcur : Current w.rb (w.table gen)) (hmem : c ∈ w.rb.clientList) :
    Current (w.clientGetData id c).rb ((w.clientGetData id c).table gen) ∧
      Feed.Step (w.feed gen) ((w.clientGetData id c).feed gen) := by
  cases hav : w.rb.dataAvailableForClient c with
  | none =>
    have hget : w.rb.clientGetData (fun d => some (id d)) c = ((none, none), w.rb) := by
      unfold RouteBroker.clientGetData
      rw [hav]
    have hsame : w.clientGetData id c = w := by
      unfold RouteWorld.clientGetData
      rw [hget]
      simp
    rw [hsame]
    exact ⟨hcur, .idle subset_rfl rfl (fun _ _ => rfl) (fun _ _ => rfl)⟩
  | some i =>
    cases hnext : brokerGetNextDataObj (w.rb.level i) (.client c) with
    | none => exact clientGetData_step_phantom hc hcur hmem hav hnext
    | some x =>
      obtain ⟨a, rfl, -, -⟩ := getNextDataObj_eq_some (hc.sound.linked i) hnext
      exact clientGetData_step_object hc hH hord hcur hmem hav hnext

end Clients

/-! ## Publishing -/

/-- From `rb` to `rb'` only routes with the topic `t` changed. -/
structure TouchesTopic (t : Topic) (rb rb' : RouteBroker Addr Cl Topic Data) : Prop where
  heap : ∀ a r, r.topic ≠ t → (rb'.store.heap a = some r ↔ rb.store.heap a = some r)
  deleted : ∀ a r, rb.store.heap a = some r → r.topic ≠ t →
    ∀ i, ((rb'.level i).Deleted a ↔ (rb.level i).Deleted a)
  pending : ∀ a r, rb.store.heap a = some r → r.topic ≠ t →
    ∀ i c, ((rb'.level i).Pending c a ↔ (rb.level i).Pending c a)

section Publish

variable {gen : Data → ℤ × Topic × Bool} {rb rb' rb'' : RouteBroker Addr Cl Topic Data} {a : Addr}
  {route : RibRoute Topic Data} {del : Bool} {t : Topic}

omit [DecidableEq Addr] [DecidableEq Cl] [DecidableEq Topic] in
theorem TouchesTopic.trans (h : TouchesTopic t rb rb') (h' : TouchesTopic t rb' rb'') :
    TouchesTopic t rb rb'' := by
  refine ⟨fun a r ht => (h'.heap a r ht).trans (h.heap a r ht), fun a r hr ht i => ?_,
    fun a r hr ht i c => ?_⟩
  · exact (h'.deleted a r ((h.heap a r ht).mpr hr) ht i).trans (h.deleted a r hr ht i)
  · exact (h'.pending a r ((h.heap a r ht).mpr hr) ht i c).trans (h.pending a r hr ht i c)

omit [DecidableEq Addr] [DecidableEq Cl] [DecidableEq Topic] in
/-- A call about one route, if that has the topic `t` before and after. -/
theorem Touches.topic (h : Touches a rb rb') (hbefore : ∀ r, rb.store.heap a = some r → r.topic = t)
    (hafter : ∀ r, rb'.store.heap a = some r → r.topic = t) : TouchesTopic t rb rb' := by
  have hne : ∀ a' r, rb.store.heap a' = some r → r.topic ≠ t → a' ≠ a :=
    fun a' r hr ht he => ht (hbefore r (he ▸ hr))
  refine ⟨fun a' r ht => ⟨fun hr => ?_, fun hr => ?_⟩, fun a' r hr ht i => ?_,
    fun a' r hr ht i c => ?_⟩
  · have hne' : a' ≠ a := fun he => ht (hafter r (he ▸ hr))
    rw [← h.heap a' hne']
    exact hr
  · rw [h.heap a' (hne a' r hr ht)]
    exact hr
  · exact h.deleted i a' (hne a' r hr ht)
  · exact h.pending i c a' (hne a' r hr ht)

omit [DecidableEq Addr] [DecidableEq Cl] in
theorem touchesTopic_zhashInsert (hnone : rb.store.hash t = none) (a : Addr) :
    TouchesTopic t rb (rb.zhashInsert t a) := by
  have hheap : (rb.zhashInsert t a).store.heap = rb.store.heap := by
    rw [zhashInsert_store hnone]
  exact ⟨fun _ _ _ => by rw [hheap], fun _ _ _ _ _ => Iff.rfl, fun _ _ _ _ _ _ => Iff.rfl⟩

theorem touchesTopic_addObj (hs : Sound gen rb) (hp : Prepared gen rb a route del) :
    TouchesTopic route.topic rb (rb.addObj a route) := by
  refine (touches_addObj hs hp.refcount).topic (fun r hr => ?_) (fun r hr => ?_)
  · rw [hp.free] at hr
    exact nomatch hr
  · rw [addObj_heap_self hp] at hr
    rw [← Option.some.inj hr]

omit [DecidableEq Cl] [DecidableEq Topic] in
theorem touchesTopic_setData (rb : RouteBroker Addr Cl Topic Data) {h : Addr}
    {hashed : RibRoute Topic Data} (hheap : rb.store.heap h = some hashed)
    (ht : hashed.topic = t) (d : Data) : TouchesTopic t rb (rb.setData h hashed d) := by
  refine (touches_setData rb h hashed d).topic (fun r hr => ?_) (fun r hr => ?_)
  · rw [hheap] at hr
    rw [← Option.some.inj hr, ht]
  · rw [setData_heap_self] at hr
    rw [← Option.some.inj hr, ← ht]

theorem touchesTopic_delObj (hs : Sound gen rb) {h : Addr} {hashed : RibRoute Topic Data}
    (hheap : rb.store.heap h = some hashed) (ht : hashed.topic = t) {i : Level}
    (hi : hashed.pri = i) : TouchesTopic t rb (rb.delObj i h) := by
  subst hi
  have hlist := hs.listed_of_heap hheap
  refine (touches_delObj hs hlist).topic (fun r hr => ?_) (fun r hr => ?_)
  · rw [hheap] at hr
    rw [← Option.some.inj hr, ht]
  -- the route is gone, or it is there with the mark
  · by_cases hc : (rb.level hashed.pri).clientList = []
    · rw [delObj_of_no_clients hc, delObjNow_store hs hheap] at hr
      simp [Store.free] at hr
    · rw [delObj_of_clients hc] at hr
      have hr' : some hashed = some r := hheap.symm.trans hr
      rw [← Option.some.inj hr', ht]

omit [DecidableEq Cl] in
theorem Freed.touchesTopic {h : Addr} {hashed : RibRoute Topic Data}
    (hf : Freed gen rb h hashed rb') (hheap : rb.store.heap h = some hashed)
    (ht : hashed.topic = t) : TouchesTopic t rb rb' := by
  refine hf.touches.topic (fun r hr => ?_) (fun r hr => ?_)
  · rw [hheap] at hr
    rw [← Option.some.inj hr, ht]
  · rw [hf.store] at hr
    simp [Store.free] at hr

/-- A publish is about its own topic. -/
theorem Published.touchesTopic (hs : Sound gen rb) (hp : Prepared gen rb a route del)
    (hpub : Published rb a route del rb') : TouchesTopic route.topic rb rb' := by
  cases hpub with
  | unknown hnone =>
    exact ⟨fun _ _ _ => Iff.rfl, fun _ _ _ _ _ => Iff.rfl, fun _ _ _ _ _ _ => Iff.rfl⟩
  | added hnone =>
    refine (touchesTopic_addObj hs hp).trans (touchesTopic_zhashInsert ?_ a)
    rw [addObj_hash]
    exact hnone
  | @deleted h hashed hh hheap hpri =>
    have htopic := hs.hashed_topic hh hheap
    have hs' := hp.sound_setData hs hh hheap
    exact (touchesTopic_setData rb hheap htopic route.data).trans
      (touchesTopic_delObj hs' (setData_heap_self rb h hashed route.data) htopic rfl)
  | @updated h hashed hh hheap hpri =>
    have htopic := hs.hashed_topic hh hheap
    have hs' := hp.sound_setData hs hh hheap
    rw [updObj_eq_mark]
    refine (touchesTopic_setData rb hheap htopic route.data).trans
      ((touches_mark hs' hashed.pri h false).topic (fun r hr => ?_) (fun r hr => ?_)) <;>
    · have hr' := (setData_heap_self rb h hashed route.data).symm.trans hr
      rw [← Option.some.inj hr', ← htopic]
  | @movedDeleted h hashed hh hheap hpri =>
    have htopic := hs.hashed_topic hh hheap
    have hf := freed_delObjNow hs hheap
    have hp' := hp.of_freed hf hheap
    have hs' := hf.sound.addObj hp'.free hp'.refcount hp'.gen_ok
    exact (hf.touchesTopic hheap htopic).trans ((touchesTopic_addObj hf.sound hp').trans
      (touchesTopic_delObj hs' (addObj_heap_self hp') rfl rfl))
  | @moved h hashed hh hheap hpri =>
    have htopic := hs.hashed_topic hh hheap
    have hf := freed_delObjNow hs hheap
    have hp' := hp.of_freed hf hheap
    refine (hf.touchesTopic hheap htopic).trans ((touchesTopic_addObj hf.sound hp').trans
      (touchesTopic_zhashInsert ?_ a))
    rw [addObj_hash]
    exact hf.hash_eq_none htopic

/-- What a publish of `d` for the topic `t` leaves: the route of the topic, marked if it
was a delete and pending for every client, or, with nobody to tell about the delete,
nothing. -/
inductive Announced (t : Topic) (d : Data) (del : Bool) (rb : RouteBroker Addr Cl Topic Data) : Prop
  | stored (x : Addr) (r : RibRoute Topic Data) (hr : rb.store.heap x = some r)
    (htopic : r.topic = t) (hdata : r.data = d)
    (hdeleted : (rb.level r.pri).Deleted x ↔ del = true)
    (hpending : ∀ c ∈ (rb.level r.pri).clientList, (rb.level r.pri).Pending c x)
  | gone (hdel : del = true) (hclients : rb.clientList = [])
    (hnone : ∀ x r, rb.store.heap x = some r → r.topic ≠ t)

omit [DecidableEq Cl] in
theorem Store.Hashed.free_topic_ne {s : Store Addr Topic Data} (h : s.Hashed) {x : Addr}
    {r : RibRoute Topic Data} (hx : s.heap x = some r) {y : Addr} {r' : RibRoute Topic Data}
    (hy : (s.free x r.topic).heap y = some r') : r'.topic ≠ r.topic := by
  intro ht
  by_cases he : y = x
  · simp [Store.free, he] at hy
  · have hr' : s.heap y = some r' := by simpa [Store.free, he] using hy
    exact he (h.eq hr' hx ht)

theorem announced_added (hs : Sound gen rb) (hp : Prepared gen rb a route false)
    (hnone : rb.store.hash route.topic = none) :
    Announced route.topic route.data false ((rb.addObj a route).zhashInsert route.topic a) := by
  have hhash : (rb.addObj a route).store.hash route.topic = none := by
    rw [addObj_hash]
    exact hnone
  have hheap : ((rb.addObj a route).zhashInsert route.topic a).store.heap a
      = some { route with refcount := 1 } := by
    rw [zhashInsert_store hhash]
    exact addObj_heap_self hp
  have hself : ¬ ((rb.addObj a route).level route.pri).Deleted a ∧ _ := addObj_self hs
  obtain ⟨hnot, hpend⟩ := hself
  have hclients := (sameClients_addObj rb a route).levels route.pri
  refine .stored a _ hheap rfl rfl (iff_of_false hnot Bool.false_ne_true) (fun c hc => hpend c ?_)
  rw [← hclients]
  exact hc

theorem announced_delObj (hc : Consistent gen rb) (hH : rb.store.Hashed) {h : Addr}
    {hashed : RibRoute Topic Data} (hheap : rb.store.heap h = some hashed) {d : Data}
    (hgen : 0 < (gen d).1 ∧ (gen d).2.1 = hashed.topic) :
    Announced hashed.topic d true ((rb.setData h hashed d).delObj hashed.pri h) := by
  have hs' := hc.sound.setData hheap hgen
  have hset := setData_heap_self rb h hashed d
  -- with nobody to tell, the route and its entry go at once
  by_cases hnil : rb.clientList = []
  · have hlevel : ((rb.setData h hashed d).level hashed.pri).clientList = [] :=
      (hc.wired.clients hashed.pri).trans hnil
    rw [delObj_of_no_clients hlevel]
    refine .gone rfl hnil (fun x r hr => ?_)
    rw [delObjNow_store hs' hset] at hr
    exact (hH.setData hheap d).free_topic_ne hset hr
  · have hlevel : ((rb.setData h hashed d).level hashed.pri).clientList ≠ [] := by
      intro he
      exact hnil ((hc.wired.clients hashed.pri).symm.trans he)
    rw [delObj_of_clients hlevel]
    obtain ⟨hmark, hpend⟩ := mark_self hs' hashed.pri h true
    refine .stored h _ hset rfl rfl hmark (fun c hmem => hpend c ?_)
    rw [← (touches_mark hs' hashed.pri h true).clients]
    exact hmem

/-- **A publish that finds something to do announces its message**, unless it is an
overtaking delete. -/
theorem Published.announced (hc : Consistent gen rb) (hH : rb.store.Hashed)
    (hp : Prepared gen rb a route del) (hpub : Published rb a route del rb')
    (hH' : rb'.store.Hashed) :
    (rb' = rb ∧ del = true ∧ rb.store.hash route.topic = none) ∨
      Announced route.topic route.data del rb' := by
  have hs := hc.sound
  cases hpub with
  | unknown hnone => exact Or.inl ⟨rfl, rfl, hnone⟩
  | added hnone => exact Or.inr (announced_added hs hp hnone)
  | @deleted h hashed hh hheap hpri =>
    have htopic := hs.hashed_topic hh hheap
    right
    rw [← htopic]
    exact announced_delObj hc hH hheap ⟨hp.gen_pos, hp.gen_topic.trans htopic.symm⟩
  | @updated h hashed hh hheap hpri =>
    have htopic := hs.hashed_topic hh hheap
    have hs' := hp.sound_setData hs hh hheap
    have hset := setData_heap_self rb h hashed route.data
    right
    rw [updObj_eq_mark]
    obtain ⟨hmark, hpend⟩ := mark_self hs' hashed.pri h false
    refine .stored h _ hset htopic rfl hmark (fun c hmem => hpend c ?_)
    rw [← (touches_mark hs' hashed.pri h false).clients]
    exact hmem
  | @movedDeleted h hashed hh hheap hpri =>
    have htopic := hs.hashed_topic hh hheap
    have hf := freed_delObjNow hs hheap
    have hp' := hp.of_freed hf hheap
    have hnone := hf.hash_eq_none htopic
    have hclients : ((rb.delObjNow hashed.pri h).level route.pri).clientList = rb.clientList :=
      (hf.touches.clients route.pri).trans (hc.wired.clients route.pri)
    by_cases hnil : rb.clientList = []
    · right
      refine .gone rfl hnil (fun x r hr => ?_)
      rw [movedDeleted_store hf.sound hp' hnone (hclients.trans hnil), hf.store] at hr
      rw [← htopic]
      exact hH.free_topic_ne hheap hr
    · have hne : ((rb.delObjNow hashed.pri h).level route.pri).clientList ≠ [] := by
        rw [hclients]
        exact hnil
      -- this is the overtaking delete
      exact absurd hH' (not_hashed_movedDeleted hf.sound hp' hnone hne)
  | @moved h hashed hh hheap hpri =>
    have hf := freed_delObjNow hs hheap
    have hp' := hp.of_freed hf hheap
    have hnone := hf.hash_eq_none (hs.hashed_topic hh hheap)
    exact Or.inr (announced_added hf.sound hp' hnone)

omit [DecidableEq Addr] [DecidableEq Cl] [DecidableEq Topic] in
/-- What is held for the other topics. -/
theorem TouchesTopic.holds_iff (h : TouchesTopic t rb rb') (hs : Sound gen rb)
    (hs' : Sound gen rb') {t' : Topic} (ht : t' ≠ t) (d : Data) :
    rb'.Holds t' d ↔ rb.Holds t' d := by
  constructor
  · rintro ⟨x, r, hr, rfl, hd, hlive⟩
    have hr' := (h.heap x r ht).mp hr
    exact ⟨x, r, hr', rfl, hd, hs.listed_of_heap hr',
      fun hdel => hlive.2 ((h.deleted x r hr' ht r.pri).mpr hdel)⟩
  · rintro ⟨x, r, hr, rfl, hd, hlive⟩
    have hr' := (h.heap x r ht).mpr hr
    exact ⟨x, r, hr', rfl, hd, hs'.listed_of_heap hr',
      fun hdel => hlive.2 ((h.deleted x r hr ht r.pri).mp hdel)⟩

omit [DecidableEq Addr] [DecidableEq Cl] [DecidableEq Topic] in
theorem TouchesTopic.mem_pendingTopics (h : TouchesTopic t rb rb') {t' : Topic} (ht : t' ≠ t)
    (e : Cl) : t' ∈ rb'.pendingTopics e ↔ t' ∈ rb.pendingTopics e := by
  constructor
  · rintro ⟨i, x, r, hp, hr, rfl⟩
    have hr' := (h.heap x r ht).mp hr
    exact ⟨i, x, r, (h.pending x r hr' ht i e).mp hp, hr', rfl⟩
  · rintro ⟨i, x, r, hp, hr, rfl⟩
    exact ⟨i, x, r, (h.pending x r hr ht i e).mpr hp, (h.heap x r ht).mpr hr, rfl⟩

omit [DecidableEq Addr] [DecidableEq Cl] [DecidableEq Topic] in
/-- What is held for the topic itself. -/
theorem Announced.holds_iff {d : Data} (h : Announced t d del rb) (hs : Sound gen rb)
    (hH : rb.store.Hashed) (d' : Data) :
    rb.Holds t d' ↔ (if del then none else some d) = some d' := by
  cases h with
  | stored x r hr htopic hdata hdeleted hpending =>
    constructor
    · rintro ⟨x', r', hr', htopic', rfl, hlive⟩
      -- there is only one route with this topic
      obtain rfl := hH.eq hr' hr (htopic'.trans htopic.symm)
      obtain rfl := Option.some.inj (hr'.symm.trans hr)
      rw [if_neg (fun hd => hlive.2 (hdeleted.mpr hd)), hdata]
    · intro hd
      cases del with
      | true => exact nomatch hd
      | false =>
        refine ⟨x, r, hr, htopic, hdata.trans (Option.some.inj hd), hs.listed_of_heap hr, ?_⟩
        exact fun hx => Bool.false_ne_true (hdeleted.mp hx)
  | gone hdel hclients hnone =>
    rw [hdel, if_pos rfl]
    constructor
    · rintro ⟨x, r, hr, htopic, -⟩
      exact absurd htopic (hnone x r hr)
    · exact fun hd => nomatch hd

omit [DecidableEq Addr] [DecidableEq Cl] [DecidableEq Topic] in
/-- Everybody has to be told. -/
theorem Announced.mem_pendingTopics {d : Data} (h : Announced t d del rb) (hw : Wired rb) {e : Cl}
    (he : e ∈ rb.clientList) : t ∈ rb.pendingTopics e := by
  cases h with
  | stored x r hr htopic hdata hdeleted hpending =>
    refine ⟨r.pri, x, r, hpending e ?_, hr, htopic⟩
    rw [hw.clients]
    exact he
  | gone hdel hclients hnone =>
    rw [hclients] at he
    exact absurd he List.not_mem_nil

variable {w : RouteWorld Addr Cl Topic Data} {obj : Data} {pri : Level}

theorem table_publish_of_pos (h : 0 < (gen obj).1) : (w.publish gen id a obj pri).table gen
    = Function.update (w.table gen) (gen obj).2.1 (if (gen obj).2.2 then none else some obj) := by
  have hpublished : (w.publish gen id a obj pri).published = w.published ++ [obj] := rfl
  have hkept : [obj].filter (fun d => 0 < (gen d).1) = [obj] := by simp [h]
  unfold RouteWorld.table
  rw [hpublished, List.filter_append, hkept, tableOf_concat]

theorem table_publish_of_ignored (h : (gen obj).1 ≤ 0) :
    (w.publish gen id a obj pri).table gen = w.table gen := by
  have hpublished : (w.publish gen id a obj pri).published = w.published ++ [obj] := rfl
  have hdropped : [obj].filter (fun d => 0 < (gen d).1) = [] := by simp [h]
  unfold RouteWorld.table
  rw [hpublished, List.filter_append, hdropped, List.append_nil]

/-- A publish that changes neither the table nor what the broker stores. -/
theorem publish_step_idle (hcur : Current w.rb (w.table gen))
    (htable : (w.publish gen id a obj pri).table gen = w.table gen)
    (hlevel : (w.publish gen id a obj pri).rb.level = w.rb.level)
    (hstore : (w.publish gen id a obj pri).rb.store = w.rb.store)
    (hclients : (w.publish gen id a obj pri).rb.clientList = w.rb.clientList) :
    Current (w.publish gen id a obj pri).rb ((w.publish gen id a obj pri).table gen) ∧
      Feed.Step (w.feed gen) ((w.publish gen id a obj pri).feed gen) := by
  refine ⟨?_, .idle ?_ htable (fun _ _ => rfl) (fun e _ => ?_)⟩
  · rw [htable]
    refine hcur.of_holds (fun t d => ?_)
    unfold RouteBroker.Holds
    rw [hlevel, hstore]
  · show {e | e ∈ (w.publish gen id a obj pri).rb.clientList} ⊆ _
    rw [hclients]
    exact subset_rfl
  · show (w.publish gen id a obj pri).rb.pendingTopics e = w.rb.pendingTopics e
    unfold RouteBroker.pendingTopics
    rw [hlevel, hstore]

theorem publish_step (hc : Consistent gen w.rb) (hH : w.rb.store.Hashed)
    (ha : w.rb.store.heap a = none) (hH' : (w.publish gen id a obj pri).rb.store.Hashed)
    (hcur : Current w.rb (w.table gen)) :
    Current (w.publish gen id a obj pri).rb ((w.publish gen id a obj pri).table gen) ∧
      Feed.Step (w.feed gen) ((w.publish gen id a obj pri).feed gen) := by
  by_cases hpos : 0 < (gen obj).1
  · have htable : (w.publish gen id a obj pri).table gen = _ := table_publish_of_pos hpos
    have hc' := hc.counted
    have hrb : (w.publish gen id a obj pri).rb
        = w.rb.counted.publishRoute a (newRoute gen obj pri) (gen obj).2.2 :=
      publish_rb_of_pos w hpos
    have hprep : Prepared gen w.rb.counted a (newRoute gen obj pri) (gen obj).2.2 :=
      prepared_newRoute ha hpos
    have hpub : Published w.rb.counted a (newRoute gen obj pri) (gen obj).2.2
        (w.publish gen id a obj pri).rb := by
      rw [hrb]
      exact publishRoute_published hc'.sound a _ _
    have hclients : (w.publish gen id a obj pri).rb.clientList = w.rb.clientList :=
      hpub.sameClients.clientList
    rcases hpub.announced hc' hH hprep hH' with ⟨hsame, hdel, hnone⟩ | hann
    · -- a delete of a topic that nobody knows
      have hunchanged : (w.publish gen id a obj pri).table gen = w.table gen := by
        rw [htable, if_pos hdel]
        exact Function.update_eq_self_iff.mpr (hcur.none_of_hash hH hnone).symm
      refine publish_step_idle hcur hunchanged ?_ ?_ hclients
      · rw [hsame]
        rfl
      · rw [hsame]
        rfl
    · have hnew : Consistent gen (w.publish gen id a obj pri).rb := hc'.published hprep hpub
      have htouch := hpub.touchesTopic hc'.sound hprep
      refine ⟨fun t d => ?_, .change (gen obj).2.1 (if (gen obj).2.2 then none else some obj) ?_
        htable (fun _ _ => rfl) (fun e he => ?_)⟩
      -- for its own topic the message counts, for the others nothing has changed
      · rw [htable]
        by_cases ht : t = (gen obj).2.1
        · rw [ht, Function.update_self]
          exact (hann.holds_iff hnew.sound hH' d).symm
        · rw [Function.update_of_ne ht]
          exact (hcur t d).trans (htouch.holds_iff hc'.sound hnew.sound ht d).symm
      · show {e | e ∈ (w.publish gen id a obj pri).rb.clientList} = _
        rw [hclients]
        rfl
      · ext t
        rw [Set.mem_insert_iff]
        by_cases ht : t = (gen obj).2.1
        · rw [ht]
          exact iff_of_true (hann.mem_pendingTopics hnew.wired he) (Or.inl rfl)
        · exact (htouch.mem_pendingTopics ht e).trans (or_iff_right ht).symm
  · have hrb : (w.publish gen id a obj pri).rb = { w.rb.counted with ignored := w.rb.ignored + 1 } :=
      publish_rb_of_ignored w (not_lt.mp hpos)
    refine publish_step_idle hcur (table_publish_of_ignored (not_lt.mp hpos)) ?_ ?_ ?_ <;>
    · rw [hrb]
      rfl

end Publish

/-! ## Runs -/

section Runs

variable {gen : Data → ℤ × Topic × Bool} {w w' : RouteWorld Addr Cl Topic Data}

/-- **Every call is a move of the feed**, as long as the topics and the routes agree
before and after it. -/
theorem routeCall_step {x : RouteCall Addr Cl Data} (hstep : w.call gen id x = some w')
    (hc : Consistent gen w.rb) (hord : ∀ i, (w.rb.level i).Ordered) (hH : w.rb.store.Hashed)
    (hH' : w'.rb.store.Hashed) (hcur : Current w.rb (w.table gen)) :
    Current w'.rb (w'.table gen) ∧ Feed.Step (w.feed gen) (w'.feed gen) := by
  cases x with
  | publish a obj pri =>
    obtain ⟨ha, rfl⟩ := routeCall_publish.mp hstep
    exact publish_step hc hH ha hH' hcur
  | clientCreate c name =>
    obtain ⟨-, rfl⟩ := routeCall_clientCreate.mp hstep
    exact clientCreate_step hcur name
  | clientDelete c =>
    obtain ⟨hmem, rfl⟩ := routeCall_clientDelete.mp hstep
    exact clientDelete_step hc hord hcur hmem
  | clientGetData c =>
    obtain ⟨hmem, rfl⟩ := routeCall_clientGetData.mp hstep
    exact clientGetData_step hc hH hord hcur hmem

/-- What holds along the runs without overtaking deletes. -/
structure Converging (gen : Data → ℤ × Topic × Bool) (w : RouteWorld Addr Cl Topic Data) :
    Prop where
  reachable : (routeSystem Addr Cl gen id).Reachable w
  hashed : w.rb.store.Hashed
  synced : (∀ i, (w.rb.level i).increments < 2 ^ 64) →
    Current w.rb (w.table gen) ∧ (w.feed gen).Synced

theorem converging_start : Converging gen (RouteWorld.start : RouteWorld Addr Cl Topic Data) where
  reachable := ⟨[], rfl⟩
  hashed := hashed_start
  synced := fun _ => ⟨fun _ _ => ⟨fun h => (nomatch h), fun ⟨_, _, h, _⟩ => (nomatch h)⟩,
    fun _ h => absurd h List.not_mem_nil⟩

theorem Converging.step (h : Converging gen w) {x : RouteCall Addr Cl Data}
    (hG : ¬ w.DeleteOvertakes gen id x)
    (hstep : (routeSystem Addr Cl gen id).step w x = some w') : Converging gen w' := by
  have hc := reachable_consistent h.reachable
  have hH' := (routeCall_hashed_iff hstep hc h.hashed).mpr hG
  refine ⟨h.reachable.step hstep, hH', fun hw' => ?_⟩
  have hkeep := routeCall_keepsOrder hstep hc
  have hw : ∀ i, (w.rb.level i).increments < 2 ^ 64 :=
    fun i => lt_of_le_of_lt (hkeep i).1 (hw' i)
  obtain ⟨hcur, hsync⟩ := h.synced hw
  obtain ⟨hcur', hmove⟩ := routeCall_step hstep hc (reachable_levels_ordered h.reachable hw)
    h.hashed hH' hcur
  exact ⟨hcur', hmove.synced hsync⟩

omit [DecidableEq Addr] [DecidableEq Cl] [DecidableEq Topic] in
/-- A client with nothing after its cursors has nothing pending. -/
theorem pendingTopics_eq_empty {rb : RouteBroker Addr Cl Topic Data} {c : Cl}
    (h : ∀ i a, ¬ (rb.level i).Pending c a) : rb.pendingTopics c = ∅ := by
  rw [Set.eq_empty_iff_forall_notMem]
  rintro t ⟨i, a, r, hp, -⟩
  exact h i a hp

/-- **End-to-end convergence.**  Take any run of publishes, client creations, deletions
and reads that makes no overtaking delete and in which no level counts up its id `2^64`
times.  Whenever a client has drained, that is, no data object lies after its cursor in
any level, the table of the messages it received since it was created is the table of
all published messages that were not ignored. -/
theorem drained_client_converges {xs : List (RouteCall Addr Cl Data)}
    (hexec : (routeSystem Addr Cl gen id).exec .start xs = some w)
    (hover : (routeSystem Addr Cl gen id).Guarded (fun w x => ¬ w.DeleteOvertakes gen id x)
      .start xs)
    (hw : ∀ i, (w.rb.level i).increments < 2 ^ 64) (c : Cl) (hc : c ∈ w.rb.clientList)
    (hdrained : ∀ i a, ¬ Precedes (w.rb.level i).objList (.client c) (.obj a)) :
    tableOf gen (w.received c) = tableOf gen (w.published.filter fun d => 0 < (gen d).1) := by
  have hconv : Converging gen w :=
    System.exec_guarded_induction (P := Converging gen) (fun _ _ _ h hG hstep => h.step hG hstep)
      hexec hover converging_start
  exact (hconv.synced hw).2.view_eq_table hc (pendingTopics_eq_empty hdrained)

end Runs

/-- The calls of a run with a late client: the topic `7` moves to level `0` and is deleted
there after the second client came. -/
def lateClientCalls : List (RouteCall ℕ ℕ (ℕ × ℕ × Bool)) :=
  [.clientCreate 0 "dp0", .publish 100 (7, 1, false) 2, .publish 101 (8, 1, false) 1,
    .clientGetData 0, .publish 102 (7, 2, false) 0, .clientCreate 1 "dp1",
    .publish 103 (7, 3, true) 1, .clientGetData 1, .clientGetData 1]

/-- The theorem at this run, for the late client. -/
theorem drained_client_converges_late :
    ∃ w, (routeSystem ℕ ℕ plainGen id).exec .start lateClientCalls = some w ∧
      1 ∈ w.rb.clientList ∧ w.received 1 = [(7, 3, true), (8, 1, false)] ∧
      tableOf plainGen (w.received 1)
        = tableOf plainGen (w.published.filter fun d => 0 < (plainGen d).1) := by
  obtain ⟨w, hexec, hp⟩ := (routeSystem ℕ ℕ plainGen id).exists_of_exec_any .start
    lateClientCalls
    (fun w => decide ((∀ i, (w.rb.level i).increments < 2 ^ 64) ∧ 1 ∈ w.rb.clientList ∧
      w.received 1 = [(7, 3, true), (8, 1, false)] ∧
      ∀ i, brokerGetNextDataObj (w.rb.level i) (.client 1) = none)) (by decide +kernel)
  rw [decide_eq_true_eq] at hp
  obtain ⟨hw, hc, hrec, hnext⟩ := hp
  have hs := (reachable_consistent ⟨_, hexec⟩).sound
  refine ⟨w, hexec, hc, hrec,
    drained_client_converges hexec (by decide +kernel) hw 1 hc (fun i a => ?_)⟩
  exact (getNextDataObj_eq_none (hs.linked i)).mp (hnext i) a

/-- An overtaking delete loses a later one.  The topic `7` is stored in level `2`, deleted
with the priority `0` and added again in level `2` before the client has read the
tombstone.  Reading that one frees it, and with it goes the entry of the new route; so
the last delete finds nothing to delete.  The client has read everything and still
holds the topic. -/
theorem lost_delete :
    ∃ w, (routeSystem ℕ ℕ plainGen id).exec .start [.clientCreate 0 "dp",
        .publish 100 (7, 1, false) 2, .clientGetData 0, .publish 101 (7, 2, true) 0,
        .publish 102 (7, 3, false) 2, .clientGetData 0, .clientGetData 0,
        .publish 103 (7, 4, true) 2] = some w ∧
      0 ∈ w.rb.clientList ∧
      (∀ i a, ¬ Precedes (w.rb.level i).objList (.client 0) (.obj a)) ∧
      tableOf plainGen (w.received 0) 7 = some (7, 3, false) ∧
      tableOf plainGen (w.published.filter fun d => 0 < (plainGen d).1) 7 = none := by
  obtain ⟨w, hexec, hp⟩ := (routeSystem ℕ ℕ plainGen id).exists_of_exec_any .start
    [.clientCreate 0 "dp", .publish 100 (7, 1, false) 2, .clientGetData 0,
      .publish 101 (7, 2, true) 0, .publish 102 (7, 3, false) 2, .clientGetData 0,
      .clientGetData 0, .publish 103 (7, 4, true) 2]
    (fun w => decide (0 ∈ w.rb.clientList ∧
      (∀ i, brokerGetNextDataObj (w.rb.level i) (.client 0) = none) ∧
      tableOf plainGen (w.received 0) 7 = some (7, 3, false) ∧
      tableOf plainGen (w.published.filter fun d => 0 < (plainGen d).1) 7 = none))
    (by decide +kernel)
  rw [decide_eq_true_eq] at hp
  obtain ⟨hc, hnext, hview, htable⟩ := hp
  have hs := (reachable_consistent ⟨_, hexec⟩).sound
  refine ⟨w, hexec, hc, fun i a => ?_, hview, htable⟩
  exact (getNextDataObj_eq_none (hs.linked i)).mp (hnext i) a
