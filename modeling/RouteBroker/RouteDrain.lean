/-
# What a client will be answered

A client of the route broker reads level after level.  What the calls of
`route_broker_client_get_data` will return to it, as long as nothing is published, is a list
that can be read off the state: the `script` of the client.  Each level contributes the
objects that are due, first to last, and then one `NULL` if the id of the client will still
differ from the one of the level.  When the script is over, a call finds nothing and waits.

Every read takes the head of the script (`script_read`), and the calls of other clients do
not change it (`Same.script_eq`).

Main result: `reads_follow_script`.
-/
import RouteBroker.BrokerDelivery
import RouteBroker.RouteConverge

open Circleq Broker

variable {Addr Cl Topic Data Obj Ext Msg : Type*}

/-! ## One level -/

section Level

variable [DecidableEq Obj] [DecidableEq Cl]

/-- The id of the client when it has read all that is due. -/
def Broker.lastId (b : Broker Obj Cl) (c : Cl) : ℕ :=
  match (b.due c).getLast? with
  | some o => (b.bobj (.obj o)).id
  | none => (b.bobj (.client c)).id

/-- What the level has for the client: the objects that are due, and `NULL` once, if its
own id will differ from that of the client. -/
def Broker.answers (b : Broker Obj Cl) (c : Cl) : List (Option Obj) :=
  (b.due c).map some ++ if b.lastId c = b.id then [] else [none]

/-- The same for the client: what is due, and all ids. -/
structure SameLevel (c : Cl) (b b' : Broker Obj Cl) : Prop where
  ordered : b'.Ordered
  id : b'.id = b.id
  due : b'.due c = b.due c
  objId : ∀ o, (b'.bobj (.obj o)).id = (b.bobj (.obj o)).id
  cursor : (b'.bobj (.client c)).id = (b.bobj (.client c)).id

variable {b b' : Broker Obj Cl} {c e : Cl} {o : Obj} {ops : BrokerOps Obj Cl Ext}
  {cops : BrokerClientOps Obj Cl Ext Msg}

theorem SameLevel.refl (hb : b.Ordered) : SameLevel c b b := ⟨hb, rfl, rfl, fun _ => rfl, rfl⟩

theorem SameLevel.lastId_eq (h : SameLevel c b b') : b'.lastId c = b.lastId c := by
  unfold lastId
  rw [h.due]
  cases (b.due c).getLast? with
  | none => exact h.cursor
  | some o => exact h.objId o

theorem SameLevel.answers_eq (h : SameLevel c b b') : b'.answers c = b.answers c := by
  unfold answers
  rw [h.due, h.lastId_eq, h.id]

theorem sameLevel_clientCreate (hb : b.Ordered) (hc : c ∈ b.clientList) (he : e ∉ b.clientList)
    (name : String) : SameLevel c b (brokerClientCreate b (some e) (some name)).2 := by
  have hne : c ≠ e := fun h => he (h ▸ hc)
  have hb' := hb.clientCreate he name
  have hbobj : ∀ r, r ≠ .client e →
      (brokerClientCreate b (some e) (some name)).2.bobj r = b.bobj r :=
    fun r => clientCreate_bobj_of_ne b e name
  have hobj : ∀ o, ((brokerClientCreate b (some e) (some name)).2.bobj (.obj o)).id
      = (b.bobj (.obj o)).id := fun o => by rw [hbobj _ (by simp)]
  refine ⟨hb', clientCreate_id b e name, due_congr hb hb' hobj fun o => ?_, hobj, ?_⟩
  · rw [pending_clientCreate]
    simp [hne]
  · rw [hbobj _ (by simpa using hne)]

theorem sameLevel_clientDelete (hb : b.Ordered) (hne : e ≠ c) (s : Ext) :
    SameLevel c b (brokerClientDelete ops b s e).1 := by
  have hb' := hb.clientDelete ops s e
  have hbobj := clientDelete_bobj ops hb.toLinked s e
  refine ⟨hb', clientDelete_id ops hb.toLinked s e, due_congr hb hb' ?_ ?_, ?_, ?_⟩
  · intro o
    rw [hbobj]
  · intro o
    exact (hb.pending_clientDelete s e c o).trans (and_iff_left hne.symm)
  · intro o
    rw [hbobj]
  · rw [hbobj]

theorem sameLevel_getData (hb : b.Ordered) (hne : e ≠ c) (s : Ext) :
    SameLevel c b (brokerClientGetData ops cops b s (some e)).2.1 := by
  have hb' := hb.getData ops cops s (some e)
  have hbobj : ∀ r, r ≠ .client e →
      (brokerClientGetData ops cops b s (some e)).2.1.bobj r = b.bobj r :=
    fun r => getData_bobj_of_ne ops cops s
  have hobj : ∀ o, ((brokerClientGetData ops cops b s (some e)).2.1.bobj (.obj o)).id
      = (b.bobj (.obj o)).id := fun o => by rw [hbobj _ (by simp)]
  refine ⟨hb', getData_id ops cops s (some e), due_congr hb hb' hobj fun o => ?_, hobj, ?_⟩
  · cases hnext : brokerGetNextDataObj b (.client e) with
    | none =>
      rw [getData_of_none ops cops s hnext]
      exact Iff.rfl
    | some r =>
      obtain ⟨o₁, rfl, -, -⟩ := getNextDataObj_eq_some hb.toLinked hnext
      rw [hb.pending_getData s hnext c o]
      exact and_iff_left fun hx => hne hx.1.symm
  · rw [hbobj _ (by simpa using hne.symm)]

/-- A level that the client is not behind in has nothing for it. -/
theorem answers_of_level (hb : b.Ordered) (h : (b.bobj (.client c)).id = b.id) :
    b.answers c = [] := by
  have hnil : b.due c = [] := (due_eq_nil hb.toLinked).mpr (hb.not_pending_of_id_eq h)
  unfold answers lastId
  rw [hnil]
  exact if_pos h

/-- A read that returns an object takes it off. -/
theorem answers_getData_some (hb : b.Ordered) (s : Ext)
    (hnext : brokerGetNextDataObj b (.client c) = some (.obj o)) :
    b.answers c = some o :: (brokerClientGetData ops cops b s (some c)).2.1.answers c := by
  obtain ⟨o₁, ho₁, hp, hmin⟩ := getNextDataObj_eq_some hb.toLinked hnext
  cases ho₁
  have hb' := hb.getData ops cops s (some c)
  have hobj : ∀ o', ((brokerClientGetData ops cops b s (some c)).2.1.bobj (.obj o')).id
      = (b.bobj (.obj o')).id :=
    fun o' => congrArg BrokerObj.id (getData_bobj_of_ne ops cops s (by simp))
  have hdue : b.due c = o :: (brokerClientGetData ops cops b s (some c)).2.1.due c := by
    apply due_eq_cons hb hb' hobj hp hmin
    intro o'
    refine (hb.pending_getData s hnext c o').trans ?_
    exact and_congr_right fun _ => not_congr (and_iff_right rfl)
  have hcursor := getData_client_id ops cops s hnext
  unfold answers
  rw [hdue, List.map_cons, List.cons_append, getData_id]
  congr 2
  -- the last object is the same, unless the one read was the last
  have hlast : b.lastId c = (brokerClientGetData ops cops b s (some c)).2.1.lastId c := by
    unfold lastId
    rw [hdue, List.getLast?_cons]
    cases hrest : ((brokerClientGetData ops cops b s (some c)).2.1.due c).getLast? with
    | none => exact hcursor.symm
    | some o' => exact (hobj o').symm
  rw [hlast]

/-- A read that returns `NULL` is the last one. -/
theorem answers_getData_none (hl : b.Linked) (hbehind : (b.bobj (.client c)).id ≠ b.id)
    (hnext : brokerGetNextDataObj b (.client c) = none) :
    b.answers c = [none] ∧ (b.setId (.client c) b.id).answers c = [] := by
  have hnil : b.due c = [] := (due_eq_nil hl).mpr ((getNextDataObj_eq_none hl).mp hnext)
  have hnil' : (b.setId (.client c) b.id).due c = [] := hnil
  unfold answers lastId
  rw [hnil, hnil']
  constructor
  · exact if_neg hbehind
  · apply if_pos
    show ((b.setId (.client c) b.id).bobj (.client c)).id = b.id
    rw [setId_bobj_id, if_pos rfl]

end Level

/-! ## All levels -/

section Script

variable [DecidableEq Addr] [DecidableEq Cl]

/-- What the calls of the client will return: the level, and the object or `NULL`. -/
def RouteBroker.script (rb : RouteBroker Addr Cl Topic Data) (c : Cl) :
    List (Level × Option Addr) :=
  (List.finRange routePriorityMax).flatMap fun i => ((rb.level i).answers c).map fun x => (i, x)

omit [DecidableEq Addr] [DecidableEq Cl] in
/-- The copy of the data of a route. -/
def RouteBroker.dataAt (copy : Data → Data) (rb : RouteBroker Addr Cl Topic Data) (a : Addr) :
    Option Data :=
  (rb.store.heap a).map fun r => copy r.data

variable [DecidableEq Topic] {gen : Data → ℤ × Topic × Bool} {copy : Data → Data}
  {rb rb' : RouteBroker Addr Cl Topic Data} {c e : Cl} {i : Level} {a : Addr}

omit [DecidableEq Topic] in
/-- The script starts at the first level in which the client is behind. -/
theorem script_from (hord : ∀ i, (rb.level i).Ordered) (hi : ∀ j, j < i → ¬ Behind rb c j) :
    ∃ bs : List Level, ∀ rb' : RouteBroker Addr Cl Topic Data,
      (∀ j, j ≠ i → rb'.level j = rb.level j) → rb'.script c
        = (((rb'.level i).answers c).map fun x => (i, x))
          ++ bs.flatMap fun j => ((rb.level j).answers c).map fun x => (j, x) := by
  obtain ⟨as, bs, hsplit⟩ := List.append_of_mem (List.mem_finRange i)
  have hsorted := List.pairwise_lt_finRange routePriorityMax
  rw [hsplit] at hsorted
  obtain ⟨-, htail, hbefore⟩ := List.pairwise_append.mp hsorted
  refine ⟨bs, fun rb' hsame => ?_⟩
  have has : as.flatMap (fun j => ((rb'.level j).answers c).map fun x => (j, x)) = [] := by
    rw [List.flatMap_eq_nil_iff]
    intro j hj
    have hlt : j < i := hbefore j hj i List.mem_cons_self
    rw [hsame j hlt.ne, answers_of_level (hord j) (not_not.mp (hi j hlt))]
    rfl
  have hbs : bs.flatMap (fun j => ((rb'.level j).answers c).map fun x => (j, x))
      = bs.flatMap fun j => ((rb.level j).answers c).map fun x => (j, x) := by
    apply List.flatMap_congr
    intro j hj
    have hlt : i < j := List.rel_of_pairwise_cons htail hj
    rw [hsame j hlt.ne']
  unfold RouteBroker.script
  rw [hsplit, List.flatMap_append, List.flatMap_cons, has, hbs, List.nil_append]

/-- **A call returns the head of the script.**  When the script is over, it finds nothing. -/
theorem script_read (copy : Data → Data) (hc : Consistent gen rb)
    (hord : ∀ i, (rb.level i).Ordered) (hmem : c ∈ rb.clientList) :
    (rb.script c = [] ∧ rb.clientGetData (fun d => some (copy d)) c = ((none, none), rb)) ∨
    ∃ i x, rb.script c = (i, x) :: (askAgain copy c rb).script c ∧
      (rb.clientGetData (fun d => some (copy d)) c).1 = (x.bind (rb.dataAt copy), some i) := by
  cases hav : rb.dataAvailableForClient c with
  | none =>
    left
    have hlevel := (dataAvailable_eq_none hc.wired hmem).mp hav
    constructor
    · unfold RouteBroker.script
      rw [List.flatMap_eq_nil_iff]
      intro j _
      rw [answers_of_level (hord j) (not_not.mp (hlevel j))]
      rfl
    · unfold RouteBroker.clientGetData
      rw [hav]
  | some i =>
    right
    obtain ⟨hbehind, hfirst⟩ := dataAvailable_eq_some hc.wired hmem hav
    obtain ⟨bs, hscript⟩ := script_from hord hfirst
    have hstate : askAgain copy c rb = rb.onLevel i (brokerClientGetData routeBrokerOps
        (routeBrokerClientOps fun d => some (copy d)) (rb.level i) rb.store (some c)).2 :=
      clientGetData_rb hc hmem _ hav
    have hothers : ∀ j, j ≠ i → (askAgain copy c rb).level j = rb.level j := by
      intro j hj
      rw [hstate, onLevel_level_of_ne rb _ hj]
    have hself : (askAgain copy c rb).level i = (brokerClientGetData routeBrokerOps
        (routeBrokerClientOps fun d => some (copy d)) (rb.level i) rb.store (some c)).2.1 := by
      rw [hstate, onLevel_level_self]
    rw [hscript rb fun _ _ => rfl, hscript _ hothers, hself]
    cases hnext : brokerGetNextDataObj (rb.level i) (.client c) with
    | none =>
      obtain ⟨hone, hover⟩ := answers_getData_none (hc.sound.linked i) hbehind hnext
      refine ⟨i, none, ?_, ?_⟩
      · rw [getData_of_none routeBrokerOps _ rb.store hnext, hone, hover]
        rfl
      · rw [clientGetData_of_phantom hc.wired hmem _ hav hnext]
        rfl
    | some r =>
      obtain ⟨x, rfl, -, -⟩ := getNextDataObj_eq_some (hc.sound.linked i) hnext
      obtain ⟨route, hroute, -, hget⟩ := clientGetData_of_next hc hmem copy hav hnext
      refine ⟨i, some x, ?_, ?_⟩
      · rw [answers_getData_some (hord i) rb.store hnext]
        rfl
      · rw [hget]
        show _ = ((rb.store.heap x).map fun r => copy r.data, some i)
        rw [hroute]
        rfl

omit [DecidableEq Topic] in
/-- The objects of the script are those that are pending for the client. -/
theorem mem_script (hl : ∀ i, (rb.level i).Linked) :
    (i, some a) ∈ rb.script c ↔ (rb.level i).Pending c a := by
  unfold RouteBroker.script
  rw [List.mem_flatMap]
  constructor
  · rintro ⟨j, -, hj⟩
    obtain ⟨x, hx, heq⟩ := List.mem_map.mp hj
    obtain ⟨rfl, rfl⟩ := Prod.mk.inj heq
    rcases List.mem_append.mp hx with hx | hx
    · obtain ⟨o, ho, hoa⟩ := List.mem_map.mp hx
      rw [← Option.some.inj hoa]
      exact (mem_due (hl j)).mp ho
    · split_ifs at hx
      · cases hx
      · cases List.mem_singleton.mp hx
  · intro hp
    have hdue : some a ∈ (rb.level i).answers c :=
      List.mem_append_left _ (List.mem_map_of_mem ((mem_due (hl i)).mpr hp))
    exact ⟨i, List.mem_finRange i, List.mem_map_of_mem hdue⟩

omit [DecidableEq Topic] in
/-- Lower levels come first, then older objects, and `NULL` last. -/
def RouteBroker.Before (rb : RouteBroker Addr Cl Topic Data) (p q : Level × Option Addr) : Prop :=
  p.1 < q.1 ∨ p.1 = q.1 ∧ ∃ a, p.2 = some a ∧ ∀ a', q.2 = some a' →
    ((rb.level p.1).bobj (.obj a)).id < ((rb.level p.1).bobj (.obj a')).id

omit [DecidableEq Topic] in
theorem script_sorted (hord : ∀ i, (rb.level i).Ordered) : (rb.script c).Pairwise rb.Before := by
  unfold RouteBroker.script
  rw [List.pairwise_flatMap]
  constructor
  · intro i _
    rw [List.pairwise_map]
    apply List.pairwise_append.mpr
    refine ⟨?_, ?_, ?_⟩
    · rw [List.pairwise_map]
      refine (due_sorted (hord i)).imp fun {a a'} hlt => Or.inr ⟨rfl, a, rfl, ?_⟩
      intro x hx
      rw [← Option.some.inj hx]
      exact hlt
    · split_ifs
      · exact List.Pairwise.nil
      · exact List.pairwise_singleton _ _
    · intro x hx y hy
      obtain ⟨a, -, rfl⟩ := List.mem_map.mp hx
      split_ifs at hy
      · cases hy
      · rw [List.mem_singleton.mp hy]
        exact Or.inr ⟨rfl, a, rfl, fun _ h => by cases h⟩
  · refine (List.pairwise_lt_finRange _).imp ?_
    intro i j hlt p hp q hq
    obtain ⟨_, -, rfl⟩ := List.mem_map.mp hp
    obtain ⟨_, -, rfl⟩ := List.mem_map.mp hq
    exact Or.inl hlt

/-! ### The calls of other clients -/

/-- The same for the client in all levels, and for the data of what is listed. -/
structure Same (c : Cl) (rb rb' : RouteBroker Addr Cl Topic Data) : Prop where
  level : ∀ i, SameLevel c (rb.level i) (rb'.level i)
  mem : c ∈ rb'.clientList
  heap : ∀ i a, (rb'.level i).Listed a → rb'.store.heap a = rb.store.heap a

omit [DecidableEq Topic] in
theorem Same.script_eq (h : Same c rb rb') : rb'.script c = rb.script c := by
  unfold RouteBroker.script
  apply List.flatMap_congr
  intro i _
  rw [(h.level i).answers_eq]

theorem Tidy.heap_eq (h : Tidy rb rb') (hs : Sound gen rb) (hl : (rb'.level i).Listed a) :
    rb'.store.heap a = rb.store.heap a := by
  obtain ⟨r, hr, -⟩ := (h.sound hs).heap_of_listed hl
  rw [hr, h.heap_of_heap hs hr]

omit [DecidableEq Topic] in
theorem same_clientCreate (hc : Consistent gen rb) (hord : ∀ i, (rb.level i).Ordered)
    (hmem : c ∈ rb.clientList) (he : e ∉ rb.clientList) (name : String) :
    Same c rb (rb.clientCreate e name) where
  level := by
    intro i
    apply sameLevel_clientCreate (hord i)
    · rw [hc.wired.clients]
      exact hmem
    · rw [hc.wired.clients]
      exact he
  mem := List.mem_cons_of_mem e hmem
  heap := fun _ _ _ => rfl

theorem same_clientDelete (hc : Consistent gen rb) (hord : ∀ i, (rb.level i).Ordered)
    (hmem : c ∈ rb.clientList) (he : e ∈ rb.clientList) (hne : e ≠ c) :
    Same c rb (rb.clientDelete e) where
  level := by
    intro i
    rw [clientDelete_level hc.sound (hc.wired.client e he)]
    exact sameLevel_clientDelete (hord i) hne _
  mem := by
    rw [hc.clientDelete_clientList he]
    exact (mem_remove hc.clients_nodup).mpr ⟨hne.symm, hmem⟩
  heap := fun _ _ hl => (tidy_clientDeleteLevels hc.sound e).heap_eq hc.sound hl

theorem same_clientGetData (hc : Consistent gen rb) (hord : ∀ i, (rb.level i).Ordered)
    (hmem : c ∈ rb.clientList) (he : e ∈ rb.clientList) (hne : e ≠ c)
    (copyObj : Data → Option Data) : Same c rb (rb.clientGetData copyObj e).2 := by
  cases hav : rb.dataAvailableForClient e with
  | none =>
    have hsame : (rb.clientGetData copyObj e).2 = rb := by
      unfold RouteBroker.clientGetData
      rw [hav]
    rw [hsame]
    exact ⟨fun i => .refl (hord i), hmem, fun _ _ _ => rfl⟩
  | some j =>
    have hrb := clientGetData_rb hc he copyObj hav
    refine ⟨?_, ?_, fun _ _ hl => (tidy_clientGetData hc.sound _ e).heap_eq hc.sound hl⟩
    · rw [hrb]
      exact forall_onLevel (P := fun i b => SameLevel c (rb.level i) b)
        (sameLevel_getData (hord j) hne _) fun i _ => .refl (hord i)
    · rw [hrb]
      exact hmem

end Script

/-! ## Runs without a publish -/

/-- The calls that publish nothing and leave the client `c` registered. -/
def RouteCall.quiet [DecidableEq Cl] (c : Cl) : RouteCall Addr Cl Data → Bool
  | .publish .. => false
  | .clientCreate .. | .clientGetData _ => true
  | .clientDelete e => e ≠ c

/-- The reads of `c`. -/
def RouteCall.reads [DecidableEq Cl] (c : Cl) : RouteCall Addr Cl Data → Bool
  | .clientGetData e => e = c
  | _ => false

section Quiet

variable [DecidableEq Addr] [DecidableEq Cl] [DecidableEq Topic]
  {gen : Data → ℤ × Topic × Bool} {copy : Data → Data} {w v w' : RouteWorld Addr Cl Topic Data}
  {c : Cl} {n : ℕ}

/-- What the answers of a script hand out. -/
def RouteBroker.handOut (copy : Data → Data) (rb : RouteBroker Addr Cl Topic Data)
    (answers : List (Level × Option Addr)) : List Data :=
  answers.filterMap fun p => p.2.bind (rb.dataAt copy)

/-- Between `w` and `w'` the client `c` read `n` times. -/
structure Answered (copy : Data → Data) (c : Cl) (n : ℕ) (w w' : RouteWorld Addr Cl Topic Data) :
    Prop where
  script : w'.rb.script c = (w.rb.script c).drop n
  received : w'.received c = w.received c ++ w.rb.handOut copy ((w.rb.script c).take n)

omit [DecidableEq Topic] in
/-- The data that the rest of the script hands out are the same, if the routes are. -/
theorem handOut_congr (copy : Data → Data) {rb rb' : RouteBroker Addr Cl Topic Data}
    (hl : ∀ i, (rb'.level i).Linked)
    (hheap : ∀ i a, (rb'.level i).Listed a → rb'.store.heap a = rb.store.heap a) (n : ℕ) :
    rb'.handOut copy ((rb'.script c).take n) = rb.handOut copy ((rb'.script c).take n) := by
  apply List.filterMap_congr
  rintro ⟨i, x⟩ hx
  cases x with
  | none => rfl
  | some a =>
    have hp := (mem_script hl).mp (List.mem_of_mem_take hx)
    show rb'.dataAt copy a = rb.dataAt copy a
    unfold RouteBroker.dataAt
    rw [hheap i a hp.listed]

omit [DecidableEq Topic] in
/-- A call of another client in front. -/
theorem Same.answered (h : Same c w.rb v.rb) (hrec : v.received c = w.received c)
    (hrest : Answered copy c n v w') : Answered copy c n w w' := by
  constructor
  · rw [hrest.script, h.script_eq]
  · rw [hrest.received, hrec, handOut_congr copy (fun i => (h.level i).ordered.toLinked) h.heap n,
      h.script_eq]

/-- A read in front. -/
theorem answered_read (hc : Consistent gen w.rb) (hord : ∀ i, (w.rb.level i).Ordered)
    (hmem : c ∈ w.rb.clientList) (hrest : Answered copy c n (w.clientGetData copy c) w') :
    Answered copy c (n + 1) w w' := by
  have hrb : (w.clientGetData copy c).rb = askAgain copy c w.rb := rfl
  have hrec : (w.clientGetData copy c).received c = w.received c
      ++ (w.rb.clientGetData (fun d => some (copy d)) c).1.1.toList := Function.update_self _ _ _
  have htidy : Tidy w.rb (askAgain copy c w.rb) := tidy_clientGetData hc.sound _ c
  have hhand := handOut_congr (c := c) copy (fun i => (htidy.sound hc.sound).linked i)
    (fun _ _ hl => htidy.heap_eq hc.sound hl) n
  obtain ⟨hscript, hreceived⟩ := hrest
  rw [hrb] at hscript hreceived
  rw [hrec, hhand] at hreceived
  rcases script_read copy hc hord hmem with ⟨hnil, hget⟩ | ⟨i, x, hcons, hget⟩
  · -- nothing is left, and nothing happens
    have hsame : askAgain copy c w.rb = w.rb := congrArg Prod.snd hget
    rw [hsame, hnil] at hscript hreceived
    rw [hget] at hreceived
    constructor
    · rw [hscript, hnil, List.drop_nil, List.drop_nil]
    · rw [hreceived, hnil, List.take_nil, List.take_nil]
      exact congrArg (· ++ _) (List.append_nil _)
  · constructor
    · rw [hscript, hcons, List.drop_succ_cons]
    · rw [hreceived, hget, hcons, List.take_succ_cons, List.append_assoc]
      congr 1
      unfold RouteBroker.handOut
      rw [List.filterMap_cons]
      cases x.bind (w.rb.dataAt copy) with
      | none => rfl
      | some d => rfl

theorem askAgain_clientList (copy : Data → Data) (c : Cl) (rb : RouteBroker Addr Cl Topic Data) :
    (askAgain copy c rb).clientList = rb.clientList := by
  unfold askAgain RouteBroker.clientGetData
  cases rb.dataAvailableForClient c <;> rfl

theorem ordered_askAgain {rb : RouteBroker Addr Cl Topic Data} (hc : Consistent gen rb)
    (hord : ∀ i, (rb.level i).Ordered) (hmem : c ∈ rb.clientList) (i : Level) :
    ((askAgain copy c rb).level i).Ordered := by
  cases hav : rb.dataAvailableForClient c with
  | none =>
    have hsame : askAgain copy c rb = rb := by
      unfold askAgain RouteBroker.clientGetData
      rw [hav]
    rw [hsame]
    exact hord i
  | some j =>
    have hrb : askAgain copy c rb = rb.onLevel j (brokerClientGetData routeBrokerOps
        (routeBrokerClientOps fun d => some (copy d)) (rb.level j) rb.store (some c)).2 :=
      clientGetData_rb hc hmem _ hav
    rw [hrb]
    apply forall_onLevel (P := fun _ b => b.Ordered)
    · exact (hord j).getData routeBrokerOps _ _ _
    · exact fun i _ => hord i

/-- **A client reads its script.** -/
theorem quiet_answered {xs : List (RouteCall Addr Cl Data)} (hc : Consistent gen w.rb)
    (hord : ∀ i, (w.rb.level i).Ordered) (hmem : c ∈ w.rb.clientList)
    (hquiet : ∀ x ∈ xs, x.quiet c = true)
    (hexec : (routeSystem Addr Cl gen copy).exec w xs = some w') :
    Answered copy c (xs.countP (RouteCall.reads c)) w w' ∧ Consistent gen w'.rb ∧
      (∀ i, (w'.rb.level i).Ordered) ∧ c ∈ w'.rb.clientList := by
  induction xs generalizing w with
  | nil =>
    rw [System.exec_nil, Option.some.injEq] at hexec
    rw [← hexec]
    refine ⟨⟨rfl, ?_⟩, hc, hord, hmem⟩
    exact (List.append_nil _).symm
  | cons x xs ih =>
    obtain ⟨v, hv, hrest⟩ := (System.exec_cons_eq_some _).mp hexec
    have hquiet' : ∀ y ∈ xs, y.quiet c = true := fun y hy => hquiet y (List.mem_cons_of_mem x hy)
    have hcall : w.call gen copy x = some v := hv
    have hc' : Consistent gen v.rb := routeCall_consistent hcall hc
    -- a call that is not a read of `c`
    have hother : Same c w.rb v.rb → v.received c = w.received c → x.reads c = false →
        Answered copy c ((x :: xs).countP (RouteCall.reads c)) w w' ∧ Consistent gen w'.rb ∧
          (∀ i, (w'.rb.level i).Ordered) ∧ c ∈ w'.rb.clientList := by
      intro hsame hrec hx
      obtain ⟨hans, hend⟩ := ih hc' (fun i => (hsame.level i).ordered) hsame.mem hquiet' hrest
      rw [List.countP_cons_of_neg (by simp [hx])]
      exact ⟨hsame.answered hrec hans, hend⟩
    cases x with
    | publish a obj pri => simpa [RouteCall.quiet] using hquiet _ List.mem_cons_self
    | clientCreate e name =>
      obtain ⟨he, rfl⟩ := routeCall_clientCreate.mp hcall
      have hne : c ≠ e := fun h => he (h ▸ hmem)
      apply hother (same_clientCreate hc hord hmem he name)
      · exact Function.update_of_ne hne _ _
      · rfl
    | clientDelete e =>
      obtain ⟨he, rfl⟩ := routeCall_clientDelete.mp hcall
      have hne : e ≠ c := by simpa [RouteCall.quiet] using hquiet _ List.mem_cons_self
      exact hother (same_clientDelete hc hord hmem he hne) rfl rfl
    | clientGetData e =>
      obtain ⟨he, rfl⟩ := routeCall_clientGetData.mp hcall
      by_cases hne : e = c
      · subst hne
        have hmem' : e ∈ (askAgain copy e w.rb).clientList := by
          rw [askAgain_clientList]
          exact he
        obtain ⟨hans, hend⟩ := ih hc' (ordered_askAgain hc hord he) hmem' hquiet' hrest
        rw [List.countP_cons_of_pos (by simp [RouteCall.reads])]
        exact ⟨answered_read hc hord hmem hans, hend⟩
      · apply hother (same_clientGetData hc hord hmem he hne _)
        · exact Function.update_of_ne (Ne.symm hne) _ _
        · simpa [RouteCall.reads] using hne

/-- The call after the script waits, an earlier one does not. -/
theorem read_waits_iff {rb : RouteBroker Addr Cl Topic Data} (hc : Consistent gen rb)
    (hord : ∀ i, (rb.level i).Ordered) (hmem : c ∈ rb.clientList) :
    (rb.clientGetData (fun d => some (copy d)) c).1 = (none, none) ↔ rb.script c = [] := by
  rcases script_read copy hc hord hmem with ⟨hnil, hget⟩ | ⟨i, x, hcons, hget⟩
  · rw [hget]
    exact iff_of_true rfl hnil
  · rw [hget, hcons]
    exact iff_of_false (fun h => Option.some_ne_none i (congrArg Prod.snd h)) (List.cons_ne_nil _ _)

/-- **A client reads its script, whatever the others do.**  Take a reachable state in which
no level has counted up its id `2^64` times, and any calls after it that publish nothing:
reads, the copies of which succeed, new clients, and deletes of other clients, in any order.  If `c` reads `n` times among
them, it is handed the data of the first `n` answers of its script, and the rest of the
script is left; the next read returns `(NULL, NULL)`, on which the client waits, exactly if
nothing is left.  The script has the routes that were pending for `c`, each once, level after
level, from the oldest to the newest of a level, and at the end of a level at most one
answer `NULL`. -/
theorem reads_follow_script {xs : List (RouteCall Addr Cl Data)}
    (h : (routeSystem Addr Cl gen copy).Reachable w)
    (hw : ∀ i, (w.rb.level i).increments < 2 ^ 64) (hmem : c ∈ w.rb.clientList)
    (hquiet : ∀ x ∈ xs, x.quiet c = true)
    (hexec : (routeSystem Addr Cl gen copy).exec w xs = some w')
    (hn : xs.countP (RouteCall.reads c) = n) :
    w'.received c = w.received c ++ w.rb.handOut copy ((w.rb.script c).take n) ∧
    w'.rb.script c = (w.rb.script c).drop n ∧
    ((w'.rb.clientGetData (fun d => some (copy d)) c).1 = (none, none) ↔
      (w.rb.script c).length ≤ n) ∧
    (∀ i a, (i, some a) ∈ w.rb.script c ↔ Precedes (w.rb.level i).objList (.client c) (.obj a)) ∧
    (w.rb.script c).Pairwise w.rb.Before := by
  have hcons := reachable_consistent h
  have hord := reachable_levels_ordered h hw
  obtain ⟨hans, hcons', hord', hmem'⟩ := quiet_answered hcons hord hmem hquiet hexec
  rw [hn] at hans
  refine ⟨hans.received, hans.script, ?_, ?_, script_sorted hord⟩
  · rw [read_waits_iff hcons' hord' hmem', hans.script, List.drop_eq_nil_iff]
  · exact fun i a => mem_script fun i => (hord i).toLinked

/-- The theorem at a run in which a route was moved to level `0` and read there, which
leaves a `NULL` in level `1`, and another client reads in between. -/
theorem reads_follow_script_moved :
    ∃ w w', (routeSystem ℕ ℕ plainGen id).exec .start [.clientCreate 0 "dp",
        .publish 100 (7, 1, false) 1, .publish 101 (7, 2, false) 0, .publish 102 (8, 1, false) 2,
        .clientGetData 0] = some w ∧
      (routeSystem ℕ ℕ plainGen id).exec w [.clientGetData 0, .clientCreate 1 "cb",
        .clientGetData 1, .clientGetData 0] = some w' ∧
      w.rb.script 0 = [(1, none), (2, some 102)] ∧
      w'.received 0 = w.received 0 ++ w.rb.handOut id ((w.rb.script 0).take 2) := by
  obtain ⟨w, hexec, hp⟩ := (routeSystem ℕ ℕ plainGen id).exists_of_exec_any .start
    [.clientCreate 0 "dp", .publish 100 (7, 1, false) 1, .publish 101 (7, 2, false) 0,
      .publish 102 (8, 1, false) 2, .clientGetData 0]
    (fun w => decide ((∀ i, (w.rb.level i).increments < 2 ^ 64) ∧ 0 ∈ w.rb.clientList ∧
      w.rb.script 0 = [(1, none), (2, some 102)]) &&
      ((routeSystem ℕ ℕ plainGen id).exec w [.clientGetData 0, .clientCreate 1 "cb",
        .clientGetData 1, .clientGetData 0]).isSome) (by decide +kernel)
  rw [Bool.and_eq_true, decide_eq_true_eq] at hp
  obtain ⟨⟨hw, hc, hscript⟩, hsome⟩ := hp
  obtain ⟨w', hexec'⟩ := Option.isSome_iff_exists.mp hsome
  exact ⟨w, w', hexec, hexec', hscript,
    (reads_follow_script ⟨_, hexec⟩ hw hc (by decide) hexec' rfl).1⟩

end Quiet
