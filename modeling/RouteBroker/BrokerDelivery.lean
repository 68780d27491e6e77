/-
# The order of delivery

What a client still has to read is a list: the data objects after its cursor, in the
order of their ids.  Since this list is determined by its members and their ids, no
call of another client changes it, and every read takes its head
(`due_clientGetData`).  From there the outcome of any number of reads without a
publish in between follows by induction (`quiet_run`).

Main result: `delivery_order`.
-/
import RouteBroker.BrokerWrap

open Circleq Broker

variable {Obj Cl Data : Type*}

/-- The data object of a list entry, if it is one. -/
def Ref.obj? : Ref Obj Cl → Option Obj
  | .obj o => some o
  | .client _ => none

theorem Ref.obj?_eq_some {r : Ref Obj Cl} {o : Obj} : r.obj? = some o ↔ r = .obj o := by
  cases r <;> simp [Ref.obj?]

/-- Strictly sorted lists with the same members are equal. -/
theorem eq_of_sorted_of_mem {α : Type*} {f : α → ℕ} {l l' : List α}
    (h : l.Pairwise fun x y => f x < f y) (h' : l'.Pairwise fun x y => f x < f y)
    (hmem : ∀ x, x ∈ l ↔ x ∈ l') : l = l' := by
  have hn : ∀ {l : List α}, (l.Pairwise fun x y => f x < f y) → l.Nodup := fun hl =>
    hl.imp (fun {x y} hxy he => by
      rw [he] at hxy
      exact lt_irrefl _ hxy)
  refine List.Perm.eq_of_pairwise (fun x y _ _ hxy hyx => ?_) h h'
    ((List.perm_ext_iff_of_nodup (hn h) (hn h')).mpr hmem)
  exact absurd hxy (lt_asymm hyx)

variable [DecidableEq Obj] [DecidableEq Cl]

/-- The data objects after the cursor of `c`, first to last. -/
def Broker.due (b : Broker Obj Cl) (c : Cl) : List Obj :=
  (after b.objList (.client c)).filterMap Ref.obj?

section Due

variable {b b' : Broker Obj Cl} {c : Cl} {o : Obj}

theorem mem_due (hl : b.Linked) : o ∈ b.due c ↔ b.Pending c o := by
  unfold due Pending
  rw [List.mem_filterMap, ← mem_after hl.nodup]
  constructor
  · rintro ⟨r, hr, hro⟩
    rwa [Ref.obj?_eq_some.mp hro] at hr
  · intro h
    exact ⟨_, h, rfl⟩

theorem due_sorted (hb : b.Ordered) :
    (b.due c).Pairwise fun o o' => (b.bobj (.obj o)).id < (b.bobj (.obj o')).id := by
  have hafter : (after b.objList (.client c)).Pairwise b.InOrder :=
    (pairwise_iff_precedes.mpr hb.order).sublist (after_sublist _ _)
  refine hafter.filterMap Ref.obj? (fun r r' h o ho o' ho' => ?_)
  rw [Ref.obj?_eq_some.mp ho, Ref.obj?_eq_some.mp ho'] at h
  exact h

/-- What is due depends on the pending objects and their ids only. -/
theorem due_congr (hb : b.Ordered) (hb' : b'.Ordered)
    (hid : ∀ o, (b'.bobj (.obj o)).id = (b.bobj (.obj o)).id)
    (hpend : ∀ o, b'.Pending c o ↔ b.Pending c o) : b'.due c = b.due c := by
  have hsorted := due_sorted hb' (c := c)
  simp only [hid] at hsorted
  refine eq_of_sorted_of_mem hsorted (due_sorted hb) (fun o => ?_)
  rw [mem_due hb'.toLinked, mem_due hb.toLinked, hpend]

/-- If `o` is due first and everything else stays, the rest is due afterwards. -/
theorem due_eq_cons (hb : b.Ordered) (hb' : b'.Ordered)
    (hid : ∀ o, (b'.bobj (.obj o)).id = (b.bobj (.obj o)).id)
    (ho : b.Pending c o)
    (hmin : ∀ o', b.Pending c o' → o' = o ∨ Precedes b.objList (.obj o) (.obj o'))
    (hpend : ∀ o', b'.Pending c o' ↔ b.Pending c o' ∧ o' ≠ o) : b.due c = o :: b'.due c := by
  have hsorted := due_sorted hb' (c := c)
  simp only [hid] at hsorted
  refine eq_of_sorted_of_mem (due_sorted hb) (List.pairwise_cons.mpr ⟨fun o' ho' => ?_, hsorted⟩)
    (fun o' => ?_)
  -- `o` comes before all that stays due
  · obtain ⟨hp, hne⟩ := (hpend o').mp ((mem_due hb'.toLinked).mp ho')
    exact hb.order _ _ ((hmin o' hp).resolve_left hne)
  · rw [mem_due hb.toLinked, List.mem_cons, mem_due hb'.toLinked, hpend]
    constructor
    · intro hp
      by_cases he : o' = o
      · exact Or.inl he
      · exact Or.inr ⟨hp, he⟩
    · rintro (rfl | hp)
      · exact ho
      · exact hp.1

theorem due_eq_nil (hl : b.Linked) : b.due c = [] ↔ ∀ o, ¬ b.Pending c o := by
  rw [List.eq_nil_iff_forall_not_mem]
  exact forall_congr' (fun o => not_congr (mem_due hl))

end Due

/-! ## Reads without a publish in between -/

/-- The calls that publish nothing and leave the client `c` registered. -/
def Call.quiet (c : Cl) : Call Obj Cl Data → Bool
  | .clientGetData _ => true
  | .clientCreate _ _ => true
  | .clientDelete e => e ≠ c
  | _ => false

/-- The reads of `c`. -/
def Call.reads (c : Cl) : Call Obj Cl Data → Bool
  | .clientGetData e => e = c
  | _ => false

/-- A delivery without the time of the call. -/
def Delivery.untimed (d : Delivery Obj Data) : Obj × Data × Bool × ℕ :=
  (d.obj, d.data, d.deleted, d.id)

/-- Nothing of the client `c` changed between `w` and `w'`, and no object did. -/
structure Undisturbed (c : Cl) (w w' : World Obj Cl Data) : Prop where
  ordered : w'.broker.Ordered
  registered : c ∈ w'.broker.clientList
  id : w'.broker.id = w.broker.id
  due : w'.broker.due c = w.broker.due c
  version : ∀ o, (w'.version o).untimed = (w.version o).untimed
  cursor : (w'.broker.bobj (.client c)).id = (w.broker.bobj (.client c)).id
  received : w'.received c = w.received c

section Quiet

variable {w w' : World Obj Cl Data} {c : Cl}

theorem undisturbed_clientCreate (hb : w.broker.Ordered) (hc : c ∈ w.broker.clientList) {e : Cl}
    (he : e ∉ w.broker.clientList) (name : String) :
    Undisturbed c w (w.clientCreate e name) := by
  have hne : c ≠ e := fun h => he (h ▸ hc)
  have hb' : (w.clientCreate e name).broker.Ordered := hb.clientCreate he name
  have hbobj : ∀ r, r ≠ .client e → (w.clientCreate e name).broker.bobj r = w.broker.bobj r :=
    fun r => clientCreate_bobj_of_ne w.broker e name
  refine ⟨hb', ?_, ?_, ?_, fun o => ?_, ?_, ?_⟩
  · show c ∈ (brokerClientCreate w.broker (some e) (some name)).2.clientList
    rw [clientCreate_clientList]
    exact List.mem_cons_of_mem e hc
  · exact clientCreate_id w.broker e name
  · refine due_congr hb hb' (fun o => by rw [hbobj _ (by simp)]) (fun o => ?_)
    refine (pending_clientCreate w.broker e name c o).trans ?_
    simp [hne]
  · unfold World.version Delivery.untimed
    rw [hbobj _ (by simp)]
    rfl
  · rw [hbobj _ (by simpa using hne)]
  · exact Function.update_of_ne hne _ _

theorem undisturbed_clientDelete (hb : w.broker.Ordered) (hc : c ∈ w.broker.clientList) {e : Cl}
    (hne : e ≠ c) : Undisturbed c w (w.clientDelete e) := by
  have hl := hb.toLinked
  have hb' : (w.clientDelete e).broker.Ordered := hb.clientDelete ownerOps w.owner e
  have hbobj : (w.clientDelete e).broker.bobj = w.broker.bobj :=
    clientDelete_bobj ownerOps hl w.owner e
  have hdata : (w.clientDelete e).owner.data = w.owner.data := by
    show (brokerClientDelete ownerOps w.broker w.owner e).2.data = _
    rw [clientDelete_eq ownerOps hl]
    exact (foldl_unlockObj _ _).1
  refine ⟨hb', ?_, clientDelete_id ownerOps hl w.owner e, ?_, fun o => ?_, ?_, rfl⟩
  · show c ∈ (brokerClientDelete ownerOps w.broker w.owner e).1.clientList
    rw [clientDelete_clientList, mem_remove hl.clients_nodup]
    exact ⟨hne.symm, hc⟩
  · refine due_congr hb hb' (fun o => by rw [hbobj]) (fun o => ?_)
    exact (hb.pending_clientDelete w.owner e c o).trans (and_iff_left hne.symm)
  · unfold World.version Delivery.untimed
    rw [hbobj, hdata]
  · rw [hbobj]

/-- The parts of `Undisturbed` that do not depend on who reads. -/
theorem version_clientGetData (w : World Obj Cl Data) (e : Cl) (o : Obj) :
    ((w.clientGetData e).version o).untimed = (w.version o).untimed := by
  have hbobj : (w.clientGetData e).broker.bobj (.obj o) = w.broker.bobj (.obj o) :=
    getData_bobj_of_ne ownerOps handOver w.owner (by simp)
  have hdata : (w.clientGetData e).owner.data = w.owner.data :=
    (getData_owner w.owner w.broker e).1
  unfold World.version Delivery.untimed
  rw [hbobj, hdata]

theorem clientGetData_clients (w : World Obj Cl Data) (e : Cl) :
    (w.clientGetData e).broker.clientList = w.broker.clientList :=
  getData_clientList ownerOps handOver w.owner (some e)

theorem undisturbed_clientGetData (hb : w.broker.Ordered) (hc : c ∈ w.broker.clientList) {e : Cl}
    (hne : e ≠ c) : Undisturbed c w (w.clientGetData e) := by
  have hb' : (w.clientGetData e).broker.Ordered := hb.getData ownerOps handOver w.owner (some e)
  have hbobj : ∀ r, r ≠ .client e → (w.clientGetData e).broker.bobj r = w.broker.bobj r :=
    fun r => getData_bobj_of_ne ownerOps handOver w.owner
  refine ⟨hb', ?_, getData_id ownerOps handOver w.owner (some e), ?_, version_clientGetData w e,
    ?_, ?_⟩
  · rw [clientGetData_clients]
    exact hc
  · refine due_congr hb hb' (fun o => by rw [hbobj _ (by simp)]) (fun o => ?_)
    cases hnext : brokerGetNextDataObj w.broker (.client e) with
    | none =>
      show (brokerClientGetData ownerOps handOver w.broker w.owner (some e)).2.1.Pending c o ↔ _
      rw [getData_of_none ownerOps handOver w.owner hnext]
      exact Iff.rfl
    | some r =>
      obtain ⟨o₁, rfl, -, -⟩ := getNextDataObj_eq_some hb.toLinked hnext
      refine (hb.pending_getData w.owner hnext c o).trans ?_
      exact and_iff_left (fun hx => hne hx.1.symm)
  · rw [hbobj _ (by simpa using hne.symm)]
  · exact Function.update_of_ne hne.symm _ _

/-- A read with something due hands over the first object that is due. -/
theorem due_clientGetData (hb : w.broker.Ordered) {o : Obj}
    (hnext : brokerGetNextDataObj w.broker (.client c) = some (.obj o)) :
    w.broker.due c = o :: (w.clientGetData c).broker.due c ∧
      (w.clientGetData c).received c = w.received c ++ [w.version o] := by
  obtain ⟨o₁, ho₁, hp, hmin⟩ := getNextDataObj_eq_some hb.toLinked hnext
  cases ho₁
  refine ⟨due_eq_cons hb (hb.getData ownerOps handOver w.owner (some c)) (fun o' => ?_) hp hmin
    (fun o' => ?_), ?_⟩
  · exact congrArg BrokerObj.id (getData_bobj_of_ne ownerOps handOver w.owner (by simp))
  · refine (hb.pending_getData w.owner hnext c o').trans ?_
    exact and_congr_right (fun _ => not_congr (and_iff_right rfl))
  · rw [received_of_some hnext, Function.update_self]

/-- A read with nothing due returns `NULL` and levels the client with the broker. -/
theorem clientGetData_of_due_nil (hl : w.broker.Linked)
    (hnext : brokerGetNextDataObj w.broker (.client c) = none) :
    w.broker.due c = [] ∧ (w.clientGetData c).broker.due c = [] ∧
      ((w.clientGetData c).broker.bobj (.client c)).id = w.broker.id ∧
      (w.clientGetData c).received c = w.received c := by
  have hnil : w.broker.due c = [] := (due_eq_nil hl).mpr ((getNextDataObj_eq_none hl).mp hnext)
  have hbroker : (w.clientGetData c).broker = w.broker.setId (.client c) w.broker.id := by
    simp [World.clientGetData, World.after, getData_of_none ownerOps handOver w.owner hnext]
  refine ⟨hnil, ?_, ?_, ?_⟩
  · rw [hbroker]
    exact hnil
  · rw [hbroker, setId_bobj_id, if_pos rfl]
  · rw [received_of_none hnext]

/-- Between `w` and `w'` the client `c` read `n` times and nothing was published: it was
handed what was due, in order, as far as its reads go, and with more reads than that
it ends level with the broker. -/
structure ReadOff (c : Cl) (n : ℕ) (w w' : World Obj Cl Data) : Prop where
  ordered : w'.broker.Ordered
  received : (w'.received c).map Delivery.untimed = (w.received c).map Delivery.untimed
    ++ ((w.broker.due c).take n).map fun o => (w.version o).untimed
  due : w'.broker.due c = (w.broker.due c).drop n
  id : w'.broker.id = w.broker.id
  level : (w.broker.due c).length < n ∨ (w.broker.bobj (.client c)).id = w.broker.id →
    (w'.broker.bobj (.client c)).id = w.broker.id

theorem readOff_zero (hb : w.broker.Ordered) : ReadOff c 0 w w := by
  refine ⟨hb, by simp, by simp, rfl, ?_⟩
  rintro (hlt | heq)
  · exact absurd hlt (Nat.not_lt_zero _)
  · exact heq

theorem Undisturbed.readOff {v : World Obj Cl Data} {n : ℕ} (hu : Undisturbed c w v)
    (h : ReadOff c n v w') : ReadOff c n w w' := by
  obtain ⟨hb, hrec, hdue, hid, hlevel⟩ := h
  rw [hu.due] at hrec hdue hlevel
  simp only [hu.version, hu.received] at hrec
  rw [hu.id] at hid hlevel
  rw [hu.cursor] at hlevel
  exact ⟨hb, hrec, hdue, hid, hlevel⟩

theorem ReadOff.read {n : ℕ} (hb : w.broker.Ordered) (h : ReadOff c n (w.clientGetData c) w') :
    ReadOff c (n + 1) w w' := by
  obtain ⟨hb', hrec, hdue, hid, hlevel⟩ := h
  have hsame : (w.clientGetData c).broker.id = w.broker.id :=
    getData_id ownerOps handOver w.owner (some c)
  simp only [version_clientGetData] at hrec
  rw [hsame] at hid hlevel
  cases hnext : brokerGetNextDataObj w.broker (.client c) with
  | none =>
    -- nothing was due: the remaining reads find nothing either
    obtain ⟨hnil, hnil', hid', hrec'⟩ := clientGetData_of_due_nil hb.toLinked hnext
    rw [hnil', List.take_nil, hrec'] at hrec
    rw [hnil', List.drop_nil] at hdue
    refine ⟨hb', ?_, ?_, hid, fun _ => hlevel (Or.inr hid')⟩
    · rw [hnil, List.take_nil]
      exact hrec
    · rw [hnil, List.drop_nil]
      exact hdue
  | some r =>
    -- the head of the list is handed over, the other reads take its tail
    obtain ⟨o, rfl, hp, -⟩ := getNextDataObj_eq_some hb.toLinked hnext
    obtain ⟨hcons, hrec'⟩ := due_clientGetData hb hnext
    rw [hrec', List.map_append, List.append_assoc] at hrec
    refine ⟨hb', ?_, ?_, hid, ?_⟩
    · rw [hcons, List.take_succ_cons, List.map_cons]
      exact hrec
    · rw [hcons, List.drop_succ_cons]
      exact hdue
    · rw [hcons, List.length_cons]
      rintro (hlt | heq)
      · exact hlevel (Or.inl (Nat.lt_of_succ_lt_succ hlt))
      -- a client level with the broker has nothing pending
      · exact absurd hp (hb.not_pending_of_id_eq heq o)

end Quiet

/-- **Any number of reads without a publish in between**, while the other clients come
and go and read as they like. -/
theorem quiet_run {d₀ : Obj → Data} {w w' : World Obj Cl Data} {c : Cl}
    {bs : List (Call Obj Cl Data)} (hb : w.broker.Ordered) (hc : c ∈ w.broker.clientList)
    (hquiet : ∀ a ∈ bs, a.quiet c = true) (h : (brokerSystem Cl d₀).exec w bs = some w') :
    ReadOff c (bs.countP (Call.reads c)) w w' := by
  induction bs generalizing w with
  | nil =>
    rw [System.exec_nil, Option.some.injEq] at h
    exact h ▸ readOff_zero hb
  | cons a bs ih =>
    obtain ⟨v, hv, hrest⟩ := (System.exec_cons_eq_some _).mp h
    have hquiet' : ∀ a ∈ bs, a.quiet c = true := fun b hb => hquiet b (List.mem_cons_of_mem a hb)
    -- a call that is not a read of `c` changes nothing for it
    have hother : Undisturbed c w v → a.reads c = false →
        ReadOff c ((a :: bs).countP (Call.reads c)) w w' := fun hu hr => by
      rw [List.countP_cons_of_neg (by simp [hr])]
      exact hu.readOff (ih hu.ordered hu.registered hquiet' hrest)
    cases a with
    | addObj o d => simpa [Call.quiet] using hquiet _ List.mem_cons_self
    | updObj o d => simpa [Call.quiet] using hquiet _ List.mem_cons_self
    | delObj o d => simpa [Call.quiet] using hquiet _ List.mem_cons_self
    | delObjNow o => simpa [Call.quiet] using hquiet _ List.mem_cons_self
    | clientCreate e name =>
      obtain ⟨he, rfl⟩ := call_clientCreate.mp hv
      exact hother (undisturbed_clientCreate hb hc he name) rfl
    | clientDelete e =>
      obtain ⟨-, rfl⟩ := call_clientDelete.mp hv
      have hne : e ≠ c := by simpa [Call.quiet] using hquiet _ List.mem_cons_self
      exact hother (undisturbed_clientDelete hb hc hne) rfl
    | clientGetData e =>
      obtain ⟨-, rfl⟩ := call_clientGetData.mp hv
      by_cases he : e = c
      · subst he
        have hc' : e ∈ (w.clientGetData e).broker.clientList := by
          rw [clientGetData_clients]
          exact hc
        rw [List.countP_cons_of_pos (by simp [Call.reads])]
        exact (ih (hb.getData ownerOps handOver w.owner (some e)) hc' hquiet' hrest).read hb
      · exact hother (undisturbed_clientGetData hb hc he) (by simpa [Call.reads] using he)

/-! ## The ids a client is handed -/

/-- What a client was handed has increasing ids, none ahead of its own. -/
def World.Delivered (w : World Obj Cl Data) : Prop :=
  ∀ c, ((w.received c).Pairwise fun d d' => d.id < d'.id) ∧
    (c ∈ w.broker.clientList → ∀ d ∈ w.received c, d.id ≤ (w.broker.bobj (.client c)).id)

omit [DecidableEq Obj] [DecidableEq Cl] in
/-- Calls that hand nothing over and leave the cursors alone. -/
theorem World.Delivered.of_eq {w w' : World Obj Cl Data} (h : w.Delivered)
    (hrec : w'.received = w.received)
    (hclients : ∀ c ∈ w'.broker.clientList, c ∈ w.broker.clientList)
    (hid : ∀ c, (w'.broker.bobj (.client c)).id = (w.broker.bobj (.client c)).id) :
    w'.Delivered := by
  intro c
  rw [hrec, hid]
  exact ⟨(h c).1, fun hc => (h c).2 (hclients c hc)⟩

theorem World.Delivered.clientGetData {w : World Obj Cl Data} {c : Cl} (h : w.Delivered)
    (hb : w.broker.Ordered) (hc : c ∈ w.broker.clientList) : (w.clientGetData c).Delivered := by
  intro e
  by_cases he : e = c
  · subst he
    obtain ⟨hsorted, hle⟩ := h e
    cases hnext : brokerGetNextDataObj w.broker (.client e) with
    | none =>
      obtain ⟨-, -, hlevel, hrec⟩ := clientGetData_of_due_nil hb.toLinked hnext
      rw [hrec, hlevel]
      refine ⟨hsorted, fun _ d hd => (hle hc d hd).trans ?_⟩
      exact hb.id_le _ ((hb.cursor_mem e).mpr hc)
    | some r =>
      obtain ⟨o, rfl, hp, -⟩ := getNextDataObj_eq_some hb.toLinked hnext
      -- the id of a pending object is greater than that of the client
      have hlt := ((hb.pending_iff hc o).mp hp).2
      have hid : ((w.clientGetData e).broker.bobj (.client e)).id = (w.broker.bobj (.obj o)).id :=
        getData_client_id ownerOps handOver w.owner hnext
      rw [(due_clientGetData hb hnext).2, hid]
      refine ⟨List.pairwise_append.mpr ⟨hsorted, List.pairwise_singleton _ _, ?_⟩, ?_⟩
      · intro d hd d' hd'
        rw [List.mem_singleton.mp hd']
        exact lt_of_le_of_lt (hle hc d hd) hlt
      · intro _ d hd
        rcases List.mem_append.mp hd with hd | hd
        · exact le_of_lt (lt_of_le_of_lt (hle hc d hd) hlt)
        · rw [List.mem_singleton.mp hd]
          exact le_refl _
  · have hrec : (w.clientGetData c).received e = w.received e := Function.update_of_ne he _ _
    have hid : (w.clientGetData c).broker.bobj (.client e) = w.broker.bobj (.client e) :=
      getData_bobj_of_ne ownerOps handOver w.owner (by simpa using he)
    rw [hrec, hid, clientGetData_clients]
    exact h e

theorem call_delivered {w w' : World Obj Cl Data} {a : Call Obj Cl Data}
    (h : w.call a = some w') (hb : w.broker.Ordered) (hd : w.Delivered) : w'.Delivered := by
  have hl := hb.toLinked
  cases a with
  | addObj o d =>
    obtain ⟨-, rfl⟩ := call_addObj.mp h
    refine hd.of_eq rfl (fun _ hc => hc) (fun c => ?_)
    simp [World.addObj, World.after, brokerAddObj, setObj]
  | updObj o d =>
    obtain ⟨-, rfl⟩ := call_updObj.mp h
    have hbroker : (w.updObj o d).broker
        = (w.broker.setDelete (.obj o) false).moveToTail (.obj o) := brokerUpdObj_eq w.broker o
    refine hd.of_eq rfl (fun c hc => ?_) (fun c => ?_)
    · rw [hbroker] at hc
      exact hc
    · rw [hbroker, moveToTail_bobj_id, if_neg (by simp), setDelete_bobj_id]
  | delObj o d =>
    obtain ⟨-, rfl⟩ := call_delObj.mp h
    by_cases hc : w.broker.clientList = []
    · have hbroker : (w.delObj o d).broker
          = (brokerDelObjNow ownerOps w.broker (w.owner.store o d) (.obj o)).1 := by
        rw [← brokerDelObj_of_no_clients ownerOps hc]
        rfl
      refine hd.of_eq rfl (fun c hc => ?_) (fun c => ?_)
      · rw [hbroker] at hc
        exact hc
      · rw [hbroker]
        rfl
    · have hbroker : (w.delObj o d).broker
          = (w.broker.setDelete (.obj o) true).moveToTail (.obj o) := by
        simp [World.delObj, World.after, brokerDelObj_of_clients ownerOps hc]
      refine hd.of_eq rfl (fun c hc => ?_) (fun c => ?_)
      · rw [hbroker] at hc
        exact hc
      · rw [hbroker, moveToTail_bobj_id, if_neg (by simp), setDelete_bobj_id]
  | delObjNow o =>
    obtain ⟨-, rfl⟩ := call_delObjNow.mp h
    exact hd.of_eq rfl (fun _ hc => hc) (fun _ => rfl)
  | clientCreate c name =>
    obtain ⟨hc, rfl⟩ := call_clientCreate.mp h
    intro e
    by_cases he : e = c
    -- a client starts over with an empty record
    · have hrec : (w.clientCreate c name).received e = [] := by
        rw [he]
        exact Function.update_self _ _ _
      rw [hrec]
      exact ⟨List.Pairwise.nil, fun _ _ hx => absurd hx List.not_mem_nil⟩
    · have hrec : (w.clientCreate c name).received e = w.received e :=
        Function.update_of_ne he _ _
      have hid : (w.clientCreate c name).broker.bobj (.client e) = w.broker.bobj (.client e) :=
        clientCreate_bobj_of_ne w.broker c name (by simpa using he)
      rw [hrec, hid]
      refine ⟨(hd e).1, fun hmem => (hd e).2 ?_⟩
      have hmem' : e ∈ (brokerClientCreate w.broker (some c) (some name)).2.clientList := hmem
      rw [clientCreate_clientList] at hmem'
      exact (List.mem_cons.mp hmem').resolve_left he
  | clientDelete c =>
    obtain ⟨-, rfl⟩ := call_clientDelete.mp h
    refine hd.of_eq rfl (fun e he => ?_) (fun e => ?_)
    · have he' : e ∈ (brokerClientDelete ownerOps w.broker w.owner c).1.clientList := he
      rw [clientDelete_clientList] at he'
      exact ((mem_remove hl.clients_nodup).mp he').2
    · show ((brokerClientDelete ownerOps w.broker w.owner c).1.bobj (.client e)).id = _
      rw [clientDelete_bobj ownerOps hl]
  | clientGetData c =>
    obtain ⟨hc, rfl⟩ := call_clientGetData.mp h
    exact hd.clientGetData hb hc

/-- **Delivery order of one broker.**  In every state reached with fewer than `2^64`
increments of the broker's id:

* the ids of what a client was handed since it registered strictly increase;
* what is due to a client, the data objects after its cursor, are the listed objects
  with an id greater than its own, in the order of their ids, so that of two pending
  objects the one changed earlier comes first;
* `n` reads with no publish in between, whatever the other clients do, hand out the
  first `n` of them in this order; once they are exhausted a read returns `NULL`, and
  leaves the client with the id of the broker. -/
theorem delivery_order {d₀ : Obj → Data} {w : World Obj Cl Data}
    (h : (brokerSystem Cl d₀).Reachable w) (hw : w.broker.increments < 2 ^ 64) :
    (∀ c, (w.received c).Pairwise fun d d' => d.id < d'.id) ∧
    (∀ c ∈ w.broker.clientList,
      (∀ o, o ∈ w.broker.due c ↔
        w.broker.Listed o ∧ (w.broker.bobj (.client c)).id < (w.broker.bobj (.obj o)).id) ∧
      ((w.broker.due c).Pairwise fun o o' =>
        (w.broker.bobj (.obj o)).id < (w.broker.bobj (.obj o')).id) ∧
      ∀ o ∈ w.broker.due c, ∀ o' ∈ w.broker.due c,
        (w.broker.bobj (.obj o)).id < (w.broker.bobj (.obj o')).id →
        Precedes (w.broker.due c) o o') ∧
    (∀ c ∈ w.broker.clientList, ∀ bs w', (∀ a ∈ bs, a.quiet c = true) →
      (brokerSystem Cl d₀).exec w bs = some w' →
      (w'.received c).map Delivery.untimed = (w.received c).map Delivery.untimed
        ++ ((w.broker.due c).take (bs.countP (Call.reads c))).map
          (fun o => (w.version o).untimed) ∧
      ((w.broker.due c).length ≤ bs.countP (Call.reads c) →
        (brokerClientGetData ownerOps handOver w'.broker w'.owner (some c)).1 = none) ∧
      ((w.broker.due c).length < bs.countP (Call.reads c) →
        (w'.broker.bobj (.client c)).id = w'.broker.id)) := by
  obtain ⟨as, has⟩ := h
  obtain ⟨hb, hd⟩ := run_invariant has hw (I := World.Delivered)
    (fun c => ⟨List.Pairwise.nil, fun _ _ hx => absurd hx List.not_mem_nil⟩)
    (fun a _ v v' hcall hb _ hd => call_delivered hcall hb hd)
  refine ⟨fun c => (hd c).1, fun c hc => ⟨fun o => ?_, due_sorted hb, fun o ho o' ho' hlt => ?_⟩,
    fun c hc bs w' hquiet hexec => ?_⟩
  · rw [mem_due hb.toLinked, hb.pending_iff hc]
  -- in a list sorted by id, a smaller id comes first
  · have hne : o ≠ o' := fun he => by
      rw [he] at hlt
      exact lt_irrefl _ hlt
    rcases precedes_total ho ho' hne with hp | hp
    · exact hp
    · exact absurd hlt (lt_asymm (pairwise_iff_precedes.mp (due_sorted hb) _ _ hp))
  · have hread := quiet_run hb hc hquiet hexec
    refine ⟨hread.received, fun hle => ?_, fun hlt => ?_⟩
    · have hnil : w'.broker.due c = [] := by
        rw [hread.due]
        exact List.drop_eq_nil_of_le hle
      have hnext := (getNextDataObj_eq_none hread.ordered.toLinked).mpr
        ((due_eq_nil hread.ordered.toLinked).mp hnil)
      rw [getData_of_none ownerOps handOver w'.owner hnext]
    · rw [hread.level (Or.inl hlt), hread.id]

/-- The theorem at a run with two objects, read to the end by one of two clients. -/
theorem delivery_order_two_objects :
    ∃ w w', (brokerSystem ℕ fun _ : ℕ => 0).exec (World.start fun _ => 0) [.clientCreate 0 "dp",
        .addObj 7 1, .addObj 8 1, .updObj 7 2] = some w ∧
      (brokerSystem ℕ fun _ : ℕ => 0).exec w [.clientGetData 0, .clientCreate 1 "kernel",
        .clientGetData 0, .clientGetData 1, .clientGetData 0] = some w' ∧
      (w'.received 0).map Delivery.untimed = [(8, 1, false, 2), (7, 2, false, 3)] ∧
      (w'.broker.bobj (.client 0)).id = w'.broker.id := by
  obtain ⟨w, hexec, hp⟩ := (brokerSystem ℕ fun _ : ℕ => 0).exists_of_exec_any
    (World.start fun _ => 0) [.clientCreate 0 "dp", .addObj 7 1, .addObj 8 1, .updObj 7 2]
    (fun w => w.broker.increments < 2 ^ 64 ∧ 0 ∈ w.broker.clientList ∧
      (w.received 0).map Delivery.untimed = [] ∧ (w.broker.due 0).length = 2 ∧
      ((w.broker.due 0).take 3).map (fun o => (w.version o).untimed)
        = [(8, 1, false, 2), (7, 2, false, 3)] ∧
      ((brokerSystem ℕ fun _ : ℕ => 0).exec w [.clientGetData 0, .clientCreate 1 "kernel",
        .clientGetData 0, .clientGetData 1, .clientGetData 0]).isSome) (by decide +kernel)
  rw [decide_eq_true_eq] at hp
  obtain ⟨hw, hc, hnil, hlen, hdue, hsome⟩ := hp
  obtain ⟨w', hw'⟩ := Option.isSome_iff_exists.mp hsome
  obtain ⟨hrec, -, hlevel⟩ :=
    (delivery_order ⟨_, hexec⟩ hw).2.2 0 hc _ w' (by decide) hw'
  refine ⟨w, w', hexec, hw', ?_, hlevel (by rw [hlen]; decide)⟩
  rw [hrec, hnil]
  exact hdue

/-- Without the bound on the increments a client can be handed the same id twice: the
counter has come back to `1` when the client reads the object again. -/
theorem delivery_order_after_wrap :
    ∃ w, (brokerSystem ℕ fun _ : ℕ => 0).exec (World.start fun _ => 0)
        (aroundUpdates [.clientCreate 0 "dp", .addObj 7 0, .clientGetData 0, .updObj 7 0]
          (2 ^ 64 - 1) 7 0 [.clientGetData 0]) = some w ∧
      (w.received 0).map Delivery.id = [1, 1] := by
  obtain ⟨w, hexec, hp⟩ := exec_around_updates (fun _ => 0)
    [.clientCreate 0 "dp", .addObj 7 0, .clientGetData 0, .updObj 7 0]
    (2 ^ 64 - 2) 7 0 [.clientGetData 0] (fun w => decide ((w.received 0).map Delivery.id = [1, 1]))
    (by decide +kernel)
  exact ⟨w, hexec, of_decide_eq_true hp⟩
