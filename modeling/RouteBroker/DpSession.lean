/-
# Dataplane sessions

The control thread of `route_broker_dp_ctrl.c` and the data threads it starts, each of
them running `broker_dp_data_client` of `route_broker_dp_data.c`.  A session is one such
thread; sessions and the sockets they create are numbered in the order in which they
come about, and the client a session has at the route broker goes by the number of the
session.

* The control thread handles one `CONNECT` after the other.  It waits in
  `zactor_destroy` until a session that it stops is through, and in `zactor_new` and
  `zstr_recv` until a session that it starts has sent its endpoint.
* A data thread makes one step from one library call to the next; `Pc` says which call
  comes next.  What `client_publish` returns is up to the network.
* `dp_data_sock` is declared `static` in `broker_dp_data_client`, so that there is one
  for all sessions.
* An endpoint stands for the socket that was bound to it.  Creating or binding a socket
  does not fail; the code asserts this.

The world records what was passed to `client_publish`, which sockets were destroyed and
by whom, and what was sent in an `ACCEPT`.

With one session after the other the static variable does no harm:
`sessions_isolated` says that sessions are isolated as long as no `CONNECT` comes in
for a uuid while a session for another one is open.  `crossed_sockets` shows what
happens otherwise.
-/
import RouteBroker.RouteRun

open Circleq Broker

/-! ## The threads -/

/-- The next library call of a data thread. -/
inductive Pc (Data : Type*)
  /-- `route_broker_client_create("dp")` -/
  | start
  /-- `zsock_new(ZMQ_PUSH)` -/
  | created
  /-- `zsock_bind(*data_sock, ...)` -/
  | opened
  /-- `zsock_last_endpoint(*data_sock)` -/
  | bound
  /-- `zsock_signal(pipe, 0)` and `zstr_send(pipe, ep)` -/
  | named
  /-- `route_broker_client_get_data(client, &bc)` -/
  | polling
  /-- `client_publish(obj, dp_data_sock)` -/
  | sending (obj : Data)
  /-- `client_needs_restart(pipe)` after a failure of `client_publish` -/
  | failed (obj : Data)
  /-- `client_needs_restart(pipe)` after the object was published, or without one -/
  | checking
  /-- `route_broker_client_delete(client)` -/
  | stopping
  /-- `zsock_destroy(&dp_data_sock)` -/
  | closing
  /-- the thread has ended -/
  | done
  deriving DecidableEq

/-- What `client_publish` does: zero, or an error with `errno` set to `EAGAIN` or not. -/
inductive SendResult
  | ok
  | again
  | error
  deriving DecidableEq

/-- A data thread, seen from outside. -/
structure Session (Uuid Data : Type*) where
  uuid : Option Uuid := none
  pc : Pc Data := .done
  /-- `$TERM` is on the pipe -/
  term : Bool := false
  /-- the socket `broker_dp_data_init` has bound -/
  boundSock : Option ℕ := none
  /-- the socket whose endpoint it has returned -/
  ep : Option ℕ := none
  /-- `client->errors` -/
  errors : UInt64 := 0

/-- What the control thread is doing. -/
inductive Ctrl (Uuid : Type*)
  /-- waiting for the next message -/
  | idle
  /-- in `zactor_destroy` for a session; with the uuid it is to be started for again -/
  | closing (next : Option Uuid) (n : ℕ)
  /-- in `zactor_new` or `zstr_recv` for a session -/
  | starting (u : Uuid) (n : ℕ)
  /-- in `close_all_dp_sessions` -/
  | shutdown
  deriving DecidableEq

/-- The control thread, the data threads and the route broker. -/
structure DpWorld (Addr Uuid Topic Data : Type*) where
  rb : RouteBroker Addr ℕ Topic Data
  /-- `dp_uuid_ht` -/
  table : Uuid → Option ℕ
  ctrl : Ctrl Uuid
  session : ℕ → Session Uuid Data
  /-- how many sessions there have been -/
  sessions : ℕ
  /-- `dp_data_sock` -/
  dpDataSock : Option ℕ
  /-- how many sockets there have been -/
  sockets : ℕ
  /-- session, object and socket of each call of `client_publish` -/
  published : List (ℕ × Data × Option ℕ)
  /-- session and socket of each call of `zsock_destroy` -/
  destroyed : List (ℕ × Option ℕ)
  /-- uuid, session and socket of each `ACCEPT` -/
  accepted : List (Uuid × ℕ × Option ℕ)

/-- The steps of the threads. -/
inductive DpStep (Addr Uuid Data : Type*)
  /-- the control thread reads a `CONNECT` -/
  | connect (u : Uuid)
  /-- the session it waits for has ended -/
  | stopped
  /-- the session it waits for has sent its endpoint -/
  | accept
  /-- the control thread leaves its loop -/
  | shutdown
  /-- `close_all_dp_sessions` closes the session of a uuid -/
  | closeSession (u : Uuid)
  /-- a data thread makes its next call -/
  | thread (n : ℕ) (r : SendResult)
  /-- `object_broker_publish` -/
  | publish (a : Addr) (obj : Data) (pri : Level)

variable {Addr Uuid Topic Data : Type*}

/-- The world before the first message. -/
def DpWorld.start : DpWorld Addr Uuid Topic Data where
  rb := routeBrokerInit
  table := fun _ => none
  ctrl := .idle
  session := fun _ => {}
  sessions := 0
  dpDataSock := none
  sockets := 0
  published := []
  destroyed := []
  accepted := []

variable [DecidableEq Addr] [DecidableEq Uuid] [DecidableEq Topic]

namespace DpWorld

variable (s : DpWorld Addr Uuid Topic Data)

/-- Write the state of a session. -/
def setSession (n : ℕ) (S : Session Uuid Data) : DpWorld Addr Uuid Topic Data :=
  { s with session := Function.update s.session n S }

/-- `client_needs_restart`, with where it leads if there is nothing on the pipe. -/
def needsRestart (n : ℕ) (pc : Pc Data) : DpWorld Addr Uuid Topic Data :=
  if (s.session n).term then s.setSession n { s.session n with pc := .stopping, term := false }
  else s.setSession n { s.session n with pc := pc }

/-- The next call of `broker_dp_data_client` in session `n`. -/
def thread (init : ObjectBrokerInit Topic Data) (n : ℕ) (r : SendResult) :
    Option (DpWorld Addr Uuid Topic Data) :=
  let S := s.session n
  match S.pc with
  | .start =>
    some { s.setSession n { S with pc := .created } with rb := s.rb.clientCreate n "dp" }
  | .created =>
    some { s.setSession n { S with pc := .opened } with
      dpDataSock := some s.sockets
      sockets := s.sockets + 1 }
  | .opened => some (s.setSession n { S with pc := .bound, boundSock := s.dpDataSock })
  | .bound => some (s.setSession n { S with pc := .named, ep := s.dpDataSock })
  | .named => some (s.setSession n { S with pc := .polling })
  | .polling =>
    let got := s.rb.clientGetData init.copyObj n
    some { s.setSession n { S with pc := got.1.1.elim .checking .sending } with rb := got.2 }
  | .sending obj =>
    let s := { s with published := s.published ++ [(n, obj, s.dpDataSock)] }
    match r with
    | .ok => some (s.setSession n { S with pc := .checking })
    | .again => some (s.setSession n { S with pc := .failed obj })
    | .error => some (s.setSession n { S with pc := .failed obj, errors := S.errors + 1 })
  | .failed obj => some (s.needsRestart n (.sending obj))
  | .checking => some (s.needsRestart n .polling)
  | .stopping =>
    some { s.setSession n { S with pc := .closing } with rb := s.rb.clientDelete n }
  | .closing =>
    -- `zsock_destroy` also clears the variable
    some { s.setSession n { S with pc := .done } with
      destroyed := s.destroyed ++ [(n, s.dpDataSock)]
      dpDataSock := none }
  | .done => none

/-- `close_dp_session`, up to the wait in `zactor_destroy`. -/
def closeDpSession (u : Uuid) (n : ℕ) (next : Option Uuid) : DpWorld Addr Uuid Topic Data :=
  { s.setSession n { s.session n with term := true } with
    table := Function.update s.table u none
    ctrl := .closing next n }

/-- The rest of `process_connect_message`, up to the wait for the endpoint. -/
def startNewDpDataThread (u : Uuid) : DpWorld Addr Uuid Topic Data :=
  { s.setSession s.sessions { uuid := some u, pc := .start } with
    table := Function.update s.table u (some s.sessions)
    ctrl := .starting u s.sessions
    sessions := s.sessions + 1 }

/-- `process_connect_message`, up to its first wait. -/
def processConnectMessage (u : Uuid) : DpWorld Addr Uuid Topic Data :=
  match s.table u with
  | some n => s.closeDpSession u n (some u)
  | none => s.startNewDpDataThread u

end DpWorld

/-- The thread has sent its endpoint. -/
def Pc.signalled : Pc Data → Bool
  | .start | .created | .opened | .bound | .named => false
  | _ => true

namespace DpWorld

variable (s : DpWorld Addr Uuid Topic Data)

/-- One step; `none` if the thread is not there or waits. -/
def step (init : ObjectBrokerInit Topic Data) :
    DpStep Addr Uuid Data → Option (DpWorld Addr Uuid Topic Data)
  | .connect u =>
    match s.ctrl with
    | .idle => some (s.processConnectMessage u)
    | _ => none
  | .stopped =>
    match s.ctrl with
    | .closing next n =>
      match (s.session n).pc with
      | .done =>
        match next with
        | some u => some (s.startNewDpDataThread u)
        | none => some { s with ctrl := .shutdown }
      | _ => none
    | _ => none
  | .accept =>
    match s.ctrl with
    | .starting u n =>
      if (s.session n).pc.signalled then
        some { s with ctrl := .idle, accepted := s.accepted ++ [(u, n, (s.session n).ep)] }
      else none
    | _ => none
  | .shutdown =>
    match s.ctrl with
    | .idle => some { s with ctrl := .shutdown }
    | _ => none
  | .closeSession u =>
    match s.ctrl, s.table u with
    | .shutdown, some n => some (s.closeDpSession u n none)
    | _, _ => none
  | .thread n r => s.thread init n r
  | .publish a obj pri =>
    if (s.rb.store.heap a).isNone then
      some { s with rb := (s.rb.objectBrokerPublish init (some a) obj pri).1 }
    else none

end DpWorld

/-- All interleavings of the threads, for all sequences of messages. -/
def dpSystem (Addr Uuid : Type*) [DecidableEq Addr] [DecidableEq Uuid]
    (init : ObjectBrokerInit Topic Data) :
    System (DpWorld Addr Uuid Topic Data) (DpStep Addr Uuid Data) where
  init := .start
  step := fun s x => s.step init x

section Inversion

variable {init : ObjectBrokerInit Topic Data} {s t : DpWorld Addr Uuid Topic Data} {u : Uuid}

theorem dpStep_connect : s.step init (.connect u) = some t ↔
    s.ctrl = .idle ∧ t = s.processConnectMessage u := by
  cases hc : s.ctrl <;> simp [DpWorld.step, hc, eq_comm]

theorem dpStep_stopped : s.step init .stopped = some t ↔
    ∃ next n, s.ctrl = .closing next n ∧ (s.session n).pc = .done ∧
      t = next.elim { s with ctrl := .shutdown } s.startNewDpDataThread := by
  cases hc : s.ctrl with
  | closing next n =>
    cases hpc : (s.session n).pc <;> cases next <;> simp [DpWorld.step, hc, hpc, eq_comm]
  | _ => simp [DpWorld.step, hc]

theorem dpStep_accept : s.step init .accept = some t ↔
    ∃ u n, s.ctrl = .starting u n ∧ (s.session n).pc.signalled = true ∧
      t = { s with ctrl := .idle, accepted := s.accepted ++ [(u, n, (s.session n).ep)] } := by
  cases hc : s.ctrl with
  | starting u n =>
    simp only [DpWorld.step, hc, Option.ite_none_right_eq_some, Option.some.injEq]
    constructor
    · rintro ⟨hsig, rfl⟩
      exact ⟨u, n, rfl, hsig, rfl⟩
    · rintro ⟨u', n', he, hsig, rfl⟩
      obtain ⟨rfl, rfl⟩ := Ctrl.starting.inj he
      exact ⟨hsig, rfl⟩
  | _ => simp [DpWorld.step, hc]

theorem dpStep_shutdown : s.step init .shutdown = some t ↔
    s.ctrl = .idle ∧ t = { s with ctrl := .shutdown } := by
  cases hc : s.ctrl <;> simp [DpWorld.step, hc, eq_comm]

theorem dpStep_closeSession : s.step init (.closeSession u) = some t ↔
    s.ctrl = .shutdown ∧ ∃ n, s.table u = some n ∧ t = s.closeDpSession u n none := by
  cases hc : s.ctrl with
  | shutdown => cases ht : s.table u <;> simp [DpWorld.step, hc, ht, eq_comm]
  | _ => simp [DpWorld.step, hc]

theorem dpStep_publish {a : Addr} {obj : Data} {pri : Level} :
    s.step init (.publish a obj pri) = some t ↔ s.rb.store.heap a = none ∧
      t = { s with rb := (s.rb.objectBrokerPublish init (some a) obj pri).1 } := by
  simp only [DpWorld.step, Option.isNone_iff_eq_none, Option.ite_none_right_eq_some,
    Option.some.injEq]
  exact and_congr_right (fun _ => eq_comm)

end Inversion

/-! ## Isolation -/

/-- Whatever a session passes to `client_publish` or destroys is the socket that its own
`broker_dp_data_init` has bound; so is the one whose endpoint its uuid was sent in the
`ACCEPT`; and no two sessions have the same. -/
structure Isolated (s : DpWorld Addr Uuid Topic Data) : Prop where
  published : ∀ p ∈ s.published, p.2.2 ≠ none ∧ (s.session p.1).boundSock = p.2.2
  destroyed : ∀ p ∈ s.destroyed, p.2 ≠ none ∧ (s.session p.1).boundSock = p.2
  accepted : ∀ p ∈ s.accepted, p.2.2 ≠ none ∧ (s.session p.2.1).boundSock = p.2.2 ∧
    (s.session p.2.1).uuid = some p.1
  own : ∀ n m k, (s.session n).boundSock = some k → (s.session m).boundSock = some k → n = m

/-- A `CONNECT` for a uuid while a session for another one is open. -/
def DpWorld.Foreign (s : DpWorld Addr Uuid Topic Data) : DpStep Addr Uuid Data → Prop
  | .connect u => ∃ v, v ≠ u ∧ s.table v ≠ none
  | _ => False

/-- The thread is in its loop. -/
def Pc.running : Pc Data → Bool
  | .polling | .sending _ | .failed _ | .checking => true
  | _ => false

/-- The thread is on its way out. -/
def Pc.winding : Pc Data → Bool
  | .stopping | .closing | .done => true
  | _ => false

/-- What the thread of the open session knows about `dp_data_sock`. -/
def SockOk (S : Session Uuid Data) (sock : Option ℕ) : Prop :=
  match S.pc with
  | .start | .created | .opened => S.boundSock = none
  | .bound => sock ≠ none ∧ S.boundSock = sock
  | .done => True
  | _ => sock ≠ none ∧ S.boundSock = sock ∧ S.ep = sock

/-- The session `n` is the only one in the table, under the uuid `u`. -/
structure Serves (s : DpWorld Addr Uuid Topic Data) (u : Uuid) (n : ℕ) : Prop where
  table : ∀ v m, s.table v = some m ↔ v = u ∧ m = n
  uuid : (s.session n).uuid = some u
  term : (s.session n).term = false

/-- What the control thread knows about the open session. -/
def CtrlOk (s : DpWorld Addr Uuid Topic Data) (cur : Option ℕ) : Prop :=
  match s.ctrl with
  | .idle | .shutdown => (cur = none ∧ ∀ u, s.table u = none) ∨
      ∃ u n, cur = some n ∧ Serves s u n ∧ (s.session n).pc.running = true
  | .closing _ n => cur = some n ∧ (∀ u, s.table u = none) ∧ (s.session n).pc.signalled = true
  | .starting u n => cur = some n ∧ Serves s u n ∧ (s.session n).pc.winding = false

/-- The sessions are isolated, and at most one of them, `cur`, is open. -/
structure Calm (s : DpWorld Addr Uuid Topic Data) (cur : Option ℕ) : Prop where
  isolated : Isolated s
  fresh : ∀ n k, (s.session n).boundSock = some k → k < s.sockets
  unborn : ∀ n, s.sessions ≤ n → s.session n = {}
  ended : ∀ n, cur ≠ some n → (s.session n).pc = .done
  sock : ∀ n, cur = some n → SockOk (s.session n) s.dpDataSock
  unbound : ∀ n, cur = some n → (s.session n).pc = .opened →
    ∃ k, s.dpDataSock = some k ∧ k < s.sockets ∧ ∀ m, (s.session m).boundSock ≠ some k
  ctrl : CtrlOk s cur

section Threads

variable {init : ObjectBrokerInit Topic Data} {s t : DpWorld Addr Uuid Topic Data} {n : ℕ}
  {cur : Option ℕ} {S' : Session Uuid Data}

/-- How a data thread can move on: only `$TERM` gets it out of its loop. -/
structure Advances (S S' : Session Uuid Data) : Prop where
  uuid : S'.uuid = S.uuid
  term : S.term = false → S'.term = false
  running : S.term = false → S.pc.running = true → S'.pc.running = true
  winding : S.term = false → S.pc.winding = false → S'.pc.winding = false
  signalled : S.pc.signalled = true → S'.pc.signalled = true

omit [DecidableEq Addr] [DecidableEq Uuid] [DecidableEq Topic] in
theorem CtrlOk.advance (h : CtrlOk s (some n)) (hctrl : t.ctrl = s.ctrl)
    (htable : t.table = s.table) (hn : t.session n = S') (hadv : Advances (s.session n) S') :
    CtrlOk t (some n) := by
  have hserves : ∀ u, Serves s u n → Serves t u n := by
    intro u hs
    refine ⟨by rw [htable]; exact hs.table, ?_, ?_⟩
    · rw [hn, hadv.uuid, hs.uuid]
    · rw [hn, hadv.term hs.term]
  -- a session that is open for its uuid stays so
  have hopen : ((some n = none ∧ ∀ u, s.table u = none) ∨ ∃ u m, some n = some m ∧ Serves s u m ∧
      (s.session m).pc.running = true) → ∃ u m, some n = some m ∧ Serves t u m ∧
      (t.session m).pc.running = true := by
    rintro (⟨hx, -⟩ | ⟨u, m, hm, hs, hrun⟩)
    · exact nomatch hx
    · obtain rfl := Option.some.inj hm
      refine ⟨u, n, rfl, hserves u hs, ?_⟩
      rw [hn]
      exact hadv.running hs.term hrun
  unfold CtrlOk at h ⊢
  rw [hctrl]
  cases hc : s.ctrl with
  | idle =>
    rw [hc] at h
    exact Or.inr (hopen h)
  | shutdown =>
    rw [hc] at h
    exact Or.inr (hopen h)
  | closing next m =>
    rw [hc] at h
    obtain ⟨hm, hnone, hsig⟩ := h
    obtain rfl := Option.some.inj hm
    refine ⟨rfl, by rw [htable]; exact hnone, ?_⟩
    rw [hn]
    exact hadv.signalled hsig
  | starting u m =>
    rw [hc] at h
    obtain ⟨hm, hs, hwind⟩ := h
    obtain rfl := Option.some.inj hm
    refine ⟨rfl, hserves u hs, ?_⟩
    rw [hn]
    exact hadv.winding hs.term hwind

omit [DecidableEq Addr] [DecidableEq Uuid] [DecidableEq Topic] in
/-- Isolation after a step that lets the bound sockets and the uuids of the sessions be,
from what was added to the records. -/
theorem Isolated.keep (h : Isolated s)
    (hbound : ∀ m, (t.session m).boundSock = (s.session m).boundSock)
    (huuid : ∀ m, (s.session m).boundSock ≠ none → (t.session m).uuid = (s.session m).uuid)
    (hp : ∀ p ∈ t.published, p ∈ s.published ∨
      (p.2.2 ≠ none ∧ (s.session p.1).boundSock = p.2.2))
    (hd : ∀ p ∈ t.destroyed, p ∈ s.destroyed ∨ (p.2 ≠ none ∧ (s.session p.1).boundSock = p.2))
    (ha : t.accepted = s.accepted) : Isolated t := by
  refine ⟨fun p hmem => ?_, fun p hmem => ?_, fun p hmem => ?_, fun n m k => ?_⟩
  · rw [hbound]
    exact (hp p hmem).elim (h.published p) id
  · rw [hbound]
    exact (hd p hmem).elim (h.destroyed p) id
  · rw [ha] at hmem
    obtain ⟨hne, heq, hu⟩ := h.accepted p hmem
    rw [hbound, huuid _ (by rw [heq]; exact hne)]
    exact ⟨hne, heq, hu⟩
  · rw [hbound, hbound]
    exact h.own n m k

omit [DecidableEq Addr] [DecidableEq Uuid] [DecidableEq Topic] in
theorem boundSock_uuid_update (session : ℕ → Session Uuid Data) (n : ℕ)
    (hbound : S'.boundSock = (session n).boundSock) (huuid : S'.uuid = (session n).uuid) (m : ℕ) :
    (Function.update session n S' m).boundSock = (session m).boundSock ∧
      (Function.update session n S' m).uuid = (session m).uuid := by
  by_cases he : m = n
  · rw [he, Function.update_self]
    exact ⟨hbound, huuid⟩
  · rw [Function.update_of_ne he]
    exact ⟨rfl, rfl⟩

omit [DecidableEq Addr] [DecidableEq Uuid] [DecidableEq Topic] in
/-- A step of the open session. -/
theorem Calm.advance (hc : Calm s (some n)) (hact : (s.session n).pc ≠ .done)
    (hsession : t.session = Function.update s.session n S') (hctrl : t.ctrl = s.ctrl)
    (htable : t.table = s.table) (hsessions : t.sessions = s.sessions)
    (hadv : Advances (s.session n) S') (hiso : Isolated t)
    (hfresh : ∀ m k, (t.session m).boundSock = some k → k < t.sockets)
    (hsock : SockOk S' t.dpDataSock)
    (hunbound : S'.pc = .opened →
      ∃ k, t.dpDataSock = some k ∧ k < t.sockets ∧ ∀ m, (t.session m).boundSock ≠ some k) :
    Calm t (some n) := by
  have hn : t.session n = S' := by rw [hsession, Function.update_self]
  have hother : ∀ m, m ≠ n → t.session m = s.session m := by
    intro m hne
    rw [hsession, Function.update_of_ne hne]
  refine ⟨hiso, hfresh, fun m hm => ?_, fun m hm => ?_, fun m hm => ?_, fun m hm => ?_,
    hc.ctrl.advance hctrl htable hn hadv⟩
  · rw [hsessions] at hm
    have hne : m ≠ n := by
      intro he
      rw [he] at hm
      exact hact (by rw [hc.unborn n hm])
    rw [hother m hne]
    exact hc.unborn m hm
  · rw [hother m (fun he => hm (by rw [he]))]
    exact hc.ended m hm
  · obtain rfl := Option.some.inj hm
    rw [hn]
    exact hsock
  · obtain rfl := Option.some.inj hm
    rw [hn]
    exact hunbound

omit [DecidableEq Addr] [DecidableEq Uuid] [DecidableEq Topic] in
/-- A step of the open session that is not about its socket. -/
theorem Calm.advance_quiet (hc : Calm s (some n)) (hact : (s.session n).pc ≠ .done)
    (hsession : t.session = Function.update s.session n S') (hctrl : t.ctrl = s.ctrl)
    (htable : t.table = s.table) (hsessions : t.sessions = s.sessions)
    (hsockets : t.sockets = s.sockets) (hbound : S'.boundSock = (s.session n).boundSock)
    (hadv : Advances (s.session n) S')
    (hp : ∀ p ∈ t.published, p ∈ s.published ∨
      (p.2.2 ≠ none ∧ (s.session p.1).boundSock = p.2.2))
    (hd : ∀ p ∈ t.destroyed, p ∈ s.destroyed ∨ (p.2 ≠ none ∧ (s.session p.1).boundSock = p.2))
    (ha : t.accepted = s.accepted) (hsock : SockOk S' t.dpDataSock) (hpc : S'.pc ≠ .opened) :
    Calm t (some n) := by
  have hall : ∀ m, (t.session m).boundSock = (s.session m).boundSock ∧
      (t.session m).uuid = (s.session m).uuid := by
    rw [hsession]
    exact boundSock_uuid_update s.session n hbound hadv.uuid
  refine hc.advance hact hsession hctrl htable hsessions hadv
    (hc.isolated.keep (fun m => (hall m).1) (fun m _ => (hall m).2) hp hd ha) (fun m k => ?_) hsock
    (fun h => absurd h hpc)
  rw [(hall m).1, hsockets]
  exact hc.fresh m k

omit [DecidableEq Addr] [DecidableEq Uuid] [DecidableEq Topic] in
/-- A step that does not read the pipe. -/
theorem advances_of_pc {S : Session Uuid Data} {p p' : Pc Data} (hp : S.pc = p) (hp' : S'.pc = p')
    (huuid : S'.uuid = S.uuid) (hterm : S'.term = S.term)
    (hrun : p.running = true → p'.running = true)
    (hwind : p.winding = false → p'.winding = false)
    (hsig : p.signalled = true → p'.signalled = true) : Advances S S' := by
  subst hp hp'
  refine ⟨huuid, fun h => ?_, fun _ => hrun, fun _ => hwind, hsig⟩
  rw [hterm, h]

omit [DecidableEq Addr] [DecidableEq Uuid] [DecidableEq Topic] in
theorem Pc.running_eq (pc : Pc Data) : pc.running = (pc.signalled && !pc.winding) := by
  cases pc <;> rfl

omit [DecidableEq Addr] [DecidableEq Uuid] [DecidableEq Topic] in
theorem Pc.running_facts {pc : Pc Data} (h : pc.running = true) :
    pc.winding = false ∧ pc.signalled = true ∧ pc ≠ .opened ∧ pc ≠ .done := by
  cases pc <;> simp_all [Pc.running, Pc.winding, Pc.signalled]

omit [DecidableEq Addr] [DecidableEq Uuid] [DecidableEq Topic] in
/-- In its loop, and until it has destroyed it, a thread has its socket. -/
theorem sockOk_iff {S : Session Uuid Data} {sock : Option ℕ}
    (h : S.pc.running = true ∨ S.pc = .stopping ∨ S.pc = .closing ∨ S.pc = .named) :
    SockOk S sock ↔ sock ≠ none ∧ S.boundSock = sock ∧ S.ep = sock := by
  unfold SockOk
  cases hpc : S.pc <;> simp_all [Pc.running]

omit [DecidableEq Addr] [DecidableEq Uuid] [DecidableEq Topic] in
/-- `client_needs_restart`, in the loop. -/
theorem Calm.needsRestart (hc : Calm s (some n)) {pc : Pc Data}
    (hrun : (s.session n).pc.running = true) (hpc : pc.running = true) :
    Calm (s.needsRestart n pc) (some n) := by
  obtain ⟨-, -, -, hact⟩ := Pc.running_facts hrun
  obtain ⟨hwind, hsig, hopen, -⟩ := Pc.running_facts hpc
  have hok := (sockOk_iff (Or.inl hrun)).mp (hc.sock n rfl)
  unfold DpWorld.needsRestart
  split_ifs with hterm
  -- `$TERM` came: the thread leaves its loop
  · have hadv : Advances (s.session n) { s.session n with pc := .stopping, term := false } := by
      refine ⟨rfl, fun _ => rfl, fun h => ?_, fun h => ?_, fun _ => rfl⟩
      · rw [hterm] at h
        exact nomatch h
      · rw [hterm] at h
        exact nomatch h
    exact hc.advance_quiet hact rfl rfl rfl rfl rfl rfl hadv (fun _ h => Or.inl h)
      (fun _ h => Or.inl h) rfl hok (fun h => nomatch h)
  · have hadv : Advances (s.session n) { s.session n with pc := pc } :=
      advances_of_pc rfl rfl rfl rfl (fun _ => hpc) (fun _ => hwind) (fun _ => hsig)
    exact hc.advance_quiet hact rfl rfl rfl rfl rfl rfl hadv (fun _ h => Or.inl h)
      (fun _ h => Or.inl h) rfl ((sockOk_iff (Or.inl hpc)).mpr hok) hopen

omit [DecidableEq Addr] [DecidableEq Uuid] [DecidableEq Topic] in
/-- `zsock_bind` in the open session: the socket is a new one. -/
theorem Calm.bind (hc : Calm s (some n)) (hpc : (s.session n).pc = .opened) :
    Calm (s.setSession n { s.session n with pc := .bound, boundSock := s.dpDataSock })
      (some n) := by
  obtain ⟨k, hk, hlt, hnew⟩ := hc.unbound n rfl hpc
  have hnone : (s.session n).boundSock = none := by
    have hok := hc.sock n rfl
    unfold SockOk at hok
    rw [hpc] at hok
    exact hok
  have hact : (s.session n).pc ≠ .done := by
    rw [hpc]
    exact fun h => nomatch h
  generalize hS : ({ s.session n with pc := .bound, boundSock := s.dpDataSock } : Session Uuid Data)
    = S'
  have hself : ((s.setSession n S').session n) = S' := Function.update_self _ _ _
  have hother : ∀ m, m ≠ n → (s.setSession n S').session m = s.session m :=
    fun m hne => Function.update_of_ne hne _ _
  have hbound : ((s.setSession n S').session n).boundSock = some k := by
    rw [hself, ← hS, hk]
  -- whoever has bound a socket before is another session
  have hkeep : ∀ m sock, sock ≠ none ∧ (s.session m).boundSock = sock →
      (s.setSession n S').session m = s.session m := by
    rintro m sock ⟨hne, hm⟩
    refine hother m (fun he => hne ?_)
    rw [← hm, he, hnone]
  have hiso := hc.isolated
  refine hc.advance hact rfl rfl rfl rfl ?_ ⟨fun p hp => ?_, fun p hp => ?_, fun p hp => ?_,
    fun m m' j hm hm' => ?_⟩ (fun m j hm => ?_) ?_ (fun h => ?_)
  · rw [← hS]
    exact advances_of_pc hpc rfl rfl rfl (fun h => nomatch h) (fun _ => rfl) (fun h => nomatch h)
  · rw [hkeep p.1 p.2.2 (hiso.published p hp)]
    exact hiso.published p hp
  · rw [hkeep p.1 p.2 (hiso.destroyed p hp)]
    exact hiso.destroyed p hp
  · obtain ⟨hne, heq, hu⟩ := hiso.accepted p hp
    rw [hkeep p.2.1 p.2.2 ⟨hne, heq⟩]
    exact ⟨hne, heq, hu⟩
  · by_cases he : m = n
    · by_cases he' : m' = n
      · rw [he, he']
      · rw [he, hbound] at hm
        rw [hother m' he', ← hm] at hm'
        exact absurd hm' (hnew m')
    · rw [hother m he] at hm
      by_cases he' : m' = n
      · rw [he', hbound] at hm'
        rw [← hm'] at hm
        exact absurd hm (hnew m)
      · rw [hother m' he'] at hm'
        exact hiso.own m m' j hm hm'
  · by_cases he : m = n
    · rw [he, hbound] at hm
      rw [← Option.some.inj hm]
      exact hlt
    · rw [hother m he] at hm
      exact hc.fresh m j hm
  · rw [← hS]
    refine ⟨?_, rfl⟩
    show s.dpDataSock ≠ none
    rw [hk]
    exact Option.some_ne_none k
  · rw [← hS] at h
    exact nomatch h

omit [DecidableEq Uuid] in
/-- **Every step of a data thread keeps the calm.** -/
theorem calm_thread (hc : Calm s cur) {r : SendResult} (h : s.thread init n r = some t) :
    Calm t cur := by
  have hact : (s.session n).pc ≠ .done := by
    intro hd
    rw [DpWorld.thread, hd] at h
    exact nomatch h
  -- only the open session has steps to make
  obtain rfl : cur = some n := by
    by_contra hne
    exact hact (hc.ended n hne)
  have hok := hc.sock n rfl
  unfold SockOk at hok
  cases hpc : (s.session n).pc with
  | start =>
    rw [hpc] at hok
    rw [DpWorld.thread, hpc] at h
    obtain rfl := Option.some.inj h
    exact hc.advance_quiet hact rfl rfl rfl rfl rfl rfl
      (advances_of_pc hpc rfl rfl rfl (fun h => nomatch h) (fun _ => rfl) (fun h => nomatch h))
      (fun _ h => Or.inl h) (fun _ h => Or.inl h) rfl hok (fun h => nomatch h)
  | created =>
    rw [hpc] at hok
    rw [DpWorld.thread, hpc] at h
    obtain rfl := Option.some.inj h
    have hall : ∀ m, (Function.update s.session n { s.session n with pc := .opened } m).boundSock
        = (s.session m).boundSock ∧ (Function.update s.session n
          { s.session n with pc := .opened } m).uuid = (s.session m).uuid :=
      boundSock_uuid_update s.session n rfl rfl
    refine hc.advance hact rfl rfl rfl rfl
      (advances_of_pc hpc rfl rfl rfl (fun h => nomatch h) (fun _ => rfl) (fun h => nomatch h))
      (hc.isolated.keep (fun m => (hall m).1) (fun m _ => (hall m).2) (fun _ h => Or.inl h)
        (fun _ h => Or.inl h) rfl) (fun m k hm => ?_) hok (fun _ => ?_)
    · exact Nat.lt_succ_of_lt (hc.fresh m k ((hall m).1.symm.trans hm))
    · refine ⟨s.sockets, rfl, Nat.lt_succ_self _, fun m hm => ?_⟩
      exact lt_irrefl _ (hc.fresh m s.sockets ((hall m).1.symm.trans hm))
  | opened =>
    rw [DpWorld.thread, hpc] at h
    obtain rfl := Option.some.inj h
    exact hc.bind hpc
  | bound =>
    rw [hpc] at hok
    rw [DpWorld.thread, hpc] at h
    obtain rfl := Option.some.inj h
    exact hc.advance_quiet hact rfl rfl rfl rfl rfl rfl
      (advances_of_pc hpc rfl rfl rfl (fun h => nomatch h) (fun _ => rfl) (fun h => nomatch h))
      (fun _ h => Or.inl h) (fun _ h => Or.inl h) rfl ⟨hok.1, hok.2, rfl⟩ (fun h => nomatch h)
  | named =>
    rw [hpc] at hok
    rw [DpWorld.thread, hpc] at h
    obtain rfl := Option.some.inj h
    exact hc.advance_quiet hact rfl rfl rfl rfl rfl rfl
      (advances_of_pc hpc rfl rfl rfl (fun h => nomatch h) (fun _ => rfl) (fun h => nomatch h))
      (fun _ h => Or.inl h) (fun _ h => Or.inl h) rfl hok (fun h => nomatch h)
  | polling =>
    rw [hpc] at hok
    rw [DpWorld.thread, hpc] at h
    obtain rfl := Option.some.inj h
    have hrun : ((s.rb.clientGetData init.copyObj n).1.1.elim Pc.checking Pc.sending).running
        = true := by
      cases (s.rb.clientGetData init.copyObj n).1.1 <;> rfl
    obtain ⟨hwind, hsig, hopen, -⟩ := Pc.running_facts hrun
    exact hc.advance_quiet hact rfl rfl rfl rfl rfl rfl
      (advances_of_pc hpc rfl rfl rfl (fun _ => hrun) (fun _ => hwind) (fun _ => hsig))
      (fun _ h => Or.inl h) (fun _ h => Or.inl h) rfl ((sockOk_iff (Or.inl hrun)).mpr hok) hopen
  | sending obj =>
    rw [hpc] at hok
    rw [DpWorld.thread, hpc] at h
    -- the socket passed is the one that was bound
    have hpub : ∀ p ∈ s.published ++ [(n, obj, s.dpDataSock)], p ∈ s.published ∨
        (p.2.2 ≠ none ∧ (s.session p.1).boundSock = p.2.2) := by
      intro p hp
      rcases List.mem_append.mp hp with hp | hp
      · exact Or.inl hp
      · rw [List.mem_singleton.mp hp]
        exact Or.inr ⟨hok.1, hok.2.1⟩
    cases r with
    | ok =>
      obtain rfl := Option.some.inj h
      exact hc.advance_quiet hact rfl rfl rfl rfl rfl rfl
        (advances_of_pc hpc rfl rfl rfl (fun _ => rfl) (fun _ => rfl) (fun _ => rfl))
        hpub (fun _ h => Or.inl h) rfl hok (fun h => nomatch h)
    | again =>
      obtain rfl := Option.some.inj h
      exact hc.advance_quiet hact rfl rfl rfl rfl rfl rfl
        (advances_of_pc hpc rfl rfl rfl (fun _ => rfl) (fun _ => rfl) (fun _ => rfl))
        hpub (fun _ h => Or.inl h) rfl hok (fun h => nomatch h)
    | error =>
      obtain rfl := Option.some.inj h
      exact hc.advance_quiet hact rfl rfl rfl rfl rfl rfl
        (advances_of_pc hpc rfl rfl rfl (fun _ => rfl) (fun _ => rfl) (fun _ => rfl))
        hpub (fun _ h => Or.inl h) rfl hok (fun h => nomatch h)
  | failed obj =>
    rw [DpWorld.thread, hpc] at h
    obtain rfl := Option.some.inj h
    exact hc.needsRestart (by rw [hpc]; rfl) rfl
  | checking =>
    rw [DpWorld.thread, hpc] at h
    obtain rfl := Option.some.inj h
    exact hc.needsRestart (by rw [hpc]; rfl) rfl
  | stopping =>
    rw [hpc] at hok
    rw [DpWorld.thread, hpc] at h
    obtain rfl := Option.some.inj h
    exact hc.advance_quiet hact rfl rfl rfl rfl rfl rfl
      (advances_of_pc hpc rfl rfl rfl (fun h => nomatch h) (fun h => nomatch h) (fun _ => rfl))
      (fun _ h => Or.inl h) (fun _ h => Or.inl h) rfl hok (fun h => nomatch h)
  | closing =>
    rw [hpc] at hok
    rw [DpWorld.thread, hpc] at h
    obtain rfl := Option.some.inj h
    refine hc.advance_quiet hact rfl rfl rfl rfl rfl rfl
      (advances_of_pc hpc rfl rfl rfl (fun h => nomatch h) (fun h => nomatch h) (fun _ => rfl))
      (fun _ h => Or.inl h) (fun p hp => ?_) rfl trivial (fun h => nomatch h)
    rcases List.mem_append.mp hp with hp | hp
    · exact Or.inl hp
    · rw [List.mem_singleton.mp hp]
      exact Or.inr ⟨hok.1, hok.2.1⟩
  | done => exact absurd hpc hact

omit [DecidableEq Addr] [DecidableEq Uuid] [DecidableEq Topic] in
/-- A step of the control thread or of a publisher that no session notices. -/
theorem Calm.unnoticed (hc : Calm s cur) (hsession : t.session = s.session)
    (hsessions : t.sessions = s.sessions) (hsock : t.dpDataSock = s.dpDataSock)
    (hsockets : t.sockets = s.sockets) (hp : t.published = s.published)
    (hd : t.destroyed = s.destroyed) (ha : t.accepted = s.accepted) (hctrl : CtrlOk t cur) :
    Calm t cur := by
  refine ⟨hc.isolated.keep (fun _ => by rw [hsession]) (fun _ _ => by rw [hsession])
    (fun _ h => Or.inl (hp ▸ h)) (fun _ h => Or.inl (hd ▸ h)) ha, ?_, ?_, ?_, ?_, ?_, hctrl⟩
  · rw [hsession, hsockets]
    exact hc.fresh
  · rw [hsession, hsessions]
    exact hc.unborn
  · rw [hsession]
    exact hc.ended
  · rw [hsession, hsock]
    exact hc.sock
  · rw [hsession, hsock, hsockets]
    exact hc.unbound

omit [DecidableEq Addr] [DecidableEq Uuid] [DecidableEq Topic] in
theorem Serves.congr {u : Uuid} (h : Serves s u n) (htable : t.table = s.table)
    (hsession : t.session = s.session) : Serves t u n := by
  refine ⟨?_, ?_, ?_⟩
  · rw [htable]
    exact h.table
  · rw [hsession]
    exact h.uuid
  · rw [hsession]
    exact h.term

omit [DecidableEq Addr] [DecidableEq Uuid] [DecidableEq Topic] in
theorem CtrlOk.congr (h : CtrlOk s cur) (hctrl : t.ctrl = s.ctrl) (htable : t.table = s.table)
    (hsession : t.session = s.session) : CtrlOk t cur := by
  have hserves : ∀ u n, Serves t u n ↔ Serves s u n :=
    fun u n => ⟨fun h => h.congr htable.symm hsession.symm, fun h => h.congr htable hsession⟩
  unfold CtrlOk at h ⊢
  rw [hctrl]
  simp only [hserves, hsession, htable]
  exact h

omit [DecidableEq Addr] [DecidableEq Topic] in
/-- A new session, when all others have ended. -/
theorem Calm.startNewDpDataThread (hc : Calm s cur) (htable : ∀ v, s.table v = none)
    (hdone : ∀ m, (s.session m).pc = .done) (u : Uuid) :
    Calm (s.startNewDpDataThread u) (some s.sessions) := by
  have hself : (s.startNewDpDataThread u).session s.sessions = { uuid := some u, pc := .start } :=
    Function.update_self _ _ _
  have hother : ∀ m, m ≠ s.sessions → (s.startNewDpDataThread u).session m = s.session m :=
    fun m hne => Function.update_of_ne hne _ _
  -- the number of the session was not in use
  have hnew : (s.session s.sessions).boundSock = none := by
    rw [hc.unborn s.sessions le_rfl]
  have hbound : ∀ m, ((s.startNewDpDataThread u).session m).boundSock
      = (s.session m).boundSock := by
    intro m
    by_cases he : m = s.sessions
    · rw [he, hself, hnew]
    · rw [hother m he]
  refine ⟨hc.isolated.keep hbound (fun m hm => ?_) (fun _ h => Or.inl h) (fun _ h => Or.inl h) rfl,
    fun m k => ?_, fun m hm => ?_, fun m hm => ?_, fun m hm => ?_, fun m hm hpc => ?_,
    rfl, ⟨fun v m => ?_, ?_, ?_⟩, ?_⟩
  · rw [hother m (fun he => hm (by rw [he, hnew]))]
  · rw [hbound]
    exact hc.fresh m k
  · rw [hother m (Nat.ne_of_gt hm)]
    exact hc.unborn m (Nat.le_of_succ_le hm)
  · rw [hother m (fun he => hm (by rw [he]))]
    exact hdone m
  · rw [← Option.some.inj hm, hself]
    rfl
  · rw [← Option.some.inj hm, hself] at hpc
    exact nomatch hpc
  · show Function.update s.table u (some s.sessions) v = some m ↔ _
    by_cases hv : v = u
    · rw [hv, Function.update_self]
      simp [eq_comm]
    · rw [Function.update_of_ne hv, htable]
      simp [hv]
  · rw [hself]
  · rw [hself]
  · rw [hself]
    rfl

omit [DecidableEq Addr] [DecidableEq Topic] in
/-- The open session is told to stop. -/
theorem Calm.closeDpSession (hc : Calm s (some n)) {u : Uuid} (hs : Serves s u n)
    (hrun : (s.session n).pc.running = true) (next : Option Uuid) :
    Calm (s.closeDpSession u n next) (some n) := by
  have hself : (s.closeDpSession u n next).session n = { s.session n with term := true } :=
    Function.update_self _ _ _
  have hall : ∀ m, ((s.closeDpSession u n next).session m).boundSock = (s.session m).boundSock ∧
      ((s.closeDpSession u n next).session m).uuid = (s.session m).uuid :=
    boundSock_uuid_update s.session n rfl rfl
  have hother : ∀ m, m ≠ n → (s.closeDpSession u n next).session m = s.session m :=
    fun m hne => Function.update_of_ne hne _ _
  obtain ⟨-, hsig, hopen, hact⟩ := Pc.running_facts hrun
  refine ⟨hc.isolated.keep (fun m => (hall m).1) (fun m _ => (hall m).2) (fun _ h => Or.inl h)
    (fun _ h => Or.inl h) rfl, fun m k => ?_, fun m hm => ?_, fun m hm => ?_, fun m hm => ?_,
    fun m hm hpc => ?_, rfl, fun v => ?_, ?_⟩
  · rw [(hall m).1]
    exact hc.fresh m k
  · have hne : m ≠ n := by
      intro he
      rw [he] at hm
      exact hact (by rw [hc.unborn n hm])
    rw [hother m hne]
    exact hc.unborn m hm
  · rw [hother m (fun he => hm (by rw [he]))]
    exact hc.ended m hm
  · rw [← Option.some.inj hm, hself]
    exact hc.sock n rfl
  · rw [← Option.some.inj hm, hself] at hpc
    exact absurd hpc hopen
  · show Function.update s.table u none v = none
    by_cases hv : v = u
    · rw [hv, Function.update_self]
    · rw [Function.update_of_ne hv, Option.eq_none_iff_forall_not_mem]
      exact fun m hm => hv ((hs.table v m).mp hm).1
  · rw [hself]
    exact hsig

/-- **Every step keeps the calm**, but for a foreign `CONNECT`. -/
theorem calm_step (hc : Calm s cur) {x : DpStep Addr Uuid Data} (hx : ¬ s.Foreign x)
    (h : s.step init x = some t) : ∃ cur', Calm t cur' := by
  have hctrl := hc.ctrl
  unfold CtrlOk at hctrl
  cases x with
  | connect u =>
    obtain ⟨hidle, rfl⟩ := dpStep_connect.mp h
    rw [hidle] at hctrl
    unfold DpWorld.processConnectMessage
    rcases hctrl with ⟨rfl, hnone⟩ | ⟨v, n, rfl, hs, hrun⟩
    · rw [hnone u]
      exact ⟨_, hc.startNewDpDataThread hnone (fun m => hc.ended m (fun h => nomatch h)) u⟩
    · -- the open session is one for the same uuid
      have hv : v = u := by
        by_contra hne
        refine hx ⟨v, hne, ?_⟩
        rw [(hs.table v n).mpr ⟨rfl, rfl⟩]
        exact Option.some_ne_none n
      rw [← hv, (hs.table v n).mpr ⟨rfl, rfl⟩]
      exact ⟨_, hc.closeDpSession hs hrun (some v)⟩
  | stopped =>
    obtain ⟨next, n, hclosing, hdone, rfl⟩ := dpStep_stopped.mp h
    rw [hclosing] at hctrl
    obtain ⟨rfl, hnone, -⟩ := hctrl
    have hall : ∀ m, (s.session m).pc = .done := by
      intro m
      by_cases he : some n = some m
      · rw [← Option.some.inj he]
        exact hdone
      · exact hc.ended m he
    cases next with
    | some u => exact ⟨_, hc.startNewDpDataThread hnone hall u⟩
    | none =>
      exact ⟨none, hc.isolated.keep (fun _ => rfl) (fun _ _ => rfl) (fun _ h => Or.inl h)
        (fun _ h => Or.inl h) rfl, hc.fresh, hc.unborn, fun m _ => hall m, fun _ h => (nomatch h),
        fun _ h => (nomatch h), Or.inl ⟨rfl, hnone⟩⟩
  | accept =>
    obtain ⟨u, n, hstarting, hsig, rfl⟩ := dpStep_accept.mp h
    rw [hstarting] at hctrl
    obtain ⟨rfl, hs, hwind⟩ := hctrl
    -- the thread has signalled and nobody has told it to stop
    have hrun : (s.session n).pc.running = true := by
      rw [Pc.running_eq, hsig, hwind]
      rfl
    have hok := (sockOk_iff (Or.inl hrun)).mp (hc.sock n rfl)
    refine ⟨some n, ⟨hc.isolated.published, hc.isolated.destroyed, fun p hp => ?_,
      hc.isolated.own⟩, hc.fresh, hc.unborn, hc.ended, hc.sock, hc.unbound,
      Or.inr ⟨u, n, rfl, hs.congr rfl rfl, hrun⟩⟩
    rcases List.mem_append.mp hp with hp | hp
    · exact hc.isolated.accepted p hp
    · rw [List.mem_singleton.mp hp]
      show (s.session n).ep ≠ none ∧ (s.session n).boundSock = (s.session n).ep ∧ _
      rw [hok.2.2]
      exact ⟨hok.1, hok.2.1, hs.uuid⟩
  | shutdown =>
    obtain ⟨hidle, rfl⟩ := dpStep_shutdown.mp h
    rw [hidle] at hctrl
    refine ⟨cur, hc.unnoticed rfl rfl rfl rfl rfl rfl rfl ?_⟩
    rcases hctrl with hnone | ⟨u, n, hn, hs, hrun⟩
    · exact Or.inl hnone
    · exact Or.inr ⟨u, n, hn, hs.congr rfl rfl, hrun⟩
  | closeSession u =>
    obtain ⟨hdown, n, hn, rfl⟩ := dpStep_closeSession.mp h
    rw [hdown] at hctrl
    rcases hctrl with ⟨-, hnone⟩ | ⟨v, m, rfl, hs, hrun⟩
    · rw [hnone u] at hn
      exact nomatch hn
    · obtain ⟨rfl, rfl⟩ := (hs.table u n).mp hn
      exact ⟨_, hc.closeDpSession hs hrun none⟩
  | thread n r => exact ⟨cur, calm_thread hc h⟩
  | publish a obj pri =>
    obtain ⟨-, rfl⟩ := dpStep_publish.mp h
    exact ⟨cur, hc.unnoticed rfl rfl rfl rfl rfl rfl rfl (hc.ctrl.congr rfl rfl rfl)⟩

end Threads

/-! ## Runs -/

section Runs

variable {init : ObjectBrokerInit Topic Data} {s : DpWorld Addr Uuid Topic Data}

omit [DecidableEq Addr] [DecidableEq Uuid] [DecidableEq Topic] in
theorem calm_start : Calm (DpWorld.start : DpWorld Addr Uuid Topic Data) none where
  isolated := ⟨fun _ h => absurd h List.not_mem_nil, fun _ h => absurd h List.not_mem_nil,
    fun _ h => absurd h List.not_mem_nil, fun _ _ _ h => (nomatch h)⟩
  fresh := fun _ _ h => (nomatch h)
  unborn := fun _ _ => rfl
  ended := fun _ _ => rfl
  sock := fun _ h => (nomatch h)
  unbound := fun _ h => (nomatch h)
  ctrl := Or.inl ⟨rfl, fun _ => rfl⟩

/-- **Session isolation, one dataplane at a time.**  Take any sequence of `CONNECT`s and
any interleaving of the steps of the threads in which no `CONNECT` is handled for a uuid
while a session for another uuid is open.  Whatever a session passes to `client_publish`
goes with the socket that its own `broker_dp_data_init` has bound, whose endpoint is the
one sent to the uuid of the session in its `ACCEPT`; and what it destroys in the end is
this socket, which is that of no other session. -/
theorem sessions_isolated {xs : List (DpStep Addr Uuid Data)}
    (hexec : (dpSystem Addr Uuid init).exec .start xs = some s)
    (hone : (dpSystem Addr Uuid init).Guarded (fun s x => ¬ s.Foreign x) .start xs) :
    Isolated s := by
  have hcalm : ∃ cur, Calm s cur :=
    System.exec_guarded_induction (P := fun s => ∃ cur, Calm s cur)
      (fun _ _ _ ⟨_, hc⟩ hx hstep => calm_step hc hx hstep) hexec hone ⟨none, calm_start⟩
  obtain ⟨cur, hc⟩ := hcalm
  exact hc.isolated

/-- Only the uuid `u` has been served. -/
structure OnlyUuid (u : Uuid) (s : DpWorld Addr Uuid Topic Data) : Prop where
  table : ∀ v, v ≠ u → s.table v = none
  next : ∀ v n, s.ctrl = .closing (some v) n → v = u

omit [DecidableEq Uuid] in
/-- A data thread touches nothing of the control thread. -/
theorem thread_ctrl {t : DpWorld Addr Uuid Topic Data} {n : ℕ} {r : SendResult}
    (h : s.thread init n r = some t) : t.table = s.table ∧ t.ctrl = s.ctrl := by
  have hrestart : ∀ pc, (s.needsRestart n pc).table = s.table ∧
      (s.needsRestart n pc).ctrl = s.ctrl := by
    intro pc
    unfold DpWorld.needsRestart
    split_ifs <;> exact ⟨rfl, rfl⟩
  cases hpc : (s.session n).pc with
  | failed obj =>
    rw [DpWorld.thread, hpc] at h
    exact Option.some.inj h ▸ hrestart _
  | checking =>
    rw [DpWorld.thread, hpc] at h
    exact Option.some.inj h ▸ hrestart _
  | sending obj =>
    rw [DpWorld.thread, hpc] at h
    cases r <;> exact Option.some.inj h ▸ ⟨rfl, rfl⟩
  | done =>
    rw [DpWorld.thread, hpc] at h
    exact nomatch h
  | _ =>
    rw [DpWorld.thread, hpc] at h
    exact Option.some.inj h ▸ ⟨rfl, rfl⟩

theorem OnlyUuid.step {u : Uuid} {t : DpWorld Addr Uuid Topic Data} {x : DpStep Addr Uuid Data}
    (h : OnlyUuid u s) (hx : ∀ v, x = .connect v → v = u) (hstep : s.step init x = some t) :
    OnlyUuid u t := by
  -- the two ways in which the table changes
  have hnew : OnlyUuid u (s.startNewDpDataThread u) := by
    refine ⟨fun v hv => ?_, fun v n hn => (nomatch hn)⟩
    show Function.update s.table u _ v = none
    rw [Function.update_of_ne hv]
    exact h.table v hv
  have hclose : ∀ v n next, (∀ v', next = some v' → v' = u) →
      OnlyUuid u (s.closeDpSession v n next) := by
    intro v n next hnext
    refine ⟨fun v' hv' => ?_, fun v' n' hn' => hnext v' (Ctrl.closing.inj hn').1⟩
    show Function.update s.table v none v' = none
    by_cases he : v' = v
    · rw [he, Function.update_self]
    · rw [Function.update_of_ne he]
      exact h.table v' hv'
  cases x with
  | connect v =>
    obtain ⟨-, rfl⟩ := dpStep_connect.mp hstep
    obtain rfl := hx v rfl
    unfold DpWorld.processConnectMessage
    cases s.table v with
    | none => exact hnew
    | some n => exact hclose v n (some v) (fun v' hv' => (Option.some.inj hv').symm)
  | stopped =>
    obtain ⟨next, n, hclosing, -, rfl⟩ := dpStep_stopped.mp hstep
    cases next with
    | none => exact ⟨h.table, fun v m hm => (nomatch hm)⟩
    | some v =>
      obtain rfl := h.next v n hclosing
      exact hnew
  | accept =>
    obtain ⟨v, n, -, -, rfl⟩ := dpStep_accept.mp hstep
    exact ⟨h.table, fun v m hm => (nomatch hm)⟩
  | shutdown =>
    obtain ⟨-, rfl⟩ := dpStep_shutdown.mp hstep
    exact ⟨h.table, fun v m hm => (nomatch hm)⟩
  | closeSession v =>
    obtain ⟨-, n, -, rfl⟩ := dpStep_closeSession.mp hstep
    exact hclose v n none (fun v' hv' => (nomatch hv'))
  | thread n r =>
    obtain ⟨ht, hc⟩ := thread_ctrl hstep
    refine ⟨?_, ?_⟩
    · rw [ht]
      exact h.table
    · rw [hc]
      exact h.next
  | publish a obj pri =>
    obtain ⟨-, rfl⟩ := dpStep_publish.mp hstep
    exact ⟨h.table, h.next⟩

/-- The condition holds in particular if there is only one dataplane. -/
theorem guarded_of_one_uuid {xs : List (DpStep Addr Uuid Data)} (u : Uuid)
    (h : ∀ v, .connect v ∈ xs → v = u) :
    (dpSystem Addr Uuid init).Guarded (fun s x => ¬ s.Foreign x) .start xs := by
  refine System.guarded_of_mem (P := OnlyUuid u) (fun x hx s t hs hstep => ?_)
    (fun x hx s hs hforeign => ?_) ⟨fun _ _ => rfl, fun _ _ h => (nomatch h)⟩
  · exact hs.step (fun v hv => h v (hv ▸ hx)) hstep
  · cases x with
    | connect v =>
      obtain ⟨w, hne, hw⟩ := hforeign
      exact hw (hs.table w (fun he => hne (he.trans (h v hx).symm)))
    | _ => exact hforeign

end Runs

/-- Session `n` starts up and is accepted; then `xs`. -/
def setUp (n : ℕ) (xs : List (DpStep ℕ ℕ (ℕ × ℕ × Bool))) : List (DpStep ℕ ℕ (ℕ × ℕ × Bool)) :=
  .thread n .ok :: .thread n .ok :: .thread n .ok :: .thread n .ok :: .thread n .ok :: .accept :: xs

/-- A dataplane connects, is sent an object, and connects again. -/
def reconnectSteps : List (DpStep ℕ ℕ (ℕ × ℕ × Bool)) :=
  .connect 1 :: setUp 0 (.publish 100 (7, 1, false) 0 :: .thread 0 .ok :: .thread 0 .again ::
    .connect 1 :: .thread 0 .ok :: .thread 0 .ok :: .thread 0 .ok :: .stopped ::
    setUp 1 [.thread 1 .ok, .thread 1 .ok])

/-- The theorem at a run with a reconnect. -/
theorem sessions_isolated_reconnect :
    ∃ s, (dpSystem ℕ ℕ (succeeding plainGen id)).exec .start reconnectSteps = some s ∧
      s.published = [(0, (7, 1, false), some 0), (1, (7, 1, false), some 1)] ∧
      s.destroyed = [(0, some 0)] ∧ s.accepted = [(1, 0, some 0), (1, 1, some 1)] ∧
      Isolated s := by
  obtain ⟨s, hexec, hp⟩ := (dpSystem ℕ ℕ (succeeding plainGen id)).exists_of_exec_any .start
    reconnectSteps (fun s => decide (
      s.published = [(0, (7, 1, false), some 0), (1, (7, 1, false), some 1)] ∧
      s.destroyed = [(0, some 0)] ∧ s.accepted = [(1, 0, some 0), (1, 1, some 1)]))
    (by decide +kernel)
  rw [decide_eq_true_eq] at hp
  obtain ⟨h1, h2, h3⟩ := hp
  refine ⟨s, hexec, h1, h2, h3, sessions_isolated hexec (guarded_of_one_uuid 1 (fun v hv => ?_))⟩
  simpa [reconnectSteps, setUp] using hv

/-- Two dataplanes connect, and the first session is sent an object. -/
def twoDataplanesSteps : List (DpStep ℕ ℕ (ℕ × ℕ × Bool)) :=
  .connect 1 :: setUp 0 (.connect 2 ::
    setUp 1 [.publish 100 (7, 1, false) 0, .thread 0 .ok, .thread 0 .ok])

/-- The second session overwrites `dp_data_sock`, and what the client of the first one
consumes goes to the second dataplane. -/
theorem crossed_sockets :
    ∃ s, (dpSystem ℕ ℕ (succeeding plainGen id)).exec .start twoDataplanesSteps = some s ∧
      s.accepted = [(1, 0, some 0), (2, 1, some 1)] ∧
      (s.session 0).boundSock = some 0 ∧ s.published = [(0, (7, 1, false), some 1)] ∧
      ¬ Isolated s := by
  obtain ⟨s, hexec, hp⟩ := (dpSystem ℕ ℕ (succeeding plainGen id)).exists_of_exec_any .start
    twoDataplanesSteps (fun s => decide (s.accepted = [(1, 0, some 0), (2, 1, some 1)] ∧
      (s.session 0).boundSock = some 0 ∧ s.published = [(0, (7, 1, false), some 1)]))
    (by decide +kernel)
  rw [decide_eq_true_eq] at hp
  obtain ⟨hacc, hbound, hpub⟩ := hp
  refine ⟨s, hexec, hacc, hbound, hpub, fun hiso => ?_⟩
  have hmem : (0, (7, 1, false), some 1) ∈ s.published := by
    rw [hpub]
    exact List.mem_singleton.mpr rfl
  have hown := (hiso.published _ hmem).2
  rw [hbound] at hown
  exact nomatch hown
