/-
# The control socket

The messages of the dataplanes on the router socket of `route_broker_dp_ctrl.c`, and what
the control thread makes of them: `process_ctrl_message` with all that it calls, one message
after the other, and `close_all_dp_sessions`.  The allocations, the start of a data thread
and the sends succeed.

* A `zmsg_t` is the list of its frames, a frame is a list of bytes.  `zmsg_popstr` makes a C
  string of a frame.
* `dp_uuid_ht` is an association list; the order in which `zhash_first` goes through it is
  left open.
* A data thread goes by its number, in the order in which they are started.  `zactor_new`
  returns when the thread has signalled and `zactor_destroy` when it has ended; which string
  a thread sends as its endpoint is a parameter.

`received`, and the number of the message for which a thread was started, only record what
happened.

Main result: `control_sessions`.
-/
import Mathlib.Data.List.AList
import RouteBroker.CString

/-! ## Messages -/

/-- `zframe_t` -/
abbrev Frame := List UInt8

/-- What `zmsg_recv` returns on a router socket: the frame that identifies the sender, and
the frames that were sent, at least one. -/
structure RouterMsg where
  envelope : Frame
  first : Frame
  rest : List Frame
  deriving DecidableEq

/-- `zmsg_unwrap`: an empty frame behind the envelope is dropped, too. -/
def zmsgUnwrap (msg : RouterMsg) : Frame × List Frame :=
  (msg.envelope, if msg.first = [] then msg.rest else msg.first :: msg.rest)

/-- `zmsg_popstr` -/
def zmsgPopstr : List Frame → Option (List UInt8) × List Frame
  | [] => (none, [])
  | frame :: msg => (some (cstr frame), msg)

/-- `zmsg_popu32`; none for an error. -/
def zmsgPopu32 (o : ByteOrder) : List Frame → Option ℕ × List Frame
  | [] => (none, [])
  | [w, x, y, z] :: msg => (some (o.u32 w x y z), msg)
  | _ :: msg => (none, msg)

/-- `zmsg_addu32` -/
def zmsgAddu32 (o : ByteOrder) (msg : List Frame) (u : UInt32) : List Frame :=
  msg ++ [o.bytes32 u]

/-- `enum rib_broker_dp_request` -/
inductive RibBrokerDpRequest
  | error
  | connect
  | keepalive
  deriving DecidableEq

/-- `"CONNECT"` -/
def connectStr : List UInt8 := ascii ['C', 'O', 'N', 'N', 'E', 'C', 'T']

/-- `"KEEPALIVE"` -/
def keepaliveStr : List UInt8 := ascii ['K', 'E', 'E', 'P', 'A', 'L', 'I', 'V', 'E']

/-- `"ACCEPT"` -/
def acceptStr : List UInt8 := ascii ['A', 'C', 'C', 'E', 'P', 'T']

/-- `"RECONNECT"` -/
def reconnectStr : List UInt8 := ascii ['R', 'E', 'C', 'O', 'N', 'N', 'E', 'C', 'T']

/-- `broker_dp_ctrl_msg_request` -/
def brokerDpCtrlMsgRequest : Option (List UInt8) → RibBrokerDpRequest
  | none => .error
  | some msgType =>
    if msgType = connectStr then .connect
    else if msgType = keepaliveStr then .keepalive
    else .error

/-- `broker_dp_ctrl_msg_parse`: the request and what is stored to `*uuid`. -/
def brokerDpCtrlMsgParse (o : ByteOrder) (msg : List Frame) :
    RibBrokerDpRequest × Option (List UInt8) :=
  let (msgType, msg) := zmsgPopstr msg
  let req := brokerDpCtrlMsgRequest msgType
  if req = .error then (.error, none)
  else
    let (protoVersion, msg) := zmsgPopu32 o msg
    if protoVersion ≠ some 0 then (.error, none)
    else
      let (uuid, _) := zmsgPopstr msg
      if uuid.isNone then (.error, none) else (req, uuid)

/-- `broker_dp_ctrl_msg_prepare` -/
def brokerDpCtrlMsgPrepare (reply uuid : List UInt8) (envelope : Frame) : List Frame :=
  envelope :: [reply, uuid]

/-! ## Sessions -/

/-- `struct dp`, once it is filled in and the `ACCEPT`, which takes the envelope, is sent. -/
structure Dp where
  uuid : List UInt8
  /-- the data thread at the other end of the pipe -/
  ipc : ℕ
  dataUrl : List UInt8

/-- A running data thread. -/
structure RunningThread where
  num : ℕ
  /-- the number of the message for which it was started -/
  message : ℕ
  deriving DecidableEq

/-- The control thread and the data threads. -/
structure DpCtrl where
  dpUuidHt : AList fun _ : List UInt8 => Dp
  /-- the data threads that run -/
  threads : List RunningThread
  /-- how many data threads were started -/
  started : ℕ
  /-- how many messages were received -/
  received : ℕ
  /-- the messages sent, the first one first -/
  sent : List (List Frame)

/-- What the control thread is set up with. -/
structure DpCtrlSetup where
  order : ByteOrder
  /-- `args->data_format` -/
  dataFormat : UInt32
  /-- the endpoint that each data thread sends -/
  endpoint : ℕ → List UInt8

/-- An order in which `zhash_first` and `zhash_next` go through a table. -/
structure ZhashOrder where
  first : (AList fun _ : List UInt8 => Dp) → Option Dp
  first_eq_none : ∀ ht, first ht = none → ht = ∅
  first_mem : ∀ ht dp, first ht = some dp → ∃ uuid, ht.lookup uuid = some dp

/-- The order in which the entries are listed is one. -/
def ZhashOrder.listed : ZhashOrder where
  first ht := ht.entries.head?.map Sigma.snd
  first_eq_none := by
    intro ht hnone
    rw [Option.map_eq_none_iff, List.head?_eq_none_iff] at hnone
    exact AList.ext hnone
  first_mem := by
    intro ht dp hsome
    obtain ⟨⟨uuid, dp'⟩, hhead, rfl⟩ := Option.map_eq_some_iff.mp hsome
    exact ⟨uuid, AList.mem_lookup_iff.mpr (List.mem_of_head? hhead)⟩

/-- Before the first message. -/
def DpCtrl.start : DpCtrl where
  dpUuidHt := ∅
  threads := []
  started := 0
  received := 0
  sent := []

namespace DpCtrl

variable (s : DpCtrl) (setup : DpCtrlSetup)

/-- `dp_findbyuuid` -/
def dpFindbyuuid (uuid : List UInt8) : Option Dp := s.dpUuidHt.lookup uuid

/-- `dp_insert`: an entry that is there stays. -/
def dpInsert (dp : Dp) : DpCtrl :=
  if dp.uuid ∈ s.dpUuidHt then s else { s with dpUuidHt := s.dpUuidHt.insert dp.uuid dp }

/-- `stop_old_dp_thread` -/
def stopOldDpThread (dp : Dp) : DpCtrl :=
  { s with threads := s.threads.filter fun t => t.num ≠ dp.ipc }

/-- `close_dp_session` -/
def closeDpSession (dp : Dp) : DpCtrl :=
  { s with dpUuidHt := s.dpUuidHt.erase dp.uuid }.stopOldDpThread dp

/-- The loop of `close_all_dp_sessions`; none when there are rounds to go. -/
def closeAllDpSessions (order : ZhashOrder) : ℕ → DpCtrl → Option DpCtrl
  | 0, _ => none
  | fuel + 1, s =>
    match order.first s.dpUuidHt with
    | some dp => closeAllDpSessions order fuel (s.closeDpSession dp)
    | none => some s

/-- `start_new_dp_data_thread`: the number and the endpoint of the new thread. -/
def startNewDpDataThread : (ℕ × List UInt8) × DpCtrl :=
  ((s.started, setup.endpoint s.started),
    { s with
      threads := s.threads ++ [{ num := s.started, message := s.received }]
      started := s.started + 1 })

/-- `zmsg_send` -/
def zmsgSend (msg : List Frame) : DpCtrl := { s with sent := s.sent ++ [msg] }

/-- `broker_dp_ctrl_msg_accept` -/
def brokerDpCtrlMsgAccept (uuid : List UInt8) (envelope : Frame) (url : List UInt8) : DpCtrl :=
  let replyMsg := brokerDpCtrlMsgPrepare acceptStr uuid envelope
  let replyMsg := replyMsg ++ [url]
  let replyMsg := zmsgAddu32 setup.order replyMsg setup.dataFormat
  s.zmsgSend replyMsg

/-- `broker_dp_ctrl_msg_reconnect` -/
def brokerDpCtrlMsgReconnect (uuid : List UInt8) (envelope : Frame) : DpCtrl :=
  s.zmsgSend (brokerDpCtrlMsgPrepare reconnectStr uuid envelope)

/-- `process_connect_message`.  The entry is inserted before the thread is started and
filled in afterwards, here it is inserted when it is complete. -/
def processConnectMessage (envelope : Frame) (uuid : List UInt8) : DpCtrl :=
  let s := match s.dpFindbyuuid uuid with
    | some dp => s.closeDpSession dp
    | none => s
  let ((ipc, url), s) := s.startNewDpDataThread setup
  let s := s.dpInsert { uuid := uuid, ipc := ipc, dataUrl := url }
  s.brokerDpCtrlMsgAccept setup uuid envelope url

/-- `process_keepalive_message` -/
def processKeepaliveMessage (envelope : Frame) (uuid : List UInt8) : DpCtrl :=
  match s.dpFindbyuuid uuid with
  -- DP is known, no need to reply
  | some _ => s
  | none => s.brokerDpCtrlMsgReconnect uuid envelope

/-- `process_ctrl_message` -/
def processCtrlMessage (msg : RouterMsg) : DpCtrl :=
  let (envelope, body) := zmsgUnwrap msg
  let s' := match brokerDpCtrlMsgParse setup.order body with
    | (.connect, some uuid) => s.processConnectMessage setup envelope uuid
    | (.keepalive, some uuid) => s.processKeepaliveMessage envelope uuid
    | _ => s
  { s' with received := s.received + 1 }

/-- All messages, one after the other. -/
def run (msgs : List RouterMsg) : DpCtrl :=
  msgs.foldl (fun s msg => s.processCtrlMessage setup msg) .start

end DpCtrl

/-! ## Well-formed messages -/

/-- The message carries a request, behind an empty delimiter frame or not: frames that spell
its type, the protocol version 0 and a uuid, and perhaps more. -/
def RouterMsg.Requests (msg : RouterMsg) (type uuid : List UInt8) : Prop :=
  ∃ t u extra, Spells t type ∧ Spells u uuid ∧
    (msg.first :: msg.rest = t :: [0, 0, 0, 0] :: u :: extra ∨
      msg.first = [] ∧ msg.rest = t :: [0, 0, 0, 0] :: u :: extra)

/-- The message is a well-formed `CONNECT` of the uuid. -/
def RouterMsg.Connects (msg : RouterMsg) (uuid : List UInt8) : Prop :=
  msg.Requests connectStr uuid

/-- The message is a well-formed `KEEPALIVE` of the uuid. -/
def RouterMsg.KeepsAlive (msg : RouterMsg) (uuid : List UInt8) : Prop :=
  msg.Requests keepaliveStr uuid

/-- What `broker_dp_ctrl_msg_parse` finds a request in: `body` is what `zmsg_unwrap` left. -/
def IsRequest (body : List Frame) (type uuid : List UInt8) : Prop :=
  ∃ t u extra, body = t :: [0, 0, 0, 0] :: u :: extra ∧ cstr t = type ∧ cstr u = uuid

section Parse

variable {o : ByteOrder} {body : List Frame} {type type' u v : List UInt8}

theorem IsRequest.unique (h : IsRequest body type u) (h' : IsRequest body type' v) :
    type = type' ∧ u = v := by
  obtain ⟨t, w, extra, rfl, rfl, rfl⟩ := h
  obtain ⟨t', w', extra', heq, rfl, rfl⟩ := h'
  obtain ⟨rfl, htail⟩ := List.cons.inj heq
  obtain ⟨rfl, -⟩ := List.cons.inj (List.cons.inj htail).2
  exact ⟨rfl, rfl⟩

/-- **`zmsg_unwrap` finds the request** that a message carries: a type is not empty, so that
an empty frame in front is a delimiter. -/
theorem requests_iff {msg : RouterMsg} (htype : type ≠ []) :
    msg.Requests type u ↔ IsRequest (zmsgUnwrap msg).2 type u := by
  obtain ⟨envelope, first, rest⟩ := msg
  unfold zmsgUnwrap RouterMsg.Requests IsRequest
  dsimp only
  constructor
  · rintro ⟨t, w, extra, ht, hw, hbody⟩
    refine ⟨t, w, extra, ?_, cstr_eq_iff.mpr ht, cstr_eq_iff.mpr hw⟩
    rcases hbody with hbody | ⟨hempty, hbody⟩
    · rw [if_neg]
      · exact hbody
      · rintro rfl
        apply htype
        rw [← cstr_eq_iff.mpr ht, ← (List.cons.inj hbody).1]
        rfl
    · rw [if_pos hempty]
      exact hbody
  · rintro ⟨t, w, extra, hbody, ht, hw⟩
    refine ⟨t, w, extra, cstr_eq_iff.mp ht, cstr_eq_iff.mp hw, ?_⟩
    split_ifs at hbody with hempty
    · exact Or.inr ⟨hempty, hbody⟩
    · exact Or.inl hbody

theorem connects_iff {msg : RouterMsg} :
    msg.Connects u ↔ IsRequest (zmsgUnwrap msg).2 connectStr u := requests_iff (by decide)

theorem keepsAlive_iff {msg : RouterMsg} :
    msg.KeepsAlive u ↔ IsRequest (zmsgUnwrap msg).2 keepaliveStr u := requests_iff (by decide)

/-- A message speaks of one uuid. -/
theorem RouterMsg.Connects.unique {msg : RouterMsg} (h : msg.Connects u) (h' : msg.Connects v) :
    u = v :=
  ((connects_iff.mp h).unique (connects_iff.mp h')).2

/-- The version frame has four bytes, all of them zero. -/
theorem zmsgPopu32_eq_zero_iff {frame : Frame} {msg : List Frame} :
    (zmsgPopu32 o (frame :: msg)).1 = some 0 ↔ frame = [0, 0, 0, 0] := by
  unfold zmsgPopu32
  split
  · next h => exact nomatch h
  · next w x y z rest h =>
    obtain ⟨rfl, rfl⟩ := List.cons.inj h
    simp [ByteOrder.u32_eq_zero_iff]
  · next frame' rest hne h =>
    obtain ⟨rfl, rfl⟩ := List.cons.inj h
    refine iff_of_false (fun h => nomatch h) ?_
    rintro rfl
    exact hne 0 0 0 0 rfl

theorem zmsgPopu32_snd {frame : Frame} {msg : List Frame} :
    (zmsgPopu32 o (frame :: msg)).2 = msg := by
  unfold zmsgPopu32
  split
  · next h => exact nomatch h
  · next h => exact (List.cons.inj h).2.symm
  · next h => exact (List.cons.inj h).2.symm

/-- A number that was added to a message is read back from it. -/
theorem zmsgPopu32_addu32 (o : ByteOrder) (v : UInt32) :
    zmsgPopu32 o (zmsgAddu32 o [] v) = (some v.toNat, []) := by
  obtain ⟨w, x, y, z, hbytes, hval⟩ := o.u32_bytes32 v
  rw [zmsgAddu32, List.nil_append, hbytes, zmsgPopu32, hval]

theorem parse_cons (o : ByteOrder) (t : Frame) (body : List Frame) :
    brokerDpCtrlMsgParse o (t :: body) =
      if brokerDpCtrlMsgRequest (some (cstr t)) = .error then (.error, none)
      else if (zmsgPopu32 o body).1 ≠ some 0 then (.error, none)
      else if (zmsgPopstr (zmsgPopu32 o body).2).1.isNone then (.error, none)
      else (brokerDpCtrlMsgRequest (some (cstr t)), (zmsgPopstr (zmsgPopu32 o body).2).1) := rfl

/-- A request is understood if its type is known. -/
theorem parse_of_isRequest (h : IsRequest body type u)
    (hreq : brokerDpCtrlMsgRequest (some type) ≠ .error) :
    brokerDpCtrlMsgParse o body = (brokerDpCtrlMsgRequest (some type), some u) := by
  obtain ⟨t, w, extra, rfl, rfl, rfl⟩ := h
  have hversion : (zmsgPopu32 o ([0, 0, 0, 0] :: w :: extra)).1 = some 0 :=
    zmsgPopu32_eq_zero_iff.mpr rfl
  rw [parse_cons, if_neg hreq, if_neg (not_not_intro hversion), zmsgPopu32_snd]
  rfl

/-- What is understood is a request. -/
theorem parse_cases (o : ByteOrder) (body : List Frame) :
    brokerDpCtrlMsgParse o body = (.error, none) ∨
      ∃ type u, IsRequest body type u ∧ brokerDpCtrlMsgRequest (some type) ≠ .error := by
  cases body with
  | nil => exact Or.inl rfl
  | cons t body =>
    rw [parse_cons]
    split_ifs with hreq hversion huuid
    · exact Or.inl rfl
    · exact Or.inl rfl
    · exact Or.inl rfl
    · rw [not_not] at hversion
      cases body with
      | nil => exact nomatch hversion
      | cons version body =>
        obtain rfl := zmsgPopu32_eq_zero_iff.mp hversion
        rw [zmsgPopu32_snd] at huuid
        cases body with
        | nil => exact absurd rfl huuid
        | cons u extra => exact Or.inr ⟨cstr t, cstr u, ⟨t, u, extra, rfl, rfl, rfl⟩, hreq⟩

theorem request_ne_error {type : List UInt8} (h : brokerDpCtrlMsgRequest (some type) ≠ .error) :
    type = connectStr ∨ type = keepaliveStr := by
  unfold brokerDpCtrlMsgRequest at h
  dsimp only at h
  split_ifs at h with hc hk
  · exact Or.inl hc
  · exact Or.inr hk
  · exact absurd rfl h

end Parse

namespace DpCtrl

/-! ## What one message does -/

section Message

variable {s : DpCtrl} {setup : DpCtrlSetup} {msg : RouterMsg} {u v : List UInt8} {dp : Dp}

theorem processCtrlMessage_connect (h : msg.Connects u) : s.processCtrlMessage setup msg
    = { s.processConnectMessage setup msg.envelope u with received := s.received + 1 } := by
  have hreq : brokerDpCtrlMsgRequest (some connectStr) = .connect := rfl
  have hparse := parse_of_isRequest (o := setup.order) (connects_iff.mp h)
    (by rw [hreq]; exact fun h => nomatch h)
  unfold processCtrlMessage
  simp only [hparse, hreq]
  rfl

theorem processCtrlMessage_keepalive (h : msg.KeepsAlive u) : s.processCtrlMessage setup msg
    = { s.processKeepaliveMessage msg.envelope u with received := s.received + 1 } := by
  have hreq : brokerDpCtrlMsgRequest (some keepaliveStr) = .keepalive := by decide
  have hparse := parse_of_isRequest (o := setup.order) (keepsAlive_iff.mp h)
    (by rw [hreq]; exact fun h => nomatch h)
  unfold processCtrlMessage
  simp only [hparse, hreq]
  rfl

theorem processCtrlMessage_other (hc : ∀ u, ¬ msg.Connects u) (hk : ∀ u, ¬ msg.KeepsAlive u) :
    s.processCtrlMessage setup msg = { s with received := s.received + 1 } := by
  have hparse : brokerDpCtrlMsgParse setup.order (zmsgUnwrap msg).2 = (.error, none) := by
    rcases parse_cases setup.order (zmsgUnwrap msg).2 with h | ⟨type, u, h, hreq⟩
    · exact h
    · rcases request_ne_error hreq with rfl | rfl
      · exact absurd (connects_iff.mpr h) (hc u)
      · exact absurd (keepsAlive_iff.mpr h) (hk u)
  unfold processCtrlMessage
  simp only [hparse]

theorem closeDpSession_find (h : dp.uuid = u) (v : List UInt8) :
    (s.closeDpSession dp).dpFindbyuuid v = if v = u then none else s.dpFindbyuuid v := by
  show (s.dpUuidHt.erase dp.uuid).lookup v = _
  rw [h]
  by_cases hv : v = u
  · rw [if_pos hv, hv, AList.lookup_erase]
  · rw [if_neg hv, AList.lookup_erase_ne hv]
    rfl

theorem dpInsert_find (h : s.dpFindbyuuid dp.uuid = none) (v : List UInt8) :
    (s.dpInsert dp).dpFindbyuuid v = if v = dp.uuid then some dp else s.dpFindbyuuid v := by
  have hnew : dp.uuid ∉ s.dpUuidHt := AList.lookup_eq_none.mp h
  unfold dpInsert
  rw [if_neg hnew]
  show (s.dpUuidHt.insert dp.uuid dp).lookup v = _
  by_cases hv : v = dp.uuid
  · rw [if_pos hv, hv, AList.lookup_insert]
  · rw [if_neg hv, AList.lookup_insert_ne hv]
    rfl

/-- The `ACCEPT` that thread `n` is announced with. -/
def accept (setup : DpCtrlSetup) (envelope : Frame) (u : List UInt8) (n : ℕ) : List Frame :=
  [envelope, acceptStr, u, setup.endpoint n, setup.order.bytes32 setup.dataFormat]

/-- The session that the state has for the uuid, with its thread, is gone. -/
structure Vacated (s s' : DpCtrl) (u : List UInt8) : Prop where
  find : ∀ v, s'.dpFindbyuuid v = if v = u then none else s.dpFindbyuuid v
  threads : s'.threads
    = s.threads.filter fun t => (s.dpFindbyuuid u).all fun dp => decide (t.num ≠ dp.ipc)
  started : s'.started = s.started
  received : s'.received = s.received
  sent : s'.sent = s.sent

theorem vacated_of_none (hu : s.dpFindbyuuid u = none) : Vacated s s u := by
  refine ⟨fun v => ?_, ?_, rfl, rfl, rfl⟩
  · split_ifs with hv
    · rw [hv, hu]
    · rfl
  · rw [hu]
    exact (List.filter_true _).symm

theorem vacated_closeDpSession (hu : s.dpFindbyuuid u = some dp) (hkey : dp.uuid = u) :
    Vacated s (s.closeDpSession dp) u := by
  refine ⟨closeDpSession_find hkey, ?_, rfl, rfl, rfl⟩
  rw [hu]
  rfl

/-- **A `CONNECT`.**  The session of the uuid, if there is one, is closed with its thread,
and there is a new one with a new thread. -/
theorem processConnectMessage_spec (setup : DpCtrlSetup) (envelope : Frame)
    (hkey : ∀ dp, s.dpFindbyuuid u = some dp → dp.uuid = u) :
    (∀ v, (s.processConnectMessage setup envelope u).dpFindbyuuid v = if v = u then
        some { uuid := u, ipc := s.started, dataUrl := setup.endpoint s.started }
      else s.dpFindbyuuid v) ∧
    (s.processConnectMessage setup envelope u).threads
      = (s.threads.filter fun t => (s.dpFindbyuuid u).all fun dp => decide (t.num ≠ dp.ipc)) ++
        [{ num := s.started, message := s.received }] ∧
    (s.processConnectMessage setup envelope u).started = s.started + 1 ∧
    (s.processConnectMessage setup envelope u).sent
      = s.sent ++ [accept setup envelope u s.started] := by
  obtain ⟨s', hcall, hs'⟩ : ∃ s', s.processConnectMessage setup envelope u
      = ((s'.startNewDpDataThread setup).2.dpInsert
          { uuid := u, ipc := s'.started, dataUrl := setup.endpoint s'.started }
        ).brokerDpCtrlMsgAccept setup u envelope (setup.endpoint s'.started) ∧
      Vacated s s' u := by
    unfold processConnectMessage
    cases hu : s.dpFindbyuuid u with
    | none => exact ⟨s, rfl, vacated_of_none hu⟩
    | some dp => exact ⟨_, rfl, vacated_closeDpSession hu (hkey dp hu)⟩
  have hnone : (s'.startNewDpDataThread setup).2.dpFindbyuuid
      ({ uuid := u, ipc := s'.started, dataUrl := setup.endpoint s'.started } : Dp).uuid
        = none := by
    show s'.dpFindbyuuid u = none
    rw [hs'.find, if_pos rfl]
  have hnew : u ∉ (s'.startNewDpDataThread setup).2.dpUuidHt := AList.lookup_eq_none.mp hnone
  rw [hcall]
  refine ⟨fun v => ?_, ?_, ?_, ?_⟩
  · -- `dpUuidHt` now holds the new session, the rest is as closing left it
    apply (dpInsert_find hnone v).trans
    rw [hs'.started]
    split_ifs with hv
    · rfl
    · show s'.dpFindbyuuid v = _
      rw [hs'.find, if_neg hv]
  · unfold dpInsert
    rw [if_neg hnew]
    show s'.threads ++ [{ num := s'.started, message := s'.received }] = _
    rw [hs'.threads, hs'.started, hs'.received]
  · unfold dpInsert
    rw [if_neg hnew]
    show s'.started + 1 = _
    rw [hs'.started]
  · unfold dpInsert
    rw [if_neg hnew]
    show s'.sent ++ [accept setup envelope u s'.started] = _
    rw [hs'.sent, hs'.started]

end Message

/-! ## All messages -/

/-- The last `CONNECT` of the uuid among the messages is the one with the number `k`. -/
structure LatestConnect (msgs : List RouterMsg) (u : List UInt8) (k : ℕ) : Prop where
  connects : ∃ msg, msgs[k]? = some msg ∧ msg.Connects u
  latest : ∀ j msg, k < j → msgs[j]? = some msg → ¬ msg.Connects u

/-- **The sessions after the messages `msgs`.** -/
structure Served (msgs : List RouterMsg) (s : DpCtrl) : Prop where
  /-- there is an entry for the uuids of the `CONNECT`s -/
  keys : ∀ u, (∃ dp, s.dpFindbyuuid u = some dp) ↔ ∃ msg ∈ msgs, msg.Connects u
  key : ∀ u dp, s.dpFindbyuuid u = some dp → dp.uuid = u
  /-- an entry owns a running thread, started for the last `CONNECT` of its uuid -/
  owner : ∀ u dp, s.dpFindbyuuid u = some dp →
    ∃ k, LatestConnect msgs u k ∧ { num := dp.ipc, message := k } ∈ s.threads
  /-- a running thread is owned by an entry -/
  owned : ∀ t ∈ s.threads, ∃ u dp, s.dpFindbyuuid u = some dp ∧ dp.ipc = t.num
  /-- and by one only -/
  alone : ∀ u v dp dp', s.dpFindbyuuid u = some dp → s.dpFindbyuuid v = some dp' →
    dp.ipc = dp'.ipc → u = v
  /-- a number stands for one thread -/
  nodup : (s.threads.map RunningThread.num).Nodup
  /-- and has been given out -/
  fresh : ∀ t ∈ s.threads, t.num < s.started
  received : s.received = msgs.length

section Messages

variable {s s' : DpCtrl} {setup : DpCtrlSetup} {msgs : List RouterMsg} {msg : RouterMsg}
  {u : List UInt8} {k : ℕ}

theorem LatestConnect.concat (h : LatestConnect msgs u k) (hmsg : ¬ msg.Connects u) :
    LatestConnect (msgs ++ [msg]) u k := by
  obtain ⟨⟨m, hm, hconn⟩, hlatest⟩ := h
  have hlt : k < msgs.length := (List.getElem?_eq_some_iff.mp hm).1
  refine ⟨⟨m, ?_, hconn⟩, fun j m' hj hm' => ?_⟩
  · rw [List.getElem?_append_left hlt]
    exact hm
  · rcases Nat.lt_trichotomy j msgs.length with hjl | rfl | hjl
    · rw [List.getElem?_append_left hjl] at hm'
      exact hlatest j m' hj hm'
    · rw [List.getElem?_concat_length] at hm'
      exact Option.some.inj hm' ▸ hmsg
    · rw [List.getElem?_eq_none (by rw [List.length_append, List.length_singleton]; omega)] at hm'
      exact nomatch hm'

theorem latestConnect_last (h : msg.Connects u) :
    LatestConnect (msgs ++ [msg]) u msgs.length := by
  refine ⟨⟨msg, List.getElem?_concat_length, h⟩, fun j m hj hm => ?_⟩
  rw [List.getElem?_eq_none (by rw [List.length_append, List.length_singleton]; omega)] at hm
  exact nomatch hm

theorem exists_connects_concat {v : List UInt8} : (∃ m ∈ msgs ++ [msg], m.Connects v) ↔
    (∃ m ∈ msgs, m.Connects v) ∨ msg.Connects v := by
  simp only [List.mem_append, List.mem_singleton, or_and_right, exists_or, exists_eq_left]

theorem served_start : Served [] start where
  keys := fun _ => iff_of_false (fun ⟨_, h⟩ => nomatch h) (fun ⟨_, h, _⟩ => nomatch h)
  key := fun _ _ h => nomatch h
  owner := fun _ _ h => nomatch h
  owned := fun _ h => nomatch h
  alone := fun _ _ _ _ h => nomatch h
  nodup := List.nodup_nil
  fresh := fun _ h => nomatch h
  received := rfl

/-- A message that is no `CONNECT` changes no session. -/
theorem Served.concat_other (h : Served msgs s) (hc : ∀ u, ¬ msg.Connects u)
    (hht : s'.dpUuidHt = s.dpUuidHt) (hthreads : s'.threads = s.threads)
    (hstarted : s'.started = s.started) (hreceived : s'.received = s.received + 1) :
    Served (msgs ++ [msg]) s' := by
  have hfind : ∀ u, s'.dpFindbyuuid u = s.dpFindbyuuid u := by
    intro u
    unfold dpFindbyuuid
    rw [hht]
  refine ⟨fun u => ?_, fun u dp hu => ?_, fun u dp hu => ?_, fun t ht => ?_, fun u v dp dp' => ?_,
    ?_, ?_, ?_⟩
  · rw [hfind, h.keys, exists_connects_concat, or_iff_left (hc u)]
  · rw [hfind] at hu
    exact h.key u dp hu
  · rw [hfind] at hu
    obtain ⟨k, hk, hmem⟩ := h.owner u dp hu
    exact ⟨k, hk.concat (hc u), hthreads ▸ hmem⟩
  · obtain ⟨u, dp, hu, hipc⟩ := h.owned t (hthreads ▸ ht)
    exact ⟨u, dp, (hfind u).trans hu, hipc⟩
  · rw [hfind, hfind]
    exact h.alone u v dp dp'
  · rw [hthreads]
    exact h.nodup
  · rw [hthreads, hstarted]
    exact h.fresh
  · rw [hreceived, h.received, List.length_append, List.length_singleton]

/-- The number of a session is smaller than that of the next thread. -/
theorem Served.ipc_lt (h : Served msgs s) {v : List UInt8} {dp : Dp}
    (hv : s.dpFindbyuuid v = some dp) : dp.ipc < s.started := by
  obtain ⟨k, -, hmem⟩ := h.owner v dp hv
  exact h.fresh _ hmem

/-- A `CONNECT` replaces the session of its uuid. -/
theorem Served.concat_connect (h : Served msgs s) (hmsg : msg.Connects u) :
    Served (msgs ++ [msg]) (s.processCtrlMessage setup msg) := by
  obtain ⟨hfind, hthreads, hstarted, -⟩ :=
    processConnectMessage_spec setup msg.envelope (h.key u)
  rw [processCtrlMessage_connect hmsg]
  generalize s.processConnectMessage setup msg.envelope u = s' at hfind hthreads hstarted
  have hfind' : ∀ v, DpCtrl.dpFindbyuuid { s' with received := s.received + 1 } v = if v = u then
      some { uuid := u, ipc := s.started, dataUrl := setup.endpoint s.started }
      else s.dpFindbyuuid v := hfind
  have hkept : ∀ t, t ∈ s'.threads ↔ (t ∈ s.threads ∧
      ∀ dp, s.dpFindbyuuid u = some dp → t.num ≠ dp.ipc) ∨
      t = { num := s.started, message := s.received } := by
    intro t
    rw [hthreads, List.mem_append, List.mem_filter, List.mem_singleton]
    simp only [Option.all_eq_true, decide_eq_true_eq]
  refine ⟨fun v => ?_, fun v dp hv => ?_, fun v dp hv => ?_, fun t ht => ?_,
    fun v w dp dp' hv hw heq => ?_, ?_, fun t ht => ?_, ?_⟩
  · rw [hfind', exists_connects_concat]
    split_ifs with hvu
    · exact iff_of_true ⟨_, rfl⟩ (Or.inr (hvu ▸ hmsg))
    · rw [h.keys, or_iff_left]
      exact fun hconn => hvu (hconn.unique hmsg)
  · rw [hfind'] at hv
    split_ifs at hv with hvu
    · rw [← Option.some.inj hv, hvu]
    · exact h.key v dp hv
  · rw [hfind'] at hv
    split_ifs at hv with hvu
    · rw [← Option.some.inj hv, hvu]
      exact ⟨msgs.length, latestConnect_last hmsg, (hkept _).mpr (Or.inr (by rw [h.received]))⟩
    · obtain ⟨k, hk, hmem⟩ := h.owner v dp hv
      refine ⟨k, hk.concat (fun hconn => hvu (hconn.unique hmsg)),
        (hkept _).mpr (Or.inl ⟨hmem, ?_⟩)⟩
      intro dp' hu heq
      exact hvu (h.alone v u dp dp' hv hu heq)
  · rcases (hkept t).mp ht with ⟨hmem, hne⟩ | rfl
    · obtain ⟨v, dp, hv, hipc⟩ := h.owned t hmem
      have hvu : v ≠ u := by
        rintro rfl
        exact hne dp hv hipc.symm
      exact ⟨v, dp, by rw [hfind', if_neg hvu, hv], hipc⟩
    · exact ⟨u, _, by rw [hfind', if_pos rfl], rfl⟩
  · rw [hfind'] at hv hw
    split_ifs at hv hw with hvu hwu hwu
    · rw [hvu, hwu]
    · rw [← Option.some.inj hv] at heq
      exact absurd heq (h.ipc_lt hw).ne'
    · rw [← Option.some.inj hw] at heq
      exact absurd heq (h.ipc_lt hv).ne
    · exact h.alone v w dp dp' hv hw heq
  · show (s'.threads.map RunningThread.num).Nodup
    rw [hthreads, List.map_append, List.map_singleton, List.nodup_append]
    refine ⟨h.nodup.sublist (List.filter_sublist.map _), List.nodup_singleton _, ?_⟩
    intro n hn m hm heq
    obtain ⟨t, ht, rfl⟩ := List.mem_map.mp hn
    rw [List.mem_singleton.mp hm] at heq
    exact (h.fresh t (List.mem_filter.mp ht).1).ne heq
  · show t.num < s'.started
    rw [hstarted]
    rcases (hkept t).mp ht with ⟨hmem, -⟩ | rfl
    · exact Nat.lt_succ_of_lt (h.fresh t hmem)
    · exact Nat.lt_succ_self _
  · show s.received + 1 = _
    rw [h.received, List.length_append, List.length_singleton]

theorem processKeepaliveMessage_eq (s : DpCtrl) (envelope : Frame) (u : List UInt8) :
    s.processKeepaliveMessage envelope u = { s with sent := s.sent ++
      if (s.dpFindbyuuid u).isSome then [] else [[envelope, reconnectStr, u]] } := by
  unfold processKeepaliveMessage
  cases s.dpFindbyuuid u with
  | none => rfl
  | some dp =>
    show s = { s with sent := s.sent ++ [] }
    rw [List.append_nil]

theorem Served.concat (h : Served msgs s) (msg : RouterMsg) :
    Served (msgs ++ [msg]) (s.processCtrlMessage setup msg) := by
  by_cases hc : ∃ u, msg.Connects u
  · obtain ⟨u, hu⟩ := hc
    exact h.concat_connect hu
  · rw [not_exists] at hc
    by_cases hk : ∃ u, msg.KeepsAlive u
    · obtain ⟨u, hu⟩ := hk
      rw [processCtrlMessage_keepalive hu, processKeepaliveMessage_eq]
      exact h.concat_other hc rfl rfl rfl rfl
    · rw [not_exists] at hk
      rw [processCtrlMessage_other hc hk]
      exact h.concat_other hc rfl rfl rfl rfl

/-- The invariant of a run. -/
theorem served_run (setup : DpCtrlSetup) (msgs : List RouterMsg) :
    Served msgs (run setup msgs) := by
  induction msgs using List.reverseRecOn with
  | nil => exact served_start
  | append_singleton msgs msg ih =>
    unfold run
    rw [List.foldl_append]
    exact ih.concat msg

/-! ## The end -/

/-- **`close_all_dp_sessions` comes to an end**, in whatever order it goes through the table,
and no data thread is left. -/
theorem closeAllDpSessions_eq (order : ZhashOrder) (s : DpCtrl)
    (hkey : ∀ u dp, s.dpFindbyuuid u = some dp → dp.uuid = u)
    (howned : ∀ t ∈ s.threads, ∃ u dp, s.dpFindbyuuid u = some dp ∧ dp.ipc = t.num) {fuel : ℕ}
    (hfuel : s.dpUuidHt.keys.length < fuel) :
    ∃ t, closeAllDpSessions order fuel s = some t ∧ t.dpUuidHt = ∅ ∧ t.threads = [] ∧
      t.sent = s.sent := by
  induction fuel generalizing s with
  | zero => exact absurd hfuel (Nat.not_lt_zero _)
  | succ fuel ih =>
    rw [closeAllDpSessions]
    cases hfirst : order.first s.dpUuidHt with
    | none =>
      have hempty := order.first_eq_none _ hfirst
      refine ⟨s, rfl, hempty, List.eq_nil_iff_forall_not_mem.mpr (fun t ht => ?_), rfl⟩
      obtain ⟨u, dp, hu, -⟩ := howned t ht
      unfold dpFindbyuuid at hu
      rw [hempty] at hu
      exact nomatch hu
    | some dp =>
      obtain ⟨u, hu⟩ := order.first_mem _ _ hfirst
      have hu : s.dpFindbyuuid u = some dp := hu
      have hfind := closeDpSession_find (s := s) (hkey u dp hu)
      apply ih (s.closeDpSession dp)
      · intro v dp' hv
        rw [hfind] at hv
        split_ifs at hv with hvu
        exact hkey v dp' hv
      · intro t ht
        obtain ⟨hmem, hne⟩ := List.mem_filter.mp ht
        obtain ⟨v, dp', hv, hipc⟩ := howned t hmem
        have hvu : v ≠ u := by
          rintro rfl
          rw [hu, Option.some.injEq] at hv
          rw [hv, hipc] at hne
          simp at hne
        exact ⟨v, dp', by rw [hfind, if_neg hvu, hv], hipc⟩
      · have hmem : dp.uuid ∈ s.dpUuidHt.keys := by
          rw [hkey u dp hu]
          exact AList.mem_keys.mp (AList.lookup_isSome.mp (by
            show (s.dpFindbyuuid u).isSome
            rw [hu]
            rfl))
        have hlen := @List.length_erase_of_mem _ instBEqOfDecidableEq _ _ _ hmem
        have hpos := List.length_pos_of_mem hmem
        show (s.dpUuidHt.erase dp.uuid).keys.length < fuel
        rw [AList.keys_erase, hlen]
        omega

end Messages

/-! ## The control socket -/

/-- What the message `msg` is answered in the state `s`, and what is left unchanged. -/
structure Answers (setup : DpCtrlSetup) (s : DpCtrl) (msg : RouterMsg) : Prop where
  /-- a `CONNECT` is answered with the endpoint of the thread that its uuid now owns, which
  is a new one -/
  connect : ∀ u, msg.Connects u → ∃ dp, dp.ipc = s.started ∧
    (s.processCtrlMessage setup msg).dpFindbyuuid u = some dp ∧
    (s.processCtrlMessage setup msg).sent = s.sent ++ [[msg.envelope, acceptStr, u,
      setup.endpoint dp.ipc, setup.order.bytes32 setup.dataFormat]]
  /-- a `KEEPALIVE` is answered if the uuid is unknown -/
  keepalive : ∀ u, msg.KeepsAlive u → s.processCtrlMessage setup msg
    = { s with
        received := s.received + 1
        sent := s.sent ++
          if (s.dpFindbyuuid u).isSome then [] else [[msg.envelope, reconnectStr, u]] }
  /-- no other message is answered -/
  other : (∀ u, ¬ msg.Connects u) → (∀ u, ¬ msg.KeepsAlive u) →
    s.processCtrlMessage setup msg = { s with received := s.received + 1 }

/-- **The control sessions.**  After any messages on the router socket the table has one
entry for each uuid that has sent a well-formed `CONNECT`, which owns exactly one running
data thread, started for the last `CONNECT` of the uuid; there are no other data threads.
The next message is answered as `Answers` says, and `close_all_dp_sessions` comes to an end
with no data thread left. -/
theorem control_sessions (setup : DpCtrlSetup) (msgs : List RouterMsg) :
    Served msgs (run setup msgs) ∧ (∀ msg, Answers setup (run setup msgs) msg) ∧
      ∀ order : ZhashOrder, ∀ fuel, (run setup msgs).dpUuidHt.keys.length < fuel →
        ∃ t, closeAllDpSessions order fuel (run setup msgs) = some t ∧ t.threads = [] := by
  have hserved := served_run setup msgs
  refine ⟨hserved, fun msg => ⟨fun u hu => ?_, fun u hu => ?_, processCtrlMessage_other⟩,
    fun order fuel hfuel => ?_⟩
  · obtain ⟨hfind, -, -, hsent⟩ :=
      processConnectMessage_spec setup msg.envelope (hserved.key u)
    rw [processCtrlMessage_connect hu]
    exact ⟨{ uuid := u, ipc := (run setup msgs).started, dataUrl := _ }, rfl,
      (hfind u).trans (if_pos rfl), hsent⟩
  · rw [processCtrlMessage_keepalive hu, processKeepaliveMessage_eq]
  · obtain ⟨t, ht, -, hthreads, -⟩ :=
      closeAllDpSessions_eq order (run setup msgs) hserved.key hserved.owned hfuel
    exact ⟨t, ht, hthreads⟩

/-- A data format of two bytes, and an endpoint of its own for each data thread. -/
def ipcSetup : DpCtrlSetup where
  order := .little
  dataFormat := 258
  endpoint n := ascii ['i', 'p', 'c', ':', '/', '/', '/', 't', 'm', 'p', '/'] ++
    [UInt8.ofNat (48 + n)]

/-- A `CONNECT` of the dataplane `a` behind a delimiter, a `KEEPALIVE` of the dataplane `b`, and
a `CONNECT` of `b` with another version. -/
def firstRequests : List RouterMsg :=
  [⟨[0, 1], [], [connectStr, [0, 0, 0, 0], [97]]⟩,
   ⟨[0, 2], keepaliveStr, [[0, 0, 0, 0], [98]]⟩,
   ⟨[0, 2], connectStr, [[1, 0, 0, 0], [98]]⟩]

/-- `a` connects once more, from another envelope; its uuid ends with a NUL. -/
def connectAgain : RouterMsg := ⟨[0, 3], connectStr, [[0, 0, 0, 0], [97, 0]]⟩

/-- The theorem at a run in which the first thread of `a` is replaced: `a` is accepted twice,
`b` is told to reconnect, and closing the sessions leaves no thread. -/
theorem control_sessions_reconnect :
    (∃ dp, (run ipcSetup (firstRequests ++ [connectAgain])).dpFindbyuuid [97] = some dp ∧
      (run ipcSetup (firstRequests ++ [connectAgain])).threads = [⟨dp.ipc, 3⟩] ∧
      (run ipcSetup (firstRequests ++ [connectAgain])).sent =
        [[[0, 1], acceptStr, [97], ipcSetup.endpoint 0, [2, 1, 0, 0]],
         [[0, 2], reconnectStr, [98]],
         [[0, 3], acceptStr, [97], ipcSetup.endpoint dp.ipc, [2, 1, 0, 0]]]) ∧
    ∃ t, closeAllDpSessions .listed 2 (run ipcSetup (firstRequests ++ [connectAgain])) = some t ∧
      t.threads = [] := by
  have hconnects : connectAgain.Connects [97] :=
    ⟨connectStr, [97, 0], [], by decide, by decide, Or.inl rfl⟩
  obtain ⟨dp, hipc, hfind, hsent⟩ :=
    ((control_sessions ipcSetup firstRequests).2.1 connectAgain).connect [97] hconnects
  refine ⟨⟨dp, hfind, ?_, hsent.trans ?_⟩, ?_⟩
  · rw [hipc]
    decide
  · rw [hipc]
    decide
  · exact (control_sessions ipcSetup (firstRequests ++ [connectAgain])).2.2 .listed 2 (by decide)

end DpCtrl
