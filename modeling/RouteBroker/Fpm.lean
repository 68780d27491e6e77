/-
# The FPM stream

`broker_process_fpm` reads one record from the stream socket of the FPM: a header of four
bytes with the length of the record in network byte order, and a payload of netlink
messages, which it walks over with `process_nlmsg`.

The reference decoder `decodeStream` works on the bytes of the stream.  The theorem says
that calls of `broker_process_fpm`, however `recv` cuts the stream, handle the messages of
the reference decoder and stop where it stops, and that they stay inside of the buffer:
the check of the alignment in `fpm_msg_hdr_ok` is what makes every payload well cut.

Main result: `fpm_stream_decoded`.
-/
import RouteBroker.Stream
import RouteBroker.Netlink

/-! ## `fpm.h` -/

/-- `FPM_MAX_MSG_LEN` -/
def fpmMaxMsgLen : ℕ := 4096

/-- `FPM_MSG_HDR_LEN` -/
def fpmMsgHdrLen : ℕ := 4

def fpmMsgTypeNone : UInt8 := 0
def fpmMsgTypeNetlink : UInt8 := 1

/-- `BROKER_FPM_VERSION` -/
def brokerFpmVersion : UInt8 := 1

section Header

variable (m : Mem) (fpm : ℕ)

def fpmVersion : UInt8 := m fpm
def fpmMsgType : UInt8 := m (fpm + 1)

/-- `fpm_msg_len`: the length is in network byte order on every machine. -/
def fpmMsgLen : ℕ := load16 .big m (fpm + 2)

/-- `fpm_msg_data_len` -/
def fpmMsgDataLen : ℕ := sizeSub (fpmMsgLen m fpm) fpmMsgHdrLen

/-- `fpm_msg_align` -/
def fpmMsgAlign (len : ℕ) : ℕ := (len + 3) / 4 * 4

/-- `fpm_msg_hdr_ok` -/
def fpmMsgHdrOk : Bool :=
  if fpmMsgType m fpm = fpmMsgTypeNone then false
  else if fpmMsgLen m fpm < fpmMsgHdrLen ∨ fpmMaxMsgLen < fpmMsgLen m fpm then false
  -- Netlink messages must be aligned properly.
  else if fpmMsgType m fpm = fpmMsgTypeNetlink ∧
      fpmMsgAlign (fpmMsgLen m fpm) ≠ fpmMsgLen m fpm then false
  else true

end Header

/-! ## `broker_process_fpm` -/

/-- What a call does to the buffer. -/
inductive FpmEvent
  /-- `recv` may write `want` bytes from the offset `off` on -/
  | recv (off want : ℕ)
  /-- `process_nlmsg` walks over the `len` bytes of payload -/
  | walk (len : ℕ) (ev : List NlEvent)

/-- The result of a call, and the state it leaves. -/
structure FpmCall where
  ret : ℤ
  mem : Mem
  sock : Sock
  trace : List FpmEvent

/-- The end of a call in the state `s` of its reads. -/
def RecvState.finish (s : RecvState) (ret : ℤ) (walks : List FpmEvent) : FpmCall where
  ret := ret
  mem := s.mem
  sock := s.sock
  trace := s.writes.map (fun w => .recv w.1 w.2) ++ walks

/-- The rest of the call, once the header is in the buffer. -/
def fpmBody (o : ByteOrder) (buf : ℕ) (s : RecvState) : Option FpmCall :=
  -- corrupt FPM header
  if fpmMsgHdrOk s.mem buf = false then some (s.finish (-1) [])
  -- unknown FPM version
  else if fpmVersion s.mem buf ≠ brokerFpmVersion then some (s.finish (-1) [])
  -- unexpected FPM message type
  else if fpmMsgType s.mem buf ≠ fpmMsgTypeNetlink then some (s.finish (-1) [])
  -- FPM message too big for buffer
  else if fpmMaxMsgLen < fpmMsgLen s.mem buf then some (s.finish (-1) [])
  else
    -- Read the rest of the message
    (recvLoop (fpmMsgLen · buf) buf (s.sock.bytes.length + 1) s).bind fun r =>
      if r.2 then
        let len := fpmMsgDataLen r.1.mem buf
        let w := processNlmsg o (len + 1) r.1.mem (buf + fpmMsgHdrLen) len
        w.2.map fun mem => { r.1.finish r.1.n [.walk len w.1] with mem := mem }
      else some (r.1.finish r.1.n [])

/-- `broker_process_fpm(fd)`, with its buffer at `buf`; `none` if a loop did not end. -/
def brokerProcessFpm (o : ByteOrder) (buf : ℕ) (m : Mem) (sock : Sock) : Option FpmCall :=
  -- Read the FPM header
  (recvLoop (fun _ => fpmMsgHdrLen) buf (sock.bytes.length + 1) ⟨m, sock, 0, 0, []⟩).bind fun r =>
    if r.2 then fpmBody o buf r.1 else some (r.1.finish r.1.n [])

/-- Calls of `broker_process_fpm` until one returns a result that is not positive: this
result, and what all calls did. -/
def fpmCalls (o : ByteOrder) (buf : ℕ) : ℕ → Mem → Sock → Option (ℤ × List FpmEvent)
  | 0, _, _ => none
  | fuel + 1, m, sock =>
    (brokerProcessFpm o buf m sock).bind fun r =>
      if r.ret ≤ 0 then some (r.ret, r.trace)
      else (fpmCalls o buf fuel r.mem r.sock).map fun q => (q.1, r.trace ++ q.2)

/-- The messages a walk passes on as routes. -/
def routesOf (ev : List NlEvent) : List (List UInt8) :=
  ev.filterMap fun e => match e with
    | .route _ msg => some msg
    | _ => none

/-- The messages that calls pass on as routes. -/
def handled (trace : List FpmEvent) : List (List UInt8) :=
  trace.flatMap fun e => match e with
    | .walk _ ev => routesOf ev
    | .recv _ _ => []

/-! ## The reference decoder -/

/-- The length field of the netlink message at the beginning of `bs`. -/
def headLen (o : ByteOrder) (bs : List UInt8) : ℕ := load32 o (memOf bs) 0

/-- Cut `bs` into netlink messages that start at multiples of 4, until the first one that
does not fit. -/
def cutMessages (o : ByteOrder) (bs : List UInt8) : List (List UInt8) :=
  if h : 16 ≤ bs.length ∧ 16 ≤ headLen o bs ∧ headLen o bs ≤ bs.length then
    bs.take (headLen o bs) :: cutMessages o (bs.drop ((headLen o bs + 3) / 4 * 4))
  else []
termination_by bs.length
decreasing_by
  obtain ⟨hbs, hlen, -⟩ := h
  rw [List.length_drop]
  omega

/-- The message is an `RTM_NEWROUTE` or an `RTM_DELROUTE`. -/
def isRoute (o : ByteOrder) (msg : List UInt8) : Bool :=
  load16 o (memOf msg) 4 = rtmNewroute ∨ load16 o (memOf msg) 4 = rtmDelroute

/-- The length of the record at the beginning of `bs`. -/
def recordLen (bs : List UInt8) : ℕ := load16 .big (memOf bs) 2

/-- The record at the beginning of `bs` has a header that is accepted. -/
def Accepted (bs : List UInt8) : Prop :=
  memOf bs 0 = 1 ∧ memOf bs 1 = 1 ∧ 4 ≤ recordLen bs ∧ recordLen bs ≤ 4096 ∧ 4 ∣ recordLen bs

instance (bs : List UInt8) : Decidable (Accepted bs) := inferInstanceAs (Decidable (_ ∧ _))

/-- Why the decoder stops. -/
inductive Stop
  | badHeader
  | endOfStream
  deriving DecidableEq, Repr

/-- The route messages of the stream, up to the first bad header, or the end of the stream
and with it the last record if that is incomplete. -/
def decodeStream (o : ByteOrder) (bs : List UInt8) : List (List UInt8) × Stop :=
  if 4 ≤ bs.length then
    if _h : Accepted bs then
      if recordLen bs ≤ bs.length then
        let rest := decodeStream o (bs.drop (recordLen bs))
        ((cutMessages o ((bs.take (recordLen bs)).drop 4)).filter (isRoute o) ++ rest.1, rest.2)
      else ([], .endOfStream)
    else ([], .badHeader)
  else ([], .endOfStream)
termination_by bs.length
decreasing_by
  obtain ⟨-, -, hlen, -⟩ := _h
  rw [List.length_drop]
  omega

/-! ## The walk over a payload -/

section Payload

variable {o : ByteOrder} {m : Mem} {p len : ℕ}

theorem cutMessages_message (bs : List UInt8) (hbs : 16 ≤ bs.length) (hlen : 16 ≤ headLen o bs)
    (hfit : headLen o bs ≤ bs.length) : cutMessages o bs
      = bs.take (headLen o bs) :: cutMessages o (bs.drop ((headLen o bs + 3) / 4 * 4)) := by
  rw [cutMessages, dif_pos ⟨hbs, hlen, hfit⟩]

theorem cutMessages_stop {bs : List UInt8}
    (h : ¬ (16 ≤ bs.length ∧ 16 ≤ headLen o bs ∧ headLen o bs ≤ bs.length)) :
    cutMessages o bs = [] := by
  rw [cutMessages, dif_neg h]

/-- The length field in memory and in the list of bytes. -/
theorem headLen_slice (hlen : 16 ≤ len) : headLen o (slice m p len) = nlmsgLen o m p :=
  (sameBytes_slice m p len).load32_eq o (k := 0) (by omega)

theorem isRoute_slice (hlen : 16 ≤ len) : isRoute o (slice m p len) = true ↔
    nlmsgType o m p = rtmNewroute ∨ nlmsgType o m p = rtmDelroute := by
  have htype : load16 o (memOf (slice m p len)) 4 = nlmsgType o m p := by
    have h := (sameBytes_slice m p len).load16_eq o (k := 4) (by omega)
    rwa [Nat.zero_add] at h
  rw [isRoute, decide_eq_true_eq, htype]

theorem routesOf_append (ev ev' : List NlEvent) :
    routesOf (ev ++ ev') = routesOf ev ++ routesOf ev' := List.filterMap_append

theorem routesOf_handleRoute (o : ByteOrder) (m : Mem) (p : ℕ) (msg : List UInt8) :
    routesOf (handleRoute o m p msg).1 = [msg] := by
  unfold handleRoute
  dsimp only
  cases (processRtnl o m p).2 with
  | none => rfl
  | some r => rfl

/-- A message is passed on if it is a route. -/
theorem routesOf_nlmsgSwitch (hlen : 16 ≤ nlmsgLen o m p) :
    routesOf (nlmsgSwitch o m p).1 = [slice m p (nlmsgLen o m p)].filter (isRoute o) := by
  unfold nlmsgSwitch
  split_ifs with hnew hdel
  · rw [routesOf_handleRoute, List.filter_singleton,
      (isRoute_slice hlen).mpr (Or.inl hnew), cond_true]
  · rw [routesOf_handleRoute, List.filter_singleton,
      (isRoute_slice hlen).mpr (Or.inr hdel), cond_true]
  · have hnot : isRoute o (slice m p (nlmsgLen o m p)) = false := by
      rw [Bool.eq_false_iff]
      intro h
      rcases (isRoute_slice hlen).mp h with h | h
      · exact hnew h
      · exact hdel h
    rw [List.filter_singleton, hnot, cond_false]
    rfl

/-- The walk over a well cut buffer passes on the routes among its messages. -/
theorem WellCut.routesOf_walk (h : WellCut o m p len) (hlt : len + 3 < 2 ^ 32) {fuel : ℕ}
    (hfuel : len < fuel) : routesOf (processNlmsg o fuel m p len).1
      = (cutMessages o (slice m p len)).filter (isRoute o) := by
  induction fuel generalizing m p len with
  | zero => exact absurd hfuel (Nat.not_lt_zero _)
  | succ fuel ih =>
    have h16 : nlmsgHdrlen = 16 := rfl
    by_cases hshort : len < nlmsgHdrlen
    · rw [processNlmsg_short o fuel m p hshort, cutMessages_stop]
      · rfl
      · rw [length_slice]
        omega
    have hhead : headLen o (slice m p len) = nlmsgLen o m p := headLen_slice (by omega)
    by_cases hunfit : nlmsgLen o m p < nlmsgHdrlen ∨ len < nlmsgLen o m p
    · rw [processNlmsg_unfit fuel hshort hunfit, cutMessages_stop]
      · rfl
      · rw [length_slice, hhead]
        omega
    have hstep := nlmsgAlign_eq (nlmsgLen o m p) (by omega)
    cases h with
    | short h => exact absurd h hshort
    | unfit h => exact absurd h hunfit
    | message hle hrest =>
      rw [hstep] at hle hrest
      -- the message, and what is left of the payload once it is handled
      have hsame : slice (nlmsgSwitch o m p).2 (p + (nlmsgLen o m p + 3) / 4 * 4)
            (len - (nlmsgLen o m p + 3) / 4 * 4)
          = (slice m p len).drop ((nlmsgLen o m p + 3) / 4 * 4) := by
        rw [slice_drop m p hle]
        exact (sameFrom_nlmsgSwitch (by omega)).slice_eq (by omega) _
      have hcut := cutMessages_message (o := o) (slice m p len) (by rw [length_slice]; omega)
        (by rw [hhead]; omega) (by rw [length_slice, hhead]; omega)
      rw [hhead, slice_take m p (by omega), ← hsame, ← List.singleton_append] at hcut
      have hrest' : WellCut o (nlmsgSwitch o m p).2 (p + (nlmsgLen o m p + 3) / 4 * 4)
          (len - (nlmsgLen o m p + 3) / 4 * 4) :=
        hrest.congr ((sameFrom_nlmsgSwitch (by omega)).mono (by omega))
      rw [processNlmsg_round fuel (by omega) (by omega) hstep, sizeSub_eq hle (by omega), hcut,
        List.filter_append, ← routesOf_nlmsgSwitch (by omega), ← ih hrest' (by omega) (by omega),
        routesOf_append]
      rfl

/-- **The walk passes on the routes among the messages of its payload.** -/
theorem routesOf_walk (hdvd : 4 ∣ len) (hlt : len + 3 < 2 ^ 32) {fuel : ℕ} (hfuel : len < fuel) :
    routesOf (processNlmsg o fuel m p len).1
      = (cutMessages o (slice m p len)).filter (isRoute o) :=
  (wellCut_of_dvd o m p hdvd hlt).routesOf_walk hlt hfuel

end Payload

/-! ## One call -/

/-- Every `recv` writes inside of the buffer, and every walk stays inside of a payload that
lies in the buffer. -/
structure InBuffer (buf : ℕ) (trace : List FpmEvent) : Prop where
  recvs : ∀ off want, .recv off want ∈ trace → off + want ≤ fpmMaxMsgLen
  walks : ∀ len ev, .walk len ev ∈ trace →
    fpmMsgHdrLen + len ≤ fpmMaxMsgLen ∧ WalkSafe (buf + fpmMsgHdrLen) len ev

theorem InBuffer.append {buf : ℕ} {t t' : List FpmEvent} (h : InBuffer buf t)
    (h' : InBuffer buf t') : InBuffer buf (t ++ t') where
  recvs := fun off want hmem => (List.mem_append.mp hmem).elim (h.recvs off want)
    (h'.recvs off want)
  walks := fun len ev hmem => (List.mem_append.mp hmem).elim (h.walks len ev) (h'.walks len ev)

theorem inBuffer_writes {buf : ℕ} {ws : List (ℕ × ℕ)}
    (h : ∀ w ∈ ws, w.1 + w.2 ≤ fpmMaxMsgLen) :
    InBuffer buf (ws.map fun w => FpmEvent.recv w.1 w.2) := by
  refine ⟨fun off want hmem => ?_, fun len ev hmem => ?_⟩
  · obtain ⟨w, hw, heq⟩ := List.mem_map.mp hmem
    cases heq
    exact h w hw
  · obtain ⟨w, hw, heq⟩ := List.mem_map.mp hmem
    exact nomatch heq

theorem handled_append (t t' : List FpmEvent) : handled (t ++ t') = handled t ++ handled t' :=
  List.flatMap_append

theorem handled_writes (ws : List (ℕ × ℕ)) :
    handled (ws.map fun w => FpmEvent.recv w.1 w.2) = [] := by
  unfold handled
  rw [List.flatMap_map]
  exact List.flatMap_eq_nil_iff.mpr (fun _ _ => rfl)

/-- What one call may come to, with the bytes `bs` still to be received. -/
inductive FpmOutcome (o : ByteOrder) (sock : Sock) (r : FpmCall) : Prop
  /-- the stream ends in the header or in the payload -/
  | ended (h : sock.bytes.length < 4 ∨
      (Accepted sock.bytes ∧ sock.bytes.length < recordLen sock.bytes))
    (hret : r.ret = sock.fin) (hhandled : handled r.trace = [])
  /-- the header is rejected -/
  | rejected (hlen : 4 ≤ sock.bytes.length) (h : ¬ Accepted sock.bytes) (hret : r.ret = -1)
    (hhandled : handled r.trace = [])
  /-- a record is handled -/
  | record (hlen : recordLen sock.bytes ≤ sock.bytes.length) (h : Accepted sock.bytes)
    (hret : 0 < r.ret)
    (hhandled : handled r.trace = (cutMessages o
      ((sock.bytes.take (recordLen sock.bytes)).drop 4)).filter (isRoute o))
    (hsock : r.sock.bytes = sock.bytes.drop (recordLen sock.bytes))
    (hfin : r.sock.fin = sock.fin)

section Call

variable {o : ByteOrder} {buf : ℕ} {m : Mem} {bs : List UInt8}

/-- The header once its four bytes are in the buffer. -/
theorem header_fields (m : Mem) (buf : ℕ) (h4 : 4 ≤ bs.length) :
    fpmVersion (blit m buf (bs.take 4)) buf = memOf bs 0 ∧
      fpmMsgType (blit m buf (bs.take 4)) buf = memOf bs 1 ∧
      fpmMsgLen (blit m buf (bs.take 4)) buf = recordLen bs := by
  have hbytes : SameBytes 4 (memOf bs) 0 (blit m buf (bs.take 4)) buf := by
    intro i hi
    rw [blit_of_mem m buf (by rw [List.length_take]; omega), memOf_take bs hi, Nat.zero_add]
  exact ⟨hbytes 0 (by omega), hbytes 1 (by omega), hbytes.load16_eq .big (k := 2) (by omega)⟩

/-- The checks of the header, together. -/
theorem header_checks {fpm : ℕ} (hv : fpmVersion m fpm = memOf bs 0)
    (ht : fpmMsgType m fpm = memOf bs 1) (hl : fpmMsgLen m fpm = recordLen bs) :
    Accepted bs ↔ ¬ (fpmMsgHdrOk m fpm = false ∨ fpmVersion m fpm ≠ brokerFpmVersion ∨
      fpmMsgType m fpm ≠ fpmMsgTypeNetlink ∨ fpmMaxMsgLen < fpmMsgLen m fpm) := by
  unfold Accepted fpmMsgHdrOk brokerFpmVersion fpmMsgTypeNetlink fpmMsgTypeNone fpmMaxMsgLen
    fpmMsgHdrLen fpmMsgAlign
  rw [hv, ht, hl]
  by_cases h0 : memOf bs 0 = 1
  · by_cases h1 : memOf bs 1 = 1
    · rw [h0, h1]
      split_ifs with hnone hrange halign
      · exact absurd hnone (by decide)
      · simp
        omega
      · simp
        omega
      · have haligned : (recordLen bs + 3) / 4 * 4 = recordLen bs := by
          by_contra hne
          exact halign ⟨rfl, hne⟩
        simp
        omega
    · simp [h1]
  · simp [h0]

/-- The rest of the record in the buffer. -/
theorem payload_slice (h4 : 4 ≤ recordLen bs) (hlen : recordLen bs ≤ bs.length) :
    slice (blit (blit m buf (bs.take 4)) (buf + 4) ((bs.drop 4).take (recordLen bs - 4))) (buf + 4)
      (recordLen bs - 4) = (bs.take (recordLen bs)).drop 4 := by
  have htake : bs.take 4 ++ (bs.drop 4).take (recordLen bs - 4) = bs.take (recordLen bs) := by
    rw [← List.take_add, Nat.add_sub_cancel' h4]
  have hblit : blit (blit m buf (bs.take 4)) (buf + 4) ((bs.drop 4).take (recordLen bs - 4))
      = blit m buf (bs.take (recordLen bs)) := by
    have h := blit_append m buf (bs.take 4) ((bs.drop 4).take (recordLen bs - 4))
    rw [htake, List.length_take, min_eq_left (by omega)] at h
    exact h
  have hslice := slice_blit m buf (bs.take (recordLen bs))
  rw [List.length_take, min_eq_left hlen] at hslice
  rw [hblit, ← slice_drop _ buf h4, hslice]

/-- The state of the call when the header is in the buffer. -/
structure HeaderRead (buf : ℕ) (m : Mem) (sock : Sock) (s : RecvState) : Prop where
  enough : 4 ≤ sock.bytes.length
  mem : s.mem = blit m buf (sock.bytes.take 4)
  bytes : s.sock.bytes = sock.bytes.drop 4
  fin : s.sock.fin = sock.fin
  l : s.l = 4
  n : 0 < s.n
  writes : ∀ w ∈ s.writes, w.1 + w.2 ≤ 4

variable {sock : Sock} {s : RecvState}

theorem HeaderRead.msgLen (h : HeaderRead buf m sock s) :
    fpmMsgLen s.mem buf = recordLen sock.bytes := by
  rw [h.mem]
  exact (header_fields m buf h.enough).2.2

/-- The four checks reject the same headers as the reference decoder. -/
theorem HeaderRead.accepted_iff (h : HeaderRead buf m sock s) : Accepted sock.bytes ↔
    ¬ (fpmMsgHdrOk s.mem buf = false ∨ fpmVersion s.mem buf ≠ brokerFpmVersion ∨
      fpmMsgType s.mem buf ≠ fpmMsgTypeNetlink ∨ fpmMaxMsgLen < fpmMsgLen s.mem buf) := by
  obtain ⟨hv, ht, hlen⟩ := header_fields m buf h.enough
  rw [← h.mem] at hv ht hlen
  exact header_checks hv ht hlen

theorem HeaderRead.inBuffer (h : HeaderRead buf m sock s) {ws : List (ℕ × ℕ)}
    (hws : ∀ w ∈ ws, w ∈ s.writes ∨ w.1 + w.2 ≤ fpmMaxMsgLen) :
    InBuffer buf (ws.map fun w => FpmEvent.recv w.1 w.2) := by
  refine inBuffer_writes (fun w hw => ?_)
  rcases hws w hw with hw | hw
  · have hw4 := h.writes w hw
    unfold fpmMaxMsgLen
    omega
  · exact hw

/-- The length does not change while the rest of the record is read. -/
theorem HeaderRead.stable (h : HeaderRead buf m sock s) :
    Stable (fpmMsgLen · buf) buf s.l (recordLen sock.bytes) s.mem := by
  intro m' hm'
  rw [h.l] at hm'
  have hsame : SameBytes 4 s.mem buf m' buf := fun i hi => hm' (buf + i) (by omega)
  exact (hsame.load16_eq .big (k := 2) (by omega)).trans h.msgLen

theorem inBuffer_nil (buf : ℕ) : InBuffer buf [] :=
  ⟨fun _ _ h => absurd h List.not_mem_nil, fun _ _ h => absurd h List.not_mem_nil⟩

theorem handled_finish (s : RecvState) (ret : ℤ) : handled (s.finish ret []).trace = [] := by
  unfold RecvState.finish
  rw [handled_append, handled_writes]
  rfl

theorem fpmBody_rejected (h : HeaderRead buf m sock s) (hacc : ¬ Accepted sock.bytes) :
    fpmBody o buf s = some (s.finish (-1) []) := by
  rw [h.accepted_iff, not_not] at hacc
  unfold fpmBody
  split_ifs with h1 h2 h3 h4
  · rfl
  · rfl
  · rfl
  · rfl
  · rcases hacc with hx | hx | hx | hx
    · exact absurd hx h1
    · exact absurd hx h2
    · exact absurd hx h3
    · exact absurd hx h4

theorem fpmBody_accepted (h : HeaderRead buf m sock s) (hacc : Accepted sock.bytes) :
    fpmBody o buf s = (recvLoop (fpmMsgLen · buf) buf (s.sock.bytes.length + 1) s).bind fun r =>
      if r.2 then
        (processNlmsg o (fpmMsgDataLen r.1.mem buf + 1) r.1.mem (buf + fpmMsgHdrLen)
          (fpmMsgDataLen r.1.mem buf)).2.map fun mem =>
            { r.1.finish r.1.n [.walk (fpmMsgDataLen r.1.mem buf)
                (processNlmsg o (fpmMsgDataLen r.1.mem buf + 1) r.1.mem (buf + fpmMsgHdrLen)
                  (fpmMsgDataLen r.1.mem buf)).1] with mem := mem }
      else some (r.1.finish r.1.n []) := by
  rw [h.accepted_iff, not_or, not_or, not_or] at hacc
  obtain ⟨hok, hversion, htype, hbig⟩ := hacc
  rw [fpmBody, if_neg hok, if_neg hversion, if_neg htype, if_neg hbig]

/-- The stream ends in the payload. -/
theorem fpmBody_short (h : HeaderRead buf m sock s) (hacc : Accepted sock.bytes)
    (hshort : sock.bytes.length < recordLen sock.bytes) :
    ∃ r, fpmBody o buf s = some r ∧ InBuffer buf r.trace ∧ FpmOutcome o sock r := by
  have hmax := hacc.2.2.2.1
  have h4 := h.enough
  obtain ⟨s', hrun, hn', hwrites'⟩ := recvLoop_short (Nat.lt_succ_self _) h.stable
    (by rw [h.bytes, h.l, List.length_drop]; omega)
  refine ⟨s'.finish s'.n [], ?_, ?_, .ended (Or.inr ⟨hacc, hshort⟩) (hn'.trans h.fin)
    (handled_finish s' s'.n)⟩
  · rw [fpmBody_accepted h hacc, hrun]
    rfl
  · refine (h.inBuffer (fun w hw => ?_)).append (inBuffer_nil buf)
    rcases hwrites' w hw with hw | hw
    · exact Or.inl hw
    · exact Or.inr (hw.trans hmax)

/-- A complete record. -/
theorem fpmBody_record (h : HeaderRead buf m sock s) (hacc : Accepted sock.bytes)
    (hlen : recordLen sock.bytes ≤ sock.bytes.length) :
    ∃ r, fpmBody o buf s = some r ∧ InBuffer buf r.trace ∧ FpmOutcome o sock r := by
  obtain ⟨-, -, hmin, hmax, hdvd⟩ := id hacc
  obtain ⟨s', hrun, hmem', hsock', hfin', -, hn', hwrites'⟩ :=
    recvLoop_enough (Nat.lt_succ_self _) h.stable (by rw [h.l]; exact hmin)
      (by rw [h.bytes, h.l, List.length_drop]; omega)
  rw [h.mem, h.bytes, h.l] at hmem'
  rw [h.bytes, h.l] at hsock'
  -- the payload is a multiple of 4 bytes, which the walk cannot leave
  have hlen' : fpmMsgDataLen s'.mem buf = recordLen sock.bytes - 4 := by
    have hhdr : fpmMsgLen s'.mem buf = recordLen sock.bytes := by
      refine h.stable s'.mem (fun x hx => ?_)
      rw [h.l] at hx
      rw [hmem', blit_of_lt _ _ hx, h.mem]
    rw [fpmMsgDataLen, hhdr, fpmMsgHdrLen, sizeSub_eq hmin (by omega)]
  have hcut : WellCut o s'.mem (buf + fpmMsgHdrLen) (recordLen sock.bytes - 4) :=
    wellCut_of_dvd o s'.mem _ (by omega) (by omega)
  obtain ⟨mem, hwalk⟩ := Option.isSome_iff_exists.mp
    (hcut.terminates (by omega) (Nat.lt_succ_self _))
  refine ⟨{ s'.finish s'.n [.walk (recordLen sock.bytes - 4) (processNlmsg o
      (recordLen sock.bytes - 4 + 1) s'.mem (buf + fpmMsgHdrLen) (recordLen sock.bytes - 4)).1] with
      mem := mem }, ?_, ?_, .record hlen hacc (hn' (Or.inl h.n)) ?_ ?_ (hfin'.trans h.fin)⟩
  · rw [fpmBody_accepted h hacc, hrun, Option.bind_some, hlen', hwalk]
    rfl
  · refine (h.inBuffer (fun w hw => ?_)).append ⟨fun off want hmem => ?_, fun len ev hmem => ?_⟩
    · rcases hwrites' w hw with hw | hw
      · exact Or.inl hw
      · exact Or.inr (hw.trans hmax)
    · exact nomatch List.mem_singleton.mp hmem
    · cases List.mem_singleton.mp hmem
      refine ⟨?_, hcut.walkSafe (by omega) _⟩
      unfold fpmMsgHdrLen fpmMaxMsgLen
      omega
  · unfold RecvState.finish
    dsimp only
    rw [handled_append, handled_writes, List.nil_append]
    have hroutes := routesOf_walk (o := o) (m := s'.mem) (p := buf + fpmMsgHdrLen)
      (Nat.dvd_sub hdvd (dvd_refl 4)) (by omega) (Nat.lt_succ_self (recordLen sock.bytes - 4))
    have hpayload : slice s'.mem (buf + fpmMsgHdrLen) (recordLen sock.bytes - 4)
        = (sock.bytes.take (recordLen sock.bytes)).drop 4 := by
      rw [hmem']
      exact payload_slice hmin hlen
    rw [hpayload] at hroutes
    exact (List.append_nil _).trans hroutes
  · show s'.sock.bytes = _
    rw [hsock', List.drop_drop, Nat.add_sub_cancel' hmin]

/-- **What one call comes to.** -/
theorem brokerProcessFpm_outcome (o : ByteOrder) (buf : ℕ) (m : Mem) (sock : Sock) :
    ∃ r, brokerProcessFpm o buf m sock = some r ∧ InBuffer buf r.trace ∧ FpmOutcome o sock r := by
  have hstable : Stable (fun _ => fpmMsgHdrLen) buf 0 4 m := fun _ _ => rfl
  by_cases h4 : sock.bytes.length < 4
  · obtain ⟨s', hrun, hn, hwrites⟩ :=
      recvLoop_short (s := ⟨m, sock, 0, 0, []⟩) (Nat.lt_succ_self _) hstable (by simpa using h4)
    refine ⟨s'.finish s'.n [], ?_, ?_, .ended (Or.inl h4) hn (handled_finish s' s'.n)⟩
    · rw [brokerProcessFpm, hrun]
      rfl
    · refine (inBuffer_writes (fun w hw => ?_)).append (inBuffer_nil buf)
      have hw4 := (hwrites w hw).resolve_left List.not_mem_nil
      unfold fpmMaxMsgLen
      omega
  · obtain ⟨s', hrun, hmem, hsock, hfin, hl, hn, hwrites⟩ :=
      recvLoop_enough (s := ⟨m, sock, 0, 0, []⟩) (Nat.lt_succ_self _) hstable (Nat.zero_le 4)
        (by simpa using h4)
    have hread : HeaderRead buf m sock s' :=
      ⟨not_lt.mp h4, hmem, hsock, hfin, hl, hn (Or.inr (Nat.succ_pos 3)),
        fun w hw => (hwrites w hw).resolve_left List.not_mem_nil⟩
    have hcall : brokerProcessFpm o buf m sock = fpmBody o buf s' := by
      rw [brokerProcessFpm, hrun]
      rfl
    rw [hcall]
    by_cases hacc : Accepted sock.bytes
    · by_cases hshort : sock.bytes.length < recordLen sock.bytes
      · exact fpmBody_short hread hacc hshort
      · exact fpmBody_record hread hacc (not_lt.mp hshort)
    · refine ⟨s'.finish (-1) [], fpmBody_rejected hread hacc, ?_,
        .rejected (not_lt.mp h4) hacc rfl (handled_finish s' (-1))⟩
      exact (hread.inBuffer (fun w hw => Or.inl hw)).append (inBuffer_nil buf)

end Call

/-! ## The stream -/

/-- The result with which the calls stop. -/
def Stop.ret (fin : ℤ) : Stop → ℤ
  | badHeader => -1
  | endOfStream => fin

/-- **FPM streams are decoded exactly, however they are cut.**  Calls of
`broker_process_fpm` until one returns a result that is not positive come to an end; they
pass on the route messages of the reference decoder, in order, and stop for its reason: with
`-1` at the first bad header, with the result of `recv` at the end of the stream.  No `recv`
writes outside of the buffer of `FPM_MAX_MSG_LEN` bytes, and every walk stays inside of a
payload that lies in it. -/
theorem fpm_stream_decoded (o : ByteOrder) (buf : ℕ) (m : Mem) (sock : Sock) :
    ∃ fuel ret trace, fpmCalls o buf fuel m sock = some (ret, trace) ∧ ret ≤ 0 ∧
      handled trace = (decodeStream o sock.bytes).1 ∧
      ret = (decodeStream o sock.bytes).2.ret sock.fin ∧
      (∀ off want, .recv off want ∈ trace → off + want ≤ fpmMaxMsgLen) ∧
      ∀ len ev, .walk len ev ∈ trace →
        fpmMsgHdrLen + len ≤ fpmMaxMsgLen ∧ WalkSafe (buf + fpmMsgHdrLen) len ev := by
  suffices h : ∃ fuel ret trace, fpmCalls o buf fuel m sock = some (ret, trace) ∧ ret ≤ 0 ∧
      handled trace = (decodeStream o sock.bytes).1 ∧
      ret = (decodeStream o sock.bytes).2.ret sock.fin ∧ InBuffer buf trace by
    obtain ⟨fuel, ret, trace, hcalls, hle, hhandled, hret, hin⟩ := h
    exact ⟨fuel, ret, trace, hcalls, hle, hhandled, hret, hin.recvs, hin.walks⟩
  -- by strong induction on the number of bytes left, of which each record takes some
  induction hlen : sock.bytes.length using Nat.strong_induction_on generalizing m sock with
  | h k ih =>
    obtain ⟨r, hcall, hin, hout⟩ := brokerProcessFpm_outcome o buf m sock
    have hlast : r.ret ≤ 0 → fpmCalls o buf 1 m sock = some (r.ret, r.trace) := by
      intro hle
      rw [fpmCalls, hcall, Option.bind_some, if_pos hle]
    cases hout with
    | ended hend hret hhandled =>
      have hstop : decodeStream o sock.bytes = ([], .endOfStream) := by
        rw [decodeStream]
        rcases hend with hshort | ⟨hacc, hshort⟩
        · rw [if_neg (by omega)]
        · by_cases h4 : 4 ≤ sock.bytes.length
          · rw [if_pos h4, dif_pos hacc, if_neg (by omega)]
          · rw [if_neg h4]
      have hle : r.ret ≤ 0 := hret ▸ sock.fin_le
      refine ⟨1, r.ret, r.trace, hlast hle, hle, ?_, ?_, hin⟩
      · rw [hstop]
        exact hhandled
      · rw [hstop]
        exact hret
    | rejected h4 hbad hret hhandled =>
      have hstop : decodeStream o sock.bytes = ([], .badHeader) := by
        rw [decodeStream, if_pos h4, dif_neg hbad]
      have hle : r.ret ≤ 0 := by omega
      refine ⟨1, r.ret, r.trace, hlast hle, hle, ?_, ?_, hin⟩
      · rw [hstop]
        exact hhandled
      · rw [hstop]
        exact hret
    | record hfit hacc hret hhandled hsock hfin =>
      have hmin := hacc.2.2.1
      have hstep : decodeStream o sock.bytes = (handled r.trace
          ++ (decodeStream o r.sock.bytes).1, (decodeStream o r.sock.bytes).2) := by
        rw [decodeStream, if_pos (by omega), dif_pos hacc, if_pos hfit, hhandled, hsock]
      have hless : r.sock.bytes.length < k := by
        rw [hsock, List.length_drop]
        omega
      obtain ⟨fuel, ret, trace, hcalls, hle, hrest, hret', hin'⟩ :=
        ih r.sock.bytes.length hless r.mem r.sock rfl
      refine ⟨fuel + 1, ret, r.trace ++ trace, ?_, hle, ?_, ?_, hin.append hin'⟩
      · rw [fpmCalls, hcall, Option.bind_some, if_neg (by omega), hcalls]
        rfl
      · rw [handled_append, hrest, hstep]
      · rw [hret', hstep, hfin]
