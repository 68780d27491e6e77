/-
# FPM records

The other end of the FPM connection, as `fpm.h` describes it.  A record is a header, with
the length of the whole record in network byte order, and a payload of netlink messages,
each of them padded so that the next one is aligned.  A record carries whole messages only
and is at most `FPM_MAX_MSG_LEN` bytes long, both by construction (`Nlmsg`, `FpmRecord`).

What is sent in such records is what the reference decoder yields (`decodeStream_records`),
and so is what the daemon publishes, however the stream is cut, and wherever it breaks off.

Main result: `fpm_records_published`.
-/
import RouteBroker.Daemon

/-- `fpm_data_len_to_msg_len` -/
def fpmDataLenToMsgLen (dataLen : ℕ) : ℕ := dataLen + fpmMsgHdrLen

/-- A netlink message with the right length in its header. -/
structure Nlmsg (o : ByteOrder) where
  bytes : List UInt8
  len : headLen o bytes = bytes.length
  long : nlmsgHdrlen ≤ bytes.length

/-- The message and its padding. -/
def Nlmsg.padded {o : ByteOrder} (msg : Nlmsg o) : List UInt8 :=
  msg.bytes ++ List.replicate (fpmMsgAlign msg.bytes.length - msg.bytes.length) 0

/-- The payload of a record. -/
def nlPayload {o : ByteOrder} (msgs : List (Nlmsg o)) : List UInt8 := msgs.flatMap Nlmsg.padded

/-- Messages that fit into a record. -/
structure FpmRecord (o : ByteOrder) where
  msgs : List (Nlmsg o)
  fits : fpmDataLenToMsgLen (nlPayload msgs).length ≤ fpmMaxMsgLen

namespace FpmRecord

variable {o : ByteOrder} (r : FpmRecord o)

/-- `fpm_msg_hdr_t` -/
def header : List UInt8 :=
  let len := ByteOrder.big.bytes16 (fpmDataLenToMsgLen (nlPayload r.msgs).length)
  [brokerFpmVersion, fpmMsgTypeNetlink, len.1, len.2]

def bytes : List UInt8 := r.header ++ nlPayload r.msgs

end FpmRecord

/-- The routes in the records, in order. -/
def fpmRoutes {o : ByteOrder} (rs : List (FpmRecord o)) : List (List UInt8) :=
  ((rs.flatMap FpmRecord.msgs).map Nlmsg.bytes).filter (isRoute o)

/-! ## The payload -/

section Payload

variable {o : ByteOrder}

theorem sameBytes_append (bs rest : List UInt8) :
    SameBytes bs.length (memOf bs) 0 (memOf (bs ++ rest)) 0 := by
  intro i hi
  unfold memOf
  rw [Nat.zero_add, List.getD_append _ _ _ _ hi]

theorem headLen_append {bs : List UInt8} (rest : List UInt8) (h : 4 ≤ bs.length) :
    headLen o (bs ++ rest) = headLen o bs :=
  (sameBytes_append bs rest).load32_eq o (k := 0) (by omega)

theorem Nlmsg.length_padded (msg : Nlmsg o) :
    msg.padded.length = (msg.bytes.length + 3) / 4 * 4 := by
  unfold Nlmsg.padded fpmMsgAlign
  rw [List.length_append, List.length_replicate]
  omega

theorem nlPayload_cons (msg : Nlmsg o) (msgs : List (Nlmsg o)) :
    nlPayload (msg :: msgs) = msg.padded ++ nlPayload msgs := List.flatMap_cons

theorem dvd_length_nlPayload (msgs : List (Nlmsg o)) : 4 ∣ (nlPayload msgs).length := by
  induction msgs with
  | nil => exact Nat.dvd_zero 4
  | cons msg msgs ih =>
    rw [nlPayload_cons, List.length_append, msg.length_padded]
    omega

/-- **A payload is cut into its messages.** -/
theorem cutMessages_nlPayload (msgs : List (Nlmsg o)) :
    cutMessages o (nlPayload msgs) = msgs.map Nlmsg.bytes := by
  induction msgs with
  | nil => exact cutMessages_stop (by simp [nlPayload])
  | cons msg msgs ih =>
    have hlong := msg.long
    unfold nlmsgHdrlen at hlong
    have hlen : headLen o (nlPayload (msg :: msgs)) = msg.bytes.length := by
      rw [nlPayload_cons, Nlmsg.padded, List.append_assoc, headLen_append _ (by omega), msg.len]
    have hfit : msg.bytes.length ≤ (nlPayload (msg :: msgs)).length := by
      rw [nlPayload_cons, List.length_append, msg.length_padded]
      omega
    rw [cutMessages_message _ (by omega) (by omega) (by omega), hlen, ← msg.length_padded,
      nlPayload_cons, List.drop_left, ih, List.map_cons, Nlmsg.padded, List.append_assoc,
      List.take_left]

end Payload

/-! ## The records -/

section Records

variable {o : ByteOrder} (r : FpmRecord o)

theorem FpmRecord.length_bytes :
    r.bytes.length = fpmDataLenToMsgLen (nlPayload r.msgs).length := by
  unfold FpmRecord.bytes fpmDataLenToMsgLen fpmMsgHdrLen
  rw [List.length_append, Nat.add_comm]
  rfl

/-- The header says how long the record is. -/
theorem recordLen_header (rest : List UInt8) : recordLen (r.header ++ rest) = r.bytes.length := by
  have hfits := r.fits
  unfold fpmMaxMsgLen at hfits
  rw [r.length_bytes]
  exact ByteOrder.big.u16_bytes16 (by omega)

theorem accepted_header (rest : List UInt8) : Accepted (r.header ++ rest) := by
  have hfits := r.fits
  have hdvd := dvd_length_nlPayload r.msgs
  unfold fpmMaxMsgLen fpmDataLenToMsgLen fpmMsgHdrLen at hfits
  refine ⟨rfl, rfl, ?_⟩
  rw [recordLen_header, r.length_bytes]
  unfold fpmDataLenToMsgLen fpmMsgHdrLen
  refine ⟨?_, ?_, ?_⟩
  · omega
  · omega
  · omega

/-- **A record is decoded to its routes.** -/
theorem decodeStream_record (rest : List UInt8) : decodeStream o (r.bytes ++ rest)
    = (fpmRoutes [r] ++ (decodeStream o rest).1, (decodeStream o rest).2) := by
  have hsplit : r.bytes ++ rest = r.header ++ (nlPayload r.msgs ++ rest) := List.append_assoc _ _ _
  have hlen : recordLen (r.bytes ++ rest) = r.bytes.length := by
    rw [hsplit]
    exact recordLen_header r _
  have hacc : Accepted (r.bytes ++ rest) := by
    rw [hsplit]
    exact accepted_header r _
  have hpayload : r.bytes.drop 4 = nlPayload r.msgs := rfl
  have hroutes : fpmRoutes [r] = (r.msgs.map Nlmsg.bytes).filter (isRoute o) := by
    unfold fpmRoutes
    rw [List.flatMap_singleton]
  have hlong : r.bytes.length ≤ (r.bytes ++ rest).length := by
    rw [List.length_append]
    omega
  have hmin := hacc.2.2.1
  rw [decodeStream, if_pos (by omega), dif_pos hacc, hlen, if_pos hlong, List.take_left,
    List.drop_left, hpayload, cutMessages_nlPayload, hroutes]

/-- A record that is cut off is left out. -/
theorem decodeStream_cutOff {part : List UInt8} (hpart : part <+: r.bytes)
    (hshort : part.length < r.bytes.length) : decodeStream o part = ([], .endOfStream) := by
  rw [decodeStream]
  by_cases h4 : 4 ≤ part.length
  · obtain ⟨rest, rfl⟩ : r.header <+: part :=
      List.prefix_of_prefix_length_le (List.prefix_append _ _) hpart h4
    rw [if_pos h4, dif_pos (accepted_header r rest), recordLen_header, if_neg (by omega)]
  · rw [if_neg h4]

/-- **A stream of records is decoded to their routes.** -/
theorem decodeStream_records (rs : List (FpmRecord o)) {part : List UInt8}
    (hpart : part <+: r.bytes) (hshort : part.length < r.bytes.length) :
    decodeStream o (rs.flatMap FpmRecord.bytes ++ part) = (fpmRoutes rs, .endOfStream) := by
  induction rs with
  | nil => exact decodeStream_cutOff r hpart hshort
  | cons r' rs ih =>
    have hcons : fpmRoutes (r' :: rs) = fpmRoutes [r'] ++ fpmRoutes rs := by
      unfold fpmRoutes
      rw [← List.filter_append, ← List.map_append, ← List.flatMap_append]
      rfl
    rw [List.flatMap_cons, List.append_assoc, decodeStream_record, ih, hcons]

end Records

/-- **What is sent in records is published, once and in order.**  Let the FPM send records and
then perhaps a part of another one, cut in any way, with any datagrams in between and any
results of `poll`.  Whenever the loop of `main` has come to a state, what it has published from the
FPM is a prefix of the live forms of the routes in the records.  When it ends for the sake
of the FPM it has published all of them, and nothing of the last record; and it reports an error
only if `recv` does. -/
theorem fpm_records_published {o : ByteOrder} {nlBuf fpmBuf : ℕ}
    {pub : List (List UInt8 × Level)} {m : Mem} {nl : List (Option (List UInt8))} {fpm : Sock}
    {s : Daemon} {rs : List (FpmRecord o)} {r : FpmRecord o} {part : List UInt8}
    (hbytes : fpm.bytes = rs.flatMap FpmRecord.bytes ++ part) (hpart : part <+: r.bytes)
    (hshort : part.length < r.bytes.length) {polls : List (Option (ℕ × ℕ))}
    (hexec : (daemonSystem o nlBuf fpmBuf (.start pub m nl fpm)).exec (.start pub m nl fpm) polls
      = some s) :
    publishedFrom .fpm s.log <+: (fpmRoutes rs).filterMap (liveForm o) ∧
    (s.exit = some .fpmClosed →
      publishedFrom .fpm s.log = (fpmRoutes rs).filterMap (liveForm o) ∧ fpm.fin = 0) ∧
    (s.exit = some .fpmFailed →
      publishedFrom .fpm s.log = (fpmRoutes rs).filterMap (liveForm o) ∧ fpm.fin < 0) := by
  have hdec := decodeStream_records r rs hpart hshort
  rw [← hbytes] at hdec
  have hforms : fpmForms o fpm.bytes = (fpmRoutes rs).filterMap (liveForm o) := by
    unfold fpmForms
    rw [hdec]
  have hstop : (decodeStream o fpm.bytes).2.ret fpm.fin = fpm.fin := by
    rw [hdec]
    rfl
  have hfpm := (loopInv_exec hexec).fpm
  unfold FpmProgress at hfpm
  rw [hforms, hstop] at hfpm
  -- before the stream is over, the rest of it has the rest of the routes
  have hgoing : ∀ {rest : List (List UInt8 × Level)} {P : Prop},
      publishedFrom .fpm s.log ++ rest = (fpmRoutes rs).filterMap (liveForm o) ∧ P →
      publishedFrom .fpm s.log <+: (fpmRoutes rs).filterMap (liveForm o) :=
    fun h => ⟨_, h.1⟩
  cases hexit : s.exit with
  | none =>
    rw [hexit] at hfpm
    exact ⟨hgoing hfpm, fun h => absurd h (by decide), fun h => absurd h (by decide)⟩
  | some e =>
    rw [hexit] at hfpm
    cases e with
    | fpmFailed =>
      refine ⟨?_, fun h => absurd h (by decide), fun _ => hfpm⟩
      rw [hfpm.1]
    | fpmClosed =>
      refine ⟨?_, fun _ => hfpm, fun h => absurd h (by decide)⟩
      rw [hfpm.1]
    | _ => exact ⟨hgoing hfpm, fun h => absurd h (by decide), fun h => absurd h (by decide)⟩

/-- A record of one route. -/
def defaultRecord : FpmRecord .little where
  msgs := [⟨defaultRoute 0, by decide, by decide⟩]
  fits := by decide

/-- A stream of it that breaks off in the next header, in three pieces. -/
def brokenOff : Sock :=
  { oneRecord with
    chunks := [[1, 1, 0], 32 :: defaultRoute 0, [1, 1]]
    nonempty := by decide }

/-- The theorem at a run that receives all of it. -/
theorem fpm_records_published_broken :
    ∃ s, (daemonSystem .little 0 8192 (.start [] (fun _ => 0) [] brokenOff)).exec
        (.start [] (fun _ => 0) [] brokenOff) [some (0, 1), some (0, 1)] = some s ∧
      publishedFrom .fpm s.log = [defaultRoute 0].filterMap (liveForm .little) := by
  obtain ⟨s, hexec, hp⟩ := (daemonSystem .little 0 8192
    (.start [] (fun _ => 0) [] brokenOff)).exists_of_exec_any (.start [] (fun _ => 0) [] brokenOff)
    [some (0, 1), some (0, 1)] (fun s => decide (s.exit = some .fpmClosed)) (by decide +kernel)
  rw [decide_eq_true_eq] at hp
  have hpart : [1, 1] <+: defaultRecord.bytes := by decide
  have hbytes : brokenOff.bytes = [defaultRecord].flatMap FpmRecord.bytes ++ [1, 1] := by decide
  have hall := fpm_records_published hbytes hpart (by decide) hexec
  exact ⟨s, hexec, (hall.2.1 hp).1⟩
