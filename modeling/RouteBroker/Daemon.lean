/-
# The daemon

`main` of `broker_main.c`.  It dumps the routes of the kernel, and then polls the netlink
socket and the FPM connection, in this order in each round, until one of them fails or is
closed.  `broker_process_nl` and `broker_process_fpm` publish as they go.

What the sockets and libmnl deliver is input: the results of `poll`, of `recv` on the
netlink socket and of `mnl_cb_run`, and the stream of the FPM.  A round has no successor if
it does not come to an end, or waits for a datagram that never comes.

The log says what was published, from where, and when `route_broker_shutdown_all` was
called.

Main result: `main_publishes`.
-/
import RouteBroker.System
import RouteBroker.Publish

/-! ## The dump -/

/-- What `mnl_socket_recvfrom` and `mnl_cb_run` come to. -/
inductive DumpRecv
  /-- `mnl_socket_recvfrom` fails -/
  | error
  /-- `mnl_cb_run` passes these messages to `dump_route`, and returns `ret` -/
  | datagram (msgs : List (List UInt8)) (ret : ℤ)

/-- How a dump ends. -/
inductive DumpEnd
  /-- with these results left -/
  | done (rest : List DumpRecv)
  /-- `exit(1)` -/
  | exit
  /-- not at all, for want of a datagram -/
  | waiting

/-- The loop of `dump_af_routes`: what is published, and how it ends. -/
def dumpAfLoop (o : ByteOrder) : List DumpRecv → List (List UInt8 × Level) × DumpEnd
  | [] => ([], .waiting)
  | .error :: _ => ([], .exit)
  | .datagram msgs ret :: rest =>
    -- MNL_CB_STOP
    if ret ≤ 0 then (msgs.filterMap (dumpForm o), .done rest)
    else
      let r := dumpAfLoop o rest
      (msgs.filterMap (dumpForm o) ++ r.1, r.2)

/-- `dump_af_routes`, with `sent` for the success of `mnl_socket_sendto`. -/
def dumpAfRoutes (o : ByteOrder) (sent : Bool) (rs : List DumpRecv) :
    List (List UInt8 × Level) × DumpEnd :=
  if sent then dumpAfLoop o rs else ([], .exit)

/-- What the dump gets from libmnl. -/
structure DumpInput where
  /-- `mnl_socket_open` succeeds -/
  opened : Bool
  /-- the requests for `AF_INET` and `AF_INET6` can be sent -/
  sentInet : Bool
  sentInet6 : Bool
  recvs : List DumpRecv

/-- `broker_dump_routes` -/
def brokerDumpRoutes (o : ByteOrder) (d : DumpInput) : List (List UInt8 × Level) × DumpEnd :=
  if d.opened then
    match dumpAfRoutes o d.sentInet d.recvs with
    | (pub, .done rest) =>
      let r := dumpAfRoutes o d.sentInet6 rest
      (pub ++ r.1, r.2)
    | r => r
  else ([], .exit)

/-! ## The loop of `main` -/

/-- Where a message was received. -/
inductive Source
  | dump
  | nl
  | fpm
  deriving DecidableEq

inductive MainEvent
  /-- `route_broker_publish(nlh, pri)` -/
  | publish (src : Source) (msg : List UInt8) (pri : Level)
  /-- `route_broker_shutdown_all()` -/
  | shutdownAll
  deriving DecidableEq

/-- Why `main` ends. -/
inductive MainExit
  /-- "poll" -/
  | pollFailed
  /-- "Bad NL event" -/
  | badNlEvent
  /-- "NL recv" -/
  | nlFailed
  /-- "NL connection closed" -/
  | nlClosed
  /-- "Bad FPM event" -/
  | badFpmEvent
  | fpmFailed
  /-- "FPM connection closed" -/
  | fpmClosed
  deriving DecidableEq

/-- What `main` passes to `exit` or returns. -/
def MainExit.code : MainExit → ℕ
  | .nlClosed | .fpmClosed => 0
  | .pollFailed | .badNlEvent | .nlFailed | .badFpmEvent | .fpmFailed => 1

/-- The main thread. -/
structure Daemon where
  mem : Mem
  /-- the results of `recv` on the netlink socket: a datagram or an error -/
  nl : List (Option (List UInt8))
  fpm : Sock
  log : List MainEvent
  exit : Option MainExit

/-- `POLLIN` -/
def pollin : ℕ := 1

/-- What the walks of a call of `broker_process_fpm` publish. -/
def publishedByFpm (trace : List FpmEvent) : List (List UInt8 × Level) :=
  trace.flatMap fun e => match e with
    | .walk _ ev => publishedOf ev
    | .recv _ _ => []

namespace Daemon

variable (s : Daemon)

/-- Add to the log what was published. -/
def publish (src : Source) (pub : List (List UInt8 × Level)) : Daemon :=
  { s with log := s.log ++ pub.map fun p => .publish src p.1 p.2 }

/-- `route_broker_shutdown_all()`, and `exit` or the end of the loop. -/
def quit (e : MainExit) : Daemon :=
  { s with log := s.log ++ [.shutdownAll], exit := some e }

/-- `n = broker_process_nl(nl)` and what follows from `n`, with the buffer at `buf`. -/
def processNl (o : ByteOrder) (buf : ℕ) : Option Daemon :=
  match s.nl with
  | [] => none
  | none :: nl => some ({ s with nl := nl }.quit .nlFailed)
  | some datagram :: nl =>
    let got := datagram.take bufsiz
    if got.length = 0 then some ({ s with nl := nl }.quit .nlClosed)
    else
      let w := brokerProcessNl o (got.length + 1) s.mem buf got
      w.2.map fun mem => { s with mem := mem, nl := nl }.publish .nl (publishedOf w.1)

/-- `n = broker_process_fpm(fpm)` and what follows from `n`, with the buffer at `buf`. -/
def processFpm (o : ByteOrder) (buf : ℕ) : Option Daemon :=
  (brokerProcessFpm o buf s.mem s.fpm).map fun r =>
    let s := { s with mem := r.mem, fpm := r.sock }.publish .fpm (publishedByFpm r.trace)
    if r.ret < 0 then s.quit .fpmFailed
    else if r.ret = 0 then s.quit .fpmClosed
    else s

/-- Netlink from kernel -/
def nlPart (o : ByteOrder) (buf revents : ℕ) : Option Daemon :=
  if revents = 0 then some s
  else if revents ≠ pollin then some (s.quit .badNlEvent)
  else s.processNl o buf

/-- FPM from zebra -/
def fpmPart (o : ByteOrder) (buf revents : ℕ) : Option Daemon :=
  if revents = 0 then some s
  else if revents ≠ pollin then some (s.quit .badFpmEvent)
  else s.processFpm o buf

/-- A round of the loop, after `poll` has failed or set the `revents` of the sockets. -/
def round (o : ByteOrder) (nlBuf fpmBuf : ℕ) : Option (ℕ × ℕ) → Option Daemon
  | none => if s.exit.isSome then none else some (s.quit .pollFailed)
  | some (nl, fpm) =>
    if s.exit.isSome then none
    else (s.nlPart o nlBuf nl).bind fun s =>
      if s.exit.isSome then some s else s.fpmPart o fpmBuf fpm

/-- `main` when it enters its loop, after the dump has published `pub`. -/
def start (pub : List (List UInt8 × Level)) (m : Mem) (nl : List (Option (List UInt8)))
    (fpm : Sock) : Daemon :=
  Daemon.publish ⟨m, nl, fpm, [], none⟩ .dump pub

end Daemon

/-- The loop of `main`, for all results of `poll`. -/
def daemonSystem (o : ByteOrder) (nlBuf fpmBuf : ℕ) (init : Daemon) :
    System Daemon (Option (ℕ × ℕ)) where
  init := init
  step := fun s p => s.round o nlBuf fpmBuf p

/-! ## What the dump publishes -/

namespace DumpRecv

/-- The messages that are passed to `dump_route`. -/
def msgs : DumpRecv → List (List UInt8)
  | .error => []
  | .datagram msgs _ => msgs

/-- `mnl_cb_run` says that it was the last one. -/
def stops : DumpRecv → Bool
  | .error => false
  | .datagram _ ret => ret ≤ 0

end DumpRecv

section Dump

variable {o : ByteOrder} {rs rest : List DumpRecv} {pub : List (List UInt8 × Level)}

/-- A dump that ends well has used the results up to the first one that stops it. -/
theorem dumpAfLoop_done (h : dumpAfLoop o rs = (pub, .done rest)) :
    ∃ used last, rs = used ++ last :: rest ∧ (∀ r ∈ used, r.stops = false) ∧
      last.stops = true ∧ pub = ((used ++ [last]).flatMap DumpRecv.msgs).filterMap (dumpForm o) := by
  induction rs generalizing pub with
  | nil => cases h
  | cons r rs ih =>
    cases r with
    | error => cases h
    | datagram msgs ret =>
      rw [dumpAfLoop] at h
      split_ifs at h with hret
      · cases h
        refine ⟨[], .datagram msgs ret, rfl, fun _ hr => absurd hr List.not_mem_nil,
          decide_eq_true hret, ?_⟩
        rw [List.nil_append, List.flatMap_singleton]
        rfl
      · cases hloop : dumpAfLoop o rs with
        | mk pub' end' =>
        rw [hloop] at h
        cases h
        obtain ⟨used, last, rfl, hused, hlast, rfl⟩ := ih hloop
        refine ⟨.datagram msgs ret :: used, last, rfl, ?_, hlast, ?_⟩
        · rintro r hr
          rcases List.mem_cons.mp hr with rfl | hr
          · exact decide_eq_false hret
          · exact hused r hr
        · rw [List.cons_append, List.flatMap_cons, List.filterMap_append]
          rfl

/-- **The dump publishes the dump forms of all messages of the two dumps, in order.** -/
theorem brokerDumpRoutes_done {d : DumpInput} (h : brokerDumpRoutes o d = (pub, .done rest)) :
    ∃ used, d.recvs = used ++ rest ∧ used.countP DumpRecv.stops = 2 ∧
      pub = (used.flatMap DumpRecv.msgs).filterMap (dumpForm o) := by
  have hloop : ∀ {sent : Bool} {rs : List DumpRecv} {pub : List (List UInt8 × Level)}
      {rest : List DumpRecv}, dumpAfRoutes o sent rs = (pub, .done rest) →
      ∃ used, rs = used ++ rest ∧ used.countP DumpRecv.stops = 1 ∧
        pub = (used.flatMap DumpRecv.msgs).filterMap (dumpForm o) := by
    intro sent rs pub rest hdump
    cases sent with
    | false => cases hdump
    | true =>
      obtain ⟨used, last, rfl, hused, hlast, rfl⟩ := dumpAfLoop_done hdump
      refine ⟨used ++ [last], by simp, ?_, rfl⟩
      rw [List.countP_append, List.countP_singleton, if_pos hlast, List.countP_eq_zero.mpr]
      intro r hr
      rw [hused r hr]
      exact Bool.false_ne_true
  unfold brokerDumpRoutes at h
  split_ifs at h with hopen
  · cases hfirst : dumpAfRoutes o d.sentInet d.recvs with
    | mk pub₁ end₁ =>
      rw [hfirst] at h
      cases end₁ with
      | done rest₁ =>
        cases hsecond : dumpAfRoutes o d.sentInet6 rest₁ with
        | mk pub₂ end₂ =>
        dsimp only at h
        rw [hsecond] at h
        cases h
        obtain ⟨used₁, hrecvs, hcount₁, rfl⟩ := hloop hfirst
        obtain ⟨used₂, rfl, hcount₂, rfl⟩ := hloop hsecond
        refine ⟨used₁ ++ used₂, ?_, ?_, ?_⟩
        · rw [hrecvs, List.append_assoc]
        · rw [List.countP_append, hcount₁, hcount₂]
        · rw [List.flatMap_append, List.filterMap_append]
      | exit => cases h
      | waiting => cases h
  · cases h

end Dump

/-! ## What the loop publishes -/

/-- What was published of the messages from `src`, in order. -/
def publishedFrom (src : Source) (log : List MainEvent) : List (List UInt8 × Level) :=
  log.filterMap fun
    | .publish s msg pri => if s = src then some (msg, pri) else none
    | .shutdownAll => none

/-- The live forms of the routes in a datagram, as far as it fits into the buffer. -/
def nlForms (o : ByteOrder) : Option (List UInt8) → List (List UInt8 × Level)
  | none => []
  | some datagram =>
    ((cutMessages o (datagram.take bufsiz)).filter (isRoute o)).filterMap (liveForm o)

/-- The live forms of the routes in the stream of the FPM. -/
def fpmForms (o : ByteOrder) (bytes : List UInt8) : List (List UInt8 × Level) :=
  (decodeStream o bytes).1.filterMap (liveForm o)

@[simp] theorem publishedFrom_append (src : Source) (l m : List MainEvent) :
    publishedFrom src (l ++ m) = publishedFrom src l ++ publishedFrom src m :=
  List.filterMap_append

theorem publishedFrom_map (src src' : Source) (pub : List (List UInt8 × Level)) :
    publishedFrom src' (pub.map fun p => .publish src p.1 p.2) = if src = src' then pub else [] := by
  unfold publishedFrom
  rw [List.filterMap_map]
  split_ifs with h
  · have hall : ((fun e : MainEvent => match e with
        | .publish s msg pri => if s = src' then some (msg, pri) else none
        | .shutdownAll => none) ∘ fun p : List UInt8 × Level => .publish src p.1 p.2)
        = some := by
      funext p
      exact if_pos h
    rw [hall, List.filterMap_some]
  · rw [List.filterMap_eq_nil_iff]
    intro p _
    exact if_neg h

section Parts

variable {o : ByteOrder} {buf : ℕ}

/-- The walks of a call publish the live forms of what they pass on. -/
theorem publishedByFpm_eq {trace : List FpmEvent} (h : ∀ len ev, .walk len ev ∈ trace →
      publishedOf ev = (routesOf ev).filterMap (liveForm o)) :
    publishedByFpm trace = (handled trace).filterMap (liveForm o) := by
  unfold publishedByFpm handled
  rw [List.filterMap_flatMap]
  apply List.flatMap_congr
  intro e he
  cases e with
  | recv off want => rfl
  | walk len ev => exact h len ev he

/-- The only walk of a call is the one of `process_nlmsg`. -/
theorem walk_of_finish {s : RecvState} {r : ℤ} {walks : List FpmEvent} {len : ℕ}
    {ev : List NlEvent} (h : .walk len ev ∈ (s.finish r walks).trace) :
    .walk len ev ∈ walks := by
  rcases List.mem_append.mp h with h | h
  · obtain ⟨w, -, hw⟩ := List.mem_map.mp h
    cases hw
  · exact h

theorem walk_of_fpmBody {s : RecvState} {r : FpmCall} (h : fpmBody o buf s = some r) {len : ℕ}
    {ev : List NlEvent} (hwalk : .walk len ev ∈ r.trace) :
    ∃ fuel m p n, ev = (processNlmsg o fuel m p n).1 := by
  have hnone : ∀ (s : RecvState) ret, some (s.finish ret []) = some r → False := by
    intro s ret he
    cases he
    exact absurd (walk_of_finish hwalk) List.not_mem_nil
  unfold fpmBody at h
  split_ifs at h
  · exact absurd h (fun he => hnone _ _ he)
  · exact absurd h (fun he => hnone _ _ he)
  · exact absurd h (fun he => hnone _ _ he)
  · exact absurd h (fun he => hnone _ _ he)
  · obtain ⟨q, -, hq⟩ := Option.bind_eq_some_iff.mp h
    split_ifs at hq
    · obtain ⟨mem, -, rfl⟩ := Option.map_eq_some_iff.mp hq
      have heq := List.mem_singleton.mp (walk_of_finish (r := q.1.n) hwalk)
      exact ⟨_, _, _, _, (FpmEvent.walk.inj heq).2⟩
    · exact absurd hq (fun he => hnone _ _ he)

theorem published_brokerProcessFpm {m : Mem} {sock : Sock} {r : FpmCall}
    (h : brokerProcessFpm o buf m sock = some r) :
    publishedByFpm r.trace = (handled r.trace).filterMap (liveForm o) := by
  apply publishedByFpm_eq
  intro len ev hwalk
  obtain ⟨q, -, hq⟩ := Option.bind_eq_some_iff.mp h
  split_ifs at hq
  · obtain ⟨fuel, m', p, n, rfl⟩ := walk_of_fpmBody hq hwalk
    exact publishedOf_walk o fuel m' p n
  · cases hq
    exact absurd (walk_of_finish hwalk) List.not_mem_nil

/-- One call against the reference decoder: it handles a record and leaves the rest of the
stream, or it is the last one. -/
theorem FpmOutcome.decoded {sock : Sock} {r : FpmCall} (h : FpmOutcome o sock r) :
    (0 < r.ret ∧ r.sock.fin = sock.fin ∧ decodeStream o sock.bytes = (handled r.trace
      ++ (decodeStream o r.sock.bytes).1, (decodeStream o r.sock.bytes).2)) ∨
    (r.ret ≤ 0 ∧ r.ret = (decodeStream o sock.bytes).2.ret sock.fin ∧
      (decodeStream o sock.bytes).1 = [] ∧ handled r.trace = []) := by
  cases h with
  | ended hend hret hhandled =>
    right
    have hstop : decodeStream o sock.bytes = ([], .endOfStream) := by
      rw [decodeStream]
      rcases hend with hshort | ⟨hacc, hshort⟩
      · rw [if_neg (by omega)]
      · by_cases h4 : 4 ≤ sock.bytes.length
        · rw [if_pos h4, dif_pos hacc, if_neg (by omega)]
        · rw [if_neg h4]
    rw [hstop]
    exact ⟨hret ▸ sock.fin_le, hret, rfl, hhandled⟩
  | rejected h4 hbad hret hhandled =>
    right
    have hstop : decodeStream o sock.bytes = ([], .badHeader) := by
      rw [decodeStream, if_pos h4, dif_neg hbad]
    rw [hstop]
    exact ⟨by omega, hret, rfl, hhandled⟩
  | record hfit hacc hret hhandled hsock hfin =>
    left
    have hmin := hacc.2.2.1
    refine ⟨hret, hfin, ?_⟩
    rw [decodeStream, if_pos (by omega), dif_pos hacc, if_pos hfit, hhandled, hsock]

/-- A walk over a well cut datagram ends, and publishes its routes. -/
theorem brokerProcessNl_forms (buf : ℕ) (m : Mem) {datagram : List UInt8}
    (hcut : WellCut o (memOf (datagram.take bufsiz)) 0 (datagram.take bufsiz).length) :
    let got := datagram.take bufsiz
    (brokerProcessNl o (got.length + 1) m buf got).2.isSome = true ∧
      publishedOf (brokerProcessNl o (got.length + 1) m buf got).1 = nlForms o (some datagram) := by
  intro got
  have hshort : got.length ≤ bufsiz := List.length_take_le _ _
  unfold bufsiz at hshort
  have hcut' : WellCut o (blit m buf got) buf got.length := hcut.transfer (sameBytes_blit m buf got)
  constructor
  · exact hcut'.terminates (by omega) (Nat.lt_succ_self _)
  · unfold brokerProcessNl
    rw [publishedOf_walk, hcut'.routesOf_walk (by omega) (Nat.lt_succ_self _), slice_blit]
    rfl

end Parts

/-! ## Runs -/

/-- How far the stream of the FPM has got: all of it is published when the loop ends for its
sake, and before that what is published and what is left make up the whole. -/
def FpmProgress (o : ByteOrder) (fpm : Sock) (s : Daemon) : Prop :=
  match s.exit with
  | some .fpmFailed => publishedFrom .fpm s.log = fpmForms o fpm.bytes ∧
      (decodeStream o fpm.bytes).2.ret fpm.fin < 0
  | some .fpmClosed => publishedFrom .fpm s.log = fpmForms o fpm.bytes ∧
      (decodeStream o fpm.bytes).2.ret fpm.fin = 0
  | _ => publishedFrom .fpm s.log ++ fpmForms o s.fpm.bytes = fpmForms o fpm.bytes ∧
      (decodeStream o s.fpm.bytes).2.ret s.fpm.fin = (decodeStream o fpm.bytes).2.ret fpm.fin

/-- `route_broker_shutdown_all` has been called when the loop has ended, once, and nothing
happens afterwards. -/
def ShutDown (s : Daemon) : Prop :=
  match s.exit with
  | none => .shutdownAll ∉ s.log
  | some _ => ∃ l, s.log = l ++ [.shutdownAll] ∧ .shutdownAll ∉ l

/-- What is known in the loop whatever the datagrams are, with `fpm` to be received. -/
structure LoopInv (o : ByteOrder) (pub : List (List UInt8 × Level)) (fpm : Sock) (s : Daemon) :
    Prop where
  dump : publishedFrom .dump s.log = pub
  fpm : FpmProgress o fpm s
  shutdown : ShutDown s

/-- How far the datagrams `nl` have got: those that were received are published. -/
def NlProgress (o : ByteOrder) (nl : List (Option (List UInt8))) (s : Daemon) : Prop :=
  ∃ k, s.nl = nl.drop k ∧ publishedFrom .nl s.log = (nl.take k).flatMap (nlForms o)

/-- What is known in the loop, with `nl` and `fpm` to be received. -/
structure MainInv (o : ByteOrder) (pub : List (List UInt8 × Level))
    (nl : List (Option (List UInt8))) (fpm : Sock) (s : Daemon) : Prop extends
    LoopInv o pub fpm s where
  nl : NlProgress o nl s

/-- The datagram is well cut, as far as it fits into the buffer. -/
def DatagramCut (o : ByteOrder) (datagram : List UInt8) : Prop :=
  WellCut o (memOf (datagram.take bufsiz)) 0 (datagram.take bufsiz).length

section Loop

variable {o : ByteOrder} {nlBuf fpmBuf : ℕ} {pub : List (List UInt8 × Level)} {m : Mem}
  {nl : List (Option (List UInt8))} {fpm : Sock} {s t : Daemon}

theorem loopInv_start (o : ByteOrder) (pub : List (List UInt8 × Level)) (m : Mem)
    (nl : List (Option (List UInt8))) (fpm : Sock) : LoopInv o pub fpm (.start pub m nl fpm) where
  dump := publishedFrom_map .dump .dump pub
  fpm := by
    refine ⟨?_, rfl⟩
    show publishedFrom .fpm (pub.map _) ++ _ = _
    rw [publishedFrom_map .dump .fpm pub]
    rfl
  shutdown := by
    intro h
    obtain ⟨p, -, hp⟩ := List.mem_map.mp h
    cases hp

theorem nlProgress_start (o : ByteOrder) (pub : List (List UInt8 × Level)) (m : Mem)
    (nl : List (Option (List UInt8))) (fpm : Sock) : NlProgress o nl (.start pub m nl fpm) :=
  ⟨0, rfl, publishedFrom_map .dump .nl pub⟩

theorem fpmProgress_iff (hrun : s.exit = none) : FpmProgress o fpm s ↔
    publishedFrom .fpm s.log ++ fpmForms o s.fpm.bytes = fpmForms o fpm.bytes ∧
      (decodeStream o s.fpm.bytes).2.ret s.fpm.fin = (decodeStream o fpm.bytes).2.ret fpm.fin := by
  unfold FpmProgress
  rw [hrun]

theorem shutDown_iff (hrun : s.exit = none) : ShutDown s ↔ .shutdownAll ∉ s.log := by
  unfold ShutDown
  rw [hrun]

/-- Messages from `src` are published. -/
theorem publishedFrom_publish (s : Daemon) (src src' : Source)
    (new : List (List UInt8 × Level)) : publishedFrom src' (s.publish src new).log
      = publishedFrom src' s.log ++ if src = src' then new else [] := by
  show publishedFrom src' (s.log ++ new.map _) = _
  rw [publishedFrom_append, publishedFrom_map]

/-- The end publishes nothing. -/
theorem publishedFrom_quit (s : Daemon) (e : MainExit) (src : Source) :
    publishedFrom src (s.quit e).log = publishedFrom src s.log := by
  show publishedFrom src (s.log ++ [.shutdownAll]) = _
  rw [publishedFrom_append]
  exact List.append_nil _

@[simp] theorem publish_exit (s : Daemon) (src : Source) (new : List (List UInt8 × Level)) :
    (s.publish src new).exit = s.exit := rfl

theorem ShutDown.publish (h : ShutDown s) (hrun : s.exit = none) (src : Source)
    (new : List (List UInt8 × Level)) : ShutDown (s.publish src new) := by
  rw [shutDown_iff hrun] at h
  rw [shutDown_iff (by rw [publish_exit, hrun])]
  intro hin
  rcases List.mem_append.mp hin with hin | hin
  · exact h hin
  · obtain ⟨p, -, hp⟩ := List.mem_map.mp hin
    cases hp

/-- **What holds in the loop.**  What the calls of `broker_process_nl` and `broker_process_fpm`
keep, and the ends that have nothing to do with the FPM, every round keeps. -/
theorem round_rule {P : Daemon → Prop}
    (hquit : ∀ s e, e ≠ .fpmFailed → e ≠ .fpmClosed → s.exit = none → P s → P (s.quit e))
    (hnl : ∀ s t, s.exit = none → s.processNl o nlBuf = some t → P s → P t)
    (hfpm : ∀ s t, s.exit = none → s.processFpm o fpmBuf = some t → P s → P t)
    {p : Option (ℕ × ℕ)} (hstep : s.round o nlBuf fpmBuf p = some t) (h : P s) : P t := by
  cases p with
  | none =>
    rw [Daemon.round] at hstep
    split_ifs at hstep with hexit
    cases hstep
    rw [Option.not_isSome_iff_eq_none] at hexit
    exact hquit s _ (by decide) (by decide) hexit h
  | some evs =>
    rw [Daemon.round] at hstep
    split_ifs at hstep with hexit
    rw [Option.not_isSome_iff_eq_none] at hexit
    obtain ⟨u, hu, hrest⟩ := Option.bind_eq_some_iff.mp hstep
    have hu' : P u := by
      unfold Daemon.nlPart at hu
      split_ifs at hu
      · cases hu
        exact h
      · cases hu
        exact hquit s _ (by decide) (by decide) hexit h
      · exact hnl s u hexit hu h
    split_ifs at hrest with hend
    · cases hrest
      exact hu'
    · rw [Option.not_isSome_iff_eq_none] at hend
      unfold Daemon.fpmPart at hrest
      split_ifs at hrest
      · cases hrest
        exact hu'
      · cases hrest
        exact hquit u _ (by decide) (by decide) hend hu'
      · exact hfpm u t hend hrest hu'

/-! ### The FPM and the end -/

/-- The end of the loop for another reason than the FPM. -/
theorem LoopInv.quit (h : LoopInv o pub fpm s) (hrun : s.exit = none) {e : MainExit}
    (hfailed : e ≠ .fpmFailed) (hclosed : e ≠ .fpmClosed) : LoopInv o pub fpm (s.quit e) := by
  have hfpm := (fpmProgress_iff hrun).mp h.fpm
  refine ⟨(publishedFrom_quit s e .dump).trans h.dump, ?_, s.log, rfl,
    (shutDown_iff hrun).mp h.shutdown⟩
  unfold FpmProgress
  rw [publishedFrom_quit]
  cases e with
  | fpmFailed => exact absurd rfl hfailed
  | fpmClosed => exact absurd rfl hclosed
  | _ => exact hfpm

/-- Whatever the netlink socket publishes, the FPM is where it was. -/
theorem LoopInv.publishNl (h : LoopInv o pub fpm s) (hrun : s.exit = none)
    (new : List (List UInt8 × Level)) : LoopInv o pub fpm (s.publish .nl new) := by
  refine ⟨?_, ?_, h.shutdown.publish hrun .nl new⟩
  · rw [publishedFrom_publish, if_neg (by decide), List.append_nil]
    exact h.dump
  · have hfpm := h.fpm
    unfold FpmProgress at hfpm ⊢
    rw [publishedFrom_publish, if_neg (by decide), List.append_nil]
    exact hfpm

theorem LoopInv.processNl (h : LoopInv o pub fpm s) (hrun : s.exit = none)
    (hstep : s.processNl o nlBuf = some t) : LoopInv o pub fpm t := by
  unfold Daemon.processNl at hstep
  have hrest : ∀ (rest : List (Option (List UInt8))) (mem : Mem),
      LoopInv o pub fpm { s with mem := mem, nl := rest } :=
    fun _ _ => ⟨h.dump, h.fpm, h.shutdown⟩
  cases hnl : s.nl with
  | nil =>
    rw [hnl] at hstep
    cases hstep
  | cons r rest =>
    rw [hnl] at hstep
    cases r with
    | none =>
      cases hstep
      exact (hrest rest s.mem).quit hrun (by decide) (by decide)
    | some datagram =>
      dsimp only at hstep
      split_ifs at hstep
      · cases hstep
        exact (hrest rest s.mem).quit hrun (by decide) (by decide)
      · obtain ⟨mem, -, rfl⟩ := Option.map_eq_some_iff.mp hstep
        exact (hrest rest mem).publishNl hrun _

theorem LoopInv.processFpm (h : LoopInv o pub fpm s) (hrun : s.exit = none)
    (hstep : s.processFpm o fpmBuf = some t) : LoopInv o pub fpm t := by
  obtain ⟨r, hr, rfl⟩ := Option.map_eq_some_iff.mp hstep
  obtain ⟨r', hr', -, hout⟩ := brokerProcessFpm_outcome o fpmBuf s.mem s.fpm
  obtain rfl : r = r' := Option.some.inj (hr.symm.trans hr')
  have hpub := published_brokerProcessFpm hr
  obtain ⟨hfpm, hstop⟩ := (fpmProgress_iff hrun).mp h.fpm
  have hlog : ∀ src, publishedFrom src
      (Daemon.publish { s with mem := r.mem, fpm := r.sock } .fpm (publishedByFpm r.trace)).log
        = publishedFrom src s.log ++ if .fpm = src then publishedByFpm r.trace else [] :=
    fun src => publishedFrom_publish _ .fpm src _
  have hdump : publishedFrom .dump
      (Daemon.publish { s with mem := r.mem, fpm := r.sock } .fpm (publishedByFpm r.trace)).log
        = pub := by
    rw [hlog, if_neg (by decide), List.append_nil]
    exact h.dump
  have hrun' : (Daemon.publish { s with mem := r.mem, fpm := r.sock } .fpm
      (publishedByFpm r.trace)).exit = none := hrun
  have hshut : ShutDown (Daemon.publish { s with mem := r.mem, fpm := r.sock } .fpm
      (publishedByFpm r.trace)) := by
    apply ShutDown.publish _ hrun
    exact h.shutdown
  rcases hout.decoded with ⟨hpos, hfin, hdec⟩ | ⟨hle, hret, hnone, hhandled⟩
  · -- a record
    dsimp only
    rw [if_neg (by omega), if_neg (by omega)]
    refine ⟨hdump, ?_, hshut⟩
    apply (fpmProgress_iff hrun').mpr
    constructor
    · rw [hlog, if_pos rfl, hpub, ← hfpm]
      unfold fpmForms
      rw [hdec, List.filterMap_append, List.append_assoc]
      rfl
    · rw [← hstop, hdec, ← hfin]
      rfl
  · -- the stream is over, and nothing is left to publish
    rw [hhandled] at hpub
    have hall : publishedFrom .fpm s.log = fpmForms o fpm.bytes := by
      rw [← hfpm]
      unfold fpmForms
      rw [hnone]
      exact (List.append_nil _).symm
    have hquit : ∀ e : MainExit, FpmProgress o fpm ((Daemon.publish
        { s with mem := r.mem, fpm := r.sock } .fpm (publishedByFpm r.trace)).quit e) →
        LoopInv o pub fpm ((Daemon.publish { s with mem := r.mem, fpm := r.sock } .fpm
          (publishedByFpm r.trace)).quit e) := by
      intro e hprogress
      exact ⟨(publishedFrom_quit _ e .dump).trans hdump, hprogress, _, rfl,
        (shutDown_iff hrun').mp hshut⟩
    have hfpm' : ∀ e : MainExit, publishedFrom .fpm ((Daemon.publish
        { s with mem := r.mem, fpm := r.sock } .fpm (publishedByFpm r.trace)).quit e).log
        = fpmForms o fpm.bytes := by
      intro e
      rw [publishedFrom_quit, hlog, if_pos rfl, hpub, ← hall]
      exact List.append_nil _
    dsimp only
    split_ifs with hneg hzero
    · apply hquit
      exact ⟨hfpm' _, by rw [← hstop, ← hret]; exact hneg⟩
    · apply hquit
      exact ⟨hfpm' _, by rw [← hstop, ← hret]; exact hzero⟩
    · omega

/-- **The FPM, the dump and the end do not depend on the datagrams.** -/
theorem loopInv_exec {polls : List (Option (ℕ × ℕ))}
    (hexec : (daemonSystem o nlBuf fpmBuf (.start pub m nl fpm)).exec (.start pub m nl fpm) polls
      = some s) : LoopInv o pub fpm s :=
  System.exec_induction (P := LoopInv o pub fpm)
    (fun _ _ _ h hstep => round_rule (P := LoopInv o pub fpm)
      (fun _ _ hfailed hclosed hrun h => h.quit hrun hfailed hclosed)
      (fun _ _ hrun hnl h => h.processNl hrun hnl) (fun _ _ hrun hfpm h => h.processFpm hrun hfpm)
      hstep h) hexec (loopInv_start o pub m nl fpm)

/-- The exit code tells how the stream ended. -/
theorem FpmProgress.code (h : FpmProgress o fpm s) {e : MainExit} (hexit : s.exit = some e)
    (he : e = .fpmFailed ∨ e = .fpmClosed) :
    e.code = 0 ↔ (decodeStream o fpm.bytes).2.ret fpm.fin = 0 := by
  unfold FpmProgress at h
  rw [hexit] at h
  rcases he with rfl | rfl
  · exact iff_of_false (by decide) (ne_of_lt h.2)
  · exact iff_of_true rfl h.2

/-! ### The datagrams -/

theorem NlProgress.quit (h : NlProgress o nl s) (e : MainExit) : NlProgress o nl (s.quit e) := by
  unfold NlProgress
  rw [publishedFrom_quit]
  exact h

/-- A result of `recv` on the netlink socket is used up. -/
theorem NlProgress.receive (h : NlProgress o nl s) {r : Option (List UInt8)}
    {rest : List (Option (List UInt8))} (hr : s.nl = r :: rest) :
    ∃ k, rest = nl.drop (k + 1) ∧ nl.take (k + 1) = nl.take k ++ [r] ∧
      publishedFrom .nl s.log = (nl.take k).flatMap (nlForms o) := by
  obtain ⟨k, hk, hpub⟩ := h
  rw [hr] at hk
  have hlt : k < nl.length := by
    by_contra hle
    rw [List.drop_eq_nil_of_le (not_lt.mp hle)] at hk
    cases hk
  rw [List.drop_eq_getElem_cons hlt] at hk
  obtain ⟨rfl, rfl⟩ := List.cons.inj hk
  exact ⟨k, rfl, List.take_succ_eq_append_getElem hlt, hpub⟩

theorem NlProgress.processNl (h : NlProgress o nl s)
    (hcut : ∀ d, some d ∈ nl → DatagramCut o d) (hstep : s.processNl o nlBuf = some t) :
    NlProgress o nl t := by
  unfold Daemon.processNl at hstep
  -- an error or an empty datagram publishes nothing
  have hnothing : ∀ (r : Option (List UInt8)) rest, s.nl = r :: rest → nlForms o r = [] →
      NlProgress o nl { s with nl := rest } := by
    intro r rest hr hnil
    obtain ⟨k, hk, htake, hpub⟩ := h.receive hr
    refine ⟨k + 1, hk, ?_⟩
    rw [htake, List.flatMap_append, List.flatMap_singleton, hnil, List.append_nil]
    exact hpub
  cases hnl : s.nl with
  | nil =>
    rw [hnl] at hstep
    cases hstep
  | cons r rest =>
    rw [hnl] at hstep
    cases r with
    | none =>
      cases hstep
      exact (hnothing none rest hnl rfl).quit _
    | some datagram =>
      dsimp only at hstep
      split_ifs at hstep with hempty
      · cases hstep
        refine (hnothing _ rest hnl ?_).quit _
        show ((cutMessages o (datagram.take bufsiz)).filter _).filterMap _ = []
        rw [List.length_eq_zero_iff.mp hempty, cutMessages_stop (by simp)]
        rfl
      · obtain ⟨mem, -, rfl⟩ := Option.map_eq_some_iff.mp hstep
        obtain ⟨k, hk, htake, hpub⟩ := h.receive hnl
        have hmem : some datagram ∈ nl.take (k + 1) := by
          rw [htake]
          exact List.mem_append_right _ List.mem_cons_self
        obtain ⟨-, hforms⟩ := brokerProcessNl_forms nlBuf s.mem
          (hcut datagram (List.mem_of_mem_take hmem))
        rw [hforms]
        refine ⟨k + 1, hk, ?_⟩
        rw [publishedFrom_publish, if_pos rfl, htake, List.flatMap_append,
          List.flatMap_singleton]
        exact congrArg (· ++ _) hpub

theorem NlProgress.processFpm (h : NlProgress o nl s) (hstep : s.processFpm o fpmBuf = some t) :
    NlProgress o nl t := by
  obtain ⟨r, -, rfl⟩ := Option.map_eq_some_iff.mp hstep
  have hpublish : NlProgress o nl
      (Daemon.publish { s with mem := r.mem, fpm := r.sock } .fpm (publishedByFpm r.trace)) := by
    unfold NlProgress
    rw [publishedFrom_publish, if_neg (by decide), List.append_nil]
    exact h
  dsimp only
  split_ifs
  · exact hpublish.quit _
  · exact hpublish.quit _
  · exact hpublish

/-- A round comes to its end, unless it waits for a datagram. -/
theorem round_isSome (hcut : ∀ d, some d ∈ s.nl → DatagramCut o d) (hrun : s.exit = none)
    {p : Option (ℕ × ℕ)} (hp : ∀ ev, p = some (pollin, ev) → s.nl ≠ []) :
    (s.round o nlBuf fpmBuf p).isSome = true := by
  cases p with
  | none =>
    rw [Daemon.round, hrun]
    rfl
  | some evs =>
    obtain ⟨ev, ev'⟩ := evs
    have hnl : ∃ u, s.nlPart o nlBuf ev = some u := by
      unfold Daemon.nlPart
      split_ifs with h0 h1
      · exact ⟨_, rfl⟩
      · exact ⟨_, rfl⟩
      · rw [not_not] at h1
        unfold Daemon.processNl
        cases hnl : s.nl with
        | nil => exact absurd hnl (hp ev' (by rw [h1]))
        | cons r rest =>
          cases r with
          | none => exact ⟨_, rfl⟩
          | some datagram =>
            dsimp only
            split_ifs
            · exact ⟨_, rfl⟩
            · have hd := hcut datagram (by rw [hnl]; exact List.mem_cons_self)
              obtain ⟨mem, hmem⟩ := Option.isSome_iff_exists.mp
                (brokerProcessNl_forms nlBuf s.mem hd).1
              rw [hmem]
              exact ⟨_, rfl⟩
    obtain ⟨u, hu⟩ := hnl
    rw [Daemon.round, hrun, hu]
    show (if u.exit.isSome then some u else u.fpmPart o fpmBuf ev').isSome = true
    unfold Daemon.fpmPart Daemon.processFpm
    split_ifs
    · rfl
    · rfl
    · rfl
    · obtain ⟨r, hr, -, -⟩ := brokerProcessFpm_outcome o fpmBuf u.mem u.fpm
      rw [hr]
      rfl

/-! ### The log grows -/

/-- The log of `t` is that of `s` with more at its end, nothing of it from the dump. -/
def Grows (s t : Daemon) : Prop :=
  ∃ new, t.log = s.log ++ new ∧ ∀ msg pri, .publish .dump msg pri ∉ new

theorem Grows.refl (s : Daemon) : Grows s s :=
  ⟨[], (List.append_nil _).symm, fun _ _ => List.not_mem_nil⟩

theorem Grows.trans {u : Daemon} (h : Grows s t) (h' : Grows t u) : Grows s u := by
  obtain ⟨new, hnew, hdump⟩ := h
  obtain ⟨new', hnew', hdump'⟩ := h'
  refine ⟨new ++ new', by rw [hnew', hnew, List.append_assoc], ?_⟩
  intro msg pri hin
  rcases List.mem_append.mp hin with hin | hin
  · exact hdump msg pri hin
  · exact hdump' msg pri hin

theorem Grows.publish (h : Grows s t) {src : Source} (hsrc : src ≠ .dump)
    (new : List (List UInt8 × Level)) : Grows s (t.publish src new) := by
  apply h.trans
  refine ⟨_, rfl, ?_⟩
  intro msg pri hin
  obtain ⟨p, -, hp⟩ := List.mem_map.mp hin
  exact hsrc (MainEvent.publish.inj hp).1

theorem Grows.quit (h : Grows s t) (e : MainExit) : Grows s (t.quit e) := by
  apply h.trans
  refine ⟨_, rfl, ?_⟩
  intro msg pri hin
  cases List.mem_singleton.mp hin

theorem Grows.processNl {u : Daemon} (h : Grows s t) (hstep : t.processNl o nlBuf = some u) :
    Grows s u := by
  apply h.trans
  unfold Daemon.processNl at hstep
  cases hnl : t.nl with
  | nil =>
    rw [hnl] at hstep
    cases hstep
  | cons r rest =>
    rw [hnl] at hstep
    have hrest : Grows t { t with nl := rest } := .refl t
    cases r with
    | none =>
      cases hstep
      exact hrest.quit _
    | some datagram =>
      dsimp only at hstep
      split_ifs at hstep
      · cases hstep
        exact hrest.quit _
      · obtain ⟨mem, -, rfl⟩ := Option.map_eq_some_iff.mp hstep
        have hmem : Grows t { t with mem := mem, nl := rest } := .refl t
        exact hmem.publish (by decide) _

theorem Grows.processFpm {u : Daemon} (h : Grows s t) (hstep : t.processFpm o fpmBuf = some u) :
    Grows s u := by
  apply h.trans
  obtain ⟨r, -, rfl⟩ := Option.map_eq_some_iff.mp hstep
  have hsock : Grows t { t with mem := r.mem, fpm := r.sock } := .refl t
  have hpub := hsock.publish (by decide : Source.fpm ≠ .dump) (publishedByFpm r.trace)
  dsimp only
  split_ifs
  · exact hpub.quit _
  · exact hpub.quit _
  · exact hpub

theorem grows_round {p : Option (ℕ × ℕ)} (h : s.round o nlBuf fpmBuf p = some t) : Grows s t :=
  round_rule (P := Grows s) (fun _ e _ _ _ h => h.quit e) (fun _ _ _ hnl h => h.processNl hnl)
    (fun _ _ _ hfpm h => h.processFpm hfpm) h (.refl s)

/-- What is known in the loop is known at every moment. -/
theorem mainInv_exec (hcut : ∀ d, some d ∈ nl → DatagramCut o d) {polls : List (Option (ℕ × ℕ))}
    (hexec : (daemonSystem o nlBuf fpmBuf (.start pub m nl fpm)).exec (.start pub m nl fpm) polls
      = some s) : MainInv o pub nl fpm s where
  toLoopInv := loopInv_exec hexec
  nl := System.exec_induction (P := NlProgress o nl)
    (fun _ _ _ h hstep => round_rule (P := NlProgress o nl) (fun _ e _ _ _ h => h.quit e)
      (fun _ _ _ hnl h => h.processNl hcut hnl) (fun _ _ _ hfpm h => h.processFpm hfpm)
      hstep h) hexec (nlProgress_start o pub m nl fpm)

end Loop

/-- A stream of one record, which comes in two pieces. -/
def oneRecord : Sock where
  chunks := [[1, 1, 0], 32 :: defaultRoute 0]
  fin := 0
  nonempty := by decide
  fin_le := le_rfl

/-- The loop after a dump of one route, with a datagram and the record to come. -/
def onceStart : Daemon :=
  .start ([defaultRoute 0].filterMap (dumpForm .little)) (fun _ => 0) [some (defaultRoute 1)]
    oneRecord
