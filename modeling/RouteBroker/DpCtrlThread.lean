/-
# The control thread

`broker_dp_ctrl` of `route_broker_dp_ctrl.c` from its start to its end: it reads the
configuration, binds the control socket, and then takes messages from the socket and from
its pipe until `$TERM` comes through the pipe; then it closes all sessions.

What the libraries do is input: the calls of `parse_entry` that inih makes and what it
returns, which socket calls succeed, and the calls of the two handlers that `zloop_start`
makes.  Of the latter we use that a handler that returns -1 is the last one to be called, and
that `zloop_start` returns then or when it is interrupted (`ZloopRun.Documented`).

`parse_ipaddress` passes `inet_pton` the address of its own parameter, so that `local_ip`
is never stored; and no one looks at the result of `parse_rib_config`.

Main result: `control_thread_life`.
-/
import RouteBroker.DpCtrl
import RouteBroker.DpDataInit

/-! ## The configuration -/

/-- `struct rib_broker_cfg` -/
structure RibBrokerCfg where
  localIp : List UInt8
  ribDpCtrlUrl : Option (List UInt8)
  ribDpDataUrl : Option (List UInt8)
  deriving DecidableEq

/-- What inih calls its handler with. -/
structure IniEntry where
  sect : List UInt8
  name : List UInt8
  value : List UInt8

/-- What `ini_parse_file` does with a file: the calls of the handler, the first one first, and
its result. -/
structure IniRun where
  calls : List IniEntry
  rc : ℤ

/-- `tolower` -/
def tolower (b : UInt8) : UInt8 := if 65 ≤ b ∧ b ≤ 90 then b + 32 else b

/-- `strcasecmp(s, t) == 0` -/
def strcaseeq (s t : List UInt8) : Bool := s.map tolower = t.map tolower

def ribStr : List UInt8 := ascii ['r', 'i', 'b']
def ipStr : List UInt8 := ascii ['i', 'p']
def controlStr : List UInt8 := ascii ['c', 'o', 'n', 't', 'r', 'o', 'l']
def dataStr : List UInt8 := ascii ['d', 'a', 't', 'a']

/-- `parse_entry`: its result, 0 for an error, and the configuration.  `inetPton` says which
texts `inet_pton` takes for an address. -/
def parseEntry (inetPton : List UInt8 → Bool) (cfg : RibBrokerCfg) (e : IniEntry) :
    ℤ × RibBrokerCfg :=
  if strcaseeq e.sect ribStr then
    -- `inet_pton` writes to the parameter of `parse_ipaddress`
    if e.name = ipStr then (if inetPton e.value then 1 else 0, cfg)
    else if e.name = controlStr then (1, { cfg with ribDpCtrlUrl := some e.value })
    else if e.name = dataStr then (1, { cfg with ribDpDataUrl := some e.value })
    else (1, cfg)
  else (1, cfg)

/-- `parse_rib_config`; none for a file that cannot be opened. -/
def parseRibConfig (inetPton : List UInt8 → Bool) (file : Option IniRun) (cfg : RibBrokerCfg) :
    Bool × RibBrokerCfg :=
  match file with
  | none => (false, cfg)
  | some ini =>
    (decide (ini.rc = 0), ini.calls.foldl (fun cfg e => (parseEntry inetPton cfg e).2) cfg)

/-- `rib_broker_cfg` before the configuration is read. -/
def RibBrokerCfg.zero : RibBrokerCfg where
  localIp := [0, 0, 0, 0]
  ribDpCtrlUrl := none
  ribDpDataUrl := none

/-! ## The loop -/

/-- `"$TERM"` -/
def termStr : List UInt8 := ascii ['$', 'T', 'E', 'R', 'M']

/-- A call of a handler by `zloop_start`, with what the handler receives. -/
inductive CtrlEvent
  /-- `process_actor_message`: `zmsg_recv` returns a message of at least one frame, or `NULL` -/
  | pipe (msg : Option (Frame × List Frame))
  /-- `process_ctrl_message` -/
  | ctrl (msg : RouterMsg)

/-- `process_actor_message` -/
def processActorMessage : Option (Frame × List Frame) → ℤ
  | none => 0
  | some msg => if (zmsgPopstr (msg.1 :: msg.2)).1 = some termStr then -1 else 0

namespace CtrlEvent

/-- What the handler returns; `process_ctrl_message` returns 0 in any case. -/
def result : CtrlEvent → ℤ
  | .pipe msg => processActorMessage msg
  | .ctrl _ => 0

/-- What the handler makes of the sessions. -/
def handle (setup : DpCtrlSetup) (s : DpCtrl) : CtrlEvent → DpCtrl
  | .pipe _ => s
  | .ctrl msg => s.processCtrlMessage setup msg

end CtrlEvent

/-- What `zloop_start` has done so far. -/
structure ZloopRun where
  /-- the handlers that it has called, the first one first -/
  calls : List CtrlEvent
  /-- the process was interrupted -/
  interrupted : Bool
  returned : Bool

/-- What czmq says about `zloop_start`. -/
structure ZloopRun.Documented (zloop : ZloopRun) : Prop where
  /-- after -1 no handler is called -/
  last : ∀ e ∈ zloop.calls.dropLast, e.result ≠ -1
  /-- it returns for the sake of -1, or of an interrupt -/
  returns : zloop.returned = true ↔
    zloop.interrupted = true ∨ ∃ e ∈ zloop.calls, e.result = -1

/-- What the control thread meets. -/
structure CtrlEnv where
  inetPton : List UInt8 → Bool
  /-- the file at `cfgfile` -/
  file : Option IniRun
  /-- `zsock_new_router` succeeds -/
  socket : Bool
  /-- the endpoints that `zsock_bind` takes, and the paths of which `chmod` succeeds -/
  bind : List UInt8 → Bool
  chmod : List UInt8 → Bool

/-- How far the control thread has got. -/
inductive CtrlThread
  /-- "Could not create broker control socket" -/
  | noSocket
  /-- "Could not bind broker control socket" -/
  | notBound
  /-- `strncmp` on `NULL` -/
  | crashed
  /-- "Could not chmod control socket" -/
  | notChmod
  /-- in its loop -/
  | serving (s : DpCtrl)
  /-- at its end -/
  | ended (s : DpCtrl)

namespace CtrlEnv

variable (env : CtrlEnv)

/-- `rib_broker_cfg` once the configuration is read. -/
def cfg : RibBrokerCfg := (parseRibConfig env.inetPton env.file .zero).2

/-- `broker_dp_ctrl`, its loop having come as far as `zloop`; none when there are sessions left
to close. -/
def brokerDpCtrl (setup : DpCtrlSetup) (order : ZhashOrder) (zloop : ZloopRun) :
    Option CtrlThread :=
  if env.socket then
    -- Create the control socket; `%s` prints `NULL`, too
    if env.bind (env.cfg.ribDpCtrlUrl.getD (ascii (orNull none))) then
      match env.cfg.ribDpCtrlUrl with
      | none => some .crashed
      | some url =>
        -- skip over ipc://
        if url.take 6 = ipcPrefix ∧ env.chmod (url.drop 6) = false then some .notChmod
        else
          let s := zloop.calls.foldl (CtrlEvent.handle setup) .start
          if zloop.returned then
            (DpCtrl.closeAllDpSessions order (s.dpUuidHt.keys.length + 1) s).map .ended
          else some (.serving s)
    else some .notBound
  else some .noSocket

/-- The control socket is there, and the dataplanes may use it. -/
def Ready : Prop :=
  env.socket = true ∧ ∃ url, env.cfg.ribDpCtrlUrl = some url ∧ env.bind url = true ∧
    (url.take 6 = ipcPrefix → env.chmod (url.drop 6) = true)

end CtrlEnv

/-! ## What the configuration says -/

/-- `rib` in any case of letters. -/
def IsRib (sect : List UInt8) : Prop :=
  ∃ x ∈ ascii ['r', 'R'], ∃ y ∈ ascii ['i', 'I'], ∃ z ∈ ascii ['b', 'B'], sect = [x, y, z]

instance (sect : List UInt8) : Decidable (IsRib sect) :=
  inferInstanceAs (Decidable (∃ x ∈ ascii ['r', 'R'], ∃ y ∈ ascii ['i', 'I'],
    ∃ z ∈ ascii ['b', 'B'], sect = [x, y, z]))

/-- A small letter is what `tolower` makes of itself and of its capital, and of nothing else. -/
theorem tolower_eq_iff {b c : UInt8} (hc : 97 ≤ c ∧ c ≤ 122) :
    tolower b = c ↔ b = c ∨ b = c - 32 := by
  unfold tolower
  simp only [← UInt8.toNat_inj, UInt8.le_iff_toNat_le] at hc ⊢
  have hb := b.toNat_lt
  have h97 : (97 : UInt8).toNat = 97 := rfl
  have h122 : (122 : UInt8).toNat = 122 := rfl
  have h65 : (65 : UInt8).toNat = 65 := rfl
  have h90 : (90 : UInt8).toNat = 90 := rfl
  have h32 : (32 : UInt8).toNat = 32 := rfl
  rw [h97, h122] at hc
  rw [h65, h90, UInt8.toNat_sub, h32]
  split_ifs with h
  · rw [UInt8.toNat_add, h32]
    omega
  · omega

/-- `strcasecmp` takes the eight spellings of `rib`. -/
theorem strcaseeq_ribStr (sect : List UInt8) : strcaseeq sect ribStr = true ↔ IsRib sect := by
  have hrib : ribStr.map tolower = [114, 105, 98] := by decide
  unfold strcaseeq
  rw [hrib, decide_eq_true_eq]
  constructor
  · intro h
    have hlen : sect.length = 3 := by simpa using congrArg List.length h
    obtain ⟨x, y, z, rfl⟩ := List.length_eq_three.mp hlen
    simp only [List.map_cons, List.map_nil, List.cons.injEq, and_true] at h
    obtain ⟨hx, hy, hz⟩ := h
    refine ⟨x, ?_, y, ?_, z, ?_, rfl⟩
    · exact List.mem_pair.mpr ((tolower_eq_iff (by decide)).mp hx)
    · exact List.mem_pair.mpr ((tolower_eq_iff (by decide)).mp hy)
    · exact List.mem_pair.mpr ((tolower_eq_iff (by decide)).mp hz)
  · rintro ⟨x, hx, y, hy, z, hz, rfl⟩
    rw [List.map_cons, List.map_cons, List.map_cons, List.map_nil,
      (tolower_eq_iff (by decide)).mpr (List.mem_pair.mp hx),
      (tolower_eq_iff (by decide)).mpr (List.mem_pair.mp hy),
      (tolower_eq_iff (by decide)).mpr (List.mem_pair.mp hz)]
    rfl

/-- The value of the last entry with this name in a section `rib`. -/
def lastValue (name : List UInt8) (entries : List IniEntry) : Option (List UInt8) :=
  (entries.reverse.find? fun e => decide (IsRib e.sect ∧ e.name = name)).map IniEntry.value

section Config

variable {inetPton : List UInt8 → Bool} {cfg : RibBrokerCfg}

theorem lastValue_concat (name : List UInt8) (entries : List IniEntry) (e : IniEntry) :
    lastValue name (entries ++ [e]) = if IsRib e.sect ∧ e.name = name then some e.value
      else lastValue name entries := by
  unfold lastValue
  rw [List.reverse_append, List.reverse_singleton, List.singleton_append, List.find?_cons]
  by_cases h : IsRib e.sect ∧ e.name = name
  · rw [if_pos h, decide_eq_true h]
    rfl
  · rw [if_neg h, decide_eq_false h]

/-- What one entry does. -/
theorem parseEntry_cfg (e : IniEntry) : (parseEntry inetPton cfg e).2 = { cfg with
    ribDpCtrlUrl := if IsRib e.sect ∧ e.name = controlStr then some e.value
      else cfg.ribDpCtrlUrl
    ribDpDataUrl := if IsRib e.sect ∧ e.name = dataStr then some e.value
      else cfg.ribDpDataUrl } := by
  simp only [← strcaseeq_ribStr]
  have hip : ipStr ≠ controlStr ∧ ipStr ≠ dataStr := by decide
  have hne : controlStr ≠ dataStr := by decide
  unfold parseEntry
  by_cases hsect : strcaseeq e.sect ribStr = true
  · by_cases h1 : e.name = ipStr
    · simp [hsect, h1, hip.1, hip.2]
    · by_cases h2 : e.name = controlStr
      · simp [hsect, h2, hip.1.symm, hne]
      · by_cases h3 : e.name = dataStr
        · simp [hsect, h3, hip.2.symm, hne.symm]
        · simp [hsect, h1, h2, h3]
  · simp [hsect]

/-- **The last entries count**, whatever the other ones are, and `local_ip` stays as it was. -/
theorem foldl_parseEntry (inetPton : List UInt8 → Bool) (entries : List IniEntry)
    (cfg : RibBrokerCfg) :
    entries.foldl (fun cfg e => (parseEntry inetPton cfg e).2) cfg = { cfg with
      ribDpCtrlUrl := (lastValue controlStr entries).or cfg.ribDpCtrlUrl
      ribDpDataUrl := (lastValue dataStr entries).or cfg.ribDpDataUrl } := by
  induction entries using List.reverseRecOn with
  | nil => rfl
  | append_singleton entries e ih =>
    rw [List.foldl_append, List.foldl_cons, List.foldl_nil, ih, parseEntry_cfg, lastValue_concat,
      lastValue_concat]
    split_ifs <;> rfl

end Config

/-- What inih finds in `rib.conf` as it is installed; the section is spelled `Rib`. -/
def ribConf : IniRun where
  calls :=
    [⟨ascii ['R', 'i', 'b'], controlStr, ipcPrefix ++ ascii ['/', 'v', 'a', 'r', '/', 'r', 'u', 'n',
        '/', 'r', 'o', 'u', 't', 'i', 'n', 'g', '/', 'r', 'i', 'b', '.', 'c', 'o', 'n', 't', 'r', 'o',
        'l']⟩,
     ⟨ascii ['R', 'i', 'b'], dataStr, ipcWildcard⟩]
  rc := 0

example : (parseRibConfig (fun _ => false) (some ribConf) .zero).2.ribDpDataUrl
    = some ipcWildcard := by
  decide

/-! ## The messages -/

namespace CtrlEvent

/-- `$TERM` comes through the pipe. -/
def IsTerm : CtrlEvent → Prop
  | .pipe (some msg) => Spells msg.1 termStr
  | _ => False

/-- The message on the control socket. -/
def routerMsg : CtrlEvent → Option RouterMsg
  | .pipe _ => none
  | .ctrl msg => some msg

/-- **The handlers ask the loop to end if and only if `$TERM` comes.** -/
theorem result_eq_iff (e : CtrlEvent) : e.result = -1 ↔ e.IsTerm := by
  cases e with
  | ctrl msg => exact iff_of_false (by decide : ¬ (0 : ℤ) = -1) id
  | pipe msg =>
    cases msg with
    | none => exact iff_of_false (by decide : ¬ (0 : ℤ) = -1) id
    | some msg =>
      show (if some (cstr msg.1) = some termStr then (-1 : ℤ) else 0) = -1 ↔ Spells msg.1 termStr
      rw [← cstr_eq_iff]
      split_ifs with h
      · exact iff_of_true rfl (Option.some.inj h)
      · exact iff_of_false (by decide) fun heq => h (congrArg some heq)

end CtrlEvent

/-- The messages on the control socket that the loop has taken. -/
def ZloopRun.messages (zloop : ZloopRun) : List RouterMsg :=
  zloop.calls.filterMap CtrlEvent.routerMsg

/-- **The loop handles what comes on the control socket**, and what comes through the pipe
changes no session. -/
theorem ZloopRun.handled (zloop : ZloopRun) (setup : DpCtrlSetup) :
    zloop.calls.foldl (CtrlEvent.handle setup) .start = DpCtrl.run setup zloop.messages := by
  unfold DpCtrl.run ZloopRun.messages
  generalize DpCtrl.start = s
  induction zloop.calls generalizing s with
  | nil => rfl
  | cons e calls ih =>
    cases e with
    | pipe msg => exact ih s
    | ctrl msg => exact ih (s.processCtrlMessage setup msg)

/-- What is left of `broker_dp_ctrl` once the socket is ready. -/
theorem CtrlEnv.Ready.brokerDpCtrl_eq {env : CtrlEnv} (h : env.Ready) (setup : DpCtrlSetup)
    (order : ZhashOrder) (zloop : ZloopRun) : env.brokerDpCtrl setup order zloop
      = if zloop.returned then
          (DpCtrl.closeAllDpSessions order
            ((DpCtrl.run setup zloop.messages).dpUuidHt.keys.length + 1)
            (DpCtrl.run setup zloop.messages)).map .ended
        else some (.serving (DpCtrl.run setup zloop.messages)) := by
  obtain ⟨hsocket, url, hurl, hbind, hchmod⟩ := h
  have hopen : ¬ (url.take 6 = ipcPrefix ∧ env.chmod (url.drop 6) = false) := by
    rintro ⟨hipc, hfails⟩
    rw [hchmod hipc] at hfails
    cases hfails
  have hbind' : env.bind (env.cfg.ribDpCtrlUrl.getD (ascii (orNull none))) = true := by
    rw [hurl]
    exact hbind
  unfold CtrlEnv.brokerDpCtrl
  rw [if_pos hsocket, if_pos hbind', hurl, zloop.handled setup]
  dsimp only
  rw [if_neg hopen]

/-- A thread whose socket is not ready gives up before its loop. -/
theorem CtrlEnv.brokerDpCtrl_of_not_ready {env : CtrlEnv} (h : ¬ env.Ready) (setup : DpCtrlSetup)
    (order : ZhashOrder) (zloop : ZloopRun) : env.brokerDpCtrl setup order zloop
      ∈ [some .noSocket, some .notBound, some .crashed, some .notChmod] := by
  unfold CtrlEnv.brokerDpCtrl
  by_cases hsocket : env.socket = true
  · rw [if_pos hsocket]
    by_cases hbind : env.bind (env.cfg.ribDpCtrlUrl.getD (ascii (orNull none))) = true
    · rw [if_pos hbind]
      cases hurl : env.cfg.ribDpCtrlUrl with
      | none => simp
      | some url =>
        rw [hurl] at hbind
        dsimp only
        by_cases hopen : url.take 6 = ipcPrefix ∧ env.chmod (url.drop 6) = false
        · simp [hopen]
        · apply absurd _ h
          refine ⟨hsocket, url, hurl, hbind, fun hipc => ?_⟩
          rw [← Bool.not_eq_false]
          exact fun hfails => hopen ⟨hipc, hfails⟩
    · simp [hbind]
  · simp [hsocket]

/-- The installed configuration, on a system on which every call succeeds. -/
def installed : CtrlEnv where
  inetPton := fun _ => false
  file := some ribConf
  socket := true
  bind := fun _ => true
  chmod := fun _ => true

/-- The loop takes the requests of `DpCtrl.firstRequests`, a message from the pipe in between, and
then `$TERM`. -/
def terminated : ZloopRun where
  calls := .pipe none :: DpCtrl.firstRequests.map .ctrl ++ [.pipe (some (termStr, []))]
  interrupted := false
  returned := true
