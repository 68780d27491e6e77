/-
# The filter of the netlink socket

`broker_netlink_socket` attaches a BPF program to the socket that accepts the routes of the
kernel only: all others come from the FPM, also those that FRR installs in the kernel and
that the kernel then announces.  The program looks at `rtm_protocol` of the first message of
a datagram (`brokerNetlinkFilter_append`).  The kernel announces one route in a datagram, so
that this is the only one (`OneMessage`).

The socket joins the groups before the program is attached.  A datagram that comes in between
passes unfiltered; here the program is there from the first datagram on.

Main result: `priority_tells_kernel`.
-/
import RouteBroker.Bpf
import RouteBroker.Brokerd

/-- `offsetof(struct rtmsg, rtm_protocol)` -/
def rtmProtocolOffset : ℕ := 5

/-- `filter` of `broker_netlink_socket` -/
def brokerNetlinkFilter : List Bpf.Insn := [
  -- Load byte value from rtm_protocol
  .ldAbsB (nlmsgHdrlen + rtmProtocolOffset),
  -- If matches RTPROT_KERNEL, goto next, else next+1
  .jeq rtprotKernel.toNat 0 1,
  -- Accept
  .ret 0xffff,
  -- Reject
  .ret 0]

/-- What `recv` yields of a datagram that is sent to the socket of `broker_netlink_socket`, if
it yields anything, or of an error. -/
def nlRecv : Option (List UInt8) → Option (Option (List UInt8))
  | none => some none
  | some datagram => (Bpf.deliver brokerNetlinkFilter datagram).map some

/-- What `recv` yields on the socket when the kernel sends `raw`. -/
def nlSocket (raw : List (Option (List UInt8))) : List (Option (List UInt8)) :=
  raw.filterMap nlRecv

/-- `rtm_protocol` of the message is `RTPROT_KERNEL`. -/
def OfKernel (msg : List UInt8) : Prop := rtmProtocol (memOf msg) 0 = rtprotKernel

instance (msg : List UInt8) : Decidable (OfKernel msg) := inferInstanceAs (Decidable (_ = _))

/-- A datagram of one message, as the kernel sends it: its attributes are padded.  That it fits
into the buffer of `BUFSIZ` bytes is a condition of ours: the kernel may announce a route
with so many next hops that it does not. -/
structure OneMessage (o : ByteOrder) (datagram : List UInt8) : Prop where
  long : rtmsgLength ≤ datagram.length
  len : headLen o datagram = datagram.length
  padded : 4 ∣ datagram.length
  short : datagram.length ≤ bufsiz

/-! ## The program -/

section Filter

variable {o : ByteOrder} {msg datagram : List UInt8}

/-- The kernel takes the program, which then returns for every packet. -/
theorem brokerNetlinkFilter_returns (datagram : List UInt8) :
    Bpf.Checked brokerNetlinkFilter = true ∧
      (Bpf.run datagram brokerNetlinkFilter 0 0).isSome = true :=
  ⟨rfl, Bpf.run_isSome rfl (by decide)⟩

theorem run_brokerNetlinkFilter (datagram : List UInt8) :
    Bpf.run datagram brokerNetlinkFilter 0 0
      = some (if datagram[21]? = some rtprotKernel then 0xffff else 0) := by
  unfold brokerNetlinkFilter
  rw [Bpf.run_ldAbsB]
  show (datagram[21]?).elim _ _ = _
  cases datagram[21]? with
  | none => rfl
  | some b =>
    rw [Option.elim_some, Bpf.run_jeq]
    by_cases hb : b = rtprotKernel
    · rw [hb, if_pos rfl, if_pos rfl, Bpf.run_ret]
    · have hne : b.toNat ≠ rtprotKernel.toNat := by
        intro heq
        exact hb (UInt8.toNat_inj.mp heq)
      rw [if_neg hne, if_neg (by simpa using hb), Bpf.run_skip, Bpf.run_ret]

/-- The byte that the program loads is `rtm_protocol`. -/
theorem ofKernel_iff (h : rtmsgLength ≤ msg.length) :
    OfKernel msg ↔ msg[21]? = some rtprotKernel := by
  have h21 : 21 < msg.length := by
    unfold rtmsgLength nlmsgHdrlen at h
    omega
  unfold OfKernel rtmProtocol memOf
  rw [Nat.zero_add, List.getElem?_eq_getElem h21, Option.some.injEq,
    List.getD_eq_getElem _ _ h21]

/-- **The program looks at the first message only.** -/
theorem brokerNetlinkFilter_append (h : rtmsgLength ≤ msg.length) (rest : List UInt8) :
    Bpf.run (msg ++ rest) brokerNetlinkFilter 0 0 = Bpf.run msg brokerNetlinkFilter 0 0 := by
  apply Bpf.run_congr
  intro k hk
  obtain rfl := List.mem_singleton.mp hk
  apply List.getElem?_append_left
  unfold rtmsgLength at h
  unfold rtmProtocolOffset
  omega

/-- What follows a route of the kernel in its datagram gets through with it. -/
example : nlSocket [some (defaultRoute 1 ++ frrRoute16)] = [some (defaultRoute 1 ++ frrRoute16)] := by
  decide

/-- **The socket delivers the messages of the kernel, whole.** -/
theorem OneMessage.deliver (h : OneMessage o datagram) :
    Bpf.deliver brokerNetlinkFilter datagram
      = if OfKernel datagram then some datagram else none := by
  have hshort := h.short
  unfold bufsiz at hshort
  unfold Bpf.deliver
  rw [run_brokerNetlinkFilter]
  by_cases hk : OfKernel datagram
  · rw [if_pos hk, if_pos ((ofKernel_iff h.long).mp hk)]
    show some (datagram.take 0xffff) = _
    rw [List.take_of_length_le (by omega)]
  · rw [if_neg hk, if_neg (fun h' => hk ((ofKernel_iff h.long).mpr h'))]

theorem OneMessage.datagramCut (h : OneMessage o datagram) : DatagramCut o datagram := by
  have hshort := h.short
  unfold DatagramCut
  rw [List.take_of_length_le hshort]
  unfold bufsiz at hshort
  exact wellCut_of_dvd o _ 0 h.padded (by omega)

/-- The datagram is cut into its one message. -/
theorem OneMessage.nlForms_eq (h : OneMessage o datagram) :
    nlForms o (some datagram) = ([datagram].filter (isRoute o)).filterMap (liveForm o) := by
  have hlong := h.long
  unfold rtmsgLength nlmsgHdrlen at hlong
  have hpad : (datagram.length + 3) / 4 * 4 = datagram.length := by
    obtain ⟨q, hq⟩ := h.padded
    omega
  have hcut : cutMessages o datagram = [datagram] := by
    rw [cutMessages_message datagram (by omega) (by rw [h.len]; omega) (by rw [h.len]), h.len,
      hpad, List.take_length, List.drop_length, cutMessages_stop (by simp)]
  show ((cutMessages o (datagram.take bufsiz)).filter (isRoute o)).filterMap (liveForm o) = _
  rw [List.take_of_length_le h.short, hcut]

end Filter

/-! ## The socket -/

section Socket

variable {o : ByteOrder} {raw : List (Option (List UInt8))}

theorem nlSocket_singleton (r : Option (List UInt8)) : nlSocket [r] = (nlRecv r).toList := by
  unfold nlSocket
  rw [List.filterMap_cons]
  cases nlRecv r with
  | none => rfl
  | some x => rfl

theorem nlSocket_cons (r : Option (List UInt8)) (raw : List (Option (List UInt8))) :
    nlSocket (r :: raw) = nlSocket [r] ++ nlSocket raw := by
  unfold nlSocket
  rw [← List.filterMap_append]
  rfl

/-- What is delivered was sent by the kernel, and carries a route of its own. -/
theorem mem_nlSocket (hone : ∀ d, some d ∈ raw → OneMessage o d) {d : List UInt8}
    (h : some d ∈ nlSocket raw) : some d ∈ raw ∧ OfKernel d := by
  obtain ⟨r, hr, hd⟩ := List.mem_filterMap.mp h
  cases r with
  | none => cases hd
  | some datagram =>
    obtain ⟨d', hd', hsome⟩ := Option.map_eq_some_iff.mp hd
    obtain rfl := Option.some.inj hsome
    rw [(hone datagram hr).deliver] at hd'
    split_ifs at hd' with hk
    obtain rfl := Option.some.inj hd'
    exact ⟨hr, hk⟩

/-- Receiving some of what is delivered is the delivery of some of what was sent. -/
theorem exists_take_nlSocket (raw : List (Option (List UInt8))) (k : ℕ) :
    ∃ j, (nlSocket raw).take k = nlSocket (raw.take j) ∧
      (nlSocket raw).drop k = nlSocket (raw.drop j) := by
  induction raw generalizing k with
  | nil =>
    refine ⟨0, ?_, ?_⟩
    · rw [show nlSocket [] = [] from rfl, List.take_nil]
      rfl
    · rw [show nlSocket [] = [] from rfl, List.drop_nil]
      rfl
  | cons r raw ih =>
    have hhead : nlSocket [r] = [] ∨ ∃ x, nlSocket [r] = [x] := by
      rw [nlSocket_singleton]
      cases nlRecv r with
      | none => exact Or.inl rfl
      | some x => exact Or.inr ⟨x, rfl⟩
    cases k with
    | zero => exact ⟨0, rfl, rfl⟩
    | succ k =>
      rcases hhead with hnil | ⟨x, hx⟩
      · obtain ⟨j, htake, hdrop⟩ := ih (k + 1)
        refine ⟨j + 1, ?_, ?_⟩
        · rw [nlSocket_cons, hnil, List.nil_append, htake, List.take_succ_cons, nlSocket_cons, hnil,
            List.nil_append]
        · rw [nlSocket_cons, hnil, List.nil_append, hdrop, List.drop_succ_cons]
      · obtain ⟨j, htake, hdrop⟩ := ih k
        refine ⟨j + 1, ?_, ?_⟩
        · rw [nlSocket_cons, hx, List.singleton_append, List.take_succ_cons, htake,
            List.take_succ_cons, nlSocket_cons, hx, List.singleton_append]
        · rw [nlSocket_cons, hx, List.singleton_append, List.drop_succ_cons, hdrop,
            List.drop_succ_cons]

/-- The messages in `raw` that are routes of the kernel. -/
def kernelRoutes (o : ByteOrder) (raw : List (Option (List UInt8))) : List (List UInt8) :=
  (raw.filterMap id).filter fun msg => isRoute o msg && OfKernel msg

/-- **What the socket delivers is published as the routes of the kernel.** -/
theorem nlForms_nlSocket (hone : ∀ d, some d ∈ raw → OneMessage o d) :
    (nlSocket raw).flatMap (nlForms o) = (kernelRoutes o raw).filterMap (liveForm o) := by
  induction raw with
  | nil => rfl
  | cons r raw ih =>
    have hrest : ∀ d, some d ∈ raw → OneMessage o d :=
      fun d hd => hone d (List.mem_cons_of_mem _ hd)
    have hsplit : kernelRoutes o (r :: raw) = kernelRoutes o [r] ++ kernelRoutes o raw := by
      unfold kernelRoutes
      rw [← List.filter_append, ← List.filterMap_append]
      rfl
    rw [nlSocket_cons, List.flatMap_append, ih hrest, hsplit, List.filterMap_append]
    congr 1
    cases r with
    | none => rfl
    | some datagram =>
      have hdatagram := hone datagram List.mem_cons_self
      have hfilter : kernelRoutes o [some datagram]
          = [datagram].filter fun msg => isRoute o msg && OfKernel msg := rfl
      have hrecv : nlRecv (some datagram)
          = (if OfKernel datagram then some datagram else none).map some :=
        congrArg (Option.map some) hdatagram.deliver
      rw [hfilter, nlSocket_singleton, hrecv]
      by_cases hk : OfKernel datagram
      · rw [if_pos hk]
        show [some datagram].flatMap (nlForms o) = _
        rw [List.flatMap_singleton, hdatagram.nlForms_eq, List.filter_singleton,
          List.filter_singleton, decide_eq_true hk, Bool.and_true]
      · rw [if_neg hk, List.filter_singleton, decide_eq_false hk, Bool.and_false]
        rfl

end Socket

/-! ## The priority -/

section Priority

variable {o : ByteOrder} {m : Mem} {msg out : List UInt8} {pri : Level}

/-- `process_rtnl` keeps the protocol, and the priority tells which one it is. -/
theorem processRtnl_protocol (h : (processRtnl o m 0).2 = some (out, pri)) :
    rtmProtocol (memOf out) 0 = rtmProtocol m 0 ∧ (pri = routeConnected ↔ OfKernel out) := by
  unfold processRtnl at h
  split_ifs at h with hshort
  obtain ⟨rfl, rfl⟩ := Prod.mk.inj (Option.some.inj h)
  unfold rtmsgLength nlmsgHdrlen at hshort
  have hkept : rtmProtocol (memOf (slice (normalise o m 0) 0 (nlmsgLen o m 0))) 0
      = rtmProtocol m 0 := by
    unfold rtmProtocol
    rw [memOf_slice _ _ (by omega)]
    apply normalise_of_ne
    · omega
    · omega
    · omega
  refine ⟨hkept, ?_⟩
  unfold OfKernel rtnlPriority
  rw [hkept]
  split_ifs with hk
  · exact ⟨fun _ => hk, fun _ => rfl⟩
  · exact ⟨fun h => absurd h (by decide), fun h => absurd h hk⟩

theorem liveForm_protocol (h : liveForm o msg = some (out, pri)) :
    rtmProtocol (memOf out) 0 = rtmProtocol (memOf msg) 0 ∧ (pri = routeConnected ↔ OfKernel out) := by
  unfold liveForm switchPublish at h
  split_ifs at h
  · obtain ⟨hkept, hpri⟩ := processRtnl_protocol h
    refine ⟨hkept.trans ?_, hpri⟩
    unfold rtmProtocol
    exact store16_of_ne o (memOf msg) _ _ (by omega) (by omega)
  · exact processRtnl_protocol h

theorem dumpForm_ofKernel (h : dumpForm o msg = some (out, pri)) :
    OfKernel out ∧ pri = routeConnected := by
  unfold dumpForm dumpRoute at h
  split_ifs at h with htype hk
  obtain ⟨hkept, hpri⟩ := processRtnl_protocol h
  have hout : OfKernel out := hkept.trans hk
  exact ⟨hout, hpri.mpr hout⟩

theorem mem_kernelRoutes {raw : List (Option (List UInt8))} (h : msg ∈ kernelRoutes o raw) :
    OfKernel msg := by
  have hp := (List.mem_filter.mp h).2
  rw [Bool.and_eq_true, decide_eq_true_eq] at hp
  exact hp.2

end Priority

/-- **The priority tells the routes of the kernel from those of the FPM.**  Take any results
of `poll`, any stream of the FPM, cut in any way, and let the kernel announce one route in
each datagram, of whatever protocol and of at most `BUFSIZ` bytes, all of them sent after the
program was attached.  Whenever the loop of `main` has come to a state, it has
published of the announcements that went into what it received exactly the routes of the
kernel, in order; none that FRR has installed comes in that way a second time.  Everything
from the dump and from the netlink socket has `ROUTE_CONNECTED` and is a route of the kernel,
and whatever has been published has `ROUTE_CONNECTED` if and only if it is one. -/
theorem priority_tells_kernel {o : ByteOrder} {nlBuf fpmBuf : ℕ} {pub : List (List UInt8 × Level)}
    {m : Mem} {raw : List (Option (List UInt8))} {fpm : Sock} {s : Daemon} {d : DumpInput}
    {rest : List DumpRecv} (hdump : brokerDumpRoutes o d = (pub, .done rest))
    (hone : ∀ d, some d ∈ raw → OneMessage o d) {polls : List (Option (ℕ × ℕ))}
    (hexec : (daemonSystem o nlBuf fpmBuf (.start pub m (nlSocket raw) fpm)).exec
      (.start pub m (nlSocket raw) fpm) polls = some s) :
    (∃ j, s.nl = nlSocket (raw.drop j) ∧
      publishedFrom .nl s.log = (kernelRoutes o (raw.take j)).filterMap (liveForm o)) ∧
    (∀ src msg pri, .publish src msg pri ∈ s.log →
      (src ≠ .fpm → OfKernel msg ∧ pri = routeConnected) ∧ (pri = routeConnected ↔ OfKernel msg)) := by
  have hinv : MainInv o pub (nlSocket raw) fpm s := by
    apply mainInv_exec _ hexec
    intro d hd
    exact (hone d (mem_nlSocket hone hd).1).datagramCut
  have hnl : ∃ j, s.nl = nlSocket (raw.drop j) ∧
      publishedFrom .nl s.log = (kernelRoutes o (raw.take j)).filterMap (liveForm o) := by
    obtain ⟨k, hk, hpub⟩ := hinv.nl
    obtain ⟨j, htake, hdrop⟩ := exists_take_nlSocket raw k
    refine ⟨j, hk.trans hdrop, ?_⟩
    rw [hpub, htake]
    apply nlForms_nlSocket
    intro d hd
    exact hone d (List.mem_of_mem_take hd)
  refine ⟨hnl, fun src msg pri hin => ?_⟩
  have hfrom : (msg, pri) ∈ publishedFrom src s.log := mem_publishedFrom.mpr hin
  -- what has the protocol of the kernel has its priority
  have hkernel : OfKernel msg ∧ pri = routeConnected →
      (src ≠ .fpm → OfKernel msg ∧ pri = routeConnected) ∧ (pri = routeConnected ↔ OfKernel msg) := by
    intro h
    exact ⟨fun _ => h, fun _ => h.1, fun _ => h.2⟩
  cases src with
  | dump =>
    rw [hinv.dump] at hfrom
    obtain ⟨used, -, -, rfl⟩ := brokerDumpRoutes_done hdump
    obtain ⟨msg', -, hform⟩ := List.mem_filterMap.mp hfrom
    exact hkernel (dumpForm_ofKernel hform)
  | nl =>
    obtain ⟨j, -, hpub⟩ := hnl
    rw [hpub] at hfrom
    obtain ⟨msg', hmsg', hform⟩ := List.mem_filterMap.mp hfrom
    obtain ⟨hkept, hpri⟩ := liveForm_protocol hform
    have hout : OfKernel msg := hkept.trans (mem_kernelRoutes hmsg')
    exact hkernel ⟨hout, hpri.mpr hout⟩
  | fpm =>
    obtain ⟨msg', -, hform⟩ := List.mem_filterMap.mp (hinv.fpm.mem hfrom)
    exact ⟨fun h => absurd rfl h, (liveForm_protocol hform).2⟩

/-- The announcements of a route of FRR and of one of the kernel. -/
def announced : List (Option (List UInt8)) := [some frrRoute16, some (defaultRoute 1)]

/-- The loop after a dump of one route, with these and a record of the FPM to come. -/
def announcedStart : Daemon :=
  .start ([defaultRoute 0].filterMap (dumpForm .little)) (fun _ => 0) (nlSocket announced) oneRecord

/-- The theorem at a run that receives what is to come. -/
theorem priority_tells_kernel_announced :
    ∃ s, (daemonSystem .little 0 8192 announcedStart).exec announcedStart
        [some (1, 1), some (0, 1)] = some s ∧
      publishedFrom .nl s.log = [defaultRoute 1].filterMap (liveForm .little) ∧
      ∀ src msg pri, .publish src msg pri ∈ s.log → (pri = routeConnected ↔ OfKernel msg) := by
  obtain ⟨s, hexec, hp⟩ := (daemonSystem .little 0 8192 announcedStart).exists_of_exec_any
    announcedStart [some (1, 1), some (0, 1)] (fun s => decide (publishedFrom .nl s.log
      = [defaultRoute 1].filterMap (liveForm .little))) (by decide +kernel)
  rw [decide_eq_true_eq] at hp
  have hdump : brokerDumpRoutes .little
      ⟨true, true, true, [.datagram [defaultRoute 0] 1, .datagram [] 0, .datagram [] 0]⟩
      = ([defaultRoute 0].filterMap (dumpForm .little), .done []) := rfl
  have hone : ∀ d, some d ∈ announced → OneMessage .little d := by
    intro d hd
    rcases List.mem_cons.mp hd with hd | hd
    · obtain rfl := Option.some.inj hd
      exact ⟨by decide, by decide, by decide, by decide⟩
    · obtain rfl := Option.some.inj (List.mem_singleton.mp hd)
      exact ⟨by decide, by decide, by decide, by decide⟩
  obtain ⟨-, hall⟩ := priority_tells_kernel hdump hone hexec
  exact ⟨s, hexec, hp, fun src msg pri hin => (hall src msg pri hin).2⟩
