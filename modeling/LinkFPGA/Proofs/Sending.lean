import LinkFPGA.Library.Network
import LinkFPGA.Proofs.DiscoveryCodec
import LinkFPGA.Proofs.AliveSchedule
import LinkFPGA.Proofs.PingPong

/-!
# What a node sends

`Emitted` lists the datagrams an event can hand to the network, with what makes it send them: the
two copies of an ALIVE, the RESPONSE to an ALIVE, the PINGs of a measurement and the PONG to a PING.
Their contents are those of the state the event met. `step_sent` says that there are no others, and
`sent_datagrams_fit` is what follows for every run.
-/

namespace LinkFPGA

open Runs Network

/-- The bytes of a datagram. -/
def Datagram.buf : Datagram → List UInt8
  | .unicast _ _ _ buf => buf
  | .mcastV4 _ _ buf => buf
  | .mcastV6 _ _ buf => buf

/-- The port a datagram is sent from. -/
def Datagram.source : Datagram → UInt16
  | .unicast _ _ srcPort _ => srcPort
  | .mcastV4 _ srcPort _ => srcPort
  | .mcastV6 _ srcPort _ => srcPort

/-- The PING that a measurement sends at the next reading of the clock. -/
def pingOf (c : Clock) (s : MeasState) : Datagram :=
  .unicast s.targetAddr s.targetPort linkDiscoveryPort
    (encodePing c.now.toInt64 s.prevGhostTime (decide (0 < s.pingsSent)))

/-- The first PING of the measurement of a peer. -/
def firstPing (c : Clock) (target : Peer) : Datagram :=
  .unicast target.mep4Addr target.mep4Port linkDiscoveryPort (encodePing c.now.toInt64 0 false)

/-- The state in which `session_tick` asks for a measurement: the measurement under way has had
its tick and is over. -/
def AfterTick (w v : World) : Prop :=
  v = { w with clock := (measurementTick w.clock w.meas).clock } ∧
    (measurementTick w.clock w.meas).state.active = false

/-- A datagram that an event sends in the state it meets. -/
inductive Emitted (w : World) (e : Event) : Datagram → Prop where
  | aliveV4 : e = .linkTick → Due w →
      Emitted w e (.mcastV4 linkDiscoveryPort linkDiscoveryPort (encodeMsg w 1 true))
  | aliveV6 : e = .linkTick → Due w →
      Emitted w e (.mcastV6 linkDiscoveryPort linkDiscoveryPort (encodeMsg w 1 true))
  | response (buf : List UInt8) (addr : UInt32) (port : UInt16) :
      e = .udp buf addr port → headerAccepted w.linkSelfId buf = true → messageType buf = 1 →
      (observe w.linkPeers w.clock.now buf).isSome = true →
      Emitted w e (.unicast addr port linkDiscoveryPort (encodeMsg w 2 true))
  /-- An ALIVE or RESPONSE shows a session that is to be measured. -/
  | pingObserved (buf : List UInt8) (addr : UInt32) (port : UInt16) (peers : List Peer) (i : Nat)
      (session : LinkId) (target : Peer) :
      e = .udp buf addr port → headerAccepted w.linkSelfId buf = true →
      messageType buf = 1 ∨ messageType buf = 2 →
      observe w.linkPeers w.clock.now buf = some (peers, i) →
      observeRequest peers w.linkSelfSession i = some (session, target) → w.meas.active = false →
      Emitted w e (firstPing w.clock.advance target)
  /-- A PONG is answered by the next PING until there are enough samples. -/
  | pingAnswered (buf : List UInt8) (addr : UInt32) (port : UInt16) (pong : PongCtx) :
      e = .udp buf addr port → parsePong w.meas buf addr port = some pong →
      pong.sess = w.meas.targetSession →
      (recordSamples w.clock.now.toInt64 pong w.meas).samples.size ≤ linkSampleThreshold →
      Emitted w e (pingOf w.clock.advance { w.meas with prevGhostTime := pong.gt })
  /-- No PONG came in time, and the PINGs are not used up. -/
  | pingAgain : e = .sessionTick → w.meas.active = true → w.meas.nextSendUs ≤ w.clock.now →
      w.meas.pingsSent < linkMaxPings → Emitted w e (pingOf w.clock.advance w.meas)
  /-- The session the node is in is measured again. -/
  | pingRemeasure (v : World) (session : LinkId) (target : Peer) :
      e = .sessionTick → AfterTick w v → remeasureRequest v = some (session, target) →
      Emitted w e (firstPing v.clock.advance target)
  | pong (buf : List UInt8) (addr : UInt32) (port : UInt16) (out : List UInt8) :
      e = .udp buf addr port → isPing buf = true →
      encodePong w.linkSelfSession (ghostNow w) buf = some out →
      Emitted w e (.unicast addr port linkDiscoveryPort out)

/-- `w'` has sent what `w` had, and after that only datagrams with the property; and it has the
IPv6 address that `w` had. -/
structure Sends (P : Datagram → Prop) (w w' : World) : Prop where
  sent : ∃ ds, w'.sent = w.sent ++ ds ∧ ∀ d ∈ ds, P d
  localIpv6 : w'.localIpv6 = w.localIpv6

namespace Sends

variable {P : Datagram → Prop}

/-- What leaves the network alone sends nothing. -/
theorem of_frame {w w' : World} (hsent : w'.sent = w.sent) (hv6 : w'.localIpv6 = w.localIpv6) :
    Sends P w w' :=
  ⟨⟨[], by rw [hsent, List.append_nil], fun d hd => by cases hd⟩, hv6⟩

theorem refl (w : World) : Sends P w w := .of_frame rfl rfl

theorem trans {a b c : World} (h : Sends P a b) (h' : Sends P b c) : Sends P a c := by
  obtain ⟨ds, hds, hall⟩ := h.sent
  obtain ⟨ds', hds', hall'⟩ := h'.sent
  refine ⟨⟨ds ++ ds', by rw [hds', hds, List.append_assoc], fun d hd => ?_⟩,
    h'.localIpv6.trans h.localIpv6⟩
  rcases List.mem_append.mp hd with hd | hd
  · exact hall d hd
  · exact hall' d hd

/-- One datagram handed to the network. -/
theorem send (w : World) {d : Datagram} (h : P d) : Sends P w (w.send d) :=
  ⟨⟨[d], rfl, fun d' hd' => by rw [List.mem_singleton.mp hd']; exact h⟩, rfl⟩

end Sends

/-! ## The handlers -/

/-- The next PING, and when a tick sends it. -/
theorem measurement_tick_sent {c : Clock} {s : MeasState} {d : Datagram}
    (h : d ∈ (measurementTick c s).sent) :
    s.active = true ∧ s.nextSendUs ≤ c.now ∧ s.pingsSent < linkMaxPings ∧
      d = pingOf c.advance s := by
  unfold measurementTick at h
  split at h
  · cases h
  · rename_i hactive
    dsimp only at h
    split at h
    · rename_i hdue
      split at h
      · cases h
      · rename_i hmore
        exact ⟨by simpa using hactive, hdue, Nat.not_le.mp hmore, List.mem_singleton.mp h⟩
    · cases h

/-- What the next PING says is left alone by taking samples, up to the ghost time it echoes. -/
theorem ping_of_record (nowHost : Int64) (ctx : PongCtx) (c : Clock) (s : MeasState) :
    pingOf c (recordSamples nowHost ctx s) = pingOf c { s with prevGhostTime := ctx.gt } := by
  obtain ⟨haddr, hport, -, hghost⟩ := record_samples_target nowHost ctx s
  have hsent : (recordSamples nowHost ctx s).pingsSent = s.pingsSent := by
    unfold recordSamples
    dsimp only
    split <;> split <;> rfl
  unfold pingOf
  rw [haddr, hport, hghost, hsent]

/-- The next PING, and when a PONG brings it about. -/
theorem measurement_handle_rx_sent {c : Clock} {s : MeasState} {buf : List UInt8}
    {srcAddr : UInt32} {srcPort : UInt16} {d : Datagram}
    (h : d ∈ (measurementHandleRx c s buf srcAddr srcPort).sent) :
    ∃ ctx, parsePong s buf srcAddr srcPort = some ctx ∧ ctx.sess = s.targetSession ∧
      (recordSamples c.now.toInt64 ctx s).samples.size ≤ linkSampleThreshold ∧
      d = pingOf c.advance { s with prevGhostTime := ctx.gt } := by
  unfold measurementHandleRx at h
  split at h
  · cases h
  · rename_i ctx hparse
    split at h
    · cases h
    · rename_i hsess
      dsimp only at h
      split at h
      · cases h
      · rename_i hfew
        refine ⟨ctx, hparse, not_not.mp hsess, Nat.not_lt.mp hfew, ?_⟩
        rw [← ping_of_record]
        exact List.mem_singleton.mp h

/-- A handler of `measurement.c` sends at most a PING. -/
def PingsOnly (r : MeasResult) : Prop :=
  ∀ d ∈ r.sent, ∃ addr port hostTime prevGhostTime hasPrev,
    d = .unicast addr port linkDiscoveryPort (encodePing hostTime prevGhostTime hasPrev)

theorem pings_only_of_nil {r : MeasResult} (h : r.sent = []) : PingsOnly r := by
  intro d hd
  rw [h] at hd
  cases hd

theorem send_ping_only (c : Clock) (s : MeasState) : PingsOnly (sendPing c s) := by
  intro d hd
  rw [List.mem_singleton.mp hd]
  exact ⟨_, _, _, _, _, rfl⟩

theorem measurement_tick_pings (c : Clock) (s : MeasState) : PingsOnly (measurementTick c s) := by
  intro d hd
  obtain ⟨-, -, -, rfl⟩ := measurement_tick_sent hd
  exact ⟨_, _, _, _, _, rfl⟩

theorem measurement_handle_rx_pings (c : Clock) (s : MeasState) (buf : List UInt8)
    (srcAddr : UInt32) (srcPort : UInt16) :
    PingsOnly (measurementHandleRx c s buf srcAddr srcPort) := by
  intro d hd
  obtain ⟨_, -, -, -, rfl⟩ := measurement_handle_rx_sent hd
  exact ⟨_, _, _, _, _, rfl⟩

section Handlers

variable {P : Datagram → Prop}

/-- Finishing a measurement sends nothing. -/
theorem on_measure_done_sends (success : Bool) (intercept : Int64) (w : World) :
    Sends P w (onMeasureDone success intercept w) := by
  unfold onMeasureDone
  cases success with
  | false => exact .refl w
  | true =>
      simp only [Bool.not_true, Bool.false_eq_true, if_false]
      split
      · unfold adoptSession
        dsimp only
        split
        · exact .of_frame rfl rfl
        · exact .of_frame rfl rfl
      · exact .of_frame rfl rfl

theorem apply_meas_sends {r : MeasResult} (h : ∀ d ∈ r.sent, P d) (w : World) :
    Sends P w (applyMeas r w) := by
  have hmeasured : Sends P w { w with
      clock := r.clock
      meas := r.state
      sent := w.sent ++ r.sent } := ⟨⟨r.sent, rfl, h⟩, rfl⟩
  unfold applyMeas
  dsimp only
  split
  · exact hmeasured
  · exact hmeasured.trans (on_measure_done_sends _ _ _)

/-- A request sends the first PING of a measurement, unless another one is under way. -/
theorem measurement_request_sends (w : World) {r : Option (LinkId × Peer)}
    (h : ∀ session target, r = some (session, target) → w.meas.active = false →
      P (firstPing w.clock target)) : Sends P w (request w r) := by
  cases r with
  | none => exact .refl w
  | some r =>
      have htarget : Sends P w { w with sActiveTargetSession := r.1 } := .of_frame rfl rfl
      refine htarget.trans (apply_meas_sends (fun d hd => ?_) _)
      unfold measurementStart at hd
      split at hd
      · cases hd
      · rename_i hidle
        rw [List.mem_singleton.mp hd]
        exact h r.1 r.2 rfl (by simpa using hidle)

/-- A tick of the measurement touches the clock, `S` and the network, and nothing else. -/
theorem tick_applied (w : World) :
    applyMeas (measurementTick w.clock w.meas) w = { w with
      clock := (measurementTick w.clock w.meas).clock
      meas := (measurementTick w.clock w.meas).state
      sent := w.sent ++ (measurementTick w.clock w.meas).sent } := by
  obtain ⟨-, -, hfail⟩ := measurement_tick_frame w.clock w.meas
  unfold applyMeas
  dsimp only
  split
  · rfl
  · rename_i success intercept hcall
    cases success with
    | true => exact absurd hcall (hfail intercept)
    | false => rfl

/-- `remeasure` issues the request `remeasureRequest` names. -/
theorem remeasure_sends (w : World) (hforeign : w.linkSelfSession ≠ w.linkSelfId)
    (h : ∀ session target, remeasureRequest w = some (session, target) → w.meas.active = false →
      P (firstPing w.clock.advance target)) : Sends P w (remeasure w) := by
  have hstamped (u : World) (t : UInt64) :
      Sends P u { u with sLastRemeasureUs := t } := .of_frame rfl rfl
  have hread : Sends P w w.advance := .of_frame rfl rfl
  unfold remeasure
  split
  · rename_i hdue
    dsimp only
    split
    · exact hread.trans (hstamped _ _)
    · rename_i target htarget
      have hstart : Sends P w.advance
          (request w.advance (some (w.linkSelfSession, target))) := by
        refine measurement_request_sends _ fun session target' hr hidle => ?_
        obtain ⟨rfl, rfl⟩ := Prod.mk.inj (Option.some.inj hr)
        refine h w.linkSelfSession target ?_ hidle
        rw [remeasureRequest, if_neg hforeign, if_pos hdue, htarget]
        rfl
      exact (hread.trans hstart).trans (hstamped _ _)
  · exact hread

theorem session_tick_sends (w : World) : Sends (Emitted w .sessionTick) w (sessionTick w) := by
  have hticked :
      Sends (Emitted w .sessionTick) w (applyMeas (measurementTick w.clock w.meas) w) := by
    refine apply_meas_sends (fun d hd => ?_) w
    obtain ⟨hactive, hdue, hmore, rfl⟩ := measurement_tick_sent hd
    exact .pingAgain rfl hactive hdue hmore
  unfold sessionTick
  dsimp only
  split
  · exact hticked
  · rename_i hforeign
    refine (hticked.trans (remeasure_sends _ hforeign fun session target hr hidle => ?_)).trans
      (.of_frame rfl rfl)
    rw [tick_applied] at hr hidle ⊢
    exact .pingRemeasure { w with clock := (measurementTick w.clock w.meas).clock } session target
      rfl ⟨rfl, hidle⟩ hr

end Handlers

/-! ## One event -/

/-- Asking for a measurement leaves what the node announces alone. -/
theorem encode_msg_request (w : World) (r : Option (LinkId × Peer)) (mtype : UInt8)
    (withState : Bool) :
    encodeMsg (request w r) mtype withState = encodeMsg w mtype withState := by
  cases r with
  | none => rfl
  | some r =>
      unfold request
      dsimp only
      rw [start_measurement_eq]
      rfl

theorem link_handle_rx_sends (buf : List UInt8) (srcAddr : UInt32) (srcPort : UInt16) (w : World) :
    Sends (Emitted w (.udp buf srcAddr srcPort)) w (linkHandleRx buf srcAddr srcPort w) := by
  unfold linkHandleRx
  split
  · exact .refl w
  · rename_i haccepted
    split
    · exact .of_frame rfl rfl
    · split
      · exact .refl w
      · rename_i htype
        split
        · exact .refl w
        · rename_i peers i hobserved
          dsimp only
          rw [session_observe_peer_eq]
          set heard : World := { w.advance with linkPeers := peers }
          have haccepted : headerAccepted w.linkSelfId buf = true := by simpa using haccepted
          have hobserve : Sends (Emitted w (.udp buf srcAddr srcPort)) w
              (request heard (observeRequest heard.linkPeers heard.linkSelfSession i)) := by
            have hheard : Sends (Emitted w (.udp buf srcAddr srcPort)) w heard := .of_frame rfl rfl
            refine hheard.trans (measurement_request_sends _ fun session target hr hidle => ?_)
            exact .pingObserved buf srcAddr srcPort peers i session target rfl haccepted
              ((not_and_or.mp htype).imp not_not.mp not_not.mp) hobserved hr hidle
          split
          · rename_i halive
            refine hobserve.trans ?_
            unfold sendResponse
            rw [encode_msg_request]
            exact .send _ (.response buf srcAddr srcPort rfl haccepted halive
              (by rw [hobserved]; rfl))
          · exact hobserve

theorem answer_ping_sends (buf : List UInt8) (srcAddr : UInt32) (srcPort : UInt16) (w : World) :
    Sends (Emitted w (.udp buf srcAddr srcPort)) w (answerPing buf srcAddr srcPort w) := by
  unfold answerPing measurementResponderHandleRx
  split
  · rename_i hping
    refine ⟨⟨_, rfl, fun d hd => ?_⟩, rfl⟩
    rw [Option.mem_toList, Option.map_eq_some_iff] at hd
    obtain ⟨out, hout, rfl⟩ := hd
    exact .pong buf srcAddr srcPort out rfl hping hout
  · exact .of_frame (List.append_nil _) rfl

/-- A PING is no PONG: the measurer ignores it. -/
theorem ping_ignored {buf : List UInt8} (h : isPing buf = true) (srcAddr : UInt32)
    (srcPort : UInt16) (w : World) :
    applyMeas (measurementHandleRx w.clock w.meas buf srcAddr srcPort) w = w := by
  have htype : byteAt buf 8 ≠ 2 := by
    rw [(of_decide_eq_true h).2.2]
    decide
  have hparse : parsePong w.meas buf srcAddr srcPort = none := by
    unfold parsePong
    rw [if_pos htype]
    simp only [ite_self]
  rw [measurement_handle_rx_none hparse]
  unfold applyMeas MeasResult.idle
  simp

/-- What is no PING is not answered. -/
theorem answer_ping_refused {buf : List UInt8} (h : ¬ isPing buf = true) (srcAddr : UInt32)
    (srcPort : UInt16) (w : World) : answerPing buf srcAddr srcPort w = w := by
  unfold answerPing measurementResponderHandleRx
  rw [if_neg h]
  simp

/-- A datagram of the measurement protocol is answered as a PING or taken as a PONG. -/
theorem link_protocol_sends (buf : List UInt8) (srcAddr : UInt32) (srcPort : UInt16) (w : World) :
    Sends (Emitted w (.udp buf srcAddr srcPort)) w (answerPing buf srcAddr srcPort
      (applyMeas (measurementHandleRx w.clock w.meas buf srcAddr srcPort) w)) := by
  by_cases hping : isPing buf = true
  · rw [ping_ignored hping]
    exact answer_ping_sends buf srcAddr srcPort w
  · rw [answer_ping_refused hping]
    refine apply_meas_sends (fun d hd => ?_) w
    obtain ⟨ctx, hparse, hsess, hfew, rfl⟩ := measurement_handle_rx_sent hd
    exact .pingAnswered buf srcAddr srcPort ctx rfl hparse hsess hfew

theorem link_tick_sends_alive (w : World) : Sends (Emitted w .linkTick) w (linkTick w) := by
  unfold linkTick
  dsimp only
  split
  · rename_i hdue
    split
    · rename_i hspaced
      have halive : Sends (Emitted w .linkTick) w (sendAlive w.advance) := by
        have hdue : Due w :=
          ⟨(Bool.or_eq_true _ _ ▸ hdue).imp_right of_decide_eq_true, hspaced⟩
        refine ⟨⟨[.mcastV4 linkDiscoveryPort linkDiscoveryPort (encodeMsg w 1 true),
          .mcastV6 linkDiscoveryPort linkDiscoveryPort (encodeMsg w 1 true)], ?_, ?_⟩, rfl⟩
        · exact List.append_assoc w.sent [_] [_]
        · intro d hd
          rcases List.mem_cons.mp hd with rfl | hd
          · exact .aliveV4 rfl hdue
          · rw [List.mem_singleton.mp hd]
            exact .aliveV6 rfl hdue
      exact halive.trans (.of_frame rfl rfl)
    · exact .of_frame rfl rfl
  · exact .of_frame rfl rfl

/-- Lwip alone changes the address. -/
theorem step_sends {w : World} {e : Event} (h : ∀ v4 v6, e ≠ .localAddress v4 v6) :
    Sends (Emitted w e) w (step w e) := by
  cases e with
  | udp buf srcAddr srcPort =>
      show Sends _ w (onUdpRx buf srcAddr srcPort w)
      unfold onUdpRx
      split
      · exact .refl w
      · split
        · exact link_handle_rx_sends buf srcAddr srcPort w
        · split
          · exact link_protocol_sends buf srcAddr srcPort w
          · exact .refl w
  | linkTick => exact link_tick_sends_alive w
  | sessionTick => exact session_tick_sends w
  | setLocalTempo | setPlay | euroReset | broadcastAliveNow => exact .of_frame rfl rfl
  | localAddress v4 v6 => exact absurd rfl (h v4 v6)

/-- An event sends nothing but what `Emitted` lists. -/
theorem step_sent (w : World) (e : Event) :
    ∃ ds, (step w e).sent = w.sent ++ ds ∧ ∀ d ∈ ds, Emitted w e d := by
  cases e with
  | localAddress v4 v6 =>
      exact ⟨[], (List.append_nil _).symm, fun d hd => by cases hd⟩
  | udp | linkTick | sessionTick | setLocalTempo | setPlay | euroReset | broadcastAliveNow =>
      exact (step_sends fun v4 v6 he => by cases he).sent

/-- An IPv6 address has sixteen bytes. -/
def Event.Addressed : Event → Prop
  | .localAddress _ v6 => v6.length = 16
  | _ => True

instance : ∀ e : Event, Decidable e.Addressed
  | .localAddress _ v6 => inferInstanceAs (Decidable (v6.length = 16))
  | .udp _ _ _ | .linkTick | .sessionTick | .setLocalTempo _ | .setPlay _ | .euroReset
  | .broadcastAliveNow => .isTrue trivial

/-- A node whose address is an IPv6 address keeps one. -/
theorem step_addressed {w : World} {e : Event} (h : w.localIpv6.length = 16) (he : e.Addressed) :
    (step w e).localIpv6.length = 16 := by
  cases e with
  | localAddress v4 v6 => exact he
  | udp | linkTick | sessionTick | setLocalTempo | setPlay | euroReset | broadcastAliveNow =>
      rw [(step_sends fun v4 v6 he => by cases he).localIpv6]
      exact h

/-- `link_init` draws an identity and starts the clock; the rest of the state is given. -/
theorem link_init_sends {P : Datagram → Prop} (w : World) : Sends P w (linkInit w) := by
  have hseed (s : UInt32) (w : World) : Sends P w (w.seed s) := .of_frame rfl rfl
  have hbyte (w : World) : Sends P w (prngByte w).2 := by
    have hread : Sends P w w.advance := .of_frame rfl rfl
    unfold prngByte
    dsimp only
    split
    · exact (hread.trans (hseed _ _)).trans (hseed _ _)
    · exact hseed _ _
  have hbytes (n : Nat) : ∀ w, Sends P w (prngBytes n w).2 := by
    induction n with
    | zero => exact fun w => .refl w
    | succ n ih => exact fun w => (hbyte w).trans (ih _)
  have hreset (w : World) (id : LinkId) (origin : Int64) (now : UInt64) :
      Sends P w (loadSelfTimeline (w.advance.advance.reset id origin now)) := .of_frame rfl rfl
  have hdrawn := hbytes 8 w
  unfold linkInit
  generalize prngBytes 8 w = drawn at hdrawn ⊢
  exact hdrawn.trans (hreset drawn.2 _ _ _)

/-- A node that has booted has sent nothing and has the address it was given. -/
theorem boot_sends (reading : Nat → UInt64) (v4 : UInt32) (v6 : List UInt8) :
    (boot reading v4 v6).sent = [] ∧ (boot reading v4 v6).localIpv6 = v6 := by
  have hinit : Sends (fun _ => False) _ (boot reading v4 v6) :=
    link_init_sends (beatPulseInit (powerOn reading v4 v6))
  obtain ⟨ds, hds, hnone⟩ := hinit.sent
  rw [hds, hinit.localIpv6, List.eq_nil_iff_forall_not_mem.mpr hnone]
  exact ⟨rfl, rfl⟩

/-! ## Sizes -/

/-- The size of an ALIVE or RESPONSE. -/
theorem encode_msg_length {w : World} (hv6 : w.localIpv6.length = 16) (mtype : UInt8) :
    (encodeMsg w mtype true).length = 173 := by
  have hv6len := (endpoint_v6 hv6 linkDiscoveryPort).1
  have hv4len := (endpoint_v4 w.localIpv4 linkDiscoveryPort).1
  rw [encode_msg_body hv6]
  simp [discoveryHeader, announcementBody, kProtoHdr, w.linkSelfId.length_bytes,
    w.linkSelfSession.length_bytes, hv6len, hv4len, encodeTmln, encodeStst]

theorem encode_ping_length (hostTime prevGhostTime : Int64) (hasPrev : Bool) :
    (encodePing hostTime prevGhostTime hasPrev).length ≤ 41 := by
  cases hasPrev with
  | false => simp [encodePing, kProtoLink, tlvEmitU64be]
  | true => simp [encodePing, kProtoLink, tlvEmitU64be]

/-- What an event sends fits its buffer and comes from the port of the protocol. -/
theorem Emitted.fits {w : World} {e : Event} {d : Datagram} (h : Emitted w e d)
    (hv6 : w.localIpv6.length = 16) :
    d.buf.length ≤ linkMaxMsgDiscovery ∧ d.source = linkDiscoveryPort := by
  cases h with
  | aliveV4 | aliveV6 =>
      refine ⟨?_, rfl⟩
      show (encodeMsg w 1 true).length ≤ _
      rw [encode_msg_length hv6]
      decide
  | response =>
      refine ⟨?_, rfl⟩
      show (encodeMsg w 2 true).length ≤ _
      rw [encode_msg_length hv6]
      decide
  | pingObserved | pingAnswered | pingAgain | pingRemeasure =>
      exact ⟨(encode_ping_length _ _ _).trans (by decide), rfl⟩
  | pong buf addr port out _ _ hout => exact ⟨encode_pong_length hout, rfl⟩

end LinkFPGA
