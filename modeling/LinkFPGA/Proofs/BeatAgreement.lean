import LinkFPGA.Proofs.Accuracy
import LinkFPGA.Proofs.Adoption
import LinkFPGA.Proofs.BeatContinuity
import LinkFPGA.Proofs.HandlerReadings
import LinkFPGA.Proofs.MalformedDiscovery
import LinkFPGA.Proofs.MeasurementRuns
import LinkFPGA.Proofs.Sending

/-!
# Two nodes agree on the beat

A node measures another one while both handle whatever else happens to them, and takes the other's
session over. `adopted_beats_agree` says that from then on the two ghost times differ by no more
than the longest wait that a handled PONG rests on, and the beats of a common timeline by what the
tempo makes of it.
-/

namespace LinkFPGA

open Runs

/-! ## Two nodes and the datagrams between them -/

/-- A node that measures another one, the other one, and the PINGs and PONGs between them. -/
structure Meeting where
  node : World
  other : World
  pings : List Ping
  pongs : List Pong
  /-- When the PING was sent whose PONG was the last to bring a ghost time. -/
  supplier : Option Nat

/-- What happens next at one of the nodes. -/
inductive MeetingMove where
  | node (e : Event)
  | other (e : Event)
  /-- The other node receives a PING, from this address. -/
  | answer (i : Nat) (addr : UInt32) (port : UInt16)
  /-- The node receives a PONG of the other one. -/
  | deliver (j : Nat)

/-- The state when the clock has been read this many times. -/
def World.upTo (w : World) (reads : Nat) : World := w.on ⟨w.clock.reading, reads⟩ w.sent

/-- The unicast datagrams sent between two states. -/
def sentBetween (w w' : World) : List (List UInt8) := payloads (w'.sent.drop w.sent.length)

/-- The PINGs among them. -/
def pingsBetween (w w' : World) : List (List UInt8) := (sentBetween w w').filter isPing

namespace Exchange

/-- The node has handled an event. Where it sends a PING, it reads the clock once before. -/
def handles (x : Exchange) (m : Meeting) (supplier : Option Nat) (node : World) : Meeting where
  node := node
  other := m.other.upTo node.clock.reads
  pings := m.pings ++ (pingsBetween m.node node).map fun buf =>
    ⟨buf, x.time (m.node.clock.reads + 1), supplier⟩
  pongs := m.pongs
  supplier := supplier

/-- One move. The nodes take turns in reading the time. -/
def meet (x : Exchange) (m : Meeting) : MeetingMove → Meeting
  | .node e => x.handles m m.supplier (LinkFPGA.step m.node e)
  | .other e =>
      let other := LinkFPGA.step m.other e
      { m with
        node := m.node.upTo other.clock.reads
        other := other }
  | .answer i addr port =>
      match m.pings[i]? with
      | none => m
      | some ping =>
          let other := LinkFPGA.step m.other (.udp ping.buf addr port)
          { m with
            node := m.node.upTo other.clock.reads
            other := other
            pongs := m.pongs ++ (sentBetween m.other other).map fun buf => ⟨buf, ping⟩ }
  | .deliver j =>
      match m.pongs[j]? with
      | none => m
      | some pong =>
          let supplier := if (x.accepted m.node.meas pong.buf).isSome then some pong.ping.sentAt
            else m.supplier
          x.handles m supplier (LinkFPGA.step m.node (.udp pong.buf x.addr x.port))

end Exchange

/-- The measurement, without the rest of the nodes. -/
def Meeting.trial (m : Meeting) : Trial :=
  ⟨m.node.clock.reads, m.node.meas, m.pings, m.pongs, m.supplier⟩

/-- The event does not concern the measurement: it is no PONG of the measured node, and no tick at
which the measurement is given up. -/
def Event.Beside (w : World) : Event → Prop
  | .udp buf srcAddr srcPort => parsePong w.meas buf srcAddr srcPort = none
  | .sessionTick => (measurementTick w.clock w.meas).state.active = true
  | _ => True

instance (w : World) : DecidablePred (Event.Beside w)
  | .udp buf srcAddr srcPort =>
      inferInstanceAs (Decidable (parsePong w.meas buf srcAddr srcPort = none))
  | .sessionTick => inferInstanceAs
      (Decidable ((measurementTick w.clock w.meas).state.active = true))
  | .linkTick | .setLocalTempo _ | .setPlay _ | .euroReset | .broadcastAliveNow
  | .localAddress _ _ => .isTrue trivial

namespace Exchange

/-- The other node answers in its session and by its intercept, the network carries all PONGs, no
measurement is given up, and no PONG echoes an unsupplied ghost time. -/
def Fair (x : Exchange) (m : Meeting) : MeetingMove → Prop
  | .node e => m.node.meas.active = true ∧ e.Beside m.node
  | .other _ => True
  | .answer _ _ _ =>
      m.other.linkSelfSession = x.session ∧ ghostTimeGetIntercept m.other = x.intercept
  | .deliver j => x.Supplied m.trial (.deliver j)

instance (x : Exchange) (m : Meeting) : DecidablePred (x.Fair m)
  | .node e => inferInstanceAs (Decidable (m.node.meas.active = true ∧ e.Beside m.node))
  | .other _ => .isTrue trivial
  | .answer _ _ _ => inferInstanceAs (Decidable
      (m.other.linkSelfSession = x.session ∧ ghostTimeGetIntercept m.other = x.intercept))
  | .deliver j => inferInstanceAs (Decidable (x.Supplied m.trial (.deliver j)))

/-- What a handled PONG contributes. -/
def contributes (x : Exchange) (m : Meeting) : MeetingMove → List Handled
  | .deliver j => x.handled m.trial (.deliver j)
  | _ => []

/-- With this event the node asks for the measurement. -/
structure Asks (x : Exchange) (m : Meeting) (e : Event) : Prop where
  node : m.node.clock = x.measurerClock m.node.clock.reads
  other : m.other.clock = x.responderClock m.node.clock.reads
  idle : m.node.meas.active = false
  target : (requested m.node e).map (fun r => (r.1, r.2.mep4Addr, r.2.mep4Port)) =
    some (x.session, x.addr, x.port)
  network : m.pings = [] ∧ m.pongs = [] ∧ m.supplier = none

end Exchange

/-! ## Handlers that do not concern the measurement -/

/-- Between two states the measurement stays as it is, and no PING is sent. -/
structure Calm (w w' : World) : Prop where
  meas : w'.meas = w.meas
  sent : ∃ ds, w'.sent = w.sent ++ ds ∧ ∀ d ∈ ds, isPing d.buf = false

namespace Calm

theorem of_frame {w w' : World} (hmeas : w'.meas = w.meas) (hsent : w'.sent = w.sent) :
    Calm w w' :=
  ⟨hmeas, [], by rw [hsent, List.append_nil], fun _ hd => absurd hd List.not_mem_nil⟩

theorem refl (w : World) : Calm w w := .of_frame rfl rfl

theorem trans {a b c : World} (h : Calm a b) (h' : Calm b c) : Calm a c := by
  obtain ⟨ds, hds, hnone⟩ := h.sent
  obtain ⟨ds', hds', hnone'⟩ := h'.sent
  refine ⟨h'.meas.trans h.meas, ds ++ ds', by rw [hds', hds, List.append_assoc], ?_⟩
  exact fun d hd => (List.mem_append.mp hd).elim (hnone d) (hnone' d)

theorem send (w : World) {d : Datagram} (h : isPing d.buf = false) : Calm w (w.send d) :=
  ⟨rfl, [d], rfl, fun _ hd => List.mem_singleton.mp hd ▸ h⟩

end Calm

/-- A discovery message is no PING. -/
theorem encode_msg_not_ping (w : World) (mtype : UInt8) (withState : Bool) :
    isPing (encodeMsg w mtype withState) = false := by
  have hhdr : (encodeMsg w mtype withState).take 8 = kProtoHdr := by cases withState <;> rfl
  exact decide_eq_false fun h => proto_link_ne_hdr (h.2.1.symm.trans hhdr)

/-- A request is ignored while a measurement is active. -/
theorem request_calm {w : World} (h : w.meas.active = true) (r : Option (LinkId × Peer)) :
    Calm w (request w r) := by
  refine .of_frame ((request_meas_eq_iff w r).mpr (.inr h)) ?_
  cases r with
  | none => rfl
  | some r =>
      unfold request startMeasurement
      dsimp only
      rw [measurement_start_busy h]
      exact List.append_nil _

/-- A discovery message while a measurement is active. -/
theorem link_handle_rx_calm {w : World} (h : w.meas.active = true) (buf : List UInt8)
    (srcAddr : UInt32) (srcPort : UInt16) : Calm w (linkHandleRx buf srcAddr srcPort w) := by
  unfold linkHandleRx
  split
  · exact .refl w
  split
  · exact .of_frame rfl rfl
  split
  · exact .refl w
  split
  · exact .refl w
  · rename_i peers i _
    dsimp only
    rw [session_observe_peer_eq]
    let heard : World := { w.advance with linkPeers := peers }
    have hheard : Calm w heard := .of_frame rfl rfl
    have hobserved := hheard.trans
      (request_calm (w := heard) h (observeRequest peers w.linkSelfSession i))
    split
    · exact hobserved.trans (.send _ (encode_msg_not_ping _ 2 true))
    · exact hobserved

/-- The answer to a PING is no PING. -/
theorem answer_ping_calm (buf : List UInt8) (srcAddr : UInt32) (srcPort : UInt16) (w : World) :
    Calm w (answerPing buf srcAddr srcPort w) := by
  unfold answerPing measurementResponderHandleRx
  split
  · refine ⟨rfl, _, rfl, fun d hd => ?_⟩
    obtain ⟨out, hout, rfl⟩ := Option.map_eq_some_iff.mp (Option.mem_toList.mp hd)
    unfold encodePong at hout
    dsimp only at hout
    split at hout
    · cases hout
    · have htype (out : List UInt8) : byteAt (kProtoLink ++ [2] ++ out) 8 ≠ 1 := by
        show (2 : UInt8) ≠ 1
        decide
      rw [← Option.some.inj hout, List.append_assoc, List.append_assoc]
      exact decide_eq_false fun h => htype _ h.2.2
  · exact .of_frame rfl (List.append_nil _)

theorem on_measure_done_calm (success : Bool) (intercept : Int64) (w : World) :
    Calm w (onMeasureDone success intercept w) := by
  unfold onMeasureDone
  cases success with
  | false => exact .refl w
  | true =>
      simp only [Bool.not_true, Bool.false_eq_true, if_false]
      split
      · unfold adoptSession
        dsimp only
        split
        · exact .of_frame rfl rfl
        · exact .of_frame rfl rfl
      · exact .of_frame rfl rfl

theorem remeasure_calm {w : World} (h : w.meas.active = true) : Calm w (remeasure w) := by
  have hread : Calm w w.advance := .of_frame rfl rfl
  unfold remeasure
  split
  · dsimp only
    split
    · exact hread.trans (.of_frame rfl rfl)
    · rename_i target _
      have hasked := request_calm (w := w.advance) h (some (w.linkSelfSession, target))
      exact (hread.trans hasked).trans (.of_frame rfl rfl)
  · exact hread

/-- An event beside the measurement, and no tick. -/
theorem beside_calm {w : World} {e : Event} (hactive : w.meas.active = true) (h : e.Beside w)
    (htick : e ≠ .sessionTick) : Calm w (step w e) := by
  cases e with
  | udp buf srcAddr srcPort =>
      show Calm w (onUdpRx buf srcAddr srcPort w)
      unfold onUdpRx
      split
      · exact .refl w
      split
      · exact link_handle_rx_calm hactive buf srcAddr srcPort
      split
      · rw [measurement_handle_rx_none h]
        have hidle : Calm w (applyMeas (.idle w.clock w.meas) w) :=
          .of_frame rfl (List.append_nil _)
        exact hidle.trans (answer_ping_calm ..)
      · exact .refl w
  | linkTick =>
      show Calm w (linkTick w)
      have hread : Calm w w.advance := .of_frame rfl rfl
      have halive : Calm w.advance (sendAlive w.advance) := by
        refine ⟨rfl, [.mcastV4 linkDiscoveryPort linkDiscoveryPort (encodeMsg w 1 true),
          .mcastV6 linkDiscoveryPort linkDiscoveryPort (encodeMsg w 1 true)],
          List.append_assoc w.sent [_] [_], fun d hd => ?_⟩
        rcases List.mem_cons.mp hd with rfl | hd
        · exact encode_msg_not_ping w 1 true
        · rw [List.mem_singleton.mp hd]
          exact encode_msg_not_ping w 1 true
      unfold linkTick
      dsimp only
      split
      · split
        · exact (hread.trans halive).trans (.of_frame rfl rfl)
        · exact .of_frame rfl rfl
      · exact .of_frame rfl rfl
  | sessionTick => exact absurd rfl htick
  | setLocalTempo | setPlay | euroReset | broadcastAliveNow | localAddress =>
      exact .of_frame rfl rfl

/-! ## What a handler does to the measurement -/

/-- Between two states a handler of `measurement.c` did this, and the rest sent no PING. -/
structure MeasStep (w w' : World) (r : MeasResult) : Prop where
  meas : w'.meas = r.state
  sent : ∃ ds, w'.sent = w.sent ++ r.sent ++ ds ∧ ∀ d ∈ ds, isPing d.buf = false
  reads : r.clock.reads ≤ w'.clock.reads

theorem MeasStep.trans {a b c : World} {r : MeasResult} (h : MeasStep a b r) (h' : Calm b c)
    (hreads : b.clock.reads ≤ c.clock.reads) : MeasStep a c r := by
  obtain ⟨ds, hds, hnone⟩ := h.sent
  obtain ⟨ds', hds', hnone'⟩ := h'.sent
  refine ⟨h'.meas.trans h.meas, ⟨ds ++ ds', ?_, ?_⟩, h.reads.trans hreads⟩
  · rw [hds', hds, List.append_assoc _ ds ds']
  · exact fun d hd => (List.mem_append.mp hd).elim (hnone d) (hnone' d)

/-- What had been sent is all that counts of the first state. -/
theorem MeasStep.after {a b c : World} {r : MeasResult} (h : MeasStep b c r)
    (hsent : b.sent = a.sent) : MeasStep a c r :=
  ⟨h.meas, hsent ▸ h.sent, h.reads⟩

/-- A handler makes its readings one after the other. -/
theorem Uniform.later {f : World → World} (h : Uniform f) (w : World) :
    (f w).clock.reading = w.clock.reading ∧ w.clock.reads ≤ (f w).clock.reads := by
  obtain ⟨n, new, h⟩ := h w
  rw [(Uniform.leaves h).1]
  exact ⟨rfl, Nat.le_add_right _ _⟩

theorem apply_meas_measured (r : MeasResult) (w : World) : MeasStep w (applyMeas r w) r := by
  let stored : World := { w with clock := r.clock, meas := r.state, sent := w.sent ++ r.sent }
  have hstored : MeasStep w stored r :=
    ⟨rfl, ⟨[], (List.append_nil _).symm, fun _ hd => absurd hd List.not_mem_nil⟩, le_rfl⟩
  unfold applyMeas
  dsimp only
  split
  · exact hstored
  · exact hstored.trans (on_measure_done_calm ..) ((on_measure_done_uniform _ _).later stored).2

/-- A tick of the measurement. -/
theorem session_tick_measured {w : World}
    (hactive : (measurementTick w.clock w.meas).state.active = true) :
    MeasStep w (sessionTick w) (measurementTick w.clock w.meas) := by
  have hticked := apply_meas_measured (measurementTick w.clock w.meas) w
  have hmeas : (applyMeas (measurementTick w.clock w.meas) w).meas.active = true := by
    rw [hticked.meas]
    exact hactive
  unfold sessionTick
  dsimp only
  split
  · exact hticked
  · exact (hticked.trans (remeasure_calm hmeas) (remeasure_uniform.later _).2).trans
      (.of_frame rfl rfl) le_rfl

/-- A measurement datagram. -/
theorem pong_measured {buf : List UInt8} (hmagic : buf.take 8 = kProtoLink) (srcAddr : UInt32)
    (srcPort : UInt16) (w : World) : MeasStep w (step w (.udp buf srcAddr srcPort))
      (measurementHandleRx w.clock w.meas buf srcAddr srcPort) := by
  rw [step_pong hmagic]
  exact (apply_meas_measured _ w).trans (answer_ping_calm ..)
    ((answer_ping_uniform buf srcAddr srcPort).later _).2

theorem request_measured (w : World) (session : LinkId) (target : Peer) :
    MeasStep w (request w (some (session, target)))
      (measurementStart w.clock w.meas target.mep4Addr target.mep4Port session true) :=
  (apply_meas_measured _ { w with sActiveTargetSession := session }).after rfl

/-- The event with which an idle node asks for a measurement. -/
theorem asked_measured {w : World} {e : Event} {session : LinkId} {target : Peer}
    (hidle : w.meas.active = false) (h : requested w e = some (session, target)) :
    MeasStep w (step w e) (measurementStart w.clock.advance w.meas target.mep4Addr
      target.mep4Port session true) := by
  cases e with
  | udp buf srcAddr srcPort =>
      unfold requested at h
      dsimp only at h
      split at h
      · rename_i haccepted
        obtain ⟨hheader, htype⟩ := haccepted
        obtain ⟨hlen, hmagic, -⟩ := of_decide_eq_true hheader
        have hbyebye : ¬ messageType buf = 3 := by
          rcases htype with h | h <;> rw [h] <;> decide
        show MeasStep w (onUdpRx buf srcAddr srcPort w) _
        rw [onUdpRx, if_neg (by omega), if_pos hmagic, linkHandleRx, if_neg (by simp [hheader]),
          if_neg hbyebye, if_neg (by tauto)]
        cases hobserve : observe w.linkPeers w.clock.now buf with
        | none =>
            rw [hobserve] at h
            cases h
        | some slot =>
            rw [hobserve] at h
            dsimp only
            rw [session_observe_peer_eq]
            let heard : World := { w.advance with linkPeers := slot.1 }
            have hasked : observeRequest heard.linkPeers heard.linkSelfSession slot.2 =
                some (session, target) := h
            have hheard : heard.sent = w.sent := rfl
            have hstarted := (request_measured heard session target).after hheard
            rw [← hasked] at hstarted
            split
            · exact hstarted.trans (.send _ (encode_msg_not_ping _ 2 true)) le_rfl
            · exact hstarted
      · cases h
  | sessionTick =>
      have hticked : measurementTick w.clock w.meas = .idle w.clock w.meas := by
        rw [measurementTick, hidle]
        rfl
      have hquiet : applyMeas (measurementTick w.clock w.meas) w = w := by
        rw [hticked]
        unfold applyMeas MeasResult.idle
        dsimp only
        rw [List.append_nil]
      have hasked : remeasureRequest w = some (session, target) := by
        rw [← h, requested, hquiet]
      unfold remeasureRequest at hasked
      show MeasStep w (sessionTick w) _
      unfold sessionTick
      rw [hquiet]
      split at hasked
      · cases hasked
      · rename_i hjoined
        dsimp only
        rw [if_neg hjoined]
        split at hasked
        · rename_i hdue
          obtain ⟨found, hfound, hsame⟩ := Option.map_eq_some_iff.mp hasked
          cases hsame
          rw [remeasure, if_pos hdue, hfound]
          dsimp only
          have hread : w.advance.sent = w.sent := rfl
          have hstarted := (request_measured w.advance w.linkSelfSession target).after hread
          exact (hstarted.trans (.of_frame rfl rfl) le_rfl).trans (.of_frame rfl rfl) le_rfl
        · cases hasked
  | linkTick | setLocalTempo | setPlay | euroReset | broadcastAliveNow | localAddress => cases h

/-! ## The measurement within the run -/

/-- The handler of `measurement.c` sends PINGs, after one reading of the clock. -/
structure Prompt (c : Clock) (r : MeasResult) : Prop where
  pings : PingsOnly r
  reads : r.sent ≠ [] → r.clock.reads = c.reads + 3

theorem measurement_tick_prompt (c : Clock) (s : MeasState) : Prompt c (measurementTick c s) := by
  refine ⟨measurement_tick_pings c s, ?_⟩
  unfold measurementTick
  split
  · exact fun h => absurd rfl h
  · dsimp only
    split
    · split
      · exact fun h => absurd rfl h
      · exact fun _ => rfl
    · exact fun h => absurd rfl h

theorem measurement_handle_rx_prompt (c : Clock) (s : MeasState) (buf : List UInt8)
    (srcAddr : UInt32) (srcPort : UInt16) :
    Prompt c (measurementHandleRx c s buf srcAddr srcPort) := by
  refine ⟨measurement_handle_rx_pings c s buf srcAddr srcPort, ?_⟩
  unfold measurementHandleRx
  split
  · exact fun h => absurd rfl h
  · split
    · exact fun h => absurd rfl h
    · dsimp only
      split
      · exact fun h => absurd rfl h
      · exact fun _ => rfl

/-- What is recorded as a PING is what the handler of `measurement.c` sent. -/
theorem MeasStep.pings {w w' : World} {r : MeasResult} (h : MeasStep w w' r)
    (honly : PingsOnly r) : pingsBetween w w' = payloads r.sent := by
  obtain ⟨ds, hds, hnone⟩ := h.sent
  have hping : ∀ buf ∈ payloads r.sent, isPing buf = true := by
    intro buf hbuf
    obtain ⟨d, hd, hd'⟩ := List.mem_filterMap.mp hbuf
    obtain ⟨addr, port, hostTime, prev, hasPrev, rfl⟩ := honly d hd
    cases hd'
    exact is_ping_encode hostTime prev hasPrev
  have hother : ∀ buf ∈ payloads ds, ¬ isPing buf = true := by
    intro buf hbuf
    obtain ⟨d, hd, hd'⟩ := List.mem_filterMap.mp hbuf
    have hd := hnone d hd
    cases d with
    | unicast addr port src out =>
        cases hd'
        rw [show isPing buf = false from hd]
        decide
    | mcastV4 | mcastV6 => cases hd'
  have hpayloads : payloads (r.sent ++ ds) = payloads r.sent ++ payloads ds :=
    List.filterMap_append
  unfold pingsBetween sentBetween
  rw [hds, List.append_assoc, List.drop_left, hpayloads, List.filter_append,
    List.filter_eq_self.mpr hping, List.filter_eq_nil_iff.mpr hother, List.append_nil]

namespace Exchange

variable {x : Exchange} {m : Meeting} {past : List Handled}

theorem handles_trial {supplier : Option Nat} {node : World} {r : MeasResult}
    (h : MeasStep m.node node r) (hprompt : Prompt m.node.clock r) :
    (x.handles m supplier node).trial =
      { x.after m.trial supplier r with reads := node.clock.reads } := by
  have hpings : (pingsBetween m.node node).map (fun buf =>
      (⟨buf, x.time (m.node.clock.reads + 1), supplier⟩ : Ping)) =
        (payloads r.sent).map fun buf => ⟨buf, x.time (r.clock.reads - 2), supplier⟩ := by
    rw [h.pings hprompt.pings]
    by_cases hsent : r.sent = []
    · rw [hsent]
      rfl
    · rw [hprompt.reads hsent]
      rfl
  unfold Meeting.trial handles after
  rw [hpings, h.meas]

/-- The clocks of the nodes, and the measurement between them. -/
structure Met (x : Exchange) (m : Meeting) (past : List Handled) : Prop where
  node : m.node.clock = x.measurerClock m.node.clock.reads
  other : m.other.clock = x.responderClock m.node.clock.reads
  inv : x.Inv m.trial past

theorem handles_met {past' : List Handled}
    (hnode : m.node.clock = x.measurerClock m.node.clock.reads)
    (hother : m.other.clock = x.responderClock m.node.clock.reads) {supplier : Option Nat}
    {node : World} {r : MeasResult} (hclock : node.clock.reading = m.node.clock.reading)
    (hmeasured : MeasStep m.node node r) (hprompt : Prompt m.node.clock r)
    (hinv : x.Inv (x.after m.trial supplier r) past') :
    x.Met (x.handles m supplier node) past' := by
  refine ⟨?_, ?_, ?_⟩
  · show node.clock = x.measurerClock node.clock.reads
    rw [hnode] at hclock
    exact congrArg (fun reading => Clock.mk reading node.clock.reads) hclock
  · show Clock.mk m.other.clock.reading node.clock.reads = x.responderClock node.clock.reads
    rw [hother]
    rfl
  · rw [handles_trial hmeasured hprompt]
    exact hinv.later (s := (x.after m.trial supplier r).meas) hmeasured.reads rfl rfl rfl rfl
      fun _ => Iff.rfl

theorem step_later (w : World) (e : Event) :
    (LinkFPGA.step w e).clock.reading = w.clock.reading ∧
      w.clock.reads ≤ (LinkFPGA.step w e).clock.reads :=
  (step_uniform e).later w

/-- An event beside the measurement, at the node. -/
theorem Met.beside (h : x.Met m past) {e : Event} (hactive : m.node.meas.active = true)
    (he : e.Beside m.node) : x.Met (x.meet m (.node e)) past := by
  obtain ⟨hreading, hreads⟩ := step_later m.node e
  by_cases htick : e = .sessionTick
  · subst htick
    refine handles_met h.node h.other hreading (session_tick_measured he)
      (measurement_tick_prompt _ _) ?_
    rw [h.node]
    exact h.inv.tick
  · let idle : MeasResult := .idle m.node.clock m.node.meas
    have hidle : MeasStep m.node m.node idle :=
      ⟨rfl, ⟨[], by rw [List.append_nil]; exact (List.append_nil _).symm,
        fun _ hd => absurd hd List.not_mem_nil⟩, le_rfl⟩
    have hsilent : Prompt m.node.clock idle :=
      ⟨pings_only_of_nil rfl, fun hsent => absurd rfl hsent⟩
    have hmeasured := hidle.trans (beside_calm hactive he htick) hreads
    refine handles_met h.node h.other hreading hmeasured hsilent ?_
    rw [after_silent _ _ _ rfl]
    exact h.inv

/-- An event at the other node. -/
theorem Met.elsewhere (h : x.Met m past) {other : World}
    (hreading : other.clock.reading = m.other.clock.reading)
    (hreads : m.other.clock.reads ≤ other.clock.reads) :
    x.Met { m with
      node := m.node.upTo other.clock.reads
      other := other } past := by
  have hsame : m.other.clock.reads = m.node.clock.reads := by rw [h.other]; rfl
  refine ⟨?_, ?_, ?_⟩
  · show Clock.mk m.node.clock.reading other.clock.reads = x.measurerClock other.clock.reads
    rw [h.node]
    rfl
  · show other.clock = x.responderClock other.clock.reads
    rw [h.other] at hreading
    exact congrArg (fun reading => Clock.mk reading other.clock.reads) hreading
  · exact h.inv.later (s := m.node.meas) (hsame.symm.le.trans hreads) rfl rfl rfl rfl
      fun _ => Iff.rfl

/-- A PING at the other node. -/
theorem Met.answer (h : x.Met m past) (i : Nat) (addr : UInt32) (port : UInt16)
    (hsession : m.other.linkSelfSession = x.session)
    (hintercept : ghostTimeGetIntercept m.other = x.intercept) :
    x.Met (x.meet m (.answer i addr port)) past := by
  unfold meet
  dsimp only
  cases hping : m.pings[i]? with
  | none => exact h
  | some ping =>
      dsimp only
      obtain ⟨k, hk, hsentAt, prev, hasPrev, hbuf, hprev⟩ :=
        h.inv.pings ping (List.mem_of_getElem? hping)
      have hping' : isPing ping.buf = true := hbuf ▸ is_ping_encode ..
      obtain ⟨-, hmagic, htype⟩ := of_decide_eq_true hping'
      -- the measurer of the other node ignores the PING, its responder answers
      have hignored : parsePong m.other.meas ping.buf addr port = none := by
        cases hparse : parsePong m.other.meas ping.buf addr port with
        | none => rfl
        | some ctx =>
            have htwo := (parse_pong_some hparse).2.2.1
            rw [htype] at htwo
            exact absurd htwo (by decide)
      have hidle : applyMeas (.idle m.other.clock m.other.meas) m.other = m.other := by
        unfold applyMeas MeasResult.idle
        dsimp only
        rw [List.append_nil]
      have hother : LinkFPGA.step m.other (.udp ping.buf addr port) =
          answerPing ping.buf addr port m.other := by
        rw [step_pong hmagic, measurement_handle_rx_none hignored, hidle]
      let out := encodePong x.session (m.other.clock.now + x.intercept.toUInt64) ping.buf
      let answer (addr : UInt32) (port : UInt16) : List Datagram :=
        (out.map (.unicast addr port linkDiscoveryPort ·)).toList
      have hpayloads : ∀ addr port, payloads (answer addr port) = out.toList := by
        intro addr port
        unfold answer
        cases out <;> rfl
      have hresponds : measurementResponderHandleRx m.other.linkSelfSession
          (ghostTimeGetIntercept m.other) m.other.clock ping.buf addr port =
            (m.other.clock.advance, answer addr port) := by
        unfold measurementResponderHandleRx
        rw [if_pos hping', hsession, hintercept]
      have hpong : answerPing ping.buf addr port m.other = { m.other with
          clock := m.other.clock.advance
          sent := m.other.sent ++ answer addr port } := by
        unfold answerPing
        rw [hresponds]
      have htrial : measurementResponderHandleRx x.session x.intercept
          (x.responderClock m.node.clock.reads) ping.buf 0 0 =
            (m.other.clock.advance, answer 0 0) := by
        unfold measurementResponderHandleRx
        rw [if_pos hping', ← h.other]
      have hsent : sentBetween m.other (answerPing ping.buf addr port m.other) = out.toList := by
        unfold sentBetween
        rw [hpong, List.drop_left, hpayloads]
      have hanswered := h.inv.answer i
      unfold Exchange.step at hanswered
      have hpings : m.trial.pings = m.pings := rfl
      have hreads : m.trial.reads = m.node.clock.reads := rfl
      dsimp only at hanswered
      rw [hpings, hreads, hping] at hanswered
      dsimp only at hanswered
      rw [htrial, hpayloads] at hanswered
      obtain ⟨hreading, hlater⟩ := step_later m.other (.udp ping.buf addr port)
      have hmoved := h.elsewhere hreading hlater
      rw [hother] at hmoved ⊢
      rw [hsent]
      refine ⟨hmoved.node, hmoved.other, ?_⟩
      rw [hpong]
      exact hanswered

/-- A PONG at the node. -/
theorem Met.deliver (h : x.Met m past) {j : Nat} (hguard : x.Supplied m.trial (.deliver j)) :
    x.Met (x.meet m (.deliver j)) (past ++ x.handled m.trial (.deliver j)) := by
  have hinv := (h.inv.deliver hguard).1
  unfold meet
  unfold Exchange.step at hinv
  dsimp only at hinv ⊢
  have hpongs : m.trial.pongs = m.pongs := rfl
  rw [hpongs] at hinv
  cases hpong : m.pongs[j]? with
  | none =>
      rw [hpong] at hinv
      exact ⟨h.node, h.other, hinv⟩
  | some q =>
      rw [hpong] at hinv
      dsimp only at hinv ⊢
      obtain ⟨r, hr, i, hi, hsentAt, prev, hasPrev, hping, hbuf, hprev⟩ :=
        h.inv.pongs q (List.mem_of_getElem? hpong)
      have hmagic : q.buf.take 8 = kProtoLink := by
        rw [hbuf]
        rfl
      refine handles_met h.node h.other (step_later _ _).1
        (pong_measured hmagic x.addr x.port m.node) (measurement_handle_rx_prompt _ _ _ _ _) ?_
      rw [h.node]
      exact hinv

/-- A move keeps the invariant. -/
theorem Met.meet (h : x.Met m past) {move : MeetingMove} (hfair : x.Fair m move) :
    x.Met (x.meet m move) (past ++ x.contributes m move) := by
  cases move with
  | node e =>
      rw [show x.contributes m (.node e) = [] from rfl, List.append_nil]
      exact h.beside hfair.1 hfair.2
  | other e =>
      rw [show x.contributes m (.other e) = [] from rfl, List.append_nil]
      exact h.elsewhere (step_later m.other e).1 (step_later m.other e).2
  | answer i addr port =>
      rw [show x.contributes m (.answer i addr port) = [] from rfl, List.append_nil]
      exact h.answer i addr port hfair.1 hfair.2
  | deliver j => exact h.deliver hfair

/-- The event that asks for the measurement establishes it. -/
theorem Asks.begins {e : Event} (h : x.Asks m e) : x.Met (x.meet m (.node e)) [] := by
  obtain ⟨⟨session, target⟩, hrequested, htarget⟩ := Option.map_eq_some_iff.mp h.target
  obtain ⟨rfl, haddr, hport⟩ : session = x.session ∧ target.mep4Addr = x.addr ∧
      target.mep4Port = x.port := by simpa using htarget
  have hmeasured := asked_measured h.idle hrequested
  let started : MeasState :=
    { MeasState.zero with
      active := true
      targetAddr := x.addr
      targetPort := x.port
      targetSession := x.session
      completion := true }
  have hstart : measurementStart m.node.clock.advance m.node.meas target.mep4Addr
      target.mep4Port x.session true = sendPing m.node.clock.advance started := by
    rw [measurementStart, h.idle, haddr, hport]
    rfl
  rw [hstart] at hmeasured
  have hbefore : x.Inv ⟨m.node.clock.reads + 1, started, [], [], none⟩ [] := by
    refine ⟨rfl, rfl, rfl, ?_, ?_, ?_, ?_, ?_⟩
    · exact fun p hp => absurd hp List.not_mem_nil
    · exact fun q hq => absurd hq List.not_mem_nil
    · exact fun since hsince => absurd hsince (Option.some_ne_none since).symm
    · exact fun e he => absurd he List.not_mem_nil
    · exact fun B _ v hv => absurd hv (Array.not_mem_empty v)
  refine handles_met h.node h.other (step_later m.node e).1 hmeasured
    ⟨send_ping_only _ _, fun _ => rfl⟩ ?_
  obtain ⟨hpings, hpongs, hsupplier⟩ := h.network
  unfold Meeting.trial
  rw [hpings, hpongs, hsupplier, h.node]
  exact hbefore.send

theorem run_met {e : Event} (h : x.Asks m e) {moves : List MeetingMove}
    (hfair : Guarded x.meet x.Fair (x.meet m (.node e)) moves) :
    x.Met (run x.meet (x.meet m (.node e)) moves)
      (log x.meet x.contributes (x.meet m (.node e)) moves) :=
  run_log_induct (fun _ _ _ hmet hok => hmet.meet hok) h.begins hfair

/-! ## Adopting the session -/

/-- The PONG completes the measurement, and the node takes the session over. -/
def Adopts (x : Exchange) (m : Meeting) (j : Nat) : Prop :=
  ∃ pong ∈ m.pongs[j]?, ∃ r ∈ reports m.node (.udp pong.buf x.addr x.port), Switches m.node r.2

/-- No wait is longer than the time that has passed. -/
theorem handled_bound {t : Trial} {a : Action} {p : Handled} (h : p ∈ x.handled t a) :
    p.bound ≤ 1 + x.time t.reads := by
  unfold handled at h
  split at h
  · split at h
    · cases h
    · split at h
      · cases h
      · rw [List.mem_singleton.mp h]
        exact Nat.add_le_add_left (Nat.sub_le _ _) 1
  · cases h

/-- The intercept that the node adopts. -/
theorem Met.adopted (h : x.Met m past) {j : Nat} (hguard : x.Supplied m.trial (.deliver j))
    (hadopts : x.Adopts m j) {B : Nat}
    (hB : ∀ p ∈ past ++ x.contributes m (.deliver j), p.bound ≤ B) :
    |(ghostTimeGetIntercept (x.meet m (.deliver j)).node).toInt - x.offset| ≤ B := by
  obtain ⟨q, hq, r, hr, hswitch⟩ := hadopts
  have hpong : m.pongs[j]? = some q := hq
  have hnode : (x.meet m (.deliver j)).node = LinkFPGA.step m.node (.udp q.buf x.addr x.port) := by
    unfold Exchange.meet
    dsimp only
    rw [hpong]
    rfl
  have hreported : r.2 ∈ x.reported m.trial (.deliver j) := by
    have hpongs : m.trial.pongs = m.pongs := rfl
    have hmeas : m.trial.meas = m.node.meas := rfl
    have hreads : m.trial.reads = m.node.clock.reads := rfl
    unfold reports at hr
    unfold reported
    dsimp only at hr ⊢
    rw [hpongs, hpong, hmeas, hreads, ← h.node]
    dsimp only
    split at hr
    · generalize (measurementHandleRx m.node.clock m.node.meas q.buf x.addr x.port).call = call
        at hr ⊢
      unfold successOf at hr
      split at hr
      · rw [List.mem_singleton.mp hr]
        exact List.mem_singleton_self _
      · cases hr
    · cases hr
  rw [hnode]
  rcases step_cases m.node (.udp q.buf x.addr x.port) with ⟨hnone, _⟩ | ⟨intercept, hone, hdone⟩
  · rw [hnone] at hr
    cases hr
  · rw [hone] at hr
    rw [List.mem_singleton.mp hr] at hswitch hreported
    unfold Switches at hswitch
    rw [ghost_diff_eq] at hswitch
    have houtcome := hdone.outcome
    unfold Outcome at houtcome
    rw [if_pos hswitch] at houtcome
    rw [houtcome.2]
    exact (h.inv.deliver hguard).2.2 intercept hreported B hB

/-- The ghost time that the measuring node shows. -/
theorem node_ghost {w : World} (hclock : w.clock = x.measurerClock w.clock.reads) {k : Nat}
    (hk : x.time k < 2 ^ 60) (hlo : -2 ^ 62 ≤ (ghostTimeGetIntercept w).toInt)
    (hhi : (ghostTimeGetIntercept w).toInt < 2 ^ 62) :
    (ghostNow (w.upTo k)).toInt64.toInt = x.time k + (ghostTimeGetIntercept w).toInt := by
  have hnow : (w.upTo k).clock.now = UInt64.ofNat (x.time k) := by
    show w.clock.reading k = _
    rw [hclock]
    rfl
  have hsum : (ghostNow (w.upTo k)).toInt64 = x.stampAt k + ghostTimeGetIntercept w := by
    unfold ghostNow
    rw [hnow]
    rfl
  have hstamp := stamp_at_toInt hk
  rw [hsum, add_toInt_of_fits ⟨by omega, by omega⟩, hstamp]

/-- The ghost time that the other node shows. -/
theorem other_ghost {w : World} (hclock : w.clock.reading = (x.responderClock 0).reading) {k : Nat}
    (hintercept : ghostTimeGetIntercept w = x.intercept) :
    ghostNow (w.upTo k) = x.ghostAt k := by
  have hnow : (w.upTo k).clock.now = (Int64.ofInt (x.time k + x.skew)).toUInt64 := by
    show w.clock.reading k = _
    rw [hclock]
    rfl
  unfold ghostNow
  rw [hnow, show ghostTimeGetIntercept (w.upTo k) = x.intercept from hintercept]
  rfl

end Exchange

/-- The beat that a timeline shows, where it is defined. -/
theorem checked_beats {tl : Timeline} {ghost beats : Int64}
    (h : Checked.beatsAt tl ghost = some beats) : (beats.toInt : Rat) =
      tl.beatOriginMicrobeats.toInt + truncated
        (((ghost.toInt - tl.timeOriginUsGhost.toInt : Int) : Rat) * 1000000 /
          tl.tempoUsPerBeat.toInt) := by
  unfold Checked.beatsAt at h
  obtain ⟨elapsed, helapsed, h⟩ := Option.bind_eq_some_iff.mp h
  split at h
  · cases h
  · obtain ⟨beaten, hbeaten, h⟩ := Option.bind_eq_some_iff.mp h
    obtain ⟨hfits, rfl⟩ := sub_checked_eq_some.mp helapsed
    obtain ⟨htrunc, rfl⟩ := trunc_checked_eq_some.mp hbeaten
    obtain ⟨hsum, rfl⟩ := add_checked_eq_some.mp h
    rw [add_toInt_of_fits hsum, trunc_toInt htrunc, sub_toInt_of_fits hfits]
    push_cast
    rfl

/-- Where two ghost times are near, so are the beats of a timeline. -/
theorem beats_near {tl : Timeline} (htempo : 0 < tl.tempoUsPerBeat.toInt)
    {ghost ghost' beats beats' : Int64} (h : Checked.beatsAt tl ghost = some beats)
    (h' : Checked.beatsAt tl ghost' = some beats') {B : Nat}
    (hnear : |ghost.toInt - ghost'.toInt| ≤ B) :
    |(beats.toInt : Rat) - beats'.toInt| ≤ B * 1000000 / tl.tempoUsPerBeat.toInt + 2 := by
  have htempo' : (0 : Rat) < tl.tempoUsPerBeat.toInt := by exact_mod_cast htempo
  set q : Rat := ((ghost.toInt - tl.timeOriginUsGhost.toInt : Int) : Rat) * 1000000 /
    tl.tempoUsPerBeat.toInt with hq
  set q' : Rat := ((ghost'.toInt - tl.timeOriginUsGhost.toInt : Int) : Rat) * 1000000 /
    tl.tempoUsPerBeat.toInt with hq'
  have hdiff : q - q' = ((ghost.toInt - ghost'.toInt : Int) : Rat) * 1000000 /
      tl.tempoUsPerBeat.toInt := by
    rw [hq, hq']
    push_cast
    ring
  have hline : |q - q'| ≤ B * 1000000 / tl.tempoUsPerBeat.toInt := by
    rw [hdiff, abs_div, abs_mul, abs_of_pos htempo', abs_of_pos (by norm_num : (0 : Rat) < 1000000)]
    have hcast : |((ghost.toInt - ghost'.toInt : Int) : Rat)| ≤ B := by exact_mod_cast hnear
    gcongr
  have htrunc := abs_le.mp (truncated_near q)
  have htrunc' := abs_le.mp (truncated_near q')
  have hline := abs_le.mp hline
  rw [checked_beats h, checked_beats h', ← hq, ← hq', abs_le]
  constructor
  · linarith
  · linarith

/-- Clock readings a millisecond apart, and another node that is five seconds ahead. -/
def Exchange.ahead : Exchange where
  time k := 1000 + 1000 * k
  monotone k := by omega
  skew := 5000000
  intercept := 0
  session := ⟨[98, 230, 146, 141, 206, 106, 249, 132], rfl⟩
  addr := 0x0A000002
  port := linkDiscoveryPort

namespace Meeting

/-- Two nodes that have just started. -/
def strangers : Meeting where
  node := (boot (Exchange.ahead.measurerClock 0).reading 0x0A000001 (List.replicate 16 0)).upTo 10
  other := (boot (Exchange.ahead.responderClock 0).reading 0x0A000002 (List.replicate 16 0)).upTo 10
  pings := []
  pongs := []
  supplier := none

/-- The node hears of the other one. -/
def greeted : Meeting := Exchange.ahead.meet strangers (.node (aliveFrom strangers.other))

/-- Two PINGs are answered, and the second PONG is delivered again and again. -/
def echoes : List MeetingMove :=
  [.answer 0 0x0A000001 linkDiscoveryPort, .deliver 0, .answer 1 0x0A000001 linkDiscoveryPort] ++
    List.replicate 49 (.deliver 1)

end Meeting

end LinkFPGA
