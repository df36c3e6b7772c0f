import LinkFPGA.Proofs.PeerMap

/-!
# The schedule of ALIVEs

`send_alive`, the throttle of `link_tick` and `link_broadcast_alive_now` share three variables:
the time of the last ALIVE, the time of the next one, and whether something changed since.
`Silent` says what every other handler may do to them and `link_tick_announces` when a tick sends.
`Scheduled` is the invariant of a run, and `alive_schedule` reads off it the gap of 50 ms, the
period of 250 ms, and that no edit stays unannounced.

A run starts at `boot` and is any list of events; the host clock must not go back.
-/

namespace LinkFPGA

open Runs

/-! ## The ALIVEs of a step -/

/-- An ALIVE, with the stamp `send_alive` records. -/
structure Alive where
  time : UInt64
  buf : List UInt8
  deriving DecidableEq, Repr

/-- The message of an ALIVE, from its IPv4 copy. -/
def aliveBuf : Datagram → Option (List UInt8)
  | .mcastV4 _ _ buf => if messageType buf = 1 then some buf else none
  | _ => none

/-- The ALIVEs that an event sends. -/
def alives (w : World) (e : Event) : List Alive :=
  (((step w e).sent.drop w.sent.length).filterMap aliveBuf).map (Alive.mk (step w e).sLastBcastUs)

/-- The ALIVEs of a run, in order. -/
abbrev sentAlives (w : World) (es : List Event) : List Alive := log step alives w es

/-- The time of the last ALIVE; power-up, at host time 0, counts where there was none. -/
def lastTime (past : List Alive) : Nat := past.getLast?.elim 0 fun a => a.time.toNat

/-- A change of the node's own timeline, start/stop state or session. -/
def Edit (w : World) : Event → Prop
  | .setLocalTempo _ | .setPlay _ | .euroReset | .broadcastAliveNow => True
  | .udp buf srcAddr srcPort => ∃ r ∈ reports w (.udp buf srcAddr srcPort),
      switchToNew (ghostDiff r.2 w) w.sActiveTargetSession w.linkSelfSession = true
  | _ => False

/-- `w'` follows `w` without an ALIVE: the last one stays the last, and what was pending stays
pending. -/
structure Silent (w w' : World) : Prop where
  later : w.clock.Later w'.clock
  sent : ∃ ds, w'.sent = w.sent ++ ds ∧ ds.filterMap aliveBuf = []
  last : w'.sLastBcastUs = w.sLastBcastUs
  idle : w'.sStateDirty = false → w.sStateDirty = false ∧ w'.sNextBcastUs = w.sNextBcastUs

namespace Silent

theorem refl (w : World) : Silent w w := ⟨.refl _, ⟨[], by simp⟩, rfl, fun h => ⟨h, rfl⟩⟩

theorem trans {a b c : World} (h : Silent a b) (h' : Silent b c) : Silent a c := by
  obtain ⟨ds, hds, hnone⟩ := h.sent
  obtain ⟨es, hes, hnone'⟩ := h'.sent
  refine ⟨h.later.trans h'.later, ⟨ds ++ es, by simp [hes, hds], by simp [hnone, hnone']⟩,
    h'.last.trans h.last, fun hidle => ?_⟩
  obtain ⟨hb, hnext⟩ := h'.idle hidle
  exact ⟨(h.idle hb).1, hnext.trans (h.idle hb).2⟩

/-- What leaves the schedule and the network alone is quiet. -/
theorem of_frame {w w' : World} (hlater : w.clock.Later w'.clock) (hsent : w'.sent = w.sent)
    (hlast : w'.sLastBcastUs = w.sLastBcastUs) (hnext : w'.sNextBcastUs = w.sNextBcastUs)
    (hdirty : w'.sStateDirty = w.sStateDirty) : Silent w w' :=
  ⟨hlater, ⟨[], by simp [hsent]⟩, hlast, fun h => ⟨hdirty ▸ h, hnext⟩⟩

theorem no_alives {w : World} {e : Event} (h : Silent w (step w e)) : alives w e = [] := by
  obtain ⟨ds, hds, hnone⟩ := h.sent
  rw [alives, hds, List.drop_left, hnone, List.map_nil]

/-- A pending ALIVE stays pending. -/
theorem dirty {w w' : World} (h : Silent w w') (hdirty : w.sStateDirty = true) :
    w'.sStateDirty = true := by
  by_contra hclean
  have hidle := (h.idle (by simpa using hclean)).1
  rw [hdirty] at hidle
  cases hidle

end Silent

/-! ## Handlers that send no ALIVE -/

theorem advance_silent (w : World) : Silent w w.advance :=
  .of_frame w.clock.later_advance rfl rfl rfl rfl

theorem broadcast_alive_now_silent (w : World) : Silent w (linkBroadcastAliveNow w) :=
  ⟨w.clock.later_advance, ⟨[], (List.append_nil _).symm, rfl⟩, rfl, fun h => by cases h⟩

theorem send_response_silent (addr : UInt32) (port : UInt16) (w : World) :
    Silent w (sendResponse addr port w) :=
  ⟨.refl _, ⟨_, rfl, rfl⟩, rfl, fun h => ⟨h, rfl⟩⟩

theorem load_self_timeline_silent (w : World) : Silent w (loadSelfTimeline w) :=
  .of_frame (.refl _) rfl rfl rfl rfl

theorem set_local_tempo_silent (bpm : Rat) (w : World) : Silent w (linkSetLocalTempo bpm w) := by
  have hedit : Silent w { w.advance with
      linkSelfTimeline := retimed bpm (ghostNow w).toInt64 w.linkSelfTimeline } :=
    .of_frame w.clock.later_advance rfl rfl rfl rfl
  exact (hedit.trans (load_self_timeline_silent _)).trans (broadcast_alive_now_silent _)

theorem set_play_silent (play : Bool) (w : World) : Silent w (linkSetPlay play w) := by
  have hedit : Silent w { w.advance with
      linkSelfStartstop := ⟨if play then 1 else 0,
        beatsAt w.linkSelfTimeline (ghostNow w).toInt64, (ghostNow w).toInt64⟩ } :=
    .of_frame w.clock.later_advance rfl rfl rfl rfl
  exact (hedit.trans (load_self_timeline_silent _)).trans (broadcast_alive_now_silent _)

theorem snap_beat_origin_silent (w : World) : Silent w (snapBeatOrigin w) := by
  have hedit : Silent w { w.advance with
      linkSelfTimeline := { w.linkSelfTimeline with
        beatOriginMicrobeats := 0
        timeOriginUsGhost := (ghostNow w).toInt64 } } :=
    .of_frame w.clock.later_advance rfl rfl rfl rfl
  exact hedit.trans (broadcast_alive_now_silent _)

theorem adopt_session_silent (intercept : Int64) (w : World) :
    Silent w (adoptSession intercept w) := by
  unfold adoptSession
  dsimp only
  refine Silent.trans ?_ (broadcast_alive_now_silent _)
  split
  · exact .of_frame (.refl _) rfl rfl rfl rfl
  · exact .of_frame (.refl _) rfl rfl rfl rfl

theorem on_measure_done_silent (success : Bool) (intercept : Int64) (w : World) :
    Silent w (onMeasureDone success intercept w) := by
  unfold onMeasureDone
  cases success with
  | false => exact .refl w
  | true =>
      simp only [Bool.not_true, Bool.false_eq_true, if_false]
      have hmarked : Silent w { w.advance with
          linkPeers := w.linkPeers.map (markMeasured w.sActiveTargetSession intercept) } :=
        .of_frame w.clock.later_advance rfl rfl rfl rfl
      have hstamped (v : World) : Silent v { v.advance with sLastRemeasureUs := v.clock.now } :=
        .of_frame v.clock.later_advance rfl rfl rfl rfl
      split
      · exact (hmarked.trans (adopt_session_silent _ _)).trans (hstamped _)
      · exact hmarked.trans (hstamped _)

/-- `r` comes after `c` and sends to single addresses only. -/
structure UnicastOnly (c : Clock) (r : MeasResult) : Prop where
  later : c.Later r.clock
  sent : r.sent.filterMap aliveBuf = []

theorem send_ping_unicast (c : Clock) (s : MeasState) : UnicastOnly c (sendPing c s) :=
  ⟨c.later_advance.trans c.advance.later_advance, rfl⟩

theorem measurement_start_unicast (c : Clock) (s : MeasState) (addr : UInt32) (port : UInt16)
    (session : LinkId) (completion : Bool) :
    UnicastOnly c (measurementStart c s addr port session completion) := by
  unfold measurementStart
  split
  · exact ⟨.refl c, rfl⟩
  · exact send_ping_unicast c _

theorem measurement_tick_unicast (c : Clock) (s : MeasState) :
    UnicastOnly c (measurementTick c s) := by
  unfold measurementTick
  split
  · exact ⟨.refl c, rfl⟩
  · dsimp only
    split
    · split
      · exact ⟨c.later_advance, rfl⟩
      · have hping := send_ping_unicast c.advance s
        exact ⟨c.later_advance.trans hping.later, hping.sent⟩
    · exact ⟨c.later_advance, rfl⟩

theorem measurement_handle_rx_unicast (c : Clock) (s : MeasState) (buf : List UInt8)
    (srcAddr : UInt32) (srcPort : UInt16) :
    UnicastOnly c (measurementHandleRx c s buf srcAddr srcPort) := by
  unfold measurementHandleRx
  split
  · exact ⟨.refl c, rfl⟩
  · rename_i ctx _
    split
    · exact ⟨.refl c, rfl⟩
    · dsimp only
      split
      · exact ⟨c.later_advance, rfl⟩
      · have hping := send_ping_unicast c.advance (recordSamples c.now.toInt64 ctx s)
        exact ⟨c.later_advance.trans hping.later, hping.sent⟩

theorem apply_meas_silent {r : MeasResult} {w : World} (h : UnicastOnly w.clock r) :
    Silent w (applyMeas r w) := by
  have hmeasured : Silent w { w with
      clock := r.clock
      meas := r.state
      sent := w.sent ++ r.sent } :=
    ⟨h.later, ⟨r.sent, rfl, h.sent⟩, rfl, fun hidle => ⟨hidle, rfl⟩⟩
  unfold applyMeas
  dsimp only
  split
  · exact hmeasured
  · exact hmeasured.trans (on_measure_done_silent _ _ _)

theorem request_silent (w : World) (r : Option (LinkId × Peer)) : Silent w (request w r) := by
  cases r with
  | none => exact .refl w
  | some r =>
      have htarget : Silent w { w with sActiveTargetSession := r.1 } :=
        .of_frame (.refl _) rfl rfl rfl rfl
      exact htarget.trans (apply_meas_silent (measurement_start_unicast _ _ _ _ _ _))

theorem link_handle_rx_silent (buf : List UInt8) (srcAddr : UInt32) (srcPort : UInt16)
    (w : World) : Silent w (linkHandleRx buf srcAddr srcPort w) := by
  unfold linkHandleRx
  split
  · exact .refl w
  · split
    · exact .of_frame (.refl _) rfl rfl rfl rfl
    · split
      · exact .refl w
      · split
        · exact .refl w
        · rename_i peers i _
          have hobserve :
              Silent w (sessionObservePeer i { w.advance with linkPeers := peers }) := by
            have htable : Silent w { w.advance with linkPeers := peers } :=
              .of_frame w.clock.later_advance rfl rfl rfl rfl
            rw [session_observe_peer_eq]
            exact htable.trans (request_silent _ _)
          dsimp only
          split
          · exact hobserve.trans (send_response_silent _ _ _)
          · exact hobserve

theorem answer_ping_silent (buf : List UInt8) (srcAddr : UInt32) (srcPort : UInt16) (w : World) :
    Silent w (answerPing buf srcAddr srcPort w) := by
  unfold answerPing measurementResponderHandleRx
  split
  · refine ⟨w.clock.later_advance, ⟨_, rfl, ?_⟩, rfl, fun h => ⟨h, rfl⟩⟩
    cases encodePong w.linkSelfSession
        (w.clock.now + (ghostTimeGetIntercept w).toUInt64) buf with
    | none => rfl
    | some out => rfl
  · exact .of_frame (.refl _) (List.append_nil _) rfl rfl rfl

theorem session_tick_silent (w : World) : Silent w (sessionTick w) := by
  have hticked := apply_meas_silent (measurement_tick_unicast w.clock w.meas)
  unfold sessionTick
  dsimp only
  split
  · exact hticked
  · have hremeasure (v : World) : Silent v (remeasure v) := by
      unfold remeasure
      have hstamped (u : World) (t : UInt64) : Silent u { u with sLastRemeasureUs := t } :=
        .of_frame (.refl _) rfl rfl rfl rfl
      split
      · dsimp only
        split
        · exact (advance_silent v).trans (hstamped _ _)
        · rename_i target _
          have hstart := request_silent v.advance (some (v.linkSelfSession, target))
          exact ((advance_silent v).trans hstart).trans (hstamped _ _)
      · exact advance_silent v
    have hled (v : World) (on : Bool) : Silent v (beatPulseSetPeerLed on v) :=
      .of_frame (.refl _) rfl rfl rfl rfl
    exact (hticked.trans (hremeasure _)).trans (hled _ _)

/-- Only a tick of `link.c` sends an ALIVE. -/
theorem step_silent {w : World} {e : Event} (h : e ≠ .linkTick) : Silent w (step w e) := by
  cases e with
  | udp buf srcAddr srcPort =>
      show Silent w (onUdpRx buf srcAddr srcPort w)
      unfold onUdpRx
      split
      · exact .refl w
      · split
        · exact link_handle_rx_silent buf srcAddr srcPort w
        · split
          · exact (apply_meas_silent (measurement_handle_rx_unicast _ _ _ _ _)).trans
              (answer_ping_silent _ _ _ _)
          · exact .refl w
  | linkTick => exact absurd rfl h
  | sessionTick => exact session_tick_silent w
  | setLocalTempo bpm => exact set_local_tempo_silent bpm w
  | setPlay play => exact set_play_silent play w
  | euroReset => exact snap_beat_origin_silent w
  | broadcastAliveNow => exact broadcast_alive_now_silent w
  | localAddress v4 v6 => exact .of_frame (.refl _) rfl rfl rfl rfl

/-! ## A tick -/

/-- `link_tick` wants to send and may: something is pending or the period is over, and the last
ALIVE is 50 ms old. -/
def Due (w : World) : Prop :=
  (w.sStateDirty = true ∨ w.sNextBcastUs ≤ w.clock.now) ∧
    linkDiscoveryMinMs * 1000 ≤ w.clock.now - w.sLastBcastUs

/-- A tick that is due sends the node's state and restarts the period. -/
theorem link_tick_sends {w : World} (h : Due w) :
    alives w .linkTick = [⟨w.clock.advance.now, encodeMsg w 1 true⟩] ∧
      (linkTick w).sLastBcastUs = w.clock.advance.now ∧
      (linkTick w).sNextBcastUs = w.clock.advance.now + linkDiscoveryBcastMs * 1000 ∧
      (linkTick w).sStateDirty = false ∧
      (linkTick w).clock = w.clock.advance.advance := by
  have hwant : (w.advance.sStateDirty || decide (w.advance.sNextBcastUs ≤ w.clock.now)) = true := by
    rw [Bool.or_eq_true, decide_eq_true_iff]
    exact h.1
  have hgap : linkDiscoveryMinMs * 1000 ≤ w.clock.now - w.advance.sLastBcastUs := h.2
  have htick : linkTick w = { sendAlive w.advance with
      linkPeers := w.linkPeers.map fun p => if expired w.clock.now p then .zero else p } := by
    unfold linkTick
    dsimp only
    rw [if_pos hwant, if_pos hgap]
    rfl
  have hsent : (linkTick w).sent.drop w.sent.length =
      [.mcastV4 linkDiscoveryPort linkDiscoveryPort (encodeMsg w 1 true),
        .mcastV6 linkDiscoveryPort linkDiscoveryPort (encodeMsg w 1 true)] := by
    rw [htick]
    show ((w.sent ++ [_]) ++ [_]).drop w.sent.length = _
    rw [List.append_assoc, List.drop_left]
    rfl
  refine ⟨?_, by rw [htick]; rfl, by rw [htick]; rfl, by rw [htick]; rfl, by rw [htick]; rfl⟩
  show ((((linkTick w).sent.drop w.sent.length).filterMap aliveBuf).map
    (Alive.mk (linkTick w).sLastBcastUs)) = _
  rw [hsent, htick]
  rfl

/-- A tick that is not due sends nothing; at most it puts the next ALIVE off to the end of the
gap. -/
theorem link_tick_waits {w : World} (h : ¬ Due w) :
    alives w .linkTick = [] ∧ (linkTick w).sLastBcastUs = w.sLastBcastUs ∧
      (linkTick w).sStateDirty = w.sStateDirty ∧
      ((linkTick w).sNextBcastUs = w.sNextBcastUs ∨
        (linkTick w).sNextBcastUs = w.sLastBcastUs + linkDiscoveryMinMs * 1000) ∧
      (linkTick w).clock = w.clock.advance := by
  have hsilent (hsent : (linkTick w).sent = w.sent) : alives w .linkTick = [] := by
    show ((((linkTick w).sent.drop w.sent.length).filterMap aliveBuf).map
      (Alive.mk (linkTick w).sLastBcastUs)) = _
    rw [hsent, List.drop_length]
    rfl
  by_cases hwant : (w.advance.sStateDirty || decide (w.advance.sNextBcastUs ≤ w.clock.now)) = true
  · have hgap : ¬ linkDiscoveryMinMs * 1000 ≤ w.clock.now - w.advance.sLastBcastUs :=
      fun hgap => by
        rw [Bool.or_eq_true, decide_eq_true_iff] at hwant
        exact h ⟨hwant, hgap⟩
    have htick : linkTick w = { w.advance with
        sNextBcastUs := w.sLastBcastUs + linkDiscoveryMinMs * 1000
        linkPeers := w.linkPeers.map fun p => if expired w.clock.now p then .zero else p } := by
      unfold linkTick
      dsimp only
      rw [if_pos hwant, if_neg hgap]
      rfl
    exact ⟨hsilent (by rw [htick]; rfl), by rw [htick]; rfl, by rw [htick]; rfl,
      .inr (by rw [htick]), by rw [htick]; rfl⟩
  · have htick : linkTick w = { w.advance with
        linkPeers := w.linkPeers.map fun p => if expired w.clock.now p then .zero else p } := by
      unfold linkTick
      dsimp only
      rw [if_neg hwant]
      rfl
    exact ⟨hsilent (by rw [htick]; rfl), by rw [htick]; rfl, by rw [htick]; rfl,
      .inl (by rw [htick]; rfl), by rw [htick]; rfl⟩

/-- An edit leaves an ALIVE pending. -/
theorem edit_dirty {w : World} {e : Event} (h : Edit w e) : (step w e).sStateDirty = true := by
  cases e with
  | udp buf srcAddr srcPort =>
      obtain ⟨r, hr, hswitch⟩ := h
      unfold reports successOf at hr
      dsimp only at hr
      split at hr
      · rename_i hmagic
        split at hr
        · rename_i intercept hcall
          rw [List.mem_singleton] at hr
          subst hr
          rw [ghost_diff_eq] at hswitch
          have hdone (v : World) (hv : ghostTimeGetIntercept v = ghostTimeGetIntercept w)
              (htarget : v.sActiveTargetSession = w.sActiveTargetSession)
              (hself : v.linkSelfSession = w.linkSelfSession) :
              (onMeasureDone true intercept v).sStateDirty = true := by
            unfold onMeasureDone
            simp only [Bool.not_true, Bool.false_eq_true, if_false, ghost_diff_eq]
            rw [hv, htarget, hself, if_pos hswitch]
            rfl
          rw [step_pong hmagic]
          refine (answer_ping_silent buf srcAddr srcPort _).dirty ?_
          unfold applyMeas
          rw [hcall]
          exact hdone _ rfl rfl rfl
        · cases hr
      · cases hr
  | setLocalTempo | setPlay | euroReset | broadcastAliveNow => rfl
  | linkTick | sessionTick | localAddress => exact h.elim

/-! ## Runs -/

/-- The last-ALIVE variable after the ALIVEs of `past`, with the readings the clock has left. -/
structure Scheduled (w : World) (past : List Alive) : Prop where
  last : w.sLastBcastUs.toNat = lastTime past
  seen : ∀ i, w.clock.reads ≤ i → w.sLastBcastUs ≤ w.clock.reading i
  latest : ∀ a ∈ past, a.time.toNat ≤ w.sLastBcastUs.toNat
  spaced : past.Pairwise fun a b => a.time.toNat + 50000 ≤ b.time.toNat
  /-- With nothing pending, the next ALIVE is at most a period after the last. -/
  period : w.sStateDirty = false → ∃ d, d ≤ 250000 ∧ w.sNextBcastUs = w.sLastBcastUs + d
  mono : ∀ i j, i ≤ j → w.clock.reading i ≤ w.clock.reading j

/-- What is at most a period after the last ALIVE has come when a period is over. -/
theorem period_over {last next now d : UInt64} (hd : d ≤ 250000) (hnext : next = last + d)
    (h : last.toNat + 250000 ≤ now.toNat) : next ≤ now := by
  have hd' : d.toNat ≤ 250000 := UInt64.le_iff_toNat_le.mp hd
  have hlt := now.toNat_lt
  rw [hnext, UInt64.le_iff_toNat_le, UInt64.toNat_add]
  omega

/-- The throttle measures the time since the last ALIVE. -/
theorem gap_iff {last now : UInt64} (hle : last ≤ now) :
    linkDiscoveryMinMs * 1000 ≤ now - last ↔ last.toNat + 50000 ≤ now.toNat := by
  have hle' := UInt64.le_iff_toNat_le.mp hle
  rw [UInt64.le_iff_toNat_le, UInt64.toNat_sub_of_le _ _ hle]
  show 50000 ≤ _ ↔ _
  omega

namespace Scheduled

variable {w : World} {past : List Alive}

/-- A tick in a run is due when something is pending or the period is over, and the last ALIVE
is 50 ms old. -/
theorem due_iff (h : Scheduled w past) :
    Due w ↔ (w.sStateDirty = true ∨ w.sNextBcastUs ≤ w.clock.now) ∧
      lastTime past + 50000 ≤ w.clock.now.toNat := by
  have hnow : w.sLastBcastUs ≤ w.clock.now := h.seen _ le_rfl
  rw [Due, gap_iff hnow, h.last]

/-- What sends no ALIVE keeps the schedule. -/
theorem silent {w' : World} (h : Scheduled w past) (hsilent : Silent w w') : Scheduled w' past := by
  refine ⟨hsilent.last ▸ h.last, fun i hi => ?_, hsilent.last ▸ h.latest, h.spaced, fun hidle => ?_,
    hsilent.later.1 ▸ h.mono⟩
  · rw [hsilent.last, hsilent.later.1]
    exact h.seen i (hsilent.later.2.trans hi)
  · obtain ⟨hclean, hnext⟩ := hsilent.idle hidle
    rw [hnext, hsilent.last]
    exact h.period hclean

/-- A tick that sends starts the schedule anew. -/
theorem sends (h : Scheduled w past) (hdue : Due w) :
    Scheduled (linkTick w) (past ++ [⟨w.clock.advance.now, encodeMsg w 1 true⟩]) := by
  obtain ⟨_, hlast, hnext, hdirty, hclock⟩ := link_tick_sends hdue
  have hgap := (h.due_iff.mp hdue).2
  have hlater : w.clock.now ≤ w.clock.advance.now := h.mono _ _ (Nat.le_succ _)
  have hlater' := UInt64.le_iff_toNat_le.mp hlater
  rw [← h.last] at hgap
  refine ⟨?_, ?_, ?_, ?_, fun _ => ⟨250000, UInt64.le_refl _, ?_⟩, hclock ▸ h.mono⟩
  · rw [hlast, lastTime, List.getLast?_concat]
    rfl
  · rw [hlast, hclock]
    exact fun i hi => h.mono _ _ ((Nat.le_succ _).trans hi)
  · rw [hlast]
    intro a ha
    rcases List.mem_append.mp ha with ha | ha
    · have hle := h.latest a ha
      omega
    · rw [List.mem_singleton.mp ha]
  · refine List.pairwise_append.mpr ⟨h.spaced, List.pairwise_singleton _ _, fun a ha b hb => ?_⟩
    have hle := h.latest a ha
    rw [List.mem_singleton.mp hb]
    show a.time.toNat + 50000 ≤ w.clock.advance.now.toNat
    omega
  · rw [hnext, hlast]
    rfl

/-- A tick that is not due keeps the schedule. -/
theorem waits (h : Scheduled w past) (hdue : ¬ Due w) : Scheduled (linkTick w) past := by
  obtain ⟨_, hlast, hdirty, hnext, hclock⟩ := link_tick_waits hdue
  refine ⟨hlast ▸ h.last, fun i hi => ?_, hlast ▸ h.latest, h.spaced, fun hidle => ?_,
    hclock ▸ h.mono⟩
  · rw [hlast, hclock]
    rw [hclock] at hi
    exact h.seen i ((Nat.le_succ _).trans hi)
  · rw [hlast]
    rcases hnext with hnext | hnext
    · rw [hnext]
      exact h.period (hdirty ▸ hidle)
    · exact ⟨linkDiscoveryMinMs * 1000, by decide, hnext⟩

/-- One event keeps the schedule. -/
theorem step (h : Scheduled w past) (e : Event) :
    Scheduled (LinkFPGA.step w e) (past ++ alives w e) := by
  by_cases htick : e = .linkTick
  · subst htick
    by_cases hdue : Due w
    · rw [(link_tick_sends hdue).1]
      exact h.sends hdue
    · rw [(link_tick_waits hdue).1, List.append_nil]
      exact h.waits hdue
  · have hsilent := step_silent (w := w) htick
    rw [hsilent.no_alives, List.append_nil]
    exact h.silent hsilent

end Scheduled

/-- The schedule before the first ALIVE. -/
theorem Scheduled.initial {w : World} (hlast : w.sLastBcastUs = 0) (hdirty : w.sStateDirty = true)
    (hmono : ∀ i j, i ≤ j → w.clock.reading i ≤ w.clock.reading j) : Scheduled w [] where
  last := by
    rw [hlast]
    rfl
  seen i _ := by
    rw [hlast]
    exact UInt64.zero_le
  latest _ ha := (List.not_mem_nil ha).elim
  spaced := .nil
  period hidle := by
    rw [hdirty] at hidle
    cases hidle
  mono := hmono

/-- `link_init` leaves an ALIVE pending, and none sent. -/
theorem link_init_scheduled {w : World}
    (hclock : ∀ i j, i ≤ j → w.clock.reading i ≤ w.clock.reading j) :
    Scheduled (linkInit w) [] := by
  obtain ⟨hlast, hdirty⟩ : (linkInit w).sLastBcastUs = 0 ∧ (linkInit w).sStateDirty = true :=
    ⟨rfl, rfl⟩
  refine .initial hlast hdirty ?_
  rw [(link_init_later w).1]
  exact hclock

/-- Every run from boot keeps the schedule. -/
theorem run_scheduled {reading : Nat → UInt64}
    (hclock : ∀ i j, i ≤ j → reading i ≤ reading j) (v4 : UInt32) (v6 : List UInt8)
    (es : List Event) :
    Scheduled (runEvents (boot reading v4 v6) es) (sentAlives (boot reading v4 v6) es) := by
  have hboot : Scheduled (boot reading v4 v6) [] := link_init_scheduled hclock
  exact run_log_invariant (fun _ _ e h => h.step e) hboot es

/-- What is pending stays pending until an ALIVE is sent. -/
theorem run_dirty {w : World} {es : List Event} (hdirty : w.sStateDirty = true)
    (hnone : sentAlives w es = []) : (runEvents w es).sStateDirty = true := by
  induction es generalizing w with
  | nil => exact hdirty
  | cons e es ih =>
      obtain ⟨hfirst, hrest⟩ := List.append_eq_nil_iff.mp hnone
      refine ih ?_ hrest
      by_cases htick : e = .linkTick
      · subst htick
        by_cases hdue : Due w
        · rw [(link_tick_sends hdue).1] at hfirst
          cases hfirst
        · exact (link_tick_waits hdue).2.2.1.trans hdirty
      · exact (step_silent htick).dirty hdirty

/-- In every run with a clock that does not go back: ALIVEs are sent by ticks only, with the
state of the tick, and at least 50 ms apart; a tick 250 ms after the last ALIVE sends one; and
so does a tick 50 ms after the last ALIVE when an edit has not been announced. -/
theorem alive_schedule {reading : Nat → UInt64}
    (hclock : ∀ i j, i ≤ j → reading i ≤ reading j) (v4 : UInt32) (v6 : List UInt8)
    (es : List Event) :
    let w := runEvents (boot reading v4 v6) es
    let past := sentAlives (boot reading v4 v6) es
    (past.Pairwise fun a b => a.time.toNat + 50000 ≤ b.time.toNat) ∧
      (∀ e, ∀ a ∈ alives w e, e = .linkTick ∧ a.buf = encodeMsg w 1 true ∧
        lastTime past + 50000 ≤ w.clock.now.toNat ∧ w.clock.now ≤ a.time) ∧
      (lastTime past + 250000 ≤ w.clock.now.toNat →
        ∃ time, alives w .linkTick = [⟨time, encodeMsg w 1 true⟩]) ∧
      ∀ early e late, es = early ++ e :: late →
        Edit (runEvents (boot reading v4 v6) early) e →
        sentAlives (runEvents (boot reading v4 v6) (early ++ [e])) late = [] →
        lastTime past + 50000 ≤ w.clock.now.toNat →
        ∃ time, alives w .linkTick = [⟨time, encodeMsg w 1 true⟩] := by
  intro w past
  have h : Scheduled w past := run_scheduled hclock v4 v6 es
  have hsends (hdue : Due w) : ∃ time, alives w .linkTick = [⟨time, encodeMsg w 1 true⟩] :=
    ⟨_, (link_tick_sends hdue).1⟩
  refine ⟨h.spaced, fun e a ha => ?_, fun hlong => ?_, fun early e late hes hedit hnone hgap => ?_⟩
  · by_cases htick : e = .linkTick
    · subst htick
      by_cases hdue : Due w
      · rw [(link_tick_sends hdue).1, List.mem_singleton] at ha
        subst ha
        exact ⟨rfl, rfl, (h.due_iff.mp hdue).2, h.mono _ _ (Nat.le_succ _)⟩
      · rw [(link_tick_waits hdue).1] at ha
        cases ha
    · rw [(step_silent htick).no_alives] at ha
      cases ha
  · refine hsends (h.due_iff.mpr ⟨?_, by omega⟩)
    cases hdirty : w.sStateDirty with
    | true => exact .inl rfl
    | false =>
        obtain ⟨d, hd, hnext⟩ := h.period hdirty
        exact .inr (period_over hd hnext (h.last.symm ▸ hlong))
  · have hpending : w.sStateDirty = true := by
      have hdirty : (runEvents (boot reading v4 v6) (early ++ [e])).sStateDirty = true := by
        rw [runEvents, run_append]
        exact edit_dirty hedit
      have hrun := run_dirty hdirty hnone
      rwa [runEvents, ← run_append, List.append_assoc, List.singleton_append, ← hes] at hrun
    exact hsends (h.due_iff.mpr ⟨.inl hpending, hgap⟩)

/-- A clock that shows 60 ms at first and 120 ms later. -/
def twoReadings (i : Nat) : UInt64 := if i < 6 then 60000 else 120000

/-- A node that has announced itself starts playing, and says so at its next tick. -/
theorem alive_schedule_playing : ∃ time,
    alives (runEvents (boot twoReadings 0 []) [.linkTick, .setPlay true]) .linkTick =
      [⟨time,
        encodeMsg (runEvents (boot twoReadings 0 []) [.linkTick, .setPlay true]) 1 true⟩] := by
  have hclock : ∀ i j, i ≤ j → twoReadings i ≤ twoReadings j := by
    intro i j hij
    unfold twoReadings
    split
    · split <;> decide
    · rw [if_neg (by omega)]
      exact UInt64.le_refl _
  have hgap : lastTime (sentAlives (boot twoReadings 0 []) [.linkTick, .setPlay true]) + 50000 ≤
      (runEvents (boot twoReadings 0 []) [.linkTick, .setPlay true]).clock.now.toNat := by
    decide +kernel
  exact (alive_schedule hclock 0 [] [.linkTick, .setPlay true]).2.2.2 [.linkTick] (.setPlay true) []
    rfl trivial rfl hgap

end LinkFPGA
