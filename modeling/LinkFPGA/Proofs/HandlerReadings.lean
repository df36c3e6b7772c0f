import LinkFPGA.Firmware.Main

/-!
# What a handler sees of the clock

Every handler of the discovery core is `Uniform`: what it does depends on the readings of the clock
that it makes itself, and not on how many were made before, on those that will be made later or on
what has been sent.
-/

namespace LinkFPGA

/-! ## Uniform handlers -/

/-- The clock after so many readings. -/
def Clock.skip (c : Clock) (n : Nat) : Clock := { c with reads := c.reads + n }

/-- The other clock shows the same readings next. -/
def Clock.Shows (n : Nat) (c c' : Clock) : Prop :=
  ∀ i < n, c'.reading (c'.reads + i) = c.reading (c.reads + i)

/-- The state with another clock, and with another record of what was sent. -/
def World.on (w : World) (c : Clock) (ds : List Datagram) : World :=
  { w with
    clock := c
    sent := ds }

/-- The handler makes a number of readings and sends datagrams, and does the same wherever the
clock shows the same readings next. -/
def Uniform (h : World → World) : Prop :=
  ∀ w, ∃ n new, ∀ c ds, w.clock.Shows n c → h (w.on c ds) = (h w).on (c.skip n) (ds ++ new)

theorem Clock.Shows.refl (n : Nat) (c : Clock) : c.Shows n c := fun _ _ => rfl

theorem Clock.Shows.mono {n k : Nat} {c c' : Clock} (h : c.Shows n c') (hk : k ≤ n) :
    c.Shows k c' :=
  fun i hi => h i (Nat.lt_of_lt_of_le hi hk)

theorem Clock.Shows.skip {n k : Nat} {c c' : Clock} (h : c.Shows (n + k) c') :
    (c.skip n).Shows k (c'.skip n) := by
  intro i hi
  have hthere := h (n + i) (by omega)
  rw [← Nat.add_assoc, ← Nat.add_assoc] at hthere
  exact hthere

theorem Clock.skip_skip (c : Clock) (n k : Nat) : (c.skip n).skip k = c.skip (n + k) :=
  congrArg (Clock.mk c.reading) (Nat.add_assoc _ _ _)

namespace Uniform

variable {f g : World → World}

/-- Where the handler leaves the clock and the record. -/
theorem leaves {w : World} {n : Nat} {new : List Datagram}
    (h : ∀ c ds, w.clock.Shows n c → f (w.on c ds) = (f w).on (c.skip n) (ds ++ new)) :
    (f w).clock = w.clock.skip n ∧ (f w).sent = w.sent ++ new := by
  have hself : f w = (f w).on (w.clock.skip n) (w.sent ++ new) :=
    h w.clock w.sent (.refl n w.clock)
  exact ⟨congrArg World.clock hself, congrArg World.sent hself⟩

/-- A function that does not care for the clock. -/
theorem still (h : ∀ w c ds, f (w.on c ds) = (f w).on c ds) : Uniform f := by
  intro w
  refine ⟨0, [], fun c ds _ => ?_⟩
  rw [h, List.append_nil]
  rfl

/-- One handler after another. -/
theorem comp (hf : Uniform f) (hg : Uniform g) : Uniform fun w => g (f w) := by
  intro w
  obtain ⟨n, new, hf⟩ := hf w
  obtain ⟨k, later, hg⟩ := hg (f w)
  refine ⟨n + k, new ++ later, fun c ds hc => ?_⟩
  have hnext : (f w).clock.Shows k (c.skip n) := (leaves hf).1 ▸ hc.skip
  show g (f (w.on c ds)) = _
  rw [hf c ds (hc.mono (Nat.le_add_right n k)), hg (c.skip n) (ds ++ new) hnext,
    Clock.skip_skip, List.append_assoc]

/-- A call of `host_time_us()` and what is done with its value. -/
theorem reading {f : UInt64 → World → World} (h : ∀ t, Uniform (f t)) :
    Uniform fun w => f w.clock.now w.advance := by
  intro w
  obtain ⟨n, new, h⟩ := h w.clock.now w.advance
  refine ⟨1 + n, new, fun c ds hc => ?_⟩
  have hnow : (w.on c ds).clock.now = w.clock.now := hc 0 (by omega)
  have hnext : w.advance.clock.Shows n c.advance := hc.skip
  show f (w.on c ds).clock.now (w.advance.on c.advance ds) = _
  rw [hnow, h c.advance ds hnext, ← Clock.skip_skip]
  rfl

/-- A handler chosen by something else than the clock. -/
theorem choice {β : Type} {k : World → β} {f : β → World → World}
    (hk : ∀ w c ds, k (w.on c ds) = k w) (h : ∀ b, Uniform (f b)) :
    Uniform fun w => f (k w) w := by
  intro w
  obtain ⟨n, new, h⟩ := h (k w) w
  refine ⟨n, new, fun c ds hc => ?_⟩
  show f (k (w.on c ds)) (w.on c ds) = _
  rw [hk]
  exact h c ds hc

/-- One of two handlers, by a condition on something else than the clock. -/
theorem ite {p : World → Prop} [DecidablePred p] (hp : ∀ w c ds, p (w.on c ds) ↔ p w)
    (hf : Uniform f) (hg : Uniform g) : Uniform fun w => if p w then f w else g w := by
  intro w
  by_cases h : p w
  · obtain ⟨n, new, hf⟩ := hf w
    refine ⟨n, new, fun c ds hc => ?_⟩
    dsimp only
    rw [if_pos h, if_pos ((hp w c ds).mpr h)]
    exact hf c ds hc
  · obtain ⟨n, new, hg⟩ := hg w
    refine ⟨n, new, fun c ds hc => ?_⟩
    dsimp only
    rw [if_neg h, if_neg (mt (hp w c ds).mp h)]
    exact hg c ds hc

/-- Datagrams. -/
theorem sends {new : World → List Datagram} (hnew : ∀ w c ds, new (w.on c ds) = new w) :
    Uniform fun w => { w with sent := w.sent ++ new w } := by
  intro w
  refine ⟨0, new w, fun c ds _ => ?_⟩
  show (w.on c (ds ++ new (w.on c ds))) = _
  rw [hnew]
  rfl

theorem send {d : World → Datagram} (hd : ∀ w c ds, d (w.on c ds) = d w) :
    Uniform fun w => w.send (d w) :=
  have hnew : ∀ w c ds, [d (w.on c ds)] = [d w] := fun w c ds => congrArg (fun d => [d]) (hd w c ds)
  sends hnew

end Uniform

/-! ## The handlers of `measurement.c` -/

/-- The handler makes a number of readings, and does the same wherever the clock shows them. -/
def UniformMeas (h : Clock → MeasResult) : Prop :=
  ∀ c, ∃ n, ∀ c', c.Shows n c' → h c' = { h c with clock := c'.skip n }

theorem idle_uniform (s : MeasState) : UniformMeas fun c => .idle c s :=
  fun _ => ⟨0, fun _ _ => rfl⟩

theorem finish_uniform (s : MeasState) (success : Bool) (intercept : Int64) :
    UniformMeas fun c => finish c s success intercept :=
  fun _ => ⟨0, fun _ _ => rfl⟩

theorem UniformMeas.reading {h : UInt64 → Clock → MeasResult} (hh : ∀ t, UniformMeas (h t)) :
    UniformMeas fun c => h c.now c.advance := by
  intro c
  obtain ⟨n, hh⟩ := hh c.now c.advance
  refine ⟨1 + n, fun c' hc => ?_⟩
  have hnow : c'.now = c.now := hc 0 (by omega)
  have hnext : c.advance.Shows n c'.advance := hc.skip
  dsimp only
  rw [hnow, hh c'.advance hnext, ← Clock.skip_skip]
  rfl

theorem UniformMeas.ite {p : Prop} [Decidable p] {h h' : Clock → MeasResult}
    (hh : UniformMeas h) (hh' : UniformMeas h') : UniformMeas fun c => if p then h c else h' c := by
  by_cases hp : p
  · simpa only [if_pos hp] using hh
  · simpa only [if_neg hp] using hh'

theorem send_ping_uniform (s : MeasState) : UniformMeas fun c => sendPing c s := by
  have hsend : ∀ t t' : UInt64, UniformMeas fun c =>
      ⟨c, { s with
        prevHostTime := t.toInt64
        pingsSent := s.pingsSent + 1
        nextSendUs := t' + linkPingIntervalMs * 1000 },
        [.unicast s.targetAddr s.targetPort linkDiscoveryPort
          (encodePing t.toInt64 s.prevGhostTime (decide (0 < s.pingsSent)))], none⟩ :=
    fun _ _ _ => ⟨0, fun _ _ => rfl⟩
  exact .reading fun t => .reading fun t' => hsend t t'

theorem measurement_start_uniform (s : MeasState) (addr : UInt32) (port : UInt16)
    (session : LinkId) (completion : Bool) :
    UniformMeas fun c => measurementStart c s addr port session completion :=
  .ite (idle_uniform s) (send_ping_uniform _)

theorem measurement_tick_uniform (s : MeasState) : UniformMeas fun c => measurementTick c s :=
  .ite (idle_uniform s) (.reading fun _ =>
    .ite (.ite (finish_uniform s false 0) (send_ping_uniform s)) (idle_uniform s))

theorem measurement_handle_rx_uniform (s : MeasState) (buf : List UInt8) (srcAddr : UInt32)
    (srcPort : UInt16) : UniformMeas fun c => measurementHandleRx c s buf srcAddr srcPort := by
  unfold measurementHandleRx
  cases parsePong s buf srcAddr srcPort with
  | none => exact idle_uniform s
  | some ctx =>
      have hrecorded : ∀ t : UInt64, UniformMeas fun c =>
          if linkSampleThreshold < (recordSamples t.toInt64 ctx s).samples.size then
            finish c
              { recordSamples t.toInt64 ctx s with
                samples := (medianI64 (recordSamples t.toInt64 ctx s).samples).1 } true
              (medianI64 (recordSamples t.toInt64 ctx s).samples).2
          else sendPing c (recordSamples t.toInt64 ctx s) :=
        fun _ => .ite (finish_uniform _ true _) (send_ping_uniform _)
      exact .ite (finish_uniform s false 0) (.reading hrecorded)

/-! ## The handlers of `session.c` -/

theorem broadcast_alive_now_uniform : Uniform linkBroadcastAliveNow :=
  .reading (f := fun t w => { w with sStateDirty := true, sNextBcastUs := t })
    fun _ => .still fun _ _ _ => rfl

theorem adopt_session_uniform (intercept : Int64) : Uniform (adoptSession intercept) := by
  have hset : Uniform fun w : World =>
      ghostTimeSetIntercept intercept { w with linkSelfSession := w.sActiveTargetSession } :=
    .still fun _ _ _ => rfl
  have hbest : Uniform fun w : World => (bestPeer w.linkPeers w.linkSelfSession).elim w fun best =>
      loadSelfTimeline { w with
        linkSelfTimeline := best.timeline
        linkSelfStartstop := best.startstop } := by
    refine .still fun w c ds => ?_
    show (bestPeer w.linkPeers w.linkSelfSession).elim _ _ = _
    cases bestPeer w.linkPeers w.linkSelfSession <;> rfl
  have hshown := (hset.comp hbest).comp (g := beatPulseSetSyncLed true) (.still fun _ _ _ => rfl)
  refine cast (congrArg Uniform (funext fun w => ?_)) (hshown.comp broadcast_alive_now_uniform)
  unfold adoptSession
  dsimp only
  generalize ghostTimeSetIntercept intercept _ = u
  cases bestPeer u.linkPeers u.linkSelfSession <;> rfl

theorem on_measure_done_uniform (success : Bool) (intercept : Int64) :
    Uniform (onMeasureDone success intercept) := by
  have hnoted : Uniform fun w : World => { w.advance with sLastRemeasureUs := w.clock.now } :=
    .reading (f := fun t w => { w with sLastRemeasureUs := t }) fun _ => .still fun _ _ _ => rfl
  have hmarked : Uniform fun w : World =>
      { w with linkPeers := w.linkPeers.map (markMeasured w.sActiveTargetSession intercept) } :=
    .still fun _ _ _ => rfl
  have hdecided : ∀ t : UInt64, Uniform fun w : World =>
      let diff := (t.toInt64 + intercept) - (t.toInt64 + ghostTimeGetIntercept w)
      let switch := switchToNew diff w.sActiveTargetSession w.linkSelfSession
      let w := { w with
        linkPeers := w.linkPeers.map (markMeasured w.sActiveTargetSession intercept) }
      if switch then adoptSession intercept w else w := by
    intro t
    exact .ite (p := fun w => switchToNew ((t.toInt64 + intercept) -
      (t.toInt64 + ghostTimeGetIntercept w)) w.sActiveTargetSession w.linkSelfSession = true)
      (fun _ _ _ => Iff.rfl) (hmarked.comp (adopt_session_uniform intercept)) hmarked
  cases success with
  | false => exact .still fun _ _ _ => rfl
  | true => exact (Uniform.reading hdecided).comp hnoted

/-- What a handler of `measurement.c` did is carried out. -/
theorem apply_meas_uniform {h : World → Clock → MeasResult} (hsame : ∀ w c ds, h (w.on c ds) = h w)
    (hh : ∀ w, UniformMeas (h w)) : Uniform fun w => applyMeas (h w w.clock) w := by
  intro w
  obtain ⟨n, hh⟩ := hh w w.clock
  let r := h w w.clock
  let stored : World := { w with clock := r.clock, meas := r.state, sent := w.sent ++ r.sent }
  have hclock : r.clock = w.clock.skip n :=
    congrArg MeasResult.clock (hh w.clock (.refl n w.clock))
  have happly : ∀ c ds, w.clock.Shows n c →
      applyMeas (h (w.on c ds) c) (w.on c ds) = r.call.elim
        (stored.on (c.skip n) (ds ++ r.sent))
        fun call => onMeasureDone call.1 call.2 (stored.on (c.skip n) (ds ++ r.sent)) := by
    intro c ds hc
    rw [hsame, hh c hc]
    show applyMeas { r with clock := c.skip n } (w.on c ds) = _
    unfold applyMeas
    cases r.call <;> rfl
  cases hcall : r.call with
  | none =>
      have hself : applyMeas (h w w.clock) w = stored := by
        unfold applyMeas
        rw [hcall]
      refine ⟨n, r.sent, fun c ds hc => ?_⟩
      refine (happly c ds hc).trans ?_
      dsimp only
      rw [hcall, hself]
      rfl
  | some call =>
      have hself : applyMeas (h w w.clock) w = onMeasureDone call.1 call.2 stored := by
        unfold applyMeas
        rw [hcall]
      obtain ⟨k, new, hdone⟩ := on_measure_done_uniform call.1 call.2 stored
      refine ⟨n + k, r.sent ++ new, fun c ds hc => ?_⟩
      refine (happly c ds (hc.mono (Nat.le_add_right n k))).trans ?_
      have hnext : stored.clock.Shows k (c.skip n) := by
        rw [show stored.clock = r.clock from rfl, hclock]
        exact hc.skip
      dsimp only
      rw [hcall, hself, Option.elim_some]
      rw [hdone (c.skip n) (ds ++ r.sent) hnext, Clock.skip_skip, List.append_assoc]

theorem start_measurement_uniform (target : Peer) (session : LinkId) :
    Uniform (startMeasurement target session) :=
  apply_meas_uniform (fun _ _ _ => rfl) fun w => measurement_start_uniform w.meas _ _ _ _

theorem request_uniform (r : Option (LinkId × Peer)) : Uniform fun w => request w r := by
  cases r with
  | none => exact .still fun _ _ _ => rfl
  | some r =>
      exact Uniform.comp (f := fun w => { w with sActiveTargetSession := r.1 })
        (.still fun _ _ _ => rfl) (start_measurement_uniform r.2 r.1)

theorem session_observe_peer_uniform (i : Nat) : Uniform (sessionObservePeer i) := by
  have heq : sessionObservePeer i =
      fun w => request w (observeRequest w.linkPeers w.linkSelfSession i) :=
    funext (session_observe_peer_eq i)
  rw [heq]
  exact .choice (k := fun w => observeRequest w.linkPeers w.linkSelfSession i)
    (f := fun r w => request w r) (fun _ _ _ => rfl) request_uniform

theorem remeasure_uniform : Uniform remeasure := by
  have hasked : Uniform fun w : World =>
      (findFounder w.linkPeers w.linkSelfSession).elim w fun target =>
        startMeasurement target w.linkSelfSession
          { w with sActiveTargetSession := w.linkSelfSession } := by
    refine .choice (k := fun w => (findFounder w.linkPeers w.linkSelfSession, w.linkSelfSession))
      (f := fun b w => b.1.elim w fun target =>
        startMeasurement target b.2 { w with sActiveTargetSession := b.2 })
      (fun _ _ _ => rfl) fun b => ?_
    obtain ⟨target, session⟩ := b
    cases target with
    | none => exact .still fun _ _ _ => rfl
    | some target => exact request_uniform (some (session, target))
  have hstarted : ∀ t : UInt64, Uniform fun w : World =>
      if linkSessionRemeasureS * 1000000 < t - w.sLastRemeasureUs then
        { (findFounder w.linkPeers w.linkSelfSession).elim w fun target =>
            startMeasurement target w.linkSelfSession
              { w with sActiveTargetSession := w.linkSelfSession } with sLastRemeasureUs := t }
      else w := by
    intro t
    refine .ite (p := fun w => linkSessionRemeasureS * 1000000 < t - w.sLastRemeasureUs)
      (fun _ _ _ => Iff.rfl) (hasked.comp (g := fun w => { w with sLastRemeasureUs := t })
        (.still fun _ _ _ => rfl)) (.still fun _ _ _ => rfl)
  refine cast (congrArg Uniform (funext fun w => ?_)) (Uniform.reading hstarted)
  unfold remeasure
  have hsame : findFounder w.advance.linkPeers w.advance.linkSelfSession =
      findFounder w.linkPeers w.linkSelfSession := rfl
  dsimp only
  rw [hsame]
  cases findFounder w.linkPeers w.linkSelfSession <;> rfl

theorem session_tick_uniform : Uniform sessionTick := by
  have hmeasured : Uniform fun w => applyMeas (measurementTick w.clock w.meas) w :=
    apply_meas_uniform (h := fun w c => measurementTick c w.meas) (fun _ _ _ => rfl)
      fun w => measurement_tick_uniform w.meas
  have hled : Uniform fun w : World =>
      beatPulseSetPeerLed (decide (0 < w.linkPeers.countP (·.inUse))) w :=
    .still fun _ _ _ => rfl
  have hown : Uniform fun w : World => w := .still fun _ _ _ => rfl
  exact hmeasured.comp (.ite (p := fun w => w.linkSelfSession = w.linkSelfId)
    (fun _ _ _ => Iff.rfl) hown (remeasure_uniform.comp hled))

/-! ## The handlers of `link.c` -/

theorem send_alive_uniform : Uniform sendAlive := by
  let v4 (w : World) := Datagram.mcastV4 linkDiscoveryPort linkDiscoveryPort (encodeMsg w 1 true)
  let v6 (w : World) := Datagram.mcastV6 linkDiscoveryPort linkDiscoveryPort (encodeMsg w 1 true)
  have hsent : Uniform fun w : World => (w.send (v4 w)).send (v6 (w.send (v4 w))) :=
    (Uniform.send (d := v4) fun _ _ _ => rfl).comp (.send (d := v6) fun _ _ _ => rfl)
  have hnoted : Uniform fun w : World => { w.advance with
      sLastBcastUs := w.clock.now
      sNextBcastUs := w.clock.now + linkDiscoveryBcastMs * 1000
      sStateDirty := false } :=
    .reading (f := fun t w => { w with
      sLastBcastUs := t
      sNextBcastUs := t + linkDiscoveryBcastMs * 1000
      sStateDirty := false }) fun _ => .still fun _ _ _ => rfl
  exact hsent.comp hnoted

theorem link_tick_uniform : Uniform linkTick := by
  have hdue : ∀ t : UInt64, Uniform fun w : World =>
      if w.sStateDirty || decide (w.sNextBcastUs ≤ t) then
        if linkDiscoveryMinMs * 1000 ≤ t - w.sLastBcastUs then sendAlive w
        else { w with sNextBcastUs := w.sLastBcastUs + linkDiscoveryMinMs * 1000 }
      else w := by
    intro t
    refine .ite (p := fun w => (w.sStateDirty || decide (w.sNextBcastUs ≤ t)) = true)
      (fun _ _ _ => Iff.rfl) ?_ (.still fun _ _ _ => rfl)
    exact .ite (p := fun w => linkDiscoveryMinMs * 1000 ≤ t - w.sLastBcastUs)
      (fun _ _ _ => Iff.rfl) send_alive_uniform (.still fun _ _ _ => rfl)
  have hpruned : ∀ t : UInt64, Uniform fun w : World =>
      { w with linkPeers := w.linkPeers.map fun p => if expired t p then .zero else p } :=
    fun _ => .still fun _ _ _ => rfl
  exact .reading fun t => (hdue t).comp (hpruned t)

theorem link_handle_rx_uniform (buf : List UInt8) (srcAddr : UInt32) (srcPort : UInt16) :
    Uniform (linkHandleRx buf srcAddr srcPort) := by
  have hanswer : Uniform fun w : World =>
      if messageType buf = 1 then sendResponse srcAddr srcPort w else w :=
    .ite (p := fun _ => messageType buf = 1) (fun _ _ _ => Iff.rfl)
      (.send (d := fun w => .unicast srcAddr srcPort linkDiscoveryPort (encodeMsg w 2 true))
        fun _ _ _ => rfl) (.still fun _ _ _ => rfl)
  have hobserved : ∀ slot : List Peer × Nat, Uniform fun w : World =>
      let w := sessionObservePeer slot.2
        { w.advance with linkPeers := slot.1.modify slot.2 (updatePeer w.clock.now buf) }
      if messageType buf = 1 then sendResponse srcAddr srcPort w else w := by
    intro slot
    have hstored : Uniform fun w : World =>
        { w.advance with linkPeers := slot.1.modify slot.2 (updatePeer w.clock.now buf) } :=
      .reading (f := fun t w => { w with linkPeers := slot.1.modify slot.2 (updatePeer t buf) })
        fun _ => .still fun _ _ _ => rfl
    exact (hstored.comp (session_observe_peer_uniform slot.2)).comp hanswer
  have hslot := Uniform.choice (k := fun w => findOrAllocPeer w.linkPeers (messageIdent buf))
    (f := fun slot w => slot.elim w fun slot =>
      let w := sessionObservePeer slot.2
        { w.advance with linkPeers := slot.1.modify slot.2 (updatePeer w.clock.now buf) }
      if messageType buf = 1 then sendResponse srcAddr srcPort w else w)
    (fun _ _ _ => rfl) fun slot => by
      cases slot with
      | none => exact .still fun _ _ _ => rfl
      | some slot => exact hobserved slot
  unfold linkHandleRx
  refine .ite (p := fun w => (!headerAccepted w.linkSelfId buf) = true) (fun _ _ _ => Iff.rfl)
    (.still fun _ _ _ => rfl) ?_
  refine .ite (p := fun _ => messageType buf = 3) (fun _ _ _ => Iff.rfl)
    (.still fun _ _ _ => rfl) ?_
  refine .ite (p := fun _ => messageType buf ≠ 1 ∧ messageType buf ≠ 2) (fun _ _ _ => Iff.rfl)
    (.still fun _ _ _ => rfl) ?_
  refine cast (congrArg Uniform (funext fun w => ?_)) hslot
  unfold observe
  cases findOrAllocPeer w.linkPeers (messageIdent buf) <;> rfl

theorem set_local_tempo_uniform (bpm : Rat) : Uniform (linkSetLocalTempo bpm) := by
  have hretimed : ∀ t : UInt64, Uniform fun w : World => loadSelfTimeline { w with
      linkSelfTimeline :=
        retimed bpm (t + (ghostTimeGetIntercept w).toUInt64).toInt64 w.linkSelfTimeline } :=
    fun _ => .still fun _ _ _ => rfl
  exact (Uniform.reading hretimed).comp broadcast_alive_now_uniform

theorem set_play_uniform (play : Bool) : Uniform (linkSetPlay play) := by
  have hplayed : ∀ t : UInt64, Uniform fun w : World => loadSelfTimeline { w with
      linkSelfStartstop := ⟨if play then 1 else 0,
        beatsAt w.linkSelfTimeline (t + (ghostTimeGetIntercept w).toUInt64).toInt64,
        (t + (ghostTimeGetIntercept w).toUInt64).toInt64⟩ } :=
    fun _ => .still fun _ _ _ => rfl
  exact (Uniform.reading hplayed).comp broadcast_alive_now_uniform

theorem snap_beat_origin_uniform : Uniform snapBeatOrigin := by
  have hsnapped : ∀ t : UInt64, Uniform fun w : World => { w with
      linkSelfTimeline := { w.linkSelfTimeline with
        beatOriginMicrobeats := 0
        timeOriginUsGhost := (t + (ghostTimeGetIntercept w).toUInt64).toInt64 } } :=
    fun _ => .still fun _ _ _ => rfl
  exact (Uniform.reading hsnapped).comp broadcast_alive_now_uniform

/-! ## Every event, and the start -/

theorem answer_ping_uniform (buf : List UInt8) (srcAddr : UInt32) (srcPort : UInt16) :
    Uniform (answerPing buf srcAddr srcPort) := by
  have hsilent : Uniform fun w : World => w := .still fun _ _ _ => rfl
  cases hping : isPing buf with
  | false =>
      have heq : answerPing buf srcAddr srcPort = fun w => w := by
        funext w
        unfold answerPing measurementResponderHandleRx
        rw [hping]
        exact congrArg (fun sent => { w with sent := sent }) (List.append_nil _)
      rw [heq]
      exact hsilent
  | true =>
      have hpong : ∀ t : UInt64, Uniform fun w : World =>
          { w with sent := w.sent ++ ((encodePong w.linkSelfSession
            (t + (ghostTimeGetIntercept w).toUInt64) buf).map
              (.unicast srcAddr srcPort linkDiscoveryPort ·)).toList } := by
        intro t
        let pong (w : World) : List Datagram := ((encodePong w.linkSelfSession
          (t + (ghostTimeGetIntercept w).toUInt64) buf).map
            (.unicast srcAddr srcPort linkDiscoveryPort ·)).toList
        have hsame : ∀ w c ds, pong (w.on c ds) = pong w := fun _ _ _ => rfl
        exact .sends hsame
      have heq : answerPing buf srcAddr srcPort = fun w =>
          { w.advance with sent := w.sent ++ ((encodePong w.linkSelfSession
            (w.clock.now + (ghostTimeGetIntercept w).toUInt64) buf).map
              (.unicast srcAddr srcPort linkDiscoveryPort ·)).toList } := by
        funext w
        unfold answerPing measurementResponderHandleRx
        rw [hping]
        rfl
      rw [heq]
      exact .reading hpong

theorem on_udp_rx_uniform (buf : List UInt8) (srcAddr : UInt32) (srcPort : UInt16) :
    Uniform (onUdpRx buf srcAddr srcPort) := by
  have hmeasured : Uniform fun w =>
      applyMeas (measurementHandleRx w.clock w.meas buf srcAddr srcPort) w :=
    apply_meas_uniform (h := fun w c => measurementHandleRx c w.meas buf srcAddr srcPort)
      (fun _ _ _ => rfl) fun w => measurement_handle_rx_uniform w.meas buf srcAddr srcPort
  have hsilent : Uniform fun w : World => w := .still fun _ _ _ => rfl
  unfold onUdpRx
  refine .ite (p := fun _ => buf.length < 8) (fun _ _ _ => Iff.rfl) hsilent ?_
  refine .ite (p := fun _ => buf.take 8 = kProtoHdr) (fun _ _ _ => Iff.rfl)
    (link_handle_rx_uniform buf srcAddr srcPort) ?_
  exact .ite (p := fun _ => buf.take 8 = kProtoLink) (fun _ _ _ => Iff.rfl)
    (hmeasured.comp (answer_ping_uniform buf srcAddr srcPort)) hsilent

/-- Every event of the core is handled uniformly. -/
theorem step_uniform (e : Event) : Uniform fun w => step w e := by
  cases e with
  | udp buf srcAddr srcPort => exact on_udp_rx_uniform buf srcAddr srcPort
  | linkTick => exact link_tick_uniform
  | sessionTick => exact session_tick_uniform
  | setLocalTempo bpm => exact set_local_tempo_uniform bpm
  | setPlay play => exact set_play_uniform play
  | euroReset => exact snap_beat_origin_uniform
  | broadcastAliveNow => exact broadcast_alive_now_uniform
  | localAddress v4 v6 => exact .still fun _ _ _ => rfl

theorem prng_byte_uniform (store : UInt8 → World → World) (h : ∀ b, Uniform (store b)) :
    Uniform fun w => store (prngByte w).1 (prngByte w).2 := by
  have hseeded : ∀ s : UInt32, Uniform fun w : World => w.seed s :=
    fun _ => .still fun _ _ _ => rfl
  have hdrawn (next : UInt32 → UInt32) : Uniform fun w : World =>
      store (next w.prngSeed >>> 24).toUInt8 (w.seed (next w.prngSeed)) :=
    .choice (k := fun w => next w.prngSeed) (f := fun s w => store (s >>> 24).toUInt8 (w.seed s))
      (fun _ _ _ => rfl) fun s => (hseeded s).comp (h _)
  have hfirst : Uniform fun w : World => w.advance.seed (w.clock.now.toUInt32 ||| 1) :=
    .reading (f := fun t w => w.seed (t.toUInt32 ||| 1)) fun _ => .still fun _ _ _ => rfl
  have hsame : Uniform fun w : World => w := .still fun _ _ _ => rfl
  have hbyte := (Uniform.ite (p := fun w => w.prngSeed = 0) (fun _ _ _ => Iff.rfl) hfirst
    hsame).comp (hdrawn fun s => s * 1664525 + 1013904223)
  unfold prngByte
  dsimp only at hbyte ⊢
  exact hbyte

theorem prng_bytes_uniform (n : Nat) (store : List UInt8 → World → World)
    (h : ∀ bytes, Uniform (store bytes)) :
    Uniform fun w => store (prngBytes n w).1 (prngBytes n w).2 := by
  induction n generalizing store with
  | zero => exact h []
  | succ n ih =>
      exact prng_byte_uniform
        (fun b w => store (b :: (prngBytes n w).1) (prngBytes n w).2)
        fun b => ih (fun bytes => store (b :: bytes)) fun bytes => h (b :: bytes)

theorem link_init_uniform : Uniform linkInit := by
  have hload : Uniform loadSelfTimeline := .still fun _ _ _ => rfl
  have hreset : ∀ (bytes : List UInt8) (t : UInt64), Uniform fun w : World =>
      w.advance.reset (.ofBytes bytes) (t + (ghostTimeGetIntercept w).toUInt64).toInt64
        w.clock.now := by
    intro bytes t
    exact .reading (f := fun t' w => w.reset (.ofBytes bytes)
      (t + (ghostTimeGetIntercept w).toUInt64).toInt64 t') fun _ => .still fun _ _ _ => rfl
  have hdrawn (n : Nat) : Uniform fun w => loadSelfTimeline
      ((prngBytes n w).2.advance.advance.reset (.ofBytes (prngBytes n w).1)
        (ghostNow (prngBytes n w).2).toInt64 (prngBytes n w).2.advance.clock.now) :=
    prng_bytes_uniform n (fun bytes w => loadSelfTimeline (w.advance.advance.reset
      (.ofBytes bytes) (ghostNow w).toInt64 w.advance.clock.now))
      fun bytes => (Uniform.reading (hreset bytes)).comp hload
  unfold linkInit
  exact hdrawn 8

end LinkFPGA
