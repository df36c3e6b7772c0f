import Mathlib.Data.Rat.Floor
import Mathlib.Tactic.Linarith
import LinkFPGA.Proofs.Merging

/-!
# The tempo stays positive

`link_set_local_tempo`, `link_set_play` and `send_audio_buffer_for` divide by the tempo of the
node's timeline. It is written at boot, by local edits, and by `on_measure_done`, which copies the
timeline of a peer as that peer announced it. `tempo_positive` says that the tempo is positive in
every run that adopts positive tempi only, and `adopted_tempo_zero` is a run that adopts the
timeline of a peer whose ALIVE had no `tmln` entry.
-/

namespace LinkFPGA

open Runs

/-! ## Local edits -/

/-- The tempi that the callers of `link_set_local_tempo` pass: 20 to 999 BPM from the web UI, and
the tempo of a pulse period in microseconds from the MIDI and the Eurorack follower. -/
def CallerBpm (bpm : Rat) : Prop :=
  (20 ≤ bpm ∧ bpm ≤ 999) ∨
    (∃ period : UInt32, 1 ≤ period ∧ bpm = 60000000 / (24 * period.toNat)) ∨
    ∃ (period : UInt32) (ppqn : UInt8), 1 ≤ period ∧ 1 ≤ ppqn ∧
      bpm = 60000000 / (period.toNat * ppqn.toNat)

/-- Truncating a rational between 1 and `2 ^ 63` gives a positive value. -/
theorem trunc_pos {q : Rat} (hlo : 1 ≤ q) (hhi : q < 2 ^ 63) : 0 < truncToInt64 q := by
  have hnum : 0 ≤ q.num := Rat.num_nonneg.mpr (zero_le_one.trans hlo)
  have hfloor : q.num.tdiv q.den = ⌊q⌋ := by
    rw [Int.tdiv_eq_ediv_of_nonneg hnum, Rat.floor_def']
  have hfloor_lo : 1 ≤ ⌊q⌋ := Int.le_floor.mpr (by exact_mod_cast hlo)
  have hfloor_hi : ⌊q⌋ < 2 ^ 63 := Int.floor_lt.mpr (by exact_mod_cast hhi)
  rw [Int64.lt_iff_toInt_lt, truncToInt64, hfloor, Int64.toInt_ofInt_of_le (by omega) (by omega)]
  show 0 < ⌊q⌋
  omega

/-- A caller's tempo gives a beat of 1 to `2 ^ 41` microseconds. -/
theorem caller_bpm_beat {bpm : Rat} (h : CallerBpm bpm) :
    1 ≤ 60000000 / bpm + 1 / 2 ∧ 60000000 / bpm + 1 / 2 < 2 ^ 63 := by
  rcases h with ⟨hlo, hhi⟩ | ⟨period, hperiod, rfl⟩ | ⟨period, ppqn, hperiod, hppqn, rfl⟩
  · have hpos : 0 < bpm := by linarith
    have hbeat_lo : 60000000 / 999 ≤ 60000000 / bpm :=
      div_le_div_of_nonneg_left (by norm_num) hpos hhi
    have hbeat_hi : 60000000 / bpm ≤ 60000000 / 20 :=
      div_le_div_of_nonneg_left (by norm_num) (by norm_num) hlo
    constructor
    · linarith
    · linarith
  · have hlo : 1 ≤ period.toNat := by simpa using UInt32.le_iff_toNat_le.mp hperiod
    have hhi := period.toNat_lt
    have hbeat : (60000000 : Rat) / (60000000 / (24 * period.toNat)) = 24 * period.toNat :=
      div_div_cancel₀ (by norm_num)
    have hlo' : (1 : Rat) ≤ period.toNat := by exact_mod_cast hlo
    have hhi' : (period.toNat : Rat) < 2 ^ 32 := by exact_mod_cast hhi
    rw [hbeat]
    constructor
    · linarith
    · linarith
  · have hlo : 1 ≤ period.toNat * ppqn.toNat := by
      have hone : 1 ≤ period.toNat := by simpa using UInt32.le_iff_toNat_le.mp hperiod
      have hone' : 1 ≤ ppqn.toNat := by simpa using UInt8.le_iff_toNat_le.mp hppqn
      exact Nat.one_le_iff_ne_zero.mpr (Nat.mul_ne_zero (by omega) (by omega))
    have hhi : period.toNat * ppqn.toNat < 2 ^ 40 := by
      have hmul := Nat.mul_lt_mul'' period.toNat_lt ppqn.toNat_lt
      simpa using hmul
    have hbeat : (60000000 : Rat) / (60000000 / (period.toNat * ppqn.toNat)) =
        period.toNat * ppqn.toNat := div_div_cancel₀ (by norm_num)
    have hlo' : (1 : Rat) ≤ period.toNat * ppqn.toNat := by exact_mod_cast hlo
    have hhi' : (period.toNat * ppqn.toNat : Rat) < 2 ^ 40 := by exact_mod_cast hhi
    rw [hbeat]
    constructor
    · linarith
    · linarith

/-! ## Adoption -/

/-- Marking the peers of a session as measured changes no timeline, so the latest one is the
same. -/
theorem best_peer_timeline (peers : List Peer) (session marked : LinkId) (intercept : Int64) :
    (bestPeer (peers.map (markMeasured marked intercept)) session).map Peer.timeline =
      (bestPeer peers session).map Peer.timeline := by
  have hmark (p : Peer) : (markMeasured marked intercept p).inUse = p.inUse ∧
      (markMeasured marked intercept p).sessionId = p.sessionId ∧
      (markMeasured marked intercept p).timeline = p.timeline := by
    unfold markMeasured
    split
    · exact ⟨rfl, rfl, rfl⟩
    · exact ⟨rfl, rfl, rfl⟩
  rw [bestPeer, bestPeer, List.foldl_map]
  refine List.foldl_rel
    (r := fun best' best : Option Peer => best'.map Peer.timeline = best.map Peer.timeline) rfl ?_
  intro p _ best' best h
  obtain ⟨huse, hsession, htimeline⟩ := hmark p
  rw [huse, hsession]
  split
  · cases best with
    | none =>
        rw [Option.map_none, Option.map_eq_none_iff] at h
        subst h
        exact congrArg some htimeline
    | some b =>
        obtain ⟨b', rfl, hb⟩ := Option.map_eq_some_iff.mp h
        dsimp only
        rw [hb, htimeline]
        split
        · exact congrArg some htimeline
        · exact congrArg some hb
  · exact h

/-- Adopting a session takes over the timeline of its best peer, if it has one. -/
theorem adopt_session_timeline (intercept : Int64) (w : World) :
    (adoptSession intercept w).linkSelfTimeline =
      ((bestPeer w.linkPeers w.sActiveTargetSession).map Peer.timeline).getD
        w.linkSelfTimeline := by
  unfold adoptSession
  dsimp only
  split
  · rename_i hbest
    rw [show bestPeer w.linkPeers w.sActiveTargetSession = none from hbest]
    rfl
  · rename_i best hbest
    rw [show bestPeer w.linkPeers w.sActiveTargetSession = some best from hbest]
    rfl

/-- The timeline that a node with a successful measurement adopts, if any. -/
def adoptedTimeline (w : World) (intercept : Int64) : Option Timeline :=
  if switchToNew (intercept - ghostTimeGetIntercept w) w.sActiveTargetSession
      w.linkSelfSession then
    (bestPeer w.linkPeers w.sActiveTargetSession).map Peer.timeline
  else none

/-- `on_measure_done(1, intercept)` adopts that timeline and leaves the node's own otherwise. -/
theorem on_measure_done_timeline (intercept : Int64) (w : World) :
    (onMeasureDone true intercept w).linkSelfTimeline =
      (adoptedTimeline w intercept).getD w.linkSelfTimeline := by
  have hbest := best_peer_timeline w.linkPeers w.sActiveTargetSession w.sActiveTargetSession
    intercept
  unfold onMeasureDone adoptedTimeline
  simp only [Bool.not_true, Bool.false_eq_true, if_false, ghost_diff_eq]
  split
  · rw [← hbest]
    exact adopt_session_timeline _ _
  · rfl

/-! ## Runs -/

/-- A local edit passes a caller's tempo, and a successful measurement adopts no timeline whose
tempo is not positive. -/
def SoundTempo (w : World) : Event → Prop
  | .setLocalTempo bpm => CallerBpm bpm
  | e => ∀ r ∈ reports w e, ∀ tl ∈ adoptedTimeline w r.2, 0 < tl.tempoUsPerBeat

/-- An event with a successful measurement does to the timeline what `on_measure_done` does. -/
theorem step_adopts {w : World} {e : Event} {r : LinkId × Int64} (h : r ∈ reports w e) :
    (step w e).linkSelfTimeline = (adoptedTimeline w r.2).getD w.linkSelfTimeline := by
  cases e with
  | udp buf srcAddr srcPort =>
      unfold reports successOf at h
      dsimp only at h
      split at h
      · rename_i hmagic
        split at h
        · rename_i intercept hcall
          rw [List.mem_singleton] at h
          subst h
          rw [step_pong hmagic]
          show (applyMeas (measurementHandleRx w.clock w.meas buf srcAddr srcPort)
            w).linkSelfTimeline = _
          unfold applyMeas
          rw [hcall]
          exact on_measure_done_timeline intercept _
        · cases h
      · cases h
  | linkTick | sessionTick | setLocalTempo | setPlay | euroReset | broadcastAliveNow
  | localAddress => cases h

/-- The tempo that a sound event leaves. -/
theorem step_tempo {w : World} {e : Event} (hpos : 0 < w.linkSelfTimeline.tempoUsPerBeat)
    (hsound : SoundTempo w e) : 0 < (step w e).linkSelfTimeline.tempoUsPerBeat := by
  cases hreports : reports w e with
  | nil =>
      rw [show (step w e).linkSelfTimeline = (edited w e).1 from
        congrArg Prod.fst (step_self_state hreports)]
      cases e with
      | setLocalTempo bpm =>
          obtain ⟨hlo, hhi⟩ := caller_bpm_beat hsound
          exact trunc_pos hlo hhi
      | udp | linkTick | sessionTick | setPlay | euroReset | broadcastAliveNow
      | localAddress => exact hpos
  | cons r rs =>
      have hmem : r ∈ reports w e := hreports ▸ List.mem_cons_self
      rw [step_adopts hmem]
      have hadopted : ∀ tl ∈ adoptedTimeline w r.2, 0 < tl.tempoUsPerBeat := by
        cases e with
        | setLocalTempo bpm => cases hmem
        | udp | linkTick | sessionTick | setPlay | euroReset | broadcastAliveNow
        | localAddress => exact hsound r hmem
      cases htl : adoptedTimeline w r.2 with
      | none => exact hpos
      | some tl => exact hadopted tl htl

theorem load_self_timeline_timeline (w : World) :
    (loadSelfTimeline w).linkSelfTimeline = w.linkSelfTimeline := rfl

theorem reset_timeline (id : LinkId) (origin : Int64) (now : UInt64) (w : World) :
    (w.reset id origin now).linkSelfTimeline = ⟨linkDefaultTempoUsPerBeat, 0, origin⟩ := rfl

/-- In every run from boot whose local edits pass a caller's tempo and whose measurements adopt
positive tempi only, the tempo is positive. -/
theorem tempo_positive (reading : Nat → UInt64) (v4 : UInt32) (v6 : List UInt8) (es : List Event)
    (h : Guarded step SoundTempo (boot reading v4 v6) es) :
    0 < (runEvents (boot reading v4 v6) es).linkSelfTimeline.tempoUsPerBeat := by
  have hboot : 0 < (boot reading v4 v6).linkSelfTimeline.tempoUsPerBeat := by
    rw [boot, linkInit, load_self_timeline_timeline, reset_timeline]
    show 0 < linkDefaultTempoUsPerBeat
    decide
  exact run_induct (motive := fun w => 0 < w.linkSelfTimeline.tempoUsPerBeat)
    (fun _ _ => step_tempo) hboot h

/-- The first node's PONG, with a ghost time five seconds ahead. -/
def pongAhead : List UInt8 :=
  (encodePong nodeA.linkSelfSession 5000000 (encodePing 1010 5000000 true)).getD []

/-- A datagram that makes the node adopt no timeline whose tempo is not positive. -/
def SoundDatagram (w : World) : Event → Prop
  | .udp buf addr port => ∀ r ∈ reports w (.udp buf addr port), ∀ tl ∈ adoptedTimeline w r.2,
      0 < tl.tempoUsPerBeat
  | _ => False

instance decidableSoundDatagram (w : World) : DecidablePred (SoundDatagram w)
  | .udp buf addr port => inferInstanceAs (Decidable (∀ r ∈ reports w (.udp buf addr port),
      ∀ tl ∈ adoptedTimeline w r.2, 0 < tl.tempoUsPerBeat))
  | .linkTick | .sessionTick | .setLocalTempo _ | .setPlay _ | .euroReset | .broadcastAliveNow
  | .localAddress _ _ => .isFalse id

theorem SoundDatagram.tempo {w : World} {e : Event} (h : SoundDatagram w e) : SoundTempo w e := by
  cases e with
  | udp => exact h
  | linkTick | sessionTick | setLocalTempo | setPlay | euroReset | broadcastAliveNow
  | localAddress => cases h

/-- A node that is asked for 174 BPM, and hears and joins a session five seconds ahead. -/
def joiningAhead : List Event :=
  aliveFrom nodeA :: List.replicate 51 (.udp pongAhead nodeA.localIpv4 linkDiscoveryPort)

theorem joining_ahead_sound {w : World} (hw : w = step nodeSelf (.setLocalTempo 174)) :
    Guarded step SoundTempo w joiningAhead := by
  have hsound : Guarded step SoundDatagram w joiningAhead := by
    rw [hw]
    decide +kernel
  exact hsound.mono fun _ _ => SoundDatagram.tempo

theorem tempo_positive_edited :
    (runEvents nodeSelf (.setLocalTempo 174 :: joiningAhead)).linkSelfSession =
        nodeA.linkSelfSession ∧
      0 < (runEvents nodeSelf
        (.setLocalTempo 174 :: joiningAhead)).linkSelfTimeline.tempoUsPerBeat := by
  have hbooted : nodeSelf = boot (ticking 1000) 0x0A000001 (List.replicate 16 0) := rfl
  have hedit : SoundTempo nodeSelf (.setLocalTempo 174) := .inl ⟨by norm_num, by norm_num⟩
  refine ⟨by decide +kernel, ?_⟩
  have hjoining := joining_ahead_sound rfl
  rw [hbooted] at hedit hjoining ⊢
  exact tempo_positive (ticking 1000) 0x0A000001 (List.replicate 16 0)
    (.setLocalTempo 174 :: joiningAhead) ⟨hedit, hjoining⟩

/-! ## A peer without a timeline -/

/-- The first node's ALIVE with a session and a measurement endpoint, and no `tmln`. -/
def aliveBare : Event :=
  .udp (discoveryHeader 1 5 nodeA.linkSelfId ++ tlvEmitBytes keySess nodeA.linkSelfSession.bytes ++
    tlvEmitBytes keyMep4 (putBe32 nodeA.localIpv4 ++ putBe16 linkDiscoveryPort)) nodeA.localIpv4
    linkDiscoveryPort

/-- The node under test has heard the bare ALIVE and 50 PONGs. -/
def almostAhead : World :=
  runEvents nodeSelf
    (aliveBare :: List.replicate 50 (.udp pongAhead nodeA.localIpv4 linkDiscoveryPort))

/-- The PONG that brings the samples above the threshold reports their median. -/
theorem reports_median {w : World} {buf : List UInt8} {srcAddr : UInt32} {srcPort : UInt16}
    {ctx : PongCtx} (hmagic : buf.take 8 = kProtoLink)
    (hparse : parsePong w.meas buf srcAddr srcPort = some ctx)
    (hsess : ctx.sess = w.meas.targetSession)
    (hfull : linkSampleThreshold <
      (recordSamples w.clock.now.toInt64 ctx w.meas).samples.size)
    (hcompletion : (recordSamples w.clock.now.toInt64 ctx w.meas).completion = true) :
    reports w (.udp buf srcAddr srcPort) = [(w.meas.targetSession,
      (medianI64 (recordSamples w.clock.now.toInt64 ctx w.meas).samples).2)] := by
  have hcall : (measurementHandleRx w.clock w.meas buf srcAddr srcPort).call = some (true,
      (medianI64 (recordSamples w.clock.now.toInt64 ctx w.meas).samples).2) := by
    rw [measurement_handle_rx_accepted hparse hsess]
    dsimp only
    rw [if_pos hfull]
    exact if_pos hcompletion
  simp only [reports, hmagic, if_true, hcall, successOf]

/-- In any state with that measurement, that clock and that intercept, the next PONG reports a
ghost time more than 500 ms ahead. -/
theorem pong_ahead_reports (w : World) (hmeas : w.meas = almostAhead.meas)
    (hclock : w.clock = almostAhead.clock) (hlo : w.interLo = almostAhead.interLo)
    (hhi : w.interHi = almostAhead.interHi) :
    ghostTimeGetIntercept w = 0 ∧ ∃ median,
      reports w (.udp pongAhead nodeA.localIpv4 linkDiscoveryPort) =
        [(w.meas.targetSession, median)] ∧ linkSessionEpsUs < median := by
  have hready : pongAhead.take 8 = kProtoLink ∧
      (almostAhead.interHi = 0 ∧ almostAhead.interLo = 0) ∧
      ∃ ctx ∈ parsePong almostAhead.meas pongAhead nodeA.localIpv4 linkDiscoveryPort,
        ctx.sess = almostAhead.meas.targetSession ∧
        let s := recordSamples almostAhead.clock.now.toInt64 ctx almostAhead.meas
        linkSampleThreshold < s.samples.size ∧ s.completion = true ∧
          s.samples.all (fun v => 1000000 ≤ v.toInt ∧ v.toInt ≤ 10000000) = true := by
    decide +kernel
  rw [← hmeas, ← hclock, ← hlo, ← hhi] at hready
  obtain ⟨hmagic, ⟨hhi, hlo⟩, ctx, hparse, hsess, hfull, hcompletion, hsamples⟩ := hready
  have hmedian := median_between (Nat.ne_of_gt (Nat.zero_lt_of_lt hfull)) (by norm_num)
    (by norm_num) fun v hv =>
      of_decide_eq_true (Array.all_eq_true_iff_forall_mem.mp hsamples v hv)
  refine ⟨?_, _, reports_median hmagic hparse hsess hfull hcompletion, ?_⟩
  · rw [ghostTimeGetIntercept, hhi, hlo]
    rfl
  · rw [Int64.lt_iff_toInt_lt]
    show 500000 < _
    omega

/-- The next PONG completes the measurement, and the first node's session is taken over with a
timeline whose tempo is 0. -/
theorem adopted_tempo_zero :
    ¬ ∀ (reading : Nat → UInt64) (v4 : UInt32) (v6 : List UInt8) (es : List Event),
      (∀ bpm, .setLocalTempo bpm ∈ es → CallerBpm bpm) →
        0 < (runEvents (boot reading v4 v6) es).linkSelfTimeline.tempoUsPerBeat := by
  intro h
  let pong : Event := .udp pongAhead nodeA.localIpv4 linkDiscoveryPort
  have hrun := h (ticking 1000) 0x0A000001 (List.replicate 16 0)
    ((aliveBare :: List.replicate 50 pong) ++ [pong]) (by simp [pong, aliveBare])
  have hbefore : run step (boot (ticking 1000) 0x0A000001 (List.replicate 16 0))
      (aliveBare :: List.replicate 50 pong) = almostAhead := rfl
  rw [runEvents, run_append, hbefore, run_cons, run_nil] at hrun
  have hbest : (bestPeer almostAhead.linkPeers almostAhead.sActiveTargetSession).map
      (fun p => p.timeline.tempoUsPerBeat) = some 0 := by
    decide +kernel
  obtain ⟨hintercept, median, hreports, hahead⟩ :=
    pong_ahead_reports almostAhead rfl rfl rfl rfl
  have hzero : (adoptedTimeline almostAhead median).map (fun tl => tl.tempoUsPerBeat) =
      some 0 := by
    rw [adoptedTimeline, hintercept, Int64.sub_zero, switchToNew, if_pos hahead, if_pos rfl,
      Option.map_map]
    exact hbest
  obtain ⟨tl, htl, htempo⟩ := Option.map_eq_some_iff.mp hzero
  rw [step_adopts (hreports ▸ List.mem_singleton_self _), htl, Option.getD_some, htempo] at hrun
  exact absurd hrun (by decide)

end LinkFPGA
