import LinkFPGA.Proofs.Housekeeping
import LinkFPGA.Proofs.SessionTracking

/-!
# The status flags

`BeatPulseGen` shows the run, sync and peer flags. The run flag follows `link_self_startstop`. The
sync flag is set when a session is taken over and never cleared, also when the node comes back to
its own session, and `session_tick` returns before the peer flag while the node is in its own
session. So after a tick the flags are right if the node is in a foreign session, or has never taken
one over and has no peers (`status_flags_iff`).
-/

namespace LinkFPGA

open Runs

/-! ## Bits -/

/-- Bit `i` of a flags byte. -/
def flagBit (flags : UInt8) (i : Nat) : Bool := flags.toBitVec.getLsbD i

/-- Setting the flags of a mask. -/
theorem flag_bit_set (flags mask : UInt8) (on : Bool) {i : Nat} (hi : i < 8) :
    flagBit (setFlag flags mask on) i = if flagBit mask i then on else flagBit flags i := by
  unfold flagBit setFlag
  cases on with
  | true =>
      rw [if_pos rfl, UInt8.toBitVec_or, BitVec.getLsbD_or]
      cases mask.toBitVec.getLsbD i <;> simp
  | false =>
      rw [if_neg (by decide), UInt8.toBitVec_and, UInt8.toBitVec_not, BitVec.getLsbD_and,
        BitVec.getLsbD_not]
      cases mask.toBitVec.getLsbD i <;> simp [hi]

/-! ## Taking over -/

/-- The session, if any, that the node takes over when `S.completion` is called so. -/
def takenOver (w : World) : Option (Bool × Int64) → List LinkId
  | some (true, intercept) =>
      if switchToNew (intercept - ghostTimeGetIntercept w) w.sActiveTargetSession
          w.linkSelfSession then
        [w.sActiveTargetSession]
      else []
  | _ => []

/-- The session that the node takes over in an event. -/
def adoptions (w : World) : Event → List LinkId
  | .udp buf srcAddr srcPort =>
      if buf.take 8 = kProtoLink then
        takenOver w (measurementHandleRx w.clock w.meas buf srcAddr srcPort).call
      else []
  | _ => []

/-- What the flags of a node tell that has taken over some sessions. -/
structure FlagsTrack (w : World) (past : List LinkId) : Prop where
  register : w.pulse.flags = w.sFlags
  run : flagBit w.sFlags 0 = decide (w.linkSelfStartstop.isPlaying ≠ 0)
  sync : flagBit w.sFlags 3 = decide (past ≠ [])
  /-- Without any of them it is in its own session, and the peer flag is as it was at boot. -/
  own : past = [] → w.linkSelfSession = w.linkSelfId ∧ flagBit w.sFlags 4 = false

namespace FlagsTrack

variable {w w' : World} {past : List LinkId}

theorem housekeeping (h : FlagsTrack w past) (hkept : Housekeeping w w') : FlagsTrack w' past := by
  rw [hkept]
  exact ⟨h.register, h.run, h.sync, h.own⟩

/-- The pulse generator is programmed with a new timeline and play state. -/
theorem load (h : FlagsTrack w past) (hflags : w'.sFlags = w.sFlags)
    (hsession : w'.linkSelfSession = w.linkSelfSession) (hid : w'.linkSelfId = w.linkSelfId) :
    FlagsTrack (loadSelfTimeline w') past := by
  have hloaded : (loadSelfTimeline w').sFlags = setFlag w.sFlags 0x01
      (decide (w'.linkSelfStartstop.isPlaying ≠ 0)) := hflags ▸ rfl
  refine ⟨rfl, ?_, ?_, fun hnone => ?_⟩
  · rw [hloaded, flag_bit_set _ _ _ (by decide)]
    rfl
  · rw [hloaded, flag_bit_set _ _ _ (by decide)]
    exact h.sync
  · obtain ⟨hown, hpeer⟩ := h.own hnone
    rw [hloaded, flag_bit_set _ _ _ (by decide)]
    exact ⟨hsession.trans (hown.trans hid.symm), hpeer⟩

/-- The peer flag of a node that has taken over a session. -/
theorem set_peer_led (h : FlagsTrack w past) (hpast : past ≠ []) (on : Bool) :
    FlagsTrack (beatPulseSetPeerLed on w) past := by
  have hflags : (beatPulseSetPeerLed on w).sFlags = setFlag w.sFlags 0x10 on := rfl
  refine ⟨rfl, ?_, ?_, fun hnone => absurd hnone hpast⟩
  · rw [hflags, flag_bit_set _ _ _ (by decide)]
    exact h.run
  · rw [hflags, flag_bit_set _ _ _ (by decide)]
    exact h.sync

/-- A session is taken over. -/
theorem adopt (h : FlagsTrack w past) (intercept : Int64) (session : LinkId) :
    FlagsTrack (adoptSession intercept w) (past ++ [session]) := by
  have hsync (v : World) (hrun : flagBit v.sFlags 0 = decide (v.linkSelfStartstop.isPlaying ≠ 0)) :
      FlagsTrack (linkBroadcastAliveNow (beatPulseSetSyncLed true v)) (past ++ [session]) := by
    have hflags : (linkBroadcastAliveNow (beatPulseSetSyncLed true v)).sFlags =
        setFlag v.sFlags 0x08 true := rfl
    refine ⟨rfl, ?_, ?_, fun hnone => by simp at hnone⟩
    · rw [hflags, flag_bit_set _ _ _ (by decide)]
      exact hrun
    · rw [hflags, flag_bit_set _ _ _ (by decide)]
      simp [flagBit]
  unfold adoptSession
  dsimp only
  split
  · exact hsync _ h.run
  · refine hsync _ ?_
    show flagBit (setFlag w.sFlags 0x01 _) 0 = _
    rw [flag_bit_set _ _ _ (by decide)]
    rfl

/-- A successful measurement is completed. -/
theorem measured (h : FlagsTrack w past) (intercept : Int64) :
    FlagsTrack (onMeasureDone true intercept w) (past ++ takenOver w (some (true, intercept))) := by
  unfold onMeasureDone takenOver
  simp only [Bool.not_true, Bool.false_eq_true, if_false, ghost_diff_eq]
  split
  · have hmarked : FlagsTrack { w.advance with
        linkPeers := w.linkPeers.map (markMeasured w.sActiveTargetSession intercept) } past :=
      h.housekeeping rfl
    exact (hmarked.adopt intercept _).housekeeping rfl
  · rw [List.append_nil]
    exact h.housekeeping rfl

/-- What a handler of `measurement.c` did is carried out. -/
theorem apply_meas (h : FlagsTrack w past) (r : MeasResult) :
    FlagsTrack (applyMeas r w) (past ++ takenOver w r.call) := by
  by_cases hsuccess : ∃ intercept, r.call = some (true, intercept)
  · obtain ⟨intercept, hcall⟩ := hsuccess
    have hbefore : FlagsTrack { w with
        clock := r.clock
        meas := r.state
        sent := w.sent ++ r.sent } past := h.housekeeping rfl
    have hdone := hbefore.measured intercept
    unfold applyMeas
    rw [hcall]
    exact hdone
  · have hquiet : ∀ intercept, r.call ≠ some (true, intercept) :=
      fun intercept hcall => hsuccess ⟨intercept, hcall⟩
    have hnone : takenOver w r.call = [] := by
      unfold takenOver
      split
      · rename_i intercept hcall
        exact absurd hcall (hquiet intercept)
      · rfl
    rw [hnone, List.append_nil]
    exact h.housekeeping (apply_meas_housekeeping w hquiet)

/-- A tick of the supervisor. -/
theorem session_tick (h : FlagsTrack w past) : FlagsTrack (sessionTick w) past := by
  obtain ⟨w', hkept, -, htick⟩ := session_tick_housekeeping w
  have hw' := h.housekeeping hkept
  rw [htick]
  split
  · exact hw'
  · rename_i hforeign
    exact hw'.set_peer_led (fun hnone => hforeign (h.own hnone).1) _

end FlagsTrack

/-- One event keeps what the flags tell. -/
theorem step_flags (w : World) (past : List LinkId) (e : Event) (h : FlagsTrack w past) :
    FlagsTrack (step w e) (past ++ adoptions w e) := by
  cases e with
  | udp buf srcAddr srcPort =>
      by_cases hmagic : buf.take 8 = kProtoLink
      · have hadopted : adoptions w (.udp buf srcAddr srcPort) =
            takenOver w (measurementHandleRx w.clock w.meas buf srcAddr srcPort).call :=
          if_pos hmagic
        rw [hadopted, step_pong hmagic]
        exact (h.apply_meas _).housekeeping rfl
      · have hadopted : adoptions w (.udp buf srcAddr srcPort) = [] := if_neg hmagic
        have hquiet : reports w (.udp buf srcAddr srcPort) = [] := if_neg hmagic
        rw [hadopted, List.append_nil]
        exact h.housekeeping (udp_housekeeping hquiet)
  | linkTick =>
      have hnone : adoptions w .linkTick = [] := rfl
      rw [hnone, List.append_nil]
      exact h.housekeeping (link_tick_housekeeping w)
  | sessionTick =>
      have hnone : adoptions w .sessionTick = [] := rfl
      rw [hnone, List.append_nil]
      exact h.session_tick
  | setLocalTempo bpm =>
      have hnone : adoptions w (.setLocalTempo bpm) = [] := rfl
      have hloaded : FlagsTrack (loadSelfTimeline { w.advance with
          linkSelfTimeline := retimed bpm (ghostNow w).toInt64 w.linkSelfTimeline }) past :=
        h.load rfl rfl rfl
      rw [hnone, List.append_nil]
      exact hloaded.housekeeping rfl
  | setPlay play =>
      have hnone : adoptions w (.setPlay play) = [] := rfl
      have hloaded : FlagsTrack (loadSelfTimeline { w.advance with
          linkSelfStartstop := ⟨if play then 1 else 0,
            beatsAt w.linkSelfTimeline (ghostNow w).toInt64, (ghostNow w).toInt64⟩ }) past :=
        h.load rfl rfl rfl
      rw [hnone, List.append_nil]
      exact hloaded.housekeeping rfl
  | euroReset =>
      have hnone : adoptions w .euroReset = [] := rfl
      rw [hnone, List.append_nil]
      exact ⟨h.register, h.run, h.sync, h.own⟩
  | broadcastAliveNow =>
      have hnone : adoptions w .broadcastAliveNow = [] := rfl
      have hkept : Housekeeping w (linkBroadcastAliveNow w) := rfl
      rw [hnone, List.append_nil]
      exact h.housekeeping hkept
  | localAddress v4 v6 =>
      have hnone : adoptions w (.localAddress v4 v6) = [] := rfl
      have hkept : Housekeeping w { w with localIpv4 := v4, localIpv6 := v6 } := rfl
      rw [hnone, List.append_nil]
      exact h.housekeeping hkept

/-! ## Runs -/

theorem prng_bytes_flags (n : Nat) (w : World) : (prngBytes n w).2.sFlags = w.sFlags := by
  have hseed (s : UInt32) (w : World) : (w.seed s).sFlags = w.sFlags := rfl
  have hbyte (w : World) : (prngByte w).2.sFlags = w.sFlags := by
    rw [prngByte, hseed]
    split
    · rw [hseed]
      rfl
    · rfl
  induction n generalizing w with
  | zero => rfl
  | succ n ih => rw [prngBytes, ih, hbyte]

/-- A node that is set up does not play. -/
theorem reset_flags (id : LinkId) (origin : Int64) (now : UInt64) (w : World) :
    (loadSelfTimeline (w.reset id origin now)).sFlags = setFlag w.sFlags 0x01 false := rfl

theorem link_init_flags (w : World) : (linkInit w).sFlags = setFlag w.sFlags 0x01 false := by
  have hadvance (w : World) : w.advance.sFlags = w.sFlags := rfl
  rw [linkInit, reset_flags, hadvance, hadvance, prng_bytes_flags]

theorem link_init_own (w : World) :
    (linkInit w).linkSelfSession = (linkInit w).linkSelfId ∧
      (linkInit w).linkSelfStartstop.isPlaying = 0 ∧
      (linkInit w).pulse.flags = (linkInit w).sFlags := ⟨rfl, rfl, rfl⟩

/-- At boot all flags are off. -/
theorem boot_flags (reading : Nat → UInt64) (v4 : UInt32) (v6 : List UInt8) :
    FlagsTrack (boot reading v4 v6) [] := by
  have hflags : (boot reading v4 v6).sFlags = setFlag 0 0x01 false := link_init_flags _
  obtain ⟨hown, hplaying, hregister⟩ := link_init_own (beatPulseInit (powerOn reading v4 v6))
  refine ⟨hregister, ?_, ?_, fun _ => ⟨hown, ?_⟩⟩
  · rw [hflags, boot, hplaying]
    rfl
  · rw [hflags]
    rfl
  · rw [hflags]
    rfl

/-- The sessions that a run has taken over. -/
def adopted (reading : Nat → UInt64) (v4 : UInt32) (v6 : List UInt8) (es : List Event) :
    List LinkId := log step adoptions (boot reading v4 v6) es

theorem run_flags (reading : Nat → UInt64) (v4 : UInt32) (v6 : List UInt8) (es : List Event) :
    FlagsTrack (runEvents (boot reading v4 v6) es) (adopted reading v4 v6 es) :=
  run_log_invariant step_flags (boot_flags reading v4 v6) es

/-- The run, sync and peer flags of `BeatPulseGen` are what they stand for. -/
structure StatusMirrored (w : World) : Prop where
  run : flagBit w.pulse.flags 0 = true ↔ w.linkSelfStartstop.isPlaying ≠ 0
  sync : flagBit w.pulse.flags 3 = true ↔ w.linkSelfSession ≠ w.linkSelfId
  peer : flagBit w.pulse.flags 4 = true ↔ ∃ p ∈ w.linkPeers, p.inUse = true

/-- After a `session_tick` at the end of any run the status flags are right if and only if the node
is in a foreign session, or has never taken one over and has no peers. -/
theorem status_flags_iff (reading : Nat → UInt64) (v4 : UInt32) (v6 : List UInt8)
    (es : List Event) :
    let w := runEvents (boot reading v4 v6) es
    StatusMirrored (step w .sessionTick) ↔ w.linkSelfSession ≠ w.linkSelfId ∨
      adopted reading v4 v6 es = [] ∧ ∀ p ∈ w.linkPeers, p.inUse = false := by
  intro w
  have htrack : FlagsTrack w (adopted reading v4 v6 es) := run_flags reading v4 v6 es
  have hafter : FlagsTrack (step w .sessionTick) (adopted reading v4 v6 es) := htrack.session_tick
  have htick := session_tick_ordinary w
  have hpeers : (step w .sessionTick).linkPeers = w.linkPeers := htick.peers
  have hid : (step w .sessionTick).linkSelfId = w.linkSelfId := htick.selfId
  have hsession : (step w .sessionTick).linkSelfSession = w.linkSelfSession := htick.selfSession
  have hrun : flagBit (step w .sessionTick).pulse.flags 0 = true ↔
      (step w .sessionTick).linkSelfStartstop.isPlaying ≠ 0 := by
    rw [hafter.register, hafter.run, decide_eq_true_iff]
  by_cases hown : w.linkSelfSession = w.linkSelfId
  · have hforeign : ¬ w.linkSelfSession ≠ w.linkSelfId := not_not.mpr hown
    rw [or_iff_right hforeign]
    constructor
    · intro h
      have hsync := h.sync
      rw [hafter.register, hafter.sync, decide_eq_true_iff, hsession, hid] at hsync
      have hnone : adopted reading v4 v6 es = [] :=
        not_not.mp fun hpast => hforeign (hsync.mp hpast)
      have hpeer := h.peer
      rw [hafter.register, (hafter.own hnone).2, hpeers] at hpeer
      refine ⟨hnone, fun p hp => ?_⟩
      by_contra huse
      exact absurd (hpeer.mpr ⟨p, hp, by simpa using huse⟩) (by decide)
    · rintro ⟨hnone, hfree⟩
      refine ⟨hrun, ?_, ?_⟩
      · rw [hafter.register, hafter.sync, decide_eq_true_iff, hsession, hid, hnone]
        exact iff_of_false (fun h => h rfl) hforeign
      · rw [hafter.register, (hafter.own hnone).2, hpeers]
        refine iff_of_false (by decide) ?_
        rintro ⟨p, hp, huse⟩
        rw [hfree p hp] at huse
        cases huse
  · refine iff_of_true ⟨hrun, ?_, ?_⟩ (.inl hown)
    · have hpast : adopted reading v4 v6 es ≠ [] := fun hnone => hown (htrack.own hnone).1
      rw [hafter.register, hafter.sync, decide_eq_true_iff, hsession, hid]
      exact iff_of_true hpast hown
    · obtain ⟨w', -, -, heq⟩ := session_tick_housekeeping w
      rw [if_neg hown] at heq
      have hflags : (step w .sessionTick).pulse.flags =
          setFlag w'.sFlags 0x10 (decide (0 < w.linkPeers.countP (·.inUse))) :=
        congrArg (fun w : World => w.pulse.flags) heq
      have hbit : flagBit (0x10 : UInt8) 4 = true := by decide
      rw [hflags, flag_bit_set _ _ _ (by decide), if_pos hbit, decide_eq_true_iff, hpeers,
        List.countP_pos_iff]

/-- The node has heard an ALIVE in another session: it has a peer, and the peer flag is off. -/
theorem peer_flag_off :
    ¬ ∀ (reading : Nat → UInt64) (v4 : UInt32) (v6 : List UInt8) (es : List Event),
      StatusMirrored (step (runEvents (boot reading v4 v6) es) .sessionTick) := by
  intro hall
  have hmirrored : StatusMirrored (step (runEvents nodeSelf [aliveFrom nodeA]) .sessionTick) :=
    hall (ticking 1000) 0x0A000001 (List.replicate 16 0) [aliveFrom nodeA]
  have hstate : flagBit (step (runEvents nodeSelf [aliveFrom nodeA]) .sessionTick).pulse.flags 4 =
      false ∧ ∃ p ∈ (step (runEvents nodeSelf [aliveFrom nodeA]) .sessionTick).linkPeers,
        p.inUse = true := by
    decide +kernel
  obtain ⟨hoff, hknown⟩ := hstate
  rw [hmirrored.peer.mpr hknown] at hoff
  cases hoff

end LinkFPGA
