import LinkFPGA.Firmware.BeatPulse
import LinkFPGA.Firmware.Measurement

/-!
# The state of the firmware

`World` holds the globals and statics of `link.c`, `session.c`, `measurement.c` and
`beat_pulse.c`, the registers they write, the clock they read and the datagrams they have sent.
The functions here are the small wrappers the rest of the firmware is written with.
-/

namespace LinkFPGA

structure World where
  clock : Clock
  /-- `net_local_ipv4()` and `net_local_ipv6_bytes()`, as lwIP holds them. -/
  localIpv4 : UInt32
  localIpv6 : List UInt8
  sent : List Datagram
  /-- The intercept registers of `GhostTimeUnit`. -/
  interLo : UInt32
  interHi : UInt32
  pulse : PulseRegs
  sFlags : UInt8
  sBeatsPerBar : Int32
  /-- The static seed of `prng_byte`. -/
  prngSeed : UInt32
  linkSelfId : LinkId
  linkSelfSession : LinkId
  linkSelfTimeline : Timeline
  linkSelfStartstop : Startstop
  linkPeers : List Peer
  sLastBcastUs : UInt64
  sNextBcastUs : UInt64
  sStateDirty : Bool
  sLastRemeasureUs : UInt64
  /-- `s_active_target_session`: what we just tried to measure. -/
  sActiveTargetSession : LinkId
  /-- `S` of `measurement.c`. -/
  meas : MeasState

namespace World

/-- The state after one call of `host_time_us()`, which returns `w.clock.now`. -/
def advance (w : World) : World := { w with clock := w.clock.advance }

/-- Hand a datagram to the network layer. -/
def send (w : World) (d : Datagram) : World := { w with sent := w.sent ++ [d] }

/-- Issue register writes to `BeatPulseGen`. -/
def csr (w : World) (ws : List PulseWrite) : World := { w with pulse := w.pulse.writes ws }

end World

/-! ## `ghost_time.c` -/

/-- `ghost_time_set_intercept`. -/
def ghostTimeSetIntercept (intercept : Int64) (w : World) : World :=
  { w with
    interLo := toU32 intercept
    interHi := toU32 (intercept >>> 32) }

/-- `ghost_time_get_intercept`. -/
def ghostTimeGetIntercept (w : World) : Int64 :=
  (w.interHi.toUInt64 <<< 32 ||| w.interLo.toUInt64).toInt64

/-- `ghost_time_us()` on the next reading of the clock. -/
def ghostNow (w : World) : UInt64 := w.clock.now + (ghostTimeGetIntercept w).toUInt64

/-- The two words of a signed 64-bit value put together again. -/
theorem words_of_int64 (x : Int64) :
    ((toU32 (x >>> 32)).toUInt64 <<< 32 ||| (toU32 x).toUInt64).toInt64 = x := by
  have hhigh : (toU32 (x >>> 32)).toBitVec = (x.toBitVec.sshiftRight 32).setWidth 32 := by
    simp [toU32]
  have hlow : (toU32 x).toBitVec = x.toBitVec.setWidth 32 := rfl
  have hshift : UInt64.toBitVec 32 % 64 = 32#64 := rfl
  apply Int64.toBitVec_inj.mp
  apply BitVec.eq_of_getLsbD_eq
  intro i hi
  simp only [UInt64.toBitVec_toInt64, UInt64.toBitVec_or, UInt64.toBitVec_shiftLeft,
    UInt32.toBitVec_toUInt64, hhigh, hlow, hshift, BitVec.getLsbD_or, BitVec.getLsbD_setWidth,
    BitVec.shiftLeft_eq', BitVec.getLsbD_shiftLeft, BitVec.getLsbD_sshiftRight,
    BitVec.toNat_ofNat]
  by_cases h : i < 32
  · simp [h, hi]
  · have hindex : i - 32 < 64 ∧ ¬ 64 ≤ i - 32 := by omega
    have hword : i - 32 < 32 := by omega
    have hback : 32 + (i - 32) = i := by omega
    simp [h, hi, hword, hback, hindex]

/-- The intercept read back is the one that was set. -/
@[simp] theorem ghost_time_get_set (intercept : Int64) (w : World) :
    ghostTimeGetIntercept (ghostTimeSetIntercept intercept w) = intercept :=
  words_of_int64 intercept

/-! ## `beat_pulse.c` on the state -/

/-- `beat_pulse_init`. -/
def beatPulseInit (w : World) : World :=
  { w with sFlags := 0 }.csr [.flags 0, .pulseWidth 1000]

/-- `beat_pulse_load_timeline(&link_self_timeline, &link_self_startstop)`. -/
def loadSelfTimeline (w : World) : World :=
  { w.csr (beatPulseLoadTimeline w.sFlags w.sBeatsPerBar w.linkSelfTimeline w.linkSelfStartstop)
    with sFlags := loadFlags w.sFlags w.linkSelfStartstop }

/-- `beat_pulse_set_sync_led`. -/
def beatPulseSetSyncLed (on : Bool) (w : World) : World :=
  { w with sFlags := setFlag w.sFlags 0x08 on }.csr [.flags (setFlag w.sFlags 0x08 on)]

/-- `beat_pulse_set_peer_led`. -/
def beatPulseSetPeerLed (on : Bool) (w : World) : World :=
  { w with sFlags := setFlag w.sFlags 0x10 on }.csr [.flags (setFlag w.sFlags 0x10 on)]

/-- `link_broadcast_alive_now`. -/
def linkBroadcastAliveNow (w : World) : World :=
  { w.advance with
    sStateDirty := true
    sNextBcastUs := w.clock.now }

end LinkFPGA
