import LinkFPGA.Library.Runs
import LinkFPGA.Firmware.Link

/-!
# The main loop (`main.c`)

The events the main loop serves, one handler call each, and the state `link_init` leaves at
boot. A run is a list of events in any order, so it covers the order of `link_app_main` and
every other one. Link-Audio datagrams (`chnnlsv\x01`) are left to `link_audio.c`, which keeps
tables of its own.
-/

namespace LinkFPGA

/-- What the main loop can do next. -/
inductive Event where
  /-- A UDP datagram handed to `on_udp_rx`. -/
  | udp (buf : List UInt8) (srcAddr : UInt32) (srcPort : UInt16)
  | linkTick
  | sessionTick
  /-- `link_set_local_tempo`, from the web UI or a follower. -/
  | setLocalTempo (bpm : Rat)
  /-- `link_set_play`. -/
  | setPlay (play : Bool)
  /-- The reset edge in `euro_tick` as a follower: the beat origin snaps to now. -/
  | euroReset
  | broadcastAliveNow
  /-- lwIP obtains other local addresses. -/
  | localAddress (v4 : UInt32) (v6 : List UInt8)
  deriving DecidableEq, Repr

/-- The call of `measurement_responder_handle_rx` in `on_udp_rx`. -/
def answerPing (buf : List UInt8) (srcAddr : UInt32) (srcPort : UInt16) (w : World) : World :=
  let r := measurementResponderHandleRx w.linkSelfSession (ghostTimeGetIntercept w) w.clock buf
    srcAddr srcPort
  { w with
    clock := r.1
    sent := w.sent ++ r.2 }

/-- `on_udp_rx`. -/
def onUdpRx (buf : List UInt8) (srcAddr : UInt32) (srcPort : UInt16) (w : World) : World :=
  if buf.length < 8 then w
  else if buf.take 8 = kProtoHdr then linkHandleRx buf srcAddr srcPort w
  else if buf.take 8 = kProtoLink then
    answerPing buf srcAddr srcPort
      (applyMeas (measurementHandleRx w.clock w.meas buf srcAddr srcPort) w)
  else w

/-- The reset edge of `euro_tick` in follower mode. -/
def snapBeatOrigin (w : World) : World :=
  linkBroadcastAliveNow { w.advance with
    linkSelfTimeline := { w.linkSelfTimeline with
      beatOriginMicrobeats := 0
      timeOriginUsGhost := (ghostNow w).toInt64 } }

/-- One handler call of the main loop. -/
def step (w : World) : Event → World
  | .udp buf srcAddr srcPort => onUdpRx buf srcAddr srcPort w
  | .linkTick => linkTick w
  | .sessionTick => sessionTick w
  | .setLocalTempo bpm => linkSetLocalTempo bpm w
  | .setPlay play => linkSetPlay play w
  | .euroReset => snapBeatOrigin w
  | .broadcastAliveNow => linkBroadcastAliveNow w
  | .localAddress v4 v6 => { w with localIpv4 := v4, localIpv6 := v6 }

/-- Statics and registers at power-up. -/
def powerOn (reading : Nat → UInt64) (v4 : UInt32) (v6 : List UInt8) : World where
  clock := ⟨reading, 0⟩
  localIpv4 := v4
  localIpv6 := v6
  sent := []
  interLo := 0
  interHi := 0
  pulse := .reset
  sFlags := 0
  sBeatsPerBar := 4
  prngSeed := 0
  linkSelfId := .zero
  linkSelfSession := .zero
  linkSelfTimeline := ⟨0, 0, 0⟩
  linkSelfStartstop := ⟨0, 0, 0⟩
  linkPeers := List.replicate linkMaxPeers .zero
  sLastBcastUs := 0
  sNextBcastUs := 0
  sStateDirty := false
  sLastRemeasureUs := 0
  sActiveTargetSession := .zero
  meas := .zero

/-- The state the main loop starts from, for given clock readings and local addresses. -/
def boot (reading : Nat → UInt64) (v4 : UInt32) (v6 : List UInt8) : World :=
  linkInit (beatPulseInit (powerOn reading v4 v6))

/-- The state after the events. -/
abbrev runEvents (w : World) (es : List Event) : World := Runs.run step w es

end LinkFPGA
