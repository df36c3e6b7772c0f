import LinkFPGA.Firmware.World

/-!
# The session supervisor (`session.c`)

`session_observe_peer` and `session_tick` ask for measurements, `on_measure_done` decides what to
do with a result. `observeRequest` and `remeasureRequest` name the measurement a call asks for,
as a function of the peer table and the identifiers; `session_observe_peer_eq` and
`session_tick_eq` say that the calls do nothing else to the measurement.
-/

namespace LinkFPGA

/-- `find_founder`: the founder of the session, or else the first peer in it. -/
def findFounder (peers : List Peer) (sessionId : LinkId) : Option Peer :=
  match peers.find? fun p => decide (p.inUse ∧ p.sessionId = sessionId ∧ p.nodeId = sessionId) with
  | some p => some p
  | none => peers.find? fun p => decide (p.inUse ∧ p.sessionId = sessionId)

/-- `session_known_in_local_view`. -/
def sessionKnownInLocalView (peers : List Peer) (selfSession sessionId : LinkId) : Bool :=
  decide (sessionId = selfSession) ||
    peers.any fun p => decide (p.inUse ∧ p.measured ∧ p.sessionId = sessionId)

/-! ## `on_measure_done` -/

def llabs (x : Int64) : Int64 := if x < 0 then -x else x

/-- The `SESSION_EPS` rule of `on_measure_done`. -/
def switchToNew (diff : Int64) (activeTarget selfSession : LinkId) : Bool :=
  if linkSessionEpsUs < diff then true
  else if llabs diff < linkSessionEpsUs then
    decide (memcmp activeTarget.bytes selfSession.bytes < 0)
  else false

/-- Mark the peers of a session as measured. -/
def markMeasured (session : LinkId) (intercept : Int64) (p : Peer) : Peer :=
  if p.inUse ∧ p.sessionId = session then
    { p with
      measured := true
      ghostOffset := intercept }
  else p

/-- The peer of the session with the latest timeline; the first one among equals. -/
def bestPeer (peers : List Peer) (session : LinkId) : Option Peer :=
  peers.foldl (fun best p =>
    if p.inUse ∧ p.sessionId = session then
      match best with
      | none => some p
      | some b =>
          if b.timeline.timeOriginUsGhost < p.timeline.timeOriginUsGhost then some p else best
    else best) none

/-- The `if (switch_to_new)` block of `on_measure_done`. -/
def adoptSession (intercept : Int64) (w : World) : World :=
  let w := ghostTimeSetIntercept intercept { w with linkSelfSession := w.sActiveTargetSession }
  let w := match bestPeer w.linkPeers w.linkSelfSession with
    | none => w
    | some best => loadSelfTimeline { w with
        linkSelfTimeline := best.timeline
        linkSelfStartstop := best.startstop }
  linkBroadcastAliveNow (beatPulseSetSyncLed true w)

/-- The ghost-time difference `on_measure_done` decides by, on the next clock reading. -/
def ghostDiff (intercept : Int64) (w : World) : Int64 :=
  let curGhost := w.clock.now.toInt64 + ghostTimeGetIntercept w
  let newGhost := w.clock.now.toInt64 + intercept
  newGhost - curGhost

/-- `on_measure_done(success, intercept)`. -/
def onMeasureDone (success : Bool) (intercept : Int64) (w : World) : World :=
  if !success then w
  else
    let switch := switchToNew (ghostDiff intercept w) w.sActiveTargetSession w.linkSelfSession
    -- the peers of the session are marked whether or not we switch to it
    let w := { w.advance with
      linkPeers := w.linkPeers.map (markMeasured w.sActiveTargetSession intercept) }
    let w := if switch then adoptSession intercept w else w
    { w.advance with sLastRemeasureUs := w.clock.now }

/-- Carry out what a handler of `measurement.c` did, and the call of `S.completion`, which is
`on_measure_done`. -/
def applyMeas (r : MeasResult) (w : World) : World :=
  let w := { w with
    clock := r.clock
    meas := r.state
    sent := w.sent ++ r.sent }
  match r.call with
  | none => w
  | some (success, intercept) => onMeasureDone success intercept w

/-! ## Asking for measurements -/

/-- `measurement_start(target->mep4_addr, target->mep4_port, session_id, on_measure_done)`. -/
def startMeasurement (target : Peer) (sessionId : LinkId) (w : World) : World :=
  applyMeas (measurementStart w.clock w.meas target.mep4Addr target.mep4Port sessionId true) w

/-- `session_observe_peer` on the peer in slot `i`. -/
def sessionObservePeer (i : Nat) (w : World) : World :=
  match w.linkPeers[i]? with
  | none => w
  | some peer =>
      if peer.sessionId = w.linkSelfSession then w
      else if sessionKnownInLocalView w.linkPeers w.linkSelfSession peer.sessionId then w
      else
        match findFounder w.linkPeers peer.sessionId with
        | none => w
        | some target =>
            if target.mep4Addr = 0 then w
            else startMeasurement target peer.sessionId
              { w with sActiveTargetSession := peer.sessionId }

/-- The remeasurement block of `session_tick`, for a node in a foreign session. -/
def remeasure (w : World) : World :=
  if linkSessionRemeasureS * 1000000 < w.clock.now - w.sLastRemeasureUs then
    let started := match findFounder w.linkPeers w.linkSelfSession with
      | none => w.advance
      | some target => startMeasurement target w.linkSelfSession
          { w.advance with sActiveTargetSession := w.linkSelfSession }
    { started with sLastRemeasureUs := w.clock.now }
  else w.advance

/-- `session_tick`. -/
def sessionTick (w : World) : World :=
  let w := applyMeas (measurementTick w.clock w.meas) w
  if w.linkSelfSession = w.linkSelfId then w
  else
    let w := remeasure w
    beatPulseSetPeerLed (decide (0 < w.linkPeers.countP (·.inUse))) w

/-! ## The measurement a call asks for -/

/-- The session `session_observe_peer` asks to have measured, and the peer to ask. -/
def observeRequest (peers : List Peer) (selfSession : LinkId) (i : Nat) :
    Option (LinkId × Peer) :=
  match peers[i]? with
  | none => none
  | some peer =>
      if sessionKnownInLocalView peers selfSession peer.sessionId then none
      else
        match findFounder peers peer.sessionId with
        | none => none
        | some target => if target.mep4Addr = 0 then none else some (peer.sessionId, target)

/-- Whether the remeasurement of the node's own session is due at the next clock reading, and
the peer to ask. -/
def remeasureRequest (w : World) : Option (LinkId × Peer) :=
  if w.linkSelfSession = w.linkSelfId then none
  else if linkSessionRemeasureS * 1000000 < w.clock.now - w.sLastRemeasureUs then
    (findFounder w.linkPeers w.linkSelfSession).map (w.linkSelfSession, ·)
  else none

/-- Note the session about to be measured, then start the measurement. -/
def request (w : World) : Option (LinkId × Peer) → World
  | none => w
  | some (session, target) =>
      startMeasurement target session { w with sActiveTargetSession := session }

/-- `session_observe_peer` issues the request `observeRequest` names and does nothing else. -/
theorem session_observe_peer_eq (i : Nat) (w : World) :
    sessionObservePeer i w = request w (observeRequest w.linkPeers w.linkSelfSession i) := by
  unfold sessionObservePeer observeRequest
  cases w.linkPeers[i]? with
  | none => rfl
  | some peer =>
      by_cases hself : peer.sessionId = w.linkSelfSession
      · simp [hself, sessionKnownInLocalView, request]
      · by_cases hknown : sessionKnownInLocalView w.linkPeers w.linkSelfSession peer.sessionId
        · simp [hself, hknown, request]
        · simp only [hself, hknown, if_false, Bool.false_eq_true]
          cases findFounder w.linkPeers peer.sessionId with
          | none => rfl
          | some target =>
              by_cases haddr : target.mep4Addr = 0
              · simp [haddr, request]
              · simp [haddr, request]

/-! ## What starting a measurement leaves alone -/

/-- Starting a measurement touches the clock, `S` and the network, and nothing else. -/
theorem start_measurement_eq (target : Peer) (session : LinkId) (w : World) :
    startMeasurement target session w =
      { w with
        clock := (startMeasurement target session w).clock
        sent := (startMeasurement target session w).sent
        meas := (startMeasurement target session w).meas } := by
  unfold startMeasurement applyMeas
  rw [measurement_start_call]

theorem start_measurement_meas (target : Peer) (session : LinkId) (w : World) :
    (startMeasurement target session w).meas =
      (measurementStart w.clock w.meas target.mep4Addr target.mep4Port session true).state := by
  unfold startMeasurement applyMeas
  rw [measurement_start_call]

end LinkFPGA
