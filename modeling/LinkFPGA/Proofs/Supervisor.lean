import LinkFPGA.Firmware.Main

/-!
# What one event does to the supervisor

`View` is the part of the state that `session.c` reads and writes: the peer table, the
identifiers, the intercept registers and the measurement. Everything else the handlers do (send,
program the pulse generator, schedule ALIVEs) leaves the view alone, one `rfl` lemma each.

`requested` names the measurement an event asks for and `reports` the successful measurement it
completes. `step_cases` says everything one event can do to the view; the session theorems rest
on it and never unfold a handler.
-/

namespace LinkFPGA

/-- The state of the session supervisor. -/
structure View where
  linkPeers : List Peer
  linkSelfId : LinkId
  linkSelfSession : LinkId
  sActiveTargetSession : LinkId
  interLo : UInt32
  interHi : UInt32
  meas : MeasState

/-- The supervisor's part of the state. -/
def World.view (w : World) : View where
  linkPeers := w.linkPeers
  linkSelfId := w.linkSelfId
  linkSelfSession := w.linkSelfSession
  sActiveTargetSession := w.sActiveTargetSession
  interLo := w.interLo
  interHi := w.interHi
  meas := w.meas

/-! ## What leaves the view alone -/

@[simp] theorem advance_view (w : World) : w.advance.view = w.view := rfl

@[simp] theorem broadcast_alive_now_view (w : World) : (linkBroadcastAliveNow w).view = w.view :=
  rfl

@[simp] theorem set_sync_led_view (on : Bool) (w : World) :
    (beatPulseSetSyncLed on w).view = w.view := rfl

@[simp] theorem set_peer_led_view (on : Bool) (w : World) :
    (beatPulseSetPeerLed on w).view = w.view := rfl

@[simp] theorem send_alive_view (w : World) : (sendAlive w).view = w.view := rfl

@[simp] theorem send_response_view (addr : UInt32) (port : UInt16) (w : World) :
    (sendResponse addr port w).view = w.view := rfl

@[simp] theorem set_local_tempo_view (bpm : Rat) (w : World) :
    (linkSetLocalTempo bpm w).view = w.view := rfl

@[simp] theorem set_play_view (play : Bool) (w : World) : (linkSetPlay play w).view = w.view :=
  rfl

@[simp] theorem snap_beat_origin_view (w : World) : (snapBeatOrigin w).view = w.view := rfl

@[simp] theorem answer_ping_view (buf : List UInt8) (addr : UInt32) (port : UInt16) (w : World) :
    (answerPing buf addr port w).view = w.view := rfl

@[simp] theorem load_self_timeline_view (w : World) : (loadSelfTimeline w).view = w.view := rfl

@[simp] theorem seed_view (s : UInt32) (w : World) : (w.seed s).view = w.view := rfl

theorem reset_view (id : LinkId) (origin : Int64) (now : UInt64) (w : World) :
    (w.reset id origin now).view = { w.view with
      linkPeers := List.replicate linkMaxPeers .zero
      linkSelfId := id
      linkSelfSession := id } := rfl

theorem prng_byte_view (w : World) : (prngByte w).2.view = w.view := by
  rw [prngByte, seed_view]
  split
  · rw [seed_view, advance_view]
  · rfl

theorem prng_bytes_view (n : Nat) (w : World) : (prngBytes n w).2.view = w.view := by
  induction n generalizing w with
  | zero => rfl
  | succ n ih => rw [prngBytes, ih, prng_byte_view]

/-- `link_init` clears the peer table and founds a session of its own. -/
theorem link_init_view (w : World) :
    (linkInit w).view = { w.view with
      linkPeers := List.replicate linkMaxPeers .zero
      linkSelfId := .ofBytes (prngBytes 8 w).1
      linkSelfSession := .ofBytes (prngBytes 8 w).1 } := by
  rw [linkInit, load_self_timeline_view, reset_view, advance_view, advance_view, prng_bytes_view]

/-- A tick of `link.c` only prunes the peer table. -/
theorem link_tick_view (w : World) :
    (linkTick w).view = { w.view with
      linkPeers := w.linkPeers.map fun p => if expired w.clock.now p then .zero else p } := by
  unfold linkTick
  dsimp only
  split
  · split <;> rfl
  · rfl

/-! ## Requests -/

/-- The measurement an event asks for, as a function of the state before it. -/
def requested (w : World) : Event → Option (LinkId × Peer)
  | .udp buf _ _ =>
      if headerAccepted w.linkSelfId buf ∧ (messageType buf = 1 ∨ messageType buf = 2) then
        match observe w.linkPeers w.clock.now buf with
        | none => none
        | some (peers, i) => observeRequest peers w.linkSelfSession i
      else none
  | .sessionTick => remeasureRequest (applyMeas (measurementTick w.clock w.meas) w)
  | _ => none

/-- The measurement state an event's request meets. -/
def inFlight (w : World) : Event → MeasState
  | .sessionTick => (measurementTick w.clock w.meas).state
  | _ => w.meas

/-- The measurement a request leaves, whatever else the state holds. -/
theorem request_view (w : World) (r : Option (LinkId × Peer)) :
    (request w r).view = { w.view with
      sActiveTargetSession := (r.map Prod.fst).getD w.sActiveTargetSession
      meas := (request w r).meas } := by
  cases r with
  | none => rfl
  | some request =>
      rcases request with ⟨session, target⟩
      unfold request
      dsimp only
      rw [start_measurement_eq]
      rfl

/-- A request that finds a measurement in flight leaves it as it is; otherwise it starts one of
its own session. -/
theorem request_meas (w : World) (session : LinkId) (target : Peer) :
    if w.meas.active then (request w (some (session, target))).meas = w.meas
    else (request w (some (session, target))).meas.targetSession = session := by
  unfold request
  dsimp only
  rw [start_measurement_meas]
  split
  · rename_i h
    rw [measurement_start_busy h]
    rfl
  · rename_i h
    exact (measurement_start_idle (by simpa using h)).2

/-- `session_tick` remeasures exactly when a request is due. -/
theorem remeasure_view {w : World} (h : w.linkSelfSession ≠ w.linkSelfId) :
    (remeasure w).view = (request w.advance (remeasureRequest w)).view := by
  unfold remeasure remeasureRequest
  rw [if_neg h]
  by_cases hdue : linkSessionRemeasureS * 1000000 < w.clock.now - w.sLastRemeasureUs
  · rw [if_pos hdue, if_pos hdue]
    cases findFounder w.linkPeers w.linkSelfSession <;> rfl
  · rw [if_neg hdue, if_neg hdue]
    rfl

/-! ## Reports -/

/-- The successful measurement of `session`, if any, that a call of `S.completion` reports. -/
def successOf (session : LinkId) : Option (Bool × Int64) → List (LinkId × Int64)
  | some (true, intercept) => [(session, intercept)]
  | _ => []

theorem success_of_nil {session : LinkId} {call : Option (Bool × Int64)}
    (h : ∀ intercept, call ≠ some (true, intercept)) : successOf session call = [] := by
  unfold successOf
  split
  · exact absurd rfl (h _)
  · rfl

/-- The measurements that complete successfully during an event: the session measured and the
intercept handed to `on_measure_done`. There is at most one. -/
def reports (w : World) : Event → List (LinkId × Int64)
  | .udp buf srcAddr srcPort =>
      if buf.take 8 = kProtoLink then
        successOf w.meas.targetSession (measurementHandleRx w.clock w.meas buf srcAddr srcPort).call
      else []
  | _ => []

/-- The peer table after an event that completes no measurement. -/
def tableAfter (w : World) : Event → List Peer
  | .udp buf _ _ =>
      if headerAccepted w.linkSelfId buf then
        if messageType buf = 3 then evictPeer w.linkPeers (messageIdent buf)
        else if messageType buf = 1 ∨ messageType buf = 2 then
          match observe w.linkPeers w.clock.now buf with
          | none => w.linkPeers
          | some (peers, _) => peers
        else w.linkPeers
      else w.linkPeers
  | .linkTick => w.linkPeers.map fun p => if expired w.clock.now p then .zero else p
  | _ => w.linkPeers

/-- `w'` is `w` after an event that completes no measurement successfully. -/
structure Ordinary (w : World) (e : Event) (w' : World) : Prop where
  peers : w'.linkPeers = tableAfter w e
  selfId : w'.linkSelfId = w.linkSelfId
  selfSession : w'.linkSelfSession = w.linkSelfSession
  intercept : ghostTimeGetIntercept w' = ghostTimeGetIntercept w
  activeTarget : w'.sActiveTargetSession =
    ((requested w e).map Prod.fst).getD w.sActiveTargetSession
  /-- A measurement in progress was in flight before, or is the one asked for. -/
  inProgress : w'.meas.active = true →
    ((inFlight w e).active = true ∧ w'.meas.targetSession = (inFlight w e).targetSession) ∨
      ∃ target, requested w e = some (w'.meas.targetSession, target)

/-- The node of `w'` has taken over the session just measured in `w`, or kept its own, as the
`SESSION_EPS` rule says. -/
def Outcome (w : World) (intercept : Int64) (w' : World) : Prop :=
  if switchToNew (intercept - ghostTimeGetIntercept w) w.sActiveTargetSession
      w.linkSelfSession then
    w'.linkSelfSession = w.sActiveTargetSession ∧ ghostTimeGetIntercept w' = intercept
  else
    w'.linkSelfSession = w.linkSelfSession ∧
      ghostTimeGetIntercept w' = ghostTimeGetIntercept w

/-- `w'` is `w` after a measurement has reported `intercept`. -/
structure Completed (w : World) (intercept : Int64) (w' : World) : Prop where
  peers : w'.linkPeers = w.linkPeers.map (markMeasured w.sActiveTargetSession intercept)
  selfId : w'.linkSelfId = w.linkSelfId
  activeTarget : w'.sActiveTargetSession = w.sActiveTargetSession
  idle : w'.meas.active = false
  outcome : Outcome w intercept w'

/-- The node takes the session over with its intercept, or keeps both. -/
theorem Completed.session {w : World} {intercept : Int64} {w' : World}
    (h : Completed w intercept w') :
    (w'.linkSelfSession = w.sActiveTargetSession ∧ ghostTimeGetIntercept w' = intercept) ∨
      (w'.linkSelfSession = w.linkSelfSession ∧
        ghostTimeGetIntercept w' = ghostTimeGetIntercept w) := by
  have houtcome := h.outcome
  unfold Outcome at houtcome
  split at houtcome
  · exact .inl houtcome
  · exact .inr houtcome

/-! ## What one event can do -/

/-- A state that differs from `w` by a request, up to the table. -/
theorem Ordinary.of_request {w : World} {e : Event} {w' : World} (before : World)
    (hview : w'.view = (request before (requested w e)).view)
    (hpeers : before.linkPeers = tableAfter w e)
    (hbefore : before.view = { w.view with
      linkPeers := before.linkPeers
      meas := before.meas })
    (hactive : before.meas.active = true →
      (inFlight w e).active = true ∧ before.meas.targetSession = (inFlight w e).targetSession) :
    Ordinary w e w' := by
  have hrequest := request_view before (requested w e)
  have hall : w'.view = { w.view with
      linkPeers := tableAfter w e
      sActiveTargetSession := ((requested w e).map Prod.fst).getD w.sActiveTargetSession
      meas := (request before (requested w e)).meas } := by
    have htarget : before.sActiveTargetSession = w.sActiveTargetSession :=
      congrArg View.sActiveTargetSession hbefore
    rw [hview, hrequest, hbefore, hpeers, htarget]
  refine ⟨congrArg View.linkPeers hall, congrArg View.linkSelfId hall,
    congrArg View.linkSelfSession hall, ?_, congrArg View.sActiveTargetSession hall, ?_⟩
  · have hlo : w'.interLo = w.interLo := congrArg View.interLo hall
    have hhi : w'.interHi = w.interHi := congrArg View.interHi hall
    rw [ghostTimeGetIntercept, ghostTimeGetIntercept, hlo, hhi]
  · have hmeas : w'.meas = (request before (requested w e)).meas := congrArg View.meas hall
    rw [hmeas]
    intro h
    cases hreq : requested w e with
    | none =>
        rw [hreq] at h
        exact .inl (hactive h)
    | some r =>
        rcases r with ⟨session, target⟩
        rw [hreq] at h
        have hstart := request_meas before session target
        split at hstart
        · rename_i hbusy
          rw [hstart]
          exact .inl (hactive hbusy)
        · exact .inr ⟨target, by rw [hstart]⟩

/-- A handler of `measurement.c` that does not report success changes only the measurement. -/
theorem apply_meas_view {r : MeasResult} {w : World}
    (h : ∀ intercept, r.call ≠ some (true, intercept)) :
    (applyMeas r w).view = { w.view with meas := r.state } := by
  unfold applyMeas
  dsimp only
  cases hcall : r.call with
  | none => rfl
  | some call =>
      rcases call with ⟨success, intercept⟩
      cases success with
      | false => rfl
      | true => exact absurd hcall (h intercept)

/-- The clock reading cancels out of the ghost-time difference. -/
theorem ghost_diff_eq (intercept : Int64) (w : World) :
    ghostDiff intercept w = intercept - ghostTimeGetIntercept w := by
  unfold ghostDiff
  dsimp only
  rw [Int64.sub_eq_add_neg, Int64.neg_add, Int64.sub_eq_add_neg, Int64.add_comm _ intercept,
    Int64.add_assoc, ← Int64.add_assoc w.clock.now.toInt64, Int64.add_right_neg, Int64.zero_add,
    ← Int64.sub_eq_add_neg]

/-- `on_measure_done(1, intercept)` adopts the session exactly when the `SESSION_EPS` rule says
so. -/
theorem on_measure_done_outcome (intercept : Int64) (w : World) :
    Outcome w intercept (onMeasureDone true intercept w) := by
  unfold Outcome onMeasureDone
  simp only [Bool.not_true, Bool.false_eq_true, if_false, ghost_diff_eq]
  split
  · unfold adoptSession
    dsimp only
    split
    · exact ⟨rfl, words_of_int64 intercept⟩
    · exact ⟨rfl, words_of_int64 intercept⟩
  · exact ⟨rfl, rfl⟩

/-- Whether it adopts the session or not, `on_measure_done(1, intercept)` marks the session's
peers, and keeps the identifier, the target and the measurement. -/
theorem on_measure_done_frame (intercept : Int64) (w : World) :
    (onMeasureDone true intercept w).linkPeers =
        w.linkPeers.map (markMeasured w.sActiveTargetSession intercept) ∧
      (onMeasureDone true intercept w).linkSelfId = w.linkSelfId ∧
      (onMeasureDone true intercept w).sActiveTargetSession = w.sActiveTargetSession ∧
      (onMeasureDone true intercept w).meas = w.meas := by
  unfold onMeasureDone
  simp only [Bool.not_true, Bool.false_eq_true, if_false]
  split
  · unfold adoptSession
    dsimp only
    split
    · exact ⟨rfl, rfl, rfl, rfl⟩
    · exact ⟨rfl, rfl, rfl, rfl⟩
  · exact ⟨rfl, rfl, rfl, rfl⟩

theorem on_measure_done_completed (intercept : Int64) {w : World} (h : w.meas.active = false) :
    Completed w intercept (onMeasureDone true intercept w) := by
  obtain ⟨hpeers, hid, htarget, hmeas⟩ := on_measure_done_frame intercept w
  exact ⟨hpeers, hid, htarget, (congrArg MeasState.active hmeas).trans h,
    on_measure_done_outcome intercept w⟩

/-- An event that changes nothing in the view but the peer table, and asks for nothing. -/
theorem Ordinary.of_table {w : World} {e : Event} {w' : World}
    (hview : w'.view = { w.view with linkPeers := tableAfter w e })
    (hrequest : requested w e = none) (hflight : inFlight w e = w.meas) : Ordinary w e w' := by
  refine .of_request { w with linkPeers := tableAfter w e } ?_ rfl rfl ?_
  · rw [hrequest]
    exact hview
  · intro h
    exact ⟨hflight ▸ h, hflight ▸ rfl⟩

/-- A discovery datagram updates the table and makes at most one request. -/
theorem link_handle_rx_ordinary (buf : List UInt8) (srcAddr : UInt32) (srcPort : UInt16)
    (w : World) : Ordinary w (.udp buf srcAddr srcPort) (linkHandleRx buf srcAddr srcPort w) := by
  unfold linkHandleRx
  by_cases hheader : headerAccepted w.linkSelfId buf
  · simp only [hheader, Bool.not_true, Bool.false_eq_true, if_false]
    by_cases hbye : messageType buf = 3
    · rw [if_pos hbye]
      refine .of_table ?_ (by simp [requested, hbye]) rfl
      simp [tableAfter, hheader, hbye, World.view]
    · rw [if_neg hbye]
      by_cases hother : messageType buf ≠ 1 ∧ messageType buf ≠ 2
      · rw [if_pos hother]
        refine .of_table ?_ (by simp [requested, hother]) rfl
        simp [tableAfter, hbye, hother, World.view]
      · rw [if_neg hother]
        have hstate : messageType buf = 1 ∨ messageType buf = 2 := by
          by_cases h : messageType buf = 1
          · exact .inl h
          · exact .inr (by_contra fun h' => hother ⟨h, h'⟩)
        cases hobs : observe w.linkPeers w.clock.now buf with
        | none =>
            refine .of_table ?_ (by simp [requested, hheader, hstate, hobs]) rfl
            simp [tableAfter, hheader, hbye, hstate, hobs, World.view]
        | some r =>
            rcases r with ⟨peers, i⟩
            have hreq : requested w (.udp buf srcAddr srcPort) =
                observeRequest peers w.linkSelfSession i := by
              simp [requested, hheader, hstate, hobs]
            refine .of_request { w.advance with linkPeers := peers } ?_ ?_ rfl ?_
            · rw [hreq]
              dsimp only
              rw [session_observe_peer_eq]
              split <;> rfl
            · simp [tableAfter, hheader, hbye, hstate, hobs]
            · exact fun h => ⟨h, rfl⟩
  · refine .of_table ?_ (by simp [requested, hheader]) rfl
    simp [tableAfter, hheader, World.view]

/-- `session_tick` makes at most one request. -/
theorem session_tick_ordinary (w : World) : Ordinary w .sessionTick (sessionTick w) := by
  have hframe := measurement_tick_frame w.clock w.meas
  have hticked := apply_meas_view (w := w) hframe.2.2
  unfold sessionTick
  dsimp only
  set ticked := applyMeas (measurementTick w.clock w.meas) w with hdef
  have hmeas : ticked.meas = (measurementTick w.clock w.meas).state :=
    congrArg View.meas hticked
  have hpeers : ticked.linkPeers = w.linkPeers := congrArg View.linkPeers hticked
  have hbefore : ticked.advance.view = { w.view with
      linkPeers := ticked.advance.linkPeers
      meas := ticked.advance.meas } := by
    change ticked.view = { w.view with
      linkPeers := ticked.linkPeers
      meas := ticked.meas }
    rw [hticked, hpeers, hmeas]
    rfl
  refine .of_request ticked.advance ?_ hpeers hbefore ?_
  · change _ = (request ticked.advance (remeasureRequest ticked)).view
    by_cases hself : ticked.linkSelfSession = ticked.linkSelfId
    · rw [if_pos hself, remeasureRequest, if_pos hself]
      rfl
    · rw [if_neg hself, set_peer_led_view, remeasure_view hself]
  · intro h
    change ticked.meas.active = true at h
    rw [hmeas] at h
    exact ⟨h, congrArg MeasState.targetSession hmeas⟩

/-- The two magics differ. -/
theorem proto_link_ne_hdr : kProtoLink ≠ kProtoHdr := by decide

/-- A measurement datagram goes to the measurer, then to the responder. -/
theorem step_pong {buf : List UInt8} (hmagic : buf.take 8 = kProtoLink) (srcAddr : UInt32)
    (srcPort : UInt16) (w : World) :
    step w (.udp buf srcAddr srcPort) = answerPing buf srcAddr srcPort
      (applyMeas (measurementHandleRx w.clock w.meas buf srcAddr srcPort) w) := by
  have hlen : ¬ buf.length < 8 := by
    intro hshort
    have htake := congrArg List.length hmagic
    rw [List.length_take, show kProtoLink.length = 8 from rfl] at htake
    omega
  have hhdr : ¬ buf.take 8 = kProtoHdr := hmagic ▸ proto_link_ne_hdr
  show onUdpRx buf srcAddr srcPort w = _
  rw [onUdpRx, if_neg hlen, if_neg hhdr, if_pos hmagic]

/-- A measurement datagram either completes the measurement or leaves the table alone. -/
theorem pong_cases {buf : List UInt8} {srcAddr : UInt32} {srcPort : UInt16} {w : World}
    (hmagic : buf.take 8 = kProtoLink) :
    (reports w (.udp buf srcAddr srcPort) = [] ∧
        Ordinary w (.udp buf srcAddr srcPort) (step w (.udp buf srcAddr srcPort))) ∨
      ∃ intercept, reports w (.udp buf srcAddr srcPort) = [(w.meas.targetSession, intercept)] ∧
        Completed w intercept (step w (.udp buf srcAddr srcPort)) := by
  have hheader : headerAccepted w.linkSelfId buf = false := by
    simp [headerAccepted, hmagic, proto_link_ne_hdr]
  have hframe := measurement_handle_rx_frame w.clock w.meas buf srcAddr srcPort
  rw [step_pong hmagic]
  by_cases hcall : ∃ intercept,
      (measurementHandleRx w.clock w.meas buf srcAddr srcPort).call = some (true, intercept)
  · obtain ⟨intercept, hcall⟩ := hcall
    refine .inr ⟨intercept, by simp [reports, hmagic, hcall, successOf], ?_⟩
    have hidle := measurement_handle_rx_idle hcall
    unfold applyMeas
    rw [hcall]
    have hdone := on_measure_done_completed intercept
      (w := { w with
        clock := (measurementHandleRx w.clock w.meas buf srcAddr srcPort).clock
        meas := (measurementHandleRx w.clock w.meas buf srcAddr srcPort).state
        sent := w.sent ++ (measurementHandleRx w.clock w.meas buf srcAddr srcPort).sent }) hidle
    exact ⟨hdone.peers, hdone.selfId, hdone.activeTarget, hdone.idle, hdone.outcome⟩
  · have hquiet : ∀ intercept,
        (measurementHandleRx w.clock w.meas buf srcAddr srcPort).call ≠ some (true, intercept) :=
      fun intercept h => hcall ⟨intercept, h⟩
    have hview := apply_meas_view (w := w) hquiet
    refine .inl ⟨?_, ?_⟩
    · simp only [reports, hmagic, if_true, success_of_nil hquiet]
    · have hreq : requested w (.udp buf srcAddr srcPort) = none := by simp [requested, hheader]
      refine .of_request { w with
        meas := (measurementHandleRx w.clock w.meas buf srcAddr srcPort).state } ?_ ?_ rfl ?_
      · rw [hreq, answer_ping_view, hview]
        rfl
      · simp [tableAfter, hheader]
      · exact fun h => ⟨hframe.2 h, hframe.1⟩

/-- Everything one event can do to the supervisor: it completes no measurement and makes at most
one request, or it completes the measurement in flight. -/
theorem step_cases (w : World) (e : Event) :
    (reports w e = [] ∧ Ordinary w e (step w e)) ∨
      ∃ intercept, reports w e = [(w.meas.targetSession, intercept)] ∧
        Completed w intercept (step w e) := by
  cases e with
  | udp buf srcAddr srcPort =>
      by_cases hlink : buf.take 8 = kProtoLink
      · exact pong_cases hlink
      · refine .inl ⟨by simp [reports, hlink], ?_⟩
        change Ordinary w _ (onUdpRx buf srcAddr srcPort w)
        unfold onUdpRx
        by_cases hhdr : buf.length < 8 ∨ buf.take 8 ≠ kProtoHdr
        · have hheader : headerAccepted w.linkSelfId buf = false := by
            rcases hhdr with h | h
            · have : ¬ 20 ≤ buf.length := by omega
              simp [headerAccepted, this]
            · simp [headerAccepted, h]
          have hsame : (if buf.length < 8 then w
              else if buf.take 8 = kProtoHdr then linkHandleRx buf srcAddr srcPort w
              else if buf.take 8 = kProtoLink then answerPing buf srcAddr srcPort
                (applyMeas (measurementHandleRx w.clock w.meas buf srcAddr srcPort) w)
              else w) = w := by
            rcases hhdr with h | h
            · rw [if_pos h]
            · simp [h, hlink]
          rw [hsame]
          refine .of_table ?_ (by simp [requested, hheader]) rfl
          simp [tableAfter, hheader, World.view]
        · rw [not_or, not_not] at hhdr
          rw [if_neg hhdr.1, if_pos hhdr.2]
          exact link_handle_rx_ordinary buf srcAddr srcPort w
  | linkTick => exact .inl ⟨rfl, .of_table (link_tick_view w) rfl rfl⟩
  | sessionTick => exact .inl ⟨rfl, session_tick_ordinary w⟩
  | setLocalTempo | setPlay | euroReset | broadcastAliveNow | localAddress =>
      exact .inl ⟨rfl, .of_table rfl rfl rfl⟩

/-- A node never changes its identifier. -/
theorem step_self_id (w : World) (e : Event) : (step w e).linkSelfId = w.linkSelfId := by
  rcases step_cases w e with ⟨_, hstep⟩ | ⟨_, _, hdone⟩
  · exact hstep.selfId
  · exact hdone.selfId

/-- A discovery datagram completes no measurement. -/
theorem reports_discovery {w : World} {buf : List UInt8} {srcAddr : UInt32} {srcPort : UInt16}
    (hheader : headerAccepted w.linkSelfId buf = true) :
    reports w (.udp buf srcAddr srcPort) = [] := by
  have hmagic : buf.take 8 ≠ kProtoLink := by
    rw [(of_decide_eq_true hheader).2.1]
    exact proto_link_ne_hdr.symm
  rw [reports, if_neg hmagic]

theorem step_discovery {w : World} {buf : List UInt8} {srcAddr : UInt32} {srcPort : UInt16}
    (hheader : headerAccepted w.linkSelfId buf = true) :
    Ordinary w (.udp buf srcAddr srcPort) (step w (.udp buf srcAddr srcPort)) := by
  rcases step_cases w (.udp buf srcAddr srcPort) with ⟨_, hstep⟩ | ⟨_, hreports, _⟩
  · exact hstep
  · rw [reports_discovery hheader] at hreports
    cases hreports

end LinkFPGA
