import LinkFPGA.Firmware.Clock
import LinkFPGA.Firmware.Median
import LinkFPGA.Firmware.Tlv

/-!
# Ping/pong measurement (`measurement.c`, `measurement_responder.c`)

The single-measurement-at-a-time state machine and the responder. Every handler returns a
`MeasResult`: the clock and the state it leaves, what it sends, and the call of `S.completion`
it makes, if any. The call is the last thing a handler does, so the caller applies it.

Signed arithmetic is that of the machine: it wraps where C leaves it undefined.
-/

namespace LinkFPGA

/-- `_link_v\x01`. -/
def kProtoLink : List UInt8 := [0x5F, 0x6C, 0x69, 0x6E, 0x6B, 0x5F, 0x76, 0x01]

def maxSamples : Nat := 200

/-- `state_t`. `samples` holds the first `n_samples` entries of the C array. -/
structure MeasState where
  active : Bool
  targetAddr : UInt32
  targetPort : UInt16
  targetSession : LinkId
  pingsSent : Nat
  nextSendUs : UInt64
  prevGhostTime : Int64
  prevHostTime : Int64
  samples : Array Int64
  /-- Whether `S.completion` is not `NULL`. -/
  completion : Bool
  deriving DecidableEq, Repr

/-- `S` after `memset(&S, 0, sizeof(S))`. -/
def MeasState.zero : MeasState where
  active := false
  targetAddr := 0
  targetPort := 0
  targetSession := .zero
  pingsSent := 0
  nextSendUs := 0
  prevGhostTime := 0
  prevHostTime := 0
  samples := #[]
  completion := false

/-- What a handler of `measurement.c` leaves behind. -/
structure MeasResult where
  clock : Clock
  state : MeasState
  sent : List Datagram
  /-- The arguments `S.completion(success, intercept)` is called with. -/
  call : Option (Bool × Int64)

/-- A handler that returns without doing anything. -/
def MeasResult.idle (c : Clock) (s : MeasState) : MeasResult := ⟨c, s, [], none⟩

/-- `S.active = 0; if (S.completion) S.completion(success, intercept);` -/
def finish (c : Clock) (s : MeasState) (success : Bool) (intercept : Int64) : MeasResult :=
  ⟨c, { s with active := false }, [], if s.completion then some (success, intercept) else none⟩

/-! ## The measurer -/

def encodePing (hostTime prevGhostTime : Int64) (hasPrev : Bool) : List UInt8 :=
  kProtoLink ++ [1] ++ tlvEmitU64be keyHt hostTime.toUInt64 ++
    if hasPrev then tlvEmitU64be keyPgt prevGhostTime.toUInt64 else []

/-- `send_ping`; it reads the clock twice. -/
def sendPing (c : Clock) (s : MeasState) : MeasResult :=
  let now := c.now.toInt64
  let buf := encodePing now s.prevGhostTime (decide (0 < s.pingsSent))
  let c := c.advance
  let s := { s with
    prevHostTime := now
    pingsSent := s.pingsSent + 1
    nextSendUs := c.now + linkPingIntervalMs * 1000 }
  ⟨c.advance, s, [.unicast s.targetAddr s.targetPort linkDiscoveryPort buf], none⟩

/-- `measurement_start`; a request while a measurement is active is ignored. -/
def measurementStart (c : Clock) (s : MeasState) (addr : UInt32) (port : UInt16)
    (sessionId : LinkId) (completion : Bool) : MeasResult :=
  if s.active then .idle c s
  else sendPing c { MeasState.zero with
    active := true
    targetAddr := addr
    targetPort := port
    targetSession := sessionId
    completion := completion }

/-- `measurement_tick`. -/
def measurementTick (c : Clock) (s : MeasState) : MeasResult :=
  if !s.active then .idle c s
  else
    let now := c.now
    let c := c.advance
    if s.nextSendUs ≤ now then
      if linkMaxPings ≤ s.pingsSent then finish c s false 0 else sendPing c s
    else .idle c s

/-- `pong_ctx_t`. -/
structure PongCtx where
  ht : Int64
  gt : Int64
  pgt : Int64
  haveHt : Bool
  haveGt : Bool
  havePgt : Bool
  sess : LinkId
  haveSess : Bool
  deriving DecidableEq, Repr

def PongCtx.zero : PongCtx := ⟨0, 0, 0, false, false, false, .zero, false⟩

def pongHandler : TlvCb PongCtx := fun key v ctx =>
  if key = keyHt then
    if v.length ≠ 8 then (ctx, -1) else ({ ctx with ht := (be64 v).toInt64, haveHt := true }, 0)
  else if key = keyGt then
    if v.length ≠ 8 then (ctx, -1) else ({ ctx with gt := (be64 v).toInt64, haveGt := true }, 0)
  else if key = keyPgt then
    if v.length ≠ 8 then (ctx, -1)
    else ({ ctx with pgt := (be64 v).toInt64, havePgt := true }, 0)
  else if key = keySess then
    if v.length ≠ 8 then (ctx, -1) else ({ ctx with sess := .ofBytes v, haveSess := true }, 0)
  else (ctx, 0)

/-- The two sample formulas of `measurement_handle_rx`, and the update of `prev_ghost_time`. -/
def recordSamples (nowHost : Int64) (ctx : PongCtx) (s : MeasState) : MeasState :=
  let s := if s.samples.size < maxSamples then
      { s with samples := s.samples.push (ctx.gt - (nowHost + ctx.ht) / 2) }
    else s
  let s := if ctx.havePgt ∧ s.prevHostTime ≠ 0 ∧ s.samples.size < maxSamples then
      { s with samples := s.samples.push ((ctx.gt + ctx.pgt) / 2 - ctx.ht) }
    else s
  { s with prevGhostTime := ctx.gt }

/-- The checks of `measurement_handle_rx` up to the parsed PONG. -/
def parsePong (s : MeasState) (buf : List UInt8) (srcAddr : UInt32) (srcPort : UInt16) :
    Option PongCtx :=
  if !s.active then none
  else if srcAddr ≠ s.targetAddr ∨ srcPort ≠ s.targetPort then none
  else if buf.length < 8 + 1 then none
  else if buf.take 8 ≠ kProtoLink then none
  else if byteAt buf 8 ≠ 2 then none
  else
    let r := tlvWalk pongHandler (buf.drop 9) .zero
    if r.2 ≠ 0 then none
    else if !r.1.haveHt || !r.1.haveGt || !r.1.haveSess then none
    else some r.1

/-- `measurement_handle_rx`. -/
def measurementHandleRx (c : Clock) (s : MeasState) (buf : List UInt8) (srcAddr : UInt32)
    (srcPort : UInt16) : MeasResult :=
  match parsePong s buf srcAddr srcPort with
  | none => .idle c s
  | some ctx =>
      if ctx.sess ≠ s.targetSession then finish c s false 0
      else
        let nowHost := c.now.toInt64
        let c := c.advance
        let s := recordSamples nowHost ctx s
        if linkSampleThreshold < s.samples.size then
          let r := medianI64 s.samples
          finish c { s with samples := r.1 } true r.2
        else sendPing c s

/-! ## The responder -/

/-- The checks of `measurement_responder_handle_rx`. -/
def isPing (buf : List UInt8) : Bool :=
  decide (8 + 1 ≤ buf.length ∧ buf.take 8 = kProtoLink ∧ byteAt buf 8 = 1)

/-- The PONG for a PING: session, ghost time and the PING's payload; `none` when the payload
does not fit into `out[LINK_MAX_MSG_LINK]`. -/
def encodePong (session : LinkId) (ghostTime : UInt64) (buf : List UInt8) :
    Option (List UInt8) :=
  let out := kProtoLink ++ [2] ++ tlvEmitBytes keySess session.bytes ++
    tlvEmitU64be keyGt ghostTime
  if linkMaxMsgLink - out.length < buf.length - 9 then none else some (out ++ buf.drop 9)

/-- `measurement_responder_handle_rx` on a node in `session` whose ghost time is host time plus
`intercept`, modulo `2 ^ 64`. -/
def measurementResponderHandleRx (session : LinkId) (intercept : Int64) (c : Clock)
    (buf : List UInt8) (srcAddr : UInt32) (srcPort : UInt16) : Clock × List Datagram :=
  if isPing buf then
    (c.advance, ((encodePong session (c.now + intercept.toUInt64) buf).map
      (.unicast srcAddr srcPort linkDiscoveryPort ·)).toList)
  else (c, [])

/-! ## What a call can do -/

/-- Pinging changes neither the target nor the samples, and completes nothing. -/
theorem send_ping_frame (c : Clock) (s : MeasState) :
    (sendPing c s).call = none ∧ (sendPing c s).state.active = s.active ∧
      (sendPing c s).state.targetSession = s.targetSession ∧
      (sendPing c s).state.samples = s.samples :=
  ⟨rfl, rfl, rfl, rfl⟩

/-- There is room for a sample. -/
def TakesFirst (s : MeasState) : Prop := s.samples.size < maxSamples

/-- There is room for two, and the PONG carries a previous ghost time. -/
def TakesSecond (ctx : PongCtx) (s : MeasState) : Prop :=
  ctx.havePgt ∧ s.prevHostTime ≠ 0 ∧ s.samples.size + 1 < maxSamples

instance decidableTakesFirst (s : MeasState) : Decidable (TakesFirst s) :=
  inferInstanceAs (Decidable (_ < _))

instance decidableTakesSecond (ctx : PongCtx) (s : MeasState) : Decidable (TakesSecond ctx s) :=
  inferInstanceAs (Decidable (_ ∧ _ ∧ _))

/-- The samples that a PONG adds. -/
def newSamples (nowHost : Int64) (ctx : PongCtx) (s : MeasState) : List Int64 :=
  (if TakesFirst s then [ctx.gt - (nowHost + ctx.ht) / 2] else []) ++
    if TakesSecond ctx s then [(ctx.gt + ctx.pgt) / 2 - ctx.ht] else []

/-- Taking samples appends them. -/
theorem record_samples_list (nowHost : Int64) (ctx : PongCtx) (s : MeasState) :
    (recordSamples nowHost ctx s).samples.toList =
      s.samples.toList ++ newSamples nowHost ctx s := by
  unfold recordSamples newSamples TakesFirst TakesSecond
  by_cases hroom : s.samples.size < maxSamples
  · by_cases hsecond : ctx.havePgt ∧ s.prevHostTime ≠ 0 ∧ s.samples.size + 1 < maxSamples
    · simp [hroom, hsecond]
    · simp [hroom, hsecond]
  · have hroom' : ¬ s.samples.size + 1 < maxSamples := by omega
    simp [hroom, hroom']

/-- They find room in the array. -/
theorem new_samples_room (nowHost : Int64) (ctx : PongCtx) {s : MeasState}
    (h : s.samples.size ≤ maxSamples) :
    s.samples.size + (newSamples nowHost ctx s).length ≤ maxSamples := by
  unfold newSamples
  rw [List.length_append]
  by_cases hfirst : TakesFirst s
  · by_cases hsecond : TakesSecond ctx s
    · rw [if_pos hfirst, if_pos hsecond]
      exact hsecond.2.2
    · rw [if_pos hfirst, if_neg hsecond]
      exact hfirst
  · have hsecond : ¬ TakesSecond ctx s := fun h => hfirst (Nat.lt_of_succ_lt h.2.2)
    rw [if_neg hfirst, if_neg hsecond]
    exact h

theorem new_samples_cases {nowHost : Int64} {ctx : PongCtx} {s : MeasState} {v : Int64}
    (h : v ∈ newSamples nowHost ctx s) :
    v = ctx.gt - (nowHost + ctx.ht) / 2 ∨
      ctx.havePgt = true ∧ v = (ctx.gt + ctx.pgt) / 2 - ctx.ht := by
  rcases List.mem_append.mp h with hfirst | hsecond
  · split at hfirst
    · exact .inl (List.mem_singleton.mp hfirst)
    · cases hfirst
  · split at hsecond
    · rename_i htakes
      exact .inr ⟨htakes.1, List.mem_singleton.mp hsecond⟩
    · cases hsecond

/-- Taking samples keeps the target and notes the ghost time. -/
theorem record_samples_target (nowHost : Int64) (ctx : PongCtx) (s : MeasState) :
    (recordSamples nowHost ctx s).targetAddr = s.targetAddr ∧
      (recordSamples nowHost ctx s).targetPort = s.targetPort ∧
      (recordSamples nowHost ctx s).targetSession = s.targetSession ∧
      (recordSamples nowHost ctx s).prevGhostTime = ctx.gt := by
  unfold recordSamples
  dsimp only
  refine ⟨?_, ?_, ?_, rfl⟩
  · split <;> split <;> rfl
  · split <;> split <;> rfl
  · split <;> split <;> rfl

theorem record_samples_frame (nowHost : Int64) (ctx : PongCtx) (s : MeasState) :
    (recordSamples nowHost ctx s).active = s.active ∧
      (recordSamples nowHost ctx s).targetSession = s.targetSession := by
  unfold recordSamples
  dsimp only
  constructor <;> split <;> split <;> rfl

theorem record_samples_completion (nowHost : Int64) (ctx : PongCtx) (s : MeasState) :
    (recordSamples nowHost ctx s).completion = s.completion := by
  unfold recordSamples
  dsimp only
  split <;> split <;> rfl

/-- A request while a measurement is active changes nothing. -/
theorem measurement_start_busy {c : Clock} {s : MeasState} {addr : UInt32} {port : UInt16}
    {sessionId : LinkId} {completion : Bool} (h : s.active = true) :
    measurementStart c s addr port sessionId completion = .idle c s := by
  simp [measurementStart, h]

/-- A request while no measurement is active makes its session the target. -/
theorem measurement_start_idle {c : Clock} {s : MeasState} {addr : UInt32} {port : UInt16}
    {sessionId : LinkId} {completion : Bool} (h : s.active = false) :
    (measurementStart c s addr port sessionId completion).state.active = true ∧
      (measurementStart c s addr port sessionId completion).state.targetSession = sessionId := by
  simp [measurementStart, h, sendPing]

theorem measurement_start_call (c : Clock) (s : MeasState) (addr : UInt32) (port : UInt16)
    (sessionId : LinkId) (completion : Bool) :
    (measurementStart c s addr port sessionId completion).call = none := by
  unfold measurementStart
  split <;> rfl

/-- A tick keeps the target, starts nothing, and can only report failure. -/
theorem measurement_tick_frame (c : Clock) (s : MeasState) :
    (measurementTick c s).state.targetSession = s.targetSession ∧
      ((measurementTick c s).state.active = true → s.active = true) ∧
      ∀ intercept, (measurementTick c s).call ≠ some (true, intercept) := by
  unfold measurementTick
  split
  · exact ⟨rfl, id, by simp [MeasResult.idle]⟩
  · dsimp only
    split
    · split
      · refine ⟨rfl, by simp [finish], ?_⟩
        intro intercept
        unfold finish
        split <;> simp
      · exact ⟨rfl, id, by simp [sendPing]⟩
    · exact ⟨rfl, id, by simp [MeasResult.idle]⟩

/-- A datagram that is no PONG of the measured peer is ignored. -/
theorem measurement_handle_rx_none {s : MeasState} {buf : List UInt8} {srcAddr : UInt32}
    {srcPort : UInt16} (h : parsePong s buf srcAddr srcPort = none) (c : Clock) :
    measurementHandleRx c s buf srcAddr srcPort = .idle c s := by
  rw [measurementHandleRx, h]

/-- A PONG of another session than the measured one ends the measurement without success. -/
theorem measurement_handle_rx_other {s : MeasState} {buf : List UInt8} {srcAddr : UInt32}
    {srcPort : UInt16} {ctx : PongCtx} (h : parsePong s buf srcAddr srcPort = some ctx)
    (hsess : ctx.sess ≠ s.targetSession) (c : Clock) :
    measurementHandleRx c s buf srcAddr srcPort = finish c s false 0 := by
  rw [measurementHandleRx, h]
  exact if_pos hsess

/-- A PONG of the measured session is recorded; the median is reported once there are enough
samples, and before that the next PING is sent. -/
theorem measurement_handle_rx_accepted {s : MeasState} {buf : List UInt8} {srcAddr : UInt32}
    {srcPort : UInt16} {ctx : PongCtx} (h : parsePong s buf srcAddr srcPort = some ctx)
    (hsess : ctx.sess = s.targetSession) (c : Clock) :
    measurementHandleRx c s buf srcAddr srcPort =
      let s := recordSamples c.now.toInt64 ctx s
      if linkSampleThreshold < s.samples.size then
        finish c.advance { s with samples := (medianI64 s.samples).1 } true
          (medianI64 s.samples).2
      else sendPing c.advance s := by
  rw [measurementHandleRx, h]
  exact if_neg (not_not.mpr hsess)

/-- A datagram keeps the target and starts nothing. -/
theorem measurement_handle_rx_frame (c : Clock) (s : MeasState) (buf : List UInt8)
    (srcAddr : UInt32) (srcPort : UInt16) :
    (measurementHandleRx c s buf srcAddr srcPort).state.targetSession = s.targetSession ∧
      ((measurementHandleRx c s buf srcAddr srcPort).state.active = true → s.active = true) := by
  cases hparse : parsePong s buf srcAddr srcPort with
  | none =>
      rw [measurement_handle_rx_none hparse]
      exact ⟨rfl, id⟩
  | some ctx =>
      by_cases hsess : ctx.sess = s.targetSession
      · have hframe := record_samples_frame c.now.toInt64 ctx s
        rw [measurement_handle_rx_accepted hparse hsess]
        dsimp only
        split
        · exact ⟨hframe.2, by simp [finish]⟩
        · refine ⟨(send_ping_frame _ _).2.2.1.trans hframe.2, fun h => ?_⟩
          rwa [(send_ping_frame _ _).2.1, hframe.1] at h
      · rw [measurement_handle_rx_other hparse hsess]
        exact ⟨rfl, by simp [finish]⟩

/-- Nothing is parsed while no measurement is active. -/
theorem parse_pong_active {s : MeasState} {buf : List UInt8} {srcAddr : UInt32}
    {srcPort : UInt16} {ctx : PongCtx} (h : parsePong s buf srcAddr srcPort = some ctx) :
    s.active = true := by
  unfold parsePong at h
  split at h
  · cases h
  · simp_all

/-- Only an active measurement reports. -/
theorem measurement_handle_rx_call {c : Clock} {s : MeasState} {buf : List UInt8}
    {srcAddr : UInt32} {srcPort : UInt16} {result : Bool × Int64}
    (h : (measurementHandleRx c s buf srcAddr srcPort).call = some result) :
    s.active = true := by
  cases hparse : parsePong s buf srcAddr srcPort with
  | none =>
      rw [measurement_handle_rx_none hparse] at h
      cases h
  | some ctx => exact parse_pong_active hparse

/-- A measurement that has reported is over. -/
theorem measurement_handle_rx_idle {c : Clock} {s : MeasState} {buf : List UInt8}
    {srcAddr : UInt32} {srcPort : UInt16} {result : Bool × Int64}
    (h : (measurementHandleRx c s buf srcAddr srcPort).call = some result) :
    (measurementHandleRx c s buf srcAddr srcPort).state.active = false := by
  cases hparse : parsePong s buf srcAddr srcPort with
  | none =>
      rw [measurement_handle_rx_none hparse] at h
      cases h
  | some ctx =>
      by_cases hsess : ctx.sess = s.targetSession
      · rw [measurement_handle_rx_accepted hparse hsess] at h ⊢
        dsimp only at h ⊢
        split
        · rfl
        · rename_i hfew
          -- the PING that is sent then reports nothing
          rw [if_neg hfew] at h
          cases h
      · rw [measurement_handle_rx_other hparse hsess]
        rfl

end LinkFPGA
