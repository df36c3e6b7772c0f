import LinkFPGA.Firmware.Measurement
import LinkFPGA.Proofs.TlvCodec

/-!
# What a PONG tells the measurer

The responder echoes the payload of the PING behind its own session and ghost time.
`parse_pong_encode` says what the measurer reads off the PONG for one of its own PINGs: the time
stamp of the PING, the responder's ghost time, and the previous ghost time if the PING had one.
`walk32_pong` says that the pointers of the target read the same off it, and `ping_pong_fits`
that no reply outgrows the responder's buffer.
-/

namespace LinkFPGA

/-! ## Entries of a PONG -/

theorem pong_handler_sess (session : LinkId) (ctx : PongCtx) :
    pongHandler keySess session.bytes ctx =
      ({ ctx with sess := session, haveSess := true }, 0) := by
  have hother : keySess ≠ keyHt ∧ keySess ≠ keyGt ∧ keySess ≠ keyPgt := by decide
  have hlen : ¬ session.bytes.length ≠ 8 := not_not.mpr session.length_bytes
  rw [pongHandler, if_neg hother.1, if_neg hother.2.1, if_neg hother.2.2, if_pos rfl, if_neg hlen,
    LinkId.ofBytes_bytes]

theorem pong_handler_gt (v : UInt64) (ctx : PongCtx) :
    pongHandler keyGt (putBe64 v) ctx = ({ ctx with gt := v.toInt64, haveGt := true }, 0) := by
  have hother : keyGt ≠ keyHt := by decide
  rw [pongHandler, if_neg hother, if_pos rfl, if_neg (by simp), be64_put_be64]

theorem pong_handler_ht (v : UInt64) (ctx : PongCtx) :
    pongHandler keyHt (putBe64 v) ctx = ({ ctx with ht := v.toInt64, haveHt := true }, 0) := by
  rw [pongHandler, if_pos rfl, if_neg (by simp), be64_put_be64]

theorem pong_handler_pgt (v : UInt64) (ctx : PongCtx) :
    pongHandler keyPgt (putBe64 v) ctx = ({ ctx with pgt := v.toInt64, havePgt := true }, 0) := by
  have hother : keyPgt ≠ keyHt ∧ keyPgt ≠ keyGt := by decide
  rw [pongHandler, if_neg hother.1, if_neg hother.2, if_pos rfl, if_neg (by simp), be64_put_be64]

/-! ## Whole datagrams -/

/-- The payload of a PING: its time stamp, and the previous ghost time if it has one. -/
def pingPayload (hostTime prevGhostTime : Int64) (hasPrev : Bool) : List UInt8 :=
  tlvEmitU64be keyHt hostTime.toUInt64 ++
    if hasPrev then tlvEmitU64be keyPgt prevGhostTime.toUInt64 else []

theorem ping_drop (hostTime prevGhostTime : Int64) (hasPrev : Bool) :
    (encodePing hostTime prevGhostTime hasPrev).drop 9 =
      pingPayload hostTime prevGhostTime hasPrev := by
  rw [encodePing, List.append_assoc]
  rfl

theorem ping_payload_length (hostTime prevGhostTime : Int64) (hasPrev : Bool) :
    (pingPayload hostTime prevGhostTime hasPrev).length ≤ 32 := by
  unfold pingPayload
  cases hasPrev <;> simp

/-- The bytes of the PONG for a PING. -/
def pongFor (session : LinkId) (ghostTime : UInt64) (hostTime prevGhostTime : Int64)
    (hasPrev : Bool) : List UInt8 :=
  kProtoLink ++ [2] ++ tlvEmitBytes keySess session.bytes ++ tlvEmitU64be keyGt ghostTime ++
    pingPayload hostTime prevGhostTime hasPrev

/-- A PING of the measurer is short enough to be answered. -/
theorem encode_pong_ping (session : LinkId) (ghostTime : UInt64) (hostTime prevGhostTime : Int64)
    (hasPrev : Bool) :
    encodePong session ghostTime (encodePing hostTime prevGhostTime hasPrev) =
      some (pongFor session ghostTime hostTime prevGhostTime hasPrev) := by
  have hlen := ping_payload_length hostTime prevGhostTime hasPrev
  have hsize : (encodePing hostTime prevGhostTime hasPrev).length - 9 ≤ 32 := by
    rw [← List.length_drop, ping_drop]
    exact hlen
  have hheader : (kProtoLink ++ [2] ++ tlvEmitBytes keySess session.bytes ++
      tlvEmitU64be keyGt ghostTime).length = 41 := by
    simp [kProtoLink, session.length_bytes]
  unfold encodePong
  dsimp only
  rw [hheader, if_neg (by unfold linkMaxMsgLink; omega), ping_drop]
  rfl

/-- A PING is recognised as one. -/
theorem is_ping_encode (hostTime prevGhostTime : Int64) (hasPrev : Bool) :
    isPing (encodePing hostTime prevGhostTime hasPrev) = true := by
  unfold isPing encodePing
  refine decide_eq_true ⟨?_, ?_, ?_⟩
  · simp [kProtoLink]
  · rw [List.append_assoc, List.append_assoc]
    rfl
  · rw [List.append_assoc, List.append_assoc]
    rfl

/-- What the measurer reads off the PONG for a PING. -/
def pongContent (session : LinkId) (ghostTime : UInt64) (hostTime prevGhostTime : Int64)
    (hasPrev : Bool) : PongCtx where
  ht := hostTime
  gt := ghostTime.toInt64
  pgt := if hasPrev then prevGhostTime else 0
  haveHt := true
  haveGt := true
  havePgt := hasPrev
  sess := session
  haveSess := true

/-- The walk of a PONG's payload. -/
theorem walk_pong (session : LinkId) (ghostTime : UInt64) (hostTime prevGhostTime : Int64)
    (hasPrev : Bool) :
    tlvWalk pongHandler (tlvEmitBytes keySess session.bytes ++ (tlvEmitU64be keyGt ghostTime ++
      pingPayload hostTime prevGhostTime hasPrev)) .zero =
      (pongContent session ghostTime hostTime prevGhostTime hasPrev, 0) := by
  have hsession : session.bytes.length < 2 ^ 32 := by
    rw [session.length_bytes]
    omega
  have hword (v : UInt64) : (putBe64 v).length < 2 ^ 32 := by
    rw [put_be64_length]
    omega
  unfold pingPayload
  rw [tlv_walk_accepted hsession (pong_handler_sess _ _), tlv_emit_u64be_eq,
    tlv_walk_accepted (hword _) (pong_handler_gt _ _), tlv_emit_u64be_eq,
    tlv_walk_accepted (hword _) (pong_handler_ht _ _)]
  -- the echoed PING ends with `ht`, or with `pgt`
  cases hasPrev with
  | false => rfl
  | true =>
      rw [if_pos rfl, tlv_emit_u64be_eq, tlv_walk_last (hword _) (pong_handler_pgt _ _)]
      rfl

/-- The PONG for a PING is parsed to its content. -/
theorem parse_pong_encode {s : MeasState} (hactive : s.active = true) (session : LinkId)
    (ghostTime : UInt64) (hostTime prevGhostTime : Int64) (hasPrev : Bool) :
    parsePong s (pongFor session ghostTime hostTime prevGhostTime hasPrev) s.targetAddr
        s.targetPort =
      some (pongContent session ghostTime hostTime prevGhostTime hasPrev) := by
  have hbuf : pongFor session ghostTime hostTime prevGhostTime hasPrev =
      kProtoLink ++ ([2] ++ (tlvEmitBytes keySess session.bytes ++
        (tlvEmitU64be keyGt ghostTime ++ pingPayload hostTime prevGhostTime hasPrev))) := by
    unfold pongFor
    simp only [List.append_assoc]
  have htake : (pongFor session ghostTime hostTime prevGhostTime hasPrev).take 8 = kProtoLink := by
    rw [hbuf]
    rfl
  have htype : byteAt (pongFor session ghostTime hostTime prevGhostTime hasPrev) 8 = 2 := by
    rw [hbuf]
    rfl
  have hdrop : (pongFor session ghostTime hostTime prevGhostTime hasPrev).drop 9 =
      tlvEmitBytes keySess session.bytes ++ (tlvEmitU64be keyGt ghostTime ++
        pingPayload hostTime prevGhostTime hasPrev) := by
    rw [hbuf]
    rfl
  have hlen : ¬ (pongFor session ghostTime hostTime prevGhostTime hasPrev).length < 8 + 1 := by
    rw [hbuf]
    simp [kProtoLink]
  unfold parsePong
  rw [hactive, htake, htype, hdrop, walk_pong, if_neg (by simp), if_neg (by simp), if_neg hlen,
    if_neg (not_not.mpr rfl), if_neg (not_not.mpr rfl)]
  rfl

/-! ## The reply on the wire -/

/-- The entries of the PONG for a PING. -/
def pongEntries (session : LinkId) (ghostTime : UInt64) (hostTime prevGhostTime : Int64)
    (hasPrev : Bool) : List (UInt32 × List UInt8) :=
  [(keySess, session.bytes), (keyGt, putBe64 ghostTime), (keyHt, putBe64 hostTime.toUInt64)] ++
    if hasPrev then [(keyPgt, putBe64 prevGhostTime.toUInt64)] else []

theorem pong_payload_eq (session : LinkId) (ghostTime : UInt64) (hostTime prevGhostTime : Int64)
    (hasPrev : Bool) :
    (pongFor session ghostTime hostTime prevGhostTime hasPrev).drop 9 =
      encodeEntries (pongEntries session ghostTime hostTime prevGhostTime hasPrev) := by
  unfold pongFor pingPayload pongEntries
  cases hasPrev <;> simp [kProtoLink, tlv_emit_u64be_eq]

theorem pong_entry_size (session : LinkId) (ghostTime : UInt64) (hostTime prevGhostTime : Int64)
    (hasPrev : Bool) (entry : UInt32 × List UInt8)
    (hentry : entry ∈ pongEntries session ghostTime hostTime prevGhostTime hasPrev) :
    entry.2.length < 2 ^ 32 := by
  have hwords : ∀ entry ∈ pongEntries session ghostTime hostTime prevGhostTime hasPrev,
      entry.2.length = 8 := by
    unfold pongEntries
    cases hasPrev <;> simp [session.length_bytes]
  have hword := hwords entry hentry
  omega

/-- Wherever its payload lies in main RAM, the PONG is walked to its content on 32-bit pointers
too. -/
theorem walk32_pong {mem : UInt32 → UInt8} {buf : UInt32} (session : LinkId) (ghostTime : UInt64)
    (hostTime prevGhostTime : Int64) (hasPrev : Bool) {payload : List UInt8}
    (hpayload : payload = (pongFor session ghostTime hostTime prevGhostTime hasPrev).drop 9)
    (hram : MainRamBuffer buf payload.length) (hbytes : bytesAt mem buf payload.length = payload) :
    (tlvWalk32 mem (onBytes mem pongHandler) (buf + .ofNat payload.length) (payload.length / 8)
      buf .zero).result =
        some (pongContent session ghostTime hostTime prevGhostTime hasPrev, 0) := by
  have hwalk : tlvWalk pongHandler payload .zero =
      (pongContent session ghostTime hostTime prevGhostTime hasPrev, 0) := by
    have hdrop : (pongFor session ghostTime hostTime prevGhostTime hasPrev).drop 9 =
        tlvEmitBytes keySess session.bytes ++ (tlvEmitU64be keyGt ghostTime ++
          pingPayload hostTime prevGhostTime hasPrev) := by
      unfold pongFor
      simp only [List.append_assoc]
      rfl
    rw [hpayload, hdrop, walk_pong]
  rw [pong_payload_eq] at hpayload
  subst hpayload
  rw [walk32_encode pongHandler .zero hram (pong_entry_size _ _ _ _ _) hbytes, hwalk]

/-- Whatever a PING carries, the reply to it fits into `out`. -/
theorem encode_pong_length {session : LinkId} {ghostTime : UInt64} {buf reply : List UInt8}
    (h : encodePong session ghostTime buf = some reply) : reply.length ≤ 512 := by
  unfold encodePong at h
  dsimp only at h
  split at h
  · cases h
  · rename_i hfits
    have hheader : (kProtoLink ++ [2] ++ tlvEmitBytes keySess session.bytes ++
        tlvEmitU64be keyGt ghostTime).length = 41 := by
      simp [kProtoLink, session.length_bytes]
    rw [hheader] at hfits
    have hreply := congrArg List.length (Option.some.inj h)
    rw [List.length_append, hheader, List.length_drop] at hreply
    unfold linkMaxMsgLink at hfits
    omega

/-- The responder sends one reply of at most 512 bytes to the sender, or nothing. -/
theorem measurement_responder_sends (session : LinkId) (intercept : Int64) (c : Clock)
    (buf : List UInt8) (srcAddr : UInt32) (srcPort : UInt16) :
    (measurementResponderHandleRx session intercept c buf srcAddr srcPort).2 = [] ∨
    ∃ reply, (measurementResponderHandleRx session intercept c buf srcAddr srcPort).2 =
      [.unicast srcAddr srcPort linkDiscoveryPort reply] ∧ reply.length ≤ 512 := by
  unfold measurementResponderHandleRx
  split
  · cases hreply : encodePong session (c.now + intercept.toUInt64) buf with
    | none => exact .inl rfl
    | some reply => exact .inr ⟨reply, rfl, encode_pong_length hreply⟩
  · exact .inl rfl

/-- A PING of an active measurement is answered with a PONG of at most 512 bytes, which tells
the measurer the PING's host time, the responder's ghost time and session, and the previous
ghost time exactly if the PING had one. No PING is answered with more than 512 bytes. -/
theorem ping_pong_fits (s : MeasState) (hactive : s.active = true) (hostTime prevGhostTime : Int64)
    (hasPrev : Bool) (session : LinkId) (intercept : Int64) (c : Clock) (srcAddr : UInt32)
    (srcPort : UInt16) :
    (∃ reply ctx,
      (measurementResponderHandleRx session intercept c
        (encodePing hostTime prevGhostTime hasPrev) srcAddr srcPort).2 =
        [.unicast srcAddr srcPort linkDiscoveryPort reply] ∧
      reply.length ≤ 512 ∧
      parsePong s reply s.targetAddr s.targetPort = some ctx ∧
      (∀ (mem : UInt32 → UInt8) (buf : UInt32), MainRamBuffer buf (reply.drop 9).length →
        bytesAt mem buf (reply.drop 9).length = reply.drop 9 →
        (tlvWalk32 mem (onBytes mem pongHandler) (buf + .ofNat (reply.drop 9).length)
          ((reply.drop 9).length / 8) buf .zero).result = some (ctx, 0)) ∧
      (ctx.haveHt = true ∧ ctx.ht = hostTime) ∧
      (ctx.haveGt = true ∧ ctx.gt = (c.now + intercept.toUInt64).toInt64) ∧
      (ctx.haveSess = true ∧ ctx.sess = session) ∧
      (ctx.havePgt = true ↔ hasPrev = true) ∧
      (hasPrev = true → ctx.pgt = prevGhostTime)) ∧
    ∀ buf,
      (measurementResponderHandleRx session intercept c buf srcAddr srcPort).2 = [] ∨
      ∃ reply, (measurementResponderHandleRx session intercept c buf srcAddr srcPort).2 =
        [.unicast srcAddr srcPort linkDiscoveryPort reply] ∧ reply.length ≤ 512 := by
  set ghostTime := c.now + intercept.toUInt64 with hghost
  have hencode := encode_pong_ping session ghostTime hostTime prevGhostTime hasPrev
  have hsent : (measurementResponderHandleRx session intercept c
      (encodePing hostTime prevGhostTime hasPrev) srcAddr srcPort).2 =
      [.unicast srcAddr srcPort linkDiscoveryPort
        (pongFor session ghostTime hostTime prevGhostTime hasPrev)] := by
    unfold measurementResponderHandleRx
    rw [if_pos (is_ping_encode _ _ _), ← hghost, hencode]
    rfl
  refine ⟨⟨pongFor session ghostTime hostTime prevGhostTime hasPrev,
    pongContent session ghostTime hostTime prevGhostTime hasPrev, hsent,
    encode_pong_length hencode, parse_pong_encode hactive _ _ _ _ _, ?_, ⟨rfl, rfl⟩, ⟨rfl, rfl⟩,
    ⟨rfl, rfl⟩, Iff.rfl, ?_⟩, fun buf => measurement_responder_sends _ _ _ buf _ _⟩
  · intro mem buf hram hbytes
    exact walk32_pong session ghostTime hostTime prevGhostTime hasPrev rfl hram hbytes
  · rintro rfl
    rfl

/-- A measurement that waits for the answer to its first PING. -/
theorem ping_pong_fits_first :
    ∃ reply ctx,
      (measurementResponderHandleRx .zero 5 ⟨fun _ => 3, 0⟩ (encodePing 7 0 false) 1 2).2 =
        [.unicast 1 2 linkDiscoveryPort reply] ∧
      parsePong { MeasState.zero with active := true } reply 0 0 = some ctx ∧ ctx.ht = 7 := by
  obtain ⟨reply, ctx, hsent, _, hparse, _, hht, _⟩ :=
    (ping_pong_fits { MeasState.zero with active := true } rfl 7 0 false .zero 5
      ⟨fun _ => 3, 0⟩ 1 2).1
  exact ⟨reply, ctx, hsent, hparse, hht.2⟩

end LinkFPGA
