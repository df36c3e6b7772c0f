import Mathlib.Data.Rat.Defs
import LinkFPGA.Firmware.Session

/-!
# Discovery and the peer table (`link.c`)

Encoders, the entry handler, the peer table, `link_handle_rx`, `link_tick` and the local edits.
The payload walk reads pointer arithmetic as exact; `discovery_walk_exact` in `Proofs.ExactWalks`
says when the walk on 32-bit pointers is the same. The two local edits compute in `double`; they
are modelled with rational arithmetic and truncation toward zero, and with `x / 0 = 0`.
-/

namespace LinkFPGA

/-- `_asdp_v\x01`. -/
def kProtoHdr : List UInt8 := [0x5F, 0x61, 0x73, 0x64, 0x70, 0x5F, 0x76, 0x01]

/-- The number of TDM ports of the default build. -/
def linkNumTdmPorts : Nat := 2

/-! ## Encoders -/

/-- The protocol and message headers of a discovery datagram. -/
def discoveryHeader (mtype ttl : UInt8) (ident : LinkId) : List UInt8 :=
  kProtoHdr ++ [mtype, ttl, 0, 0] ++ ident.bytes

def encodeTmln (tl : Timeline) : List UInt8 :=
  putBe64 tl.tempoUsPerBeat.toUInt64 ++ putBe64 tl.beatOriginMicrobeats.toUInt64 ++
    putBe64 tl.timeOriginUsGhost.toUInt64

def encodeStst (ss : Startstop) : List UInt8 :=
  [if ss.isPlaying ≠ 0 then 1 else 0] ++ putBe64 ss.beatsMicrobeats.toUInt64 ++
    putBe64 ss.timestampUsGhost.toUInt64

/-- `encode_msg`. -/
def encodeMsg (w : World) (mtype : UInt8) (withState : Bool) : List UInt8 :=
  let header := discoveryHeader mtype linkDiscoveryTtlSec.toUInt8 w.linkSelfId
  if !withState then header
  else
    let v4 := putBe32 w.localIpv4 ++ putBe16 linkDiscoveryPort
    let v6 := w.localIpv6 ++ putBe16 linkDiscoveryPort
    header ++ tlvEmitHeader keyTmln 24 ++ encodeTmln w.linkSelfTimeline ++
      tlvEmitBytes keySess w.linkSelfSession.bytes ++
      tlvEmitHeader keyStst 17 ++ encodeStst w.linkSelfStartstop ++
      tlvEmitHeader keyMep4 6 ++ v4 ++ tlvEmitHeader keyMep6 18 ++ v6 ++
      if 0 < linkNumTdmPorts then
        tlvEmitHeader keyAep4 6 ++ v4 ++ tlvEmitHeader keyAep6 18 ++ v6
      else []

/-- `send_alive`. -/
def sendAlive (w : World) : World :=
  let buf := encodeMsg w 1 true
  let w := (w.send (.mcastV4 linkDiscoveryPort linkDiscoveryPort buf)).send
    (.mcastV6 linkDiscoveryPort linkDiscoveryPort buf)
  { w.advance with
    sLastBcastUs := w.clock.now
    sNextBcastUs := w.clock.now + linkDiscoveryBcastMs * 1000
    sStateDirty := false }

/-- `send_response`. -/
def sendResponse (toAddr : UInt32) (toPort : UInt16) (w : World) : World :=
  w.send (.unicast toAddr toPort linkDiscoveryPort (encodeMsg w 2 true))

/-! ## Decoder -/

/-- The `case KEY_TMLN` of `handle_entry`. -/
def decodeTmln (v : List UInt8) : Timeline :=
  ⟨(be64 v).toInt64, (be64 (v.drop 8)).toInt64, (be64 (v.drop 16)).toInt64⟩

/-- The `case KEY_STST` of `handle_entry`. -/
def decodeStst (v : List UInt8) : Startstop :=
  ⟨if byteAt v 0 ≠ 0 then 1 else 0, (be64 (v.drop 1)).toInt64, (be64 (v.drop 9)).toInt64⟩

/-- `handle_entry`: an entry with a known key must have that key's size. -/
def handleEntry : TlvCb Peer := fun key v p =>
  if key = keyTmln then
    if v.length ≠ 24 then (p, -1) else ({ p with timeline := decodeTmln v }, 0)
  else if key = keySess then
    if v.length ≠ 8 then (p, -1) else ({ p with sessionId := .ofBytes v }, 0)
  else if key = keyStst then
    if v.length ≠ 17 then (p, -1) else ({ p with startstop := decodeStst v }, 0)
  else if key = keyMep4 then
    if v.length ≠ 6 then (p, -1)
    else ({ p with
      mep4Addr := be32 v
      mep4Port := be16 (v.drop 4) }, 0)
  else if key = keyAep4 then
    if v.length ≠ 6 then (p, -1)
    else ({ p with
      aep4Addr := be32 v
      aep4Port := be16 (v.drop 4) }, 0)
  else if key = keyMep6 then
    if v.length ≠ 18 then (p, -1)
    else ({ p with
      mep6Addr := v.take 16
      mep6Port := be16 (v.drop 16)
      haveMep6 := true }, 0)
  else if key = keyAep6 then
    if v.length ≠ 18 then (p, -1)
    else ({ p with
      aep6Addr := v.take 16
      aep6Port := be16 (v.drop 16)
      haveAep6 := true }, 0)
  else (p, 0)

/-! ## The peer table -/

/-- The slot of a node: `memset`, then `in_use` and `node_id`. -/
def Peer.fresh (id : LinkId) : Peer := { Peer.zero with inUse := true, nodeId := id }

/-- The slot in use by a node. -/
def peerIndex (peers : List Peer) (id : LinkId) : Option Nat :=
  peers.findIdx? fun p => decide (p.inUse ∧ p.nodeId = id)

/-- `find_or_alloc_peer`: the table and the node's slot in it, or `none` when the table is
full. -/
def findOrAllocPeer (peers : List Peer) (id : LinkId) : Option (List Peer × Nat) :=
  match peerIndex peers id with
  | some i => some (peers, i)
  | none => (peers.findIdx? fun p => !p.inUse).map fun i => (peers.set i (.fresh id), i)

/-- `evict_peer`. -/
def evictPeer (peers : List Peer) (id : LinkId) : List Peer :=
  match peerIndex peers id with
  | some i => peers.set i .zero
  | none => peers

/-! ## `link_handle_rx` -/

/-- The type of a discovery datagram's message. -/
def messageType (buf : List UInt8) : UInt8 := byteAt buf 8

/-- The node id in a discovery datagram's header. -/
def messageIdent (buf : List UInt8) : LinkId := .ofBytes (buf.drop 12)

/-- The TLV payload of a discovery datagram. -/
def messageBody (buf : List UInt8) : List UInt8 := buf.drop 20

/-- The checks of `link_handle_rx` before the type is looked at: length, magic, group 0, and not
one of our own broadcasts. -/
def headerAccepted (selfId : LinkId) (buf : List UInt8) : Bool :=
  decide (8 + 12 ≤ buf.length ∧ buf.take 8 = kProtoHdr ∧ be16 (buf.drop 10) = 0 ∧
    messageIdent buf ≠ selfId)

/-- The peer record after the payload walk and the refresh of its expiry. -/
def updatePeer (now : UInt64) (buf : List UInt8) (p : Peer) : Peer :=
  { (tlvWalk handleEntry (messageBody buf) p).1 with
    expiresAtUs := now + linkDiscoveryTtlSec * 1000000 }

/-- The sender's slot and the table after an ALIVE or RESPONSE at host time `now`; `none` when
the table is full. -/
def observe (peers : List Peer) (now : UInt64) (buf : List UInt8) : Option (List Peer × Nat) :=
  (findOrAllocPeer peers (messageIdent buf)).map fun (peers, i) =>
    (peers.modify i (updatePeer now buf), i)

/-- `link_handle_rx`, with exact offsets in the walk. -/
def linkHandleRx (buf : List UInt8) (srcAddr : UInt32) (srcPort : UInt16) (w : World) : World :=
  if !headerAccepted w.linkSelfId buf then w
  else if messageType buf = 3 then
    { w with linkPeers := evictPeer w.linkPeers (messageIdent buf) }
  else if messageType buf ≠ 1 ∧ messageType buf ≠ 2 then w
  else
    match observe w.linkPeers w.clock.now buf with
    | none => w
    | some (peers, i) =>
        let w := sessionObservePeer i { w.advance with linkPeers := peers }
        if messageType buf = 1 then sendResponse srcAddr srcPort w else w

/-! ## `link_tick` -/

/-- The pruning loop's test. -/
def expired (now : UInt64) (p : Peer) : Bool :=
  p.inUse && decide (p.expiresAtUs + linkDiscoveryPruneGraceMs * 1000 < now)

/-- `link_tick`. -/
def linkTick (w : World) : World :=
  let now := w.clock.now
  let w := w.advance
  let w :=
    if w.sStateDirty || decide (w.sNextBcastUs ≤ now) then
      if linkDiscoveryMinMs * 1000 ≤ now - w.sLastBcastUs then sendAlive w
      -- too soon after the last one: put off, and `s_state_dirty` stays set
      else { w with sNextBcastUs := w.sLastBcastUs + linkDiscoveryMinMs * 1000 }
    else w
  { w with linkPeers := w.linkPeers.map fun p => if expired now p then .zero else p }

/-! ## Local edits -/

/-- `(int64_t)` of a `double`, read as a rational. -/
def truncToInt64 (q : Rat) : Int64 := .ofInt (q.num.tdiv q.den)

/-- `beat_origin + (int64_t)(((double)(now_g - time_origin) * 1e6) / (double)tempo)`. -/
def beatsAt (tl : Timeline) (nowG : Int64) : Int64 :=
  tl.beatOriginMicrobeats +
    truncToInt64 (((nowG - tl.timeOriginUsGhost).toInt : Rat) * 1000000 / tl.tempoUsPerBeat.toInt)

/-- The timeline `link_set_local_tempo` leaves: the new tempo, anchored at the current beat. -/
def retimed (bpm : Rat) (nowG : Int64) (tl : Timeline) : Timeline where
  tempoUsPerBeat := truncToInt64 (60000000 / bpm + 1 / 2)
  beatOriginMicrobeats := beatsAt tl nowG
  timeOriginUsGhost := nowG

/-- `link_set_local_tempo`. -/
def linkSetLocalTempo (bpm : Rat) (w : World) : World :=
  linkBroadcastAliveNow (loadSelfTimeline { w.advance with
    linkSelfTimeline := retimed bpm (ghostNow w).toInt64 w.linkSelfTimeline })

/-- `link_set_play`. -/
def linkSetPlay (play : Bool) (w : World) : World :=
  linkBroadcastAliveNow (loadSelfTimeline { w.advance with
    linkSelfStartstop := ⟨if play then 1 else 0, beatsAt w.linkSelfTimeline (ghostNow w).toInt64,
      (ghostNow w).toInt64⟩ })

/-! ## Initialisation -/

/-- Store the static seed of `prng_byte`. -/
def World.seed (s : UInt32) (w : World) : World := { w with prngSeed := s }

/-- `prng_byte`. -/
def prngByte (w : World) : UInt8 × World :=
  let seeded := if w.prngSeed = 0 then w.advance.seed (w.clock.now.toUInt32 ||| 1) else w
  let s := seeded.prngSeed * 1664525 + 1013904223
  ((s >>> 24).toUInt8, seeded.seed s)

/-- Bytes drawn from `prng_byte`, in order. -/
def prngBytes : Nat → World → List UInt8 × World
  | 0, w => ([], w)
  | n + 1, w =>
      let first := prngByte w
      let rest := prngBytes n first.2
      (first.1 :: rest.1, rest.2)

/-- The stores of `link_init`, for a drawn identity, the ghost time and the host time. -/
def World.reset (id : LinkId) (origin : Int64) (now : UInt64) (w : World) : World :=
  { w with
    linkSelfId := id
    linkSelfSession := id
    linkSelfTimeline := ⟨linkDefaultTempoUsPerBeat, 0, origin⟩
    linkSelfStartstop := ⟨0, 0, origin⟩
    linkPeers := List.replicate linkMaxPeers .zero
    sLastBcastUs := 0
    sNextBcastUs := now
    sStateDirty := true }

/-- `link_init`. -/
def linkInit (w : World) : World :=
  let drawn := prngBytes 8 w
  let origin := (ghostNow drawn.2).toInt64
  let w := drawn.2.advance
  loadSelfTimeline (w.advance.reset (.ofBytes drawn.1) origin w.clock.now)

end LinkFPGA
