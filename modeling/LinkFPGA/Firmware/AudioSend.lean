import LinkFPGA.Firmware.LinkAudio

/-!
# Announcing, requesting and subscribing (`link_audio.c`)

`encode_peer_announcement` and `send_announcements`, the periodic `link_audio_tick`, and the
subscription API. The buffer of an announcement is modelled by the bytes appended to it, however
many they are: the C code does not check them against `LINK_MAX_MSG_AUDIO`.
-/

namespace LinkFPGA

def audioRequestTtlMs : UInt64 := 5000

/-! ## PeerAnnouncement -/

/-- The name and the id of one channel, as the second loop over `link_audio_local` writes them. -/
def encodeChannel (c : AudioLocal) : List UInt8 :=
  putBe32 (.ofNat c.name.length) ++ c.name ++ c.channelId.bytes

/-- The first loop over `link_audio_local`: `total` and `count`. -/
def aucaTotals (locals : List AudioLocal) : UInt32 × UInt32 :=
  locals.foldl (fun acc c =>
    if c.inUse then (acc.1 + (4 + .ofNat c.name.length + 8), acc.2 + 1) else acc) (4, 0)

/-- The second loop over `link_audio_local`. -/
def aucaChannels (locals : List AudioLocal) : List UInt8 :=
  locals.flatMap fun c => if c.inUse then encodeChannel c else []

/-- The bytes of `encode_peer_announcement` up to the ping, with `s_peer_name`. -/
def peerAnnouncementBody (peerName : List UInt8) (w : AudioWorld) : List UInt8 :=
  let nameLen := UInt32.ofNat peerName.length
  let totals := aucaTotals w.linkAudioLocal
  tlvEmitBytes keySess w.core.linkSelfSession.bytes ++
    (tlvEmitHeader keyPi (4 + nameLen) ++ putBe32 nameLen ++ peerName) ++
    (tlvEmitHeader keyAuca totals.1 ++ putBe32 totals.2 ++ aucaChannels w.linkAudioLocal)

/-- `encode_peer_announcement(buf, with_ping)`: the bytes written, and the state left. -/
def encodePeerAnnouncement (peerName : List UInt8) (withPing : Bool) (w : AudioWorld) :
    List UInt8 × AudioWorld :=
  let buf := encodeAudioHeader w.core.linkSelfId 1 linkDiscoveryTtlSec.toUInt8 ++
    peerAnnouncementBody peerName w
  if withPing then (buf ++ tlvEmitU64be keyHt w.core.clock.now, w.advance) else (buf, w)

/-- One iteration of the loop of `send_announcements`; the flag is `first`. -/
def announceTo (peerName : List UInt8) (s : Bool × AudioWorld) (peer : Peer) :
    Bool × AudioWorld :=
  if peer.inUse = false ∨ peer.aep4Addr = 0 then s
  else
    let r := encodePeerAnnouncement peerName s.1 s.2
    (false, r.2.send (.unicast peer.aep4Addr peer.aep4Port linkDiscoveryPort r.1))

/-- `send_announcements`. -/
def sendAnnouncements (peerName : List UInt8) (w : AudioWorld) : AudioWorld :=
  let w := (w.core.linkPeers.foldl (announceTo peerName) (true, w)).2
  { w.advance with sLastAnnounceUs := w.core.clock.now }

/-! ## ChannelRequest and StopChannelRequest -/

/-- The datagram of `send_channel_request`. -/
def encodeChannelRequest (selfId : LinkId) (mtype : UInt8) (cid : LinkId) : List UInt8 :=
  encodeAudioHeader selfId mtype (audioRequestTtlMs / 1000).toUInt8 ++
    tlvEmitBytes keyChid cid.bytes

/-- `send_channel_request`. -/
def sendChannelRequest (mtype : UInt8) (addr : UInt32) (port : UInt16) (cid : LinkId)
    (w : AudioWorld) : AudioWorld :=
  w.send (.unicast addr port linkDiscoveryPort (encodeChannelRequest w.core.linkSelfId mtype cid))

/-! ## The periodic tick -/

/-- One iteration of the loop of `link_audio_tick`. -/
def requestAgain (now : UInt64) (w : AudioWorld) (i : Nat) : AudioWorld :=
  match w.linkAudioSubs[i]? with
  | none => w
  | some sub =>
      if sub.inUse = true ∧ sub.nextRequestUs ≤ now then
        (sendChannelRequest 4 sub.sourceAddr sub.sourcePort sub.channelId w).setSub i
          { sub with nextRequestUs := now + audioRequestTtlMs * 1000 }
      else w

/-- `link_audio_tick`. -/
def linkAudioTick (peerName : List UInt8) (w : AudioWorld) : AudioWorld :=
  let now := w.core.clock.now
  let w := w.advance
  let w := if linkDiscoveryBcastMs * 1000 < now - w.sLastAnnounceUs then
      sendAnnouncements peerName w
    else w
  (List.range linkAudioMaxRemote).foldl (requestAgain now) w

/-! ## The subscription API -/

/-- `link_audio_subscribe`: the state left, and the return value. -/
def linkAudioSubscribe (myTdmPort myTdmChannel : Int) (cid : LinkId) (w : AudioWorld) :
    AudioWorld × Int :=
  match findRemote w cid with
  | none => (w, -1)
  | some i =>
      let r := w.linkAudioRemote.getD i .zero
      match w.linkAudioSubs.findIdx? (!·.inUse) with
      | none => (w, -2)
      -- the slot is free, but another may hold the channel already
      | some j => (w.setSub j { AudioSub.zero with
          inUse := true
          channelId := r.channelId
          sourcePeer := r.peerId
          sourceAddr := r.endpointAddr
          sourcePort := r.endpointPort
          tdmPort := myTdmPort
          tdmChannel := myTdmChannel
          nextRequestUs := 0 }, 0)

/-- `link_audio_unsubscribe`: the state left, and the return value. -/
def linkAudioUnsubscribe (cid : LinkId) (w : AudioWorld) : AudioWorld × Int :=
  match w.linkAudioSubs.findIdx? (fun sub => sub.inUse && sub.channelId = cid) with
  | none => (w, -1)
  | some i =>
      let sub := w.linkAudioSubs.getD i .zero
      ((sendChannelRequest 5 sub.sourceAddr sub.sourcePort sub.channelId w).setSub i
        { sub with inUse := false }, 0)

/-! ## Runs -/

/-- What can happen next to the audio state when the tick and the subscription API are called
too. -/
inductive AudioCall where
  | event (e : AudioEvent)
  | tick (peerName : List UInt8)
  | subscribe (myTdmPort myTdmChannel : Int) (cid : LinkId)
  | unsubscribe (cid : LinkId)

/-- One call. -/
def callAudio (w : AudioWorld) : AudioCall → AudioWorld
  | .event e => audioStep w e
  | .tick peerName => linkAudioTick peerName w
  | .subscribe myTdmPort myTdmChannel cid => (linkAudioSubscribe myTdmPort myTdmChannel cid w).1
  | .unsubscribe cid => (linkAudioUnsubscribe cid w).1

/-- A call, and what the host clock shows to it. -/
structure TimedCall where
  clock : Clock
  call : AudioCall

/-- The host time at which the call is made. -/
def TimedCall.time (e : TimedCall) : UInt64 := e.clock.now

/-- The state with another host clock. -/
def AudioWorld.at (w : AudioWorld) (clock : Clock) : AudioWorld :=
  { w with core := { w.core with clock := clock } }

/-- One call at its host time. -/
def callAt (w : AudioWorld) (e : TimedCall) : AudioWorld := callAudio (w.at e.clock) e.call

end LinkFPGA
