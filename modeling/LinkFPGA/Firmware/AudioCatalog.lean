import LinkFPGA.Firmware.AudioBuffer

/-!
# Announcements, byes and requests (`link_audio.c`)

The handlers of the TLV messages of Link-Audio: `ann_handler` fills the catalog of remote
channels, `handle_aucb_entry` takes channels out of it, and `handle_channel_request` keeps the
subscribers of the local channels. Inside an entry the two parsers walk the value with 32-bit
pointers and sizes; `rd` is the value by offset, and what stands behind the value is taken for
zeros. The walk of the body reads pointer arithmetic as exact. `announcement_walk_exact` and
`byes_walk_exact` in `Proofs.ExactWalks` say that neither plays a part as long as no size wraps.
-/

namespace LinkFPGA

/-! ## PeerAnnouncement -/

/-- The fields of `ann_ctx_t` that are read again. -/
structure AnnCtx where
  pingHt : Int64
  havePing : Bool
  deriving DecidableEq, Repr

/-- A `char` array filled with these bytes, as the string it holds. -/
def cString (bytes : List UInt8) : List UInt8 := bytes.takeWhile (· ≠ 0)

/-- The catalog entry of a channel, by index. -/
def findRemote (w : AudioWorld) (cid : LinkId) : Option Nat :=
  w.linkAudioRemote.findIdx? fun r => r.inUse && r.channelId = cid

/-- What `ann_handler` does with one announced channel: refresh its catalog entry, or take a free
one. -/
def recordChannel (peerId : LinkId) (peerAddr : UInt32) (peerPort : UInt16) (cid : LinkId)
    (name : List UInt8) (w : AudioWorld) : AudioWorld :=
  let write (i : Nat) (r : AudioRemote) : AudioWorld :=
    { w.advance with
      linkAudioRemote := w.linkAudioRemote.set i { r with
        name := name
        endpointAddr := peerAddr
        endpointPort := peerPort
        lastSeenUs := w.core.clock.now } }
  match findRemote w cid with
  | some i => write i (w.linkAudioRemote.getD i .zero)
  | none =>
      match w.linkAudioRemote.findIdx? (!·.inUse) with
      | none => w
      | some i => write i { w.linkAudioRemote.getD i .zero with
          inUse := true
          peerId := peerId
          channelId := cid }

/-- The loop of `case KEY_AUCA`, for the given number of channels: `v` is the pointer and `n` the
remainder. -/
def aucaLoop (rd : UInt32 → UInt8) (peerId : LinkId) (peerAddr : UInt32) (peerPort : UInt16) :
    Nat → UInt32 → UInt32 → AudioWorld → AudioWorld × Int
  | 0, _, _, w => (w, 0)
  | count + 1, v, n, w =>
      if n < 4 then (w, -1)
      else
        let nameLen := be32 (bytesAt rd v 4)
        let v := v + 4
        let n := n - 4
        if n < nameLen + 8 then (w, -1)
        else
          let cp := if nameLen.toNat < linkAudioNameMax then nameLen.toNat
            else linkAudioNameMax - 1
          let name := cString (bytesAt rd v cp)
          let v := v + nameLen
          let n := n - nameLen
          let cid := LinkId.ofBytes (bytesAt rd v 8)
          aucaLoop rd peerId peerAddr peerPort count (v + 8) (n - 8)
            (recordChannel peerId peerAddr peerPort cid name w)

/-- `ann_handler`, with zeros behind the value. -/
def annHandler (peerId : LinkId) (peerAddr : UInt32) (peerPort : UInt16) :
    TlvCb (AnnCtx × AudioWorld) := fun key v s =>
  let n := UInt32.ofNat v.length
  if key = keyHt then
    if n ≠ 8 then (s, -1)
    else (({ pingHt := (be64 v).toInt64, havePing := true }, s.2), 0)
  else if key = keyPi then
    -- the name itself is not used any further
    if n < 4 then (s, -1) else if n < 4 + be32 v then (s, -1) else (s, 0)
  else if key = keySess then
    if n ≠ 8 then (s, -1) else (s, 0)
  else if key = keyAuca then
    if n < 4 then (s, -1)
    else
      let r := aucaLoop (memOf v) peerId peerAddr peerPort (be32 v).toNat 4 (n - 4) s.2
      ((s.1, r.1), r.2)
  else (s, 0)

/-- `send_pong`. -/
def sendPong (addr : UInt32) (port : UInt16) (echoedHt : Int64) (w : AudioWorld) : AudioWorld :=
  w.send (.unicast addr port linkDiscoveryPort
    (encodeAudioHeader w.core.linkSelfId 3 linkDiscoveryTtlSec.toUInt8 ++
      tlvEmitU64be keyHt echoedHt.toUInt64))

/-- The `case 1` of `link_audio_handle_rx`. -/
def handlePeerAnnouncement (senderId : LinkId) (srcAddr : UInt32) (srcPort : UInt16)
    (body : List UInt8) (w : AudioWorld) : AudioWorld :=
  let s := (tlvWalk (annHandler senderId srcAddr srcPort) body (⟨0, false⟩, w)).1
  if s.1.havePing then sendPong srcAddr srcPort s.1.pingHt s.2 else s.2

/-! ## ChannelByes -/

/-- The inner loop of `handle_aucb_entry`: the catalog entries and the subscriptions of a channel
go. -/
def dropChannel (cid : LinkId) (w : AudioWorld) : AudioWorld :=
  { w with
    linkAudioRemote := w.linkAudioRemote.map fun r =>
      if r.inUse ∧ r.channelId = cid then { r with inUse := false } else r
    linkAudioSubs := w.linkAudioSubs.map fun sub =>
      if sub.inUse ∧ sub.channelId = cid then { sub with inUse := false } else sub }

/-- `handle_aucb_entry`, with zeros behind the value. -/
def handleAucbEntry : TlvCb AudioWorld := fun key v w =>
  let n := UInt32.ofNat v.length
  if key ≠ keyAucb then (w, 0)
  else if n < 4 then (w, -1)
  else
    let count := be32 v
    if n - 4 < count * 8 then (w, -1)
    else
      ((List.range count.toNat).foldl (fun w i =>
        dropChannel (.ofBytes (bytesAt (memOf v) (4 + .ofNat (i * 8)) 8)) w) w, 0)

/-! ## ChannelRequest and StopChannelRequest -/

/-- `handle_chid_entry`. -/
def handleChidEntry : TlvCb LinkId := fun key v cid =>
  if key = keyChid ∧ v.length = 8 then (.ofBytes v, 0) else (cid, 0)

/-- `find_local_channel`, by index. -/
def findLocalChannel (w : AudioWorld) (cid : LinkId) : Option Nat :=
  w.linkAudioLocal.findIdx? fun c => c.inUse && c.channelId = cid

/-- The index of a subscriber among the first `num_subscribers`. -/
def AudioLocal.subscriberIndex (c : AudioLocal) (addr : UInt32) (port : UInt16) : Option Nat :=
  (c.subscribers.toList.take c.numSubscribers).findIdx? fun s => s.addr = addr && s.port = port

/-- `add_subscriber`. -/
def AudioLocal.addSubscriber (c : AudioLocal) (peerId : LinkId) (addr : UInt32) (port : UInt16) :
    AudioLocal :=
  if (c.subscriberIndex addr port).isSome then c
  else if linkAudioMaxSubPer ≤ c.numSubscribers then c
  else
    { c with
      numSubscribers := c.numSubscribers + 1
      subscribers := c.subscribers.setIfInBounds c.numSubscribers ⟨addr, port, peerId⟩ }

/-- `remove_subscriber`: the entries behind the removed one move down. -/
def AudioLocal.removeSubscriber (c : AudioLocal) (addr : UInt32) (port : UInt16) : AudioLocal :=
  match c.subscriberIndex addr port with
  | none => c
  | some i =>
      let num := c.numSubscribers - 1
      { c with
        numSubscribers := num
        subscribers := (List.range' i (num - i)).foldl (fun subs j =>
          match subs[j + 1]? with
          | some s => subs.setIfInBounds j s
          | none => subs) c.subscribers }

/-- `handle_channel_request`. -/
def handleChannelRequest (mtype : UInt8) (requester : LinkId) (srcAddr : UInt32)
    (srcPort : UInt16) (body : List UInt8) (w : AudioWorld) : AudioWorld :=
  let cid := (tlvWalk handleChidEntry body .zero).1
  match findLocalChannel w cid with
  | none => w
  | some i =>
      match w.linkAudioLocal[i]? with
      | none => w
      | some c =>
          if mtype = 4 then w.setLocal i (c.addSubscriber requester srcAddr srcPort)
          else w.setLocal i (c.removeSubscriber srcAddr srcPort)

end LinkFPGA
