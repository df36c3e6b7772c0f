import LinkFPGA.Proofs.PeerMap

/-!
# What a discovery datagram tells its receiver

The encoder and the decoder of `link.c` are two functions with offsets and sizes of their own.
`discovery_round_trip` says that they agree: an ALIVE or RESPONSE that a node encodes fits its
buffer, and a receiver with a free slot reads every field of the sender's state off it.

Read `walk_announcement` first: it is the payload walk, one `handle_entry` call per entry.
-/

namespace LinkFPGA

/-! ## Entries of an announcement -/

theorem handle_tmln (tl : Timeline) (p : Peer) :
    handleEntry keyTmln (encodeTmln tl) p = ({ p with timeline := tl }, 0) := by
  have hlen : ¬ (encodeTmln tl).length ≠ 24 := by simp [encodeTmln]
  have hdecode : decodeTmln (encodeTmln tl) = tl := by
    have hbeat : (encodeTmln tl).drop 8 = putBe64 tl.beatOriginMicrobeats.toUInt64 ++
        putBe64 tl.timeOriginUsGhost.toUInt64 := by
      rw [encodeTmln, List.append_assoc, List.drop_left' (put_be64_length _)]
    have htime : (encodeTmln tl).drop 16 = putBe64 tl.timeOriginUsGhost.toUInt64 := by
      rw [encodeTmln, List.drop_left' (by simp)]
    rw [decodeTmln, hbeat, htime, encodeTmln, List.append_assoc, be64_put_be64_append,
      be64_put_be64_append, be64_put_be64]
    rfl
  rw [handleEntry, if_pos rfl, if_neg hlen, hdecode]

theorem handle_sess (session : LinkId) (p : Peer) :
    handleEntry keySess session.bytes p = ({ p with sessionId := session }, 0) := by
  have hother : keySess ≠ keyTmln := by decide
  have hlen : ¬ session.bytes.length ≠ 8 := not_not.mpr session.length_bytes
  rw [handleEntry, if_neg hother, if_pos rfl, if_neg hlen, LinkId.ofBytes_bytes]

/-- `is_playing` as it goes over the wire. -/
def Startstop.normalised (ss : Startstop) : Startstop :=
  { ss with isPlaying := if ss.isPlaying ≠ 0 then 1 else 0 }

theorem handle_stst (ss : Startstop) (p : Peer) :
    handleEntry keyStst (encodeStst ss) p = ({ p with startstop := ss.normalised }, 0) := by
  have hother : keyStst ≠ keyTmln ∧ keyStst ≠ keySess := by decide
  have hlen : ¬ (encodeStst ss).length ≠ 17 := by simp [encodeStst]
  have hdecode : decodeStst (encodeStst ss) = ss.normalised := by
    have hbeats : (encodeStst ss).drop 1 = putBe64 ss.beatsMicrobeats.toUInt64 ++
        putBe64 ss.timestampUsGhost.toUInt64 := by
      rw [encodeStst, List.append_assoc]
      rfl
    have htime : (encodeStst ss).drop 9 = putBe64 ss.timestampUsGhost.toUInt64 := by
      rw [encodeStst, List.drop_left' (by simp)]
    have hflag : byteAt (encodeStst ss) 0 = if ss.isPlaying ≠ 0 then 1 else 0 := rfl
    rw [decodeStst, hbeats, htime, hflag, be64_put_be64_append, be64_put_be64]
    unfold Startstop.normalised
    by_cases hplaying : ss.isPlaying = 0
    · simp [hplaying]
    · simp [hplaying]
  rw [handleEntry, if_neg hother.1, if_neg hother.2, if_pos rfl, if_neg hlen, hdecode]

/-- An endpoint's value: the address, and the port behind it. -/
def endpoint (addr : List UInt8) (port : UInt16) : List UInt8 := addr ++ putBe16 port

/-- The two halves of an IPv4 endpoint. -/
theorem endpoint_v4 (addr : UInt32) (port : UInt16) :
    (endpoint (putBe32 addr) port).length = 6 ∧ be32 (endpoint (putBe32 addr) port) = addr ∧
      be16 ((endpoint (putBe32 addr) port).drop 4) = port := by
  refine ⟨rfl, be32_put_be32_append addr _, ?_⟩
  rw [endpoint, List.drop_left' (put_be32_length addr), be16_put_be16]

/-- The two halves of an IPv6 endpoint. -/
theorem endpoint_v6 {addr : List UInt8} (haddr : addr.length = 16) (port : UInt16) :
    (endpoint addr port).length = 18 ∧ (endpoint addr port).take 16 = addr ∧
      be16 ((endpoint addr port).drop 16) = port := by
  refine ⟨by simp [endpoint, haddr, putBe16], List.take_left' haddr, ?_⟩
  rw [endpoint, List.drop_left' haddr, be16_put_be16]

theorem handle_mep4 (addr : UInt32) (port : UInt16) (p : Peer) :
    handleEntry keyMep4 (endpoint (putBe32 addr) port) p =
      ({ p with mep4Addr := addr, mep4Port := port }, 0) := by
  have hother : keyMep4 ≠ keyTmln ∧ keyMep4 ≠ keySess ∧ keyMep4 ≠ keyStst := by decide
  obtain ⟨hlen, haddr, hport⟩ := endpoint_v4 addr port
  rw [handleEntry, if_neg hother.1, if_neg hother.2.1, if_neg hother.2.2, if_pos rfl,
    if_neg (not_not.mpr hlen), haddr, hport]

theorem handle_aep4 (addr : UInt32) (port : UInt16) (p : Peer) :
    handleEntry keyAep4 (endpoint (putBe32 addr) port) p =
      ({ p with aep4Addr := addr, aep4Port := port }, 0) := by
  have hother : keyAep4 ≠ keyTmln ∧ keyAep4 ≠ keySess ∧ keyAep4 ≠ keyStst ∧ keyAep4 ≠ keyMep4 := by
    decide
  obtain ⟨hlen, haddr, hport⟩ := endpoint_v4 addr port
  rw [handleEntry, if_neg hother.1, if_neg hother.2.1, if_neg hother.2.2.1, if_neg hother.2.2.2,
    if_pos rfl, if_neg (not_not.mpr hlen), haddr, hport]

theorem handle_mep6 {addr : List UInt8} (h : addr.length = 16) (port : UInt16) (p : Peer) :
    handleEntry keyMep6 (endpoint addr port) p =
      ({ p with mep6Addr := addr, mep6Port := port, haveMep6 := true }, 0) := by
  have hother : keyMep6 ≠ keyTmln ∧ keyMep6 ≠ keySess ∧ keyMep6 ≠ keyStst ∧ keyMep6 ≠ keyMep4 ∧
      keyMep6 ≠ keyAep4 := by decide
  obtain ⟨hlen, haddr, hport⟩ := endpoint_v6 h port
  rw [handleEntry, if_neg hother.1, if_neg hother.2.1, if_neg hother.2.2.1, if_neg hother.2.2.2.1,
    if_neg hother.2.2.2.2, if_pos rfl, if_neg (not_not.mpr hlen), haddr, hport]

theorem handle_aep6 {addr : List UInt8} (h : addr.length = 16) (port : UInt16) (p : Peer) :
    handleEntry keyAep6 (endpoint addr port) p =
      ({ p with aep6Addr := addr, aep6Port := port, haveAep6 := true }, 0) := by
  have hother : keyAep6 ≠ keyTmln ∧ keyAep6 ≠ keySess ∧ keyAep6 ≠ keyStst ∧ keyAep6 ≠ keyMep4 ∧
      keyAep6 ≠ keyAep4 ∧ keyAep6 ≠ keyMep6 := by decide
  obtain ⟨hlen, haddr, hport⟩ := endpoint_v6 h port
  rw [handleEntry, if_neg hother.1, if_neg hother.2.1, if_neg hother.2.2.1, if_neg hother.2.2.2.1,
    if_neg hother.2.2.2.2.1, if_neg hother.2.2.2.2.2, if_pos rfl, if_neg (not_not.mpr hlen), haddr,
    hport]

/-! ## The whole payload -/

/-- The entries of an ALIVE or RESPONSE, in the order `encode_msg` emits them. -/
def announcementBody (w : World) : List UInt8 :=
  tlvEmitBytes keyTmln (encodeTmln w.linkSelfTimeline) ++
    (tlvEmitBytes keySess w.linkSelfSession.bytes ++
      (tlvEmitBytes keyStst (encodeStst w.linkSelfStartstop) ++
        (tlvEmitBytes keyMep4 (endpoint (putBe32 w.localIpv4) linkDiscoveryPort) ++
          (tlvEmitBytes keyMep6 (endpoint w.localIpv6 linkDiscoveryPort) ++
            (tlvEmitBytes keyAep4 (endpoint (putBe32 w.localIpv4) linkDiscoveryPort) ++
              tlvEmitBytes keyAep6 (endpoint w.localIpv6 linkDiscoveryPort))))))

/-- A datagram with state is its header and those entries. -/
theorem encode_msg_body {w : World} (hv6 : w.localIpv6.length = 16) (mtype : UInt8) :
    encodeMsg w mtype true =
      discoveryHeader mtype linkDiscoveryTtlSec.toUInt8 w.linkSelfId ++ announcementBody w := by
  have hentry {value : List UInt8} (key : UInt32) {n : UInt32} (hlen : value.length = n.toNat) :
      tlvEmitBytes key value = tlvEmitHeader key n ++ value := by
    rw [tlvEmitBytes, hlen, UInt32.ofNat_toNat]
  have htmln : (encodeTmln w.linkSelfTimeline).length = 24 := rfl
  have hstst : (encodeStst w.linkSelfStartstop).length = 17 := rfl
  have hv4 := (endpoint_v4 w.localIpv4 linkDiscoveryPort).1
  have hv6 := (endpoint_v6 hv6 linkDiscoveryPort).1
  have hports : 0 < linkNumTdmPorts := by decide
  rw [announcementBody, hentry keyTmln (n := 24) htmln, hentry keyStst (n := 17) hstst,
    hentry keyMep4 (n := 6) hv4, hentry keyMep6 (n := 18) hv6, hentry keyAep4 (n := 6) hv4,
    hentry keyAep6 (n := 18) hv6]
  simp only [encodeMsg, Bool.not_true, Bool.false_eq_true, if_false, if_pos hports, endpoint,
    List.append_assoc]

/-- What a node's announcement makes of a record. -/
def announcedBy (w : World) (p : Peer) : Peer :=
  { p with
    timeline := w.linkSelfTimeline
    sessionId := w.linkSelfSession
    startstop := w.linkSelfStartstop.normalised
    mep4Addr := w.localIpv4
    mep4Port := linkDiscoveryPort
    mep6Addr := w.localIpv6
    mep6Port := linkDiscoveryPort
    haveMep6 := true
    aep4Addr := w.localIpv4
    aep4Port := linkDiscoveryPort
    aep6Addr := w.localIpv6
    aep6Port := linkDiscoveryPort
    haveAep6 := true }

/-- The walk of an announcement: every entry is accepted, and none is left over. -/
theorem walk_announcement {w : World} (hv6 : w.localIpv6.length = 16) (p : Peer) :
    tlvWalk handleEntry (announcementBody w) p = (announcedBy w p, 0) := by
  have hshort {value : List UInt8} {n : Nat} (hlen : value.length = n) (hn : n < 2 ^ 32) :
      value.length < 2 ^ 32 := hlen ▸ hn
  have htmln : (encodeTmln w.linkSelfTimeline).length = 24 := rfl
  have hstst : (encodeStst w.linkSelfStartstop).length = 17 := rfl
  have hv4 := (endpoint_v4 w.localIpv4 linkDiscoveryPort).1
  have hport6 := (endpoint_v6 hv6 linkDiscoveryPort).1
  unfold announcementBody
  rw [tlv_walk_accepted (hshort htmln (by omega)) (handle_tmln _ _),
    tlv_walk_accepted (hshort w.linkSelfSession.length_bytes (by omega)) (handle_sess _ _),
    tlv_walk_accepted (hshort hstst (by omega)) (handle_stst _ _),
    tlv_walk_accepted (hshort hv4 (by omega)) (handle_mep4 _ _ _),
    tlv_walk_accepted (hshort hport6 (by omega)) (handle_mep6 hv6 _ _),
    tlv_walk_accepted (hshort hv4 (by omega)) (handle_aep4 _ _ _),
    tlv_walk_last (hshort hport6 (by omega)) (handle_aep6 hv6 _ _)]
  rfl

/-! ## The sender's entry -/

/-- Updating one record moves no node to another slot. -/
theorem peer_index_modify (peers : List Peer) (i : Nat) (now : UInt64) (buf : List UInt8)
    (id : LinkId) :
    peerIndex (peers.modify i (updatePeer now buf)) id = peerIndex peers id := by
  let holds : Peer → Bool := fun p => decide (p.inUse ∧ p.nodeId = id)
  have hkeep (p : Peer) : holds (updatePeer now buf p) = holds p := by
    obtain ⟨huse, hid, _⟩ := update_peer_measurement now buf p
    simp only [holds, huse, hid]
  have hmap : (peers.modify i (updatePeer now buf)).map holds = peers.map holds := by
    apply List.ext_getElem?
    intro k
    rw [List.getElem?_map, List.getElem?_map, List.getElem?_modify]
    cases peers[k]? with
    | none => rfl
    | some p =>
        show some (holds (if i = k then updatePeer now buf p else p)) = some (holds p)
        split
        · rw [hkeep]
        · rfl
  have hindex (t : List Peer) : peerIndex t id = (t.map holds).findIdx? (fun b => b) := by
    rw [List.findIdx?_map]
    rfl
  rw [hindex, hindex, hmap]

/-- The slot that an ALIVE or RESPONSE updates is the one its sender is found in afterwards. -/
theorem observe_index {peers table : List Peer} {now : UInt64} {buf : List UInt8} {i : Nat}
    (h : observe peers now buf = some (table, i)) :
    peerIndex table (messageIdent buf) = some i := by
  obtain ⟨⟨found, slot⟩, hfound, hpair⟩ := Option.map_eq_some_iff.mp h
  cases hpair
  rw [peer_index_modify]
  unfold findOrAllocPeer at hfound
  cases hindex : peerIndex peers (messageIdent buf) with
  | some j =>
      rw [hindex] at hfound
      cases hfound
      exact hindex
  | none =>
      rw [hindex] at hfound
      obtain ⟨j, hj, hpair⟩ := Option.map_eq_some_iff.mp hfound
      cases hpair
      obtain ⟨hlt, _, _⟩ := List.findIdx?_eq_some_iff_getElem.mp hj
      refine List.findIdx?_eq_some_iff_getElem.mpr ⟨by simpa using hlt, by simp [Peer.fresh], ?_⟩
      intro k hk
      rw [List.getElem_set_ne (Nat.ne_of_gt hk)]
      have hfree := List.findIdx?_eq_none_iff.mp hindex
      simpa using hfree _ (List.getElem_mem _)

/-- The record holds the state, the addresses and the port that a node announces. -/
structure Carries (sender : World) (p : Peer) : Prop where
  inUse : p.inUse = true
  nodeId : p.nodeId = sender.linkSelfId
  sessionId : p.sessionId = sender.linkSelfSession
  timeline : p.timeline = sender.linkSelfTimeline
  startstop : p.startstop = sender.linkSelfStartstop.normalised
  mep4 : p.mep4Addr = sender.localIpv4 ∧ p.mep4Port = 20808
  mep6 : p.mep6Addr = sender.localIpv6 ∧ p.mep6Port = 20808 ∧ p.haveMep6 = true
  aep4 : p.aep4Addr = sender.localIpv4 ∧ p.aep4Port = 20808
  aep6 : p.aep6Addr = sender.localIpv6 ∧ p.aep6Port = 20808 ∧ p.haveAep6 = true

/-- The fields of a header in front of a payload, as the receiver reads them. -/
theorem discovery_message (mtype ttl : UInt8) (ident : LinkId) (body : List UInt8) :
    messageType (discoveryHeader mtype ttl ident ++ body) = mtype ∧
      messageIdent (discoveryHeader mtype ttl ident ++ body) = ident ∧
      messageBody (discoveryHeader mtype ttl ident ++ body) = body ∧
      ∀ selfId, headerAccepted selfId (discoveryHeader mtype ttl ident ++ body) =
        decide (ident ≠ selfId) := by
  have hlen : (discoveryHeader mtype ttl ident).length = 20 := by
    simp [discoveryHeader, kProtoHdr, ident.length_bytes]
  have hident : messageIdent (discoveryHeader mtype ttl ident ++ body) = ident := by
    rw [discoveryHeader, List.append_assoc]
    exact LinkId.ofBytes_bytes_append ident body
  refine ⟨rfl, hident, List.drop_left' hlen, fun selfId => ?_⟩
  have hgroup : be16 ((discoveryHeader mtype ttl ident ++ body).drop 10) = 0 :=
    UInt16.toNat_inj.mp (be16_toNat 0 0 (ident.bytes ++ body))
  have hlong : 8 + 12 ≤ (discoveryHeader mtype ttl ident ++ body).length := by
    rw [List.length_append, hlen]
    omega
  have hmagic : (discoveryHeader mtype ttl ident ++ body).take 8 = kProtoHdr := rfl
  rw [headerAccepted, hident, hgroup, hmagic]
  simp only [hlong, true_and]

/-- The header fields of a node's datagram, as the receiver reads them. -/
theorem encode_msg_header {w : World} (hv6 : w.localIpv6.length = 16) (mtype : UInt8) :
    messageType (encodeMsg w mtype true) = mtype ∧
      messageIdent (encodeMsg w mtype true) = w.linkSelfId ∧
      messageBody (encodeMsg w mtype true) = announcementBody w ∧
      ∀ selfId, w.linkSelfId ≠ selfId → headerAccepted selfId (encodeMsg w mtype true) = true := by
  obtain ⟨htype, hident, hbody, haccepted⟩ := discovery_message mtype linkDiscoveryTtlSec.toUInt8
    w.linkSelfId (announcementBody w)
  rw [encode_msg_body hv6]
  exact ⟨htype, hident, hbody, fun selfId hforeign => (haccepted selfId).trans
    (decide_eq_true hforeign)⟩

/-- What a node announces in an ALIVE or RESPONSE fits its buffer, and a receiver with another
id and a free slot reads all of it off the datagram: the sender's entry holds it afterwards. -/
theorem discovery_round_trip (sender receiver : World) (mtype : UInt8)
    (hmtype : mtype = 1 ∨ mtype = 2) (hv6 : sender.localIpv6.length = 16)
    (hforeign : sender.linkSelfId ≠ receiver.linkSelfId)
    (hfree : ∃ p ∈ receiver.linkPeers, p.inUse = false) (srcAddr : UInt32) (srcPort : UInt16) :
    (encodeMsg sender mtype true).length ≤ linkMaxMsgDiscovery ∧
    ∃ i p, peerIndex (linkHandleRx (encodeMsg sender mtype true) srcAddr srcPort
        receiver).linkPeers sender.linkSelfId = some i ∧
      (linkHandleRx (encodeMsg sender mtype true) srcAddr srcPort receiver).linkPeers[i]? =
        some p ∧ Carries sender p := by
  obtain ⟨htype, hident, hbody, haccepted⟩ := encode_msg_header hv6 mtype
  have hheader := haccepted _ hforeign
  constructor
  · have hv6len := (endpoint_v6 hv6 linkDiscoveryPort).1
    have hv4len := (endpoint_v4 sender.localIpv4 linkDiscoveryPort).1
    rw [encode_msg_body hv6]
    simp [discoveryHeader, announcementBody, kProtoHdr, sender.linkSelfId.length_bytes,
      sender.linkSelfSession.length_bytes, hv6len, hv4len, encodeTmln, encodeStst,
      linkMaxMsgDiscovery]
  · have hobserve : ∃ r, observe receiver.linkPeers receiver.clock.now
        (encodeMsg sender mtype true) = some r := observe_isSome _ fun _ => hfree
    obtain ⟨⟨table, i⟩, hobs⟩ := hobserve
    have hpeers : (linkHandleRx (encodeMsg sender mtype true) srcAddr srcPort
        receiver).linkPeers = table := by
      have hbye : ¬ messageType (encodeMsg sender mtype true) = 3 := by
        rw [htype]
        rcases hmtype with rfl | rfl <;> decide
      rw [link_handle_rx_peers, tableAfter, if_pos hheader, if_neg hbye,
        if_pos (htype.symm ▸ hmtype), hobs]
    rw [hpeers, ← hident]
    obtain ⟨⟨found, slot⟩, hfound, hpair⟩ := Option.map_eq_some_iff.mp hobs
    obtain ⟨rfl, rfl⟩ : found.modify slot (updatePeer receiver.clock.now _) = table ∧ slot = i :=
      Prod.mk.inj hpair
    obtain ⟨q, hq, huse, hid⟩ := find_or_alloc_index hfound
    have hslot : (found.modify slot (updatePeer receiver.clock.now
        (encodeMsg sender mtype true)))[slot]? =
        some (updatePeer receiver.clock.now (encodeMsg sender mtype true) q) := by
      rw [List.getElem?_modify_eq, hq]
      rfl
    refine ⟨slot, _, observe_index hobs, hslot, ?_⟩
    have hrecord : updatePeer receiver.clock.now (encodeMsg sender mtype true) q =
        { announcedBy sender q with
          expiresAtUs := receiver.clock.now + linkDiscoveryTtlSec * 1000000 } := by
      rw [updatePeer, hbody, walk_announcement hv6]
    rw [hrecord]
    exact ⟨huse, hid.trans hident, rfl, rfl, rfl, ⟨rfl, rfl⟩, ⟨rfl, rfl, rfl⟩, ⟨rfl, rfl⟩,
      rfl, rfl, rfl⟩

/-- A node reads another one's first ALIVE. -/
theorem discovery_round_trip_first :
    ∃ i p, peerIndex (linkHandleRx (encodeMsg (linkInit nodeThere) 1 true) 0x0A000002 20808
        (linkInit nodeHere)).linkPeers (linkInit nodeThere).linkSelfId = some i ∧
      (linkHandleRx (encodeMsg (linkInit nodeThere) 1 true) 0x0A000002 20808
        (linkInit nodeHere)).linkPeers[i]? = some p ∧ Carries (linkInit nodeThere) p := by
  have hv6 : (linkInit nodeThere).localIpv6.length = 16 := by decide +kernel
  have hforeign : (linkInit nodeThere).linkSelfId ≠ (linkInit nodeHere).linkSelfId := by
    decide +kernel
  have hfree : ∃ p ∈ (linkInit nodeHere).linkPeers, p.inUse = false := by decide +kernel
  exact (discovery_round_trip _ _ 1 (.inl rfl) hv6 hforeign hfree _ _).2

end LinkFPGA
