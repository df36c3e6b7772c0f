import LinkFPGA.Proofs.EntryOrder
import LinkFPGA.Proofs.PeerMap
import LinkFPGA.Proofs.SessionTracking

/-!
# Malformed discovery messages

`tlv_walk` finds a malformed payload only when it gets there: the entries before have been written,
and `link_handle_rx` does not look at what the walk returns. `walk_record` says what is written,
the accepted entries in front of the error. `malformed_atomic_iff` says when a malformed message
leaves the peer table alone all the same, starts no measurement and is not answered.
-/

namespace LinkFPGA

open KeyedWrites

/-! ## What the walk writes -/

/-- `handle_entry` returns 0, whatever the record. -/
def Entry.accepted (e : Entry) : Bool := decide ((handleEntry e.1 e.2 .zero).2 = 0)

/-- The entries of a payload in front of the first one that `handle_entry` refuses. -/
def acceptedEntries (body : List UInt8) : List Entry := (tlvEntries body).takeWhile Entry.accepted

/-- A refused entry writes nothing. -/
theorem handle_entry_refused {e : Entry} (h : e.accepted = false) (p : Peer) :
    handleEntry e.1 e.2 p = (p, -1) := by
  have hcode : (handleEntry e.1 e.2 .zero).2 ≠ 0 := by simpa [Entry.accepted] using h
  cases hkey : fieldOf e.1 with
  | none =>
      rw [handle_entry_unknown hkey] at hcode
      exact absurd rfl hcode
  | some f =>
      rw [field_of_eq_some hkey, handle_entry_known] at hcode ⊢
      by_cases hsize : e.2.length = f.size
      · rw [if_neg (not_not.mpr hsize)] at hcode
        exact absurd rfl hcode
      · rw [if_pos hsize]

/-- The record after the walk of any payload: the accepted entries are written, in order. -/
theorem walk_record (body : List UInt8) (p : Peer) :
    (tlvWalk handleEntry body p).1 = (acceptedEntries body).foldl writeEntry p := by
  induction hlen : body.length using Nat.strong_induction_on generalizing body p with
  | _ n ih =>
      rw [tlv_walk_eq, acceptedEntries, tlv_entries_eq]
      by_cases hstop : body.length < 8 ∨ (body.drop 8).length < (be32 (body.drop 4)).toNat
      · rw [if_pos hstop, List.takeWhile_nil, List.foldl_nil]
        by_cases hshort : body.length < 8
        · rw [if_pos hshort]
        · rw [if_neg hshort, if_pos (hstop.resolve_left hshort)]
      · rw [if_neg hstop]
        rw [not_or] at hstop
        rw [if_neg hstop.1, if_neg hstop.2, List.takeWhile_cons]
        set e : Entry := (be32 body, (body.drop 8).take (be32 (body.drop 4)).toNat) with he
        dsimp only
        by_cases haccepted : e.accepted = true
        · have hcode : ¬ (handleEntry e.1 e.2 p).2 ≠ 0 := by
            rw [handle_entry_code e.1 e.2 p .zero]
            simpa [Entry.accepted] using haccepted
          rw [if_neg hcode, if_pos haccepted, List.foldl_cons]
          refine ih _ ?_ _ _ rfl
          simp
          omega
        · have hrefused := handle_entry_refused (by simpa using haccepted) p
          have hcode : ((p, -1) : Peer × Int).2 ≠ 0 := by simp
          rw [hrefused, if_pos hcode, if_neg haccepted, List.foldl_nil]

/-- No entry writes the expiry. -/
theorem walk_expires (body : List UInt8) (p : Peer) :
    (tlvWalk handleEntry body p).1.expiresAtUs = p.expiresAtUs := by
  refine tlv_walk_induct (P := fun q : Peer => q.expiresAtUs = p.expiresAtUs) body rfl ?_
  intro e _ q hq
  simp only [handleEntry, apply_ite Prod.fst, apply_ite Peer.expiresAtUs, ite_self]
  exact hq

/-- The sender's record stays as it is when it holds what the last accepted entry for each field
says, and has the expiry it would get. -/
theorem update_peer_eq_self_iff (now : UInt64) (buf : List UInt8) (p : Peer) :
    updatePeer now buf p = p ↔
      (∀ e ∈ lasts Entry.field (acceptedEntries (messageBody buf)), writeEntry p e = p) ∧
        p.expiresAtUs = now + 5000000 := by
  have hexpires := walk_expires (messageBody buf) p
  rw [← writes_keyed.foldl_eq_self_iff, ← walk_record, updatePeer]
  set q := (tlvWalk handleEntry (messageBody buf) p).1
  constructor
  · intro h
    have hnow : p.expiresAtUs = now + 5000000 := by
      rw [← h]
      rfl
    refine ⟨?_, hnow⟩
    calc q = { q with expiresAtUs := p.expiresAtUs } := by rw [← hexpires]
      _ = p := by rw [hnow]; exact h
  · rintro ⟨hq, hnow⟩
    rw [hq]
    show { p with expiresAtUs := now + 5000000 } = p
    rw [← hnow]

/-! ## Requests -/

/-- A RESPONSE of the discovery protocol. -/
def isResponse : Datagram → Bool
  | .unicast _ _ _ buf => decide (buf.take 8 = kProtoHdr ∧ messageType buf = 2)
  | _ => false

theorem response_is_response (w : World) (addr : UInt32) (port : UInt16) :
    isResponse (.unicast addr port linkDiscoveryPort (encodeMsg w 2 true)) = true := by
  have hheader : ∃ rest, encodeMsg w 2 true =
      discoveryHeader 2 linkDiscoveryTtlSec.toUInt8 w.linkSelfId ++ rest := by
    simp only [encodeMsg, List.append_assoc]
    exact ⟨_, rfl⟩
  obtain ⟨rest, hmsg⟩ := hheader
  rw [isResponse, decide_eq_true_iff, hmsg]
  exact ⟨rfl, rfl⟩

/-- A request for a measurement sends no RESPONSE. -/
theorem request_no_response (w : World) (r : Option (LinkId × Peer)) :
    ∃ ds, (request w r).sent = w.sent ++ ds ∧ ∀ d ∈ ds, isResponse d = false := by
  cases r with
  | none => exact ⟨[], by simp [request], by simp⟩
  | some r =>
      have hping : ∀ d ∈ (measurementStart w.clock w.meas r.2.mep4Addr r.2.mep4Port r.1 true).sent,
          isResponse d = false := by
        intro d hd
        unfold measurementStart at hd
        split at hd
        · cases hd
        · rw [sendPing, List.mem_singleton] at hd
          have hmagic (t g : Int64) (k : Bool) : (encodePing t g k).take 8 ≠ kProtoHdr :=
            proto_link_ne_hdr
          rw [hd]
          simp [isResponse, hmagic]
      refine ⟨_, ?_, hping⟩
      unfold request startMeasurement applyMeas
      dsimp only
      rw [measurement_start_call]

/-- A request leaves the measurement as it is only if there is none, or one is in flight. -/
theorem request_meas_eq_iff (w : World) (r : Option (LinkId × Peer)) :
    (request w r).meas = w.meas ↔ r = none ∨ w.meas.active = true := by
  cases r with
  | none => simp [request]
  | some r =>
      have hmeas : (request w (some r)).meas =
          (measurementStart w.clock w.meas r.2.mep4Addr r.2.mep4Port r.1 true).state :=
        start_measurement_meas r.2 r.1 { w with sActiveTargetSession := r.1 }
      rw [hmeas]
      cases hactive : w.meas.active with
      | true => simp [measurement_start_busy hactive, MeasResult.idle]
      | false =>
          have hstart : (measurementStart w.clock w.meas r.2.mep4Addr r.2.mep4Port r.1
              true).state.active = true := (measurement_start_idle hactive).1
          constructor
          · intro h
            rw [h, hactive] at hstart
            cases hstart
          · rintro (h | h)
            · cases h
            · cases h

/-! ## An ignored datagram -/

/-- `w'` follows `w` with the same peer table, without a measurement started, and without a
RESPONSE. -/
structure Untouched (w w' : World) : Prop where
  peers : w'.linkPeers = w.linkPeers
  meas : w'.meas = w.meas
  silent : ∀ d ∈ w'.sent.drop w.sent.length, isResponse d = false

theorem Untouched.refl (w : World) : Untouched w w := ⟨rfl, rfl, by simp⟩

/-- The walk of the payload returns an error. -/
def Malformed (buf : List UInt8) : Prop := ∀ p, (tlvWalk handleEntry (messageBody buf) p).2 = -1

/-- The table is full and the sender is not in it. -/
def NoSlot (peers : List Peer) (ident : LinkId) : Prop :=
  ∀ p ∈ peers, p.inUse = true ∧ p.nodeId ≠ ident

/-- The sender's record `p` in slot `i` already holds what the accepted entries say, with the
expiry it would get, and nothing is to be measured. -/
structure Repeats (w : World) (buf : List UInt8) (i : Nat) (p : Peer) : Prop where
  slot : w.linkPeers[i]? = some p
  index : peerIndex w.linkPeers (messageIdent buf) = some i
  entries : ∀ e ∈ lasts Entry.field (acceptedEntries (messageBody buf)), writeEntry p e = p
  expiry : p.expiresAtUs = w.clock.now + 5000000
  settled : observeRequest w.linkPeers w.linkSelfSession i = none ∨ w.meas.active = true

/-- Nothing in the message reaches the node: the header is refused, or there is no slot for the
sender, or it is a RESPONSE that repeats what is known. -/
def Harmless (w : World) (buf : List UInt8) : Prop :=
  headerAccepted w.linkSelfId buf = false ∨ NoSlot w.linkPeers (messageIdent buf) ∨
    messageType buf = 2 ∧ ∃ i p, Repeats w buf i p

/-- `find_or_alloc_peer` fails exactly when there is no slot. -/
theorem find_or_alloc_none_iff {peers : List Peer} {ident : LinkId} :
    findOrAllocPeer peers ident = none ↔ NoSlot peers ident := by
  unfold findOrAllocPeer NoSlot
  cases hindex : peerIndex peers ident with
  | some i =>
      obtain ⟨p, hp, hkey⟩ := peer_index_key hindex
      constructor
      · intro h
        cases h
      · intro h
        exact absurd (Peer.key_eq_some.mp hkey).2 (h p (List.mem_of_getElem? hp)).2
  | none =>
      have hother := peer_index_none hindex
      simp only [Option.map_eq_none_iff, List.findIdx?_eq_none_iff, Bool.not_eq_false']
      constructor
      · intro h p hp
        refine ⟨h p hp, fun hident => hother p hp ?_⟩
        exact Peer.key_eq_some.mpr ⟨h p hp, hident⟩
      · exact fun h p hp => (h p hp).1

/-- The table after a sender's message is the table before it only if the sender is known and its
record stays as it is. -/
theorem observe_same_iff {peers table : List Peer} {now : UInt64} {buf : List UInt8} {i : Nat}
    (h : observe peers now buf = some (table, i)) :
    table = peers ↔ ∃ p, peers[i]? = some p ∧ peerIndex peers (messageIdent buf) = some i ∧
      updatePeer now buf p = p := by
  obtain ⟨⟨found, slot⟩, hfound, hpair⟩ := Option.map_eq_some_iff.mp h
  obtain ⟨rfl, rfl⟩ : found.modify slot (updatePeer now buf) = table ∧ slot = i :=
    Prod.mk.inj hpair
  unfold findOrAllocPeer at hfound
  cases hindex : peerIndex peers (messageIdent buf) with
  | some j =>
      rw [hindex] at hfound
      obtain ⟨rfl, rfl⟩ : peers = found ∧ j = slot := Prod.mk.inj (Option.some.inj hfound)
      obtain ⟨p, hp, -⟩ := peer_index_key hindex
      constructor
      · intro hsame
        refine ⟨p, hp, rfl, ?_⟩
        have hmodified : (peers.modify j (updatePeer now buf))[j]? =
            some (updatePeer now buf p) := by
          rw [List.getElem?_modify_eq, hp]
          rfl
        rw [hsame, hp] at hmodified
        exact (Option.some.inj hmodified).symm
      · rintro ⟨q, hq, -, hself⟩
        refine List.ext_getElem? fun k => ?_
        rw [List.getElem?_modify]
        by_cases hk : j = k
        · subst hk
          simp [hq, hself]
        · simp [hk]
  | none =>
      constructor
      · intro hsame
        -- the slot allocated is in use by the sender, and no slot was
        obtain ⟨p, hp, huse, hident⟩ :=
          find_or_alloc_index (by unfold findOrAllocPeer; exact hfound)
        have hslot : (found.modify slot (updatePeer now buf))[slot]? =
            some (updatePeer now buf p) := by
          rw [List.getElem?_modify_eq, hp]
          rfl
        obtain ⟨huse', hident', -⟩ := update_peer_measurement now buf p
        rw [hsame] at hslot
        refine absurd (Peer.key_eq_some.mpr ⟨huse'.trans huse, hident'.trans hident⟩) ?_
        exact peer_index_none hindex _ (List.mem_of_getElem? hslot)
      · rintro ⟨p, -, hnone, -⟩
        cases hnone

/-- A RESPONSE that is sent is seen. -/
theorem answered_touches {w heard : World} {ds : List Datagram} (hsent : heard.sent = w.sent ++ ds)
    (addr : UInt32) (port : UInt16) : ¬ Untouched w (sendResponse addr port heard) := by
  intro h
  have hnew : (sendResponse addr port heard).sent.drop w.sent.length =
      ds ++ [.unicast addr port linkDiscoveryPort (encodeMsg heard 2 true)] := by
    show (heard.sent ++ [_]).drop w.sent.length = _
    rw [hsent, List.append_assoc, List.drop_left]
  have hanswer := h.silent (.unicast addr port linkDiscoveryPort (encodeMsg heard 2 true))
    (hnew ▸ List.mem_append_right _ (List.mem_singleton_self _))
  rw [response_is_response] at hanswer
  cases hanswer

/-- A peer that is observed and not answered leaves the node untouched exactly when it repeats what
is known. -/
theorem observed_untouched_iff {w : World} {buf : List UInt8} {table : List Peer} {i : Nat}
    (hobs : observe w.linkPeers w.clock.now buf = some (table, i)) :
    Untouched w (sessionObservePeer i { w.advance with linkPeers := table }) ↔
      ∃ j p, Repeats w buf j p := by
  rw [session_observe_peer_eq]
  set heard : World := { w.advance with linkPeers := table } with hheard
  set r := observeRequest heard.linkPeers heard.linkSelfSession i with hr
  obtain ⟨ds, hsent, hquiet⟩ := request_no_response heard r
  have hpeers : (request heard r).linkPeers = table :=
    congrArg View.linkPeers (request_view heard r)
  have hself := request_meas_eq_iff heard r
  have hsame := observe_same_iff hobs
  constructor
  · rintro ⟨hsamePeers, hmeas, -⟩
    obtain rfl : table = w.linkPeers := hpeers.symm.trans hsamePeers
    obtain ⟨p, hslot, hindex, hupdate⟩ := hsame.mp rfl
    obtain ⟨hentries, hexpiry⟩ := (update_peer_eq_self_iff _ _ _).mp hupdate
    exact ⟨i, p, hslot, hindex, hentries, hexpiry, hself.mp hmeas⟩
  · rintro ⟨j, p, hrepeats⟩
    obtain ⟨found, hfound, hpair⟩ := Option.map_eq_some_iff.mp hobs
    have hij : i = j := by
      rw [findOrAllocPeer, hrepeats.index] at hfound
      cases hfound
      exact (Prod.mk.inj hpair).2.symm
    subst hij
    obtain rfl : table = w.linkPeers := hsame.mpr ⟨p, hrepeats.slot, hrepeats.index,
      (update_peer_eq_self_iff _ _ _).mpr ⟨hrepeats.entries, hrepeats.expiry⟩⟩
    refine ⟨hpeers, hself.mpr hrepeats.settled, ?_⟩
    rw [hsent]
    show ∀ d ∈ (w.sent ++ ds).drop w.sent.length, _
    rw [List.drop_left]
    exact hquiet

/-- An ALIVE or RESPONSE is harmless exactly when it leaves the node untouched. -/
theorem untouched_iff {w : World} {buf : List UInt8}
    (htype : messageType buf = 1 ∨ messageType buf = 2) (srcAddr : UInt32) (srcPort : UInt16) :
    Untouched w (linkHandleRx buf srcAddr srcPort w) ↔ Harmless w buf := by
  have hbye : ¬ messageType buf = 3 := by
    rcases htype with h | h <;> rw [h] <;> decide
  have hstate : ¬ (messageType buf ≠ 1 ∧ messageType buf ≠ 2) := by
    rcases htype with h | h <;> simp [h]
  unfold linkHandleRx Harmless
  cases hheader : headerAccepted w.linkSelfId buf with
  | false => simp [Untouched.refl]
  | true =>
      rw [if_neg (by simp), if_neg hbye, if_neg hstate]
      cases hobs : observe w.linkPeers w.clock.now buf with
      | none =>
          have hfull : NoSlot w.linkPeers (messageIdent buf) :=
            find_or_alloc_none_iff.mp (Option.map_eq_none_iff.mp hobs)
          simp [hfull, Untouched.refl]
      | some r =>
          rcases r with ⟨table, i⟩
          have hroom : ¬ NoSlot w.linkPeers (messageIdent buf) := by
            intro hfull
            rw [observe, find_or_alloc_none_iff.mpr hfull] at hobs
            cases hobs
          dsimp only
          rcases htype with htype | htype
          · -- an ALIVE is answered
            have hnotwo : ¬ messageType buf = 2 := by
              rw [htype]
              decide
            rw [if_pos htype, session_observe_peer_eq]
            obtain ⟨ds, hsent, -⟩ := request_no_response { w.advance with linkPeers := table }
              (observeRequest table w.linkSelfSession i)
            exact iff_of_false (answered_touches (w := w) hsent srcAddr srcPort)
              (by simp [hroom, hnotwo])
          · have hnotone : ¬ messageType buf = 1 := by
              rw [htype]
              decide
            rw [if_neg hnotone, observed_untouched_iff hobs]
            simp [hroom, htype]

/-- A malformed ALIVE or RESPONSE leaves the node untouched exactly when it is harmless. -/
theorem malformed_atomic_iff {w : World} {buf : List UInt8}
    (htype : messageType buf = 1 ∨ messageType buf = 2) (srcAddr : UInt32) (srcPort : UInt16) :
    (Malformed buf → Untouched w (linkHandleRx buf srcAddr srcPort w)) ↔
      (Malformed buf → Harmless w buf) :=
  imp_congr_right fun _ => untouched_iff htype srcAddr srcPort

/-- A RESPONSE of a node, with a session and a stray byte behind it. -/
def strayResponse (ident : LinkId) : List UInt8 :=
  discoveryHeader 2 5 ident ++ (tlvEmitBytes keySess [1, 2, 3, 4, 5, 6, 7, 8] ++ [0])

theorem stray_response_malformed (ident : LinkId) : Malformed (strayResponse ident) := by
  intro p
  rw [strayResponse, (discovery_message 2 5 ident _).2.2.1]
  rfl

/-- A node whose clock stands still, and has heard the stray RESPONSE of another one. -/
def heardStray : World :=
  linkHandleRx (strayResponse nodeA.linkSelfId) 0x0A000002 20808
    (boot (fun _ => 1000) 0x0A000001 (List.replicate 16 0))

/-- The same RESPONSE at the same time is walked again and changes nothing. -/
theorem malformed_atomic_iff_again :
    Untouched heardStray
      (linkHandleRx (strayResponse nodeA.linkSelfId) 0x0A000002 20808 heardStray) := by
  have hknown : ∃ p ∈ heardStray.linkPeers[0]?,
      peerIndex heardStray.linkPeers (messageIdent (strayResponse nodeA.linkSelfId)) = some 0 ∧
        (∀ e ∈ lasts Entry.field (acceptedEntries (messageBody (strayResponse nodeA.linkSelfId))),
          writeEntry p e = p) ∧
        p.expiresAtUs = heardStray.clock.now + 5000000 ∧
        observeRequest heardStray.linkPeers heardStray.linkSelfSession 0 = none := by
    decide +kernel
  obtain ⟨p, hslot, hindex, hentries, hexpiry, hsettled⟩ := hknown
  exact (malformed_atomic_iff (.inr rfl) 0x0A000002 20808).mpr
    (fun _ => .inr (.inr ⟨rfl, 0, p, hslot, hindex, hentries, hexpiry, .inl hsettled⟩))
    (stray_response_malformed _)

/-- A stray RESPONSE of another node gets the node a slot. -/
theorem malformed_discovery_writes :
    ¬ ∀ (w : World) (buf : List UInt8) (srcAddr : UInt32) (srcPort : UInt16),
      messageType buf = 1 ∨ messageType buf = 2 → Malformed buf →
        Untouched w (linkHandleRx buf srcAddr srcPort w) := by
  intro h
  have hpeers := (h nodeSelf (strayResponse nodeA.linkSelfId) 0x0A000002 20808 (.inr rfl)
    (stray_response_malformed _)).peers
  have hslots := congrArg (List.map Peer.inUse) hpeers
  revert hslots
  decide +kernel

end LinkFPGA
