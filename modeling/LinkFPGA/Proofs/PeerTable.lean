import LinkFPGA.Proofs.Supervisor

/-!
# What the peer table keeps

Slot by slot: a datagram's payload never touches the measurement fields of a record, and every
update of the table other than `on_measure_done` either keeps a slot's measurement or clears the
slot. `table_after_slot` is the summary the invariants use.
-/

namespace LinkFPGA

/-! ## One record -/

/-- The fields of a record that no payload entry writes. -/
def Peer.identity (p : Peer) : Bool × LinkId × Bool × Int64 :=
  (p.inUse, p.nodeId, p.measured, p.ghostOffset)

theorem handle_entry_identity (key : UInt32) (v : List UInt8) (p : Peer) :
    (handleEntry key v p).1.identity = p.identity := by
  -- the projection is pushed through the chain of keys: every branch then reads the same fields
  simp only [handleEntry, apply_ite Prod.fst, apply_ite Peer.identity]
  simp only [Peer.identity, ite_self]

/-- The session after an entry: only a `sess` entry of eight bytes writes it. -/
theorem handle_entry_session (key : UInt32) (v : List UInt8) (p : Peer) :
    (handleEntry key v p).1.sessionId =
      if key = keySess ∧ v.length = 8 then .ofBytes v else p.sessionId := by
  have hother : keySess ≠ keyTmln := by decide
  simp only [handleEntry, apply_ite Prod.fst, apply_ite Peer.sessionId, ite_self, ite_not, ite_and]
  by_cases hkey : key = keyTmln
  · rw [if_pos hkey, if_neg fun h => hother (h.symm.trans hkey)]
  · rw [if_neg hkey]

/-- The timeline after an entry. -/
theorem handle_entry_timeline (key : UInt32) (v : List UInt8) (p : Peer) :
    (handleEntry key v p).1.timeline =
      if key = keyTmln ∧ v.length = 24 then decodeTmln v else p.timeline := by
  simp only [handleEntry, apply_ite Prod.fst, apply_ite Peer.timeline, ite_self, ite_not, ite_and]

/-- The start/stop state after an entry. -/
theorem handle_entry_startstop (key : UInt32) (v : List UInt8) (p : Peer) :
    (handleEntry key v p).1.startstop =
      if key = keyStst ∧ v.length = 17 then decodeStst v else p.startstop := by
  have hother : keyStst ≠ keyTmln ∧ keyStst ≠ keySess := by decide
  simp only [handleEntry, apply_ite Prod.fst, apply_ite Peer.startstop, ite_self, ite_not, ite_and]
  by_cases hkey : key = keyStst
  · subst hkey
    rw [if_neg hother.1, if_neg hother.2]
  · rw [if_neg hkey, ite_self, ite_self]

/-- Whether an entry is accepted depends on its key and size alone. -/
theorem handle_entry_code (key : UInt32) (v : List UInt8) (p q : Peer) :
    (handleEntry key v p).2 = (handleEntry key v q).2 := by
  simp only [handleEntry, apply_ite Prod.snd]

/-- A datagram leaves the measurement fields of the sender's record alone. -/
theorem update_peer_identity (now : UInt64) (buf : List UInt8) (p : Peer) :
    (updatePeer now buf p).identity = p.identity := by
  have hexpiry : (updatePeer now buf p).identity =
      (tlvWalk handleEntry (messageBody buf) p).1.identity := by
    unfold updatePeer Peer.identity
    rfl
  have hstart : p.identity = p.identity := rfl
  rw [hexpiry]
  exact tlv_walk_induct (P := fun q : Peer => q.identity = p.identity) (messageBody buf) hstart
    fun entry _ q hq => (handle_entry_identity entry.1 entry.2 q).trans hq

/-- The measurement fields of the sender's record, one by one. -/
theorem update_peer_measurement (now : UInt64) (buf : List UInt8) (p : Peer) :
    (updatePeer now buf p).inUse = p.inUse ∧ (updatePeer now buf p).nodeId = p.nodeId ∧
      (updatePeer now buf p).measured = p.measured ∧
      (updatePeer now buf p).ghostOffset = p.ghostOffset := by
  have hid := update_peer_identity now buf p
  unfold Peer.identity at hid
  simpa only [Prod.mk.injEq] using hid

/-- The session a payload leaves in the sender's record. -/
theorem update_peer_session_eq (now : UInt64) (buf : List UInt8) (p : Peer) :
    (updatePeer now buf p).sessionId = (tlvWalk handleEntry (messageBody buf) p).1.sessionId := by
  unfold updatePeer
  rfl

/-- The session of the sender's record is the old one or one the datagram announces. -/
theorem update_peer_session (now : UInt64) (buf : List UInt8) (p : Peer) :
    (updatePeer now buf p).sessionId = p.sessionId ∨
      ∃ v, (keySess, v) ∈ tlvEntries (messageBody buf) ∧ v.length = 8 ∧
        (updatePeer now buf p).sessionId = .ofBytes v := by
  let P : Peer → Prop := fun q => q.sessionId = p.sessionId ∨
    ∃ v, (keySess, v) ∈ tlvEntries (messageBody buf) ∧ v.length = 8 ∧ q.sessionId = .ofBytes v
  have hstart : P p := .inl rfl
  rw [update_peer_session_eq]
  refine tlv_walk_induct (messageBody buf) hstart ?_
  rintro ⟨key, v⟩ hmem q hq
  dsimp only [P]
  rw [handle_entry_session]
  split
  · rename_i h
    obtain ⟨rfl, hlen⟩ := h
    exact .inr ⟨v, hmem, hlen, rfl⟩
  · exact hq

/-- What a payload does to a record's session depends on that session alone. -/
theorem update_peer_session_congr {p q : Peer} (h : p.sessionId = q.sessionId)
    (now now' : UInt64) (buf : List UInt8) :
    (updatePeer now buf p).sessionId = (updatePeer now' buf q).sessionId := by
  have hentry (key : UInt32) (v : List UInt8) (p q : Peer) (h : p.sessionId = q.sessionId) :
      (handleEntry key v p).1.sessionId = (handleEntry key v q).1.sessionId ∧
        (handleEntry key v p).2 = (handleEntry key v q).2 := by
    rw [handle_entry_session, handle_entry_session, h]
    exact ⟨rfl, handle_entry_code key v p q⟩
  rw [update_peer_session_eq, update_peer_session_eq]
  exact tlv_walk_rel (R := fun p q : Peer => p.sessionId = q.sessionId) hentry (messageBody buf) h

/-! ## One slot -/

/-- A slot of the table after a node's slot was found or allocated: its old content, or a fresh
record in the slot that was allocated. -/
theorem find_or_alloc_slot {peers table : List Peer} {id : LinkId} {i : Nat}
    (h : findOrAllocPeer peers id = some (table, i)) {k : Nat} {q : Peer}
    (hk : table[k]? = some q) :
    ∃ p, peers[k]? = some p ∧ (q = p ∨ k = i ∧ q = .fresh id) := by
  unfold findOrAllocPeer at h
  split at h
  · cases h
    exact ⟨q, hk, .inl rfl⟩
  · rw [Option.map_eq_some_iff] at h
    obtain ⟨j, _, h⟩ := h
    cases h
    rw [List.getElem?_set] at hk
    split at hk
    · rename_i hki
      split at hk
      · rename_i hlt
        subst hki
        cases hk
        exact ⟨_, List.getElem?_eq_getElem hlt, .inr ⟨rfl, rfl⟩⟩
      · cases hk
    · exact ⟨q, hk, .inl rfl⟩

/-- The slot that `find_or_alloc_peer` returns is in use by the node. -/
theorem find_or_alloc_index {peers table : List Peer} {id : LinkId} {i : Nat}
    (h : findOrAllocPeer peers id = some (table, i)) :
    ∃ p, table[i]? = some p ∧ p.inUse = true ∧ p.nodeId = id := by
  unfold findOrAllocPeer at h
  split at h
  · rename_i j hj
    cases h
    obtain ⟨hlt, hp, _⟩ := List.findIdx?_eq_some_iff_getElem.mp hj
    exact ⟨peers[i], List.getElem?_eq_getElem hlt, by simpa using hp⟩
  · rw [Option.map_eq_some_iff] at h
    obtain ⟨j, hj, h⟩ := h
    cases h
    obtain ⟨hlt, _⟩ := List.findIdx?_eq_some_iff_getElem.mp hj
    exact ⟨.fresh id, by rw [List.getElem?_set_self hlt], rfl, rfl⟩

/-- How a slot of the table arises from the table before an event that completes no
measurement. -/
inductive SlotUpdate (w : World) (e : Event) (p : Peer) : Peer → Prop where
  | kept : SlotUpdate w e p p
  | cleared : SlotUpdate w e p .zero
  | heard (buf : List UInt8) (srcAddr : UInt32) (srcPort : UInt16) :
      e = .udp buf srcAddr srcPort → headerAccepted w.linkSelfId buf = true →
      messageType buf = 1 ∨ messageType buf = 2 →
      (p.inUse = true ∧ p.nodeId = messageIdent buf) →
      SlotUpdate w e p (updatePeer w.clock.now buf p)
  | joined (buf : List UInt8) :
      SlotUpdate w e p (updatePeer w.clock.now buf (.fresh (messageIdent buf)))

/-- A BYEBYE clears the sender's slot and keeps the others. -/
theorem evict_slot {w : World} {e : Event} {id : LinkId} {k : Nat} {p' : Peer}
    (h : (evictPeer w.linkPeers id)[k]? = some p') :
    ∃ p, w.linkPeers[k]? = some p ∧ SlotUpdate w e p p' := by
  unfold evictPeer at h
  split at h
  · rw [List.getElem?_set] at h
    split at h
    · rename_i hki
      split at h
      · rename_i hlt
        subst hki
        cases h
        exact ⟨_, List.getElem?_eq_getElem hlt, .cleared⟩
      · cases h
    · exact ⟨p', h, .kept⟩
  · exact ⟨p', h, .kept⟩

/-- An ALIVE or RESPONSE updates the sender's slot and keeps the others. -/
theorem observe_slot {w : World} {buf : List UInt8} {srcAddr : UInt32} {srcPort : UInt16}
    {peers : List Peer} {i k : Nat} {p' : Peer}
    (hheader : headerAccepted w.linkSelfId buf = true)
    (hstate : messageType buf = 1 ∨ messageType buf = 2)
    (hobs : observe w.linkPeers w.clock.now buf = some (peers, i)) (h : peers[k]? = some p') :
    ∃ p, w.linkPeers[k]? = some p ∧ SlotUpdate w (.udp buf srcAddr srcPort) p p' := by
  obtain ⟨⟨table, slot⟩, hfound, hpair⟩ := Option.map_eq_some_iff.mp hobs
  cases hpair
  rw [List.getElem?_modify] at h
  obtain ⟨q, hq, h⟩ := Option.map_eq_some_iff.mp h
  obtain ⟨p, hp, hqp⟩ := find_or_alloc_slot hfound hq
  refine ⟨p, hp, ?_⟩
  by_cases hki : i = k
  · subst hki
    rw [if_pos rfl] at h
    subst h
    rcases hqp with rfl | ⟨_, rfl⟩
    · obtain ⟨q', hq', hmine⟩ := find_or_alloc_index hfound
      cases hq.symm.trans hq'
      exact .heard buf srcAddr srcPort rfl hheader hstate hmine
    · exact .joined buf
  · rw [if_neg hki] at h
    rcases hqp with rfl | ⟨hik, _⟩
    · exact h ▸ .kept
    · exact absurd hik.symm hki

/-- Every slot of the table after an event is an update of the same slot before it. -/
theorem table_after_slot (w : World) (e : Event) {k : Nat} {p' : Peer}
    (h : (tableAfter w e)[k]? = some p') :
    ∃ p, w.linkPeers[k]? = some p ∧ SlotUpdate w e p p' := by
  cases e with
  | udp buf srcAddr srcPort =>
      unfold tableAfter at h
      dsimp only at h
      split at h
      · rename_i hheader
        split at h
        · exact evict_slot h
        · split at h
          · rename_i hstate
            split at h
            · exact ⟨p', h, .kept⟩
            · rename_i peers i hobs
              exact observe_slot hheader hstate hobs h
          · exact ⟨p', h, .kept⟩
      · exact ⟨p', h, .kept⟩
  | linkTick =>
      simp only [tableAfter, List.getElem?_map, Option.map_eq_some_iff] at h
      obtain ⟨p, hp, h⟩ := h
      refine ⟨p, hp, ?_⟩
      split at h
      · exact h ▸ .cleared
      · exact h ▸ .kept
  | sessionTick | setLocalTempo | setPlay | euroReset | broadcastAliveNow | localAddress =>
      exact ⟨p', h, .kept⟩

/-- Marking peers as measured moves no node to another slot. -/
theorem peer_index_mark (session : LinkId) (intercept : Int64) (peers : List Peer) (id : LinkId) :
    peerIndex (peers.map (markMeasured session intercept)) id = peerIndex peers id := by
  unfold peerIndex
  rw [List.findIdx?_map]
  congr 1
  funext p
  unfold markMeasured
  rw [Function.comp_apply]
  split <;> rfl

/-- An ALIVE or RESPONSE of a known node updates the node's slot. -/
theorem step_heard {w : World} {buf : List UInt8} {srcAddr : UInt32} {srcPort : UInt16}
    (hheader : headerAccepted w.linkSelfId buf = true)
    (htype : messageType buf = 1 ∨ messageType buf = 2) {i : Nat}
    (hindex : peerIndex w.linkPeers (messageIdent buf) = some i) :
    (step w (.udp buf srcAddr srcPort)).linkPeers =
      w.linkPeers.modify i (updatePeer w.clock.now buf) := by
  have hbye : messageType buf ≠ 3 := by
    rcases htype with h | h <;> rw [h] <;> decide
  rw [(step_discovery hheader).peers]
  simp [tableAfter, hheader, hbye, htype, observe, findOrAllocPeer, hindex]

end LinkFPGA
