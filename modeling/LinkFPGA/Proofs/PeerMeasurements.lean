import LinkFPGA.Proofs.SessionTracking

/-!
# What a measured peer has been measured for

`measured` and `ghost_offset` are stored with a peer but describe the session it was in when the
measurement completed. `measured_peer_was_reported` says that they describe its present session
in every run in which no request clashes with a measurement in flight (see `SessionTracking`)
and no measured peer announces another session; a session taken for known has then been
measured. `measured_peer_moves` is a run in which a measured peer changes its session and takes
the mark along.

Read `Provenance` first: it relates the peer table to the successful measurements so far, and
`step_provenance` is the step of the induction.
-/

namespace LinkFPGA

open Runs

/-- Every `sess` entry of a datagram names the session of the sender's record, if that record is
marked as measured. -/
def KeepsSession (peers : List Peer) (buf : List UInt8) : Prop :=
  ∀ p ∈ peers, p.inUse = true → p.nodeId = messageIdent buf → p.measured = true →
    ∀ entry ∈ tlvEntries (messageBody buf), entry.1 = keySess → entry.2.length = 8 →
      LinkId.ofBytes entry.2 = p.sessionId

instance (peers : List Peer) (buf : List UInt8) : Decidable (KeepsSession peers buf) :=
  inferInstanceAs (Decidable (∀ p ∈ peers, p.inUse = true → _))

/-- The event makes no clashing request and moves no measured peer to another session. -/
def Settled (w : World) (e : Event) : Prop :=
  Unclashing w e ∧
    match e with
    | .udp buf _ _ =>
        headerAccepted w.linkSelfId buf = true → messageType buf = 1 ∨ messageType buf = 2 →
          KeepsSession w.linkPeers buf
    | _ => True

instance (w : World) : ∀ e : Event, Decidable (Settled w e)
  | .udp buf _ _ => inferInstanceAs (Decidable (_ ∧ (headerAccepted w.linkSelfId buf = true → _)))
  | .linkTick | .sessionTick | .setLocalTempo _ | .setPlay _ | .euroReset | .broadcastAliveNow
  | .localAddress _ _ => inferInstanceAs (Decidable (_ ∧ True))

/-- Every measured peer carries the intercept of a successful measurement of its session. -/
def Provenance (w : World) (past : List (LinkId × Int64)) : Prop :=
  ∀ p ∈ w.linkPeers, p.inUse = true → p.measured = true → (p.sessionId, p.ghostOffset) ∈ past

/-! ## One slot -/

/-- A settled event that completes no measurement keeps the session of a slot it keeps
measured. -/
theorem SlotUpdate.measured_session {w : World} {e : Event} {p p' : Peer}
    (h : SlotUpdate w e p p') (hp : p ∈ w.linkPeers) (hguard : Settled w e)
    (hmeasured : p'.measured = true) :
    p.measured = true ∧ p.inUse = p'.inUse ∧ p.sessionId = p'.sessionId ∧
      p.ghostOffset = p'.ghostOffset := by
  obtain ⟨hm, ho⟩ := h.unmarked hmeasured
  refine ⟨hm, ?_, ?_, ho⟩
  · cases h with
    | kept => rfl
    | cleared => cases hmeasured
    | heard buf srcAddr srcPort _ _ _ _ =>
        exact (update_peer_measurement w.clock.now buf p).1.symm
    | joined buf =>
        have hfresh := update_peer_measurement w.clock.now buf (.fresh (messageIdent buf))
        rw [hfresh.2.2.1] at hmeasured
        cases hmeasured
  · cases h with
    | kept => rfl
    | cleared => cases hmeasured
    | heard buf srcAddr srcPort he hheader htype hmine =>
        subst he
        rcases update_peer_session w.clock.now buf p with hsame | ⟨v, hentry, hlen, hnew⟩
        · exact hsame.symm
        · have hkept := hguard.2 hheader htype p hp hmine.1 hmine.2 hm (keySess, v) hentry rfl hlen
          exact (hnew.trans hkept).symm
    | joined buf =>
        have hfresh := update_peer_measurement w.clock.now buf (.fresh (messageIdent buf))
        rw [hfresh.2.2.1] at hmeasured
        cases hmeasured

/-! ## One event -/

/-- The table a settled event leaves, if it completes no measurement, keeps the provenance of
every measured peer. -/
theorem table_after_provenance {w : World} {past : List (LinkId × Int64)} {e : Event}
    (hinv : Provenance w past) (hguard : Settled w e) {p' : Peer} (hmem : p' ∈ tableAfter w e)
    (hinuse : p'.inUse = true) (hmeasured : p'.measured = true) :
    (p'.sessionId, p'.ghostOffset) ∈ past := by
  obtain ⟨k, hk⟩ := List.mem_iff_getElem?.mp hmem
  obtain ⟨p, hp, hupdate⟩ := table_after_slot w e hk
  have hp : p ∈ w.linkPeers := List.mem_of_getElem? hp
  obtain ⟨hm, hu, hs, ho⟩ := hupdate.measured_session hp hguard hmeasured
  have hpast := hinv p hp (hu.trans hinuse) hm
  rwa [hs, ho] at hpast

/-- A settled event keeps the provenance of every measured peer. -/
theorem step_provenance {w : World} {past : List (LinkId × Int64)} {e : Event}
    (htracked : Tracked w) (hinv : Provenance w past) (hguard : Settled w e) :
    Provenance (step w e) (past ++ reports w e) := by
  intro p' hmem hinuse hmeasured
  rw [List.mem_append]
  rcases step_cases w e with ⟨_, hstep⟩ | ⟨intercept, hreports, hdone⟩
  · rw [hstep.peers] at hmem
    exact .inl (table_after_provenance hinv hguard hmem hinuse hmeasured)
  · have hactive := (reports_active (hreports ▸ List.mem_singleton_self _)).1
    rw [hdone.peers, List.mem_map] at hmem
    obtain ⟨p, hp, rfl⟩ := hmem
    by_cases hin : p.inUse = true ∧ p.sessionId = w.sActiveTargetSession
    · right
      rw [hreports, markMeasured, if_pos hin, List.mem_singleton, ← htracked hactive, hin.2]
    · left
      rw [markMeasured, if_neg hin] at hinuse hmeasured ⊢
      exact hinv p hp hinuse hmeasured

/-- No peer is known at boot. -/
theorem boot_provenance (reading : Nat → UInt64) (v4 : UInt32) (v6 : List UInt8) :
    Provenance (boot reading v4 v6) [] := by
  intro p hmem hinuse
  have hpeers : (boot reading v4 v6).linkPeers = List.replicate linkMaxPeers .zero :=
    congrArg View.linkPeers (link_init_view (beatPulseInit (powerOn reading v4 v6)))
  rw [hpeers] at hmem
  rw [List.eq_of_mem_replicate hmem] at hinuse
  cases hinuse

/-! ## Runs -/

/-- In a settled run every measured peer carries the intercept of a measurement of its
session. -/
theorem run_provenance {reading : Nat → UInt64} {v4 : UInt32} {v6 : List UInt8}
    {es : List Event} (h : Guarded step Settled (boot reading v4 v6) es) :
    Provenance (runEvents (boot reading v4 v6) es) (log step reports (boot reading v4 v6) es) := by
  have hrun := run_log_induct (motive := fun w past => Tracked w ∧ Provenance w past)
    (fun w past e hinv hguard =>
      ⟨step_tracked hinv.1 hguard.1, step_provenance hinv.1 hinv.2 hguard⟩)
    ⟨boot_tracked reading v4 v6, boot_provenance reading v4 v6⟩ h
  exact hrun.2

/-- A foreign session is taken for known only through a measured peer in it. -/
theorem known_of_foreign {peers : List Peer} {selfSession session : LinkId}
    (hforeign : session ≠ selfSession)
    (hknown : sessionKnownInLocalView peers selfSession session = true) :
    ∃ p ∈ peers, p.inUse = true ∧ p.measured = true ∧ p.sessionId = session := by
  unfold sessionKnownInLocalView at hknown
  rw [Bool.or_eq_true, decide_eq_true_eq, List.any_eq_true] at hknown
  rcases hknown with hself | ⟨p, hmem, hp⟩
  · exact absurd hself hforeign
  · exact ⟨p, hmem, of_decide_eq_true hp⟩

/-- The first measurement of a foreign session is asked for as soon as one of its peers is
heard, if the peer to ask has an address. -/
theorem Provenance.first_request {w : World} {past : List (LinkId × Int64)}
    (hinv : Provenance w past) {buf : List UInt8} {srcAddr : UInt32} {srcPort : UInt16}
    (hguard : Settled w (.udp buf srcAddr srcPort))
    (hheader : headerAccepted w.linkSelfId buf = true)
    (htype : messageType buf = 1 ∨ messageType buf = 2) {peers : List Peer} {i : Nat}
    (hobs : observe w.linkPeers w.clock.now buf = some (peers, i)) {p target : Peer}
    (hp : peers[i]? = some p) (hforeign : p.sessionId ≠ w.linkSelfSession)
    (hfirst : ∀ intercept, (p.sessionId, intercept) ∉ past)
    (hfounder : findFounder peers p.sessionId = some target) (haddr : target.mep4Addr ≠ 0) :
    requested w (.udp buf srcAddr srcPort) = some (p.sessionId, target) := by
  have htable : tableAfter w (.udp buf srcAddr srcPort) = peers := by
    have hbye : messageType buf ≠ 3 := by
      rcases htype with h | h <;> rw [h] <;> decide
    simp [tableAfter, hheader, hbye, htype, hobs]
  have hunknown : sessionKnownInLocalView peers w.linkSelfSession p.sessionId = false := by
    rw [Bool.eq_false_iff]
    intro hknown
    obtain ⟨q, hq, hinuse, hmeasured, hsession⟩ := known_of_foreign hforeign hknown
    have hpast := table_after_provenance hinv hguard (htable ▸ hq) hinuse hmeasured
    exact hfirst q.ghostOffset (hsession ▸ hpast)
  simp [requested, hheader, htype, hobs, observeRequest, hp, hunknown, hfounder, haddr]

/-- In every settled run a measured peer carries the intercept of a successful measurement of the
session it is in; a foreign session is taken for known only once it has been measured; and the
first measurement of a session is never suppressed. -/
theorem measured_peer_was_reported (reading : Nat → UInt64) (v4 : UInt32) (v6 : List UInt8)
    (es : List Event) (h : Guarded step Settled (boot reading v4 v6) es) :
    let w := runEvents (boot reading v4 v6) es
    let past := log step reports (boot reading v4 v6) es
    (∀ p ∈ w.linkPeers, p.inUse = true → p.measured = true →
      (p.sessionId, p.ghostOffset) ∈ past) ∧
    (∀ session, session ≠ w.linkSelfSession →
      sessionKnownInLocalView w.linkPeers w.linkSelfSession session = true →
      ∃ intercept, (session, intercept) ∈ past) ∧
    (∀ (buf : List UInt8) (srcAddr : UInt32) (srcPort : UInt16) (peers : List Peer) (i : Nat)
      (p target : Peer), Settled w (.udp buf srcAddr srcPort) →
      headerAccepted w.linkSelfId buf = true → messageType buf = 1 ∨ messageType buf = 2 →
      observe w.linkPeers w.clock.now buf = some (peers, i) → peers[i]? = some p →
      p.sessionId ≠ w.linkSelfSession → (∀ intercept, (p.sessionId, intercept) ∉ past) →
      findFounder peers p.sessionId = some target → target.mep4Addr ≠ 0 →
      requested w (.udp buf srcAddr srcPort) = some (p.sessionId, target)) := by
  intro w past
  have hinv : Provenance w past := run_provenance h
  refine ⟨hinv, ?_, ?_⟩
  · intro session hforeign hknown
    obtain ⟨p, hp, hinuse, hmeasured, rfl⟩ := known_of_foreign hforeign hknown
    exact ⟨p.ghostOffset, hinv p hp hinuse hmeasured⟩
  · intro buf srcAddr srcPort peers i p target hguard hheader htype hobs hp hforeign hfirst
      hfounder haddr
    exact hinv.first_request hguard hheader htype hobs hp hforeign hfirst hfounder haddr

/-! ## A node that is measured and then moves -/

/-- One PONG before the end of the first node's measurement. -/
theorem node_a_almost_measured :
    let w := runEvents nodeSelf (measuringA 50)
    log step reports nodeSelf (measuringA 50) = [] ∧ w.linkSelfId = nodeSelf.linkSelfId ∧
      w.sActiveTargetSession = nodeA.linkSelfSession ∧
      reports w (pongFrom nodeA) ≠ [] ∧
      w.meas.targetSession = nodeA.linkSelfSession ∧
      peerIndex w.linkPeers nodeA.linkSelfId = some 0 ∧
      (w.linkPeers[0]?.map fun p => (p.inUse, p.sessionId)) =
        some (true, nodeA.linkSelfSession) := by
  decide +kernel

/-- The PONG that completes the measurement of the first node's session marks that node. -/
theorem node_a_measured :
    let w := runEvents nodeSelf (measuringA 51)
    ∃ intercept p, log step reports nodeSelf (measuringA 51) =
        [(nodeA.linkSelfSession, intercept)] ∧ w.linkSelfId = nodeSelf.linkSelfId ∧
      peerIndex w.linkPeers nodeA.linkSelfId = some 0 ∧ w.linkPeers[0]? = some p ∧
      p.inUse = true ∧ p.measured = true ∧ p.sessionId = nodeA.linkSelfSession := by
  obtain ⟨hlog, hid, htarget, hreport, hmeas, hindex, hslot⟩ := node_a_almost_measured
  have hsplit : measuringA 51 = measuringA 50 ++ [pongFrom nodeA] := by
    rw [measuringA, measuringA, List.replicate_succ' (n := 50), List.cons_append]
  generalize hw : runEvents nodeSelf (measuringA 50) = w at *
  change run step nodeSelf (measuringA 50) = w at hw
  obtain ⟨p, hp, hpair⟩ := Option.map_eq_some_iff.mp hslot
  obtain ⟨hinuse, hsession⟩ := Prod.mk.inj hpair
  have hrun : runEvents nodeSelf (measuringA 51) = step w (pongFrom nodeA) := by
    rw [hsplit, runEvents, run_append, hw, run_cons, run_nil]
  rcases step_cases w (pongFrom nodeA) with ⟨hnone, _⟩ | ⟨intercept, hreports, hdone⟩
  · exact absurd hnone hreport
  · have hmark : markMeasured w.sActiveTargetSession intercept p =
        { p with
          measured := true
          ghostOffset := intercept } := by
      rw [markMeasured, if_pos ⟨hinuse, hsession.trans htarget.symm⟩]
    refine ⟨intercept, markMeasured w.sActiveTargetSession intercept p, ?_, ?_, ?_, ?_, ?_⟩
    · rw [hsplit, log_append, hlog, hw, log_cons, log_nil, List.nil_append, List.append_nil,
        hreports, hmeas]
    · rw [hrun, hdone.selfId, hid]
    · rw [hrun, hdone.peers, peer_index_mark, hindex]
    · rw [hrun, hdone.peers, List.getElem?_map, hp, Option.map_some]
    · rw [hmark]
      exact ⟨hinuse, rfl, hsession⟩

/-- The first node's announcement once it has joined the second node's session. -/
def nodeAMoved : List UInt8 :=
  encodeMsg { nodeA with linkSelfSession := nodeB.linkSelfSession } 1 true

/-- One node in a session of its own, announced and measured. -/
theorem measured_peer_was_reported_alone :
    ∃ intercept, (nodeA.linkSelfSession, intercept) ∈
      log step reports nodeSelf (measuringA 51) := by
  have hguard : Guarded step Settled nodeSelf (measuringA 51) := by decide +kernel
  obtain ⟨_, p, _, _, _, hp, hinuse, hmeasured, hsession⟩ := node_a_measured
  have hpast := (measured_peer_was_reported (ticking 1000) 0x0A000001 (List.replicate 16 0)
    (measuringA 51) hguard).1 p (List.mem_of_getElem? hp) hinuse hmeasured
  exact ⟨p.ghostOffset, hsession ▸ hpast⟩

/-- A measured peer that announces the session of another node keeps its mark and its offset,
and the session it joins is taken for known without ever having been measured. -/
theorem measured_peer_moves :
    ¬ ∀ (reading : Nat → UInt64) (v4 : UInt32) (v6 : List UInt8) (es : List Event),
      let w := runEvents (boot reading v4 v6) es
      ∀ p ∈ w.linkPeers, p.inUse = true → p.measured = true →
        (p.sessionId, p.ghostOffset) ∈ log step reports (boot reading v4 v6) es := by
  intro h
  obtain ⟨intercept, p, hlog, hid, hindex, hp, hinuse, hmeasured, hsession⟩ := node_a_measured
  have hrun := h (ticking 1000) 0x0A000001 (List.replicate 16 0)
    (measuringA 51 ++ [.udp nodeAMoved nodeA.localIpv4 linkDiscoveryPort])
  change ∀ p ∈ (runEvents nodeSelf (measuringA 51 ++ [_])).linkPeers, p.inUse = true →
    p.measured = true → (p.sessionId, p.ghostOffset) ∈ log step reports nodeSelf _ at hrun
  have hmoved : messageIdent nodeAMoved = nodeA.linkSelfId ∧ messageType nodeAMoved = 1 ∧
      headerAccepted nodeSelf.linkSelfId nodeAMoved = true ∧
      (updatePeer 0 nodeAMoved { Peer.zero with sessionId := nodeA.linkSelfSession }).sessionId =
        nodeB.linkSelfSession ∧ nodeB.linkSelfSession ≠ nodeA.linkSelfSession := by
    decide +kernel
  obtain ⟨hident, htype, hheader, hnew, hne⟩ := hmoved
  rw [runEvents, run_append, log_append, hlog, run_cons, run_nil, log_cons, log_nil] at hrun
  change ∀ p ∈ (step (runEvents nodeSelf (measuringA 51)) _).linkPeers, p.inUse = true →
    p.measured = true →
      (p.sessionId, p.ghostOffset) ∈ _ ++ (reports (runEvents nodeSelf (measuringA 51)) _ ++ [])
    at hrun
  generalize runEvents nodeSelf (measuringA 51) = w at *
  have hpeers : (step w (.udp nodeAMoved nodeA.localIpv4 linkDiscoveryPort)).linkPeers =
      w.linkPeers.modify 0 (updatePeer w.clock.now nodeAMoved) :=
    step_heard (hid ▸ hheader) (.inl htype) (hident ▸ hindex)
  have hquiet : reports w (.udp nodeAMoved nodeA.localIpv4 linkDiscoveryPort) = [] :=
    reports_discovery (hid ▸ hheader)
  set q := updatePeer w.clock.now nodeAMoved p with hq
  obtain ⟨hu, _, hm, _⟩ := update_peer_measurement w.clock.now nodeAMoved p
  have hmem : q ∈ w.linkPeers.modify 0 (updatePeer w.clock.now nodeAMoved) := by
    refine List.mem_of_getElem? (i := 0) ?_
    simp only [List.getElem?_modify, if_true, hp, Option.map_eq_map, Option.map_some, hq]
  have hjoined : q.sessionId = nodeB.linkSelfSession := by
    rw [hq, update_peer_session_congr (q := { Peer.zero with sessionId := nodeA.linkSelfSession })
      hsession w.clock.now 0 nodeAMoved, hnew]
  rw [hpeers, hquiet] at hrun
  have hmem := hrun q hmem (hu.trans hinuse) (hm.trans hmeasured)
  rw [hjoined] at hmem
  simp [hne] at hmem

end LinkFPGA
