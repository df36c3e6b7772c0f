import Mathlib.Data.Int.ConditionallyCompleteOrder
import Mathlib.Data.List.MinMax
import LinkFPGA.Proofs.DiscoveryCodec
import LinkFPGA.Proofs.Tempo

/-!
# What a node adopts with a session

When `on_measure_done` switches, it looks for the peer of the new session whose timeline has the
latest origin. `best_peer_eq_argmax` says that its loop is the `argmax` over the peers that claim
the session, and `adopted_timeline_latest` what the node's timeline is afterwards. There may be no
such peer: the last one may have left while the measurement was running, as in
`adopted_from_nobody`, and then the node keeps its timeline.
-/

namespace LinkFPGA

open Runs

/-- A peer in use that claims the session. -/
def Peer.Claims (session : LinkId) (p : Peer) : Prop := p.inUse = true ∧ p.sessionId = session

instance (session : LinkId) : DecidablePred (Peer.Claims session) :=
  fun p => inferInstanceAs (Decidable (p.inUse = true ∧ p.sessionId = session))

/-- The origin of a peer's timeline, as a number. -/
def Peer.origin (p : Peer) : Int := p.timeline.timeOriginUsGhost.toInt

/-- The scan of `on_measure_done` finds the first latest timeline among the session's peers. -/
theorem best_peer_eq_argmax (peers : List Peer) (session : LinkId) :
    bestPeer peers session = (peers.filter (Peer.Claims session)).argmax Peer.origin := by
  rw [List.argmax, List.foldl_filter, bestPeer]
  congr 1
  funext best p
  by_cases hclaims : p.inUse = true ∧ p.sessionId = session
  · have hclaims' : Peer.Claims session p := hclaims
    rw [if_pos hclaims, if_pos (decide_eq_true hclaims')]
    cases best with
    | none => rfl
    | some b =>
        simp only [List.argAux, Peer.origin, Int64.lt_iff_toInt_lt]
        rfl
  · have hclaims' : ¬ Peer.Claims session p := hclaims
    rw [if_neg hclaims, if_neg (by simpa using hclaims')]

/-- What the scan finds claims the session, and no other peer of it has a later timeline. -/
theorem best_peer_latest {peers : List Peer} {session : LinkId} {best : Peer}
    (h : bestPeer peers session = some best) :
    (best ∈ peers ∧ best.Claims session) ∧ ∀ p ∈ peers, p.Claims session →
      p.timeline.timeOriginUsGhost ≤ best.timeline.timeOriginUsGhost := by
  rw [best_peer_eq_argmax] at h
  obtain ⟨hmem, hclaims⟩ := List.mem_filter.mp (List.argmax_mem h)
  refine ⟨⟨hmem, by simpa using hclaims⟩, fun p hp hpclaims => ?_⟩
  have hle := List.le_of_mem_argmax (List.mem_filter.mpr ⟨hp, decide_eq_true hpclaims⟩) h
  exact Int64.le_iff_toInt_le.mpr hle

/-- The scan finds nobody exactly when nobody claims the session. -/
theorem best_peer_none_iff {peers : List Peer} {session : LinkId} :
    bestPeer peers session = none ↔ ∀ p ∈ peers, ¬ p.Claims session := by
  rw [best_peer_eq_argmax, List.argmax_eq_none, List.filter_eq_nil_iff]
  simp

/-- Some peer in use claims the node's session. -/
def Accompanied (w : World) : Prop := ∃ p ∈ w.linkPeers, p.Claims w.linkSelfSession

/-- The node's timeline is the one with the latest origin among the peers of its session. -/
def LatestTimeline (w : World) : Prop :=
  ∃ p ∈ w.linkPeers, p.Claims w.linkSelfSession ∧ w.linkSelfTimeline = p.timeline ∧
    ∀ q ∈ w.linkPeers, q.Claims w.linkSelfSession →
      q.timeline.timeOriginUsGhost ≤ p.timeline.timeOriginUsGhost

/-- The node's start/stop state is the one with the latest timestamp among the peers of its
session. -/
def LatestStartstop (w : World) : Prop :=
  ∃ p ∈ w.linkPeers, p.Claims w.linkSelfSession ∧ w.linkSelfStartstop = p.startstop ∧
    ∀ q ∈ w.linkPeers, q.Claims w.linkSelfSession →
      q.startstop.timestampUsGhost ≤ p.startstop.timestampUsGhost

/-- Whether a successful measurement of `intercept` makes the node switch. -/
def Switches (w : World) (intercept : Int64) : Prop :=
  switchToNew (ghostDiff intercept w) w.sActiveTargetSession w.linkSelfSession = true

/-- A node that takes a session over copies both records of its best peer, if it has one. -/
theorem adopt_session_records (intercept : Int64) (w : World) :
    let best := bestPeer w.linkPeers w.sActiveTargetSession
    (adoptSession intercept w).linkPeers = w.linkPeers ∧
      (adoptSession intercept w).linkSelfSession = w.sActiveTargetSession ∧
      (adoptSession intercept w).linkSelfTimeline =
        (best.map Peer.timeline).getD w.linkSelfTimeline ∧
      (adoptSession intercept w).linkSelfStartstop =
        (best.map Peer.startstop).getD w.linkSelfStartstop := by
  intro best
  unfold adoptSession
  dsimp only
  split
  · rename_i hbest
    rw [show best = none from hbest]
    exact ⟨rfl, rfl, rfl, rfl⟩
  · rename_i p hbest
    rw [show best = some p from hbest]
    exact ⟨rfl, rfl, rfl, rfl⟩

/-- The state in which the peers of the session measured are marked. -/
def markSession (intercept : Int64) (w : World) : World :=
  { w.advance with linkPeers := w.linkPeers.map (markMeasured w.sActiveTargetSession intercept) }

/-- A measurement that makes the node switch marks the peers and takes the session over. -/
theorem on_measure_done_switches {w : World} {intercept : Int64} (h : Switches w intercept) :
    ∃ now, onMeasureDone true intercept w =
      { (adoptSession intercept (markSession intercept w)).advance with
        sLastRemeasureUs := now } := by
  have hswitch : switchToNew (ghostDiff intercept w) w.sActiveTargetSession w.linkSelfSession =
      true := h
  refine ⟨(adoptSession intercept (markSession intercept w)).clock.now, ?_⟩
  unfold onMeasureDone
  simp only [Bool.not_true, Bool.false_eq_true, if_false, hswitch, if_true]
  rfl

/-- In every state in which `on_measure_done` switches, the node's timeline afterwards is the
latest of the new session's peers in use, if there is one; otherwise its timeline and its
start/stop state stay as they were. -/
theorem adopted_timeline_latest {w : World} {intercept : Int64} (h : Switches w intercept) :
    let w' := onMeasureDone true intercept w
    w'.linkSelfSession = w.sActiveTargetSession ∧ (Accompanied w' → LatestTimeline w') ∧
      (¬ Accompanied w' → w'.linkSelfTimeline = w.linkSelfTimeline ∧
        w'.linkSelfStartstop = w.linkSelfStartstop) := by
  obtain ⟨now, hdone⟩ := on_measure_done_switches h
  obtain ⟨hpeers, hsession, htimeline, hstartstop⟩ :=
    adopt_session_records intercept (markSession intercept w)
  rw [hdone]
  set adopted := adoptSession intercept (markSession intercept w)
  intro w'
  have hpeers' : w'.linkPeers = (markSession intercept w).linkPeers := hpeers
  have hsession' : w'.linkSelfSession = w.sActiveTargetSession := hsession
  refine ⟨hsession', fun hsome => ?_, fun hnobody => ?_⟩
  · cases hbest : bestPeer (markSession intercept w).linkPeers w.sActiveTargetSession with
    | none =>
        obtain ⟨p, hp, hclaims⟩ := hsome
        rw [hpeers'] at hp
        rw [hsession'] at hclaims
        exact absurd hclaims (best_peer_none_iff.mp hbest p hp)
    | some best =>
        obtain ⟨⟨hmem, hclaims⟩, hlatest⟩ := best_peer_latest hbest
        have htimeline' : w'.linkSelfTimeline = best.timeline := by
          refine htimeline.trans ?_
          rw [show bestPeer _ (markSession intercept w).sActiveTargetSession = _ from hbest]
          rfl
        rw [LatestTimeline, hpeers', hsession']
        exact ⟨best, hmem, hclaims, htimeline', hlatest⟩
  · have hbest : bestPeer (markSession intercept w).linkPeers w.sActiveTargetSession = none := by
      refine best_peer_none_iff.mpr fun p hp hclaims => hnobody ⟨p, ?_, ?_⟩
      · rw [hpeers']
        exact hp
      · rw [hsession']
        exact hclaims
    have hnone : bestPeer (markSession intercept w).linkPeers
        (markSession intercept w).sActiveTargetSession = none := hbest
    rw [hnone] at htimeline hstartstop
    exact ⟨htimeline, hstartstop⟩

instance (w : World) : Decidable (Accompanied w) :=
  inferInstanceAs (Decidable (∃ p ∈ w.linkPeers, p.Claims w.linkSelfSession))

/-- The node under test, with two peers in the session it has just measured. -/
def nodeJoining : World :=
  let peer (origin : Int64) : Peer := { Peer.fresh nodeA.linkSelfId with
    sessionId := nodeA.linkSelfSession
    timeline := ⟨500000, 0, origin⟩ }
  { nodeSelf with
    sActiveTargetSession := nodeA.linkSelfSession
    linkPeers := [peer 5, peer 7] }

/-- The node joins the two with a timeline of theirs. -/
theorem adopted_timeline_latest_joining :
    LatestTimeline (onMeasureDone true 1000000 nodeJoining) := by
  have hswitch : Switches nodeJoining 1000000 := by
    show switchToNew _ _ _ = true
    decide +kernel
  have hsome : Accompanied (onMeasureDone true 1000000 nodeJoining) := by decide +kernel
  exact (adopted_timeline_latest hswitch).2.1 hsome

/-! ## A session that everybody has left -/

/-- The first node's BYEBYE. -/
def byebyeFromA : Event :=
  .udp (discoveryHeader 3 0 nodeA.linkSelfId ++ []) nodeA.localIpv4 linkDiscoveryPort

theorem step_byebye_from_a :
    step almostAhead byebyeFromA =
      { almostAhead with linkPeers := evictPeer almostAhead.linkPeers nodeA.linkSelfId } := by
  obtain ⟨htype, hident, -, haccepted⟩ := discovery_message 3 0 nodeA.linkSelfId []
  have hforeign : nodeA.linkSelfId ≠ almostAhead.linkSelfId := by decide +kernel
  have hlong : ¬ (discoveryHeader 3 0 nodeA.linkSelfId ++ []).length < 8 := by
    simp [discoveryHeader, kProtoHdr]
  have hmagic : (discoveryHeader 3 0 nodeA.linkSelfId ++ []).take 8 = kProtoHdr := rfl
  show onUdpRx _ _ _ _ = _
  rw [onUdpRx, if_neg hlong, if_pos hmagic, linkHandleRx, haccepted, htype, hident]
  simp [hforeign]

/-- The peer table after an event that completes a measurement. -/
theorem step_marks {w : World} {e : Event} {r : LinkId × Int64} (h : reports w e = [r]) :
    (step w e).linkPeers = w.linkPeers.map (markMeasured w.sActiveTargetSession r.2) := by
  rcases step_cases w e with ⟨hnone, -⟩ | ⟨intercept, hsome, hdone⟩
  · rw [hnone] at h
    cases h
  · rw [h, List.singleton_inj] at hsome
    rw [hsome]
    exact hdone.peers

/-- A measurement that completes while the table is empty leaves nobody in the session. -/
theorem step_alone {w : World} {e : Event} {r : LinkId × Int64} (h : reports w e = [r])
    (hempty : ∀ p ∈ w.linkPeers, p.inUse = false) : ¬ Accompanied (step w e) := by
  rintro ⟨p, hp, huse, -⟩
  rw [step_marks h] at hp
  obtain ⟨q, hq, rfl⟩ := List.mem_map.mp hp
  have hsame : (markMeasured w.sActiveTargetSession r.2 q).inUse = q.inUse := by
    unfold markMeasured
    split <;> rfl
  rw [hsame, hempty q hq] at huse
  cases huse

/-- The last PONG after the BYEBYE: the node switches, and its table is empty. -/
theorem pong_after_byebye :
    ∃ r, reports (step almostAhead byebyeFromA)
        (.udp pongAhead nodeA.localIpv4 linkDiscoveryPort) = [r] ∧
      Switches (step almostAhead byebyeFromA) r.2 ∧
      ∀ p ∈ (step almostAhead byebyeFromA).linkPeers, p.inUse = false := by
  have hkeep (w : World) (peers : List Peer) :
      let w' : World := { w with linkPeers := peers }
      w'.meas = w.meas ∧ w'.clock = w.clock ∧ w'.interLo = w.interLo ∧ w'.interHi = w.interHi ∧
        w'.linkPeers = peers :=
    ⟨rfl, rfl, rfl, rfl, rfl⟩
  have hempty : ∀ p ∈ evictPeer almostAhead.linkPeers nodeA.linkSelfId, p.inUse = false := by
    decide +kernel
  obtain ⟨hmeas, hclock, hlo, hhi, hpeers⟩ := hkeep almostAhead
    (evictPeer almostAhead.linkPeers nodeA.linkSelfId)
  rw [← step_byebye_from_a] at hmeas hclock hlo hhi hpeers
  obtain ⟨hintercept, median, hreports, hahead⟩ := pong_ahead_reports _ hmeas hclock hlo hhi
  refine ⟨_, hreports, ?_, ?_⟩
  · rw [Switches, ghost_diff_eq, hintercept, Int64.sub_zero, switchToNew, if_pos hahead]
  · rw [hpeers]
    exact hempty

/-- After the BYEBYE, the PONG that completes the measurement makes the node take over a session
in which nobody is left. -/
theorem adopted_from_nobody :
    ¬ ∀ (reading : Nat → UInt64) (v4 : UInt32) (v6 : List UInt8) (es : List Event) (e : Event),
      ∀ r ∈ reports (runEvents (boot reading v4 v6) es) e,
        Switches (runEvents (boot reading v4 v6) es) r.2 →
          Accompanied (step (runEvents (boot reading v4 v6) es) e) ∧
            LatestTimeline (step (runEvents (boot reading v4 v6) es) e) ∧
            LatestStartstop (step (runEvents (boot reading v4 v6) es) e) := by
  intro h
  let pong : Event := .udp pongAhead nodeA.localIpv4 linkDiscoveryPort
  have hrun := h (ticking 1000) 0x0A000001 (List.replicate 16 0)
    ((aliveBare :: List.replicate 50 pong) ++ [byebyeFromA]) pong
  have hbefore : run step (boot (ticking 1000) 0x0A000001 (List.replicate 16 0))
      (aliveBare :: List.replicate 50 pong) = almostAhead := rfl
  rw [runEvents, run_append, hbefore, run_cons, run_nil] at hrun
  obtain ⟨r, hreports, hswitch, hempty⟩ := pong_after_byebye
  exact step_alone hreports hempty (hrun r (hreports ▸ List.mem_singleton_self r) hswitch).1

end LinkFPGA
