import LinkFPGA.Proofs.PeerTable

/-!
# Which session a measurement belongs to

`session.c` remembers the session it last asked to have measured, `measurement.c` the session it
is measuring, and a request that finds a measurement in flight moves only the former.
`measure_done_matches_target` says that the two agree whenever a measurement completes, in every
run that makes no such request for another session, and that the intercept then reaches only the
peers of the session it was measured against. `measure_done_wrong_target` is a run in which a
second foreign session is announced during a measurement and receives its result.
-/

namespace LinkFPGA

open Runs

/-- The event asks for no measurement, or finds none in flight, or asks for the session that is
being measured already. -/
def Unclashing (w : World) (e : Event) : Prop :=
  match requested w e with
  | none => True
  | some (session, _) =>
      (inFlight w e).active = true → (inFlight w e).targetSession = session

instance (w : World) (e : Event) : Decidable (Unclashing w e) := by
  unfold Unclashing
  split <;> infer_instance

/-- The supervisor's note names the session in flight. -/
def Tracked (w : World) : Prop :=
  w.meas.active = true → w.sActiveTargetSession = w.meas.targetSession

/-- The measurement an event meets is the one in flight before it. -/
theorem in_flight_of_active {w : World} {e : Event} (h : (inFlight w e).active = true) :
    w.meas.active = true ∧ (inFlight w e).targetSession = w.meas.targetSession := by
  cases e with
  | sessionTick =>
      have hframe := measurement_tick_frame w.clock w.meas
      exact ⟨hframe.2.1 h, hframe.1⟩
  | udp | linkTick | setLocalTempo | setPlay | euroReset | broadcastAliveNow | localAddress =>
      exact ⟨h, rfl⟩

/-- An event that makes no clashing request keeps the note right. -/
theorem step_tracked {w : World} {e : Event} (hinv : Tracked w) (hguard : Unclashing w e) :
    Tracked (step w e) := by
  intro hactive
  rcases step_cases w e with ⟨_, hstep⟩ | ⟨_, _, hdone⟩
  · rw [hstep.activeTarget]
    unfold Unclashing at hguard
    cases hreq : requested w e with
    | none =>
        rcases hstep.inProgress hactive with ⟨hflight, htarget⟩ | ⟨target, h⟩
        · obtain ⟨hbefore, hsame⟩ := in_flight_of_active hflight
          exact (hinv hbefore).trans (htarget.trans hsame).symm
        · rw [hreq] at h
          cases h
    | some request =>
        rcases request with ⟨session, target⟩
        rw [hreq] at hguard
        rcases hstep.inProgress hactive with ⟨hflight, htarget⟩ | ⟨target', h⟩
        · exact (htarget.trans (hguard hflight)).symm
        · rw [hreq] at h
          cases h
          rfl
  · rw [hdone.idle] at hactive
    cases hactive

/-! ## Boot -/

theorem view_meas (w : World) : w.view.meas = w.meas := rfl

/-- No measurement is in flight at boot. -/
theorem boot_meas (reading : Nat → UInt64) (v4 : UInt32) (v6 : List UInt8) :
    (boot reading v4 v6).meas = .zero := by
  rw [← view_meas, boot, link_init_view]
  rfl

theorem boot_tracked (reading : Nat → UInt64) (v4 : UInt32) (v6 : List UInt8) :
    Tracked (boot reading v4 v6) := by
  intro h
  rw [boot_meas] at h
  cases h

/-! ## Where an intercept can end up -/

/-- A report comes from the measurement in flight. -/
theorem reports_active {w : World} {e : Event} {session : LinkId} {intercept : Int64}
    (h : (session, intercept) ∈ reports w e) :
    w.meas.active = true ∧ session = w.meas.targetSession := by
  cases e with
  | udp buf srcAddr srcPort =>
      unfold reports successOf at h
      dsimp only at h
      split at h
      · split at h
        · rename_i hcall
          simp only [List.mem_singleton, Prod.mk.injEq] at h
          exact ⟨measurement_handle_rx_call hcall, h.1⟩
        · cases h
      · cases h
  | linkTick | sessionTick | setLocalTempo | setPlay | euroReset | broadcastAliveNow
  | localAddress => cases h

/-- An update other than `on_measure_done` marks no slot as measured. -/
theorem SlotUpdate.unmarked {w : World} {e : Event} {p p' : Peer} (h : SlotUpdate w e p p')
    (hmeasured : p'.measured = true) : p.measured = true ∧ p.ghostOffset = p'.ghostOffset := by
  cases h with
  | kept => exact ⟨hmeasured, rfl⟩
  | cleared => cases hmeasured
  | heard buf srcAddr srcPort _ _ _ _ =>
      obtain ⟨_, _, hm, ho⟩ := update_peer_measurement w.clock.now buf p
      exact ⟨hm ▸ hmeasured, ho.symm⟩
  | joined buf =>
      obtain ⟨_, _, hm, _⟩ :=
        update_peer_measurement w.clock.now buf (.fresh (messageIdent buf))
      rw [hm] at hmeasured
      cases hmeasured

/-- Whenever `on_measure_done(1, i)` runs, the session it works with is the one that was
measured; and whatever the event, a slot is marked as measured, or the session switched, only
with an intercept measured against that very session. -/
theorem measure_done_matches_target (reading : Nat → UInt64) (v4 : UInt32) (v6 : List UInt8)
    (es : List Event) (h : Guarded step Unclashing (boot reading v4 v6) es) (e : Event) :
    let w := runEvents (boot reading v4 v6) es
    (∀ r ∈ reports w e, w.sActiveTargetSession = r.1) ∧
    (∀ (k : Nat) (p' : Peer), (step w e).linkPeers[k]? = some p' → p'.measured = true →
      (∃ p, w.linkPeers[k]? = some p ∧ p.measured = true ∧ p.ghostOffset = p'.ghostOffset) ∨
        (p'.sessionId, p'.ghostOffset) ∈ reports w e) ∧
    ((step w e).linkSelfSession = w.linkSelfSession ∧
        ghostTimeGetIntercept (step w e) = ghostTimeGetIntercept w ∨
      ((step w e).linkSelfSession, ghostTimeGetIntercept (step w e)) ∈ reports w e) := by
  intro w
  have htracked : Tracked w :=
    run_induct (fun _ _ => step_tracked) (boot_tracked reading v4 v6) h
  refine ⟨?_, ?_, ?_⟩
  · rintro ⟨session, intercept⟩ hmem
    obtain ⟨hactive, rfl⟩ := reports_active hmem
    exact htracked hactive
  · intro k p' hk hmeasured
    rcases step_cases w e with ⟨_, hstep⟩ | ⟨intercept, hreports, hdone⟩
    · rw [hstep.peers] at hk
      obtain ⟨p, hp, hupdate⟩ := table_after_slot w e hk
      exact .inl ⟨p, hp, hupdate.unmarked hmeasured⟩
    · have hactive := (reports_active (hreports ▸ List.mem_singleton_self _)).1
      rw [hdone.peers, List.getElem?_map, Option.map_eq_some_iff] at hk
      obtain ⟨p, hp, rfl⟩ := hk
      by_cases hin : p.inUse = true ∧ p.sessionId = w.sActiveTargetSession
      · right
        rw [hreports, markMeasured, if_pos hin, List.mem_singleton, ← htracked hactive, hin.2]
      · left
        rw [markMeasured, if_neg hin] at hmeasured ⊢
        exact ⟨p, hp, hmeasured, rfl⟩
  · rcases step_cases w e with ⟨_, hstep⟩ | ⟨intercept, hreports, hdone⟩
    · exact .inl ⟨hstep.selfSession, hstep.intercept⟩
    · have hactive := (reports_active (hreports ▸ List.mem_singleton_self _)).1
      rcases hdone.session with ⟨hsession, hintercept⟩ | hsame
      · right
        rw [hreports, hsession, hintercept, List.mem_singleton, htracked hactive]
      · exact .inl hsame

/-! ## Two nodes announced during one measurement -/

/-- Clock readings one microsecond apart. -/
def ticking (start : UInt64) (n : Nat) : UInt64 := start + UInt64.ofNat n

/-- The node under test, and two others, each in a session of its own. -/
def nodeSelf : World := boot (ticking 1000) 0x0A000001 (List.replicate 16 0)
def nodeA : World := boot (ticking 2000) 0x0A000002 (List.replicate 16 0)
def nodeB : World := boot (ticking 3000) 0x0A000003 (List.replicate 16 0)

/-- A node's ALIVE, as it arrives. -/
def aliveFrom (n : World) : Event := .udp (encodeMsg n 1 true) n.localIpv4 linkDiscoveryPort

/-- A node's PONG to a PING that carries a previous ghost time, as it arrives. -/
def pongFrom (n : World) : Event :=
  .udp ((encodePong n.linkSelfSession 5000 (encodePing 1010 4000 true)).getD []) n.localIpv4
    linkDiscoveryPort

/-- The first node is announced and measured, two samples a PONG. -/
def measuringA (pongs : Nat) : List Event :=
  aliveFrom nodeA :: List.replicate pongs (pongFrom nodeA)

theorem measure_done_matches_target_alone :
    (runEvents nodeSelf (measuringA 50)).sActiveTargetSession = nodeA.linkSelfSession := by
  have hguard : Guarded step Unclashing nodeSelf (measuringA 50) := by decide +kernel
  have hreport : ∃ r ∈ reports (runEvents nodeSelf (measuringA 50)) (pongFrom nodeA),
      r.1 = nodeA.linkSelfSession := by decide +kernel
  obtain ⟨⟨session, intercept⟩, hmem, rfl⟩ := hreport
  exact (measure_done_matches_target (ticking 1000) 0x0A000001 (List.replicate 16 0)
    (measuringA 50) hguard (pongFrom nodeA)).1 _ hmem

/-- A second node announced before the last PONG takes the note over, and the result of the
first node's measurement with it. -/
theorem measure_done_wrong_target :
    ¬ ∀ (reading : Nat → UInt64) (v4 : UInt32) (v6 : List UInt8) (es : List Event) (e : Event),
      let w := runEvents (boot reading v4 v6) es
      ∀ r ∈ reports w e, w.sActiveTargetSession = r.1 := by
  intro h
  have hrun := h (ticking 1000) 0x0A000001 (List.replicate 16 0)
    (measuringA 50 ++ [aliveFrom nodeB]) (pongFrom nodeA)
  have hwrong : ∃ r ∈ reports (runEvents nodeSelf (measuringA 50 ++ [aliveFrom nodeB]))
      (pongFrom nodeA),
      (runEvents nodeSelf (measuringA 50 ++ [aliveFrom nodeB])).sActiveTargetSession ≠ r.1 := by
    decide +kernel
  obtain ⟨r, hmem, hne⟩ := hwrong
  exact hne (hrun r hmem)

end LinkFPGA
