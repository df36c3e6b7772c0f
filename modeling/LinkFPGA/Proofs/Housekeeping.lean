import LinkFPGA.Proofs.Supervisor

/-!
# What most events leave alone

An event that completes no measurement and is no local edit touches the clock, the network, the
peer table, the broadcast schedule and the measurement, and nothing else (`Housekeeping`). Facts
about the node's own session, its timeline or its registers need no case split over those events.
-/

namespace LinkFPGA

/-- `w'` is `w` but for the clock, the network, the peers, the schedule and the measurement. -/
def Housekeeping (w w' : World) : Prop :=
  w' = { w with
    clock := w'.clock
    localIpv4 := w'.localIpv4
    localIpv6 := w'.localIpv6
    sent := w'.sent
    linkPeers := w'.linkPeers
    sLastBcastUs := w'.sLastBcastUs
    sNextBcastUs := w'.sNextBcastUs
    sStateDirty := w'.sStateDirty
    sLastRemeasureUs := w'.sLastRemeasureUs
    sActiveTargetSession := w'.sActiveTargetSession
    meas := w'.meas }

namespace Housekeeping

theorem refl (w : World) : Housekeeping w w := rfl

theorem trans {w₁ w₂ w₃ : World} (h : Housekeeping w₁ w₂) (h' : Housekeeping w₂ w₃) :
    Housekeeping w₁ w₃ := by
  refine Eq.trans h' ?_
  exact congrArg (fun w : World => { w with
    clock := w₃.clock
    localIpv4 := w₃.localIpv4
    localIpv6 := w₃.localIpv6
    sent := w₃.sent
    linkPeers := w₃.linkPeers
    sLastBcastUs := w₃.sLastBcastUs
    sNextBcastUs := w₃.sNextBcastUs
    sStateDirty := w₃.sStateDirty
    sLastRemeasureUs := w₃.sLastRemeasureUs
    sActiveTargetSession := w₃.sActiveTargetSession
    meas := w₃.meas }) h

end Housekeeping

/-! ## The handlers -/

theorem request_housekeeping (w : World) (r : Option (LinkId × Peer)) :
    Housekeeping w (request w r) := by
  cases r with
  | none => exact .refl w
  | some r =>
      unfold request
      dsimp only
      rw [start_measurement_eq]
      rfl

/-- A handler of `measurement.c` that does not report success. -/
theorem apply_meas_housekeeping {r : MeasResult} (w : World)
    (h : ∀ intercept, r.call ≠ some (true, intercept)) : Housekeeping w (applyMeas r w) := by
  unfold applyMeas
  dsimp only
  cases hcall : r.call with
  | none => rfl
  | some call =>
      obtain ⟨success, intercept⟩ := call
      cases success with
      | false => rfl
      | true => exact absurd hcall (h intercept)

theorem link_tick_housekeeping (w : World) : Housekeeping w (linkTick w) := by
  unfold linkTick
  dsimp only
  split
  · split <;> rfl
  · rfl

theorem link_handle_rx_housekeeping (buf : List UInt8) (srcAddr : UInt32) (srcPort : UInt16)
    (w : World) : Housekeeping w (linkHandleRx buf srcAddr srcPort w) := by
  unfold linkHandleRx
  split
  · rfl
  · split
    · rfl
    · split
      · rfl
      · split
        · rfl
        · rename_i peers i _
          have hobserve :
              Housekeeping w (sessionObservePeer i { w.advance with linkPeers := peers }) := by
            have hseen : Housekeeping w { w.advance with linkPeers := peers } := rfl
            rw [session_observe_peer_eq]
            exact hseen.trans (request_housekeeping _ _)
          dsimp only
          split
          · exact hobserve.trans rfl
          · exact hobserve

theorem remeasure_housekeeping (w : World) : Housekeeping w (remeasure w) := by
  unfold remeasure
  split
  · cases findFounder w.linkPeers w.linkSelfSession with
    | none => rfl
    | some target =>
        dsimp only
        rw [start_measurement_eq]
        rfl
  · rfl

/-- A datagram that completes no measurement. -/
theorem udp_housekeeping {w : World} {buf : List UInt8} {srcAddr : UInt32} {srcPort : UInt16}
    (h : reports w (.udp buf srcAddr srcPort) = []) :
    Housekeeping w (step w (.udp buf srcAddr srcPort)) := by
  show Housekeeping w (onUdpRx buf srcAddr srcPort w)
  unfold onUdpRx
  split
  · rfl
  · split
    · exact link_handle_rx_housekeeping buf srcAddr srcPort w
    · split
      · rename_i hmagic
        refine (apply_meas_housekeeping w ?_).trans rfl
        intro intercept hcall
        simp [reports, hmagic, hcall, successOf] at h
      · rfl

/-- A tick of the supervisor, up to the peer LED of a node in a foreign session. -/
theorem session_tick_housekeeping (w : World) : ∃ w', Housekeeping w w' ∧
    w'.linkPeers = w.linkPeers ∧ sessionTick w =
      if w.linkSelfSession = w.linkSelfId then w'
      else beatPulseSetPeerLed (decide (0 < w.linkPeers.countP (·.inUse))) w' := by
  have hframe := measurement_tick_frame w.clock w.meas
  have hticked := apply_meas_housekeeping w hframe.2.2
  have hview := apply_meas_view (w := w) hframe.2.2
  unfold sessionTick
  dsimp only
  set ticked := applyMeas (measurementTick w.clock w.meas) w
  have hpeers : ticked.linkPeers = w.linkPeers := congrArg View.linkPeers hview
  have hsession : ticked.linkSelfSession = w.linkSelfSession :=
    congrArg View.linkSelfSession hview
  have hid : ticked.linkSelfId = w.linkSelfId := congrArg View.linkSelfId hview
  rw [hsession, hid]
  by_cases hown : w.linkSelfSession = w.linkSelfId
  · exact ⟨ticked, hticked, hpeers, by rw [if_pos hown, if_pos hown]⟩
  · have hforeign : ticked.linkSelfSession ≠ ticked.linkSelfId := by rw [hsession, hid]; exact hown
    have hremeasured : (remeasure ticked).linkPeers = w.linkPeers := by
      have hkept := congrArg View.linkPeers (remeasure_view hforeign)
      have hrequest := congrArg View.linkPeers
        (request_view ticked.advance (remeasureRequest ticked))
      exact hkept.trans (hrequest.trans hpeers)
    refine ⟨remeasure ticked, hticked.trans (remeasure_housekeeping ticked), hremeasured, ?_⟩
    rw [if_neg hown, if_neg hown, hremeasured]

end LinkFPGA
