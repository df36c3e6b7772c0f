import LinkFPGA.Firmware.Main
import LinkFPGA.Firmware.Tdm

/-!
# Which frames are served

The main loop reads the frame counter twice for each frame it serves: `tdm_frame_pending` compares
it with the count of the last clear, and `tdm_clear_frame_pending` takes over what it reads by
then. A frame that is completed in between is cleared with the one before it. `frames_served_iff`
says that these are the only frames lost, on the ports that `tdm_frame_count` knows.

Read `FrameHistory` first: it counts the frames of an interleaving by where they fall.
-/

namespace LinkFPGA

open Runs

/-- Where the frames of an interleaving have fallen. A frame is lost if it is completed after a
check that returned true and before the clear that follows it. -/
structure FrameHistory where
  /-- Whether the port has been checked. -/
  checked : Bool
  /-- Frames before the first check. -/
  first : Nat
  /-- Frames before the last check, and the lost ones among them. -/
  before : Nat
  lostBefore : Nat
  /-- Frames since the last check, and the lost ones among them. -/
  since : Nat
  lostSince : Nat

def FrameHistory.start : FrameHistory := ⟨false, 0, 0, 0, 0, 0⟩

/-- The history after what happens next. -/
def historyStep (s : FrameLoop) (h : FrameHistory) : LoopEvent → FrameHistory
  | .frame => { h with
      since := h.since + 1
      lostSince := if s.pc = .check then h.lostSince else h.lostSince + 1 }
  | .loop _ _ =>
      if s.pc = .check then
        { checked := true
          first := if h.checked then h.first else h.since
          before := h.before + h.since
          lostBefore := h.lostBefore + h.lostSince
          since := 0
          lostSince := 0 }
      else h
  | .others _ => h

/-- The loop together with its history. -/
def servedStep (port : Nat) (s : FrameLoop × FrameHistory) (e : LoopEvent) :
    FrameLoop × FrameHistory :=
  (loopStep port s.1 e, historyStep s.1 s.2 e)

/-- The counter has advanced at most once since the last check, if the port is checked now. -/
def AtMostOnce (s : FrameLoop × FrameHistory) : LoopEvent → Prop
  | .loop _ _ => s.1.pc = .check → s.2.checked = true → s.2.since ≤ 1
  | _ => True

instance (s : FrameLoop × FrameHistory) : ∀ e, Decidable (AtMostOnce s e)
  | .frame | .others _ => .isTrue trivial
  | .loop _ _ => inferInstanceAs (Decidable (s.1.pc = .check → s.2.checked = true → s.2.since ≤ 1))

/-- The calls of `link_audio_on_tdm_frame` that the checks so far have led to: those made, and the
one to be made next. -/
def callsMade (s : FrameLoop) : Nat := s.served + if s.pc = .serve then 1 else 0

/-! ## The counter -/

section
variable {port : Nat} {t : Tdm}

theorem frame_count_known (hvalid : port < t.numTdmPorts) (hknown : port < 4) :
    tdmFrameCount port t = t.frameCount port := if_pos ⟨hknown, hvalid⟩

theorem frame_count_unknown (hknown : ¬ port < 4) : tdmFrameCount port t = 0 :=
  if_neg fun h => hknown h.1

theorem pending_iff (hvalid : port < t.numTdmPorts) :
    tdmFramePending port t = true ↔ tdmFrameCount port t ≠ t.sLastCount port := by
  rw [tdmFramePending, if_neg (Nat.not_le.mpr hvalid), decide_eq_true_eq]

theorem clear_last (hvalid : port < t.numTdmPorts) :
    (tdmClearFramePending port t).sLastCount port = tdmFrameCount port t := by
  rw [tdmClearFramePending, if_neg (Nat.not_le.mpr hvalid)]
  exact Function.update_self ..

theorem clear_frame_count : (tdmClearFramePending port t).frameCount = t.frameCount := by
  unfold tdmClearFramePending
  split <;> rfl

theorem clear_num_ports : (tdmClearFramePending port t).numTdmPorts = t.numTdmPorts := by
  unfold tdmClearFramePending
  split <;> rfl

theorem complete_frame_count : (t.completeFrame port).frameCount port = t.frameCount port + 1 :=
  Function.update_self ..

/-- A counter that has advanced by at most one shows it. -/
theorem advanced_ne_iff {c : UInt32} {n : Nat} (h : n ≤ 1) : c + .ofNat n ≠ c ↔ n = 1 := by
  have hcases : n = 0 ∨ n = 1 := by omega
  rcases hcases with rfl | rfl <;> simp

end

/-! ## The loop -/

section
variable {port : Nat} {s : FrameLoop}

theorem loop_step_check (h : s.pc = .check) (rx : Nat → UInt16) (beats : Nat → Int64) :
    loopStep port s (.loop rx beats) =
      if tdmFramePending port s.tdm then { s with pc := .serve } else s := by
  unfold loopStep
  rw [h]

theorem loop_step_serve (h : s.pc = .serve) (rx : Nat → UInt16) (beats : Nat → Int64) :
    loopStep port s (.loop rx beats) =
      { s with
        audio := linkAudioOnTdmFrame port rx beats s.audio
        served := s.served + 1
        pc := .clear } := by
  unfold loopStep
  rw [h]

theorem loop_step_clear (h : s.pc = .clear) (rx : Nat → UInt16) (beats : Nat → Int64) :
    loopStep port s (.loop rx beats) =
      { s with
        tdm := tdmClearFramePending port s.tdm
        pc := .check } := by
  unfold loopStep
  rw [h]

/-- The rest of the loop leaves the port alone. -/
theorem loop_step_others (audio : AudioWorld) :
    ∃ audio', loopStep port s (.others audio) = { s with audio := audio' } := by
  show ∃ audio', (if s.pc = .check then { s with audio := audio } else s) = _
  split
  · exact ⟨audio, rfl⟩
  · exact ⟨s.audio, rfl⟩

end

/-! ## What one step preserves -/

/-- What the history and the loop agree on, for a port that `tdm_frame_count` knows. -/
structure Accounted (port : Nat) (s : FrameLoop × FrameHistory) : Prop where
  valid : port < s.1.tdm.numTdmPorts
  /-- Between a clear and a check the counter shows the frames since then. -/
  visible : s.1.pc = .check → ∃ n, n + s.2.lostSince = s.2.since ∧
    s.1.tdm.frameCount port = s.1.tdm.sLastCount port + .ofNat n
  window : s.1.pc ≠ .check → s.2.lostSince = s.2.since
  missed : ∃ x, callsMade s.1 + s.2.lostBefore + x = s.2.before ∧ (x = 0 ↔ s.2.first ≤ 1)
  unchecked : s.2.checked = false →
    s.1.pc = .check ∧ s.2.before = 0 ∧ s.2.lostBefore = 0 ∧ s.2.lostSince = 0

variable {port : Nat} {s : FrameLoop × FrameHistory}

theorem frame_accounted (h : Accounted port s) : Accounted port (servedStep port s .frame) := by
  refine ⟨h.valid, fun hpc => ?_, fun hpc => ?_, h.missed, fun hnew => ?_⟩
  · have hpc : s.1.pc = .check := hpc
    obtain ⟨n, hn, hcount⟩ := h.visible hpc
    refine ⟨n + 1, ?_, ?_⟩
    · show n + 1 + (if s.1.pc = .check then s.2.lostSince else _) = s.2.since + 1
      rw [if_pos hpc]
      omega
    · show (s.1.tdm.completeFrame port).frameCount port = s.1.tdm.sLastCount port + _
      rw [complete_frame_count, hcount, UInt32.add_assoc, UInt32.ofNat_add]
      rfl
  · have hpc : s.1.pc ≠ .check := hpc
    show (if s.1.pc = .check then _ else s.2.lostSince + 1) = s.2.since + 1
    rw [if_neg hpc, h.window hpc]
  · obtain ⟨hpc, hbefore, hlost, hsince⟩ := h.unchecked hnew
    refine ⟨hpc, hbefore, hlost, ?_⟩
    show (if s.1.pc = .check then s.2.lostSince else _) = 0
    rw [if_pos hpc, hsince]

/-- A check at which `n` frames are visible makes one call or none, and exactly one for each of them
if there is at most one: the frames without a call stay accounted for. -/
theorem check_missed (h : Accounted port s) (hpc : s.1.pc = .check)
    (hguard : s.2.checked = true → s.2.since ≤ 1) {n : Nat} (hn : n + s.2.lostSince = s.2.since)
    {calls : Nat} (hone : calls ≤ 1) (hle : calls ≤ n) (hcalls : n ≤ 1 → calls = n) :
    ∃ x, s.1.served + calls + (s.2.lostBefore + s.2.lostSince) + x = s.2.before + s.2.since ∧
      (x = 0 ↔ (if s.2.checked then s.2.first else s.2.since) ≤ 1) := by
  obtain ⟨x, hx, hfirst⟩ := h.missed
  rw [show callsMade s.1 = s.1.served by rw [callsMade, hpc]; rfl] at hx
  cases hchecked : s.2.checked with
  | true =>
      have hsince := hguard hchecked
      have hcalls := hcalls (by omega)
      exact ⟨x, by omega, hfirst⟩
  | false =>
      -- the first check: there was no call before it
      obtain ⟨_, hbefore, hlost, hsince⟩ := h.unchecked hchecked
      refine ⟨n - calls, by omega, ?_⟩
      rw [if_neg (by decide)]
      constructor
      · intro hzero
        omega
      · intro hfew
        have hcalls := hcalls (by omega)
        omega

/-- A check serves the frame that the counter shows. -/
theorem check_accounted (h : Accounted port s) (hknown : port < 4) (hpc : s.1.pc = .check)
    (rx : Nat → UInt16) (beats : Nat → Int64) (hguard : AtMostOnce s (.loop rx beats)) :
    Accounted port (servedStep port s (.loop rx beats)) := by
  obtain ⟨n, hn, hcount⟩ := h.visible hpc
  have hserved : callsMade s.1 = s.1.served := by
    rw [callsMade, hpc]
    rfl
  have hpending := pending_iff h.valid
  rw [frame_count_known h.valid hknown, hcount] at hpending
  have hstate : (servedStep port s (.loop rx beats)).1 =
      if tdmFramePending port s.1.tdm then { s.1 with pc := .serve } else s.1 :=
    loop_step_check hpc rx beats
  have hhistory : (servedStep port s (.loop rx beats)).2 =
      ⟨true, if s.2.checked then s.2.first else s.2.since, s.2.before + s.2.since,
        s.2.lostBefore + s.2.lostSince, 0, 0⟩ := if_pos hpc
  have hmissed {calls : Nat} (hone : calls ≤ 1) := check_missed h hpc (hguard hpc) hn hone
  by_cases hpend : tdmFramePending port s.1.tdm = true
  · rw [if_pos hpend] at hstate
    have hpending := hpending.mp hpend
    have hpos : n ≠ 0 := by
      rintro rfl
      exact hpending (UInt32.add_zero _)
    have hcalls := hmissed (le_refl 1) (by omega) fun hfew =>
      ((advanced_ne_iff hfew).mp hpending).symm
    rw [← Prod.mk.eta (p := servedStep port s (.loop rx beats)), hstate, hhistory]
    refine ⟨?_, ?_, ?_, ?_, ?_⟩
    · exact h.valid
    · intro hcheck
      cases hcheck
    · exact fun _ => rfl
    · exact hcalls
    · intro hnew
      cases hnew
  · rw [if_neg hpend] at hstate
    rw [Bool.not_eq_true] at hpend
    rw [hpend] at hpending
    have hsame : s.1.tdm.sLastCount port + .ofNat n = s.1.tdm.sLastCount port := by
      by_contra hne
      exact absurd (hpending.mpr hne) (by decide)
    have hcalls := hmissed (Nat.zero_le 1) (Nat.zero_le n) fun hfew => by
      have hnone := mt (advanced_ne_iff hfew).mpr (not_not.mpr hsame)
      omega
    rw [← Prod.mk.eta (p := servedStep port s (.loop rx beats)), hstate, hhistory]
    refine ⟨?_, ?_, ?_, ?_, ?_⟩
    · exact h.valid
    -- nothing was pending, so the window since the last check is empty
    · exact fun _ => ⟨0, rfl, by rw [hcount, hsame]; exact (UInt32.add_zero _).symm⟩
    · exact fun hne => absurd hpc hne
    · rw [show callsMade s.1 = s.1.served + 0 from hserved]
      exact hcalls
    · intro hnew
      cases hnew

theorem loop_accounted (h : Accounted port s) (hknown : port < 4) (rx : Nat → UInt16)
    (beats : Nat → Int64) (hguard : AtMostOnce s (.loop rx beats)) :
    Accounted port (servedStep port s (.loop rx beats)) := by
  obtain ⟨x, hx, hfirst⟩ := h.missed
  cases hpc : s.1.pc with
  | check => exact check_accounted h hknown hpc rx beats hguard
  | serve =>
      have hne : s.1.pc ≠ .check := by rw [hpc]; decide
      have hstate : (servedStep port s (.loop rx beats)).1 = _ := loop_step_serve hpc rx beats
      have hhistory : (servedStep port s (.loop rx beats)).2 = s.2 := if_neg hne
      rw [← Prod.mk.eta (p := servedStep port s (.loop rx beats)), hstate, hhistory]
      refine ⟨?_, ?_, ?_, ?_, ?_⟩
      · exact h.valid
      · intro hcheck
        cases hcheck
      · exact fun _ => h.window hne
      · rw [callsMade, hpc, if_pos rfl] at hx
        exact ⟨x, hx, hfirst⟩
      · exact fun hnew => absurd (h.unchecked hnew).1 hne
  | clear =>
      have hne : s.1.pc ≠ .check := by rw [hpc]; decide
      have hstate : (servedStep port s (.loop rx beats)).1 = _ := loop_step_clear hpc rx beats
      have hhistory : (servedStep port s (.loop rx beats)).2 = s.2 := if_neg hne
      have hlast := clear_last h.valid
      rw [frame_count_known h.valid hknown] at hlast
      rw [← Prod.mk.eta (p := servedStep port s (.loop rx beats)), hstate, hhistory]
      refine ⟨?_, ?_, ?_, ?_, ?_⟩
      · exact clear_num_ports.symm ▸ h.valid
      · intro _
        refine ⟨0, (Nat.zero_add _).trans (h.window hne), ?_⟩
        dsimp only
        rw [clear_frame_count, hlast]
        exact (UInt32.add_zero _).symm
      · exact fun hcheck => absurd rfl hcheck
      · rw [callsMade, hpc] at hx
        exact ⟨x, hx, hfirst⟩
      · exact fun hnew => absurd (h.unchecked hnew).1 hne

theorem step_accounted_frames (h : Accounted port s) (hknown : port < 4) {e : LoopEvent}
    (hguard : AtMostOnce s e) : Accounted port (servedStep port s e) := by
  cases e with
  | frame => exact frame_accounted h
  | loop rx beats => exact loop_accounted h hknown rx beats hguard
  | others audio =>
      obtain ⟨audio', hstate⟩ : ∃ audio', loopStep port s.1 (.others audio) =
          { s.1 with audio := audio' } := loop_step_others audio
      show Accounted port (loopStep port s.1 (.others audio), s.2)
      rw [hstate]
      exact ⟨h.valid, h.visible, h.window, h.missed, h.unchecked⟩

/-- A port that `tdm_frame_count` does not know is never served. -/
structure NeverServed (port : Nat) (s : FrameLoop × FrameHistory) : Prop where
  valid : port < s.1.tdm.numTdmPorts
  last : s.1.tdm.sLastCount port = 0
  pc : s.1.pc = .check
  served : s.1.served = 0

theorem step_never_served (h : NeverServed port s) (hknown : ¬ port < 4) (e : LoopEvent) :
    NeverServed port (servedStep port s e) := by
  have hidle : tdmFramePending port s.1.tdm ≠ true := by
    rw [Ne, pending_iff h.valid, frame_count_unknown hknown, h.last]
    exact not_not.mpr rfl
  cases e with
  | frame => exact ⟨h.valid, h.last, h.pc, h.served⟩
  | loop rx beats =>
      have hstate : (servedStep port s (.loop rx beats)).1 = _ := loop_step_check h.pc rx beats
      rw [if_neg hidle] at hstate
      constructor <;> rw [hstate]
      · exact h.valid
      · exact h.last
      · exact h.pc
      · exact h.served
  | others audio =>
      obtain ⟨audio', hstate⟩ : ∃ audio', loopStep port s.1 (.others audio) =
          { s.1 with audio := audio' } := loop_step_others audio
      show NeverServed port (loopStep port s.1 (.others audio), s.2)
      rw [hstate]
      exact ⟨h.valid, h.last, h.pc, h.served⟩

/-! ## Whole interleavings -/

/-- From power-up on, in every interleaving in which the counter of a port advances at most once
from one check to the next, the loop has called `link_audio_on_tdm_frame` once for each frame
before the last check exactly if no frame was completed between a check that returned true and
its clear and at most one before the first check, or if the port is one that `tdm_frame_count`
does not know and there was no frame. -/
theorem frames_served_iff (numTdmPorts port : Nat) (hport : port < numTdmPorts)
    (audio : AudioWorld) (es : List LoopEvent)
    (hguard : Guarded (servedStep port) AtMostOnce (.start numTdmPorts audio, .start) es)
    (s : FrameLoop × FrameHistory)
    (hs : s = run (servedStep port) (.start numTdmPorts audio, .start) es) :
    callsMade s.1 = s.2.before ↔
      port < 4 ∧ s.2.lostBefore = 0 ∧ s.2.first ≤ 1 ∨ ¬ port < 4 ∧ s.2.before = 0 := by
  by_cases hknown : port < 4
  · have hinit : Accounted port (.start numTdmPorts audio, .start) := by
      refine ⟨hport, fun _ => ⟨0, rfl, rfl⟩, fun hne => absurd rfl hne, ⟨0, rfl, ?_⟩,
        fun _ => ⟨rfl, rfl, rfl, rfl⟩⟩
      exact ⟨fun _ => Nat.zero_le 1, fun _ => rfl⟩
    have hrun : Accounted port s :=
      hs ▸ run_induct (motive := Accounted port)
        (fun _ _ h hstep => step_accounted_frames h hknown hstep) hinit hguard
    obtain ⟨x, hx, hfirst⟩ := hrun.missed
    constructor
    · intro hall
      exact .inl ⟨hknown, by omega, hfirst.mp (by omega)⟩
    · rintro (⟨_, hlost, hfew⟩ | ⟨hunknown, _⟩)
      · have hzero := hfirst.mpr hfew
        omega
      · exact absurd hknown hunknown
  · have hinit : NeverServed port (.start numTdmPorts audio, .start) := ⟨hport, rfl, rfl, rfl⟩
    have hrun : NeverServed port s :=
      hs ▸ run_induct (motive := NeverServed port)
        (fun _ e h _ => step_never_served h hknown e) hinit hguard
    have hnone : callsMade s.1 = 0 := by
      rw [callsMade, hrun.served, hrun.pc]
      rfl
    rw [hnone]
    constructor
    · intro hzero
      exact .inr ⟨hknown, hzero.symm⟩
    · rintro (⟨hknown', _⟩ | ⟨_, hzero⟩)
      · exact absurd hknown' hknown
      · exact hzero.symm

/-- The loop takes its next step and captures silence. -/
def silentStep : LoopEvent := .loop (fun _ => 0) (fun _ => 0)

/-- Two frames, each served before the next one is completed. -/
theorem frames_served_iff_two :
    callsMade (run (servedStep 0) (.start 2 (audioBoot (powerOn (fun _ => 0) 0 []) 2), .start)
      [.frame, silentStep, silentStep, silentStep, .frame, silentStep]).1 = 2 :=
  (frames_served_iff 2 0 (by decide) (audioBoot (powerOn (fun _ => 0) 0 []) 2)
    [.frame, silentStep, silentStep, silentStep, .frame, silentStep] (by decide) _ rfl).mpr
    (.inl ⟨by decide, rfl, Nat.le_refl 1⟩)

/-- A frame completed while the one before it is served is cleared with it. -/
theorem frame_cleared_unserved :
    ¬ ∀ (numTdmPorts port : Nat) (audio : AudioWorld) (es : List LoopEvent),
      port < numTdmPorts →
      Guarded (servedStep port) AtMostOnce (.start numTdmPorts audio, .start) es →
      callsMade (run (servedStep port) (.start numTdmPorts audio, .start) es).1 =
        (run (servedStep port) (.start numTdmPorts audio, .start) es).2.before := by
  intro h
  have hlost := h 2 0 (audioBoot (powerOn (fun _ => 0) 0 []) 2)
    [.frame, silentStep, .frame, silentStep, silentStep, silentStep] (by decide) (by decide)
  exact absurd hlost (by decide)

end LinkFPGA
