import LinkFPGA.Firmware.SyncSources

/-!
# What an observed source can do

A source in OFF or OBSERVE mode is measured and otherwise ignored, with one exception:
`midi_tick` passes START, CONTINUE and STOP to `link_set_play` in every mode but OFF
(`observing_midi_tick`). A run in which no such byte is drained in OBSERVE mode is therefore, for
the firmware, the run of its other handlers (`quiet_run_core`). `observed_start_plays` is the
byte that gets through in the modes the firmware boots with.
-/

namespace LinkFPGA

open Runs

/-- Neither source is followed. -/
structure Observing (s : SyncWorld) : Prop where
  midi : s.midi.syncMode ≠ .follower
  euro : s.euro.mode ≠ .follower

/-- The tick drains a START, a CONTINUE or a STOP. -/
def MidiInputs.Transport (i : MidiInputs) : Prop :=
  i.rtEvValid = true ∧
    (i.rtEvByte = midiRtStart ∨ i.rtEvByte = midiRtContinue ∨ i.rtEvByte = midiRtStop)

/-- No START, CONTINUE or STOP is drained, unless MIDI is off. -/
def Quiet (s : SyncWorld) : SyncEvent → Prop
  | .midiTick i => s.midi.syncMode = .off ∨ ¬ i.Transport
  | _ => True

instance (i : MidiInputs) : Decidable i.Transport := inferInstanceAs (Decidable (_ ∧ _))

instance (s : SyncWorld) : ∀ e, Decidable (Quiet s e)
  | .midiTick _ => inferInstanceAs (Decidable (_ ∨ _))
  | .euroTick _ => .isTrue trivial
  | .core _ => .isTrue trivial

/-- The handler an event calls, when it is not a tick of a source. -/
def SyncEvent.handler : SyncEvent → Option Event
  | .core e => some e
  | _ => none

/-! ## A tick -/

/-- The period meter moves no mode. -/
@[simp] theorem midi_measure_mode (i : MidiInputs) (m : MidiState) :
    (midiMeasure i m).syncMode = m.syncMode := by
  unfold midiMeasure
  split <;> rfl

@[simp] theorem euro_measure_mode (i : EuroInputs) (e : EuroState) :
    (euroMeasure i e).mode = e.mode := by
  unfold euroMeasure
  split <;> rfl

/-- No byte moves a mode. -/
theorem midi_event_modes (byte : UInt8) (ts : UInt64) (s : SyncWorld) :
    (midiRtEvent byte ts s).midi.syncMode = s.midi.syncMode ∧
      (midiRtEvent byte ts s).euro = s.euro := by
  unfold midiRtEvent
  dsimp only
  split
  · split <;> exact ⟨rfl, rfl⟩
  · split
    · split <;> exact ⟨rfl, rfl⟩
    · split
      · split <;> exact ⟨rfl, rfl⟩
      · exact ⟨rfl, rfl⟩

theorem midi_tick_modes (i : MidiInputs) (s : SyncWorld) :
    (midiTick i s).midi.syncMode = s.midi.syncMode ∧ (midiTick i s).euro = s.euro := by
  unfold midiTick
  dsimp only
  split
  · exact ⟨midi_measure_mode i s.midi, rfl⟩
  · obtain ⟨hmidi, heuro⟩ := midi_event_modes i.rtEvByte
      (i.rtEvTsHi.toUInt64 <<< 32 ||| i.rtEvTsLo.toUInt64)
      { s with midi := midiMeasure i s.midi }
    exact ⟨hmidi.trans (midi_measure_mode i s.midi), heuro⟩

/-- What a byte does to the firmware when MIDI is not followed: nothing, or `link_set_play`. -/
theorem observed_event_core (byte : UInt8) (ts : UInt64) {s : SyncWorld}
    (hmode : s.midi.syncMode ≠ .follower) :
    (midiRtEvent byte ts s).core =
      if s.midi.syncMode ≠ .off ∧
          (byte = midiRtStart ∨ byte = midiRtContinue ∨ byte = midiRtStop) then
        linkSetPlay (decide (byte ≠ midiRtStop)) s.core
      else s.core := by
  unfold midiRtEvent
  by_cases hclock : byte = midiRtClock
  · -- only the clock is gated on following
    subst hclock
    have hfollow : ¬ (s.midi.syncMode = .follower ∧ 0 < s.midi.observedBpm) := fun h => hmode h.1
    simp [hfollow, midiRtClock, midiRtStart, midiRtContinue, midiRtStop]
  · rw [if_neg hclock]
    by_cases hplay : byte = midiRtStart ∨ byte = midiRtContinue
    · have hstop : byte ≠ midiRtStop := by
        rcases hplay with rfl | rfl <;> decide
      rw [if_pos hplay]
      by_cases hoff : s.midi.syncMode = .off
      · simp [hoff]
      · have hbyte : byte = midiRtStart ∨ byte = midiRtContinue ∨ byte = midiRtStop := by tauto
        rw [if_pos hoff, if_pos ⟨hoff, hbyte⟩, decide_eq_true hstop]
    · rw [if_neg hplay]
      by_cases hstop : byte = midiRtStop
      · subst hstop
        by_cases hoff : s.midi.syncMode = .off <;> simp [hoff]
      · have hbyte : ¬ (byte = midiRtStart ∨ byte = midiRtContinue ∨ byte = midiRtStop) := by tauto
        rw [if_neg hstop, if_neg fun h => hbyte h.2]

/-- A MIDI tick reaches the firmware exactly when it is not quiet, and then it sets play. -/
theorem observing_midi_tick (i : MidiInputs) {s : SyncWorld} (hobs : Observing s) :
    (midiTick i s).core =
      if Quiet s (.midiTick i) then s.core
      else linkSetPlay (decide (i.rtEvByte ≠ midiRtStop)) s.core := by
  have hmode : (midiMeasure i s.midi).syncMode ≠ .follower := by
    rw [midi_measure_mode]
    exact hobs.midi
  unfold midiTick
  cases hvalid : i.rtEvValid with
  | false => simp [Quiet, MidiInputs.Transport, hvalid]
  | true =>
      have hevent := observed_event_core i.rtEvByte
        (i.rtEvTsHi.toUInt64 <<< 32 ||| i.rtEvTsLo.toUInt64)
        (s := { s with midi := midiMeasure i s.midi }) hmode
      simp only [Bool.not_true, Bool.false_eq_true, if_false]
      rw [hevent]
      simp only [Quiet, MidiInputs.Transport, midi_measure_mode, hvalid, true_and]
      by_cases hoff : s.midi.syncMode = .off
      · simp [hoff]
      · by_cases hbyte :
            i.rtEvByte = midiRtStart ∨ i.rtEvByte = midiRtContinue ∨ i.rtEvByte = midiRtStop
        · simp [hoff, hbyte]
        · simp [hbyte]

/-- What a section of `euro_tick` keeps when the jacks are not followed. -/
def EuroKeeps (s s' : SyncWorld) : Prop :=
  s'.core = s.core ∧ s'.midi = s.midi ∧ s'.euro.mode = s.euro.mode

theorem EuroKeeps.trans {s s' s'' : SyncWorld} (h : EuroKeeps s s') (h' : EuroKeeps s' s'') :
    EuroKeeps s s'' :=
  ⟨h'.1.trans h.1, h'.2.1.trans h.2.1, h'.2.2.trans h.2.2⟩

theorem euro_clock_keeps (i : EuroInputs) {s : SyncWorld} (hmode : s.euro.mode ≠ .follower) :
    EuroKeeps s (euroClock i s) := by
  have hfollow : ¬ (s.euro.mode = .follower ∧ 0 < s.euro.bpm) := fun h => hmode h.1
  unfold euroClock
  split
  · dsimp only
    rw [if_neg hfollow]
    exact ⟨rfl, rfl, rfl⟩
  · exact ⟨rfl, rfl, rfl⟩

theorem euro_reset_keeps (i : EuroInputs) {s : SyncWorld} (hmode : s.euro.mode ≠ .follower) :
    EuroKeeps s (euroReset i s) := by
  unfold euroReset
  split
  · dsimp only
    rw [if_neg hmode]
    exact ⟨rfl, rfl, rfl⟩
  · exact ⟨rfl, rfl, rfl⟩

theorem euro_run_keeps (i : EuroInputs) {s : SyncWorld} (hmode : s.euro.mode ≠ .follower) :
    EuroKeeps s (euroRun i s) := by
  unfold euroRun
  dsimp only
  split
  · exact ⟨rfl, rfl, rfl⟩
  · exact ⟨rfl, rfl, rfl⟩

/-- The Eurorack tick never reaches the firmware while the jacks are not followed. -/
theorem observing_euro_tick (i : EuroInputs) {s : SyncWorld} (hobs : Observing s) :
    EuroKeeps s (euroTick i s) := by
  have hmeasure : EuroKeeps s { s with euro := euroMeasure i s.euro } :=
    ⟨rfl, rfl, euro_measure_mode i s.euro⟩
  have hmode {t : SyncWorld} (h : EuroKeeps s t) : t.euro.mode ≠ .follower := by
    rw [h.2.2]
    exact hobs.euro
  have hclock := hmeasure.trans (euro_clock_keeps i (hmode hmeasure))
  have hreset := hclock.trans (euro_reset_keeps i (hmode hclock))
  exact hreset.trans (euro_run_keeps i (hmode hreset))

/-! ## A run -/

/-- The modes stay what they are. -/
theorem sync_step_observing {s : SyncWorld} (hobs : Observing s) (e : SyncEvent) :
    Observing (syncStep s e) := by
  cases e with
  | midiTick i =>
      obtain ⟨hmidi, heuro⟩ := midi_tick_modes i s
      refine ⟨?_, ?_⟩
      · rw [syncStep, hmidi]
        exact hobs.midi
      · rw [syncStep, heuro]
        exact hobs.euro
  | euroTick i =>
      obtain ⟨_, hmidi, heuro⟩ := observing_euro_tick i hobs
      refine ⟨?_, ?_⟩
      · rw [syncStep, hmidi]
        exact hobs.midi
      · rw [syncStep, heuro]
        exact hobs.euro
  | core e => exact ⟨hobs.midi, hobs.euro⟩

/-- A quiet step does to the firmware what its handler does, and a tick has none. -/
theorem quiet_step_core {s : SyncWorld} (hobs : Observing s) {e : SyncEvent} (hquiet : Quiet s e) :
    (syncStep s e).core = e.handler.elim s.core (step s.core) := by
  cases e with
  | midiTick i => exact (observing_midi_tick i hobs).trans (if_pos hquiet)
  | euroTick i => exact (observing_euro_tick i hobs).1
  | core e => rfl

/-- For the firmware, a quiet run is the run of its other handlers. -/
theorem quiet_run_core {s : SyncWorld} (hobs : Observing s) {es : List SyncEvent}
    (hquiet : Guarded syncStep Quiet s es) :
    (run syncStep s es).core = runEvents s.core (es.filterMap SyncEvent.handler) := by
  induction es generalizing s with
  | nil => rfl
  | cons e es ih =>
      have hrest := ih (sync_step_observing hobs e) hquiet.2
      rw [run_cons, hrest, quiet_step_core hobs hquiet.1, List.filterMap_cons]
      cases e.handler <;> rfl

/-- With no START, CONTINUE or STOP drained while MIDI is observed, the ticks of both sources
leave the firmware's whole state as it was, and runs of the same other handlers end with the
same state whatever the sources show. -/
theorem observed_sources_ignored {s : SyncWorld} (hobs : Observing s) :
    (∀ ticks, (∀ e ∈ ticks, e.handler = none) → Guarded syncStep Quiet s ticks →
      (run syncStep s ticks).core = s.core) ∧
    ∀ es es', Guarded syncStep Quiet s es → Guarded syncStep Quiet s es' →
      es.filterMap SyncEvent.handler = es'.filterMap SyncEvent.handler →
      (run syncStep s es).core = (run syncStep s es').core := by
  refine ⟨fun ticks hticks hquiet => ?_, fun es es' hes hes' hsame => ?_⟩
  · rw [quiet_run_core hobs hquiet, List.filterMap_eq_nil_iff.mpr hticks]
    rfl
  · rw [quiet_run_core hobs hes, quiet_run_core hobs hes', hsame]

/-! ## The default modes -/

/-- The device a second after power-up, in the modes it boots with and with no cable plugged. -/
def freshSync : SyncWorld := syncInit (boot (fun _ => 1000000) 0 []) 0 0 0 0

/-- A MIDI tick that drains a byte. -/
def drained (byte : UInt8) : SyncEvent := .midiTick ⟨20833, true, byte, 0, 0, 120⟩

/-- A MIDI tick with nothing to drain. -/
def undrained : SyncEvent := .midiTick ⟨0, false, 0, 0, 0, 0⟩

theorem fresh_sync_observing : Observing freshSync := ⟨by decide, by decide⟩

theorem observed_sources_ignored_clock :
    (run syncStep freshSync [drained midiRtClock, .core .linkTick,
        .euroTick ⟨3, 1, 1, 125000, 1, 120⟩]).core =
      (run syncStep freshSync [.core .linkTick, undrained]).core :=
  (observed_sources_ignored fresh_sync_observing).2 _ _ (by decide) (by decide) rfl

/-- Two runs with the same handlers and ticks: with no MIDI message nothing plays and no ALIVE is
pending, with a START the device plays and an ALIVE is due at once. -/
theorem observed_start_plays :
    Observing freshSync ∧
    (run syncStep freshSync [.core .linkTick, undrained]).core.linkSelfStartstop.isPlaying = 0 ∧
    (run syncStep freshSync [.core .linkTick, undrained]).core.sStateDirty = false ∧
    (run syncStep freshSync
      [.core .linkTick, drained midiRtStart]).core.linkSelfStartstop.isPlaying = 1 ∧
    (run syncStep freshSync [.core .linkTick, drained midiRtStart]).core.sStateDirty = true :=
  ⟨fresh_sync_observing, by decide +kernel, by decide +kernel, by decide +kernel,
    by decide +kernel⟩

end LinkFPGA
