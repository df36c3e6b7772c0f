import Mathlib.Data.Rat.Cast.Order
import Mathlib.Tactic.FieldSimp
import Mathlib.Tactic.Positivity
import LinkFPGA.Proofs.SyncSources

/-!
# The tempo measured at the clock jack

`euro_tick` computes `s_bpm` from the period and the PPQN when the period changes, and
`euro_set_ppqn` does not compute it. Between two readings of a period the BPM is therefore the one
at the last reading (`Measured`), and a tick has it right exactly when it reads another period or
finds the PPQN of that reading (`tempo_exact_iff`).
-/

namespace LinkFPGA

open Runs

/-- The period a tick reads, if there is one, with the PPQN it finds. -/
def readings (s : SyncWorld) : EuroCall → List (UInt32 × UInt8)
  | .tick i => if 0 < i.clkPeriod then [(i.clkPeriod, s.euro.ppqn)] else []
  | _ => []

/-- The tick is of a follower and finds new clock edges. -/
def FollowsEdge (s : SyncWorld) (i : EuroInputs) : Prop :=
  i.clkCount ≠ s.euro.lastClkCount ∧ s.euro.mode = .follower

instance decidableFollowsEdge (s : SyncWorld) (i : EuroInputs) : Decidable (FollowsEdge s i) :=
  inferInstanceAs (Decidable (_ ∧ _))

/-- The argument of the call of `link_set_local_tempo` in a tick. -/
def tempoCall (s : SyncWorld) (i : EuroInputs) : Option Rat :=
  let bpm := (euroMeasure i s.euro).bpm
  if FollowsEdge s i ∧ 0 < bpm then some bpm else none

/-- After a tick that reads a period, `s_bpm` is the tempo of that period at the PPQN, and a tick
sets the local tempo to that of the period and the PPQN it leaves. -/
def TempoExact (s : SyncWorld) : EuroCall → Prop
  | .tick i =>
      let e := (euroStep s (.tick i)).euro
      (0 < i.clkPeriod → e.bpm = euroBpm i.clkPeriod e.ppqn) ∧
        ∀ bpm ∈ tempoCall s (i.atPpqn s.euro.ppqn), bpm = euroBpm e.period e.ppqn
  | _ => True

/-- A tick that reads the period of the last reading, or follows an edge without reading one, finds
the PPQN of that reading. -/
def PpqnKept (x : SyncWorld × List (UInt32 × UInt8)) : EuroCall → Prop
  | .tick i => ∀ last ∈ x.2.getLast?,
      i.clkPeriod = last.1 ∨ i.clkPeriod = 0 ∧ FollowsEdge x.1 i → last.2 = x.1.euro.ppqn
  | _ => True

/-- The statics are those of the last reading. -/
structure Measured (x : SyncWorld × List (UInt32 × UInt8)) : Prop where
  ppqn : x.1.euro.ppqn ≠ 0
  unread : x.2.getLast? = none → x.1.euro.period = 0 ∧ x.1.euro.bpm = 0
  read : ∀ last ∈ x.2.getLast?, 0 < last.1 ∧ last.2 ≠ 0 ∧ x.1.euro.period = last.1 ∧
    x.1.euro.bpm = euroBpm last.1 last.2

/-- What the period meter leaves, and the PPQN. -/
def EuroState.meter (e : EuroState) : UInt8 × UInt32 × Rat := (e.ppqn, e.period, e.bpm)

/-! ## One tick -/

@[simp] theorem euro_clock_meter (i : EuroInputs) (s : SyncWorld) :
    (euroClock i s).euro.meter = s.euro.meter := by
  unfold euroClock
  split
  · dsimp only
    split <;> rfl
  · rfl

@[simp] theorem euro_reset_meter (i : EuroInputs) (s : SyncWorld) :
    (euroReset i s).euro.meter = s.euro.meter := by
  unfold euroReset
  split
  · dsimp only
    split <;> rfl
  · rfl

@[simp] theorem euro_run_meter (i : EuroInputs) (s : SyncWorld) :
    (euroRun i s).euro.meter = s.euro.meter := by
  unfold euroRun
  dsimp only
  split
  · split <;> rfl
  · rfl

/-- A tick that reads another period measures it at the PPQN; one that does not measures nothing. -/
theorem euro_tick_meter (i : EuroInputs) (s : SyncWorld) :
    (euroStep s (.tick i)).euro.meter =
      if 0 < i.clkPeriod ∧ i.clkPeriod ≠ s.euro.period then
        (s.euro.ppqn, i.clkPeriod, euroBpm i.clkPeriod s.euro.ppqn)
      else s.euro.meter := by
  simp only [euroStep, euroTick, euro_run_meter, euro_reset_meter, euro_clock_meter, euroMeasure,
    EuroInputs.atPpqn]
  exact apply_ite EuroState.meter _ _ _

/-- What `tempoCall` says is the call is the call. -/
theorem euro_clock_calls (i : EuroInputs) (s : SyncWorld) :
    (euroClock i { s with euro := euroMeasure i s.euro }).core =
      (tempoCall s i).elim s.core (linkSetLocalTempo · s.core) := by
  have hkept : (euroMeasure i s.euro).lastClkCount = s.euro.lastClkCount ∧
      (euroMeasure i s.euro).mode = s.euro.mode := by
    unfold euroMeasure
    split <;> exact ⟨rfl, rfl⟩
  unfold euroClock tempoCall FollowsEdge
  by_cases hedge : i.clkCount = s.euro.lastClkCount
  · simp [hkept.1, hedge]
  · by_cases hfollow : s.euro.mode = .follower ∧ 0 < (euroMeasure i s.euro).bpm
    · simp [hkept, hedge, hfollow]
    · simp only [hkept, ne_eq, hedge, not_false_eq_true, if_true, true_and, hfollow, if_false]
      rfl

/-- The call passes the BPM that the tick leaves. -/
theorem tempo_call_eq (i : EuroInputs) (s : SyncWorld) :
    tempoCall s (i.atPpqn s.euro.ppqn) =
      if FollowsEdge s i ∧ 0 < (euroStep s (.tick i)).euro.bpm then
        some (euroStep s (.tick i)).euro.bpm
      else none := by
  have hbpm : (euroStep s (.tick i)).euro.bpm = (euroMeasure (i.atPpqn s.euro.ppqn) s.euro).bpm :=
    congrArg (fun m => m.2.2) (show (euroStep s (.tick i)).euro.meter =
      (euroMeasure (i.atPpqn s.euro.ppqn) s.euro).meter by simp [euroStep, euroTick])
  rw [hbpm]
  rfl

/-! ## The tempo of a period -/

theorem euro_bpm_pos {period : UInt32} {ppqn : UInt8} (hperiod : 0 < period) (hppqn : ppqn ≠ 0) :
    0 < euroBpm period ppqn := by
  have hp : 0 < period.toNat := UInt32.lt_iff_toNat_lt.mp hperiod
  have hn : 0 < ppqn.toNat := Nat.pos_of_ne_zero fun h => hppqn (UInt8.toNat_inj.mp h)
  unfold euroBpm
  positivity

/-- The tempo of a period tells the PPQN. -/
theorem euro_bpm_inj {period : UInt32} {ppqn other : UInt8} (hperiod : 0 < period)
    (hppqn : ppqn ≠ 0) (hother : other ≠ 0) :
    euroBpm period ppqn = euroBpm period other ↔ ppqn = other := by
  refine ⟨fun h => ?_, fun h => h ▸ rfl⟩
  have hp : (period.toNat : Rat) ≠ 0 :=
    Nat.cast_ne_zero.mpr (UInt32.lt_iff_toNat_lt.mp hperiod).ne'
  have hn : (ppqn.toNat : Rat) ≠ 0 :=
    Nat.cast_ne_zero.mpr fun h => hppqn (UInt8.toNat_inj.mp h)
  have ho : (other.toNat : Rat) ≠ 0 :=
    Nat.cast_ne_zero.mpr fun h => hother (UInt8.toNat_inj.mp h)
  rw [euroBpm, euroBpm, div_eq_div_iff (mul_ne_zero hp hn) (mul_ne_zero hp ho),
    mul_right_inj' (by norm_num), mul_right_inj' hp] at h
  exact (UInt8.toNat_inj.mp (Nat.cast_injective h)).symm

/-! ## A step -/

/-- The period that a tick leaves is the one it reads, if it reads one. -/
theorem euro_tick_period {i : EuroInputs} (s : SyncWorld) (hread : 0 < i.clkPeriod) :
    (euroStep s (.tick i)).euro.period = i.clkPeriod := by
  have hmeter := congrArg (fun m => m.2.1) (euro_tick_meter i s)
  by_cases hsame : i.clkPeriod = s.euro.period
  · simpa [EuroState.meter, hsame] using hmeter
  · simpa [EuroState.meter, hsame, hread] using hmeter

/-- A tick is right when the BPM it leaves is, unless it neither reads a period nor calls. -/
theorem tempo_exact_tick (i : EuroInputs) (s : SyncWorld) :
    TempoExact s (.tick i) ↔
      let e := (euroStep s (.tick i)).euro
      0 < i.clkPeriod ∨ FollowsEdge s i ∧ 0 < e.bpm → e.bpm = euroBpm e.period e.ppqn := by
  have hcall := tempo_call_eq i s
  have hperiod := euro_tick_period (i := i) s
  unfold TempoExact
  dsimp only
  rw [hcall]
  by_cases hread : 0 < i.clkPeriod
  · rw [hperiod hread]
    simp +contextual [hread]
  · simp [hread]

/-- A tick that measures nothing reads the period of the last reading, or none. -/
theorem reads_or_follows {period last : UInt32} (hlast : 0 < last)
    (hsame : 0 < period → period = last) (follows : Prop) :
    0 < period ∨ follows ↔ period = last ∨ period = 0 ∧ follows := by
  by_cases h : period = last
  · exact iff_of_true (.inl (h ▸ hlast)) (.inl h)
  · have hunread := mt hsame h
    have hzero : period = 0 := not_not.mp (mt UInt32.pos_iff_ne_zero.mpr hunread)
    rw [or_iff_right hunread, or_iff_right h, and_iff_right hzero]

/-- In a state that is as the last reading left it, a tick has the tempo right exactly when it
finds the PPQN it needs. -/
theorem tempo_exact_step {x : SyncWorld × List (UInt32 × UInt8)} (h : Measured x) (c : EuroCall) :
    TempoExact x.1 c ↔ PpqnKept x c := by
  cases c with
  | setPpqn | setSyncMode | midiTick | core => exact Iff.rfl
  | tick i =>
      have hmeter := euro_tick_meter i x.1
      have hzero : 0 < i.clkPeriod ↔ i.clkPeriod ≠ 0 := UInt32.pos_iff_ne_zero
      rw [tempo_exact_tick]
      by_cases hnew : 0 < i.clkPeriod ∧ i.clkPeriod ≠ x.1.euro.period
      · -- the BPM is computed, and the period is not that of the last reading
        rw [if_pos hnew] at hmeter
        simp only [EuroState.meter, Prod.mk.injEq] at hmeter
        refine iff_of_true (fun _ => by rw [hmeter.1, hmeter.2.1, hmeter.2.2]) ?_
        intro last hlast huse
        obtain ⟨-, -, hperiod, -⟩ := h.read last hlast
        rcases huse with hsame | ⟨hunread, -⟩
        · exact absurd (hsame.trans hperiod.symm) hnew.2
        · exact absurd hunread (hzero.mp hnew.1)
      · rw [if_neg hnew] at hmeter
        simp only [EuroState.meter, Prod.mk.injEq] at hmeter
        obtain ⟨hppqn, hperiod, hbpm⟩ := hmeter
        cases hlast : x.2.getLast? with
        | none =>
            -- no period has been read, and none is
            obtain ⟨hperiod0, hbpm0⟩ := h.unread hlast
            have hunread : ¬ 0 < i.clkPeriod := fun hread =>
              hnew ⟨hread, hperiod0 ▸ hzero.mp hread⟩
            simp [PpqnKept, hlast, hunread, hbpm, hbpm0]
        | some last =>
            obtain ⟨hpos, hkept, hperiod', hbpm'⟩ := h.read last hlast
            have htempo := euro_bpm_pos hpos hkept
            have hinj := euro_bpm_inj hpos hkept h.ppqn
            have huse : 0 < i.clkPeriod ∨ FollowsEdge x.1 i ↔
                i.clkPeriod = last.1 ∨ i.clkPeriod = 0 ∧ FollowsEdge x.1 i := by
              rw [hperiod', not_and_not_right] at hnew
              exact reads_or_follows hpos hnew _
            simp only [PpqnKept, hlast, Option.mem_some_iff, forall_eq', hbpm, hbpm', hperiod,
              hperiod', hppqn, hinj, htempo, and_true, huse]

/-- A tick that has the tempo right leaves what its reading measured. -/
theorem measured_step {x : SyncWorld × List (UInt32 × UInt8)} {c : EuroCall} (h : Measured x)
    (hexact : TempoExact x.1 c) : Measured (recorded euroStep readings x c) := by
  -- a call that reads nothing and keeps the meter
  have hkeep {s : SyncWorld} (hppqn : s.euro.ppqn ≠ 0) (hperiod : s.euro.period = x.1.euro.period)
      (hbpm : s.euro.bpm = x.1.euro.bpm) : Measured (s, x.2 ++ []) := by
    rw [List.append_nil]
    exact ⟨hppqn, hperiod ▸ hbpm ▸ h.unread, hperiod ▸ hbpm ▸ h.read⟩
  cases c with
  | setPpqn ppqn =>
      refine hkeep ?_ rfl rfl
      show (if ppqn = 0 then (1 : UInt8) else ppqn) ≠ 0
      split
      · decide
      · assumption
  | setSyncMode m => exact hkeep h.ppqn rfl rfl
  | core e => exact hkeep h.ppqn rfl rfl
  | midiTick i =>
      have heuro : (euroStep x.1 (.midiTick i)).euro = x.1.euro := (midi_tick_modes i x.1).2
      exact hkeep (heuro ▸ h.ppqn) (heuro ▸ rfl) (heuro ▸ rfl)
  | tick i =>
      have hmeter := euro_tick_meter i x.1
      have hppqn : (euroStep x.1 (.tick i)).euro.ppqn = x.1.euro.ppqn := by
        have hfirst := congrArg Prod.fst hmeter
        rw [apply_ite Prod.fst] at hfirst
        exact hfirst.trans (ite_self _)
      by_cases hread : 0 < i.clkPeriod
      · have hbpm := (tempo_exact_tick i x.1).mp hexact (.inl hread)
        have hperiod := euro_tick_period x.1 hread
        rw [hppqn, hperiod] at hbpm
        simp only [recorded, readings, hread, if_true]
        refine ⟨hppqn ▸ h.ppqn, by simp, ?_⟩
        simp [hread, h.ppqn, hperiod, hbpm]
      · rw [if_neg fun hnew => hread hnew.1] at hmeter
        simp only [EuroState.meter, Prod.mk.injEq] at hmeter
        simp only [recorded, readings, hread, if_false]
        exact hkeep (hppqn ▸ h.ppqn) hmeter.2.1 hmeter.2.2

/-! ## A run -/

/-- In every run from power-up, whatever the jacks show and however they are configured, every tick
has the tempo right if and only if every tick that reads the period of the last reading, or follows
an edge without reading one, finds the PPQN of that reading. -/
theorem tempo_exact_iff (core : World) (clkCount rstCount runCount status : UInt32)
    (calls : List EuroCall) :
    Guarded euroStep TempoExact (syncInit core clkCount rstCount runCount status) calls ↔
      Guarded (recorded euroStep readings) PpqnKept
        (syncInit core clkCount rstCount runCount status, []) calls := by
  have hinit : Measured (syncInit core clkCount rstCount runCount status, []) :=
    ⟨show (4 : UInt8) ≠ 0 by decide, fun _ => ⟨rfl, rfl⟩, fun last hlast => by cases hlast⟩
  have hagree : Guarded (recorded euroStep readings) (fun x => TempoExact x.1) _ calls ↔
      Guarded (recorded euroStep readings) PpqnKept _ calls :=
    guarded_congr (motive := Measured) (fun _ _ => measured_step)
      (fun _ c h => tempo_exact_step h c) hinit calls
  exact (guarded_recorded _ [] calls).symm.trans hagree

/-- The jacks show a pulse each 125 ms, and the PPQN is set to 24 between two ticks. -/
def reconfigured : List EuroCall :=
  [.tick ⟨1, 0, 0, 125000, 0, 0⟩, .setPpqn 24, .tick ⟨2, 0, 0, 125000, 0, 0⟩]

/-- The second tick leaves 120 BPM, the tempo at the PPQN of 4 that was set before. -/
theorem stale_tempo :
    ¬ ∀ (core : World) (clkCount rstCount runCount status : UInt32) (calls : List EuroCall),
      Guarded euroStep TempoExact (syncInit core clkCount rstCount runCount status) calls := by
  intro h
  obtain ⟨-, -, ⟨hbpm, -⟩, -⟩ := h freshSync.core 0 0 0 0 reconfigured
  exact absurd (hbpm (by decide)) (by decide +kernel)

end LinkFPGA
