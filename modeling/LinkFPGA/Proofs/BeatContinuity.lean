import Mathlib.Data.Rat.Cast.Order
import Mathlib.Tactic.FieldSimp
import LinkFPGA.Firmware.CheckedArithmetic
import LinkFPGA.Library.Reanchor

/-!
# The beat position across tempo edits

A timeline is a line: microbeats over ghost time, at `1000000 / tempo` microbeats per microsecond.
`link_set_local_tempo` turns it at the ghost time of the edit and truncates the new beat origin,
which costs less than a microbeat. So `k` edits cost at most `k` microbeats, as long as no edit
overflows (`beat_continuous_iff`). `beat_position_jumps` is an edit that does.
-/

namespace LinkFPGA

open Runs Reanchor

/-- A call of `link_set_local_tempo`, and the ghost time it reads. -/
structure TempoEdit where
  bpm : Rat
  nowG : Int64

/-- The integral part of a rational. -/
def truncated (q : Rat) : Int := q.num.tdiv q.den

/-- Microseconds per beat, rounded. -/
def TempoEdit.tempo (e : TempoEdit) : Int := truncated (60000000 / e.bpm + 1 / 2)

/-- The timeline after an edit. -/
def retimedBy (tl : Timeline) (e : TempoEdit) : Timeline := retimed e.bpm e.nowG tl

/-- The microbeats between the time origin and the time of an edit. -/
def beatsSince (tl : Timeline) (e : TempoEdit) : Rat :=
  ((e.nowG.toInt - tl.timeOriginUsGhost.toInt : Int) : Rat) * 1000000 / tl.tempoUsPerBeat.toInt

/-- An edit within the range of `int64_t`: the time since the time origin, the microbeats in it, the
beat position and the new tempo. -/
structure EditFits (tl : Timeline) (e : TempoEdit) : Prop where
  tempo : FitsInt64 e.tempo
  elapsed : FitsInt64 (e.nowG.toInt - tl.timeOriginUsGhost.toInt)
  beats : FitsInt64 (truncated (beatsSince tl e))
  position : FitsInt64 (tl.beatOriginMicrobeats.toInt + truncated (beatsSince tl e))

/-- The beat position that a timeline gives. -/
def beatLine (tl : Timeline) : Line Rat where
  time := tl.timeOriginUsGhost.toInt
  value := tl.beatOriginMicrobeats.toInt
  rate := 1000000 / tl.tempoUsPerBeat.toInt

/-- The integral of the tempi: the beat position with no edit truncated. -/
def exactBeats (tl : Timeline) (es : List TempoEdit) : Line Rat :=
  run (fun l e => l.turn e.nowG.toInt (1000000 / e.tempo)) (beatLine tl) es

/-- The edits overflow nothing, and the beat position is at no time further from the integral of
the tempi than a microbeat for each edit. -/
structure BeatContinuous (tl : Timeline) (es : List TempoEdit) : Prop where
  defined : es.foldlM (fun tl e => Checked.retimed e.bpm e.nowG tl) tl = some (run retimedBy tl es)
  near : ∀ t : Rat,
    |(beatLine (run retimedBy tl es)).eval t - (exactBeats tl es).eval t| ≤ es.length

/-- `link_set_local_tempo` is an edit at the ghost time it reads. -/
theorem set_local_tempo_timeline (bpm : Rat) (w : World) :
    (linkSetLocalTempo bpm w).linkSelfTimeline =
      retimedBy w.linkSelfTimeline ⟨bpm, (ghostNow w).toInt64⟩ := rfl

/-! ## One edit -/

/-- Truncation toward zero costs less than 1. -/
theorem truncated_near (q : Rat) : |(truncated q : Rat) - q| ≤ 1 := by
  have hden : (0 : Rat) < q.den := Nat.cast_pos.mpr q.den_pos
  have hden' : (0 : Int) < q.den := Int.natCast_pos.mpr q.den_pos
  have hsum : q.den * truncated q + q.num.tmod q.den = q.num := Int.mul_tdiv_add_tmod q.num q.den
  have hrest : |q.num.tmod q.den| ≤ q.den :=
    abs_le.mpr ⟨(Int.lt_tmod_of_pos q.num hden').le, (Int.tmod_lt_of_pos q.num hden').le⟩
  have hgap : ((truncated q : Rat) - q) * q.den = ((-q.num.tmod q.den : Int) : Rat) := by
    have hcast : (q.den : Rat) * truncated q + (q.num.tmod q.den : Int) = q.num := by
      exact_mod_cast hsum
    have hnum := Rat.mul_den_eq_num q
    push_cast
    linarith
  have habs : |(truncated q : Rat) - q| * q.den ≤ 1 * q.den := by
    rw [one_mul, ← abs_of_pos hden, ← abs_mul, abs_of_pos hden, hgap, ← Int.cast_abs, abs_neg]
    exact_mod_cast hrest
  exact le_of_mul_le_mul_right habs hden

theorem trunc_toInt {q : Rat} (h : FitsInt64 (truncated q)) :
    (truncToInt64 q).toInt = truncated q :=
  Int64.toInt_ofInt_of_le h.1 h.2

/-- The quotient of an edit whose time since the origin fits. -/
theorem beats_of_elapsed {tl : Timeline} {e : TempoEdit}
    (h : FitsInt64 (e.nowG.toInt - tl.timeOriginUsGhost.toInt)) :
    ((e.nowG - tl.timeOriginUsGhost).toInt : Rat) * 1000000 / tl.tempoUsPerBeat.toInt =
      beatsSince tl e := by
  rw [sub_toInt_of_fits h, beatsSince]

theorem trunc_checked_eq_some {q : Rat} {z : Int64} :
    Checked.truncToInt64 q = some z ↔ FitsInt64 (truncated q) ∧ z = truncToInt64 q := by
  unfold Checked.truncToInt64
  rw [← truncated]
  split <;> simp_all [eq_comm]

/-- A checked edit is the edit where it fits, and stops elsewhere. -/
theorem checked_retimed {tl : Timeline} (htempo : 0 < tl.tempoUsPerBeat.toInt) (e : TempoEdit)
    (tl' : Timeline) : Checked.retimed e.bpm e.nowG tl = some tl' ↔
      EditFits tl e ∧ tl' = retimedBy tl e := by
  have hnonzero : tl.tempoUsPerBeat ≠ 0 := fun h => by simp [h] at htempo
  simp only [Checked.retimed, Checked.beatsAt, Option.bind_eq_bind, Option.bind_eq_some_iff,
    sub_checked_eq_some, add_checked_eq_some, trunc_checked_eq_some, hnonzero, if_false,
    Option.pure_def, Option.some.injEq]
  constructor
  · rintro ⟨_, ⟨htempo, rfl⟩, _, ⟨_, ⟨helapsed, rfl⟩, _, ⟨hbeats, rfl⟩, hposition, rfl⟩, rfl⟩
    rw [beats_of_elapsed helapsed] at hbeats hposition
    rw [trunc_toInt hbeats] at hposition
    exact ⟨⟨htempo, helapsed, hbeats, hposition⟩, rfl⟩
  · rintro ⟨h, rfl⟩
    have hbeats := beats_of_elapsed h.elapsed
    refine ⟨_, ⟨h.tempo, rfl⟩, _, ⟨_, ⟨h.elapsed, rfl⟩, _, ⟨?_, rfl⟩, ?_, rfl⟩, rfl⟩
    · rw [hbeats]
      exact h.beats
    · rw [hbeats, trunc_toInt h.beats]
      exact h.position

/-- An edit that fits turns the beat position with an error of at most a microbeat. -/
theorem retimed_near {tl : Timeline} {e : TempoEdit} (h : EditFits tl e) :
    TurnsNear beatLine (fun e : TempoEdit => (e.nowG.toInt : Rat))
      (fun e => 1000000 / e.tempo) 1 tl (retimedBy tl e) e := by
  have hbeats : (retimedBy tl e).beatOriginMicrobeats.toInt =
      tl.beatOriginMicrobeats.toInt + truncated (beatsSince tl e) := by
    have hposition := h.position
    rw [← trunc_toInt h.beats] at hposition
    rw [retimedBy, retimed, beatsAt, beats_of_elapsed h.elapsed, add_toInt_of_fits hposition,
      trunc_toInt h.beats]
  refine ⟨rfl, ?_, ?_⟩
  · show 1000000 / ((truncToInt64 _).toInt : Rat) = _
    rw [trunc_toInt h.tempo]
    rfl
  · have hexact : (beatLine tl).eval e.nowG.toInt =
        tl.beatOriginMicrobeats.toInt + beatsSince tl e := by
      rw [beatLine, Line.eval, beatsSince]
      push_cast
      ring
    rw [hexact, show (beatLine (retimedBy tl e)).value = _ from congrArg Int.cast hbeats]
    push_cast
    rw [add_sub_add_left_eq_sub]
    exact truncated_near _

/-! ## Any number of edits -/

/-- The checked edits are the edits exactly when all of them fit. -/
theorem checked_edits {tl : Timeline} {es : List TempoEdit} (htempo : 0 < tl.tempoUsPerBeat.toInt)
    (hes : ∀ e ∈ es, 0 < e.tempo) :
    es.foldlM (fun tl e => Checked.retimed e.bpm e.nowG tl) tl = some (run retimedBy tl es) ↔
      Guarded retimedBy EditFits tl es := by
  induction es generalizing tl with
  | nil => exact iff_of_true rfl trivial
  | cons e es ih =>
      have hedit := checked_retimed htempo e
      rw [List.foldlM_cons, Option.bind_eq_bind, Option.bind_eq_some_iff, Guarded]
      simp only [hedit, run_cons]
      constructor
      · rintro ⟨_, ⟨hfits, rfl⟩, hrest⟩
        have hnext : 0 < (retimedBy tl e).tempoUsPerBeat.toInt :=
          (trunc_toInt hfits.tempo).symm ▸ hes e List.mem_cons_self
        exact ⟨hfits, (ih hnext fun e' he => hes e' (List.mem_cons_of_mem e he)).mp hrest⟩
      · rintro ⟨hfits, hrest⟩
        have hnext : 0 < (retimedBy tl e).tempoUsPerBeat.toInt :=
          (trunc_toInt hfits.tempo).symm ▸ hes e List.mem_cons_self
        have hlater := (ih hnext fun e' he => hes e' (List.mem_cons_of_mem e he)).mpr hrest
        exact ⟨_, ⟨hfits, rfl⟩, hlater⟩

/-- For every timeline with a positive tempo and every sequence of edits that give positive tempi:
the edits overflow nothing and keep the beat position within a microbeat each of the integral of the
tempi, at all times, if and only if every edit is within the range of `int64_t`. -/
theorem beat_continuous_iff {tl : Timeline} {es : List TempoEdit}
    (htempo : 0 < tl.tempoUsPerBeat.toInt) (hes : ∀ e ∈ es, 0 < e.tempo) :
    BeatContinuous tl es ↔ Guarded retimedBy EditFits tl es := by
  rw [← checked_edits htempo hes]
  refine ⟨BeatContinuous.defined, fun hdefined => ⟨hdefined, fun t => ?_⟩⟩
  have hfits := (checked_edits htempo hes).mp hdefined
  have hnear := run_near (fun _ _ => retimed_near) hfits (.refl (beatLine tl)) t
  rwa [sub_self, abs_zero, zero_add, mul_one] at hnear

/-- A second of 120 BPM, then 174 BPM, then 90 BPM. -/
theorem beat_continuous_iff_two :
    BeatContinuous ⟨500000, 0, 0⟩ [⟨174, 1000000⟩, ⟨90, 1333333⟩] := by
  have hfits : Guarded retimedBy EditFits ⟨500000, 0, 0⟩ [⟨174, 1000000⟩, ⟨90, 1333333⟩] := by
    refine ⟨?_, ?_, trivial⟩ <;> constructor <;> decide +kernel
  exact (beat_continuous_iff (by decide) (by decide +kernel)).mpr hfits

/-- A timeline whose beat origin is the greatest `int64_t`, as a peer may announce it. -/
def lastTimeline : Timeline := ⟨500000, 2 ^ 63 - 1, 0⟩

/-- Half a second after its time origin, an edit at the tempo that it has wraps the beat
position. -/
theorem beat_position_jumps :
    ¬ ∀ (tl : Timeline) (es : List TempoEdit), 0 < tl.tempoUsPerBeat.toInt →
      (∀ e ∈ es, 0 < e.tempo) → es.Pairwise (fun e e' => e.nowG.toInt ≤ e'.nowG.toInt) →
      ∀ t : Rat, (∀ e ∈ es, e.nowG.toInt ≤ t) →
        |(beatLine (run retimedBy tl es)).eval t - (exactBeats tl es).eval t| ≤ es.length := by
  intro h
  have hjump := h lastTimeline [⟨120, 500000⟩] (by decide) (by decide +kernel) (by simp) 500000
    (by simp)
  have hafter : (beatLine (retimedBy lastTimeline ⟨120, 500000⟩)).eval 500000 =
      -2 ^ 63 + 999999 := by
    decide +kernel
  have hexact : (exactBeats lastTimeline [⟨120, 500000⟩]).eval 500000 = 2 ^ 63 + 999999 := by
    decide +kernel
  rw [run_cons, run_nil, hafter, hexact] at hjump
  norm_num [abs_le] at hjump

end LinkFPGA
