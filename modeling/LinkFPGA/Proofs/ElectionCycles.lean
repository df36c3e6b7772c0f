import Mathlib.Data.Finset.Insert
import LinkFPGA.Library.Threshold
import LinkFPGA.Proofs.Election

/-!
# Can the election go round?

Between two sessions the `SESSION_EPS` rule never points both ways. Among three or more it can go
round: the tie-break leads to smaller identifiers whose ghost times may each be a little earlier,
and once they are more than `SESSION_EPS` earlier than the first, the rule leads back to it.
`switching_cycle_iff` says that this is the only way, and `three_sessions_cycle` is the
smallest case.
-/

namespace LinkFPGA

open Relation

/-- Sessions and their ghost times, which a measurement can compare exactly. -/
structure Sessions where
  ids : Finset LinkId
  ghost : LinkId → Int
  fits : ∀ s ∈ ids, ∀ t ∈ ids, |ghost t - ghost s| < 2 ^ 63

namespace Sessions

/-- A node in session `s` has measured session `t`, exactly. -/
structure Measures (n : Sessions) (s t : n.ids) (w : World) (intercept : Int64) : Prop where
  session : w.linkSelfSession = s
  target : w.sActiveTargetSession = t
  exact : (intercept - ghostTimeGetIntercept w).toInt = n.ghost t - n.ghost s

/-- Some node in session `s` that has measured session `t` exactly switches to `t`. -/
def SwitchesTo (n : Sessions) (s t : n.ids) : Prop :=
  s ≠ t ∧ ∃ w intercept, n.Measures s t w intercept ∧
    (onMeasureDone true intercept w).linkSelfSession = t

/-- `t` is less than `SESSION_EPS` away from `s` and has the smaller identifier. -/
def StepsDown (n : Sessions) (s t : n.ids) : Prop :=
  |n.ghost t - n.ghost s| < 500000 ∧ (t : LinkId).bytes < (s : LinkId).bytes

variable (n : Sessions)

/-- The rule on the ghost times themselves. -/
abbrev Wins (s t : n.ids) : Prop :=
  Threshold.Prefers (fun s : n.ids => n.ghost s) 500000
    (fun t s : n.ids => (t : LinkId).bytes < (s : LinkId).bytes) s t

/-- Every node that has measured exactly decides by the rule. -/
theorem measures_switch_iff {s t : n.ids} (hne : s ≠ t) {w : World} {intercept : Int64}
    (h : n.Measures s t w intercept) :
    (onMeasureDone true intercept w).linkSelfSession = t ↔ n.Wins s t := by
  have houtcome := on_measure_done_outcome intercept w
  have hmin : -2 ^ 63 < (intercept - ghostTimeGetIntercept w).toInt := by
    rw [h.exact]
    exact (abs_lt.mp (n.fits s s.2 t t.2)).1
  have hrule := switch_to_new_iff hmin t s
  rw [h.exact] at hrule
  have hne' : (s : LinkId) ≠ t := fun heq => hne (Subtype.ext heq)
  rw [Outcome, h.session, h.target] at houtcome
  cases hswitch : switchToNew (intercept - ghostTimeGetIntercept w) (t : LinkId) s with
  | true =>
      rw [hswitch, if_pos rfl] at houtcome
      exact iff_of_true houtcome.1 (hrule.mp hswitch)
  | false =>
      rw [hswitch] at houtcome hrule
      have hstays : (onMeasureDone true intercept w).linkSelfSession = s := houtcome.1
      refine iff_of_false (fun hmoves => hne' (hstays.symm.trans hmoves)) fun hwins => ?_
      exact Bool.false_ne_true (hrule.mpr hwins)

/-- There is a node that measures, whatever the two sessions. -/
theorem exists_measures (s t : n.ids) : ∃ w intercept, n.Measures s t w intercept := by
  have hfits := abs_lt.mp (n.fits s s.2 t t.2)
  refine ⟨ghostTimeSetIntercept 0 { powerOn (fun _ => 0) 0 [] with
    linkSelfSession := s
    sActiveTargetSession := t }, .ofInt (n.ghost t - n.ghost s), rfl, rfl, ?_⟩
  rw [ghost_time_get_set, Int64.sub_zero, Int64.toInt_ofInt_of_le (by omega) (by omega)]

theorem switches_to_iff (s t : n.ids) : n.SwitchesTo s t ↔ n.Wins s t := by
  constructor
  · rintro ⟨hne, w, intercept, hmeasures, hmoves⟩
    exact (n.measures_switch_iff hne hmeasures).mp hmoves
  · intro hwins
    have hne : s ≠ t := by
      rintro rfl
      rcases hwins with hahead | ⟨_, hfirst⟩
      · simp [Threshold.Ahead] at hahead
      · exact LinkId.lt_asymm hfirst hfirst
    obtain ⟨w, intercept, hmeasures⟩ := n.exists_measures s t
    exact ⟨hne, w, intercept, hmeasures, (n.measures_switch_iff hne hmeasures).mpr hwins⟩

/-- The election can go round exactly where sessions step down, each within `SESSION_EPS` of the
one before and with a smaller identifier, until more than `SESSION_EPS` below the first. -/
theorem switching_cycle_iff (n : Sessions) :
    (∃ s, TransGen n.SwitchesTo s s) ↔
      ∃ s t, TransGen n.StepsDown s t ∧ 500000 < n.ghost s - n.ghost t := by
  have hwins : n.SwitchesTo = n.Wins := by
    funext s t
    exact propext (n.switches_to_iff s t)
  rw [hwins]
  exact Threshold.cycle_iff (by decide) (fun s h => LinkId.lt_asymm h h)
    fun _ _ _ hab hbc => List.lt_trans hab hbc

end Sessions

/-! ## Three sessions -/

/-- The session a node with this identifier founds. -/
def foundedBy (n : UInt8) : LinkId := .ofBytes [n]

/-- Three sessions, each 400 ms ahead of the one with the next smaller identifier. -/
def threeSessions : Sessions where
  ids := {foundedBy 1, foundedBy 2, foundedBy 3}
  ghost s := 400000 * (byteAt s.bytes 0).toNat
  fits := by decide

/-- The first session leads to the third, whose ghost time is 800 ms ahead; the tie-break leads
from there to the second and back to the first. -/
theorem three_sessions_cycle :
    TransGen threeSessions.SwitchesTo ⟨foundedBy 1, by decide⟩ ⟨foundedBy 1, by decide⟩ := by
  have hthird : threeSessions.SwitchesTo ⟨foundedBy 1, by decide⟩ ⟨foundedBy 3, by decide⟩ :=
    (threeSessions.switches_to_iff _ _).mpr (by decide)
  have hsecond : threeSessions.SwitchesTo ⟨foundedBy 3, by decide⟩ ⟨foundedBy 2, by decide⟩ :=
    (threeSessions.switches_to_iff _ _).mpr (by decide)
  have hfirst : threeSessions.SwitchesTo ⟨foundedBy 2, by decide⟩ ⟨foundedBy 1, by decide⟩ :=
    (threeSessions.switches_to_iff _ _).mpr (by decide)
  exact .tail (.tail (.single hthird) hsecond) hfirst

end LinkFPGA
