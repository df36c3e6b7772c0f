import LinkFPGA.Proofs.SessionTracking

/-!
# Remeasuring the active session

`session_tick` has the node's own session measured again every 30 s, so that the drift between
the two clocks is absorbed. The result goes through `on_measure_done`, whose rule is made for
choosing between two sessions: it takes a result over when the ghost time it gives is ahead of
the current one by more than `SESSION_EPS`, or, within `SESSION_EPS`, by identifier. Against
itself a session is never the smaller one, so only the first case is left, and
`remeasurement_adopted_iff` says what that means for every drift.
-/

namespace LinkFPGA

open Runs

/-- Against itself, a session wins by a late ghost time only. -/
theorem switch_to_new_self (diff : Int64) (session : LinkId) :
    switchToNew diff session session = decide (linkSessionEpsUs < diff) := by
  unfold switchToNew
  rw [memcmp_self]
  by_cases h : linkSessionEpsUs < diff
  · rw [if_pos h, decide_eq_true h]
  · rw [if_neg h, decide_eq_false h]
    simp

/-- The new intercept is in force, and the session is what it was. -/
def Absorbed (w : World) (intercept : Int64) (w' : World) : Prop :=
  ghostTimeGetIntercept w' = intercept ∧ w'.linkSelfSession = w.linkSelfSession

/-- The outcome of `on_measure_done` for the node's own session. -/
theorem absorbed_iff {w w' : World} {intercept : Int64}
    (hown : w.sActiveTargetSession = w.linkSelfSession)
    (houtcome : Outcome w intercept w') :
    Absorbed w intercept w' ↔
      linkSessionEpsUs < intercept - ghostTimeGetIntercept w ∨
        intercept = ghostTimeGetIntercept w := by
  unfold Outcome at houtcome
  simp only [hown, switch_to_new_self, decide_eq_true_eq] at houtcome
  unfold Absorbed
  by_cases hahead : linkSessionEpsUs < intercept - ghostTimeGetIntercept w
  · rw [if_pos hahead] at houtcome
    exact ⟨fun _ => .inl hahead, fun _ => ⟨houtcome.2, houtcome.1⟩⟩
  · rw [if_neg hahead] at houtcome
    rw [houtcome.1, houtcome.2]
    constructor
    · rintro ⟨hsame, _⟩
      exact .inr hsame.symm
    · rintro (h | h)
      · exact absurd h hahead
      · exact ⟨h.symm, rfl⟩

/-- A remeasurement of the node's own session is taken over exactly when it moves ghost time
forward by more than `SESSION_EPS`, or does not move it at all; and so is every remeasurement
that an event of a run completes. -/
theorem remeasurement_adopted_iff (w : World) (intercept : Int64)
    (hown : w.sActiveTargetSession = w.linkSelfSession) :
    (Absorbed w intercept (onMeasureDone true intercept w) ↔
      linkSessionEpsUs < intercept - ghostTimeGetIntercept w ∨
        intercept = ghostTimeGetIntercept w) ∧
    ∀ e, (w.linkSelfSession, intercept) ∈ reports w e →
      (Absorbed w intercept (step w e) ↔
        linkSessionEpsUs < intercept - ghostTimeGetIntercept w ∨
          intercept = ghostTimeGetIntercept w) := by
  refine ⟨absorbed_iff hown (on_measure_done_outcome intercept w), ?_⟩
  intro e hmem
  rcases step_cases w e with ⟨hnone, _⟩ | ⟨measured, hreports, hdone⟩
  · rw [hnone] at hmem
    cases hmem
  · rw [hreports, List.mem_singleton, Prod.mk.injEq] at hmem
    obtain ⟨_, rfl⟩ := hmem
    exact absorbed_iff hown hdone.outcome

/-- A node in a foreign session, which is the one it has just measured. -/
def remeasuring : World :=
  { nodeSelf with
    linkSelfSession := nodeA.linkSelfSession
    sActiveTargetSession := nodeA.linkSelfSession }

/-- A second forward is taken over. -/
theorem remeasurement_adopted_second :
    Absorbed remeasuring 1000000 (onMeasureDone true 1000000 remeasuring) := by
  have hown : remeasuring.sActiveTargetSession = remeasuring.linkSelfSession := rfl
  have hahead : linkSessionEpsUs < 1000000 - ghostTimeGetIntercept remeasuring := by
    decide +kernel
  exact (remeasurement_adopted_iff remeasuring 1000000 hown).1.mpr (.inl hahead)

/-- A drift of one microsecond is not absorbed. -/
theorem remeasurement_ignored :
    ¬ ∀ (w : World) (intercept : Int64), w.sActiveTargetSession = w.linkSelfSession →
      Absorbed w intercept (onMeasureDone true intercept w) := by
  intro h
  have hignored : ghostTimeGetIntercept (onMeasureDone true 1 remeasuring) ≠ 1 := by
    decide +kernel
  exact hignored (h remeasuring 1 rfl).1

end LinkFPGA
