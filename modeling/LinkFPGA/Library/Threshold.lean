import Mathlib.Logic.Relation
import Mathlib.Algebra.Order.Group.Abs

/-!
# Preference by a threshold with a tie-break

`t` is preferred to `s` when its level is more than `eps` higher (`Ahead`), or when the levels are
less than `eps` apart and a strict order puts `t` first (`TieBreak`). No two elements are preferred
to each other, but preferences can go round: tie-breaks lower the level by less than `eps` each,
and enough of them lower it by more. `cycle_iff` says that this is the only way.
-/

namespace LinkFPGA.Threshold

open Relation

variable {α G : Type*} [AddCommGroup G] [LinearOrder G]

/-- The level of `t` is more than `eps` above the level of `s`. -/
def Ahead (level : α → G) (eps : G) (s t : α) : Prop := eps < level t - level s

/-- The levels are less than `eps` apart, and `t` comes first. -/
def TieBreak (level : α → G) (eps : G) (first : α → α → Prop) (s t : α) : Prop :=
  |level t - level s| < eps ∧ first t s

/-- `t` is preferred to `s`. -/
def Prefers (level : α → G) (eps : G) (first : α → α → Prop) (s t : α) : Prop :=
  Ahead level eps s t ∨ TieBreak level eps first s t

variable {level : α → G} {eps : G} {first : α → α → Prop}

instance [DecidableRel first] (s t : α) : Decidable (Prefers level eps first s t) :=
  inferInstanceAs (Decidable (eps < level t - level s ∨ |level t - level s| < eps ∧ first t s))

/-- A chain of tie-breaks that lowers the level by more than `eps`. -/
def Descent (level : α → G) (eps : G) (first : α → α → Prop) : Prop :=
  ∃ s t, TransGen (TieBreak level eps first) s t ∧ eps < level s - level t

/-- A chain of tie-breaks ends at an element that comes first. -/
theorem tie_breaks_first (htrans : ∀ a b c, first a b → first b c → first a c) {s t : α}
    (h : TransGen (TieBreak level eps first) s t) : first t s := by
  induction h with
  | single hst => exact hst.2
  | tail _ hbc ih => exact htrans _ _ _ hbc.2 ih

/-- A preference chain is made of tie-breaks, or some step of it is a jump. -/
theorem tie_breaks_or_jump {s t : α} (h : TransGen (Prefers level eps first) s t) :
    TransGen (TieBreak level eps first) s t ∨
      ∃ a b, ReflTransGen (Prefers level eps first) s a ∧ Ahead level eps a b ∧
        ReflTransGen (Prefers level eps first) b t := by
  induction h with
  | single hst =>
      rcases hst with hjump | htie
      · exact .inr ⟨s, _, .refl, hjump, .refl⟩
      · exact .inl (.single htie)
  | tail hpath hstep ih =>
      rcases ih with hties | ⟨a, b, hsa, hab, hbm⟩
      · rcases hstep with hjump | htie
        · exact .inr ⟨_, _, hpath.to_reflTransGen, hjump, .refl⟩
        · exact .inl (hties.tail htie)
      · exact .inr ⟨a, b, hsa, hab, hbm.tail hstep⟩

/-- Where nothing descends, tie-breaks lower the level by `eps` at most. -/
theorem level_le_of_tie_breaks (heps : 0 ≤ eps) (hdescent : ¬ Descent level eps first) {s t : α}
    (h : ReflTransGen (TieBreak level eps first) s t) : level s - level t ≤ eps := by
  rcases reflTransGen_iff_eq_or_transGen.mp h with rfl | hchain
  · rwa [sub_self]
  · exact not_lt.mp fun hlt => hdescent ⟨s, t, hchain, hlt⟩

variable [IsOrderedAddMonoid G]

/-- Where nothing descends, what is preferred from `a` on by way of an element ahead of it is
reached by tie-breaks from an element ahead of `a`. -/
theorem ahead_of_path (heps : 0 ≤ eps) (hdescent : ¬ Descent level eps first) {a b t : α}
    (hahead : Ahead level eps a b) (h : ReflTransGen (Prefers level eps first) b t) :
    ∃ y, Ahead level eps a y ∧ ReflTransGen (TieBreak level eps first) y t := by
  induction h with
  | refl => exact ⟨b, hahead, .refl⟩
  | @tail m t _ hstep ih =>
      obtain ⟨y, hy, hchain⟩ := ih
      rcases hstep with hjump | htie
      · -- the tie-breaks since `y` have not used up the lead of `y`, so the jump starts above `a`
        have hlow := level_le_of_tie_breaks heps hdescent hchain
        have hpos : 0 < level m - level a := by
          have hlead : eps < (level y - level m) + (level m - level a) := by
            rwa [sub_add_sub_cancel]
          have hmono : eps < eps + (level m - level a) :=
            hlead.trans_le (add_le_add_left hlow _)
          exact lt_add_iff_pos_right _ |>.mp hmono
        refine ⟨t, ?_, .refl⟩
        unfold Ahead at hjump ⊢
        calc eps < level t - level m := hjump
          _ < (level t - level m) + (level m - level a) := lt_add_of_pos_right _ hpos
          _ = level t - level a := sub_add_sub_cancel _ _ _
      · exact ⟨y, hy, hchain.tail htie⟩

/-- Preferences go round exactly where tie-breaks descend. -/
theorem cycle_iff (heps : 0 ≤ eps) (hirrefl : ∀ a, ¬ first a a)
    (htrans : ∀ a b c, first a b → first b c → first a c) :
    (∃ s, TransGen (Prefers level eps first) s s) ↔ Descent level eps first := by
  constructor
  · rintro ⟨s, hcycle⟩
    by_contra hdescent
    rcases tie_breaks_or_jump hcycle with hties | ⟨a, b, hsa, hab, hbs⟩
    · exact hirrefl s (tie_breaks_first htrans hties)
    · -- the cycle, taken from its jump on, comes back to where the jump started
      obtain ⟨y, hy, hback⟩ := ahead_of_path heps hdescent hab (hbs.trans hsa)
      exact (not_lt.mpr (level_le_of_tie_breaks heps hdescent hback)) hy
  · rintro ⟨s, t, hchain, hlow⟩
    have hties : TieBreak level eps first ≤ Prefers level eps first := fun _ _ htie => .inr htie
    exact ⟨s, (TransGen.mono hties _ _ hchain).tail (.inl hlow)⟩

end LinkFPGA.Threshold
