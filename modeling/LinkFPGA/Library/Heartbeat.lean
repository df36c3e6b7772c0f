import Mathlib.Data.List.Basic

/-!
# Heartbeats

A member beats regularly and others hear it, late and not always. The times of the beats are listed
with the latest first. `Paced` says that each beat comes within a period of the one before, and
`Delivered` that of a number of beats in a row one is heard by the time the last of them is old
enough. `heard_recently` says how long ago the member was heard at most. To one that listens from a
moment on only the beats since then count, which keep the pace from that moment (`Paced.since`).
-/

namespace LinkFPGA.Heartbeat

variable {period base losses delay now start : ℕ} {heard : Option ℕ}

/-- Each beat comes within a period of the one before, the first one within a period of `base`. -/
def Paced (period base : ℕ) : List ℕ → Prop
  | [] => True
  | t :: older => t < older.headD base + period ∧ Paced period base older

/-- Of `losses + 1` beats in a row, something has been heard since the first once the last is
`delay` old. -/
def Delivered (losses delay now : ℕ) (heard : Option ℕ) : List ℕ → Prop
  | [] => True
  | t :: older =>
      (t + delay ≤ now → ∀ u ∈ (t :: older)[losses]?, ∃ h ∈ heard, u ≤ h) ∧
        Delivered losses delay now heard older

/-- Whether beats are delivered can be decided. -/
instance decidableDelivered (losses delay now : ℕ) (heard : Option ℕ) :
    DecidablePred (Delivered losses delay now heard)
  | [] => .isTrue trivial
  | _ :: older =>
      have := decidableDelivered losses delay now heard older
      inferInstanceAs (Decidable (_ ∧ _))

/-- The latest of a number of beats is at most that number of periods after `base`. -/
theorem Paced.headD_le : ∀ {beats : List ℕ}, Paced period base beats →
    beats.headD base ≤ base + beats.length * period
  | [], _ => Nat.le_add_right _ _
  | t :: older, ⟨hlatest, hpaced⟩ => by
      have hle := hpaced.headD_le
      rw [List.headD_cons, List.length_cons, Nat.succ_mul]
      omega

/-- A beat is at most as many periods old as beats came after it. -/
theorem Paced.le_get : ∀ {beats : List ℕ} {n u : ℕ}, Paced period base beats →
    beats[n]? = some u → beats.headD base ≤ u + n * period
  | t :: _, 0, u, _, hu => by
      obtain rfl := Option.some.inj hu
      exact Nat.le_add_right _ _
  | t :: older, n + 1, u, ⟨hlatest, hpaced⟩, hu => by
      have hle := hpaced.le_get (n := n) hu
      rw [List.headD_cons, Nat.succ_mul]
      omega

/-- The latest beat is at most as late as the latest one since a moment, or as that moment. -/
theorem headD_le_since (start base : ℕ) : ∀ beats : List ℕ,
    beats.headD base ≤ (beats.filter (start ≤ ·)).headD (max start base)
  | [] => Nat.le_max_right start base
  | t :: older => by
      by_cases ht : start ≤ t
      · rw [List.filter_cons, if_pos (decide_eq_true ht)]
        exact Nat.le_refl t
      · rw [List.filter_cons, if_neg (mt of_decide_eq_true ht), List.headD_cons]
        refine Nat.le_trans (Nat.le_of_not_le ht) ?_
        cases hkept : older.filter (start ≤ ·) with
        | nil => exact Nat.le_max_left start base
        | cons u kept =>
            have hu : u ∈ older.filter (start ≤ ·) := hkept ▸ List.mem_cons_self
            exact of_decide_eq_true (List.mem_filter.mp hu).2

/-- The beats since a moment keep the pace from that moment. -/
theorem Paced.since : ∀ {beats : List ℕ}, Paced period base beats →
    Paced period (max start base) (beats.filter (start ≤ ·))
  | [], _ => trivial
  | t :: older, ⟨hlatest, hpaced⟩ => by
      by_cases ht : start ≤ t
      · rw [List.filter_cons, if_pos (decide_eq_true ht)]
        have hle := headD_le_since start base older
        exact ⟨by omega, hpaced.since⟩
      · rw [List.filter_cons, if_neg (mt of_decide_eq_true ht)]
        exact hpaced.since

/-- A member that keeps the pace and of which not too many beats in a row are lost was heard within
the periods of these beats and the delay, once that time is over since `base`. -/
theorem heard_recently {beats : List ℕ} (hpaced : Paced period base beats)
    (hdelivered : Delivered losses delay now heard beats)
    (hlatest : now < beats.headD base + period + delay)
    (hwarm : base + (losses + 1) * period + delay ≤ now) :
    ∃ h ∈ heard, now < h + (losses + 1) * period + delay := by
  induction beats with
  | nil =>
      have hone : 1 * period ≤ (losses + 1) * period :=
        Nat.mul_le_mul_right period (Nat.le_add_left 1 losses)
      rw [List.headD_nil] at hlatest
      omega
  | cons t older ih =>
      obtain ⟨hsince, hdelivered⟩ := hdelivered
      by_cases hold : t + delay ≤ now
      · rw [List.headD_cons] at hlatest
        cases hfirst : (t :: older)[losses]? with
        | none =>
            -- too few beats for that long
            have hlength : older.length + 1 ≤ losses := List.getElem?_eq_none_iff.mp hfirst
            have hle : t ≤ base + (older.length + 1) * period := hpaced.headD_le
            have hperiods : (older.length + 1) * period ≤ losses * period :=
              Nat.mul_le_mul_right period hlength
            rw [Nat.succ_mul] at hwarm
            omega
        | some u =>
            have hle : t ≤ u + losses * period := hpaced.le_get hfirst
            obtain ⟨h, hh, hu⟩ := hsince hold u hfirst
            refine ⟨h, hh, ?_⟩
            rw [Nat.succ_mul]
            omega
      · obtain ⟨hnext, hpaced⟩ := hpaced
        exact ih hpaced hdelivered (by omega)

end LinkFPGA.Heartbeat
