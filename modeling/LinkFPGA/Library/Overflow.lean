import Mathlib.Algebra.Group.Int.Defs

/-!
# Signed 64-bit arithmetic that must not overflow

Signed overflow is undefined in C. A checked operation is `none` where its exact result does not
fit, and the machine's result otherwise, which then is the exact one.
-/

namespace LinkFPGA

/-- The values of an `int64_t`. -/
def FitsInt64 (z : ℤ) : Prop := -2 ^ 63 ≤ z ∧ z < 2 ^ 63

instance decidableFitsInt64 (z : ℤ) : Decidable (FitsInt64 z) :=
  inferInstanceAs (Decidable (-2 ^ 63 ≤ z ∧ z < 2 ^ 63))

def addChecked (x y : Int64) : Option Int64 :=
  if FitsInt64 (x.toInt + y.toInt) then some (x + y) else none

def subChecked (x y : Int64) : Option Int64 :=
  if FitsInt64 (x.toInt - y.toInt) then some (x - y) else none

variable {x y z : Int64}

/-- Adding to a value that is not negative can only overflow upwards. -/
theorem add_fits_iff {z : ℤ} (hz : 0 ≤ z) (x : Int64) :
    FitsInt64 (z + x.toInt) ↔ x.toInt < 2 ^ 63 - z := by
  have hlow := x.le_toInt
  constructor
  · rintro ⟨-, hhigh⟩
    omega
  · intro hhigh
    exact ⟨by omega, by omega⟩

theorem add_toInt_of_fits (h : FitsInt64 (x.toInt + y.toInt)) :
    (x + y).toInt = x.toInt + y.toInt := by
  obtain ⟨hlo, hhi⟩ := h
  rw [Int64.toInt_add, Int.bmod_eq_of_le (by omega) (by omega)]

theorem sub_toInt_of_fits (h : FitsInt64 (x.toInt - y.toInt)) :
    (x - y).toInt = x.toInt - y.toInt := by
  obtain ⟨hlo, hhi⟩ := h
  rw [Int64.toInt_sub, Int.bmod_eq_of_le (by omega) (by omega)]

theorem half_toInt (x : Int64) : (x / 2).toInt = x.toInt.tdiv 2 :=
  Int64.toInt_div_of_ne_right _ _ (by decide)

/-- The mean of two values whose sum fits, truncated toward zero. -/
theorem half_sum_toInt (h : FitsInt64 (x.toInt + y.toInt)) :
    ((x + y) / 2).toInt = (x.toInt + y.toInt).tdiv 2 := by
  rw [half_toInt, add_toInt_of_fits h]

theorem add_checked_eq_some : addChecked x y = some z ↔
    FitsInt64 (x.toInt + y.toInt) ∧ z = x + y := by
  unfold addChecked
  split <;> simp_all [eq_comm]

theorem sub_checked_eq_some : subChecked x y = some z ↔
    FitsInt64 (x.toInt - y.toInt) ∧ z = x - y := by
  unfold subChecked
  split <;> simp_all [eq_comm]

end LinkFPGA
