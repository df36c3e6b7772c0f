import Mathlib.Data.List.Basic
import LinkFPGA.Library.Overflow

/-!
# The in-place median of `median.c`

`partition`, `nth_element` and `median_i64` on an array of 64-bit samples. The loops carry the
array; an index outside the array reads 0 and writes nothing. `nth_element` narrows
`[lo, hi]` by at least one index each time round, so `hi - lo + 1` iterations are enough.

`median_between` is the fact the measurement rests on: the median of samples that lie in an
interval lies in that interval.
-/

namespace LinkFPGA

def swap64 (a : Array Int64) (i j : Nat) : Array Int64 := a.swapIfInBounds i j

/-- The `for` loop of `partition`, with `count = hi - j` iterations left. -/
def partitionLoop (pivot : Int64) : Nat → Array Int64 → Nat → Nat → Array Int64 × Nat
  | 0, a, i, _ => (a, i)
  | count + 1, a, i, j =>
      if a.getD j 0 < pivot then partitionLoop pivot count (swap64 a i j) (i + 1) (j + 1)
      else partitionLoop pivot count a i (j + 1)

/-- Lomuto partition of `a[lo..hi]` around `a[hi]`; returns the pivot's final index. -/
def partition (a : Array Int64) (lo hi : Nat) : Array Int64 × Nat :=
  let r := partitionLoop (a.getD hi 0) (hi - lo) a lo lo
  (swap64 r.1 r.2 hi, r.2)

/-- The `while` loop of `nth_element` with a bound on its iterations. -/
def nthElementFuel : Nat → Array Int64 → Nat → Nat → Nat → Array Int64
  | 0, a, _, _, _ => a
  | fuel + 1, a, lo, hi, k =>
      if lo < hi then
        let (a, p) := partition a lo hi
        if p = k then a
        else if k < p then nthElementFuel fuel a lo (p - 1) k
        else nthElementFuel fuel a (p + 1) hi k
      else a

def nthElement (a : Array Int64) (lo hi k : Nat) : Array Int64 :=
  nthElementFuel (hi - lo + 1) a lo hi k

/-- `median_i64(a, n)` with `n` the size of the array: the array as it is left behind, and the
median. -/
def medianI64 (a : Array Int64) : Array Int64 × Int64 :=
  let n := a.size
  if n = 0 then (a, 0)
  else
    let a := nthElement a 0 (n - 1) (n / 2)
    let mid := a.getD (n / 2) 0
    if n % 2 = 0 then
      let a := nthElement a 0 (n - 1) (n / 2 - 1)
      (a, (a.getD (n / 2 - 1) 0 + mid) / 2)
    else (a, mid)

/-! ## The loops only permute the array -/

theorem swap64_perm (a : Array Int64) (i j : Nat) : (swap64 a i j).Perm a := by
  unfold swap64
  rw [Array.swapIfInBounds_def]
  split
  · split
    · exact Array.swap_perm _ _
    · exact .rfl
  · exact .rfl

theorem partition_loop_perm (pivot : Int64) (count : Nat) (a : Array Int64) (i j : Nat) :
    (partitionLoop pivot count a i j).1.Perm a := by
  induction count generalizing a i j with
  | zero => exact .rfl
  | succ count ih =>
      unfold partitionLoop
      split
      · exact (ih _ _ _).trans (swap64_perm a i j)
      · exact ih _ _ _

theorem partition_perm (a : Array Int64) (lo hi : Nat) : (partition a lo hi).1.Perm a :=
  (swap64_perm _ _ _).trans (partition_loop_perm _ _ _ _ _)

theorem nth_element_fuel_perm (fuel : Nat) (a : Array Int64) (lo hi k : Nat) :
    (nthElementFuel fuel a lo hi k).Perm a := by
  induction fuel generalizing a lo hi with
  | zero => exact .rfl
  | succ fuel ih =>
      have hpart := partition_perm a lo hi
      unfold nthElementFuel
      split
      · dsimp only
        split
        · exact hpart
        · split
          · exact (ih _ _ _).trans hpart
          · exact (ih _ _ _).trans hpart
      · exact .rfl

/-- `nth_element` leaves a permutation of its input. -/
theorem nth_element_perm (a : Array Int64) (lo hi k : Nat) :
    (nthElement a lo hi k).Perm a :=
  nth_element_fuel_perm _ _ _ _ _

/-- `median_i64` leaves a permutation of its input. -/
theorem median_perm (a : Array Int64) : (medianI64 a).1.Perm a := by
  unfold medianI64
  dsimp only
  split
  · exact .rfl
  · split
    · exact (nth_element_perm _ _ _ _).trans (nth_element_perm _ _ _ _)
    · exact nth_element_perm _ _ _ _

/-! ## The median lies between the samples -/

/-- An element that `nth_element` leaves at an index of the array is one of the samples. -/
theorem nth_element_getD_mem (a : Array Int64) (lo hi k i : Nat) (hi' : i < a.size) :
    (nthElement a lo hi k).getD i 0 ∈ a := by
  have hperm := nth_element_perm a lo hi k
  rw [Array.getD_eq_getD_getElem?, Array.getElem?_eq_getElem (hperm.size_eq.symm ▸ hi')]
  exact hperm.mem_iff.mp (Array.getElem_mem _)

/-- Halving with truncation toward zero is off by at most half a unit. -/
theorem tdiv_two_bounds (s : Int) : s - 1 ≤ 2 * s.tdiv 2 ∧ 2 * s.tdiv 2 ≤ s + 1 := by
  rcases Int.le_total 0 s with h | h
  · rw [Int.tdiv_eq_ediv_of_nonneg h]
    omega
  · obtain ⟨n, rfl⟩ : ∃ n, s = -n := ⟨-s, by omega⟩
    rw [Int.neg_tdiv, Int.tdiv_eq_ediv_of_nonneg (by omega)]
    omega

/-- The mean of two samples of `[lo, hi]`, truncated toward zero, is in `[lo, hi]`. -/
theorem mean_between {lo hi : Int} {x y : Int64} (hlo : -2 ^ 62 ≤ lo) (hhi : hi < 2 ^ 62)
    (hx : lo ≤ x.toInt ∧ x.toInt ≤ hi) (hy : lo ≤ y.toInt ∧ y.toInt ≤ hi) :
    lo ≤ ((x + y) / 2).toInt ∧ ((x + y) / 2).toInt ≤ hi := by
  have hmean : ((x + y) / 2).toInt = (x.toInt + y.toInt).tdiv 2 :=
    half_sum_toInt ⟨by omega, by omega⟩
  have hhalf := tdiv_two_bounds (x.toInt + y.toInt)
  rw [hmean]
  omega

/-- The median of samples that lie in an interval lies in that interval. -/
theorem median_between {a : Array Int64} {lo hi : Int} (hne : a.size ≠ 0)
    (hlo : -2 ^ 62 ≤ lo) (hhi : hi < 2 ^ 62)
    (h : ∀ x ∈ a, lo ≤ x.toInt ∧ x.toInt ≤ hi) :
    lo ≤ (medianI64 a).2.toInt ∧ (medianI64 a).2.toInt ≤ hi := by
  have hmid := nth_element_getD_mem a 0 (a.size - 1) (a.size / 2) (a.size / 2) (by omega)
  unfold medianI64
  simp only [hne, if_false]
  split
  · have hsize := (nth_element_perm a 0 (a.size - 1) (a.size / 2)).size_eq
    have hlow := nth_element_getD_mem (nthElement a 0 (a.size - 1) (a.size / 2)) 0
      (a.size - 1) (a.size / 2 - 1) (a.size / 2 - 1) (by omega)
    have hlow' := (nth_element_perm _ _ _ _).mem_iff.mp hlow
    exact mean_between hlo hhi (h _ hlow') (h _ hmid)
  · exact h _ hmid

end LinkFPGA
