import Mathlib.Data.Nat.PSub
import LinkFPGA.Firmware.Median

/-!
# `median.c` with its accesses checked

The functions of `median.c` once more, as runs that stop (`none`) where the C code would leave the
array, let a `size_t` wrap below 0 or overflow the sum of the two middle samples, and when the
bound on the iterations of `nth_element` is used up.
-/

namespace LinkFPGA.Checked

/-- `swap64(&a[i], &a[j])`. -/
def swap64 (a : Array Int64) (i j : Nat) : Option (Array Int64) := do
  let t ← a[i]?
  let u ← a[j]?
  return (a.setIfInBounds i u).setIfInBounds j t

/-- The `for` loop of `partition`, with `count = hi - j` iterations left. -/
def partitionLoop (pivot : Int64) :
    Nat → Array Int64 → Nat → Nat → Option (Array Int64 × Nat)
  | 0, a, i, _ => some (a, i)
  | count + 1, a, i, j => do
      let x ← a[j]?
      if x < pivot then
        let a ← swap64 a i j
        partitionLoop pivot count a (i + 1) (j + 1)
      else partitionLoop pivot count a i (j + 1)

def partition (a : Array Int64) (lo hi : Nat) : Option (Array Int64 × Nat) := do
  let pivot ← a[hi]?
  let r ← partitionLoop pivot (hi - lo) a lo lo
  let a ← swap64 r.1 r.2 hi
  return (a, r.2)

/-- `nth_element`, with at most `fuel - 1` iterations. -/
def nthElement : Nat → Array Int64 → Nat → Nat → Nat → Option (Array Int64)
  | 0, _, _, _, _ => none
  | fuel + 1, a, lo, hi, k =>
      if lo < hi then do
        let r ← partition a lo hi
        if r.2 = k then return r.1
        else if k < r.2 then
          let hi ← r.2.ppred
          nthElement fuel r.1 lo hi k
        else nthElement fuel r.1 (r.2 + 1) hi k
      else some a

/-- `median_i64(a, n)` with `n` the size of the array. -/
def medianI64 (fuel : Nat) (a : Array Int64) : Option (Array Int64 × Int64) :=
  let n := a.size
  if n = 0 then some (a, 0)
  else do
    let hi ← n.ppred
    let a ← nthElement fuel a 0 hi (n / 2)
    let mid ← a[n / 2]?
    if n % 2 = 0 then
      let k ← (n / 2).ppred
      let a ← nthElement fuel a 0 hi k
      let low ← a[k]?
      let sum ← addChecked low mid
      return (a, sum / 2)
    else return (a, mid)

end LinkFPGA.Checked
