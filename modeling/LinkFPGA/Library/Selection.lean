import Mathlib.Data.List.Sort
import Mathlib.Logic.Equiv.Basic

/-!
# Selection by partition

The `k`-th smallest of a list is the entry at `k` of the list sorted, so that duplicates count.
A selection in place narrows a range `[lo, hi]` of an array around `k`: a partition moves entries
inside the range only (`Within`) and leaves smaller ones before its pivot and the others after it
(`Partitioned`), so everything before the range stays below it and everything after the range
above it (`Window`). When the range is down to `k`, or the pivot comes to lie at `k`, the array
splits there (`SplitsAt`), and its entry at `k` is the `k`-th smallest (`SplitsAt.statistic`).
`Zones` is the invariant of the loop that partitions a range around its last entry.

An array of `n` entries is the function of its first `n` indices.
-/

namespace LinkFPGA.Selection

variable {α : Type*} [LinearOrder α] {f g h : ℕ → α} {n lo hi k p : ℕ}

/-- The `k`-th smallest entry, counted from 0. -/
def orderStatistic (xs : List α) (k : ℕ) : Option α := (xs.mergeSort (· ≤ ·))[k]?

/-- The order of a list does not matter to its order statistics. -/
theorem order_statistic_perm {xs ys : List α} (hperm : xs.Perm ys) (k : ℕ) :
    orderStatistic xs k = orderStatistic ys k := by
  have hsorted : (xs.mergeSort (· ≤ ·)).Perm (ys.mergeSort (· ≤ ·)) :=
    (List.mergeSort_perm xs _).trans (hperm.trans (List.mergeSort_perm ys _).symm)
  unfold orderStatistic
  rw [hsorted.eq_of_pairwise' (List.pairwise_mergeSort' _ xs) (List.pairwise_mergeSort' _ ys)]

theorem order_statistic_mem {xs : List α} {x : α} (h : orderStatistic xs k = some x) : x ∈ xs :=
  (List.mergeSort_perm xs _).mem_iff.mp (List.mem_of_getElem? h)

/-- The entry at which a list splits is the one that sorting puts there. -/
theorem order_statistic_split {xs ys : List α} {x : α} (hxs : ∀ y ∈ xs, y ≤ x)
    (hys : ∀ y ∈ ys, x ≤ y) : orderStatistic (xs ++ x :: ys) xs.length = some x := by
  have hpx := List.mergeSort_perm xs (· ≤ ·)
  have hpy := List.mergeSort_perm ys (· ≤ ·)
  have hsplit : (xs.mergeSort (· ≤ ·) ++ x :: ys.mergeSort (· ≤ ·)).Pairwise (· ≤ ·) := by
    refine List.pairwise_append.mpr ⟨List.pairwise_mergeSort' _ xs,
      List.pairwise_cons.mpr ⟨fun y hy ↦ hys y (hpy.mem_iff.mp hy), List.pairwise_mergeSort' _ ys⟩,
      fun y hy z hz ↦ ?_⟩
    have hyx := hxs y (hpx.mem_iff.mp hy)
    rcases List.mem_cons.mp hz with rfl | hz
    · exact hyx
    · exact hyx.trans (hys z (hpy.mem_iff.mp hz))
  rw [← order_statistic_perm (hpx.append (hpy.cons x)), orderStatistic,
    List.mergeSort_eq_self (· ≤ ·) hsplit]
  simp

/-! ## Ranges of an array -/

/-- `g` is `f` with the entries at `lo` to `hi` taken from among these entries of `f`. -/
structure Within (f g : ℕ → α) (lo hi : ℕ) : Prop where
  outside : ∀ i, i < lo ∨ hi < i → g i = f i
  inside : ∀ i, lo ≤ i → i ≤ hi → ∃ j, lo ≤ j ∧ j ≤ hi ∧ g i = f j

/-- What comes before `lo` is below the entries from `lo` on, and what comes after `hi` above
those up to `hi`. -/
structure Window (f : ℕ → α) (n lo hi : ℕ) : Prop where
  below : ∀ i < lo, ∀ j, lo ≤ j → j < n → f i ≤ f j
  above : ∀ i ≤ hi, ∀ j, hi < j → j < n → f i ≤ f j

/-- The entries at `lo` to `hi` are in order with the one at `p`. -/
structure Partitioned (f : ℕ → α) (lo hi p : ℕ) : Prop where
  lo_le : lo ≤ p
  le_hi : p ≤ hi
  below : ∀ i, lo ≤ i → i < p → f i ≤ f p
  above : ∀ i, p < i → i ≤ hi → f p ≤ f i

/-- All entries are in order with the one at `k`. -/
structure SplitsAt (f : ℕ → α) (n k : ℕ) : Prop where
  below : ∀ i < k, f i ≤ f k
  above : ∀ i, k < i → i < n → f k ≤ f i

section Rearranged

omit [LinearOrder α]

theorem Within.refl (f : ℕ → α) (lo hi : ℕ) : Within f f lo hi :=
  ⟨fun _ _ ↦ rfl, fun i hlo hhi ↦ ⟨i, hlo, hhi, rfl⟩⟩

theorem Within.trans (hfg : Within f g lo hi) (hgh : Within g h lo hi) : Within f h lo hi where
  outside i hout := (hgh.outside i hout).trans (hfg.outside i hout)
  inside i hlo hhi := by
    obtain ⟨j, hjlo, hjhi, hj⟩ := hgh.inside i hlo hhi
    obtain ⟨m, hmlo, hmhi, hm⟩ := hfg.inside j hjlo hjhi
    exact ⟨m, hmlo, hmhi, hj.trans hm⟩

/-- A rearrangement of a range rearranges any range around it. -/
theorem Within.mono {lo' hi' : ℕ} (hfg : Within f g lo hi) (hlo : lo' ≤ lo) (hhi : hi ≤ hi') :
    Within f g lo' hi' where
  outside i hout := hfg.outside i (by omega)
  inside i hilo hihi := by
    by_cases hin : lo ≤ i ∧ i ≤ hi
    · obtain ⟨j, hjlo, hjhi, hj⟩ := hfg.inside i hin.1 hin.2
      exact ⟨j, by omega, by omega, hj⟩
    · exact ⟨i, hilo, hihi, hfg.outside i (by omega)⟩

/-- An exchange in a range rearranges the range. -/
theorem within_swap (f : ℕ → α) {i j : ℕ} (hi' : lo ≤ i ∧ i ≤ hi) (hj : lo ≤ j ∧ j ≤ hi) :
    Within f (f ∘ Equiv.swap i j) lo hi where
  outside m hout := by
    have hne : m ≠ i ∧ m ≠ j := by omega
    rw [Function.comp_apply, Equiv.swap_apply_of_ne_of_ne hne.1 hne.2]
  inside m hlo hhi := by
    have hto := Equiv.swap_apply_def i j m
    exact ⟨Equiv.swap i j m, by split_ifs at hto <;> omega, by split_ifs at hto <;> omega, rfl⟩

end Rearranged

/-- The whole array is a window. -/
theorem window_all (f : ℕ → α) (n : ℕ) : Window f n 0 (n - 1) where
  below i hlt := absurd hlt (by omega)
  above i _ j hj hn := absurd hn (by omega)

/-- A window stays one when the entries in it are rearranged. -/
theorem Window.within (hw : Window f n lo hi) (hfg : Within f g lo hi) (hn : hi < n) :
    Window g n lo hi where
  below i hlt j hlo hj := by
    rw [hfg.outside i (.inl hlt)]
    by_cases hin : j ≤ hi
    · obtain ⟨m, hmlo, hmhi, hm⟩ := hfg.inside j hlo hin
      rw [hm]
      exact hw.below i hlt m hmlo (by omega)
    · rw [hfg.outside j (.inr (by omega))]
      exact hw.below i hlt j hlo hj
  above i hile j hlt hj := by
    rw [hfg.outside j (.inr hlt)]
    by_cases hin : lo ≤ i
    · obtain ⟨m, hmlo, hmhi, hm⟩ := hfg.inside i hin hile
      rw [hm]
      exact hw.above m hmhi j hlt hj
    · rw [hfg.outside i (.inl (by omega))]
      exact hw.above i hile j hlt hj

/-- The pivot of a partitioned window splits the array. -/
theorem Window.splits (hw : Window f n lo hi) (hp : Partitioned f lo hi p) (hn : hi < n) :
    SplitsAt f n p where
  below i hlt := by
    by_cases hin : lo ≤ i
    · exact hp.below i hin hlt
    · exact hw.below i (by omega) p hp.lo_le (hp.le_hi.trans_lt hn)
  above i hlt hi' := by
    by_cases hin : i ≤ hi
    · exact hp.above i hlt hin
    · exact hw.above p hp.le_hi i (by omega) hi'

/-- What comes before the point where the array splits is a window ... -/
theorem Window.left (hw : Window f n lo hi) (hs : SplitsAt f n p) (hlo : lo < p) :
    Window f n lo (p - 1) where
  below := hw.below
  above i hle j hlt hj := by
    have hip : f i ≤ f p := hs.below i (by omega)
    rcases Nat.eq_or_lt_of_le (show p ≤ j by omega) with rfl | hpj
    · exact hip
    · exact hip.trans (hs.above j hpj hj)

/-- ... and so is what comes after it. -/
theorem Window.right (hw : Window f n lo hi) (hs : SplitsAt f n p) :
    Window f n (p + 1) hi where
  below i hlt j hle hj := by
    have hpj : f p ≤ f j := hs.above j (by omega) hj
    rcases Nat.eq_or_lt_of_le (show i ≤ p by omega) with rfl | hip
    · exact hpj
    · exact (hs.below i hip).trans hpj
  above := hw.above

/-- A window of one entry splits the array there. -/
theorem Window.single (hw : Window f n k k) (hn : k < n) : SplitsAt f n k where
  below i hlt := hw.below i hlt k le_rfl hn
  above i hlt hi := hw.above k le_rfl i hlt hi

/-! ## Partitioning around the last entry -/

/-- The entries before `i` are below the pivot, and those from `i` to `j` are not. -/
structure Zones (pivot : α) (f : ℕ → α) (lo i j : ℕ) : Prop where
  lo_le : lo ≤ i
  le : i ≤ j
  below : ∀ m, lo ≤ m → m < i → f m < pivot
  above : ∀ m, i ≤ m → m < j → pivot ≤ f m

section Partition

variable {pivot : α} {i j : ℕ}

theorem zones_nil (pivot : α) (f : ℕ → α) (lo : ℕ) : Zones pivot f lo lo lo :=
  ⟨le_rfl, le_rfl, fun _ hle hlt ↦ absurd hle (by omega), fun _ hle hlt ↦ absurd hle (by omega)⟩

/-- An entry that is not below the pivot stays where it is. -/
theorem Zones.skip (hz : Zones pivot f lo i j) (hj : pivot ≤ f j) : Zones pivot f lo i (j + 1) where
  lo_le := hz.lo_le
  le := hz.le.trans (Nat.le_succ j)
  below := hz.below
  above m hle hlt := by
    rcases Nat.eq_or_lt_of_le (Nat.le_of_lt_succ hlt) with rfl | hlt
    · exact hj
    · exact hz.above m hle hlt

/-- An entry below the pivot is exchanged with the first that is not. -/
theorem Zones.swap (hz : Zones pivot f lo i j) (hj : f j < pivot) :
    Zones pivot (f ∘ Equiv.swap i j) lo (i + 1) (j + 1) where
  lo_le := hz.lo_le.trans (Nat.le_succ i)
  le := Nat.succ_le_succ hz.le
  below m hle hlt := by
    rcases Nat.eq_or_lt_of_le (Nat.le_of_lt_succ hlt) with rfl | hlt
    · rwa [Function.comp_apply, Equiv.swap_apply_left]
    · have hij := hz.le
      rw [Function.comp_apply, Equiv.swap_apply_of_ne_of_ne (by omega) (by omega)]
      exact hz.below m hle hlt
  above m hle hlt := by
    rcases Nat.eq_or_lt_of_le (Nat.le_of_lt_succ hlt) with rfl | hlt
    · rw [Function.comp_apply, Equiv.swap_apply_right]
      exact hz.above i le_rfl hle
    · rw [Function.comp_apply, Equiv.swap_apply_of_ne_of_ne (by omega) (by omega)]
      exact hz.above m (by omega) hlt

/-- The pivot, which is the last entry, goes between the two zones. -/
theorem Zones.partitioned (hz : Zones (f hi) f lo i hi) :
    Partitioned (f ∘ Equiv.swap i hi) lo hi i where
  lo_le := hz.lo_le
  le_hi := hz.le
  below m hle hlt := by
    have hihi := hz.le
    rw [Function.comp_apply, Function.comp_apply, Equiv.swap_apply_left,
      Equiv.swap_apply_of_ne_of_ne (by omega) (by omega)]
    exact (hz.below m hle hlt).le
  above m hlt hle := by
    rw [Function.comp_apply, Function.comp_apply, Equiv.swap_apply_left]
    rcases Nat.eq_or_lt_of_le hle with rfl | hlt'
    · rw [Equiv.swap_apply_right]
      exact hz.above i le_rfl hlt
    · rw [Equiv.swap_apply_of_ne_of_ne (by omega) (by omega)]
      exact hz.above m (by omega) hlt'

end Partition

/-! ## The selected entry -/

/-- The entry at which an array splits is its order statistic. -/
theorem SplitsAt.statistic {xs : List α} (hs : SplitsAt f xs.length k) (hk : k < xs.length)
    (hf : ∀ i (hi : i < xs.length), xs[i] = f i) : orderStatistic xs k = some (f k) := by
  have hcut : xs.take k ++ xs[k] :: xs.drop (k + 1) = xs := by simp
  have hlen : (xs.take k).length = k := by simp; omega
  have hbelow : ∀ y ∈ xs.take k, y ≤ xs[k] := by
    intro y hy
    obtain ⟨i, hi, rfl⟩ := List.getElem_of_mem hy
    rw [List.getElem_take, hf, hf]
    exact hs.below i (by omega)
  have habove : ∀ y ∈ xs.drop (k + 1), xs[k] ≤ y := by
    intro y hy
    obtain ⟨i, hi, rfl⟩ := List.getElem_of_mem hy
    rw [List.length_drop] at hi
    rw [List.getElem_drop, hf, hf]
    exact hs.above _ (by omega) (by omega)
  have hstat := order_statistic_split hbelow habove
  rwa [hcut, hlen, hf] at hstat

end LinkFPGA.Selection
