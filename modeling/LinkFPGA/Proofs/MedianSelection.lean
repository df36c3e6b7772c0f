import LinkFPGA.Firmware.CheckedMedian
import LinkFPGA.Library.Selection

/-!
# What `median_i64` selects

`partition` and `nth_element` are the selection of the library on the values of an array
(`median_values`), and their checked runs are never stopped: every access is in bounds, `hi = p - 1`
is taken with `lo < p` only, and each iteration takes an entry off the range. `median_selects`
puts the two selections together.
-/

namespace LinkFPGA

open Selection

/-- The values of an array, as a function of the index. -/
def values (a : Array Int64) (i : Nat) : Int := (a.getD i 0).toInt

/-- The values of an array, as a list. -/
def valueList (a : Array Int64) : List Int := a.toList.map Int64.toInt

variable {a b : Array Int64} {pivot : Int64} {lo hi i j k : Nat}

/-! ## An exchange -/

theorem swap64_size (a : Array Int64) (i j : Nat) : (swap64 a i j).size = a.size :=
  Array.size_swapIfInBounds

theorem values_of_lt (h : i < a.size) : values a i = a[i].toInt := by
  rw [values, Array.getD_eq_getD_getElem?, Array.getElem?_eq_getElem h, Option.getD_some]

theorem swap64_values (hi : i < a.size) (hj : j < a.size) :
    values (swap64 a i j) = values a ∘ Equiv.swap i j := by
  funext m
  by_cases hm : m < a.size
  · have hm' : m < (swap64 a i j).size := by rwa [swap64_size]
    rw [values_of_lt hm', Function.comp_apply, Equiv.swap_apply_def]
    simp only [swap64, Array.getElem_swapIfInBounds]
    split_ifs <;> simp_all [values_of_lt]
  · have hne : m ≠ i ∧ m ≠ j := by omega
    have hout : ¬ m < (swap64 a i j).size := by rwa [swap64_size]
    rw [Function.comp_apply, Equiv.swap_apply_of_ne_of_ne hne.1 hne.2]
    simp [values, hm, hout]

theorem checked_swap64 (hi : i < a.size) (hj : j < a.size) :
    Checked.swap64 a i j = some (swap64 a i j) := by
  have hset : (a.setIfInBounds i a[j]).setIfInBounds j a[i] = swap64 a i j := by
    apply Array.ext
    · simp [swap64]
    · intro m hm _
      simp only [swap64, Array.getElem_swapIfInBounds]
      grind
  simp [Checked.swap64, hi, hj, hset]

/-! ## The partition -/

/-- What the loop of `partition` leaves behind, when it is at `j` with `i` entries below the
pivot and stops before `hi`. -/
theorem partition_loop_zones {count : Nat} (hz : Zones pivot.toInt (values a) lo i j)
    (hcount : j + count = hi) (hhi : hi < a.size) :
    ∃ r, Checked.partitionLoop pivot count a i j = some r ∧
      partitionLoop pivot count a i j = r ∧ r.1.size = a.size ∧
      Zones pivot.toInt (values r.1) lo r.2 hi ∧
      Within (values a) (values r.1) lo (hi - 1) := by
  induction count generalizing a i j with
  | zero =>
      obtain rfl : j = hi := by omega
      exact ⟨(a, i), rfl, rfl, rfl, hz, .refl _ _ _⟩
  | succ count ih =>
      have hlo := hz.lo_le
      have hij := hz.le
      have hj : j < a.size := by omega
      have hi' : i < a.size := by omega
      have hread : a.getD j 0 = a[j] := by simp [hj]
      have hvalue : values a j = a[j].toInt := values_of_lt hj
      by_cases hlt : a[j] < pivot
      · have hstep := hz.swap (by rw [hvalue]; exact Int64.lt_iff_toInt_lt.mp hlt)
        rw [← swap64_values hi' hj] at hstep
        obtain ⟨r, hchecked, hmodel, hsize, hzones, hwithin⟩ :=
          ih hstep (by omega) (by rwa [swap64_size])
        refine ⟨r, ?_, ?_, hsize.trans (swap64_size a i j), hzones, .trans ?_ hwithin⟩
        · simp [Checked.partitionLoop, hj, hlt, checked_swap64 hi' hj, hchecked]
        · rw [partitionLoop, hread, if_pos hlt, hmodel]
        · rw [swap64_values hi' hj]
          exact within_swap _ (by omega) (by omega)
      · have hge : pivot.toInt ≤ values a j := by
          rw [hvalue]
          exact Int.not_lt.mp (mt Int64.lt_iff_toInt_lt.mpr hlt)
        obtain ⟨r, hchecked, hmodel, hsize, hzones, hwithin⟩ :=
          ih (hz.skip hge) (by omega) hhi
        refine ⟨r, ?_, ?_, hsize, hzones, hwithin⟩
        · simp [Checked.partitionLoop, hj, hlt, hchecked]
        · rw [partitionLoop, hread, if_neg hlt, hmodel]

theorem partition_splits (hlo : lo < hi) (hhi : hi < a.size) :
    ∃ r, Checked.partition a lo hi = some r ∧ partition a lo hi = r ∧ r.1.size = a.size ∧
      Partitioned (values r.1) lo hi r.2 ∧ Within (values a) (values r.1) lo hi := by
  obtain ⟨r, hchecked, hmodel, hsize, hzones, hwithin⟩ :=
    partition_loop_zones (zones_nil a[hi].toInt (values a) lo)
      (show lo + (hi - lo) = hi by omega) hhi
  have hlast : values r.1 hi = a[hi].toInt :=
    (hwithin.outside hi (.inr (by omega))).trans (values_of_lt hhi)
  have hlohi : r.2 < r.1.size ∧ hi < r.1.size := ⟨by have := hzones.le; omega, by omega⟩
  refine ⟨(swap64 r.1 r.2 hi, r.2), ?_, ?_, (swap64_size _ _ _).trans hsize, ?_, ?_⟩
  · simp [Checked.partition, hhi, hchecked, checked_swap64 hlohi.1 hlohi.2]
  · have hread : a.getD hi 0 = a[hi] := by simp [hhi]
    rw [partition, hread, hmodel]
  · rw [swap64_values hlohi.1 hlohi.2]
    rw [← hlast] at hzones
    exact hzones.partitioned
  · rw [swap64_values hlohi.1 hlohi.2]
    exact (hwithin.mono le_rfl (by omega)).trans
      (within_swap _ ⟨hzones.lo_le, hzones.le⟩ ⟨by omega, le_rfl⟩)

/-! ## The selection -/

/-- `nth_element` on a window around `k` splits the array at `k`, in at most one iteration for each
entry of the window. -/
theorem nth_element_fuel_splits {fuel steps : Nat} (hw : Window (values a) a.size lo hi)
    (hlo : lo ≤ k) (hk : k ≤ hi) (hhi : hi < a.size) (hfuel : hi - lo < fuel)
    (hsteps : hi - lo < steps) :
    Checked.nthElement fuel a lo hi k = some (nthElementFuel steps a lo hi k) ∧
      SplitsAt (values (nthElementFuel steps a lo hi k)) a.size k := by
  induction fuel generalizing a lo hi steps with
  | zero => omega
  | succ fuel ih =>
      obtain ⟨steps, rfl⟩ := Nat.exists_eq_add_one_of_ne_zero (Nat.ne_zero_of_lt hsteps)
      rw [Checked.nthElement, nthElementFuel]
      by_cases hlt : lo < hi
      · obtain ⟨⟨b, p⟩, hchecked, hmodel, hsize, hpart, hwithin⟩ := partition_splits hlt hhi
        dsimp only at hsize hpart hwithin
        have hwb : Window (values b) b.size lo hi := hsize ▸ hw.within hwithin hhi
        have hs : SplitsAt (values b) b.size p := hwb.splits hpart (by omega)
        have hle := hpart.lo_le
        have hge := hpart.le_hi
        simp only [hlt, if_true, hchecked, hmodel, Option.bind_eq_bind, Option.bind_some]
        rcases Nat.lt_trichotomy p k with hpk | rfl | hkp
        · have hne : ¬ p = k ∧ ¬ k < p := by omega
          simp only [hne, if_false]
          have hright := ih (hwb.right hs) hpk hk (by omega) (by omega)
            (show hi - (p + 1) < steps by omega)
          rwa [hsize] at hright
        · rw [if_pos rfl, if_pos rfl]
          exact ⟨rfl, hsize ▸ hs⟩
        · -- `p` is not 0, for `k` is before it
          have hpred : p.ppred = some (p - 1) := Nat.ppred_eq_some.mpr (by omega)
          simp only [Nat.ne_of_gt hkp, if_false, hkp, if_true, hpred, Option.bind_some]
          have hleft := ih (hwb.left hs (by omega)) hlo (by omega) (by omega) (by omega)
            (show p - 1 - lo < steps by omega)
          rwa [hsize] at hleft
      · obtain rfl : lo = k := by omega
        obtain rfl : hi = lo := by omega
        rw [if_neg hlt, if_neg hlt]
        exact ⟨rfl, hw.single hhi⟩

theorem value_list_length (a : Array Int64) : (valueList a).length = a.size := by
  simp [valueList]

theorem value_list_perm (h : b.Perm a) : (valueList b).Perm (valueList a) :=
  (Array.perm_iff_toList_perm.mp h).map _

/-- Where an array of the same samples splits, it has an order statistic of the samples. -/
theorem splits_statistic (hperm : b.Perm a) (hs : SplitsAt (values b) a.size k)
    (hk : k < a.size) : ∃ x, b[k]? = some x ∧ orderStatistic (valueList a) k = some x.toInt := by
  have hsize := hperm.size_eq
  have hk' : k < b.size := by omega
  refine ⟨b[k], Array.getElem?_eq_getElem hk', ?_⟩
  rw [← order_statistic_perm (value_list_perm hperm), ← values_of_lt hk']
  have hlength := value_list_length b
  refine SplitsAt.statistic (by rwa [hlength, hsize]) (by omega) fun i hi => ?_
  rw [values_of_lt (hlength ▸ hi)]
  simp [valueList]

/-- `nth_element` on the whole array leaves the `k`-th smallest at `k`. -/
theorem nth_element_selects {fuel : Nat} (hk : k < a.size) (hfuel : a.size ≤ fuel) :
    Checked.nthElement fuel a 0 (a.size - 1) k = some (nthElement a 0 (a.size - 1) k) ∧
      ∃ x, (nthElement a 0 (a.size - 1) k)[k]? = some x ∧
        orderStatistic (valueList a) k = some x.toInt := by
  obtain ⟨hchecked, hsplit⟩ : Checked.nthElement fuel a 0 (a.size - 1) k =
      some (nthElement a 0 (a.size - 1) k) ∧
        SplitsAt (values (nthElement a 0 (a.size - 1) k)) a.size k :=
    nth_element_fuel_splits (window_all _ _) (Nat.zero_le k) (by omega) (by omega) (by omega)
      (Nat.lt_succ_self _)
  exact ⟨hchecked, splits_statistic (nth_element_perm a 0 (a.size - 1) k) hsplit hk⟩

/-! ## The median -/

/-- The two middle ones of an even number of values have a sum that fits an `int64_t`. -/
def MiddleSumFits (xs : List Int) : Prop :=
  ∀ low ∈ orderStatistic xs (xs.length / 2 - 1), ∀ mid ∈ orderStatistic xs (xs.length / 2),
    FitsInt64 (low + mid)

/-- `m` is the middle one of an odd number of values, and the mean of the two middle ones of an
even number, truncated toward zero. -/
def IsMedian (xs : List Int) (m : Int) : Prop :=
  if xs.length % 2 = 0 then
    ∃ low mid, orderStatistic xs (xs.length / 2 - 1) = some low ∧
      orderStatistic xs (xs.length / 2) = some mid ∧ m = (low + mid).tdiv 2
  else orderStatistic xs (xs.length / 2) = some m

/-- For an odd number of samples nothing is added. -/
theorem median_odd {fuel : Nat} (hodd : a.size % 2 ≠ 0) (hfuel : a.size ≤ fuel) :
    Checked.medianI64 fuel a = some (medianI64 a) ∧
      IsMedian (valueList a) (medianI64 a).2.toInt := by
  obtain ⟨hchecked, mid, hmid, hstat⟩ :=
    nth_element_selects (show a.size / 2 < a.size by omega) hfuel
  have hne : a.size ≠ 0 := by omega
  have hpred : a.size.ppred = some (a.size - 1) := Nat.ppred_eq_some.mpr (by omega)
  refine ⟨?_, ?_⟩
  · simp [Checked.medianI64, medianI64, hne, hodd, hpred, hchecked, hmid]
  · simpa [IsMedian, value_list_length, medianI64, hne, hodd, hmid] using hstat

/-- For an even number of samples the sum of the two middle ones is halved. -/
theorem median_even {fuel : Nat} (hne : a.size ≠ 0) (heven : a.size % 2 = 0)
    (hfuel : a.size ≤ fuel) :
    ∃ low mid, orderStatistic (valueList a) (a.size / 2 - 1) = some low.toInt ∧
      orderStatistic (valueList a) (a.size / 2) = some mid.toInt ∧
      (medianI64 a).2 = (low + mid) / 2 ∧
      Checked.medianI64 fuel a =
        (addChecked low mid).map fun sum => ((medianI64 a).1, sum / 2) := by
  obtain ⟨hchecked, mid, hmid, hstat⟩ :=
    nth_element_selects (show a.size / 2 < a.size by omega) hfuel
  have hperm := nth_element_perm a 0 (a.size - 1) (a.size / 2)
  have hsize := hperm.size_eq
  -- the second selection runs on what the first left
  obtain ⟨hchecked', low, hlow, hstat'⟩ := nth_element_selects
    (a := nthElement a 0 (a.size - 1) (a.size / 2)) (k := a.size / 2 - 1) (by omega)
    (hsize.trans_le hfuel)
  rw [order_statistic_perm (value_list_perm hperm)] at hstat'
  rw [hsize] at hchecked' hlow
  have hpred : a.size.ppred = some (a.size - 1) := Nat.ppred_eq_some.mpr (by omega)
  have hpred' : (a.size / 2).ppred = some (a.size / 2 - 1) := Nat.ppred_eq_some.mpr (by omega)
  refine ⟨low, mid, hstat', hstat, ?_, ?_⟩
  · simp [medianI64, hne, heven, hmid, hlow]
  · simp [Checked.medianI64, medianI64, hne, heven, hpred, hpred', hchecked, hmid, hchecked',
      hlow, Option.map_eq_bind]

/-- The sum of the two middle values fits when all of them are within a quarter of the range. -/
theorem middle_sum_fits_of_small {xs : List Int} (h : ∀ x ∈ xs, -2 ^ 62 ≤ x ∧ x < 2 ^ 62) :
    MiddleSumFits xs := by
  intro low hlow mid hmid
  have hlow := h low (order_statistic_mem hlow)
  have hmid := h mid (order_statistic_mem hmid)
  exact ⟨by omega, by omega⟩

theorem IsMedian.unique {xs : List Int} {m m' : Int} (h : IsMedian xs m) (h' : IsMedian xs m') :
    m = m' := by
  unfold IsMedian at h h'
  split at h
  · rename_i heven
    rw [if_pos heven] at h'
    obtain ⟨low, mid, hlow, hmid, rfl⟩ := h
    obtain ⟨low', mid', hlow', hmid', rfl⟩ := h'
    rw [Option.some.inj (hlow.symm.trans hlow'), Option.some.inj (hmid.symm.trans hmid')]
  · rename_i hodd
    rw [if_neg hodd] at h'
    exact Option.some.inj (h.symm.trans h')

/-- Without overflow, `median_i64` returns the median. -/
theorem is_median (hne : a.size ≠ 0) (hfits : a.size % 2 = 0 → MiddleSumFits (valueList a)) :
    IsMedian (valueList a) (medianI64 a).2.toInt := by
  by_cases heven : a.size % 2 = 0
  · obtain ⟨low, mid, hlow, hmid, hmedian, -⟩ := median_even hne heven le_rfl
    have hfits := hfits heven
    rw [MiddleSumFits, value_list_length] at hfits
    have hsum : (low + mid).toInt = low.toInt + mid.toInt :=
      add_toInt_of_fits (hfits _ hlow _ hmid)
    rw [IsMedian, value_list_length, if_pos heven, hmedian]
    exact ⟨low.toInt, mid.toInt, hlow, hmid, by rw [half_toInt, hsum]⟩
  · exact (median_odd heven le_rfl).2

/-- The checked run of `median_i64` is stopped by nothing but the overflow of the sum. -/
theorem checked_median_eq_some {fuel : Nat} {r : Array Int64 × Int64} (hfuel : a.size ≤ fuel) :
    Checked.medianI64 fuel a = some r ↔
      (a.size ≠ 0 → a.size % 2 = 0 → MiddleSumFits (valueList a)) ∧ r = medianI64 a := by
  by_cases hne : a.size = 0
  · simp [Checked.medianI64, medianI64, hne, eq_comm]
  by_cases heven : a.size % 2 = 0
  · obtain ⟨low, mid, hlow, hmid, hmedian, hchecked⟩ := median_even hne heven hfuel
    have hfits : MiddleSumFits (valueList a) ↔ FitsInt64 (low.toInt + mid.toInt) := by
      simp [MiddleSumFits, value_list_length, hlow, hmid]
    rw [hchecked, addChecked, hfits]
    by_cases hsum : FitsInt64 (low.toInt + mid.toInt)
    · have hresult : ((medianI64 a).1, (low + mid) / 2) = medianI64 a :=
        Prod.ext rfl hmedian.symm
      simp [hsum, hresult, eq_comm]
    · simp [hsum, hne, heven]
  · simp [median_odd heven hfuel, heven, eq_comm]

/-- `median_i64` returns on every array of samples for which the sum of the two middle ones is
representable, without leaving the array; it permutes the samples and returns their median. -/
theorem median_selects (hne : a.size ≠ 0)
    (hfits : a.size % 2 = 0 → MiddleSumFits (valueList a)) :
    (∀ fuel, a.size ≤ fuel → Checked.medianI64 fuel a = some (medianI64 a)) ∧
      (medianI64 a).1.Perm a ∧ IsMedian (valueList a) (medianI64 a).2.toInt := by
  refine ⟨fun fuel hfuel => ?_, median_perm a, is_median hne hfits⟩
  exact (checked_median_eq_some hfuel).mpr ⟨fun _ => hfits, rfl⟩

/-- Four samples, two of them equal. -/
theorem median_selects_four :
    (∀ fuel, 4 ≤ fuel →
      Checked.medianI64 fuel #[3, -1, 3, 2] = some (medianI64 #[3, -1, 3, 2])) ∧
      (medianI64 #[3, -1, 3, 2]).1.Perm #[3, -1, 3, 2] ∧
      IsMedian (valueList #[3, -1, 3, 2]) (medianI64 #[3, -1, 3, 2]).2.toInt :=
  median_selects (a := #[3, -1, 3, 2]) (by decide) fun _ =>
    middle_sum_fits_of_small (by simp [valueList])

end LinkFPGA
