import LinkFPGA.Proofs.MidiTransmitter

/-!
# What the MIDI receiver makes of a frame

The receiver waits `firstSample` cycles from the falling edge of a frame and then takes a sample
every `D` cycles. One and a half bit times need not fit into the divider register; where they do
not, the first sample lands in the start bit and the byte comes out shifted by one bit
(`received_of_wraps`). `Tracks` follows the receiver through a frame, `tracks_clk` is the step,
and `strobed_later` says when a byte is strobed and which. A receiver that is not `Quiet` when it is
enabled strobes a byte on an idle line (`strobes_of_not_quiet`).
-/

namespace LinkFPGA

open Clocked Serial

namespace MidiRx

/-- How many cycles after the falling edge of a frame the first sample is taken. -/
def firstSample (D : ℕ) : ℕ := wrapDiv D (D + D / 2 - 1) + 1

/-- The byte made of eight samples of a frame, one a bit time. -/
def received (D : ℕ) (b : UInt8) : UInt8 := ofBits fun i ↦ symbol b (firstSample D / D + i)

section FirstSample

variable {D : ℕ}

/-- One and a half bit times fit the divider register and the first sample is in the middle of the
first data bit, or they do not and it is in the first half of the start bit. -/
theorem first_sample_cases (hD : 4 ≤ D) :
    (D + D / 2 ≤ 2 ^ bitsFor D ∧ firstSample D = D + D / 2) ∨
      (¬ D + D / 2 ≤ 2 ^ bitsFor D ∧ firstSample D ≤ D / 2) := by
  have hlt : D < 2 ^ bitsFor D := Nat.lt_log2_self
  unfold firstSample wrapDiv
  by_cases hfits : D + D / 2 ≤ 2 ^ bitsFor D
  · left
    rw [Nat.mod_eq_of_lt (by omega)]
    omega
  · right
    rw [Nat.mod_eq_sub_mod (by omega), Nat.mod_eq_of_lt (by omega)]
    omega

theorem first_sample_pos : 1 ≤ firstSample D := Nat.succ_pos _

/-- The stop bit is sampled before the frame ends. -/
theorem first_sample_le (hD : 4 ≤ D) : firstSample D + 8 * D + 2 ≤ 10 * D := by
  rcases first_sample_cases hD with ⟨-, h⟩ | ⟨-, h⟩ <;> omega

/-- A byte sampled from its first data bit on is received. -/
theorem received_of_fits (hD : 4 ≤ D) (hfits : D + D / 2 ≤ 2 ^ bitsFor D) (b : UInt8) :
    received D b = b := by
  have hfirst : firstSample D / D = 1 := by
    rcases first_sample_cases hD with ⟨-, h⟩ | ⟨hnot, -⟩
    · rw [h, Nat.add_div_left _ (by omega), Nat.div_eq_of_lt (by omega)]
    · exact absurd hfits hnot
  refine byte_ext fun i hi ↦ ?_
  rw [received, of_bits_getLsbD _ hi, hfirst, Nat.add_comm, symbol_data b hi]

/-- A byte sampled from its start bit on is received as it was sent only if it is zero. -/
theorem received_of_wraps (hD : 4 ≤ D) (hwraps : ¬ D + D / 2 ≤ 2 ^ bitsFor D) (b : UInt8) :
    received D b = b ↔ b = 0 := by
  have hfirst : firstSample D / D = 0 := by
    rcases first_sample_cases hD with ⟨hfits, -⟩ | ⟨-, h⟩
    · exact absurd hfits hwraps
    · exact Nat.div_eq_of_lt (by omega)
  have hbits : ∀ i < 8, (received D b).toBitVec.getLsbD i = symbol b i := by
    intro i hi
    rw [received, of_bits_getLsbD _ hi, hfirst, Nat.zero_add]
  constructor
  · intro hsame
    rw [hsame] at hbits
    -- Each bit is the one below it, the lowest is the start bit.
    have hlow : ∀ i < 8, b.toBitVec.getLsbD i = false := by
      intro i
      induction i with
      | zero => intro hi; exact hbits 0 hi
      | succ i ih =>
          intro hi
          rw [hbits (i + 1) hi, symbol_data b (by omega)]
          exact ih (by omega)
    refine byte_ext fun i hi ↦ ?_
    rw [hlow i hi]
    exact BitVec.getLsbD_zero.symm
  · rintro rfl
    refine byte_ext fun i hi ↦ ?_
    rw [hbits i hi]
    cases i with
    | zero => rfl
    | succ i => rw [symbol_data 0 (by omega)]; simp

end FirstSample

/-- The receiver neither receives nor strobes a byte, and no falling edge is on its way through the
synchroniser. -/
structure Quiet (r : MidiRx) : Prop where
  busy : r.rxBusy = false
  strobe : r.rxStrobe = false
  sync : r.rxPrev = true → r.rxSync = true
  stage : r.rxSync = true → r.stage = true

/-- The receiver after `k` cycles in which it is not enabled, from power-on on an idle line. -/
def poweredOn (D k : ℕ) : MidiRx := trace (fun r v ↦ clk D false false v r) reset (fun _ ↦ true) k

/-- A receiver that was left disabled for a cycle at least is quiet, one that is enabled at once is
not. -/
theorem powered_on_quiet_iff (D k : ℕ) : (poweredOn D k).Quiet ↔ 0 < k := by
  constructor
  · intro hquiet
    refine Nat.pos_of_ne_zero ?_
    rintro rfl
    exact absurd (hquiet.sync rfl) Bool.false_ne_true
  · intro hk
    have hsettled : ∀ m, (poweredOn D (m + 1)).rxBusy = false ∧
        (poweredOn D (m + 1)).rxStrobe = false ∧ (poweredOn D (m + 1)).stage = true ∧
          ((poweredOn D (m + 1)).rxPrev = true → (poweredOn D (m + 1)).rxSync = true) := by
      intro m
      induction m with
      | zero => exact ⟨rfl, rfl, rfl, id⟩
      | succ m ih => exact ⟨ih.1, rfl, rfl, fun _ ↦ ih.2.2.1⟩
    obtain ⟨m, rfl⟩ : ∃ m, k = m + 1 := ⟨k - 1, by omega⟩
    obtain ⟨hbusy, hstrobe, hstage, hsync⟩ := hsettled m
    exact ⟨hbusy, hstrobe, hsync, fun _ ↦ hstage⟩

/-- The receiver between the falling edge and the first sample. -/
structure Waiting (D a : ℕ) (r : MidiRx) : Prop where
  busy : r.rxBusy = true
  strobe : r.rxStrobe = false
  bits : r.rxBits = 0
  div : r.rxDiv = firstSample D - a

/-- The receiver `e` cycles after it shifted in the first sample. -/
structure Sampling (D : ℕ) (b : UInt8) (e : ℕ) (r : MidiRx) : Prop where
  busy : r.rxBusy = true
  strobe : r.rxStrobe = false
  bits : r.rxBits = e / D + 1
  div : r.rxDiv = D - 1 - e % D
  shift : ∀ i ≤ e / D, r.rxShift.getLsbD (7 - e / D + i) = symbol b (firstSample D / D + i)

/-- The receiver after the sample of the stop bit, the byte on strobe for one cycle. -/
structure Done (D : ℕ) (b : UInt8) (a : ℕ) (r : MidiRx) : Prop where
  busy : r.rxBusy = false
  strobe : r.rxStrobe = decide (a = firstSample D + 8 * D + 1)
  byte : a = firstSample D + 8 * D + 1 → r.rxByte = received D b

/-- The receiver while its synchronised input shows the job. -/
def Tracks (D : ℕ) (r : MidiRx) : Option (UInt8 × ℕ) → Prop
  | none => r.rxBusy = false ∧ r.rxPrev = true ∧ r.rxStrobe = false
  | some (b, a) =>
      if a = 0 then r.rxBusy = false ∧ r.rxPrev = true ∧ r.rxStrobe = false
      else if a ≤ firstSample D then Waiting D a r
      else if a ≤ firstSample D + 8 * D then Sampling D b (a - firstSample D - 1) r
      else r.rxPrev = symbol b ((a - 1) / D) ∧ Done D b a r

section Step

variable {D : ℕ} {r : MidiRx} {v : Bool}

/-- The registers a clock edge sets whatever the receiver does: the synchroniser moves on, a
strobe lasts one cycle. -/
def shifted (v : Bool) (r : MidiRx) : MidiRx :=
  { r with stage := v, rxSync := r.stage, rxStrobe := false, rxPrev := r.rxSync }

theorem clk_free (hbusy : r.rxBusy = false) (hedge : r.rxSync = true ∨ r.rxPrev = false) :
    clk D true false v r = r.shifted v := by
  rcases hedge with h | h <;> simp [clk, shifted, hbusy, h]

theorem clk_detect (hbusy : r.rxBusy = false) (hsync : r.rxSync = false)
    (hprev : r.rxPrev = true) :
    clk D true false v r =
      { r.shifted v with rxBusy := true, rxBits := 0, rxDiv := wrapDiv D (D + D / 2 - 1) } := by
  simp [clk, shifted, hbusy, hsync, hprev]

theorem clk_count (hbusy : r.rxBusy = true) (hdiv : r.rxDiv ≠ 0) :
    clk D true false v r = { r.shifted v with rxDiv := r.rxDiv - 1 } := by
  simp [clk, shifted, hbusy, hdiv]

theorem clk_sample (hbusy : r.rxBusy = true) (hdiv : r.rxDiv = 0) (hbits : r.rxBits < 8) :
    clk D true false v r =
      { r.shifted v with
        rxDiv := D - 1
        rxShift := BitVec.ofBool r.rxSync ++ r.rxShift.extractLsb' 1 7
        rxBits := r.rxBits + 1 } := by
  have hwrap : (r.rxBits + 1) % 16 = r.rxBits + 1 := Nat.mod_eq_of_lt (by omega)
  simp [clk, shifted, hbusy, hdiv, hbits, hwrap, wrap_div_of_le]

theorem clk_done (hbusy : r.rxBusy = true) (hdiv : r.rxDiv = 0) (hbits : ¬ r.rxBits < 8) :
    clk D true false v r =
      { r.shifted v with
        rxDiv := D - 1
        rxByte := UInt8.ofBitVec r.rxShift
        rxStrobe := true
        rxBusy := false } := by
  simp [clk, shifted, hbusy, hdiv, hbits, wrap_div_of_le]

/-- The synchroniser in the next cycle. -/
theorem clk_synchroniser (D : ℕ) (v : Bool) (r : MidiRx) :
    (clk D true false v r).stage = v ∧ (clk D true false v r).rxSync = r.stage ∧
      (clk D true false v r).rxPrev = r.rxSync := by
  unfold clk
  simp only [Bool.false_eq_true, if_false, if_true]
  repeat' split
  all_goals exact ⟨rfl, rfl, rfl⟩

/-- A falling edge starts the wait for the first sample. -/
theorem waiting_of_edge (hbusy : r.rxBusy = false) (hsync : r.rxSync = false)
    (hprev : r.rxPrev = true) : Waiting D 1 (clk D true false v r) := by
  rw [clk_detect hbusy hsync hprev]
  exact { busy := rfl, strobe := rfl, bits := rfl, div := rfl }

theorem Waiting.count {a : ℕ} (h : Waiting D a r) (ha : a < firstSample D) :
    Waiting D (a + 1) (clk D true false v r) := by
  have hdiv : r.rxDiv ≠ 0 := by rw [h.div]; omega
  rw [clk_count h.busy hdiv]
  exact {
    busy := h.busy
    strobe := rfl
    bits := h.bits
    div := by
      show r.rxDiv - 1 = _
      rw [h.div, Nat.sub_sub] }

/-- A sample enters at the top of the shift register and moves the older ones down. -/
theorem shift_in_getLsbD (sample : Bool) (x : BitVec 8) (j : ℕ) :
    (BitVec.ofBool sample ++ x.extractLsb' 1 7).getLsbD j =
      if j < 7 then x.getLsbD (j + 1) else decide (j = 7) && sample := by
  rw [BitVec.getLsbD_append]
  by_cases hj : j < 7
  · simp [hj, Nat.add_comm]
  · by_cases h7 : j = 7
    · simp [h7]
    · simp [hj, h7, show j - 7 ≠ 0 by omega]

/-- The first sample. -/
theorem Waiting.sample {b : UInt8} (h : Waiting D (firstSample D) r)
    (hsync : r.rxSync = symbol b (firstSample D / D)) :
    Sampling D b 0 (clk D true false v r) := by
  have hdiv : r.rxDiv = 0 := by rw [h.div, Nat.sub_self]
  rw [clk_sample h.busy hdiv (by rw [h.bits]; omega)]
  exact {
    busy := h.busy
    strobe := rfl
    bits := by
      show r.rxBits + 1 = _
      rw [h.bits, Nat.zero_div]
    div := by
      show D - 1 = _
      rw [Nat.zero_mod, Nat.sub_zero]
    shift := by
      intro i hi
      show (BitVec.ofBool r.rxSync ++ r.rxShift.extractLsb' 1 7).getLsbD _ = _
      rw [Nat.zero_div, Nat.le_zero] at hi
      rw [shift_in_getLsbD, hi, Nat.zero_div, hsync]
      rfl }

theorem Sampling.count (hD : 0 < D) {b : UInt8} {e : ℕ} (h : Sampling D b e r)
    (he : e % D ≠ D - 1) : Sampling D b (e + 1) (clk D true false v r) := by
  have hlt := Nat.mod_lt e hD
  have hdiv : r.rxDiv ≠ 0 := by rw [h.div]; omega
  have hsymbol : (e + 1) / D = e / D := by rw [succ_div_eq hD, if_neg he]
  have hphase : (e + 1) % D = e % D + 1 := by rw [succ_mod_eq hD, if_neg he]
  rw [clk_count h.busy hdiv]
  exact {
    busy := h.busy
    strobe := rfl
    bits := by rw [hsymbol]; exact h.bits
    div := by
      show r.rxDiv - 1 = _
      rw [h.div, hphase, Nat.sub_sub]
    shift := by rw [hsymbol]; exact h.shift }

/-- One of the seven samples after the first. -/
theorem Sampling.sample (hD : 0 < D) {b : UInt8} {e : ℕ} (h : Sampling D b e r)
    (he : e % D = D - 1) (hmore : e / D < 7)
    (hsync : r.rxSync = symbol b (firstSample D / D + (e / D + 1))) :
    Sampling D b (e + 1) (clk D true false v r) := by
  have hdiv : r.rxDiv = 0 := by rw [h.div, he, Nat.sub_self]
  have hsymbol : (e + 1) / D = e / D + 1 := by rw [succ_div_eq hD, if_pos he]
  have hphase : (e + 1) % D = 0 := by rw [succ_mod_eq hD, if_pos he]
  rw [clk_sample h.busy hdiv (by rw [h.bits]; omega)]
  exact {
    busy := h.busy
    strobe := rfl
    bits := by
      show r.rxBits + 1 = _
      rw [h.bits, hsymbol]
    div := by
      show D - 1 = _
      rw [hphase, Nat.sub_zero]
    shift := by
      intro i hi
      show (BitVec.ofBool r.rxSync ++ r.rxShift.extractLsb' 1 7).getLsbD _ = _
      rw [hsymbol] at hi
      rw [shift_in_getLsbD, hsymbol, hsync]
      generalize hk : e / D = k at hi hmore ⊢
      by_cases hnew : i = k + 1
      · rw [if_neg (by omega), hnew, show 7 - (k + 1) + (k + 1) = 7 by omega]
        rfl
      · have hold := h.shift i (by omega)
        rw [hk] at hold
        rw [if_pos (by omega), ← hold]
        congr 1
        omega }

/-- The sample of the stop bit strobes the byte. -/
theorem Sampling.done {b : UInt8} {e : ℕ} (h : Sampling D b e r) (he : e % D = D - 1)
    (hlast : e / D = 7) : Done D b (firstSample D + 8 * D + 1) (clk D true false v r) := by
  have hdiv : r.rxDiv = 0 := by rw [h.div, he, Nat.sub_self]
  rw [clk_done h.busy hdiv (by rw [h.bits]; omega)]
  exact {
    busy := rfl
    strobe := (decide_eq_true rfl).symm
    byte := by
      intro _
      refine byte_ext fun i hi ↦ ?_
      have hshift := h.shift i (by omega)
      rw [hlast, Nat.sub_self, Nat.zero_add] at hshift
      rw [received, of_bits_getLsbD _ hi]
      exact hshift }

theorem tracks_sampling {b : UInt8} {a : ℕ} (hlow : firstSample D < a)
    (hhigh : a ≤ firstSample D + 8 * D) :
    Tracks D r (some (b, a)) ↔ Sampling D b (a - firstSample D - 1) r := by
  unfold Tracks
  simp only [if_neg (show ¬ a = 0 by omega), if_neg (show ¬ a ≤ firstSample D by omega),
    if_pos hhigh]

theorem tracks_done {b : UInt8} {a : ℕ} (h : firstSample D + 8 * D < a) :
    Tracks D r (some (b, a)) ↔ r.rxPrev = symbol b ((a - 1) / D) ∧ Done D b a r := by
  unfold Tracks
  simp only [if_neg (show ¬ a = 0 by omega), if_neg (show ¬ a ≤ firstSample D by omega),
    if_neg (show ¬ a ≤ firstSample D + 8 * D by omega)]

/-- A cycle while samples are taken. -/
theorem Sampling.step (hD : 4 ≤ D) {b : UInt8} {e : ℕ} (h : Sampling D b e r) (he : e < 8 * D)
    (hsync : r.rxSync = symbol b ((firstSample D + 1 + e) / D)) :
    Tracks D (clk D true false v r) (some (b, firstSample D + 1 + e + 1)) := by
  have hpos : 0 < D := by omega
  have hlt := Nat.mod_lt e hpos
  have hdecomp := Nat.div_add_mod e D
  by_cases hsample : e % D = D - 1
  · -- Samples are taken in the last cycle of each bit time.
    have hat : firstSample D + 1 + e = firstSample D + (e / D + 1) * D := by
      rw [Nat.add_mul, Nat.mul_comm (e / D)]
      omega
    rw [hat, Nat.add_mul_div_right _ _ hpos] at hsync
    by_cases hmore : e / D < 7
    · have hnext : e + 1 < 8 * D := by
        rw [← Nat.div_lt_iff_lt_mul hpos, succ_div_eq hpos, if_pos hsample]
        omega
      rw [tracks_sampling (by omega) (by omega),
        show firstSample D + 1 + e + 1 - firstSample D - 1 = e + 1 by omega]
      exact h.sample hpos hsample hmore hsync
    · have hlast : e / D = 7 := by
        have := (Nat.div_lt_iff_lt_mul hpos).mpr he
        omega
      rw [hlast] at hdecomp
      have hend : firstSample D + 1 + e + 1 = firstSample D + 8 * D + 1 := by omega
      rw [hend, tracks_done (by omega)]
      refine ⟨?_, h.done hsample hlast⟩
      rw [(clk_synchroniser D v r).2.2, hsync, hlast]
      congr 1
      rw [Nat.add_sub_cancel, Nat.add_mul_div_right _ _ hpos]
  · have hnext : e + 1 < 8 * D := by
      rw [← Nat.div_lt_iff_lt_mul hpos, succ_div_eq hpos, if_neg hsample]
      exact (Nat.div_lt_iff_lt_mul hpos).mpr he
    rw [tracks_sampling (by omega) (by omega),
      show firstSample D + 1 + e + 1 - firstSample D - 1 = e + 1 by omega]
    exact h.count hpos hsample

/-- A cycle after the stop bit was sampled: the rest of the frame has no falling edge. -/
theorem Done.step (hD : 4 ≤ D) {b : UInt8} {a : ℕ} (h : Done D b a r)
    (ha : firstSample D + 8 * D < a) (hprev : r.rxPrev = symbol b ((a - 1) / D))
    (hsync : r.rxSync = symbol b (a / D)) :
    (clk D true false v r).rxBusy = false ∧ (clk D true false v r).rxStrobe = false ∧
      (clk D true false v r).rxPrev = symbol b (a / D) := by
  have hpos : 0 < D := by omega
  have hprevious : 8 ≤ (a - 1) / D := (Nat.le_div_iff_mul_le hpos).mpr (by omega)
  have hnoedge : r.rxSync = true ∨ r.rxPrev = false := by
    have hsucc := succ_div_eq hpos (a - 1)
    rw [Nat.sub_add_cancel (by omega)] at hsucc
    by_cases hlast : (a - 1) % D = D - 1
    · -- The stop bit follows: the line goes up, if anything.
      left
      rw [if_pos hlast] at hsucc
      rw [hsync, hsucc, symbol_stop b (by omega)]
    · rw [if_neg hlast] at hsucc
      rw [hsync, hprev, hsucc]
      exact (Bool.eq_false_or_eq_true _)
  rw [clk_free h.busy hnoedge]
  exact ⟨h.busy, rfl, hsync⟩

/-- A clock edge keeps the receiver in step with the frame it sees. -/
theorem tracks_clk (hD : 4 ≤ D) {job : Option (UInt8 × ℕ)} {req : Option UInt8}
    (h : Tracks D r job) (hsync : r.rxSync = level D job)
    (hyoung : ∀ b a, job = some (b, a) → a < 10 * D) :
    Tracks D (clk D true false v r) (nextJob (10 * D) job req) := by
  have hpos : 0 < D := by omega
  have hfirst := first_sample_pos (D := D)
  have hend := first_sample_le hD
  cases job with
  | none =>
      obtain ⟨hbusy, -, -⟩ := h
      rw [clk_free hbusy (.inl hsync)]
      cases req with
      | none => exact ⟨hbusy, hsync, rfl⟩
      | some b => exact ⟨hbusy, hsync, rfl⟩
  | some j =>
      obtain ⟨b, a⟩ := j
      have ha := hyoung b a rfl
      rw [nextJob]
      by_cases hzero : a = 0
      · -- The start bit begins.
        subst hzero
        obtain ⟨hbusy, hprev, -⟩ := h
        have hlow : r.rxSync = false := by rw [hsync, level, Nat.zero_div, symbol_start]
        rw [if_pos (by omega)]
        show Tracks D (clk D true false v r) (some (b, 1))
        unfold Tracks
        simp only [Nat.one_ne_zero, if_false, if_pos hfirst]
        exact waiting_of_edge hbusy hlow hprev
      · by_cases hwait : a ≤ firstSample D
        · rw [if_pos (by omega)]
          have hwaiting : Waiting D a r := by
            unfold Tracks at h
            simp only [if_neg hzero, if_pos hwait] at h
            exact h
          by_cases hlast : a = firstSample D
          · rw [hlast] at hsync hwaiting ⊢
            rw [tracks_sampling (by omega) (by omega),
              show firstSample D + 1 - firstSample D - 1 = 0 by omega]
            exact hwaiting.sample hsync
          · show Tracks D (clk D true false v r) (some (b, a + 1))
            unfold Tracks
            simp only [Nat.succ_ne_zero, if_false, if_pos (show a + 1 ≤ firstSample D by omega)]
            exact hwaiting.count (by omega)
        · by_cases hmore : a ≤ firstSample D + 8 * D
          · rw [if_pos (by omega)]
            rw [tracks_sampling (by omega) hmore] at h
            obtain ⟨e, rfl⟩ : ∃ e, a = firstSample D + 1 + e := ⟨a - firstSample D - 1, by omega⟩
            rw [show firstSample D + 1 + e - firstSample D - 1 = e by omega] at h
            exact h.step hD (by omega) hsync
          · rw [tracks_done (by omega)] at h
            obtain ⟨hprev, hdone⟩ := h
            obtain ⟨hbusy, hstrobe, hprev'⟩ := hdone.step (v := v) hD (by omega) hprev hsync
            by_cases hage : a + 1 < 10 * D
            · rw [if_pos hage, tracks_done (by omega), Nat.add_sub_cancel]
              exact ⟨hprev', {
                busy := hbusy
                strobe := by rw [hstrobe]; exact (decide_eq_false (by omega)).symm
                byte := fun hnow ↦ absurd hnow (by omega) }⟩
            · rw [if_neg hage]
              have hstop : 9 ≤ a / D := (Nat.le_div_iff_mul_le hpos).mpr (by omega)
              exact ⟨hbusy, by rw [hprev', symbol_stop b hstop], hstrobe⟩

/-- A byte is on strobe exactly one cycle after the sample of its stop bit. -/
theorem Tracks.strobed {job : Option (UInt8 × ℕ)} (h : Tracks D r job) :
    r.strobed = (atAge (firstSample D + 8 * D + 1) job).map (received D) := by
  unfold MidiRx.strobed
  cases job with
  | none =>
      rw [h.2.2]
      rfl
  | some j =>
      obtain ⟨b, a⟩ := j
      have hfirst := first_sample_pos (D := D)
      by_cases hdone : firstSample D + 8 * D < a
      · rw [tracks_done hdone] at h
        rw [h.2.strobe, atAge]
        by_cases hnow : a = firstSample D + 8 * D + 1
        · rw [if_pos hnow, h.2.byte hnow, if_pos (decide_eq_true hnow)]
          rfl
        · rw [if_neg hnow, if_neg (by simp [hnow])]
          rfl
      · have hquiet : r.rxStrobe = false := by
          unfold Tracks at h
          simp only at h
          split at h
          · exact h.2.2
          · split at h
            · exact h.strobe
            · rw [if_pos (by omega)] at h
              exact h.strobe
        rw [hquiet, if_neg Bool.false_ne_true, atAge, if_neg (by omega)]
        rfl

end Step

/-- The receiver in each cycle, enabled, on a line. -/
def runRx (D : ℕ) (r : MidiRx) (line : ℕ → Bool) : ℕ → MidiRx :=
  trace (fun r v ↦ clk D true false v r) r line

section Run

variable {D : ℕ} {r : MidiRx} {line : ℕ → Bool}

/-- The synchroniser shows the line two cycles late. -/
theorem run_rx_sync (n : ℕ) :
    (runRx D r line (n + 2)).rxSync = line n ∧ (runRx D r line (n + 1)).stage = line n := by
  constructor
  · show (clk D true false (line (n + 1)) (clk D true false (line n) (runRx D r line n))).rxSync = _
    rw [(clk_synchroniser D _ _).2.1, (clk_synchroniser D _ _).1]
  · exact (clk_synchroniser D _ _).1

/-- Before the line comes through, a quiet receiver stays quiet. -/
theorem run_rx_settled (D : ℕ) (line : ℕ → Bool) (hquiet : Quiet r) :
    (runRx D r line 1).rxStrobe = false ∧ (runRx D r line 2).rxBusy = false ∧
      (runRx D r line 2).rxStrobe = false := by
  have hsync : r.rxSync = true ∨ r.rxPrev = false := by
    cases hprev : r.rxPrev with
    | false => exact .inr rfl
    | true => exact .inl (hquiet.sync hprev)
  have hstage : r.stage = true ∨ r.rxSync = false := by
    cases hlow : r.rxSync with
    | false => exact .inr rfl
    | true => exact .inl (hquiet.stage hlow)
  have hone : runRx D r line 1 = r.shifted (line 0) := clk_free hquiet.busy hsync
  have htwo : runRx D r line 2 = (r.shifted (line 0)).shifted (line 1) := by
    show clk D true false (line 1) (runRx D r line 1) = _
    rw [hone]
    exact clk_free hquiet.busy hstage
  rw [hone, htwo]
  exact ⟨rfl, hquiet.busy, rfl⟩

section Frames

variable {job : ℕ → Option (UInt8 × ℕ)} {req : ℕ → Option UInt8} (hD : 4 ≤ D)
  (hquiet : Quiet r) (hfree : job 0 = none)
  (hjob : ∀ n, job (n + 1) = nextJob (10 * D) (job n) (req n))
  (hline : ∀ n, line n = level D (job n))
include hD hquiet hfree hjob hline

/-- The receiver is in step with the frames on the line, two cycles late, once the idle line has
come through. -/
theorem run_rx_tracks (n : ℕ) : Tracks D (runRx D r line (n + 3)) (job (n + 1)) := by
  induction n with
  | zero =>
      obtain ⟨-, hbusy, -⟩ := run_rx_settled D line hquiet
      have hidle : (runRx D r line 2).rxSync = true := by
        rw [(run_rx_sync 0).1, hline, hfree]
        rfl
      have hthree : runRx D r line 3 = (runRx D r line 2).shifted (line 2) :=
        clk_free hbusy (.inl hidle)
      rw [hthree, hjob, hfree]
      cases req 0 with
      | none => exact ⟨hbusy, hidle, rfl⟩
      | some b => exact ⟨hbusy, hidle, rfl⟩
  | succ n ih =>
      rw [hjob]
      exact tracks_clk hD ih ((run_rx_sync (n + 1)).1.trans (hline (n + 1))) fun b a h ↦
        age_lt hjob (by omega) hfree h

/-- The byte of a frame is strobed a fixed time after the frame began. -/
theorem strobed_later (n : ℕ) :
    (runRx D r line (n + (firstSample D + 8 * D + 1 + 2))).strobed =
      (atAge 0 (job n)).map (received D) := by
  have htracks := run_rx_tracks hD hquiet hfree hjob hline (n + (firstSample D + 8 * D))
  have hend := first_sample_le hD
  rw [show n + (firstSample D + 8 * D + 1 + 2) = n + (firstSample D + 8 * D) + 3 by omega,
    htracks.strobed, ← at_age_later hjob (k := firstSample D + 8 * D + 1) (by omega)]
  rfl

/-- Nothing is strobed earlier. -/
theorem strobed_early {n : ℕ} (hn : n ≤ firstSample D + 8 * D + 1 + 2) :
    (runRx D r line n).strobed = none := by
  obtain ⟨hone, -, htwo⟩ := run_rx_settled D line hquiet
  match n with
  | 0 =>
      show (if r.rxStrobe then some r.rxByte else none) = none
      rw [hquiet.strobe, if_neg Bool.false_ne_true]
  | 1 => rw [strobed, hone, if_neg Bool.false_ne_true]
  | 2 => rw [strobed, htwo, if_neg Bool.false_ne_true]
  | n + 3 =>
      rw [(run_rx_tracks hD hquiet hfree hjob hline n).strobed]
      rw [at_age_early hjob hfree (by omega)]
      rfl

end Frames

/-! ### Bytes nobody sent -/

/-- How many edges a receiver that is busy has before the one that strobes. -/
def pending (D : ℕ) (r : MidiRx) : ℕ := r.rxDiv + (8 - r.rxBits) * D

/-- A receiver that is busy strobes a byte, whatever the line does. -/
theorem strobes_of_busy (hD : 0 < D) {k : ℕ} (hbusy : r.rxBusy = true) (hk : pending D r = k)
    (line : ℕ → Bool) : ∃ n, (runRx D r line n).rxStrobe = true := by
  induction k generalizing r line with
  | zero =>
      obtain ⟨hdiv, hbits⟩ := Nat.add_eq_zero_iff.mp hk
      have hlast : ¬ r.rxBits < 8 := by
        rcases Nat.mul_eq_zero.mp hbits with h | h <;> omega
      refine ⟨1, ?_⟩
      show (clk D true false (line 0) r).rxStrobe = true
      rw [clk_done hbusy hdiv hlast]
  | succ k ih =>
      have hnext : (clk D true false (line 0) r).rxStrobe = true ∨
          (clk D true false (line 0) r).rxBusy = true ∧
            pending D (clk D true false (line 0) r) = k := by
        unfold pending at hk
        by_cases hdiv : r.rxDiv = 0
        · by_cases hbits : r.rxBits < 8
          · rw [clk_sample hbusy hdiv hbits]
            refine .inr ⟨hbusy, ?_⟩
            show D - 1 + (8 - (r.rxBits + 1)) * D = k
            obtain ⟨m, hm⟩ : ∃ m, 8 - r.rxBits = m + 1 := ⟨7 - r.rxBits, by omega⟩
            rw [hm, hdiv, Nat.succ_mul] at hk
            rw [show 8 - (r.rxBits + 1) = m by omega]
            omega
          · rw [clk_done hbusy hdiv hbits]
            exact .inl rfl
        · rw [clk_count hbusy hdiv]
          refine .inr ⟨hbusy, ?_⟩
          show r.rxDiv - 1 + (8 - r.rxBits) * D = k
          omega
      rcases hnext with hstrobe | ⟨hbusy', hk'⟩
      · exact ⟨1, hstrobe⟩
      · obtain ⟨n, hn⟩ := ih hbusy' hk' fun i ↦ line (i + 1)
        exact ⟨n + 1, by rw [runRx, trace_succ']; exact hn⟩

/-- A receiver that is not quiet strobes a byte, whatever the line does. -/
theorem strobes_of_not_quiet (hD : 0 < D) (hquiet : ¬ Quiet r) (line : ℕ → Bool) :
    ∃ n, (runRx D r line n).rxStrobe = true := by
  cases hstrobe : r.rxStrobe with
  | true => exact ⟨0, hstrobe⟩
  | false =>
      cases hbusy : r.rxBusy with
      | true => exact strobes_of_busy hD hbusy rfl line
      | false =>
          by_cases hedge : r.rxSync = false ∧ r.rxPrev = true
          · -- The falling edge is there.
            have hwait := waiting_of_edge (D := D) (v := line 0) hbusy hedge.1 hedge.2
            obtain ⟨n, hn⟩ := strobes_of_busy hD hwait.busy rfl fun i ↦ line (i + 1)
            exact ⟨n + 1, by rw [runRx, trace_succ']; exact hn⟩
          · -- It is one stage behind.
            have hsync : r.rxPrev = true → r.rxSync = true := by
              intro hprev
              by_contra hlow
              exact hedge ⟨Bool.eq_false_iff.mpr hlow, hprev⟩
            have hstage : r.rxSync = true ∧ r.stage = false := by
              by_contra hnot
              refine hquiet ⟨hbusy, hstrobe, hsync, fun hhigh ↦ ?_⟩
              by_contra hlow
              exact hnot ⟨hhigh, Bool.eq_false_iff.mpr hlow⟩
            have hone : clk D true false (line 0) r = r.shifted (line 0) :=
              clk_free hbusy (.inl hstage.1)
            have hwait := waiting_of_edge (D := D) (r := r.shifted (line 0)) (v := line 1) hbusy
              hstage.2 hstage.1
            obtain ⟨n, hn⟩ := strobes_of_busy hD hwait.busy rfl fun i ↦ line (i + 2)
            refine ⟨n + 2, ?_⟩
            rw [runRx, trace_succ', trace_succ', hone]
            exact hn

end Run

end MidiRx

section Loopback

variable {D : ℕ} {s : MidiTx} {r : MidiRx} {inp : ℕ → MidiTxIn}

/-- Over the loop the receiver strobes the bytes that are transmitted, each once and in order. -/
def RoundTrips (D : ℕ) (s : MidiTx) (r : MidiRx) (inp : ℕ → MidiTxIn) : Prop :=
  Relays (fun n ↦ (MidiTx.runTx D s inp n).loaded)
    fun n ↦ (MidiRx.runRx D r (fun n ↦ (MidiTx.runTx D s inp n).padTx) n).strobed

/-- Over the loop a quiet receiver relays the bytes that sampling leaves alone. -/
theorem loopback_relays_iff (hD : 4 ≤ D)
    (hrun : ∀ n, (inp n).enable = true ∧ (inp n).softRst = false) (hfree : s.txBusy = false)
    (hquiet : r.Quiet) :
    RoundTrips D s r inp ↔
      ∀ n b, (MidiTx.runTx D s inp n).loaded = some b → MidiRx.received D b = b := by
  have hpos : 0 < D := by omega
  have hline := MidiTx.pad_tx_eq (s := s) hpos hrun hfree
  have hloaded := MidiTx.loaded_eq (s := s) hpos hrun hfree
  refine relays_delayed_iff (k := MidiRx.firstSample D + 8 * D + 1 + 2 + 1) (fun n hn ↦ ?_)
    fun n ↦ ?_
  · exact MidiRx.strobed_early hD hquiet rfl MidiTx.jobs_succ hline (by omega)
  · have hlate := MidiRx.strobed_later hD hquiet rfl MidiTx.jobs_succ hline (n + 1)
    rw [show n + (MidiRx.firstSample D + 8 * D + 1 + 2 + 1) =
      n + 1 + (MidiRx.firstSample D + 8 * D + 1 + 2) by omega, hloaded]
    exact hlate

/-- Every byte comes back to a quiet receiver exactly if one and a half bit times fit the divider
register, or the bytes are all zero. -/
theorem round_trips_iff (hD : 4 ≤ D)
    (hrun : ∀ n, (inp n).enable = true ∧ (inp n).softRst = false) (hfree : s.txBusy = false)
    (hquiet : r.Quiet) :
    RoundTrips D s r inp ↔ D + D / 2 ≤ 2 ^ bitsFor D ∨
      ∀ n b, (MidiTx.runTx D s inp n).loaded = some b → b = 0 := by
  rw [loopback_relays_iff hD hrun hfree hquiet]
  by_cases hfits : D + D / 2 ≤ 2 ^ bitsFor D
  · exact ⟨fun _ ↦ .inl hfits, fun _ n b _ ↦ MidiRx.received_of_fits hD hfits b⟩
  · have hwraps := fun b ↦ MidiRx.received_of_wraps hD hfits b
    constructor
    · intro hsame
      exact .inr fun n b hb ↦ (hwraps b).mp (hsame n b hb)
    · rintro (hnow | hzero)
      · exact absurd hnow hfits
      · intro n b hb
        exact (hwraps b).mpr (hzero n b hb)

/-- Enabled, with a start pulse in the first cycle or none at all. -/
def enabledInput (start : Bool) (n : ℕ) : MidiTxIn where
  ctrl := 1
  autoTxCtrl := 7
  clk24 := false
  start := start && n == 0
  stop := false
  txData := 0
  txPush := false

theorem enabled_input_enabled (start : Bool) (n : ℕ) :
    (enabledInput start n).enable = true ∧ (enabledInput start n).softRst = false := by
  show decide ((1 : UInt8) &&& 1 = 1) = true ∧ decide ((1 : UInt8) &&& 2 = 2) = false
  decide

/-- Without requests the transmitter sends nothing. -/
theorem nothing_loaded (D n : ℕ) :
    (MidiTx.runTx D .reset (enabledInput false) n).loaded = none := by
  have hreset : MidiTx.runTx D .reset (enabledInput false) n = .reset := by
    induction n with
    | zero => rfl
    | succ n ih =>
        show MidiTx.clk D _ (MidiTx.runTx D .reset (enabledInput false) n) = _
        rw [ih]
        obtain ⟨henable, hrst⟩ := enabled_input_enabled false n
        rw [MidiTx.clk_idle henable hrst rfl rfl]
        simp [MidiTx.injected, MidiTx.inject, enabledInput, MidiTx.nextFifo, MidiTx.fifoRe,
          MidiTx.reset]
  rw [hreset]
  rfl

/-- All bytes come back, whatever is transmitted, exactly if the receiver is quiet when the two
are enabled and one and a half bit times fit the divider register. To a quiet receiver those of
one transmission come back also if they are all zero. From power-on the receiver is quiet once it
was left disabled for a cycle. -/
theorem uart_round_trip_iff (sysClkFreq : ℕ) (hD : 4 ≤ dividerMax sysClkFreq) (r : MidiRx) :
    let D := dividerMax sysClkFreq
    ((∀ (s : MidiTx) (inp : ℕ → MidiTxIn), s.txBusy = false →
        (∀ n, (inp n).enable = true ∧ (inp n).softRst = false) → RoundTrips D s r inp) ↔
      r.Quiet ∧ D + D / 2 ≤ 2 ^ bitsFor D) ∧
    (r.Quiet → ∀ (s : MidiTx) (inp : ℕ → MidiTxIn), s.txBusy = false →
      (∀ n, (inp n).enable = true ∧ (inp n).softRst = false) →
      (RoundTrips D s r inp ↔ D + D / 2 ≤ 2 ^ bitsFor D ∨
        ∀ n b, (MidiTx.runTx D s inp n).loaded = some b → b = 0)) ∧
    ∀ k, (MidiRx.poweredOn D k).Quiet ↔ 0 < k := by
  intro D
  refine ⟨⟨fun hall ↦ ?_, ?_⟩, ?_, MidiRx.powered_on_quiet_iff D⟩
  · have hquiet : r.Quiet := by
      by_contra hnot
      -- With nothing to send, the byte that is strobed is one nobody sent.
      have hsilent := hall .reset (enabledInput false) rfl (enabled_input_enabled false)
      obtain ⟨n, hn⟩ := MidiRx.strobes_of_not_quiet (D := D) (by omega) hnot
        fun n ↦ (MidiTx.runTx D .reset (enabledInput false) n).padTx
      have hnone := hsilent.silent (nothing_loaded D) n
      rw [MidiRx.strobed, if_pos hn] at hnone
      cases hnone
    refine ⟨hquiet, ?_⟩
    have hstart := hall .reset (enabledInput true) rfl (enabled_input_enabled true)
    rcases (round_trips_iff hD (enabled_input_enabled true) rfl hquiet).mp hstart with hfits | hzero
    · exact hfits
    · exact absurd (hzero 1 rtStart rfl) (by decide)
  · rintro ⟨hquiet, hfits⟩ s inp hfree hrun
    exact (round_trips_iff hD hrun hfree hquiet).mpr (.inl hfits)
  · exact fun hquiet s inp hfree hrun ↦ round_trips_iff hD hrun hfree hquiet

/-- At 75 MHz a start byte comes back to a receiver that was disabled in its first cycle; a
receiver enabled at once may strobe a byte nobody sent. -/
theorem uart_round_trip_iff_75_mhz :
    RoundTrips (dividerMax 75000000) .reset (MidiRx.poweredOn (dividerMax 75000000) 1)
        (enabledInput true) ∧
      ¬ ∀ (s : MidiTx) (inp : ℕ → MidiTxIn), s.txBusy = false →
        (∀ n, (inp n).enable = true ∧ (inp n).softRst = false) →
        RoundTrips (dividerMax 75000000) s .reset inp := by
  have hD : 4 ≤ dividerMax 75000000 := by decide
  have hquiet := (uart_round_trip_iff 75000000 hD .reset).2.2
  refine ⟨((uart_round_trip_iff 75000000 hD _).2.1 ((hquiet 1).mpr Nat.one_pos) .reset
    (enabledInput true) rfl (enabled_input_enabled true)).mpr (.inl (by decide)), fun hall ↦ ?_⟩
  have hnow := ((uart_round_trip_iff 75000000 hD .reset).1.mp hall).1
  exact absurd ((hquiet 0).mp hnow) (Nat.lt_irrefl 0)

/-- At 50 MHz the start byte comes back as another one. -/
theorem start_byte_garbled_at_50_mhz :
    ¬ RoundTrips (dividerMax 50000000) .reset .idle (enabledInput true) := by
  intro h
  have hsame := (loopback_relays_iff (by decide) (enabled_input_enabled true) rfl
    ⟨rfl, rfl, fun _ ↦ rfl, fun _ ↦ rfl⟩).mp h 1 rtStart rfl
  have hzero := (MidiRx.received_of_wraps (by decide) (by decide) rtStart).mp hsame
  exact absurd hzero (by decide)

end Loopback

end LinkFPGA
