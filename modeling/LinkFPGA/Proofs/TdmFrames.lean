import Mathlib.Tactic.Ring
import LinkFPGA.Gateware.Tdm

/-!
# What a TDM frame carries

The serdes works on every second edge of the audio clock, and its position in the frame counts
these edges modulo 256 whatever it sends and receives (`at_position`, `frame_pulse_iff`). The
first bit of a slot goes out together with the unshifted load of `tx_shift`, so the second one is
the most significant bit again and the least significant one is never sent (`frame_bit`);
`frame_bits_iff` says which samples arrive nevertheless.
-/

namespace LinkFPGA

open Clocked

namespace TdmSerdes

/-! ## The position in the frame -/

/-- An edge with `bck` low. -/
theorem clk_low {s : TdmSerdes} (h : s.bck = false) (i : TdmIn) :
    s.clk i = { s with bck := true, framePulseAudio := false } := by
  simp [clk, h]

/-- An edge with `bck` high does the work of the transmitter and then that of the receiver. -/
theorem clk_high {s : TdmSerdes} (h : s.bck = true) (i : TdmIn) :
    s.clk i = s.receive i (s.transmit i { s with bck := !s.bck, framePulseAudio := false }) :=
  if_pos h

/-- The edge that works moves on by one bit, and reports the end of a frame. -/
structure Moves (s t : TdmSerdes) : Prop where
  bck : t.bck = false
  slot : t.slot = if s.bitIdx = 15 then s.slot + 1 else s.slot
  bitIdx : t.bitIdx = s.bitIdx + 1
  framePulse : t.framePulseAudio = true ↔ s.bitIdx = 15 ∧ s.slot = 15

/-- The transmitter leaves the position alone. -/
theorem transmit_position (i : TdmIn) (s t : TdmSerdes) :
    (s.transmit i t).bck = t.bck ∧ (s.transmit i t).slot = t.slot ∧
      (s.transmit i t).framePulseAudio = t.framePulseAudio := by
  unfold transmit
  split <;> exact ⟨rfl, rfl, rfl⟩

theorem clk_high_moves {s : TdmSerdes} (h : s.bck = true) (i : TdmIn) : Moves s (s.clk i) := by
  obtain ⟨hbck, hslot, hpulse⟩ :=
    transmit_position i s { s with bck := !s.bck, framePulseAudio := false }
  rw [clk_high h]
  generalize s.transmit i { s with bck := !s.bck, framePulseAudio := false } = t
    at hbck hslot hpulse
  rw [h] at hbck
  unfold receive
  dsimp only
  by_cases hbit : s.bitIdx = 15
  · rw [if_pos hbit]
    by_cases hlast : s.slot = 15
    · rw [if_pos hlast]
      exact ⟨hbck, by simp [hbit, hlast], by simp [hbit], by simp [hbit, hlast]⟩
    · rw [if_neg hlast]
      exact ⟨hbck, by simp [hbit], by simp [hbit], by simpa [hlast] using hpulse⟩
  · rw [if_neg hbit]
    exact ⟨hbck, by simpa [hbit] using hslot, rfl, by simpa [hbit] using hpulse⟩

/-- `p` audio cycles into slot 0 of the first frame: `bck` is high in every second cycle, a bit is
two cycles long, a slot 32 and a frame 512. -/
structure AtPhase (p : ℕ) (s : TdmSerdes) : Prop where
  bck : s.bck = decide (p % 2 = 1)
  bitIdx : s.bitIdx.val = p / 2 % 16
  slot : s.slot.val = p / 32 % 16

/-- An edge leads on to the next cycle of the frame. -/
theorem AtPhase.clk {p : ℕ} {s : TdmSerdes} (h : AtPhase p s) (i : TdmIn) :
    AtPhase (p + 1) (s.clk i) := by
  obtain ⟨hbck, hbit, hslot⟩ := h
  by_cases hodd : p % 2 = 1
  · have hmoves := clk_high_moves (hbck.trans (decide_eq_true hodd)) i
    have hlast : s.bitIdx = 15 ↔ p / 2 % 16 = 15 := by
      rw [Fin.ext_iff, hbit]
      rfl
    refine ⟨?_, ?_, ?_⟩
    · rw [hmoves.bck]
      exact (decide_eq_false (by omega)).symm
    · rw [hmoves.bitIdx, Fin.val_add, hbit]
      show (p / 2 % 16 + 1) % 16 = _
      omega
    · rw [hmoves.slot]
      split
      · rename_i hfull
        have hfull := hlast.mp hfull
        rw [Fin.val_add, hslot]
        show (p / 32 % 16 + 1) % 16 = _
        omega
      · rename_i hmore
        have hmore := mt hlast.mpr hmore
        rw [hslot]
        omega
  · rw [clk_low (hbck.trans (decide_eq_false hodd))]
    refine ⟨(decide_eq_true (by omega)).symm, ?_, ?_⟩
    · show s.bitIdx.val = _
      omega
    · show s.slot.val = _
      omega

/-- The frame pulse comes with the edge that ends a frame. -/
theorem AtPhase.frame_pulse {p : ℕ} {s : TdmSerdes} (h : AtPhase p s) (i : TdmIn) :
    (s.clk i).framePulseAudio = true ↔ p % 512 = 511 := by
  obtain ⟨hbck, hbit, hslot⟩ := h
  by_cases hodd : p % 2 = 1
  · rw [(clk_high_moves (hbck.trans (decide_eq_true hodd)) i).framePulse, Fin.ext_iff, Fin.ext_iff,
      hbit, hslot]
    show p / 2 % 16 = 15 ∧ p / 32 % 16 = 15 ↔ _
    omega
  · rw [clk_low (hbck.trans (decide_eq_false hodd))]
    refine iff_of_false Bool.false_ne_true ?_
    omega

/-- Every edge leads on by one cycle. -/
theorem at_phase {p : ℕ} {s : TdmSerdes} (h : AtPhase p s) (inp : ℕ → TdmIn) (n : ℕ) :
    AtPhase (p + n) (trace TdmSerdes.clk s inp n) := by
  induction n with
  | zero => exact h
  | succ n ih => exact ih.clk (inp n)

/-- The slot that bit `k` of a frame belongs to. -/
def slotOf (k : ℕ) : Fin 16 := ⟨k / 16 % 16, Nat.mod_lt _ (by decide)⟩

/-- In front of bit `k`, counted from the start of a frame. -/
structure AtPosition (k : ℕ) (s : TdmSerdes) : Prop where
  bck : s.bck = true
  slot : s.slot = slotOf k
  bitIdx : s.bitIdx = Fin.ofNat 16 k

theorem slot_of_succ (k : ℕ) :
    slotOf (k + 1) = if k % 16 = 15 then slotOf k + 1 else slotOf k := by
  rw [Fin.ext_iff]
  split
  · show (k + 1) / 16 % 16 = (k / 16 % 16 + 1) % 16
    omega
  · show (k + 1) / 16 % 16 = k / 16 % 16
    omega

variable {s : TdmSerdes} {inp : ℕ → TdmIn}

/-- The start of a frame is one cycle into it. -/
theorem AtFrameStart.phase (h : s.AtFrameStart) : AtPhase 1 s := by
  refine ⟨h.bck, ?_, ?_⟩
  · rw [h.bitIdx]
    rfl
  · rw [h.slot]
    rfl

/-- Every two edges the serdes is one bit further. -/
theorem at_position (h : s.AtFrameStart) (inp : ℕ → TdmIn) (k : ℕ) :
    AtPosition k (trace clk s inp (2 * k)) := by
  obtain ⟨hbck, hbit, hslot⟩ := at_phase h.phase inp (2 * k)
  refine ⟨?_, ?_, ?_⟩
  · rw [hbck]
    exact decide_eq_true (by omega)
  · rw [Fin.ext_iff, hslot]
    show (1 + 2 * k) / 32 % 16 = k / 16 % 16
    omega
  · rw [Fin.ext_iff, hbit]
    show (1 + 2 * k) / 2 % 16 = k % 16
    omega

/-- The frame pulse is one audio cycle long and comes with the last bit of a frame. -/
theorem frame_pulse_iff (h : s.AtFrameStart) (inp : ℕ → TdmIn) (n : ℕ) :
    (trace clk s inp (n + 1)).framePulseAudio = true ↔ n % 512 = 510 := by
  rw [trace_succ, (at_phase h.phase inp n).frame_pulse]
  omega

/-- The first frame starts one edge after power-on, the next ones 512 edges later each. -/
theorem frame_starts (inp : ℕ → TdmIn) (f : ℕ) :
    (trace clk reset inp (1 + 512 * f)).AtFrameStart := by
  have hfirst : (trace clk reset inp 1).AtFrameStart := ⟨rfl, rfl, rfl⟩
  have hpos := at_position hfirst (fun n ↦ inp (1 + n)) (256 * f)
  rw [show 2 * (256 * f) = 512 * f by ring, ← trace_add] at hpos
  refine ⟨hpos.bck, ?_, ?_⟩
  · rw [hpos.slot, slotOf, Fin.ext_iff]
    show 256 * f / 16 % 16 = 0
    omega
  · rw [hpos.bitIdx, Fin.ext_iff]
    show 256 * f % 16 = 0
    omega

/-! ## The bits that are sent -/

/-- What the edge that works sends and keeps. -/
theorem clk_high_sends {s : TdmSerdes} (h : s.bck = true) (i : TdmIn) :
    (s.clk i).sdout =
        (if s.bitIdx = 0 then (i.txHold.get s.slot).getMsbD 0 else s.txShift.getMsbD 0) ∧
      (s.clk i).txShift = if s.bitIdx = 0 then i.txHold.get s.slot else s.txShift <<< 1 := by
  have hkeeps (t : TdmSerdes) :
      (s.receive i t).sdout = t.sdout ∧ (s.receive i t).txShift = t.txShift := by
    unfold receive
    dsimp only
    split
    · split <;> exact ⟨rfl, rfl⟩
    · exact ⟨rfl, rfl⟩
  rw [clk_high h, (hkeeps _).1, (hkeeps _).2]
  unfold transmit
  split <;> exact ⟨rfl, rfl⟩

variable {hold : Vector (BitVec 16) 16}

/-- Inside a slot `tx_shift` holds the sample, shifted once for each bit after the second one. -/
theorem at_shift (h : s.AtFrameStart) {k : ℕ} (hheld : ∀ n < 2 * k, (inp n).txHold = hold)
    (hinside : k % 16 ≠ 0) :
    (trace clk s inp (2 * k)).txShift = hold.get (slotOf k) <<< (k % 16 - 1) := by
  induction k with
  | zero => exact absurd rfl hinside
  | succ k ih =>
      have hpos := at_position h inp k
      have hmoves := clk_high_moves hpos.bck (inp (2 * k))
      have hslot : slotOf (k + 1) = slotOf k := by rw [slot_of_succ, if_neg (by omega)]
      rw [show 2 * (k + 1) = 2 * k + 1 + 1 by ring, trace_succ, trace_succ, clk_low hmoves.bck]
      show (clk _ _).txShift = _
      rw [(clk_high_sends hpos.bck _).2, hpos.bitIdx, hpos.slot, hheld _ (by omega), hslot]
      by_cases hload : k % 16 = 0
      · rw [if_pos (Fin.ext_iff.mpr hload), show (k + 1) % 16 - 1 = 0 by omega]
        exact (BitVec.shiftLeft_zero _).symm
      · rw [if_neg fun hzero ↦ hload (Fin.ext_iff.mp hzero),
          ih (fun n hn ↦ hheld n (by omega)) hload, ← BitVec.shiftLeft_add]
        congr 1
        omega

/-- Bit `k` of a frame is the bit of its slot that should have gone out before it. -/
theorem frame_bit (h : s.AtFrameStart) {k : ℕ} (hheld : ∀ n ≤ 2 * k, (inp n).txHold = hold) :
    (trace clk s inp (2 * k + 1)).sdout = (hold.get (slotOf k)).getMsbD (k % 16 - 1) := by
  have hpos := at_position h inp k
  rw [trace_succ, (clk_high_sends hpos.bck _).1, hpos.bitIdx, hpos.slot, hheld _ le_rfl]
  by_cases hload : k % 16 = 0
  · rw [if_pos (Fin.ext_iff.mpr hload), hload]
  · rw [if_neg fun hzero ↦ hload (Fin.ext_iff.mp hzero),
      at_shift h (fun n hn ↦ hheld n (by omega)) hload, BitVec.getMsbD_shiftLeft, Nat.zero_add]

/-- The 256 bits sent from the start of a frame on are the sixteen samples in order, each from its
most significant bit down. -/
def SendsSamples (s : TdmSerdes) (inp : ℕ → TdmIn) (hold : Vector (BitVec 16) 16) : Prop :=
  ∀ k < 256, (trace clk s inp (2 * k + 1)).sdout = (hold.get (slotOf k)).getMsbD (k % 16)

/-- A sample whose neighbouring bits are all equal. -/
theorem all_bits_equal {x : BitVec 16} (h : ∀ j < 15, x.getMsbD j = x.getMsbD (j + 1)) :
    x = 0 ∨ x = BitVec.allOnes 16 := by
  have hmsb : ∀ j < 16, x.getMsbD j = x.getMsbD 0 := by
    intro j
    induction j with
    | zero => exact fun _ ↦ rfl
    | succ j ih => exact fun hj ↦ (h j (by omega)).symm.trans (ih (by omega))
  cases hfirst : x.getMsbD 0 with
  | false =>
      left
      refine BitVec.eq_of_getMsbD_eq fun j hj ↦ ?_
      rw [hmsb j hj, hfirst]
      simp
  | true =>
      right
      refine BitVec.eq_of_getMsbD_eq fun j hj ↦ ?_
      rw [hmsb j hj, hfirst, BitVec.getMsbD_allOnes, decide_eq_true hj]

/-- A frame carries the samples exactly when each of them is `0x0000` or `0xFFFF`. -/
theorem frame_bits_iff (h : s.AtFrameStart) (hheld : ∀ n < 512, (inp n).txHold = hold) :
    SendsSamples s inp hold ↔ ∀ slot, hold.get slot = 0x0000 ∨ hold.get slot = 0xFFFF := by
  have hbit {k : ℕ} (hk : k < 256) := frame_bit (k := k) h fun n hn ↦ hheld n (by omega)
  constructor
  · intro hsent slot
    refine all_bits_equal fun j hj ↦ ?_
    -- bit `j + 1` of the slot
    have hk : 16 * slot.val + (j + 1) < 256 := by omega
    have hslot : slotOf (16 * slot.val + (j + 1)) = slot := by
      rw [slotOf, Fin.ext_iff]
      show (16 * slot.val + (j + 1)) / 16 % 16 = slot.val
      omega
    have hboth := (hbit hk).symm.trans (hsent _ hk)
    rw [hslot, show (16 * slot.val + (j + 1)) % 16 = j + 1 by omega] at hboth
    exact hboth
  · intro hflat k hk
    rw [hbit hk]
    have hmod : k % 16 < 16 := Nat.mod_lt k (by omega)
    rcases hflat (slotOf k) with hzero | hones
    · rw [hzero]
      simp
    · rw [hones]
      show (BitVec.allOnes 16).getMsbD _ = (BitVec.allOnes 16).getMsbD _
      rw [BitVec.getMsbD_allOnes, BitVec.getMsbD_allOnes]
      simp [hmod]
      omega

/-- Full scale in every second slot. -/
def fullScale : Vector (BitVec 16) 16 :=
  .ofFn fun slot ↦ if slot.val % 2 = 0 then 0x0000 else 0xFFFF

theorem frame_bits_iff_full_scale :
    SendsSamples (trace clk reset (fun _ ↦ ⟨fullScale, false⟩) 1) (fun _ ↦ ⟨fullScale, false⟩)
      fullScale := by
  refine (frame_bits_iff ⟨rfl, rfl, rfl⟩ fun _ _ ↦ rfl).mpr fun slot ↦ ?_
  have hget : fullScale.get slot = if slot.val % 2 = 0 then 0x0000 else 0xFFFF :=
    Vector.getElem_ofFn slot.isLt
  show fullScale.get slot = 0x0000 ∨ fullScale.get slot = 0xFFFF
  rw [hget]
  split
  · exact .inl rfl
  · exact .inr rfl

/-- A least significant bit that is not sent. -/
theorem lsb_not_sent :
    ¬ SendsSamples (trace clk reset (fun _ ↦ ⟨.replicate 16 0x0001, false⟩) 1)
      (fun _ ↦ ⟨.replicate 16 0x0001, false⟩) (.replicate 16 0x0001) := by
  intro hsent
  have hbit := hsent 15 (by omega)
  rw [frame_bit ⟨rfl, rfl, rfl⟩ fun _ _ ↦ rfl] at hbit
  exact absurd hbit (by decide)

end TdmSerdes

end LinkFPGA
