import LinkFPGA.Library.Serial
import LinkFPGA.Proofs.TdmFrames

/-!
# What the TDM receiver latches

One shift register takes the bits of all slots, and the latch of a slot is written with the edge
that brings in the last of them (`clk_high_receives`). The register shifts once for every bit
(`bits_shift_in`), so the latch holds the sixteen bits of its own slot, and no other edge writes
it (`latch_kept`). `receives_slots` puts this together for every frame of a run.
-/

namespace LinkFPGA

open Clocked Serial

namespace TdmSerdes

/-! ## One edge -/

/-- What the edge that works takes in. -/
theorem clk_high_receives {s : TdmSerdes} (h : s.bck = true) (i : TdmIn) :
    (s.clk i).rxShift = s.shiftIn i ∧
      (s.clk i).rxLat =
        if s.bitIdx = 15 then s.rxLat.set s.slot (s.shiftIn i) s.slot.isLt else s.rxLat := by
  have hkeeps (t : TdmSerdes) : (s.transmit i t).rxLat = t.rxLat := by
    unfold transmit
    split <;> rfl
  rw [clk_high h]
  unfold receive
  dsimp only
  rw [hkeeps]
  split
  · split <;> exact ⟨rfl, rfl⟩
  · exact ⟨rfl, rfl⟩

variable {p : ℕ} {s : TdmSerdes} {inp : ℕ → TdmIn}

/-- An edge writes no latch but that of the slot it is in. -/
theorem AtPhase.latch_kept (h : AtPhase p s) (i : TdmIn) {k : Fin 16} (hk : k.val ≠ p / 32 % 16) :
    (s.clk i).rxLat.get k = s.rxLat.get k := by
  by_cases hodd : p % 2 = 1
  · rw [(clk_high_receives (h.bck.trans (decide_eq_true hodd)) i).2]
    split
    · rw [← h.slot] at hk
      exact Vector.getElem_set_ne _ _ (fun hsame ↦ hk hsame.symm)
    · rfl
  · rw [clk_low (h.bck.trans (decide_eq_false hodd))]

/-- The last edge of a slot writes its latch, with the incoming bit below those received before. -/
theorem AtPhase.latch_written (h : AtPhase p s) (i : TdmIn) (hlast : p % 32 = 31) {k : Fin 16}
    (hk : k.val = p / 32 % 16) : (s.clk i).rxLat.get k = (s.clk i).rxShift := by
  have hhigh := h.bck.trans (decide_eq_true (by omega))
  have hbit : s.bitIdx = 15 := by
    rw [Fin.ext_iff, h.bitIdx]
    show p / 2 % 16 = 15
    omega
  obtain rfl : k = s.slot := by rw [Fin.ext_iff, h.slot, hk]
  rw [(clk_high_receives hhigh i).1, (clk_high_receives hhigh i).2, if_pos hbit]
  exact Vector.getElem_set_self _

/-! ## A run -/

/-- How many cycles of the slot are over when `slot` and `bit_idx` have just become 0: the first
one, if `bck` is high. -/
def elapsed (s : TdmSerdes) : ℕ := if s.bck then 1 else 0

theorem elapsed_le (s : TdmSerdes) : s.elapsed ≤ 1 := by
  unfold elapsed
  split <;> omega

/-- The cycle in which bit `b` of slot `k` is read in frame `f`. -/
def bitCycle (s : TdmSerdes) (f : ℕ) (k : Fin 16) (b : ℕ) : ℕ :=
  2 * (256 * f + 16 * k + b) + 1 - s.elapsed

/-- A run starts at the beginning of slot 0. -/
theorem at_phase_elapsed (hslot : s.slot = 0) (hbit : s.bitIdx = 0) : AtPhase s.elapsed s := by
  unfold elapsed
  refine ⟨?_, ?_, ?_⟩
  · cases s.bck <;> rfl
  · rw [hbit]
    split <;> rfl
  · rw [hslot]
    split <;> rfl

/-- The shift register takes in one bit every two edges. -/
theorem bits_shift_in (h : AtPhase s.elapsed s) (inp : ℕ → TdmIn) :
    ShiftsIn (fun k ↦ (trace clk s inp (2 * k + 1 - s.elapsed)).rxShift) fun k ↦
      (inp (2 * k + 1 - s.elapsed)).sdinR := by
  intro k
  have helapsed := s.elapsed_le
  have hphase := at_phase h inp (2 * k + 1 - s.elapsed)
  have hnext := at_phase h inp (2 * k + 1 - s.elapsed + 1)
  dsimp only
  rw [show 2 * (k + 1) + 1 - s.elapsed = 2 * k + 1 - s.elapsed + 1 + 1 by omega, trace_succ,
    clk_low (hnext.bck.trans (decide_eq_false (by omega)))]
  exact (clk_high_receives (hphase.bck.trans (decide_eq_true (by omega))) _).1

/-- After the last bit of a slot its latch holds the sixteen bits, the first one most
significant. -/
theorem latch_bits (h : AtPhase s.elapsed s) (inp : ℕ → TdmIn) (f : ℕ) (k : Fin 16) {b : ℕ}
    (hb : b < 16) :
    ((trace clk s inp (s.bitCycle f k 15 + 1)).rxLat.get k).getMsbD b =
      (inp (s.bitCycle f k b)).sdinR := by
  have helapsed := s.elapsed_le
  have hcycle : s.bitCycle f k 15 = 2 * (256 * f + 16 * k + 15) + 1 - s.elapsed := rfl
  have hshift := bits_shift_in h inp
  -- bit `b` is read first, and `15 - b` bits after it
  have hbits := hshift.getLsbD (256 * f + 16 * k + b) (show 15 - b < 16 by omega)
  have hword := (at_phase h inp (s.bitCycle f k 15)).latch_written (inp (s.bitCycle f k 15))
    (by omega) (k := k) (by omega)
  have hlast := hshift (256 * f + 16 * k + 15)
  have hwork := clk_high_receives
    ((at_phase h inp (s.bitCycle f k 15)).bck.trans (decide_eq_true (by omega)))
    (inp (s.bitCycle f k 15))
  rw [trace_succ, hword, hwork.1, BitVec.getMsbD_eq_getLsbD, decide_eq_true hb, Bool.true_and]
  rw [show 256 * f + 16 * k + b + (15 - b) + 1 = 256 * f + 16 * k + 15 + 1 by omega] at hbits
  dsimp only at hlast hbits
  rw [hlast] at hbits
  exact hbits

/-- Inside a slot no other latch is written. -/
theorem latches_kept (h : AtPhase s.elapsed s) (inp : ℕ → TdmIn) {q n : ℕ} {j : Fin 16}
    (hj : j.val ≠ q % 16) (hstart : 32 * q ≤ n + s.elapsed) (hend : n + s.elapsed ≤ 32 * (q + 1)) :
    (trace clk s inp n).rxLat.get j = (trace clk s inp (32 * q - s.elapsed)).rxLat.get j := by
  have hfrom : 32 * q - s.elapsed ≤ n := by omega
  induction n, hfrom using Nat.le_induction with
  | base => rfl
  | succ n hfrom ih =>
      have hphase := at_phase h inp n
      have hkept := hphase.latch_kept (inp n) (k := j)
      rw [trace_succ, hkept (by omega)]
      exact ih (by omega) (by omega)

/-! ## Every slot of every frame -/

/-- The receiver on a bit stream. -/
structure ReceivesSlots (s : TdmSerdes) (inp : ℕ → TdmIn) : Prop where
  /-- The slots take turns, for 32 audio cycles each. -/
  slot : ∀ n, (trace clk s inp n).slot.val = (n + s.elapsed) / 32 % 16
  /-- A bit is read in a cycle with `bck` high, in its slot and with its index. -/
  bit : ∀ f k, ∀ b < 16, (trace clk s inp (s.bitCycle f k b)).bck = true ∧
    (trace clk s inp (s.bitCycle f k b)).slot = k ∧
    (trace clk s inp (s.bitCycle f k b)).bitIdx.val = b
  /-- After its last bit the latch of a slot holds the sixteen bits, first bit most significant. -/
  latch : ∀ f k, ∀ b < 16, ((trace clk s inp (s.bitCycle f k 15 + 1)).rxLat.get k).getMsbD b =
    (inp (s.bitCycle f k b)).sdinR
  /-- From the start of a slot to its end the other latches are unchanged. -/
  others : ∀ f (k j : Fin 16), j ≠ k → ∀ n, 512 * f + 32 * k ≤ n + s.elapsed →
    n + s.elapsed ≤ 512 * f + 32 * k + 32 → (trace clk s inp n).rxLat.get j =
      (trace clk s inp (512 * f + 32 * k - s.elapsed)).rxLat.get j
  /-- Of any 512 successive edges exactly one asserts the frame pulse, for one cycle. -/
  framePulse : ∀ m, ∃! n, m ≤ n ∧ n < m + 512 ∧ (trace clk s inp (n + 1)).framePulseAudio = true

/-- From slot 0 and bit 0 the receiver latches every slot of every frame. -/
theorem receives_slots (hslot : s.slot = 0) (hbit : s.bitIdx = 0) (inp : ℕ → TdmIn) :
    ReceivesSlots s inp := by
  have h := at_phase_elapsed hslot hbit
  have helapsed := s.elapsed_le
  refine ⟨?_, ?_, ?_, ?_, ?_⟩
  · intro n
    rw [(at_phase h inp n).slot, Nat.add_comm]
  · intro f k b hb
    have hcycle : s.bitCycle f k b = 2 * (256 * f + 16 * k + b) + 1 - s.elapsed := rfl
    obtain ⟨hbck, hidx, hat⟩ := at_phase h inp (s.bitCycle f k b)
    refine ⟨hbck.trans (decide_eq_true (by omega)), ?_, ?_⟩
    · rw [Fin.ext_iff, hat]
      omega
    · rw [hidx]
      omega
  · exact fun f k b hb ↦ latch_bits h inp f k hb
  · intro f k j hj n hstart hend
    have hne : j.val ≠ (16 * f + k) % 16 := by
      have hval := Fin.val_ne_iff.mpr hj
      omega
    have hkept := latches_kept h inp hne (n := n) (by omega) (by omega)
    rwa [show 32 * (16 * f + k.val) = 512 * f + 32 * k by ring] at hkept
  · intro m
    have hpulse (n : ℕ) : (trace clk s inp (n + 1)).framePulseAudio = true ↔
        (s.elapsed + n) % 512 = 511 := (at_phase h inp n).frame_pulse (inp n)
    simp only [hpulse]
    -- the one edge of the window that ends a frame
    refine ⟨m + (511 + 512 - (s.elapsed + m) % 512) % 512, ⟨by omega, by omega, by omega⟩, ?_⟩
    rintro n ⟨hfrom, hto, hend⟩
    omega

/-- The first frame after power-on, with every second bit set. -/
theorem receives_slots_power_on :
    ReceivesSlots reset fun n ↦ ⟨.replicate 16 0, decide (n % 4 = 1)⟩ :=
  receives_slots rfl rfl _

end TdmSerdes

end LinkFPGA
