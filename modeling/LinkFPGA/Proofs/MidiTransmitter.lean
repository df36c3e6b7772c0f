import LinkFPGA.Gateware.Midi

/-!
# The MIDI transmitter sends frames

While it is enabled and not reset, the transmit path of `MidiCore` is a server that takes the byte
it is offered whenever it is free and puts one frame of `10 * D` cycles on the line: `Sends`
relates its registers to such a job, `sends_clk` is the step and `sends_jobs` the run.
-/

namespace LinkFPGA

open Clocked Serial

namespace MidiTx

/-- Bit `k` of the shift register after loading is symbol `k` of the frame. -/
theorem frame_word_getLsbD (b : UInt8) {k : ℕ} (hk : k < 10) :
    (frameWord b).getLsbD k = symbol b k := by
  unfold frameWord symbol
  rw [BitVec.getLsbD_append, BitVec.getLsbD_append]
  by_cases h0 : k = 0
  · simp [h0]
  · by_cases h9 : k ≤ 8
    · simp [h0, h9, show ¬ k < 1 by omega, show k - 1 < 8 by omega]
    · simp [show k = 9 by omega]

/-- The registers while the frame of a job is sent, the frame being `a` cycles old. -/
structure Sending (D : ℕ) (b : UInt8) (a : ℕ) (s : MidiTx) : Prop where
  busy : s.txBusy = true
  shift : s.txShift = frameWord b >>> (a / D)
  bits : s.txBits = 10 - a / D
  div : s.txDiv = D - 1 - a % D
  young : a < 10 * D

/-- The transmitter works on the job. -/
def Sends (D : ℕ) (s : MidiTx) : Option (UInt8 × ℕ) → Prop
  | none => s.txBusy = false
  | some (b, a) => Sending D b a s

/-- The pad shows the level of the job. -/
theorem Sends.pad_tx {D : ℕ} {s : MidiTx} {job : Option (UInt8 × ℕ)} (hD : 0 < D)
    (h : Sends D s job) : s.padTx = level D job := by
  cases job with
  | none =>
      have hfree : s.txBusy = false := h
      rw [padTx, hfree]
      rfl
  | some j =>
      obtain ⟨b, a⟩ := j
      have hsend : Sending D b a s := h
      have hsymbol : a / D < 10 := (Nat.div_lt_iff_lt_mul hD).mpr hsend.young
      rw [padTx, hsend.busy, hsend.shift, BitVec.getLsbD_ushiftRight, Nat.add_zero,
        frame_word_getLsbD b hsymbol]
      rfl

section Step

variable {D : ℕ} {i : MidiTxIn} {s : MidiTx}

/-- The injector leaves the UART alone. -/
theorem inject_uart (i : MidiTxIn) (s : MidiTx) :
    (s.inject i).txBusy = s.txBusy ∧ (s.inject i).txShift = s.txShift ∧
      (s.inject i).txBits = s.txBits ∧ (s.inject i).txDiv = s.txDiv := by
  unfold inject
  repeat' split
  all_goals exact ⟨rfl, rfl, rfl, rfl⟩

/-- The registers as the injector and the FIFO leave them, before the UART assigns. -/
def injected (i : MidiTxIn) (s : MidiTx) : MidiTx := { s.inject i with fifo := s.nextFifo i }

variable (henable : i.enable = true) (hrst : i.softRst = false)
include henable hrst

theorem clk_idle (hfree : s.txBusy = false) (hoffer : s.offer = none) :
    clk D i s = s.injected i := by
  cases hpending : s.rtPending with
  | true => simp [offer, hpending] at hoffer
  | false =>
      have hfifo : s.fifo = [] := by simpa [offer, hpending] using hoffer
      simp [clk, injected, henable, hrst, hfree, hpending, hfifo]

/-- Loading a byte clears the request for it, even one made in this cycle. -/
theorem clk_load (hfree : s.txBusy = false) {b : UInt8} (hoffer : s.offer = some b) :
    clk D i s =
      { (s.injected i).load D b with rtPending := !s.rtPending && (s.inject i).rtPending } := by
  cases hpending : s.rtPending with
  | true =>
      have hslot : s.rtByteOut = b := by simpa [offer, hpending] using hoffer
      simp [clk, injected, henable, hrst, hfree, hpending, hslot]
  | false =>
      obtain ⟨rest, hfifo⟩ : ∃ rest, s.fifo = b :: rest := by
        simpa [offer, hpending, List.head?_eq_some_iff] using hoffer
      simp [clk, injected, load, henable, hrst, hfree, hpending, hfifo]

theorem clk_hold (hbusy : s.txBusy = true) (hdiv : s.txDiv ≠ 0) :
    clk D i s = { s.injected i with txDiv := s.txDiv - 1 } := by
  simp [clk, injected, henable, hrst, hbusy, hdiv]

theorem clk_shift (hbusy : s.txBusy = true) (hdiv : s.txDiv = 0) :
    clk D i s =
      { s.injected i with
        txDiv := D - 1
        txShift := s.txShift >>> 1
        txBits := (s.txBits + 15) % 16
        txBusy := decide (s.txBits ≠ 1) } := by
  simp [clk, injected, henable, hrst, hbusy, hdiv, wrap_div_of_le]

omit henable hrst in
/-- A loaded transmitter is at the beginning of the frame. -/
theorem sending_load (hD : 0 < D) (b : UInt8) (t : MidiTx) (pending : Bool) :
    Sending D b 0 { t.load D b with rtPending := pending } where
  busy := rfl
  shift := by
    show frameWord b = _
    rw [Nat.zero_div, BitVec.ushiftRight_zero]
  bits := by
    show 10 = _
    rw [Nat.zero_div]
  div := by
    show wrapDiv D (D - 1) = _
    rw [wrap_div_of_le (Nat.sub_le D 1), Nat.zero_mod, Nat.sub_zero]
  young := by omega

/-- A cycle of a frame: the divider counts down, and when it is at zero the next symbol moves up,
or the frame is over. -/
theorem Sending.step (hD : 0 < D) {b : UInt8} {a : ℕ} (h : Sending D b a s) :
    Sends D (clk D i s) (if a + 1 < 10 * D then some (b, a + 1) else none) := by
  have hlt := Nat.mod_lt a hD
  have hdecomp := Nat.div_add_mod a D
  have hsymbol : a / D < 10 := (Nat.div_lt_iff_lt_mul hD).mpr h.young
  have hdiv := succ_div_eq hD a
  have hmod := succ_mod_eq hD a
  by_cases hlast : a % D = D - 1
  · have hzero : s.txDiv = 0 := by rw [h.div]; omega
    rw [if_pos hlast] at hdiv hmod
    rw [clk_shift henable hrst h.busy hzero]
    by_cases hend : a / D = 9
    · -- The stop bit is over.
      rw [hend] at hdecomp
      have hover : ¬ a + 1 < 10 * D := by omega
      rw [if_neg hover]
      show decide (s.txBits ≠ 1) = false
      rw [h.bits, hend]
      rfl
    · have hmore : a + 1 < 10 * D := by
        rw [← Nat.div_lt_iff_lt_mul hD, hdiv]
        omega
      rw [if_pos hmore]
      exact {
        busy := by
          show decide (s.txBits ≠ 1) = true
          rw [h.bits]
          exact decide_eq_true (by omega)
        shift := by
          show s.txShift >>> 1 = _
          rw [h.shift, hdiv, BitVec.shiftRight_add]
        bits := by
          show (s.txBits + 15) % 16 = _
          rw [h.bits, hdiv]
          generalize a / D = symbols at hsymbol hend
          omega
        div := by
          show D - 1 = _
          rw [hmod, Nat.sub_zero]
        young := hmore }
  · have hzero : s.txDiv ≠ 0 := by rw [h.div]; omega
    rw [if_neg hlast] at hdiv hmod
    have hmore : a + 1 < 10 * D := by
      rw [← Nat.div_lt_iff_lt_mul hD, hdiv]
      exact hsymbol
    obtain ⟨hbusy, hshift, hbits, -⟩ := inject_uart i s
    rw [if_pos hmore, clk_hold henable hrst h.busy hzero]
    exact {
      busy := hbusy.trans h.busy
      shift := by rw [hdiv]; exact hshift.trans h.shift
      bits := by rw [hdiv]; exact hbits.trans h.bits
      div := by
        show s.txDiv - 1 = _
        rw [h.div, hmod]
        omega
      young := hmore }

/-- A clock edge of the transmitter is a step of its job. -/
theorem sends_clk (hD : 0 < D) {job : Option (UInt8 × ℕ)} (h : Sends D s job) :
    Sends D (clk D i s) (nextJob (10 * D) job s.offer) := by
  cases job with
  | some j => exact Sending.step henable hrst hD h
  | none =>
      have hfree : s.txBusy = false := h
      cases hoffer : s.offer with
      | none =>
          rw [clk_idle henable hrst hfree hoffer]
          exact (inject_uart i s).1.trans hfree
      | some b =>
          rw [clk_load henable hrst hfree hoffer]
          exact sending_load hD b _ _

end Step

/-- The registers in each cycle. -/
def runTx (D : ℕ) (s : MidiTx) (inp : ℕ → MidiTxIn) : ℕ → MidiTx :=
  trace (fun s i ↦ clk D i s) s inp

/-- The byte loaded with the edge that ends a cycle. -/
def loaded (s : MidiTx) : Option UInt8 := if s.txBusy then none else s.offer

/-- The job in each cycle of a transmitter that starts free. -/
def jobs (D : ℕ) (s : MidiTx) (inp : ℕ → MidiTxIn) : ℕ → Option (UInt8 × ℕ) :=
  trace (nextJob (10 * D)) none fun n ↦ (runTx D s inp n).offer

section Run

variable {D : ℕ} {s : MidiTx} {inp : ℕ → MidiTxIn}

theorem jobs_succ (n : ℕ) : jobs D s inp (n + 1) =
    nextJob (10 * D) (jobs D s inp n) (runTx D s inp n).offer := rfl

variable (hD : 0 < D) (hrun : ∀ n, (inp n).enable = true ∧ (inp n).softRst = false)
  (hfree : s.txBusy = false)
include hD hrun hfree

/-- In every cycle the transmitter works on its job. -/
theorem sends_jobs (n : ℕ) : Sends D (runTx D s inp n) (jobs D s inp n) := by
  induction n with
  | zero => exact hfree
  | succ n ih => exact sends_clk (hrun n).1 (hrun n).2 hD ih

/-- The line shows the jobs. -/
theorem pad_tx_eq (n : ℕ) : (runTx D s inp n).padTx = level D (jobs D s inp n) :=
  (sends_jobs hD hrun hfree n).pad_tx hD

/-- A byte is loaded when its job begins. -/
theorem loaded_eq (n : ℕ) : (runTx D s inp n).loaded = atAge 0 (jobs D s inp (n + 1)) := by
  have hsends := sends_jobs hD hrun hfree n
  rw [jobs_succ, loaded]
  cases hjob : jobs D s inp n with
  | none =>
      have hidle : (runTx D s inp n).txBusy = false := by rw [hjob] at hsends; exact hsends
      rw [hidle, if_neg Bool.false_ne_true]
      cases (runTx D s inp n).offer <;> rfl
  | some j =>
      have hbusy : (runTx D s inp n).txBusy = true := by
        rw [hjob] at hsends
        exact Sending.busy hsends
      obtain ⟨b, a⟩ := j
      rw [hbusy, if_pos rfl, nextJob]
      split <;> rfl

/-- The byte loaded with an edge has been framed on the line ten bit times later. -/
theorem framed_later (n : ℕ) :
    framed D (fun n ↦ (runTx D s inp n).padTx) (n + 10 * D) = (runTx D s inp n).loaded := by
  rw [framed_eq hD rfl jobs_succ (pad_tx_eq hD hrun hfree), loaded_eq hD hrun hfree,
    show n + 10 * D = n + 1 + (10 * D - 1) by omega, at_age_later jobs_succ (by omega)]

/-- No byte is framed before the first one can be. -/
theorem framed_early {n : ℕ} (hn : n < 10 * D) :
    framed D (fun n ↦ (runTx D s inp n).padTx) n = none := by
  rw [framed_eq hD rfl jobs_succ (pad_tx_eq hD hrun hfree)]
  exact at_age_early jobs_succ rfl (by omega)

end Run

end MidiTx

end LinkFPGA
