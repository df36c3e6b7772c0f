import LinkFPGA.Library.Clocked

/-!
# Asynchronous serial frames

A byte on an idle-high line is a frame of ten symbols of `D` clock cycles each: a low start bit,
the data bits from the least significant one up, and a high stop bit. A line that is busy with a
frame is a job of `10 * D` cycles (`level` is its level); `framed` is the strict receiver that
cuts a waveform back into frames and accepts a frame only if every cycle of it is right.
`framed_eq` says that it recovers exactly the bytes that were sent. A `ShiftsIn` register holds the
last bits it was given, the latest one least significant (`ShiftsIn.getLsbD`).
-/

namespace LinkFPGA.Serial

open Clocked

/-- Symbol `i` of the frame of a byte. -/
def symbol (b : UInt8) (i : ℕ) : Bool :=
  if i = 0 then false else if i ≤ 8 then b.toBitVec.getLsbD (i - 1) else true

@[simp] theorem symbol_start (b : UInt8) : symbol b 0 = false := rfl

theorem symbol_data (b : UInt8) {i : ℕ} (hi : i < 8) :
    symbol b (i + 1) = b.toBitVec.getLsbD i := by
  rw [symbol, if_neg (Nat.succ_ne_zero i), if_pos (by omega), Nat.add_sub_cancel]

theorem symbol_stop (b : UInt8) {i : ℕ} (hi : 9 ≤ i) : symbol b i = true := by
  rw [symbol, if_neg (by omega), if_neg (by omega)]

/-- The byte with the given bits. -/
def ofBits (f : ℕ → Bool) : UInt8 :=
  UInt8.ofBitVec ((BitVec.ofBoolListLE ((List.range 8).map f)).setWidth 8)

theorem of_bits_getLsbD (f : ℕ → Bool) {i : ℕ} (hi : i < 8) :
    (ofBits f).toBitVec.getLsbD i = f i := by
  show ((BitVec.ofBoolListLE ((List.range 8).map f)).setWidth 8).getLsbD i = f i
  rw [BitVec.getLsbD_setWidth, BitVec.getLsbD_ofBoolListLE, List.getD_eq_getElem?_getD,
    List.getElem?_map, List.getElem?_range hi, decide_eq_true hi, Bool.true_and]
  rfl

/-- Bytes with the same bits are the same. -/
theorem byte_ext {b c : UInt8}
    (h : ∀ i < 8, b.toBitVec.getLsbD i = c.toBitVec.getLsbD i) : b = c :=
  UInt8.toBitVec_inj.mp (BitVec.eq_of_getLsbD_eq h)

/-- The level of a line that is sending the job, idle when there is none. -/
def level (D : ℕ) : Option (UInt8 × ℕ) → Bool
  | none => true
  | some (b, a) => symbol b (a / D)

/-- The line is idle or sends whole frames, each for `10 * D` cycles and one at a time. -/
def SendsFrames (D : ℕ) (line : ℕ → Bool) : Prop :=
  ∃ (job : ℕ → Option (UInt8 × ℕ)) (req : ℕ → Option UInt8), job 0 = none ∧
    (∀ n, job (n + 1) = nextJob (10 * D) (job n) (req n)) ∧ ∀ n, line n = level D (job n)

/-- The levels of a whole frame, cycle by cycle. -/
def frame (D : ℕ) (b : UInt8) : List Bool := (List.range (10 * D)).map fun a ↦ symbol b (a / D)

/-- The byte a list of levels is the frame of, if it is one. -/
def unframe (D : ℕ) (w : List Bool) : Option UInt8 :=
  let b := ofBits fun i ↦ w.getD ((i + 1) * D) true
  if w = frame D b then some b else none

/-- The levels collected of the current frame, after one more cycle. -/
def collect (D : ℕ) (c : List Bool) (v : Bool) : List Bool :=
  if c = [] ∧ v = true then []
  else if (c ++ [v]).length < 10 * D then c ++ [v]
  else []

/-- The byte whose frame ends with this cycle. -/
def frameEnd (D : ℕ) (c : List Bool) (v : Bool) : Option UInt8 :=
  if (c ++ [v]).length < 10 * D then none else unframe D (c ++ [v])

/-- The bytes framed on a line, each reported in the last cycle of its frame. -/
def framed (D : ℕ) (line : ℕ → Bool) (n : ℕ) : Option UInt8 :=
  frameEnd D (trace (collect D) [] line n) (line n)

variable {D : ℕ}

theorem frame_getElem? (b : UInt8) {a : ℕ} (ha : a < 10 * D) :
    (frame D b)[a]? = some (symbol b (a / D)) := by
  rw [frame, List.getElem?_map, List.getElem?_range ha]
  rfl

/-- A frame is read back. -/
theorem unframe_frame (hD : 0 < D) (b : UInt8) : unframe D (frame D b) = some b := by
  have hbyte : (ofBits fun i ↦ (frame D b).getD ((i + 1) * D) true) = b := by
    refine byte_ext fun i hi ↦ ?_
    have hlt : (i + 1) * D < 10 * D := Nat.mul_lt_mul_of_pos_right (by omega) hD
    rw [of_bits_getLsbD _ hi, List.getD_eq_getElem?_getD, frame_getElem? b hlt,
      Nat.mul_div_cancel _ hD]
    exact symbol_data b hi
  rw [unframe, hbyte, if_pos rfl]

/-- What has been collected of the frame being sent. -/
def collected (D : ℕ) : Option (UInt8 × ℕ) → List Bool
  | none => []
  | some (b, a) => (frame D b).take a

/-- One more cycle of a frame. -/
theorem take_frame_succ (b : UInt8) {a : ℕ} (ha : a < 10 * D) :
    (frame D b).take a ++ [symbol b (a / D)] = (frame D b).take (a + 1) := by
  rw [List.take_add_one, frame_getElem? b ha]
  rfl

theorem take_frame_length (b : UInt8) {a : ℕ} (ha : a ≤ 10 * D) :
    ((frame D b).take a).length = a := by
  rw [List.length_take, frame, List.length_map, List.length_range, Nat.min_eq_left ha]

section Line

variable {job : ℕ → Option (UInt8 × ℕ)} {req : ℕ → Option UInt8} {line : ℕ → Bool}

/-- The receiver has collected the part of the frame that has been sent. -/
theorem trace_collect (hD : 0 < D) (hfree : job 0 = none)
    (hjob : ∀ n, job (n + 1) = nextJob (10 * D) (job n) (req n))
    (hline : ∀ n, line n = level D (job n)) (n : ℕ) :
    trace (collect D) [] line n = collected D (job n) := by
  induction n with
  | zero => rw [hfree]; rfl
  | succ n ih =>
      rw [trace_succ, ih, hline, hjob]
      cases hn : job n with
      | none =>
          cases req n with
          | none => rfl
          | some x => simp [collected, level, collect, nextJob]
      | some j =>
          obtain ⟨b, a⟩ := j
          have ha := age_lt hjob (by omega) hfree hn
          -- The cycle that begins a frame is low, so no cycle of a frame is taken for idle.
          have hbusy : ¬ ((frame D b).take a = [] ∧ symbol b (a / D) = true) := by
            rintro ⟨hempty, hhigh⟩
            have hlen := take_frame_length b ha.le
            rw [hempty] at hlen
            rw [← hlen, List.length_nil, Nat.zero_div] at hhigh
            cases hhigh
          rw [collect, collected, level, if_neg hbusy, take_frame_succ b ha,
            take_frame_length b (by omega), nextJob]
          split <;> rfl

/-- On a line that sends one frame at a time the receiver reports each byte with the last cycle of
its frame, and nothing else. -/
theorem framed_eq (hD : 0 < D) (hfree : job 0 = none)
    (hjob : ∀ n, job (n + 1) = nextJob (10 * D) (job n) (req n))
    (hline : ∀ n, line n = level D (job n)) (n : ℕ) :
    framed D line n = atAge (10 * D - 1) (job n) := by
  rw [framed, trace_collect hD hfree hjob hline, hline]
  cases hn : job n with
  | none =>
      show (if 1 < 10 * D then none else _) = none
      rw [if_pos (by omega)]
  | some j =>
      obtain ⟨b, a⟩ := j
      have ha := age_lt hjob (by omega) hfree hn
      rw [frameEnd, collected, level, take_frame_succ b ha, take_frame_length b (by omega), atAge]
      by_cases hlast : a = 10 * D - 1
      · have hwhole : (frame D b).take (a + 1) = frame D b :=
          List.take_of_length_le (by rw [frame, List.length_map, List.length_range]; omega)
        rw [if_neg (by omega), if_pos hlast, hwhole, unframe_frame hD]
      · rw [if_pos (by omega), if_neg hlast]

end Line

/-! ## Shift registers -/

/-- A register that takes one bit after the other at its least significant end. -/
def ShiftsIn {w : ℕ} (reg : ℕ → BitVec w) (bit : ℕ → Bool) : Prop :=
  ∀ k, reg (k + 1) = reg k <<< 1 ||| (BitVec.ofBool (bit k)).setWidth w

/-- Every bit moves up by one, and the one that is read comes in below. -/
theorem shift_in_getLsbD {w : ℕ} (x : BitVec w) (b : Bool) {j : ℕ} (hj : j < w) :
    (x <<< 1 ||| (BitVec.ofBool b).setWidth w).getLsbD j =
      if j = 0 then b else x.getLsbD (j - 1) := by
  rw [BitVec.getLsbD_or, BitVec.getLsbD_shiftLeft, BitVec.getLsbD_setWidth, BitVec.getLsbD_ofBool,
    decide_eq_true hj]
  cases j with
  | zero => simp
  | succ j => simp

/-- The bit that is read at `k` has moved up by `j` places after `j` more bits. -/
theorem ShiftsIn.getLsbD {w : ℕ} {reg : ℕ → BitVec w} {bit : ℕ → Bool} (h : ShiftsIn reg bit)
    (k : ℕ) {j : ℕ} (hj : j < w) : (reg (k + j + 1)).getLsbD j = bit k := by
  induction j with
  | zero => rw [h, shift_in_getLsbD _ _ hj, if_pos rfl]
  | succ j ih =>
      rw [h, shift_in_getLsbD _ _ hj, if_neg (Nat.succ_ne_zero j)]
      exact ih (by omega)

end LinkFPGA.Serial
