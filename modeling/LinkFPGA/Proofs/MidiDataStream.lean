import LinkFPGA.Proofs.MidiTransport

/-!
# The data stream through the MIDI transmitter

The strobe that reads `tx_data_fifo` and the state machine that loads the byte are written apart;
`clk_conserves` says that they agree in every cycle: a byte leaves the FIFO exactly when it is
loaded for a frame. `tx_preserves_data` reads the data bytes back from the line: the frames that
were not loaded for a real-time request are the bytes pushed, in order. None of them waits for ever
when the requests pause for two frames again and again (`frees_of_pauses`).
-/

namespace LinkFPGA

open Clocked Serial

namespace MidiTx

/-- The edge that ends this cycle loads the real-time slot. -/
def loadsRt (s : MidiTx) : Bool := !s.txBusy && s.rtPending

/-- The data byte loaded with the edge that ends this cycle. -/
def dataLoaded (s : MidiTx) : Option UInt8 := if s.loadsRt then none else s.loaded

/-- The data byte pushed in a cycle. -/
def pushed (i : MidiTxIn) : Option UInt8 := if i.txPush then some i.txData else none

/-- A transport pulse asks for a real-time byte. -/
def calls (i : MidiTxIn) : Bool :=
  i.start && i.autoStart || i.stop && i.autoStop || i.clk24 && i.autoClk

/-- Again and again no real-time byte is asked for during two frames. -/
def Pauses (D : ℕ) (inp : ℕ → MidiTxIn) : Prop :=
  ∀ n, ∃ m, n ≤ m ∧ ∀ k ≤ 20 * D, calls (inp (m + k)) = false

/-- The byte whose frame ends with cycle `n`, if the frame was not loaded from the real-time
slot. -/
def dataFramed (D : ℕ) (s : MidiTx) (inp : ℕ → MidiTxIn) (n : ℕ) : Option UInt8 :=
  if n < 10 * D then none
  else if (runTx D s inp (n - 10 * D)).loadsRt then none
  else framed D (fun n ↦ (runTx D s inp n).padTx) n

section Step

variable {D : ℕ} {i : MidiTxIn} {s : MidiTx}

/-- A data byte is loaded when the transmitter is free and no request is pending. -/
theorem data_loaded_eq (s : MidiTx) :
    s.dataLoaded = if s.txBusy || s.rtPending then none else s.fifo.head? := by
  unfold dataLoaded loadsRt loaded offer
  cases s.txBusy <;> cases s.rtPending <;> rfl

/-- The FIFO is read in the cycles that load a data byte. -/
theorem fifo_re_eq (henable : i.enable = true) (s : MidiTx) :
    s.fifoRe i = s.dataLoaded.isSome := by
  rw [data_loaded_eq, fifoRe, henable]
  cases s.txBusy <;> cases s.rtPending <;> cases s.fifo <;> rfl

/-- What the FIFO gives away is loaded, and what is pushed stays in it. -/
theorem clk_conserves (henable : i.enable = true) (hrst : i.softRst = false)
    (hroom : i.txPush = true → s.fifo.length < 64) :
    s.fifo ++ (pushed i).toList = s.dataLoaded.toList ++ (clk D i s).fifo := by
  have hpushed : (if i.txPush = true ∧ s.fifo.length < 64 then [i.txData] else []) =
      (pushed i).toList := by
    unfold pushed
    cases hpush : i.txPush with
    | true => rw [if_pos ⟨rfl, hroom hpush⟩]; rfl
    | false => rfl
  have hread : s.fifo = s.dataLoaded.toList ++ if s.fifoRe i then s.fifo.tail else s.fifo := by
    rw [fifo_re_eq henable, data_loaded_eq]
    cases s.txBusy || s.rtPending <;> cases s.fifo <;> rfl
  rw [(clk_slot henable hrst).2.2, nextFifo, hpushed, ← List.append_assoc, ← hread]

/-- Without a new request, the one that was pending is gone once the transmitter is free. -/
theorem clk_uncalled (henable : i.enable = true) (hrst : i.softRst = false)
    (hcalls : calls i = false) : (clk D i s).rtPending = (s.txBusy && s.rtPending) := by
  have hslot : (s.inject i).rtPending = s.rtPending := by
    unfold calls at hcalls
    unfold inject
    rw [hrst]
    cases hstart : i.start && i.autoStart <;> cases hstop : i.stop && i.autoStop <;>
      cases hclk : i.clk24 && i.autoClk <;> simp_all
  rw [(clk_slot henable hrst).1, hslot]
  cases s.txBusy <;> cases s.rtPending <;> rfl

end Step

section Run

variable {D : ℕ} {s : MidiTx} {inp : ℕ → MidiTxIn}

variable (hD : 0 < D) (hrun : ∀ n, (inp n).enable = true ∧ (inp n).softRst = false)
  (hfree : s.txBusy = false)
include hD hrun hfree

theorem sends_frames : SendsFrames D fun n ↦ (runTx D s inp n).padTx :=
  ⟨jobs D s inp, fun n ↦ (runTx D s inp n).offer, rfl, jobs_succ, pad_tx_eq hD hrun hfree⟩

/-- The data bytes framed are the data bytes loaded, ten bit times later. -/
theorem data_framed_events (n : ℕ) : events (dataFramed D s inp) (n + 10 * D) =
    events (fun n ↦ (runTx D s inp n).dataLoaded) n := by
  have hlate : events (dataFramed D s inp) (n + 10 * D) =
      (events (fun n ↦ (runTx D s inp n).dataLoaded) n).map id := by
    refine events_delayed (fun i hi ↦ if_pos hi) fun i _ ↦ ?_
    rw [dataFramed, if_neg (by omega), Nat.add_sub_cancel, framed_later hD hrun hfree,
      Option.map_id]
    rfl
  rwa [List.map_id] at hlate

/-- In a pause of the requests the transmitter becomes free for the FIFO. -/
theorem frees_of_pauses (hpauses : Pauses D inp) (n : ℕ) : ∃ m, n ≤ m ∧
    (runTx D s inp m).txBusy = false ∧ (runTx D s inp m).rtPending = false := by
  obtain ⟨m, hnm, hquiet⟩ := hpauses n
  have hfrees (n : ℕ) : ∃ k ≤ 10 * D, (runTx D s inp (n + k)).txBusy = false := by
    have hjob : ∀ n, jobs D s inp (n + 1) =
        nextJob (10 * D) (jobs D s inp n) (runTx D s inp n).offer := jobs_succ
    obtain ⟨k, hk, hnone⟩ := free_within hjob (by omega) rfl n
    have hsends := sends_jobs hD hrun hfree (n + k)
    rw [hnone] at hsends
    exact ⟨k, hk, hsends⟩
  -- first the frame in progress ends, and then the one for a request that was pending
  obtain ⟨k, hk, hidle⟩ := hfrees m
  have hcleared (j : ℕ) (hj : k + j ≤ 20 * D) :
      (runTx D s inp (m + k + (j + 1))).rtPending = false := by
    induction j with
    | zero =>
        have hstep := clk_uncalled (D := D) (s := runTx D s inp (m + k)) (hrun (m + k)).1
          (hrun (m + k)).2 (hquiet k hj)
        rw [hidle] at hstep
        exact hstep
    | succ j ih =>
        have hstep := clk_uncalled (D := D) (s := runTx D s inp (m + k + (j + 1)))
          (hrun _).1 (hrun _).2 (Nat.add_assoc m k (j + 1) ▸ hquiet (k + (j + 1)) hj)
        rw [ih (by omega), Bool.and_false] at hstep
        exact hstep
  obtain ⟨l, hl, hidle'⟩ := hfrees (m + k + 1)
  refine ⟨m + k + 1 + l, by omega, hidle', ?_⟩
  rw [show m + k + 1 + l = m + k + (l + 1) by omega]
  exact hcleared l (by omega)

/-- For as long as no byte is pushed into a full FIFO, the line carries whole frames, and the data
bytes framed by the end of the frame begun in a cycle are, in order, the bytes pushed before that
cycle less those in the FIFO. If the real-time requests leave the transmitter free again and
again, every byte is framed in the end, and they do if they pause again and again. -/
theorem tx_preserves_data
    (hroom : ∀ n, (inp n).txPush = true → (runTx D s inp n).fifo.length < 64) :
    SendsFrames D (fun n ↦ (runTx D s inp n).padTx) ∧
      (∀ n, s.fifo ++ events (fun n ↦ pushed (inp n)) n =
        events (dataFramed D s inp) (n + 10 * D) ++ (runTx D s inp n).fifo) ∧
      ((∀ n, ∃ m, n ≤ m ∧ (runTx D s inp m).txBusy = false ∧
          (runTx D s inp m).rtPending = false) →
        ∀ n, ∃ m, s.fifo ++ events (fun n ↦ pushed (inp n)) n <+:
          events (dataFramed D s inp) m) ∧
      (Pauses D inp → ∀ n, ∃ m, s.fifo ++ events (fun n ↦ pushed (inp n)) n <+:
        events (dataFramed D s inp) m) := by
  have hconserve (n : ℕ) : s.fifo ++ events (fun n ↦ pushed (inp n)) n =
      events (fun n ↦ (runTx D s inp n).dataLoaded) n ++ (runTx D s inp n).fifo := by
    refine queue_conserves (q := fun n ↦ (runTx D s inp n).fifo) (fun n ↦ ?_) n
    exact clk_conserves (hrun n).1 (hrun n).2 (hroom n)
  have hdrains (hserved : ∀ n, ∃ m, n ≤ m ∧ (runTx D s inp m).txBusy = false ∧
      (runTx D s inp m).rtPending = false) (n : ℕ) :
      ∃ m, s.fifo ++ events (fun n ↦ pushed (inp n)) n <+: events (dataFramed D s inp) m := by
    have hserves (n : ℕ) : ∃ m, n ≤ m ∧
        ((runTx D s inp m).fifo ≠ [] → (runTx D s inp m).dataLoaded.isSome) := by
      obtain ⟨m, hnm, hidle, hquiet⟩ := hserved n
      refine ⟨m, hnm, fun hsome ↦ ?_⟩
      rw [data_loaded_eq, hidle, hquiet]
      exact List.isSome_head?.mpr hsome
    obtain ⟨m, hm⟩ := queue_drains (q := fun n ↦ (runTx D s inp n).fifo) hconserve hserves n
    exact ⟨m + 10 * D, by rwa [data_framed_events hD hrun hfree]⟩
  refine ⟨sends_frames hD hrun hfree, fun n ↦ ?_, hdrains, fun hpauses ↦ ?_⟩
  · rw [data_framed_events hD hrun hfree]
    exact hconserve n
  · exact hdrains (frees_of_pauses hD hrun hfree hpauses)

end Run

/-- A note-on status byte pushed in the first cycle, under a steady clock. -/
def noteOn (n : ℕ) : MidiTxIn := ⟨1, 7, n % 100000 = 99999, false, false, 0x90, n = 0⟩

theorem note_on_pauses : Pauses 2400 noteOn := by
  intro n
  refine ⟨100000 * (n + 1), by omega, fun k hk ↦ ?_⟩
  have hlow : (noteOn (100000 * (n + 1) + k)).clk24 = false :=
    decide_eq_false (by omega)
  unfold calls
  rw [hlow]
  rfl

/-- The byte reaches the line. -/
theorem tx_preserves_data_note_on :
    SendsFrames 2400 (fun n ↦ (runTx 2400 reset noteOn n).padTx) ∧
      (∀ n, events (fun n ↦ pushed (noteOn n)) n =
        events (dataFramed 2400 reset noteOn) (n + 24000) ++ (runTx 2400 reset noteOn n).fifo) ∧
      ∃ m, [0x90] <+: events (dataFramed 2400 reset noteOn) m := by
  have hrun (n : ℕ) : (noteOn n).enable = true ∧ (noteOn n).softRst = false :=
    ⟨decide_eq_true (show (1 : UInt8) &&& 1 = 1 by decide),
      decide_eq_false (show ¬ (1 : UInt8) &&& 2 = 2 by decide)⟩
  obtain ⟨hframes, hdata, -, hdelivered⟩ := tx_preserves_data (D := 2400) (s := reset) (by omega)
    hrun rfl fun n hpush ↦ by
      obtain rfl : n = 0 := by simpa [noteOn] using hpush
      exact Nat.zero_lt_succ 63
  exact ⟨hframes, hdata, hdelivered note_on_pauses 1⟩

end MidiTx

end LinkFPGA
