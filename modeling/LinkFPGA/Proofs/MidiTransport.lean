import LinkFPGA.Proofs.MidiTransmitter

/-!
# Transport events as MIDI bytes

The injector of `MidiCore` samples the levels of the transport pulses and not their edges. The
transmitter takes the requested byte one cycle after the edge; a pulse that is still high in the
cycle after that requests the byte again, and it is sent a second time as soon as the frame is
over. `Injecting` describes the transmitter between two edges, `injecting_clk` is the step, and
`injecting_run` the run for as long as no pulse has lasted three cycles.
-/

namespace LinkFPGA

open Clocked Serial

/-- The transport signals that have a MIDI byte. -/
inductive Transport where
  | clock
  | start
  | stop
  deriving DecidableEq, Repr

namespace Transport

/-- The level of the signal. -/
def level (i : MidiTxIn) : Transport → Bool
  | clock => i.clk24
  | start => i.start
  | stop => i.stop

/-- The byte of the signal. -/
def byte : Transport → UInt8
  | clock => rtClock
  | start => rtStart
  | stop => rtStop

/-- The signal goes up in this cycle; before the first cycle it is low. -/
def Edge (inp : ℕ → MidiTxIn) (x : Transport) (n : ℕ) : Prop :=
  x.level (inp n) = true ∧ (n = 0 ∨ x.level (inp (n - 1)) = false)

instance (inp : ℕ → MidiTxIn) (x : Transport) (n : ℕ) : Decidable (x.Edge inp n) :=
  inferInstanceAs (Decidable (_ ∧ _))

end Transport

open Transport

/-- The byte of the transport event of a cycle. -/
def eventByte (inp : ℕ → MidiTxIn) (n : ℕ) : Option UInt8 :=
  if start.Edge inp n then some start.byte
  else if stop.Edge inp n then some stop.byte
  else if clock.Edge inp n then some clock.byte
  else none

/-- The transmitter is enabled, sends all transport events and gets no other data. -/
structure AutoTx (inp : ℕ → MidiTxIn) : Prop where
  enable : ∀ n, (inp n).enable = true
  softRst : ∀ n, (inp n).softRst = false
  autoClk : ∀ n, (inp n).autoClk = true
  autoStart : ∀ n, (inp n).autoStart = true
  autoStop : ∀ n, (inp n).autoStop = true
  noPush : ∀ n, (inp n).txPush = false

/-- Edges, whichever signals they are on, are at least 10 ms apart. -/
def Spaced (sysClkFreq : ℕ) (inp : ℕ → MidiTxIn) : Prop :=
  ∀ x y m n, Edge inp x m → Edge inp y n → (x, m) ≠ (y, n) → m ≤ n →
    sysClkFreq ≤ 100 * (n - m)

/-- Nothing is being sent, requested or queued. -/
structure MidiTx.Quiet (s : MidiTx) : Prop where
  free : s.txBusy = false
  request : s.rtPending = false
  fifo : s.fifo = []

/-- A signal that is high went up in this cycle or in the one before. -/
def Short (inp : ℕ → MidiTxIn) (n : ℕ) : Prop :=
  ∀ x, x.level (inp n) = true → Edge inp x n ∨ ∃ m, n = m + 1 ∧ Edge inp x m

section Levels

variable {inp : ℕ → MidiTxIn}

/-- A signal that is high has gone up in this cycle or was high before. -/
theorem edge_or_high {x : Transport} {n : ℕ} (h : x.level (inp n) = true) :
    Edge inp x n ∨ ∃ m, n = m + 1 ∧ x.level (inp m) = true := by
  cases n with
  | zero => exact .inl ⟨h, .inl rfl⟩
  | succ n =>
      by_cases hprev : x.level (inp n) = true
      · exact .inr ⟨n, rfl, hprev⟩
      · exact .inl ⟨h, .inr (Bool.eq_false_of_not_eq_true hprev)⟩

/-- Pulses are short everywhere exactly when none is high for three cycles. -/
theorem short_iff : (∀ n, Short inp n) ↔ ∀ (x : Transport) (n : ℕ), ¬ (x.level (inp n) = true ∧
    x.level (inp (n + 1)) = true ∧ x.level (inp (n + 2)) = true) := by
  constructor
  · rintro hshort x n ⟨h0, h1, h2⟩
    rcases hshort (n + 2) x h2 with ⟨-, h | h⟩ | ⟨m, hm, -, h | h⟩
    · omega
    · rw [show n + 2 - 1 = n + 1 by omega, h1] at h
      cases h
    · omega
    · rw [show m - 1 = n by omega, h0] at h
      cases h
  · intro hthree n x hx
    rcases edge_or_high hx with hedge | ⟨m, rfl, hm⟩
    · exact .inl hedge
    · rcases edge_or_high hm with hedge | ⟨k, rfl, hk⟩
      · exact .inr ⟨m, rfl, hedge⟩
      · exact absurd ⟨hk, hm, hx⟩ (hthree x k)

/-- An event is an edge of a signal. -/
theorem edge_of_event {n : ℕ} {b : UInt8} (h : eventByte inp n = some b) : ∃ x, Edge inp x n := by
  unfold eventByte at h
  split at h
  · exact ⟨start, ‹_›⟩
  · split at h
    · exact ⟨stop, ‹_›⟩
    · split at h
      · exact ⟨clock, ‹_›⟩
      · cases h

theorem event_of_edge {x : Transport} {n : ℕ} (h : Edge inp x n) : (eventByte inp n).isSome := by
  unfold eventByte
  repeat' split
  · rfl
  · rfl
  · rfl
  · cases x <;> contradiction

end Levels

namespace MidiTx

/-- The byte the levels of a cycle ask for. -/
def request (i : MidiTxIn) : Option UInt8 :=
  if i.start then some rtStart else if i.stop then some rtStop
  else if i.clk24 then some rtClock else none

section Step

variable {D : ℕ} {i : MidiTxIn} {s : MidiTx}

theorem inject_eq (hrst : i.softRst = false) (hclk : i.autoClk = true) (hstart : i.autoStart = true)
    (hstop : i.autoStop = true) (s : MidiTx) :
    (s.inject i).rtPending = ((request i).isSome || s.rtPending) ∧
      (s.inject i).rtByteOut = (request i).getD s.rtByteOut := by
  unfold inject request
  rw [hrst, hclk, hstart, hstop]
  cases i.start <;> cases i.stop <;> cases i.clk24 <;> exact ⟨rfl, rfl⟩

/-- The slot after an edge: taking the byte clears the request, even one made in that cycle. -/
theorem clk_slot (henable : i.enable = true) (hrst : i.softRst = false) :
    (clk D i s).rtPending = (!(!s.txBusy && s.rtPending) && (s.inject i).rtPending) ∧
      (clk D i s).rtByteOut = (s.inject i).rtByteOut ∧ (clk D i s).fifo = s.nextFifo i := by
  unfold clk load
  rw [hrst, henable]
  simp only [Bool.false_eq_true, if_false, if_true]
  cases s.txBusy with
  | true => by_cases hdiv : s.txDiv = 0 <;> simp [hdiv]
  | false =>
      cases s.rtPending with
      | true => exact ⟨rfl, rfl, rfl⟩
      | false => cases s.fifo <;> exact ⟨rfl, rfl, rfl⟩

theorem next_fifo_nil (hfifo : s.fifo = []) (hpush : i.txPush = false) : s.nextFifo i = [] := by
  simp [nextFifo, hfifo, hpush]

/-- The transmitter between the cycle after an edge and the end of its frame. -/
def Injecting (D : ℕ) (s : MidiTx) : Option (UInt8 × ℕ) → Prop
  | none => s.Quiet
  | some (b, 0) => s.txBusy = false ∧ s.rtPending = true ∧ s.rtByteOut = b ∧ s.fifo = []
  | some (b, a + 1) => Sending D b a s ∧ s.rtPending = false ∧ s.fifo = []

/-- A clock edge, if the levels ask for a byte only when the transmitter is quiet or is just about
to take one. -/
theorem injecting_clk {inp : ℕ → MidiTxIn} (hinp : AutoTx inp) {n : ℕ} (hD : 0 < D)
    {job : Option (UInt8 × ℕ)} {req : Option UInt8} (h : Injecting D s job)
    (hquiet : job = none → request (inp n) = req)
    (hlow : ∀ b a, job = some (b, a + 1) → request (inp n) = none) :
    Injecting D (clk D (inp n) s) (nextJob (10 * D + 1) job req) := by
  have henable := hinp.enable n
  have hrst := hinp.softRst n
  obtain ⟨hpending, hbyte, hfifo⟩ := clk_slot (D := D) (s := s) henable hrst
  obtain ⟨hpending', hbyte'⟩ :=
    inject_eq hrst (hinp.autoClk n) (hinp.autoStart n) (hinp.autoStop n) s
  rw [hpending'] at hpending
  rw [hbyte'] at hbyte
  match job, h with
  | none, hs =>
      have hnil := hfifo.trans (next_fifo_nil hs.fifo (hinp.noPush n))
      have hfree : (clk D (inp n) s).txBusy = false := by
        have hsends := sends_clk henable hrst hD (show Sends D s none from hs.free)
        rw [offer, hs.request, hs.fifo] at hsends
        exact hsends
      rw [hs.free, hs.request, hquiet rfl] at hpending
      rw [hquiet rfl] at hbyte
      cases req with
      | none => exact { free := hfree, request := hpending, fifo := hnil }
      | some b => exact ⟨hfree, hpending, hbyte, hnil⟩
  | some (b, 0), ⟨hfree, hset, hslot, hempty⟩ =>
      have hsends := sends_clk henable hrst hD (show Sends D s none from hfree)
      rw [offer, hset, hslot] at hsends
      rw [hfree, hset] at hpending
      rw [nextJob, if_pos (by omega)]
      exact ⟨hsends, hpending, hfifo.trans (next_fifo_nil hempty (hinp.noPush n))⟩
  | some (b, a + 1), ⟨hsending, hclear, hempty⟩ =>
      have hsends := hsending.step henable hrst hD
      have hnil := hfifo.trans (next_fifo_nil hempty (hinp.noPush n))
      rw [hsending.busy, hclear, hlow b a rfl] at hpending
      rw [nextJob]
      by_cases hmore : a + 1 < 10 * D
      · rw [if_pos hmore] at hsends
        rw [if_pos (by omega)]
        exact ⟨hsends, hpending, hnil⟩
      · rw [if_neg hmore] at hsends
        rw [if_neg (by omega)]
        exact { free := hsends, request := hpending, fifo := hnil }

end Step

end MidiTx

/-- A request made while a frame is sent is still there when the frame is over. -/
theorem request_waits {inp : ℕ → MidiTxIn} {s : MidiTx} (hinp : AutoTx inp) {D N : ℕ} (hD : 0 < D)
    {b : UInt8}
    (hsending : MidiTx.Sending D b 0 (MidiTx.runTx D s inp N))
    (hrequest : (MidiTx.request (inp N)).isSome) :
    ((MidiTx.runTx D s inp (N + 10 * D)).loaded).isSome := by
  have hstep : ∀ j, MidiTx.runTx D s inp (N + (j + 1)) =
      MidiTx.clk D (inp (N + j)) (MidiTx.runTx D s inp (N + j)) := fun j ↦ rfl
  have hpending : ∀ j b' a', MidiTx.Sending D b' a' (MidiTx.runTx D s inp (N + j)) →
      (MidiTx.request (inp (N + j))).isSome ∨ (MidiTx.runTx D s inp (N + j)).rtPending = true →
      (MidiTx.runTx D s inp (N + (j + 1))).rtPending = true := by
    intro j b' a' hsend hor
    rw [hstep, (MidiTx.clk_slot (hinp.enable _) (hinp.softRst _)).1,
      (MidiTx.inject_eq (hinp.softRst _) (hinp.autoClk _) (hinp.autoStart _) (hinp.autoStop _) _).1,
      hsend.busy]
    rcases hor with h | h <;> simp [h]
  -- By induction on the age of the frame: it goes on, and the request stays.
  have hduring : ∀ j, j < 10 * D → MidiTx.Sending D b j (MidiTx.runTx D s inp (N + j)) ∧
      (MidiTx.runTx D s inp (N + (j + 1))).rtPending = true := by
    intro j
    induction j with
    | zero => exact fun _ ↦ ⟨hsending, hpending 0 b 0 hsending (.inl hrequest)⟩
    | succ j ih =>
        intro hj
        obtain ⟨hsend, hset⟩ := ih (by omega)
        have hnext := hsend.step (hinp.enable (N + j)) (hinp.softRst (N + j)) hD
        rw [if_pos hj, ← hstep] at hnext
        exact ⟨hnext, hpending (j + 1) b (j + 1) hnext (.inr hset)⟩
  obtain ⟨hsend, hset⟩ := hduring (10 * D - 1) (by omega)
  have hover := hsend.step (hinp.enable (N + (10 * D - 1))) (hinp.softRst (N + (10 * D - 1))) hD
  rw [if_neg (by omega), ← hstep, show 10 * D - 1 + 1 = 10 * D by omega] at hover
  rw [show 10 * D - 1 + 1 = 10 * D by omega] at hset
  have hfree : (MidiTx.runTx D s inp (N + 10 * D)).txBusy = false := hover
  rw [MidiTx.loaded, hfree, if_neg Bool.false_ne_true, MidiTx.offer, hset]
  rfl

/-- Rounding moves a quotient by at most a half. -/
theorem round_div_bounds (a : ℕ) {b : ℕ} (hb : 0 < b) :
    2 * (b * roundDiv a b) ≤ 2 * a + b ∧ 2 * a ≤ 2 * (b * roundDiv a b) + b := by
  have hdecomp := Nat.div_add_mod a b
  have hlt := Nat.mod_lt a hb
  have hmul : b * (a / b + 1) = b * (a / b) + b := Nat.mul_succ b (a / b)
  unfold roundDiv
  repeat' split
  all_goals
    first
    | rw [hmul]; constructor <;> omega
    | constructor <;> omega

/-- Ten milliseconds are longer than two frames. -/
theorem two_frames_lt {sysClkFreq : ℕ} (hclk : 1 ≤ ticksPerUs sysClkFreq) {gap : ℕ}
    (hgap : sysClkFreq ≤ 100 * gap) : 20 * dividerMax sysClkFreq + 8 < gap := by
  have hfast := (round_div_bounds sysClkFreq (show 0 < 1000000 by decide)).1
  have hbaud := (round_div_bounds sysClkFreq (show 0 < 31250 by decide)).1
  unfold ticksPerUs at hclk
  unfold dividerMax
  omega

section Run

variable {sysClkFreq : ℕ} {inp : ℕ → MidiTxIn} {s : MidiTx}

/-- The latest event and the cycles since it, as a job that ends with the event's frame. -/
def latestEvent (D : ℕ) (inp : ℕ → MidiTxIn) : ℕ → Option (UInt8 × ℕ) :=
  trace (nextJob (10 * D + 1)) none (eventByte inp)

theorem latest_event_succ (D : ℕ) (n : ℕ) :
    latestEvent D inp (n + 1) = nextJob (10 * D + 1) (latestEvent D inp n) (eventByte inp n) := rfl

variable (hclk : 1 ≤ ticksPerUs sysClkFreq) (hinp : AutoTx inp) (hspaced : Spaced sysClkFreq inp)
include hclk hspaced

/-- Two different edges are more than two frames apart. -/
theorem edges_apart {x y : Transport} {m n : ℕ} (hx : Edge inp x m) (hy : Edge inp y n)
    (hmn : m < n) : 20 * dividerMax sysClkFreq + 8 < n - m :=
  two_frames_lt hclk (hspaced x y m n hx hy (by simp; omega) hmn.le)

/-- The frame of an event is over when the next event comes. -/
theorem latest_event_none_of_edge {x : Transport} {n : ℕ} (h : Edge inp x n) :
    latestEvent (dividerMax sysClkFreq) inp n = none := by
  cases hjob : latestEvent (dividerMax sysClkFreq) inp n with
  | none => rfl
  | some j =>
      obtain ⟨b, a⟩ := j
      obtain ⟨r, hr, -, hevent⟩ := job_began (latest_event_succ _) rfl hjob
      have hage := age_lt (latest_event_succ _) (by omega) rfl hjob
      obtain ⟨y, hy⟩ := edge_of_event hevent
      have := edges_apart hclk hspaced hy h (by omega)
      omega

/-- After an event the job begins. -/
theorem latest_event_of_edge {x : Transport} {n : ℕ} (h : Edge inp x n) :
    ∃ b, eventByte inp n = some b ∧
      latestEvent (dividerMax sysClkFreq) inp (n + 1) = some (b, 0) := by
  obtain ⟨b, hb⟩ := Option.isSome_iff_exists.mp (event_of_edge h)
  refine ⟨b, hb, ?_⟩
  rw [latest_event_succ, latest_event_none_of_edge hclk hspaced h, hb]
  rfl

/-- A level that is high is an edge on a quiet transmitter, or the second cycle of a pulse. -/
theorem level_cases {n : ℕ} (hshort : Short inp n) {x : Transport}
    (hx : x.level (inp n) = true) :
    (Edge inp x n ∧ latestEvent (dividerMax sysClkFreq) inp n = none) ∨
      ∃ b, latestEvent (dividerMax sysClkFreq) inp n = some (b, 0) := by
  rcases hshort x hx with hedge | ⟨m, rfl, hedge⟩
  · exact .inl ⟨hedge, latest_event_none_of_edge hclk hspaced hedge⟩
  · obtain ⟨b, -, hb⟩ := latest_event_of_edge hclk hspaced hedge
    exact .inr ⟨b, hb⟩

/-- On a quiet transmitter the levels ask for what the edges ask for. -/
theorem request_eq_event {n : ℕ} (hshort : Short inp n)
    (hquiet : latestEvent (dividerMax sysClkFreq) inp n = none) :
    MidiTx.request (inp n) = eventByte inp n := by
  have hlevel : ∀ x : Transport, Edge inp x n ↔ x.level (inp n) = true := by
    intro x
    refine ⟨And.left, fun hx ↦ ?_⟩
    rcases level_cases hclk hspaced hshort hx with ⟨hedge, -⟩ | ⟨b, hb⟩
    · exact hedge
    · rw [hquiet] at hb
      cases hb
  unfold MidiTx.request eventByte
  simp only [hlevel]
  rfl

/-- Once the byte has been taken the levels ask for nothing more. -/
theorem request_none {n : ℕ} (hshort : Short inp n) {b : UInt8} {a : ℕ}
    (hsending : latestEvent (dividerMax sysClkFreq) inp n = some (b, a + 1)) :
    MidiTx.request (inp n) = none := by
  have hlow : ∀ x : Transport, x.level (inp n) = false := by
    intro x
    by_contra hx
    rcases level_cases hclk hspaced hshort (Bool.eq_true_of_not_eq_false hx) with ⟨-, h⟩ | ⟨c, h⟩
    · rw [hsending] at h; cases h
    · rw [hsending] at h; cases h
  have hstart : (inp n).start = false := hlow .start
  have hstop : (inp n).stop = false := hlow .stop
  have hclock : (inp n).clk24 = false := hlow .clock
  simp [MidiTx.request, hstart, hstop, hclock]

/-- An event begins its job. -/
theorem latest_event_begins (n : ℕ) :
    atAge 0 (latestEvent (dividerMax sysClkFreq) inp (n + 1)) = eventByte inp n := by
  cases hevent : eventByte inp n with
  | some b =>
      obtain ⟨x, hx⟩ := edge_of_event hevent
      obtain ⟨c, hc, hlatest⟩ := latest_event_of_edge hclk hspaced hx
      rw [hlatest, ← hevent, hc]
      rfl
  | none =>
      rw [latest_event_succ, hevent]
      cases latestEvent (dividerMax sysClkFreq) inp n with
      | none => rfl
      | some j =>
          obtain ⟨b, a⟩ := j
          rw [nextJob]
          split <;> rfl

include hinp

/-- As long as the pulses are short, the transmitter sends one frame for the latest event. -/
theorem injecting_run (hs : s.Quiet) (n : ℕ) (hshort : ∀ m < n, Short inp m) :
    MidiTx.Injecting (dividerMax sysClkFreq) (MidiTx.runTx (dividerMax sysClkFreq) s inp n)
      (latestEvent (dividerMax sysClkFreq) inp n) := by
  induction n with
  | zero => exact hs
  | succ n ih =>
      have hn := hshort n (Nat.lt_succ_self n)
      exact MidiTx.injecting_clk hinp (divider_max_pos sysClkFreq)
        (ih fun m hm ↦ hshort m (by omega))
        (fun hquiet ↦ request_eq_event hclk hspaced hn hquiet)
        fun b a hsending ↦ request_none hclk hspaced hn hsending

/-- The byte of an event is loaded in the cycle after it. -/
theorem loaded_of_short (hs : s.Quiet) {n : ℕ} (hshort : ∀ m < n, Short inp m) :
    (MidiTx.runTx (dividerMax sysClkFreq) s inp n).loaded =
      atAge 0 (latestEvent (dividerMax sysClkFreq) inp n) := by
  have hinv := injecting_run hclk hinp hspaced hs n hshort
  unfold MidiTx.loaded
  match hjob : latestEvent (dividerMax sysClkFreq) inp n with
  | none =>
      rw [hjob] at hinv
      rw [hinv.free, if_neg Bool.false_ne_true, MidiTx.offer, hinv.request, hinv.fifo]
      rfl
  | some (b, 0) =>
      rw [hjob] at hinv
      obtain ⟨hfree, hset, hslot, -⟩ := hinv
      rw [hfree, if_neg Bool.false_ne_true, MidiTx.offer, hset, hslot]
      rfl
  | some (b, a + 1) =>
      rw [hjob] at hinv
      rw [hinv.1.busy]
      rfl

/-- A pulse that is high for a third cycle has its byte sent twice. -/
theorem long_pulse_repeats (hs : s.Quiet) {x : Transport} {c : ℕ} (hedge : Edge inp x c)
    (hlong : x.level (inp (c + 2)) = true) (hshort : ∀ m < c + 2, Short inp m) :
    ¬ Relays (eventByte inp) (framed (dividerMax sysClkFreq)
      fun n ↦ (MidiTx.runTx (dividerMax sysClkFreq) s inp n).padTx) := by
  have hrun : ∀ n, (inp n).enable = true ∧ (inp n).softRst = false := fun n ↦
    ⟨hinp.enable n, hinp.softRst n⟩
  have hD := divider_max_pos sysClkFreq
  have hbegin := fun n ↦ latest_event_begins hclk hspaced n
  have hloaded := fun n ↦ loaded_of_short hclk hinp hspaced hs (n := n)
  obtain ⟨b, -, hb⟩ := latest_event_of_edge hclk hspaced hedge
  have hinv := injecting_run hclk hinp hspaced hs (c + 2) hshort
  rw [latest_event_succ, hb, nextJob, if_pos (by omega)] at hinv
  have hrequest : (MidiTx.request (inp (c + 2))).isSome := by
    unfold MidiTx.request
    cases x with
    | start => rw [show (inp (c + 2)).start = true from hlong]; rfl
    | stop => rw [show (inp (c + 2)).stop = true from hlong]; split <;> rfl
    | clock =>
        rw [show (inp (c + 2)).clk24 = true from hlong]
        split
        · rfl
        · split <;> rfl
  have hagain := request_waits hinp hD hinv.1 hrequest
  -- Up to the second cycle of the pulse one byte has been loaded for each event, and the byte of
  -- this pulse is loaded once more before there is another event.
  have hfirst : events (fun n ↦ (MidiTx.runTx (dividerMax sysClkFreq) s inp n).loaded) (c + 1 + 1) =
      events (eventByte inp) (c + 1) := by
    rw [events_delayed (f := id) (e := eventByte inp), List.map_id]
    · intro i hi
      obtain rfl : i = 0 := by omega
      exact hloaded 0 fun m hm ↦ absurd hm (Nat.not_lt_zero m)
    · intro i hi
      rw [hloaded (i + 1) fun m hm ↦ hshort m (by omega), hbegin]
      exact (congrFun Option.map_id _).symm
  have hquiet : events (eventByte inp) (c + 2 + 10 * dividerMax sysClkFreq + 1 +
      10 * dividerMax sysClkFreq) = events (eventByte inp) (c + 1) := by
    refine events_quiet _ (by omega) fun i hi hlt ↦ ?_
    cases hevent : eventByte inp i with
    | none => rfl
    | some y =>
        obtain ⟨y, hy⟩ := edge_of_event hevent
        have := edges_apart hclk hspaced hedge hy (by omega)
        omega
  have hframed : events (framed (dividerMax sysClkFreq)
        fun n ↦ (MidiTx.runTx (dividerMax sysClkFreq) s inp n).padTx)
        (c + 2 + 10 * dividerMax sysClkFreq + 1 + 10 * dividerMax sysClkFreq) =
      events (fun n ↦ (MidiTx.runTx (dividerMax sysClkFreq) s inp n).loaded)
        (c + 2 + 10 * dividerMax sysClkFreq + 1) := by
    rw [events_delayed (f := id), List.map_id]
    · exact fun i hi ↦ MidiTx.framed_early hD hrun hs.free hi
    · intro i _
      rw [MidiTx.framed_later hD hrun hs.free]
      exact (congrFun Option.map_id _).symm
  intro hrelay
  have hle := (hrelay (c + 2 + 10 * dividerMax sysClkFreq + 1 +
    10 * dividerMax sysClkFreq)).1.length_le
  have hgrow := (events_mono (fun n ↦ (MidiTx.runTx (dividerMax sysClkFreq) s inp n).loaded)
    (show c + 1 + 1 ≤ c + 2 + 10 * dividerMax sysClkFreq by omega)).length_le
  obtain ⟨y, hy⟩ := Option.isSome_iff_exists.mp hagain
  rw [hframed, hquiet, ← hfirst, events_succ, List.length_append, hy] at hle
  rw [Option.toList_some, List.length_singleton] at hle
  omega

end Run

/-- The line carries exactly one byte for each transport event, in order, exactly when no pulse is
high for three clock cycles in a row. -/
theorem one_byte_per_event_iff (sysClkFreq : ℕ) (hclk : 1 ≤ ticksPerUs sysClkFreq)
    (inp : ℕ → MidiTxIn) (hinp : AutoTx inp) (hspaced : Spaced sysClkFreq inp) (s : MidiTx)
    (hs : s.Quiet) :
    Relays (eventByte inp) (framed (dividerMax sysClkFreq)
        fun n ↦ (MidiTx.runTx (dividerMax sysClkFreq) s inp n).padTx) ↔
      ∀ (x : Transport) (n : ℕ), ¬ (x.level (inp n) = true ∧ x.level (inp (n + 1)) = true ∧
        x.level (inp (n + 2)) = true) := by
  have hrun : ∀ n, (inp n).enable = true ∧ (inp n).softRst = false := fun n ↦
    ⟨hinp.enable n, hinp.softRst n⟩
  have hD := divider_max_pos sysClkFreq
  rw [← short_iff]
  constructor
  · intro hrelay
    by_contra hlong
    -- The first cycle that is too long for its pulse comes two cycles after the pulse's edge.
    obtain ⟨N, hN, hmin⟩ : ∃ N, ¬ Short inp N ∧ ∀ m < N, Short inp m := by
      classical
      obtain hex := not_forall.mp hlong
      exact ⟨Nat.find hex, Nat.find_spec hex, fun m hm ↦ not_not.mp (Nat.find_min hex hm)⟩
    obtain ⟨x, hx⟩ := not_forall.mp hN
    obtain ⟨hhigh, hnone⟩ := Classical.not_imp.mp hx
    rcases edge_or_high hhigh with hedge | ⟨m, rfl, hm⟩
    · exact hnone (.inl hedge)
    · rcases hmin m (Nat.lt_succ_self m) x hm with hedge | ⟨c, rfl, hedge⟩
      · exact hnone (.inr ⟨m, rfl, hedge⟩)
      · exact long_pulse_repeats hclk hinp hspaced hs hedge hhigh hmin hrelay
  · intro hshort
    refine (relays_delayed_iff (k := 10 * dividerMax sysClkFreq + 1) (f := id) (fun n hn ↦ ?_)
      fun n ↦ ?_).mpr fun _ _ _ ↦ rfl
    · by_cases hlast : n = 10 * dividerMax sysClkFreq
      · have hzero := MidiTx.framed_later hD hrun hs.free 0
        rw [Nat.zero_add] at hzero
        rw [hlast, hzero, loaded_of_short hclk hinp hspaced hs fun m _ ↦ hshort m]
        rfl
      · exact MidiTx.framed_early hD hrun hs.free (by omega)
    · rw [show n + (10 * dividerMax sysClkFreq + 1) = n + 1 + 10 * dividerMax sysClkFreq by omega,
        MidiTx.framed_later hD hrun hs.free,
        loaded_of_short hclk hinp hspaced hs fun m _ ↦ hshort m, latest_event_begins hclk hspaced]
      exact (congrFun Option.map_id _).symm

section ClockPulse

/-- Enabled, with one clock pulse that is high for the first `width` cycles. -/
def clockPulse (width n : ℕ) : MidiTxIn where
  ctrl := 1
  autoTxCtrl := 7
  clk24 := decide (n < width)
  start := false
  stop := false
  txData := 0
  txPush := false

theorem clock_pulse_auto (width : ℕ) : AutoTx (clockPulse width) where
  enable _ := by show decide ((1 : UInt8) &&& 1 = 1) = true; decide
  softRst _ := by show decide ((1 : UInt8) &&& 2 = 2) = false; decide
  autoClk _ := by show decide ((7 : UInt8) &&& 1 = 1) = true; decide
  autoStart _ := by show decide ((7 : UInt8) &&& 2 = 2) = true; decide
  autoStop _ := by show decide ((7 : UInt8) &&& 4 = 4) = true; decide
  noPush _ := rfl

theorem level_clock_pulse {width n : ℕ} {x : Transport}
    (h : x.level (clockPulse width n) = true) : x = .clock ∧ n < width := by
  cases x with
  | clock => exact ⟨rfl, of_decide_eq_true h⟩
  | start => cases h
  | stop => cases h

theorem edge_clock_pulse {width n : ℕ} {x : Transport} (h : Edge (clockPulse width) x n) :
    x = .clock ∧ n = 0 := by
  obtain ⟨rfl, hn⟩ := level_clock_pulse h.1
  refine ⟨rfl, h.2.resolve_right fun hlow ↦ ?_⟩
  exact of_decide_eq_false hlow (by omega)

theorem clock_pulse_spaced (sysClkFreq width : ℕ) : Spaced sysClkFreq (clockPulse width) := by
  intro x y m n hx hy hne
  obtain ⟨rfl, rfl⟩ := edge_clock_pulse hx
  obtain ⟨rfl, rfl⟩ := edge_clock_pulse hy
  exact absurd rfl hne

theorem one_byte_per_event_iff_narrow :
    Relays (eventByte (clockPulse 2)) (framed (dividerMax 50000000)
      fun n ↦ (MidiTx.runTx (dividerMax 50000000) .reset (clockPulse 2) n).padTx) := by
  refine (one_byte_per_event_iff 50000000 (by decide) _ (clock_pulse_auto 2)
    (clock_pulse_spaced 50000000 2) .reset ⟨rfl, rfl, rfl⟩).mpr ?_
  rintro x n ⟨-, -, h⟩
  have := (level_clock_pulse h).2
  omega

/-- At 50 MHz a clock pulse of the default width of 1 ms is sent more than once. -/
theorem default_pulse_repeats :
    ¬ Relays (eventByte (clockPulse 50000)) (framed (dividerMax 50000000)
      fun n ↦ (MidiTx.runTx (dividerMax 50000000) .reset (clockPulse 50000) n).padTx) := by
  have hedge : Edge (clockPulse 50000) .clock 0 := ⟨rfl, .inl rfl⟩
  refine long_pulse_repeats (by decide) (clock_pulse_auto 50000)
    (clock_pulse_spaced 50000000 50000) ⟨rfl, rfl, rfl⟩ hedge rfl fun m hm x hx ↦ ?_
  obtain ⟨rfl, -⟩ := level_clock_pulse hx
  match m, hm with
  | 0, _ => exact .inl hedge
  | 1, _ => exact .inr ⟨0, rfl, hedge⟩

end ClockPulse

end LinkFPGA
