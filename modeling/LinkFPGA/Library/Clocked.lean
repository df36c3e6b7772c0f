import Mathlib.Data.Nat.Count
import Mathlib.Data.Nat.Nth
import Mathlib.Data.List.Basic
import Mathlib.Logic.Function.Iterate

/-!
# Synchronous machines and the waveforms they drive

A synchronous machine takes one step `clk : σ → ι → σ` on every clock edge. `trace` is its state
in each cycle under a sequence of inputs. A machine that holds its state while an enable is low
has moved exactly as often as it was enabled (`trace_enabled`), so what it does can be worked out
per enabled cycle and read back per clock cycle: `rises_enabled` and `rises_for_enabled` do that
for the rising edges of a wire, `pulse_train_enabled` for a whole `PulseTrain`. `events` lists what
a wire that reports a value in some cycles has reported, `Relays` says that another reports the
same values in the same order. A queue between two wires conserves the values
(`queue_conserves`), and what is served again and again drains (`queue_drains`).
-/

namespace LinkFPGA.Clocked

/-! ## Counting modulo a period -/

/-- The successor of a remainder. -/
theorem succ_mod_eq {P : ℕ} (hP : 0 < P) (t : ℕ) :
    (t + 1) % P = if t % P = P - 1 then 0 else t % P + 1 := by
  have hlt := Nat.mod_lt t hP
  have hdecomp := Nat.div_add_mod t P
  split
  · rename_i hlast
    rw [show t + 1 = P * (t / P + 1) by rw [Nat.mul_add]; omega, Nat.mul_mod_right]
  · rename_i hnot
    rw [show t + 1 = P * (t / P) + (t % P + 1) by omega, Nat.mul_add_mod,
      Nat.mod_eq_of_lt (by omega)]

/-- The period of the successor. -/
theorem succ_div_eq {P : ℕ} (hP : 0 < P) (t : ℕ) :
    (t + 1) / P = if t % P = P - 1 then t / P + 1 else t / P := by
  have hlt := Nat.mod_lt t hP
  have hdecomp := Nat.div_add_mod t P
  split
  · rename_i hlast
    rw [show t + 1 = P * (t / P + 1) by rw [Nat.mul_add]; omega, Nat.mul_div_right _ hP]
  · rename_i hnot
    rw [show t + 1 = t % P + 1 + P * (t / P) by omega, Nat.add_mul_div_left _ _ hP,
      Nat.div_eq_of_lt (by omega), Nat.zero_add]

/-! ## Runs -/

section Trace

variable {σ ι : Type*} {clk : σ → ι → σ}

/-- The state in each clock cycle: `trace clk s inp n` is the state after `n` edges, the input at
edge `i` being `inp i`. -/
def trace (clk : σ → ι → σ) (s : σ) (inp : ℕ → ι) : ℕ → σ
  | 0 => s
  | n + 1 => clk (trace clk s inp n) (inp n)

@[simp] theorem trace_zero (s : σ) (inp : ℕ → ι) : trace clk s inp 0 = s := rfl

theorem trace_succ (s : σ) (inp : ℕ → ι) (n : ℕ) :
    trace clk s inp (n + 1) = clk (trace clk s inp n) (inp n) := rfl

/-- A run of `m + n` cycles is a run of `m` cycles and then one of `n`. -/
theorem trace_add (s : σ) (inp : ℕ → ι) (m n : ℕ) :
    trace clk s inp (m + n) = trace clk (trace clk s inp m) (fun i ↦ inp (m + i)) n := by
  induction n with
  | zero => rfl
  | succ n ih => rw [← Nat.add_assoc, trace_succ, trace_succ, ih]

/-- A run whose first edge is taken out. -/
theorem trace_succ' (s : σ) (inp : ℕ → ι) (n : ℕ) :
    trace clk s inp (n + 1) = trace clk (clk s (inp 0)) (fun i ↦ inp (i + 1)) n := by
  rw [Nat.add_comm n 1, trace_add]
  simp only [Nat.add_comm 1]
  rfl

end Trace

/-- How many of the first `n` cycles the enable was high in. -/
def ticks (tick : ℕ → Bool) (n : ℕ) : ℕ := Nat.count (fun i ↦ tick i = true) n

@[simp] theorem ticks_zero (tick : ℕ → Bool) : ticks tick 0 = 0 := Nat.count_zero _

theorem ticks_succ (tick : ℕ → Bool) (n : ℕ) :
    ticks tick (n + 1) = ticks tick n + if tick n = true then 1 else 0 := Nat.count_succ _ n

theorem ticks_succ_of_tick {tick : ℕ → Bool} {n : ℕ} (h : tick n = true) :
    ticks tick (n + 1) = ticks tick n + 1 := by rw [ticks_succ, if_pos h]

theorem ticks_succ_of_idle {tick : ℕ → Bool} {n : ℕ} (h : tick n = false) :
    ticks tick (n + 1) = ticks tick n := by rw [ticks_succ, if_neg (by simp [h]), Nat.add_zero]

theorem ticks_add (tick : ℕ → Bool) (m n : ℕ) :
    ticks tick (n + m) = ticks (fun i ↦ tick (i + m)) n + ticks tick m := Nat.count_add' _ n m

theorem ticks_mono (tick : ℕ → Bool) {m n : ℕ} (h : m ≤ n) : ticks tick m ≤ ticks tick n :=
  Nat.count_monotone _ h

/-- A tick count that is passed is reached: the counter takes every value on its way. -/
theorem exists_ticks_eq (tick : ℕ → Bool) {m n v : ℕ} (hmn : m ≤ n) (hm : ticks tick m ≤ v)
    (hn : v ≤ ticks tick n) : ∃ i, m ≤ i ∧ i ≤ n ∧ ticks tick i = v := by
  induction n, hmn using Nat.le_induction with
  | base => exact ⟨m, le_rfl, le_rfl, by omega⟩
  | succ n hmn ih =>
      by_cases hlt : v ≤ ticks tick n
      · obtain ⟨i, hmi, hin, hi⟩ := ih hlt
        exact ⟨i, hmi, by omega, hi⟩
      · have hone : ticks tick (n + 1) ≤ ticks tick n + 1 := by rw [ticks_succ]; split <;> omega
        exact ⟨n + 1, by omega, le_rfl, by omega⟩

/-- An enable that never stops ticking ticks at every count. -/
theorem exists_tick_at {tick : ℕ → Bool} (hlive : ∀ n, ∃ m, n ≤ m ∧ tick m = true) (k : ℕ) :
    ∃ c, tick c = true ∧ ticks tick c = k := by
  have hinf : {i | tick i = true}.Infinite := by
    rw [Set.infinite_iff_exists_gt]
    intro n
    obtain ⟨m, hm, htick⟩ := hlive (n + 1)
    exact ⟨m, htick, by omega⟩
  exact ⟨Nat.nth (fun i ↦ tick i = true) k, Nat.nth_mem_of_infinite hinf k,
    Nat.count_nth_of_infinite hinf k⟩

/-- A machine that holds its state while the enable is low has taken one step for each tick. -/
theorem trace_enabled {σ : Type*} {clk : σ → Bool → σ} (hold : ∀ s, clk s false = s) (s : σ)
    (tick : ℕ → Bool) (n : ℕ) :
    trace clk s tick n = (fun s ↦ clk s true)^[ticks tick n] s := by
  induction n with
  | zero => rfl
  | succ n ih =>
      rw [trace_succ, ih]
      cases h : tick n with
      | true => rw [ticks_succ_of_tick h, Function.iterate_succ_apply']
      | false => rw [ticks_succ_of_idle h, hold]

section Edges

/-- The wire goes up between cycle `n` and cycle `n + 1`. -/
def Rises (w : ℕ → Bool) (n : ℕ) : Prop := w n = false ∧ w (n + 1) = true

instance (w : ℕ → Bool) : DecidablePred (Rises w) := fun _ ↦ inferInstanceAs (Decidable (_ ∧ _))

/-- The wire goes up at `n` for the `k`-th time, counting from zero. -/
def RisesFor (w : ℕ → Bool) (k n : ℕ) : Prop := Rises w n ∧ Nat.count (Rises w) n = k

theorem RisesFor.unique {w : ℕ → Bool} {k m n : ℕ} (hm : RisesFor w k m) (hn : RisesFor w k n) :
    m = n := Nat.count_injective hm.1 hn.1 (hm.2.trans hn.2.symm)

variable {tick w v : ℕ → Bool}

/-- A wire that changes with the enable only goes up on ticks, as it does tick by tick. -/
theorem rises_enabled (hw : ∀ n, w n = v (ticks tick n)) (n : ℕ) :
    Rises w n ↔ tick n = true ∧ Rises v (ticks tick n) := by
  unfold Rises
  rw [hw n, hw (n + 1)]
  cases h : tick n with
  | true => simp [ticks_succ_of_tick h]
  | false => simp [ticks_succ_of_idle h]

theorem count_rises_enabled (hw : ∀ n, w n = v (ticks tick n)) (n : ℕ) :
    Nat.count (Rises w) n = Nat.count (Rises v) (ticks tick n) := by
  induction n with
  | zero => simp
  | succ n ih =>
      rw [Nat.count_succ, ih]
      cases h : tick n with
      | true =>
          rw [ticks_succ_of_tick h, Nat.count_succ]
          simp only [rises_enabled hw, h, true_and]
      | false =>
          rw [ticks_succ_of_idle h, if_neg fun hr ↦ ?_, Nat.add_zero]
          exact absurd ((rises_enabled hw n).mp hr).1 (by simp [h])

/-- The `k`-th rise of such a wire is the `k`-th rise tick by tick. -/
theorem rises_for_enabled (hw : ∀ n, w n = v (ticks tick n)) (k n : ℕ) :
    RisesFor w k n ↔ tick n = true ∧ RisesFor v k (ticks tick n) := by
  rw [RisesFor, RisesFor, rises_enabled hw, count_rises_enabled hw, and_assoc]

/-- A wire that goes up at the multiples of `P` goes up for the `k`-th time at `k * P`. -/
theorem rises_for_multiples {P : ℕ} (hP : 0 < P) (hrises : ∀ n, Rises w n ↔ P ∣ n) (k n : ℕ) :
    RisesFor w k n ↔ n = k * P := by
  have hcount : ∀ j, Nat.count (Rises w) (j * P) = j := by
    intro j
    induction j with
    | zero => simp
    | succ j ih =>
        -- The first cycle of a period has the rise, the others have none.
        obtain ⟨q, rfl⟩ : ∃ q, P = q + 1 := ⟨P - 1, by omega⟩
        have hrest : Nat.count (fun i ↦ Rises w (j * (q + 1) + (i + 1))) q = 0 := by
          rw [Nat.count_iff_forall_not]
          intro i hi hrise
          have hdvd := (Nat.dvd_add_right (Nat.dvd_mul_left (q + 1) j)).mp ((hrises _).mp hrise)
          exact absurd (Nat.le_of_dvd (by omega) hdvd) (by omega)
        rw [Nat.succ_mul, Nat.count_add, ih, Nat.count_succ', hrest]
        simp [hrises]
  constructor
  · rintro ⟨hrise, hk⟩
    obtain ⟨j, rfl⟩ := (hrises n).mp hrise
    rw [Nat.mul_comm, hcount] at hk
    rw [hk, Nat.mul_comm]
  · rintro rfl
    exact ⟨(hrises _).mpr (Nat.dvd_mul_left P k), hcount k⟩

/-- A wire that is high in the first `W` of every `P` cycles, the first one excepted, goes up at the
multiples of `P`. -/
theorem rises_of_level {P W : ℕ} (hW : 1 ≤ W) (hWP : W < P) (hzero : v 0 = false)
    (hlevel : ∀ t, v (t + 1) = decide (t % P < W)) (t : ℕ) : Rises v t ↔ P ∣ t := by
  have hnext : v (t + 1) = true ↔ t % P < W := by rw [hlevel, decide_eq_true_iff]
  rw [Rises, hnext, Nat.dvd_iff_mod_eq_zero]
  cases t with
  | zero => simpa [hzero] using Nat.pos_of_ne_zero (Nat.one_le_iff_ne_zero.mp hW)
  | succ t =>
      have hmod := Nat.mod_lt t (show 0 < P by omega)
      rw [hlevel, decide_eq_false_iff_not, succ_mod_eq (by omega)]
      split <;> omega

/-- From tick 0 on the wire goes up every `P` ticks, and then is high for `W` of them and low for
the others. Tick `t` is the one with `t` ticks before it. -/
structure PulseTrain (P W : ℕ) (tick w : ℕ → Bool) : Prop where
  /-- Before the first tick the wire is low. -/
  idle : ∀ c, ticks tick c = 0 → w c = false
  /-- The wire goes up for the `n`-th time, counting from zero, on tick `n * P`. -/
  rises : ∀ n c, RisesFor w n c ↔ tick c = true ∧ ticks tick c = n * P
  /-- After tick `n * P + i` the wire is high or low. -/
  level : ∀ n, ∀ i < P, ∀ c, ticks tick c = n * P + i + 1 → w c = decide (i < W)

/-- A pulse train tick by tick is one cycle by cycle. -/
theorem pulse_train_enabled {P W : ℕ} (hW : 1 ≤ W) (hWP : W < P)
    (hw : ∀ n, w n = v (ticks tick n)) (hzero : v 0 = false)
    (hlevel : ∀ t, v (t + 1) = decide (t % P < W)) : PulseTrain P W tick w where
  idle c hc := by rw [hw, hc, hzero]
  rises n c := by
    rw [rises_for_enabled hw, rises_for_multiples (by omega) (rises_of_level hW hWP hzero hlevel)]
  level n i hi c hc := by
    rw [hw, hc, hlevel, Nat.mul_add_mod', Nat.mod_eq_of_lt hi]

end Edges

section Events

variable {α : Type*}

/-- What was reported in the first `n` cycles, in order. -/
def events (e : ℕ → Option α) (n : ℕ) : List α := (List.range n).filterMap e

theorem events_succ (e : ℕ → Option α) (n : ℕ) : events e (n + 1) = events e n ++ (e n).toList := by
  rw [events, events, List.range_succ, List.filterMap_append]
  cases h : e n <;> simp [h]

theorem events_mono (e : ℕ → Option α) {m n : ℕ} (h : m ≤ n) : events e m <+: events e n := by
  induction n, h using Nat.le_induction with
  | base => exact List.prefix_rfl
  | succ n _ ih => exact ih.trans (events_succ e n ▸ List.prefix_append _ _)

/-- Cycles without a report add nothing. -/
theorem events_quiet (e : ℕ → Option α) {m n : ℕ} (hmn : m ≤ n)
    (h : ∀ i, m ≤ i → i < n → e i = none) : events e n = events e m := by
  induction n, hmn using Nat.le_induction with
  | base => rfl
  | succ n hmn ih =>
      rw [events_succ, h n hmn (Nat.lt_succ_self n), ih fun i hi hlt ↦ h i hi (by omega)]
      exact List.append_nil _

/-- What is reported `k` cycles late, each value changed by `f`. -/
theorem events_delayed {e e' : ℕ → Option α} {f : α → α} {k n : ℕ} (hearly : ∀ i < k, e' i = none)
    (hlate : ∀ i < n, e' (i + k) = (e i).map f) : events e' (n + k) = (events e n).map f := by
  induction n with
  | zero =>
      rw [Nat.zero_add]
      exact events_quiet e' (Nat.zero_le k) fun i _ hi ↦ hearly i hi
  | succ n ih =>
      rw [Nat.succ_add, events_succ, ih fun i hi ↦ hlate i (by omega), events_succ,
        hlate n (Nat.lt_succ_self n), List.map_append]
      cases e n <;> rfl

/-- The second wire reports what the first one reported: nothing else, and in the end all of it,
in order. -/
def Relays (e e' : ℕ → Option α) : Prop :=
  ∀ n, events e' n <+: events e n ∧ ∃ m, events e n <+: events e' m

/-- What relays a silent wire is silent. -/
theorem Relays.silent {e e' : ℕ → Option α} (h : Relays e e') (hsilent : ∀ n, e n = none) (n : ℕ) :
    e' n = none := by
  have hnothing : events e (n + 1) = [] := events_quiet e (Nat.zero_le _) fun i _ _ ↦ hsilent i
  have hprefix := (h (n + 1)).1
  rw [hnothing, List.prefix_nil, events_succ] at hprefix
  cases hreport : e' n with
  | none => rfl
  | some x =>
      rw [hreport] at hprefix
      exact absurd (List.append_eq_nil_iff.mp hprefix).2 (List.cons_ne_nil x [])

/-- A wire that reports late and changes each value by `f` relays exactly the values that `f`
leaves alone. -/
theorem relays_delayed_iff {e e' : ℕ → Option α} {f : α → α} {k : ℕ}
    (hearly : ∀ n < k, e' n = none) (hlate : ∀ n, e' (n + k) = (e n).map f) :
    Relays e e' ↔ ∀ n x, e n = some x → f x = x := by
  have hlog := fun n ↦ events_delayed (n := n) hearly fun i _ ↦ hlate i
  constructor
  · intro hrelay n x hx
    -- Both lists are prefixes of the same list, and they are equally long.
    have hout := (hrelay (n + 1 + k)).1
    have hin := events_mono e (show n + 1 ≤ n + 1 + k by omega)
    rw [hlog] at hout
    have heq := List.prefix_or_prefix_of_prefix hout hin
    have hsame : (events e (n + 1)).map f = events e (n + 1) := by
      rcases heq with h | h
      · exact h.eq_of_length (List.length_map _)
      · exact (h.eq_of_length (List.length_map _).symm).symm
    rw [events_succ, hx, List.map_append] at hsame
    have hlast := List.append_inj_right hsame (List.length_map _)
    simpa using hlast
  · intro hkeep n
    have hsame : ∀ n, (events e n).map f = events e n := by
      intro n
      rw [List.map_congr_left (g := id), List.map_id]
      intro x hx
      obtain ⟨i, -, hi⟩ := List.mem_filterMap.mp hx
      exact hkeep i x hi
    have hin : events e' (n + k) = events e n := (hlog n).trans (hsame n)
    exact ⟨hin ▸ events_mono e' (Nat.le_add_right n k), n + k, hin ▸ List.prefix_rfl⟩

end Events

section Queues

variable {α : Type*} {e e' : ℕ → Option α} {q : ℕ → List α}

/-- What was in the queue and what went in is what came out and what is in the queue. -/
theorem queue_conserves (hstep : ∀ n, q n ++ (e n).toList = (e' n).toList ++ q (n + 1)) (n : ℕ) :
    q 0 ++ events e n = events e' n ++ q n := by
  induction n with
  | zero => exact List.append_nil _
  | succ n ih =>
      rw [events_succ, events_succ, ← List.append_assoc, ih, List.append_assoc, hstep,
        List.append_assoc]

/-- A queue that is served again and again in the end gives out everything it was given. -/
theorem queue_drains (hconserve : ∀ n, q 0 ++ events e n = events e' n ++ q n)
    (hserved : ∀ n, ∃ m, n ≤ m ∧ (q m ≠ [] → (e' m).isSome)) (n : ℕ) :
    ∃ m, q 0 ++ events e n <+: events e' m := by
  -- The values given out by cycle `m ≥ n` are the first ones; it is enough that they are as many.
  have hcount : ∀ k ≤ (q 0 ++ events e n).length, ∃ m, n ≤ m ∧ k ≤ (events e' m).length := by
    intro k
    induction k with
    | zero => exact fun _ ↦ ⟨n, le_rfl, Nat.zero_le _⟩
    | succ k ih =>
        intro hk
        obtain ⟨m₀, hnm, hm₀⟩ := ih (by omega)
        obtain ⟨m, hm, hserve⟩ := hserved m₀
        have hmore := (events_mono e' hm).length_le
        by_cases hdone : k + 1 ≤ (events e' m).length
        · exact ⟨m, by omega, hdone⟩
        · have hin := (events_mono e (show n ≤ m by omega)).length_le
          have hall := congrArg List.length (hconserve m)
          rw [List.length_append] at hk
          rw [List.length_append, List.length_append] at hall
          have hwaiting : q m ≠ [] := by
            intro hempty
            rw [hempty, List.length_nil] at hall
            omega
          obtain ⟨x, hx⟩ := Option.isSome_iff_exists.mp (hserve hwaiting)
          refine ⟨m + 1, by omega, ?_⟩
          rw [events_succ, hx, List.length_append]
          show k + 1 ≤ _ + 1
          omega
  obtain ⟨m, hnm, hm⟩ := hcount _ le_rfl
  have hin : q 0 ++ events e n <+: q 0 ++ events e m :=
    (List.prefix_append_right_inj _).mpr (events_mono e hnm)
  have hout : events e' m <+: q 0 ++ events e m := hconserve m ▸ List.prefix_append _ _
  exact ⟨m, List.prefix_of_prefix_length_le hin hout hm⟩

end Queues

section Jobs

variable {α : Type*}

/-- The next state of a server that works on one item at a time, for `len` cycles: it takes a
request when it is free and turns none into a queue. A state is the item and its age. -/
def nextJob (len : ℕ) (job : Option (α × ℕ)) (req : Option α) : Option (α × ℕ) :=
  match job with
  | none => req.map (·, 0)
  | some (x, a) => if a + 1 < len then some (x, a + 1) else none

/-- The item the server has been working on for `k` cycles. -/
def atAge (k : ℕ) : Option (α × ℕ) → Option α
  | none => none
  | some (x, a) => if a = k then some x else none

theorem at_age_next_succ (len k : ℕ) (hk : k + 1 < len) (job : Option (α × ℕ)) (req : Option α) :
    atAge (k + 1) (nextJob len job req) = atAge k job := by
  cases job with
  | none => cases req <;> rfl
  | some j =>
      obtain ⟨x, a⟩ := j
      by_cases ha : a = k
      · subst ha
        simp [nextJob, atAge, hk]
      · by_cases hlt : a + 1 < len <;> simp [nextJob, atAge, ha, hlt]

variable {len : ℕ} {req : ℕ → Option α} {job : ℕ → Option (α × ℕ)}
  (hjob : ∀ n, job (n + 1) = nextJob len (job n) (req n))
include hjob

/-- An item begun in cycle `n` is of age `k` in cycle `n + k`. -/
theorem at_age_later {k : ℕ} (hk : k < len) (n : ℕ) : atAge k (job (n + k)) = atAge 0 (job n) := by
  induction k with
  | zero => rfl
  | succ k ih =>
      rw [← Nat.add_assoc, hjob, at_age_next_succ len k hk]
      exact ih (by omega)

/-- The age of an item stays below the length of a job. -/
theorem age_lt (hlen : 0 < len) (hfree : job 0 = none) {n : ℕ} {x : α} {a : ℕ}
    (h : job n = some (x, a)) : a < len := by
  cases n with
  | zero => rw [hfree] at h; cases h
  | succ n =>
      rw [hjob] at h
      cases hprev : job n with
      | none =>
          rw [hprev] at h
          cases hreq : req n with
          | none => rw [hreq] at h; cases h
          | some y => rw [hreq] at h; cases h; exact hlen
      | some j =>
          obtain ⟨y, i⟩ := j
          rw [hprev] at h
          by_cases hi : i + 1 < len
          · simp only [nextJob, if_pos hi, Option.some.injEq, Prod.mk.injEq] at h
            omega
          · simp [nextJob, hi] at h

/-- The item at work was requested when its age says. -/
theorem job_began (hfree : job 0 = none) {n : ℕ} {x : α} {a : ℕ} (h : job n = some (x, a)) :
    ∃ r, n = r + 1 + a ∧ job r = none ∧ req r = some x := by
  induction n generalizing a with
  | zero => rw [hfree] at h; cases h
  | succ n ih =>
      rw [hjob] at h
      cases hprev : job n with
      | none =>
          rw [hprev] at h
          cases hreq : req n with
          | none => rw [hreq] at h; cases h
          | some y =>
              rw [hreq] at h
              cases h
              exact ⟨n, rfl, hprev, hreq⟩
      | some j =>
          obtain ⟨y, i⟩ := j
          rw [hprev] at h
          by_cases hi : i + 1 < len
          · simp only [nextJob, if_pos hi, Option.some.injEq, Prod.mk.injEq] at h
            obtain ⟨rfl, rfl⟩ := h
            obtain ⟨r, hr, hstart⟩ := ih hprev
            exact ⟨r, by omega, hstart⟩
          · simp [nextJob, hi] at h

/-- The work on an item goes on. -/
theorem job_goes_on {n : ℕ} {x : α} {a : ℕ} (h : job n = some (x, a)) {k : ℕ} (hk : a + k < len) :
    job (n + k) = some (x, a + k) := by
  induction k with
  | zero => exact h
  | succ k ih =>
      rw [← Nat.add_assoc, hjob, ih (by omega)]
      exact if_pos (by omega)

/-- The server is free again within the time of one item. -/
theorem free_within (hlen : 0 < len) (hfree : job 0 = none) (n : ℕ) :
    ∃ k ≤ len, job (n + k) = none := by
  cases hitem : job n with
  | none => exact ⟨0, Nat.zero_le len, hitem⟩
  | some j =>
      obtain ⟨x, a⟩ := j
      have ha := age_lt hjob hlen hfree hitem
      refine ⟨len - a, Nat.sub_le len a, ?_⟩
      have hlast := job_goes_on hjob hitem (k := len - a - 1) (by omega)
      rw [show n + (len - a) = n + (len - a - 1) + 1 by omega, hjob, hlast]
      exact if_neg (by omega)

/-- No item is as old as the run. -/
theorem at_age_early (hfree : job 0 = none) {k n : ℕ} (hn : n ≤ k) : atAge k (job n) = none := by
  cases hitem : job n with
  | none => rfl
  | some j =>
      obtain ⟨x, a⟩ := j
      obtain ⟨r, hr, -⟩ := job_began hjob hfree hitem
      exact if_neg (by omega)

end Jobs

end LinkFPGA.Clocked
