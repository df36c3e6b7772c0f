import Mathlib.Data.List.Basic

/-!
# Runs of a deterministic machine

A machine is a step function `step : σ → ε → σ` on states `σ` and events `ε`. `run` folds it
over an event list, `Guarded` says that every step of a run is taken from a state that admits
its event, and `log` collects what each step reports. The induction over a run is stated
twice: `run_induct` for an invariant of the state, `run_log_induct` for an invariant that
relates the state to everything reported so far.
-/

namespace LinkFPGA.Runs

variable {σ ε ο : Type*}

/-- The state after the events, taken in order. -/
def run (step : σ → ε → σ) (s : σ) (es : List ε) : σ := es.foldl step s

/-- Every step of the run is taken from a state in which the guard admits its event. -/
def Guarded (step : σ → ε → σ) (guard : σ → ε → Prop) : σ → List ε → Prop
  | _, [] => True
  | s, e :: es => guard s e ∧ Guarded step guard (step s e) es

/-- Whether a run is guarded can be decided where each guard can. -/
instance decidableGuarded (step : σ → ε → σ) (guard : σ → ε → Prop)
    [∀ s e, Decidable (guard s e)] : ∀ s es, Decidable (Guarded step guard s es)
  | _, [] => .isTrue trivial
  | s, e :: es =>
      have := decidableGuarded step guard (step s e) es
      inferInstanceAs (Decidable (_ ∧ _))

/-- What the steps of the run report, in order. -/
def log (step : σ → ε → σ) (report : σ → ε → List ο) : σ → List ε → List ο
  | _, [] => []
  | s, e :: es => report s e ++ log step report (step s e) es

/-- The machine together with everything it has reported. -/
def recorded (step : σ → ε → σ) (report : σ → ε → List ο) (x : σ × List ο) (e : ε) :
    σ × List ο := (step x.1 e, x.2 ++ report x.1 e)

variable {step : σ → ε → σ} {guard : σ → ε → Prop} {report : σ → ε → List ο}

@[simp] theorem run_nil (s : σ) : run step s [] = s := rfl

@[simp] theorem run_cons (s : σ) (e : ε) (es : List ε) :
    run step s (e :: es) = run step (step s e) es := rfl

theorem run_append (s : σ) (es fs : List ε) :
    run step s (es ++ fs) = run step (run step s es) fs :=
  List.foldl_append

@[simp] theorem log_nil (s : σ) : log step report s [] = [] := rfl

@[simp] theorem log_cons (s : σ) (e : ε) (es : List ε) :
    log step report s (e :: es) = report s e ++ log step report (step s e) es := rfl

/-- A run splits its guard at every prefix. -/
theorem guarded_append (s : σ) (es fs : List ε) :
    Guarded step guard s (es ++ fs) ↔
      Guarded step guard s es ∧ Guarded step guard (run step s es) fs := by
  induction es generalizing s with
  | nil => simp [Guarded]
  | cons e es ih => simp [Guarded, ih, and_assoc]

/-- A guard that admits everything admits every run. -/
theorem guarded_of_forall (h : ∀ s e, guard s e) (s : σ) (es : List ε) :
    Guarded step guard s es := by
  induction es generalizing s with
  | nil => trivial
  | cons e es ih => exact ⟨h s e, ih _⟩

/-- A guard on the events alone is a property of each of them. -/
theorem guarded_of_forall_mem {p : ε → Prop} {es : List ε} (h : ∀ e ∈ es, p e) (s : σ) :
    Guarded step (fun _ e => p e) s es := by
  induction es generalizing s with
  | nil => trivial
  | cons e es ih =>
      exact ⟨h e List.mem_cons_self, ih (fun e' he' => h e' (List.mem_cons_of_mem _ he')) _⟩

/-- A weaker guard admits every run a stronger one admits. -/
theorem Guarded.mono {weak : σ → ε → Prop} (himp : ∀ s e, guard s e → weak s e) {s : σ}
    {es : List ε} (h : Guarded step guard s es) : Guarded step weak s es := by
  induction es generalizing s with
  | nil => trivial
  | cons e es ih => exact ⟨himp _ _ h.1, ih h.2⟩

/-- The guard holds at every step of a guarded run. -/
theorem Guarded.at_step {s : σ} {es fs : List ε} {e : ε}
    (h : Guarded step guard s (es ++ e :: fs)) : guard (run step s es) e :=
  ((guarded_append s es (e :: fs)).mp h).2.1

/-- The part of a guarded run before a step is guarded. -/
theorem Guarded.initial {s : σ} {es fs : List ε}
    (h : Guarded step guard s (es ++ fs)) : Guarded step guard s es :=
  ((guarded_append s es fs).mp h).1

/-- What a run reports is what its prefix reports and then what the rest reports. -/
theorem log_append (s : σ) (es fs : List ε) :
    log step report s (es ++ fs) = log step report s es ++ log step report (run step s es) fs := by
  induction es generalizing s with
  | nil => rfl
  | cons e es ih => simp [ih]

/-- A report of a run is the report of one of its steps. -/
theorem mem_log {s : σ} {es : List ε} {o : ο} (h : o ∈ log step report s es) :
    ∃ before e after, es = before ++ e :: after ∧ o ∈ report (run step s before) e := by
  induction es generalizing s with
  | nil => cases h
  | cons e es ih =>
      rcases List.mem_append.mp h with hfirst | hrest
      · exact ⟨[], e, es, rfl, hfirst⟩
      · obtain ⟨before, e', after, rfl, ho⟩ := ih hrest
        exact ⟨e :: before, e', after, rfl, ho⟩

/-- All reports of a run have a property when those of each step have it. -/
theorem forall_log_iff {p : ο → Prop} (s : σ) (es : List ε) :
    (∀ o ∈ log step report s es, p o) ↔ Guarded step (fun s e => ∀ o ∈ report s e, p o) s es := by
  induction es generalizing s with
  | nil => simp [Guarded]
  | cons e es ih => simp [Guarded, ← ih, or_imp, forall_and]

/-- Two guards that agree where an invariant holds, which the steps they admit keep, admit the
same runs. -/
theorem guarded_congr {motive : σ → Prop} {other : σ → ε → Prop}
    (hkeep : ∀ s e, motive s → guard s e → motive (step s e))
    (hagree : ∀ s e, motive s → (guard s e ↔ other s e)) {s : σ} (hs : motive s) (es : List ε) :
    Guarded step guard s es ↔ Guarded step other s es := by
  induction es generalizing s with
  | nil => exact Iff.rfl
  | cons e es ih =>
      rw [Guarded, Guarded, ← hagree s e hs]
      exact and_congr_right fun hguard => ih (hkeep s e hs hguard)

/-- A guard on the state alone does not see the record. -/
theorem guarded_recorded (s : σ) (past : List ο) (es : List ε) :
    Guarded (recorded step report) (fun x e => guard x.1 e) (s, past) es ↔
      Guarded step guard s es := by
  induction es generalizing s past with
  | nil => exact Iff.rfl
  | cons e es ih => exact and_congr Iff.rfl (ih _ _)

/-- An invariant relating the state to the reports, kept by every admitted step, holds at the
end of every guarded run. -/
theorem run_log_induct {motive : σ → List ο → Prop}
    (hstep : ∀ s past e, motive s past → guard s e → motive (step s e) (past ++ report s e))
    {s : σ} {past : List ο} {es : List ε} (hinit : motive s past)
    (h : Guarded step guard s es) : motive (run step s es) (past ++ log step report s es) := by
  induction es generalizing s past with
  | nil => simpa using hinit
  | cons e es ih =>
      have hnext := ih (hstep s past e hinit h.1) h.2
      simpa [List.append_assoc] using hnext

/-- An invariant of the state kept by every admitted step holds at the end of every guarded
run. -/
theorem run_induct {motive : σ → Prop} (hstep : ∀ s e, motive s → guard s e → motive (step s e))
    {s : σ} {es : List ε} (hinit : motive s) (h : Guarded step guard s es) :
    motive (run step s es) := by
  induction es generalizing s with
  | nil => exact hinit
  | cons e es ih => exact ih (hstep s e hinit h.1) h.2

/-- An invariant of the state kept by every step holds at the end of every run. -/
theorem run_invariant {motive : σ → Prop} (hstep : ∀ s e, motive s → motive (step s e)) {s : σ}
    (hinit : motive s) (es : List ε) : motive (run step s es) := by
  have hall : Guarded step (fun _ _ => True) s es := guarded_of_forall (fun _ _ => trivial) s es
  exact run_induct (fun s e h _ => hstep s e h) hinit hall

/-- An invariant relating the state to the reports, kept by every step, holds at the end of every
run. -/
theorem run_log_invariant {motive : σ → List ο → Prop}
    (hstep : ∀ s past e, motive s past → motive (step s e) (past ++ report s e)) {s : σ}
    (hinit : motive s []) (es : List ε) : motive (run step s es) (log step report s es) := by
  have hall : Guarded step (fun _ _ => True) s es := guarded_of_forall (fun _ _ => trivial) s es
  exact run_log_induct (fun s past e h _ => hstep s past e h) hinit hall

end LinkFPGA.Runs
