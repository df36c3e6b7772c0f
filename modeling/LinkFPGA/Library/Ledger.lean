import Mathlib.Data.List.Induction
import LinkFPGA.Library.Runs

/-!
# Ledgers

A log of messages that are each about one key. `latest` is the last message about a key and
`verdict` what the log makes of it, a start value where it says nothing. A machine whose table is
moved by every step as the messages of that step say is, after any run, as the messages of the
whole run say (`run_verdict`).
-/

namespace LinkFPGA.Ledger

open Runs

variable {μ κ ν σ ε : Type*} [DecidableEq κ] (key : μ → κ) (value : μ → ν)

/-- The last message about a key. -/
def latest (msgs : List μ) (k : κ) : Option μ := msgs.reverse.find? fun m ↦ key m = k

/-- What the messages make of a key that had the value `start`. -/
def verdict (msgs : List μ) (start : ν) (k : κ) : ν := (latest key msgs k).elim start value

variable {key value}

@[simp] theorem latest_nil (k : κ) : latest key [] k = none := rfl

/-- Later messages come first. -/
theorem latest_append (msgs later : List μ) (k : κ) :
    latest key (msgs ++ later) k = (latest key later k).or (latest key msgs k) := by
  unfold latest
  rw [List.reverse_append, List.find?_append]

@[simp] theorem latest_singleton (m : μ) (k : κ) :
    latest key [m] k = if key m = k then some m else none := by
  by_cases h : key m = k <;> simp [latest, h]

/-- The last message about a key is about that key, and one of the messages. -/
theorem latest_some {msgs : List μ} {k : κ} {m : μ} (h : latest key msgs k = some m) :
    key m = k ∧ m ∈ msgs := by
  unfold latest at h
  have hkey := List.find?_some h
  exact ⟨of_decide_eq_true hkey, List.mem_reverse.mp (List.mem_of_find?_eq_some h)⟩

@[simp] theorem verdict_nil (start : ν) (k : κ) : verdict key value [] start k = start := rfl

/-- What messages make of a key is what the later ones make of what the earlier ones made. -/
theorem verdict_append (msgs later : List μ) (start : ν) (k : κ) :
    verdict key value (msgs ++ later) start k =
      verdict key value later (verdict key value msgs start k) k := by
  unfold verdict
  rw [latest_append]
  cases latest key later k <;> rfl

/-- The last message that also passes a test is the last message, if that one passes. -/
theorem latest_filter {msgs : List μ} {k : κ} {m : μ} {p : μ → Bool}
    (h : latest key msgs k = some m) (hp : p m = true) :
    latest key (msgs.filter p) k = some m := by
  induction msgs using List.reverseRecOn with
  | nil => cases h
  | append_singleton msgs last ih =>
      rw [latest_append, latest_singleton] at h
      rw [List.filter_append, latest_append]
      by_cases hkey : key last = k
      · rw [if_pos hkey, Option.some_or] at h
        obtain rfl := Option.some.inj h
        rw [List.filter_singleton, hp, cond_true, latest_singleton, if_pos hkey, Option.some_or]
      · rw [if_neg hkey, Option.none_or] at h
        have hnone : latest key ([last].filter p) k = none := by
          rw [List.filter_singleton]
          cases p last <;> simp [hkey]
        rw [hnone, Option.none_or]
        exact ih h

/-- A table moved by every step as the messages of the step say. -/
theorem run_verdict {step : σ → ε → σ} {report : σ → ε → List μ} {Inv : σ → Prop}
    {held : σ → κ → ν} (hkeep : ∀ s e, Inv s → Inv (step s e))
    (hstep : ∀ s e k, Inv s →
      held (step s e) k = verdict key value (report s e) (held s k) k)
    {s : σ} (hs : Inv s) (es : List ε) (k : κ) :
    held (run step s es) k = verdict key value (log step report s es) (held s k) k := by
  induction es generalizing s with
  | nil => rfl
  | cons e es ih => rw [run_cons, log_cons, verdict_append, ih (hkeep s e hs), hstep s e k hs]

end LinkFPGA.Ledger
