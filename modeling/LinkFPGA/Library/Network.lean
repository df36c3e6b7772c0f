import Mathlib.Data.List.Induction
import LinkFPGA.Library.LatestWins

/-!
# Machines on a network

A family of machines, each with a list of the messages it has sent. An event may hand a message
to the machine it happens at, and `FromNetwork` says that somebody has sent it: the network may
lose, repeat, delay and reorder messages, but makes none up.

`network_induct` is the induction over a run of the family. What each member `Keeps` may speak of
the whole run so far, and what a message `Says` too: a member that sends vouches for its message,
and a member that receives may rely on it, whoever sent it and however long ago.
-/

namespace LinkFPGA.Network

open Runs LatestWins

variable {ι σ ε μ : Type*} [DecidableEq ι]

/-- Whatever the event hands to its machine has been sent by some machine. -/
def FromNetwork (sent : σ → List μ) (received : ε → Option μ) (members : ι → σ) (a : ι × ε) :
    Prop :=
  ∀ m ∈ received a.2, ∃ j, m ∈ sent (members j)

/-- At some moment of the run, the member was in the state. -/
def WasIn (step : σ → ε → σ) (members : ι → σ) (as : List (ι × ε)) (j : ι) (s : σ) : Prop :=
  ∃ before after, as = before ++ after ∧ run (actAt step) members before j = s

variable {step : σ → ε → σ} {sent : σ → List μ} {received : ε → Option μ}

/-- What a member was in it was in when the run goes on. -/
theorem WasIn.append {members : ι → σ} {as : List (ι × ε)} {j : ι} {s : σ}
    (h : WasIn step members as j s) (bs : List (ι × ε)) : WasIn step members (as ++ bs) j s := by
  obtain ⟨before, after, rfl, hs⟩ := h
  exact ⟨before, after ++ bs, List.append_assoc before after bs, hs⟩

/-- A member is in its present state. -/
theorem WasIn.now (step : σ → ε → σ) (members : ι → σ) (as : List (ι × ε)) (j : ι) :
    WasIn step members as j (run (actAt step) members as j) :=
  ⟨as, [], (List.append_nil as).symm, rfl⟩

/-- The state of a member after an event somewhere. -/
theorem run_concat (members : ι → σ) (as : List (ι × ε)) (a : ι × ε) (i : ι) :
    run (actAt step) members (as ++ [a]) i =
      if i = a.1 then step (run (actAt step) members as i) a.2
      else run (actAt step) members as i := by
  rw [run_append, run_cons, run_nil, actAt, Function.update_apply]
  split
  · rename_i hi
    rw [hi]
  · rfl

/-- What every member keeps, and what every message sent says, in a run in which each message
received was sent before. The premises are about one event at one member, which relies on what
the message received says. -/
theorem network_induct (admits : σ → ε → Prop) (Keeps : List (ι × ε) → ι → σ → Prop)
    (Says : List (ι × ε) → μ → Prop) {members : ι → σ}
    (hinit : ∀ i, Keeps [] i (members i)) (hsilent : ∀ i, sent (members i) = [])
    (hkept : ∀ past a i s, i ≠ a.1 → Keeps past i s → Keeps (past ++ [a]) i s)
    (hsaid : ∀ past a m, Says past m → Says (past ++ [a]) m)
    (hsend : ∀ past i e, Keeps past i (run (actAt step) members past i) →
      admits (run (actAt step) members past i) e → (∀ m ∈ received e, Says past m) →
      ∀ m ∈ sent (step (run (actAt step) members past i) e),
        m ∈ sent (run (actAt step) members past i) ∨ Says (past ++ [(i, e)]) m)
    (hstep : ∀ past i e, Keeps past i (run (actAt step) members past i) →
      admits (run (actAt step) members past i) e → (∀ m ∈ received e, Says past m) →
      Keeps (past ++ [(i, e)]) i (step (run (actAt step) members past i) e))
    {as : List (ι × ε)}
    (h : Guarded (actAt step) (fun members a => FromNetwork sent received members a ∧
      admits (members a.1) a.2) members as) (i : ι) :
    Keeps as i (run (actAt step) members as i) ∧
      ∀ m ∈ sent (run (actAt step) members as i), Says as m := by
  induction as using List.reverseRecOn generalizing i with
  | nil =>
      refine ⟨hinit i, fun m hm => ?_⟩
      rw [run_nil, hsilent] at hm
      cases hm
  | append_singleton past a ih =>
      have hbefore := ih h.initial
      obtain ⟨hnetwork, hadmits⟩ := h.at_step
      -- the sender, whichever member it is, has vouched for the message
      have hreceived : ∀ m ∈ received a.2, Says past m := by
        intro m hm
        obtain ⟨j, hj⟩ := hnetwork m hm
        exact (hbefore j).2 m hj
      rw [run_concat]
      split
      · rename_i hi
        subst hi
        refine ⟨hstep past a.1 a.2 (hbefore a.1).1 hadmits hreceived, fun m hm => ?_⟩
        rcases hsend past a.1 a.2 (hbefore a.1).1 hadmits hreceived m hm with hold | hnew
        · exact hsaid past a m ((hbefore a.1).2 m hold)
        · exact hnew
      · rename_i hi
        exact ⟨hkept past a i _ hi (hbefore i).1, fun m hm => hsaid past a m ((hbefore i).2 m hm)⟩

/-- Where a message that a machine has sent comes from, if each event appends what it sends. -/
theorem sent_traced {P : σ → ε → μ → Prop}
    (hstep : ∀ s e, ∃ new, sent (step s e) = sent s ++ new ∧ ∀ m ∈ new, P s e m) (s : σ)
    (es : List ε) : ∀ m ∈ sent (run step s es), m ∈ sent s ∨
      ∃ before e after, es = before ++ e :: after ∧ P (run step s before) e m := by
  induction es using List.reverseRecOn with
  | nil => exact fun m hm => .inl hm
  | append_singleton past e ih =>
      intro m hm
      obtain ⟨new, hnew, hall⟩ := hstep (run step s past) e
      rw [run_append, run_cons, run_nil, hnew, List.mem_append] at hm
      rcases hm with hold | hm
      · rcases ih m hold with hinit | ⟨before, e', after, rfl, hP⟩
        · exact .inl hinit
        · exact .inr ⟨before, e', after ++ [e], by rw [List.append_assoc, List.cons_append], hP⟩
      · exact .inr ⟨past, e, [], rfl, hall m hm⟩

/-! ## Where a value comes from -/

/-- A member had the value from the start, or had it right after an event that may author it. -/
def Authored {τ : Type*} (step : σ → ε → σ) (part : σ → τ) (authors : ε → Prop)
    (members : ι → σ) (as : List (ι × ε)) (x : τ) : Prop :=
  (∃ j, x = part (members j)) ∨ ∃ before j e after, as = before ++ (j, e) :: after ∧ authors e ∧
    x = part (step (run (actAt step) members before j) e)

namespace Authored

variable {τ : Type*} {part : σ → τ} {authors : ε → Prop} {members : ι → σ} {as : List (ι × ε)}

/-- Where a value comes from does not change when the run goes on. -/
theorem append {x : τ} (h : Authored step part authors members as x) (bs : List (ι × ε)) :
    Authored step part authors members (as ++ bs) x := by
  rcases h with hinit | ⟨before, j, e, after, rfl, he, hx⟩
  · exact .inl hinit
  · exact .inr ⟨before, j, e, after ++ bs, by rw [List.append_assoc, List.cons_append], he, hx⟩

/-- An event that authors values. -/
theorem now {e : ε} (he : authors e) (i : ι) :
    Authored step part authors members (as ++ [(i, e)])
      (part (step (run (actAt step) members as i) e)) :=
  .inr ⟨as, i, e, [], rfl, he, rfl⟩

end Authored

/-! ## One member's part of a run -/

/-- The events at one member, in order. -/
def history (as : List (ι × ε)) (i : ι) : List ε :=
  as.filterMap fun a => if a.1 = i then some a.2 else none

@[simp] theorem history_nil (i : ι) : history ([] : List (ι × ε)) i = [] := rfl

/-- One event more. -/
theorem history_concat (as : List (ι × ε)) (a : ι × ε) (i : ι) :
    history (as ++ [a]) i = history as i ++ if a.1 = i then [a.2] else [] := by
  unfold history
  rw [List.filterMap_append, List.filterMap_cons, List.filterMap_nil]
  by_cases hi : a.1 = i
  · rw [if_pos hi, if_pos hi]
  · rw [if_neg hi, if_neg hi]

/-- A member's state depends on the events at it alone. -/
theorem run_history (members : ι → σ) (as : List (ι × ε)) (i : ι) :
    run (actAt step) members as i = run step (members i) (history as i) := by
  induction as using List.reverseRecOn with
  | nil => rfl
  | append_singleton past a ih =>
      rw [run_concat, history_concat, run_append, ← ih]
      by_cases hi : i = a.1
      · rw [if_pos hi, if_pos hi.symm, run_cons, run_nil]
      · rw [if_neg hi, if_neg (Ne.symm hi), run_nil]

/-! ## What a member has been handed -/

/-- The messages handed to a member, in order. -/
def inbox (received : ε → Option μ) (as : List (ι × ε)) (i : ι) : List μ :=
  as.filterMap fun a => if a.1 = i then received a.2 else none

@[simp] theorem inbox_nil (received : ε → Option μ) (i : ι) :
    inbox received ([] : List (ι × ε)) i = [] := rfl

/-- One event more. -/
theorem inbox_concat (received : ε → Option μ) (as : List (ι × ε)) (a : ι × ε) (i : ι) :
    inbox received (as ++ [a]) i =
      inbox received as i ++ if a.1 = i then (received a.2).toList else [] := by
  unfold inbox
  rw [List.filterMap_append, List.filterMap_cons, List.filterMap_nil]
  by_cases hi : a.1 = i
  · rw [if_pos hi, if_pos hi]
    cases received a.2 <;> rfl
  · rw [if_neg hi, if_neg hi]

end LinkFPGA.Network
