import Mathlib.Data.List.Induction
import Mathlib.Order.Monotone.Basic
import LinkFPGA.Library.Runs

/-!
# A stream that several parties read

A machine takes items off a stream and appends to a record. Others take items off the same stream
and append to the same record in between. `alone_on_part` says that the machine cannot tell: it
does what it would do alone, on the items that it takes itself.
-/

namespace LinkFPGA.SharedStream

open Runs

variable {β ε α μ : Type*}

/-- A state, the number of items taken, and what has been appended to the record. -/
structure Progress (β μ : Type*) where
  state : β
  taken : ℕ
  out : List μ

/-- What an event makes of a state, for the stream from the next item on. -/
abbrev Machine (β ε α μ : Type*) := ε → β → (ℕ → α) → Progress β μ

/-- An event looks at the items that it takes, and at no others. -/
def Looks (m : Machine β ε α μ) : Prop :=
  ∀ e b f g, (∀ i < (m e b f).taken, g i = f i) → m e b g = m e b f

/-- One event, on a stream of which items have been taken. -/
def turn (m : Machine β ε α μ) (f : ℕ → α) (s : Progress β μ) (e : ε) : Progress β μ :=
  let r := m e s.state fun i => f (s.taken + i)
  ⟨r.state, s.taken + r.taken, s.out ++ r.out⟩

/-- What happens next where the stream is shared. -/
inductive Action (ε μ : Type*) where
  | own (e : ε)
  /-- The others take items, and append to the record. -/
  | others (taken : ℕ) (out : List μ)

/-- One action. -/
def act (m : Machine β ε α μ) (f : ℕ → α) (s : Progress β μ) : Action ε μ → Progress β μ
  | .own e => turn m f s e
  | .others taken out => { s with taken := s.taken + taken, out := s.out ++ out }

/-- The event, if the action is the machine's own. -/
def Action.event? : Action ε μ → Option ε
  | .own e => some e
  | .others _ _ => none

/-- The events of the machine. -/
def ownEvents (as : List (Action ε μ)) : List ε := as.filterMap Action.event?

variable {m : Machine β ε α μ} {f g : ℕ → α}

theorem own_events_append (as bs : List (Action ε μ)) :
    ownEvents (as ++ bs) = ownEvents as ++ ownEvents bs :=
  List.filterMap_append

/-- An event does the same at another place of another stream that shows the same items there. -/
theorem turn_elsewhere (hm : Looks m) {s t : Progress β μ} {e : ε} (hstate : t.state = s.state)
    (h : ∀ i < (m e s.state fun i => f (s.taken + i)).taken, g (t.taken + i) = f (s.taken + i)) :
    turn m g t e =
      ⟨(turn m f s e).state, t.taken + (m e s.state fun i => f (s.taken + i)).taken,
        t.out ++ (m e s.state fun i => f (s.taken + i)).out⟩ := by
  unfold turn
  dsimp only
  rw [hstate, hm e s.state _ (fun i => g (t.taken + i)) h]

/-- A run takes no item back. -/
theorem taken_le_run (s : Progress β μ) (es : List ε) : s.taken ≤ (run (turn m f) s es).taken :=
  run_invariant (motive := fun t : Progress β μ => s.taken ≤ t.taken)
    (fun _ _ h => Nat.le_trans h (Nat.le_add_right _ _)) le_rfl es

/-- A run does the same on every stream that shows the items that it takes. -/
theorem run_same_items (hm : Looks m) (s : Progress β μ) {es : List ε}
    (h : ∀ i < (run (turn m f) s es).taken, g i = f i) :
    run (turn m g) s es = run (turn m f) s es := by
  induction es generalizing s with
  | nil => rfl
  | cons e es ih =>
      rw [run_cons] at h
      have hfirst : turn m g s e = turn m f s e := by
        rw [turn_elsewhere hm rfl]
        · rfl
        · intro i hi
          have htaken := taken_le_run (m := m) (f := f) (turn m f s e) es
          exact h _ (Nat.lt_of_lt_of_le (Nat.add_lt_add_left hi _) htaken)
      rw [run_cons, run_cons, hfirst]
      exact ih _ h

/-- An enumeration whose first items are those of `index`, and which goes on at `place`. -/
def goOn (index : ℕ → ℕ) (n place i : ℕ) : ℕ := if i < n then index i else place + (i - n)

theorem go_on_strict_mono {index : ℕ → ℕ} (hindex : StrictMono index) {n place : ℕ}
    (hplace : ∀ i < n, index i < place) : StrictMono (goOn index n place) := by
  intro i k hik
  unfold goOn
  by_cases hk : k < n
  · rw [if_pos hk, if_pos (by omega)]
    exact hindex hik
  · rw [if_neg hk]
    by_cases hi : i < n
    · rw [if_pos hi]
      have hbefore := hplace i hi
      omega
    · rw [if_neg hi]
      omega

/-- A machine among others does what it does alone on the items that it takes itself, and its own
part of the record is what it appends alone. -/
theorem alone_on_part (hm : Looks m) (f : ℕ → α) (b : β) (as : List (Action ε μ)) :
    ∃ index : ℕ → ℕ, StrictMono index ∧
      let alone := run (turn m (f ∘ index)) ⟨b, 0, []⟩ (ownEvents as)
      let shared := run (act m f) ⟨b, 0, []⟩ as
      alone.state = shared.state ∧ alone.out.Sublist shared.out ∧
        ∀ i < alone.taken, index i < shared.taken := by
  induction as using List.reverseRecOn with
  | nil => exact ⟨id, strictMono_id, rfl, .slnil, fun i hi => absurd hi (Nat.not_lt_zero i)⟩
  | append_singleton as a ih =>
      obtain ⟨index, hindex, hstate, hout, hplace⟩ := ih
      set shared := run (act m f) ⟨b, 0, []⟩ as with hshared
      rw [own_events_append, run_append, ← hshared]
      cases a with
      | others taken out =>
          refine ⟨index, hindex, ?_⟩
          rw [show ownEvents [Action.others taken out] = ([] : List ε) from rfl, List.append_nil]
          refine ⟨hstate, hout.trans (List.sublist_append_left _ _), ?_⟩
          intro i hi
          exact Nat.lt_of_lt_of_le (hplace i hi) (Nat.le_add_right _ _)
      | own e =>
          -- what has been taken stays, and from here on the items are those that follow
          set alone := run (turn m (f ∘ index)) ⟨b, 0, []⟩ (ownEvents as) with halone
          let next := goOn index alone.taken shared.taken
          have hold : run (turn m (f ∘ next)) ⟨b, 0, []⟩ (ownEvents as) = alone := by
            refine run_same_items hm _ fun i hi => ?_
            exact congrArg f (if_pos hi)
          have hnew : ∀ i, (f ∘ next) (alone.taken + i) = f (shared.taken + i) := by
            intro i
            have hplace : next (alone.taken + i) = shared.taken + i := by
              rw [show next (alone.taken + i) = goOn index alone.taken shared.taken _ from rfl,
                goOn, if_neg (by omega), Nat.add_sub_cancel_left]
            exact congrArg f hplace
          refine ⟨next, go_on_strict_mono hindex hplace, ?_⟩
          rw [show ownEvents [Action.own (μ := μ) e] = [e] from rfl, run_append, hold]
          have hturn := turn_elsewhere hm (e := e) hstate fun i _ => hnew i
          rw [run_cons, run_nil, hturn]
          refine ⟨rfl, hout.append (List.Sublist.refl _), ?_⟩
          intro i hi
          rw [show next i = goOn index alone.taken shared.taken i from rfl, goOn]
          split
          · exact Nat.lt_of_lt_of_le (hplace i ‹_›) (Nat.le_add_right _ _)
          · show _ < shared.taken + _
            have hbound : i < alone.taken + _ := hi
            omega

end LinkFPGA.SharedStream
