import Mathlib.Order.Lattice
import Mathlib.Logic.Function.Basic
import LinkFPGA.Library.Runs

/-!
# Latest-wins registers

Values carry a key, and a register that has met several values holds one whose key is greatest.
`merge` is the update of such a register. `IsLatest` says what a register may hold after it has
met the values of a list: read `IsLatest.merge` first, which keeps it at every update, and
`IsLatest.unique`, by which two registers that have met the same values, in any order and any
number of times, hold the same one.
-/

namespace LinkFPGA.LatestWins

variable {α κ : Type*} [LinearOrder κ] {key : α → κ}

/-- Keep the held value unless the other one has a greater key. -/
def merge (key : α → κ) (held met : α) : α := if key held < key met then met else held

/-- The value is in the list, and every other one has a smaller key. -/
def IsLatest (key : α → κ) (held : α) (met : List α) : Prop :=
  held ∈ met ∧ ∀ x ∈ met, x = held ∨ key x < key held

/-- A later value replaces the held one. -/
theorem merge_of_lt {held met : α} (h : key held < key met) : merge key held met = met :=
  if_pos h

/-- A value that is not later leaves the held one. -/
theorem merge_of_not_lt {held met : α} (h : ¬ key held < key met) : merge key held met = held :=
  if_neg h

/-- A register keeps its value exactly when it does not meet a greater key. -/
theorem merge_kept_iff {held met : α} : held = merge key held met ↔ key met ≤ key held := by
  constructor
  · intro h
    by_contra hlt
    rw [merge_of_lt (not_le.mp hlt)] at h
    exact hlt (h ▸ le_refl _)
  · intro h
    rw [merge_of_not_lt (not_lt.mpr h)]

theorem isLatest_singleton (held : α) : IsLatest key held [held] :=
  ⟨List.mem_singleton_self held, fun _ hx => .inl (List.mem_singleton.mp hx)⟩

/-- Meeting one more value, with a key of its own, updates the register by `merge`. -/
theorem IsLatest.merge {held : α} {past : List α} (h : IsLatest key held past) {met : α}
    (hties : met = held ∨ key met ≠ key held) :
    IsLatest key (merge key held met) (past ++ [met]) := by
  rcases h with ⟨hmem, hgreatest⟩
  rcases lt_or_ge (key held) (key met) with hlt | hge
  · rw [merge_of_lt hlt]
    refine ⟨List.mem_append_right past (List.mem_singleton_self met), ?_⟩
    intro x hx
    rcases List.mem_append.mp hx with hx | hx
    · rcases hgreatest x hx with rfl | hx
      · exact .inr hlt
      · exact .inr (hx.trans hlt)
    · exact .inl (List.mem_singleton.mp hx)
  · rw [merge_of_not_lt (not_lt.mpr hge)]
    refine ⟨List.mem_append_left _ hmem, ?_⟩
    intro x hx
    rcases List.mem_append.mp hx with hx | hx
    · exact hgreatest x hx
    · rw [List.mem_singleton.mp hx]
      rcases hties with h | h
      · exact .inl h
      · exact .inr (lt_of_le_of_ne hge h)

/-- What a register holds depends only on which values it has met. -/
theorem IsLatest.unique {held held' : α} {met met' : List α} (h : IsLatest key held met)
    (h' : IsLatest key held' met') (hsame : ∀ x, x ∈ met ↔ x ∈ met') : held = held' := by
  rcases h.2 held' ((hsame held').mpr h'.1) with heq | hlt
  · exact heq.symm
  · rcases h'.2 held ((hsame held).mp h.1) with heq | hlt'
    · exact heq
    · exact absurd hlt (not_lt.mpr hlt'.le)

/-! ## A family of registers -/

section Family

open Runs

variable {ι σ ε ν : Type*} [DecidableEq ι]

/-- One event at one member of a family of machines. -/
def actAt (step : σ → ε → σ) (members : ι → σ) (a : ι × ε) : ι → σ :=
  Function.update members a.1 (step (members a.1) a.2)

/-- The value an event brings to the member it happens at. -/
def newsAt (met : σ → ε → ν) (members : ι → σ) (a : ι × ε) : List (ι × ν) :=
  [(a.1, met (members a.1) a.2)]

/-- What the register of a member has met: its value before the run, and what the events of the
run brought to it. -/
def known (step : σ → ε → σ) (met : σ → ε → ν) (register : σ → α) (part : ν → α)
    (members : ι → σ) (as : List (ι × ε)) (i : ι) : List α :=
  register (members i) ::
    ((log (actAt step) (newsAt met) members as).filter (fun n => n.1 = i)).map fun n => part n.2

variable {step : σ → ε → σ} {guard : σ → ε → Prop} {met : σ → ε → ν} {register : σ → α}
  {part : ν → α}

/-- Where every admitted event merges what it brings, each register holds the latest value it
has met. -/
theorem run_isLatest
    (hstep : ∀ s e, guard s e →
      register (step s e) = merge key (register s) (part (met s e)) ∧
        (part (met s e) = register s ∨ key (part (met s e)) ≠ key (register s)))
    {members : ι → σ} {as : List (ι × ε)}
    (h : Guarded (actAt step) (fun members a => guard (members a.1) a.2) members as) (i : ι) :
    IsLatest key (register (run (actAt step) members as i))
      (known step met register part members as i) := by
  let inv (now : ι → σ) (past : List (ι × ν)) : Prop := ∀ i,
    IsLatest key (register (now i))
      (register (members i) :: (past.filter (fun n => n.1 = i)).map fun n => part n.2)
  have hinit : inv members [] := fun i => isLatest_singleton (register (members i))
  refine run_log_induct (motive := inv) ?_ hinit h i
  intro now past a hinv hguard i
  rw [newsAt, List.filter_append, List.map_append, ← List.cons_append]
  by_cases hi : a.1 = i
  · subst hi
    obtain ⟨hmerge, hties⟩ := hstep (now a.1) a.2 hguard
    rw [actAt, Function.update_self, hmerge]
    simpa using (hinv a.1).merge hties
  · rw [actAt, Function.update_of_ne (Ne.symm hi)]
    simpa [hi] using hinv i

/-- Two members that have met the same values hold the same one. -/
theorem run_agree
    (hstep : ∀ s e, guard s e →
      register (step s e) = merge key (register s) (part (met s e)) ∧
        (part (met s e) = register s ∨ key (part (met s e)) ≠ key (register s)))
    {members : ι → σ} {as : List (ι × ε)}
    (h : Guarded (actAt step) (fun members a => guard (members a.1) a.2) members as) {i j : ι}
    (hsame : ∀ x, x ∈ known step met register part members as i ↔
      x ∈ known step met register part members as j) :
    register (run (actAt step) members as i) = register (run (actAt step) members as j) :=
  (run_isLatest hstep h i).unique (run_isLatest hstep h j) hsame

end Family

end LinkFPGA.LatestWins
