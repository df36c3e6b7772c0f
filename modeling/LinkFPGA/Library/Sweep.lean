import Mathlib.Data.List.Nodup

/-!
# Sweeps over the components of a state

A sweep is a fold over distinct indices in which the action at an index touches its own component
only, as long as an invariant holds. What a view of one component sees of the sweep is the action
at that component, once.
-/

namespace LinkFPGA.Sweep

variable {ι σ α : Type*} {view : σ → α} {act : σ → ι → σ} {Inv : σ → Prop} {i : ι} {f : α → α}
  {l : List ι}

/-- The invariant holds after a sweep. -/
theorem inv_sweep (hinv : ∀ j ∈ l, ∀ s, Inv s → Inv (act s j)) {s : σ} (hs : Inv s) :
    Inv (l.foldl act s) := by
  induction l generalizing s with
  | nil => exact hs
  | cons j l ih =>
      exact ih (fun k hk => hinv k (List.mem_cons_of_mem _ hk)) (hinv j List.mem_cons_self s hs)

/-- A sweep that does not come to the component leaves it alone. -/
theorem view_sweep_of_not_mem (hinv : ∀ j ∈ l, ∀ s, Inv s → Inv (act s j))
    (hother : ∀ j ∈ l, ∀ s, Inv s → j ≠ i → view (act s j) = view s) (hmem : i ∉ l) {s : σ}
    (hs : Inv s) : view (l.foldl act s) = view s := by
  induction l generalizing s with
  | nil => rfl
  | cons j l ih =>
      rw [List.mem_cons, not_or] at hmem
      have hrest := ih (fun k hk => hinv k (List.mem_cons_of_mem _ hk))
        (fun k hk => hother k (List.mem_cons_of_mem _ hk)) hmem.2
        (hinv j List.mem_cons_self s hs)
      rw [List.foldl_cons, hrest, hother j List.mem_cons_self s hs (Ne.symm hmem.1)]

/-- A sweep over distinct indices acts on each component it comes to once. -/
theorem view_sweep (hinv : ∀ j ∈ l, ∀ s, Inv s → Inv (act s j))
    (hother : ∀ j ∈ l, ∀ s, Inv s → j ≠ i → view (act s j) = view s)
    (hself : ∀ s, Inv s → view (act s i) = f (view s)) (hnodup : l.Nodup) (hmem : i ∈ l) {s : σ}
    (hs : Inv s) : view (l.foldl act s) = f (view s) := by
  induction l generalizing s with
  | nil => cases hmem
  | cons j l ih =>
      have hnotin : j ∉ l := (List.nodup_cons.mp hnodup).1
      have hnext := hinv j List.mem_cons_self s hs
      have hinv' : ∀ k ∈ l, ∀ s, Inv s → Inv (act s k) := fun k hk =>
        hinv k (List.mem_cons_of_mem _ hk)
      have hother' : ∀ k ∈ l, ∀ s, Inv s → k ≠ i → view (act s k) = view s := fun k hk =>
        hother k (List.mem_cons_of_mem _ hk)
      rw [List.foldl_cons]
      by_cases hji : j = i
      · subst hji
        rw [view_sweep_of_not_mem hinv' hother' hnotin hnext, hself s hs]
      · have hrest : i ∈ l := (List.mem_cons.mp hmem).resolve_left (Ne.symm hji)
        rw [ih hinv' hother' (List.nodup_cons.mp hnodup).2 hrest hnext,
          hother j List.mem_cons_self s hs hji]

end LinkFPGA.Sweep
