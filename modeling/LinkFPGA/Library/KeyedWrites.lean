import Mathlib.Data.List.Perm.Basic
import Mathlib.Data.List.Nodup

/-!
# Writes with keys

Writes that each carry a key and are done one after another. `Keyed` is the assumption on them:
two with different keys commute, and of two with the same key only the later one counts. Then the
order of writes with distinct keys does not matter (`foldl_perm`), and a sequence leaves a state as
it is exactly when the last write of each key does (`foldl_eq_self_iff`).
-/

namespace LinkFPGA.KeyedWrites

variable {σ ε κ : Type*} {key : ε → κ} {write : σ → ε → σ}

/-- Two writes with different keys commute, and a later write undoes an earlier one with the same
key. -/
structure Keyed (key : ε → κ) (write : σ → ε → σ) : Prop where
  comm : ∀ s a b, key a ≠ key b → write (write s a) b = write (write s b) a
  last : ∀ s a b, key a = key b → write (write s a) b = write s b

namespace Keyed

variable (h : Keyed key write)
include h

/-- The order of writes with distinct keys does not matter. -/
theorem foldl_perm {es es' : List ε} (hnodup : (es.map key).Nodup) (hperm : es.Perm es') (s : σ) :
    es.foldl write s = es'.foldl write s := by
  refine hperm.foldl_eq' ?_ s
  intro a ha b hb s
  by_cases hkey : key a = key b
  · rw [List.inj_on_of_nodup_map hnodup ha hb hkey]
  · exact h.comm s a b hkey

/-- A write commutes with writes that all have other keys. -/
theorem foldl_write {e : ε} {es : List ε} (hother : key e ∉ es.map key) (s : σ) :
    es.foldl write (write s e) = write (es.foldl write s) e := by
  induction es generalizing s with
  | nil => rfl
  | cons b es ih =>
      rw [List.map_cons, List.mem_cons, not_or] at hother
      rw [List.foldl_cons, List.foldl_cons, h.comm s e b hother.1, ih hother.2]

/-- A write that a later one undoes does not count. -/
theorem foldl_undone {e : ε} {es : List ε} (hlater : key e ∈ es.map key) (s : σ) :
    es.foldl write (write s e) = es.foldl write s := by
  induction es generalizing s with
  | nil => cases hlater
  | cons b es ih =>
      rw [List.foldl_cons, List.foldl_cons]
      by_cases hb : key e = key b
      · rw [h.last s e b hb]
      · have hrest : key e ∈ es.map key := by
          rw [List.map_cons, List.mem_cons] at hlater
          exact hlater.resolve_left hb
        rw [h.comm s e b hb, ih hrest]

end Keyed

variable [DecidableEq κ]

/-- The last write of each key, in order. -/
def lasts (key : ε → κ) : List ε → List ε
  | [] => []
  | e :: es => if key e ∈ es.map key then lasts key es else e :: lasts key es

namespace Keyed

variable (h : Keyed key write)
include h

/-- A sequence of writes leaves a state as it is exactly when the last write of each key does. -/
theorem foldl_eq_self_iff (es : List ε) (s : σ) :
    es.foldl write s = s ↔ ∀ e ∈ lasts key es, write s e = s := by
  induction es with
  | nil => simp [lasts]
  | cons e es ih =>
      rw [List.foldl_cons, lasts]
      split
      · rename_i hlater
        rw [h.foldl_undone hlater, ih]
      · rename_i hother
        rw [List.forall_mem_cons, ← ih]
        constructor
        · intro hself
          -- done last, the write finds its own value
          have hfixed : write s e = s := by
            rw [h.foldl_write hother] at hself
            calc write s e = write (write (es.foldl write s) e) e := by rw [hself]
              _ = s := by rw [h.last _ e e rfl, hself]
          exact ⟨hfixed, by rwa [hfixed] at hself⟩
        · rintro ⟨hfixed, hself⟩
          rw [hfixed, hself]

end Keyed

end LinkFPGA.KeyedWrites
