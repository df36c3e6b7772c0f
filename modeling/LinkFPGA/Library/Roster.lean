import Mathlib.Data.List.Nodup

/-!
# Rosters

A roster is a list of entries with distinct keys and a greatest length, in the order in which the
entries joined. `join` appends an entry whose key is new while there is room, `leave` removes the
entry of a key. Both keep `Valid`; `mem_keys_join` and `mem_keys_leave` say which keys are there
afterwards.
-/

namespace LinkFPGA.Roster

variable {α κ : Type*} [DecidableEq κ] (key : α → κ) (cap : ℕ)

/-- Append an entry, unless its key is there already or there is no room. -/
def join (entries : List α) (a : α) : List α :=
  if key a ∈ entries.map key then entries
  else if entries.length < cap then entries ++ [a] else entries

/-- Remove the entry of a key, if there is one. -/
def leave (entries : List α) (k : κ) : List α := entries.eraseP fun a ↦ key a = k

/-- No key is there twice, and the entries fit. -/
structure Valid (entries : List α) : Prop where
  nodup : (entries.map key).Nodup
  fits : entries.length ≤ cap

variable {key cap} {entries : List α}

omit [DecidableEq κ] in
theorem valid_nil : Valid key cap [] := ⟨List.nodup_nil, Nat.zero_le cap⟩

theorem Valid.join (h : Valid key cap entries) (a : α) :
    Valid key cap (join key cap entries a) := by
  unfold Roster.join
  split
  · exact h
  · rename_i hnew
    split
    · rename_i hroom
      refine ⟨?_, ?_⟩
      · rw [List.map_append, List.map_singleton, List.nodup_append]
        refine ⟨h.nodup, List.nodup_singleton _, fun k hk k' hk' hsame ↦ hnew ?_⟩
        rwa [← List.mem_singleton.mp hk', ← hsame]
      · rw [List.length_append, List.length_singleton]
        exact hroom
    · exact h

theorem Valid.leave (h : Valid key cap entries) (k : κ) : Valid key cap (leave key entries k) :=
  ⟨h.nodup.sublist (List.eraseP_sublist.map key),
    Nat.le_trans List.eraseP_sublist.length_le h.fits⟩

/-- A key is on the roster after an entry joined if it was before, or is the entry's and there was
room. -/
theorem mem_keys_join (a : α) (k : κ) :
    k ∈ (join key cap entries a).map key ↔
      k ∈ entries.map key ∨ k = key a ∧ entries.length < cap := by
  unfold join
  split
  · rename_i hthere
    exact ⟨.inl, fun h ↦ h.elim id fun h ↦ h.1 ▸ hthere⟩
  · split
    · rename_i hroom
      rw [List.map_append, List.mem_append, List.map_singleton, List.mem_singleton]
      exact or_congr_right ⟨fun h ↦ ⟨h, hroom⟩, fun h ↦ h.1⟩
    · rename_i hfull
      exact ⟨.inl, fun h ↦ h.elim id fun h ↦ absurd h.2 hfull⟩

/-- Only the key that leaves goes. -/
theorem mem_keys_leave (h : Valid key cap entries) (k k' : κ) :
    k' ∈ (leave key entries k).map key ↔ k' ∈ entries.map key ∧ k' ≠ k := by
  have hkeys : (leave key entries k).map key = (entries.map key).erase k := by
    rw [List.erase_eq_eraseP', List.eraseP_map]
    rfl
  rw [hkeys, h.nodup.mem_erase_iff]
  exact and_comm

/-- The entry of a key, removed by its index. -/
theorem leave_eq_eraseIdx (k : κ) :
    leave key entries k = match entries.findIdx? (fun a ↦ key a = k) with
      | none => entries
      | some i => entries.eraseIdx i :=
  List.eraseP_eq_eraseIdx

end LinkFPGA.Roster
