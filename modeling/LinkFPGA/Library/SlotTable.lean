import Mathlib.Data.Fintype.Card
import Mathlib.Data.List.Basic
import Mathlib.Logic.Function.Basic

/-!
# Slot tables as finite maps

A slot table is a list of slots of a fixed number, and `key` says which key a slot holds, if any.
`Represents` relates a table to the finite map it stands for: no key is held twice, and the map's
entries are the slots in use. There is one rule for each thing that is done to a table: write a
slot, clear a slot, and go over all slots keeping some and clearing the others. `Filled` is a
sequence of writes, each into the slot of its key or into a free slot, and `Room` says that there
are enough free slots for it.
-/

namespace LinkFPGA.SlotTable

variable {α κ : Type*} {key : α → Option κ} {table : List α} {map : κ → Option α}

/-- No key is held by two slots, and the slots in use are the entries of the map. -/
structure Represents (key : α → Option κ) (table : List α) (map : κ → Option α) : Prop where
  distinct : ∀ {i j : Nat} {a b : α} {k : κ}, table[i]? = some a → table[j]? = some b →
    key a = some k → key b = some k → i = j
  lookup : ∀ {k : κ} {a : α}, map k = some a ↔
    ∃ i : Nat, table[i]? = some a ∧ key a = some k

/-- A table whose slots are all free stands for the empty map. -/
theorem represents_free (h : ∀ a ∈ table, key a = none) :
    Represents key table fun _ => none := by
  have hfree {i : Nat} {a : α} (hi : table[i]? = some a) : key a = none :=
    h a (List.mem_of_getElem? hi)
  constructor
  · intro i j a b k hi _ ha _
    rw [hfree hi] at ha
    cases ha
  · intro k a
    constructor
    · intro hnone
      cases hnone
    · rintro ⟨i, hi, ha⟩
      rw [hfree hi] at ha
      cases ha

/-- The entry of a slot in use. -/
theorem Represents.entry (h : Represents key table map) {i : Nat} {a : α} {k : κ}
    (hi : table[i]? = some a) (ha : key a = some k) : map k = some a :=
  h.lookup.mpr ⟨i, hi, ha⟩

/-- The map has an entry for a key exactly when some slot holds it. -/
theorem Represents.isSome_iff (h : Represents key table map) {k : κ} :
    (map k).isSome ↔ ∃ a ∈ table, key a = some k := by
  rw [Option.isSome_iff_exists]
  constructor
  · rintro ⟨a, ha⟩
    obtain ⟨i, hi, hkey⟩ := h.lookup.mp ha
    exact ⟨a, List.mem_of_getElem? hi, hkey⟩
  · rintro ⟨a, hmem, hkey⟩
    obtain ⟨i, hi⟩ := List.getElem?_of_mem hmem
    exact ⟨a, h.entry hi hkey⟩

/-- A table with more slots than there are keys to hold has a free one. -/
theorem Represents.exists_free (h : Represents key table map) {keys : Finset κ}
    (hkeys : ∀ k, (map k).isSome → k ∈ keys) (hcard : keys.card < table.length) :
    ∃ a ∈ table, key a = none := by
  by_contra hfull
  have hheld : ∀ i : Fin table.length, (key (table.get i)).isSome := by
    intro i
    rw [Option.isSome_iff_ne_none]
    exact fun hnone => hfull ⟨table.get i, List.get_mem table i, hnone⟩
  let held (i : Fin table.length) : κ := (key (table.get i)).get (hheld i)
  have hkey (i : Fin table.length) : key (table.get i) = some (held i) := (Option.some_get _).symm
  have hslot (i : Fin table.length) : table[i.val]? = some (table.get i) :=
    List.getElem?_eq_getElem i.isLt
  have hmem : ∀ i ∈ Finset.univ, held i ∈ keys := fun i _ =>
    hkeys _ (h.isSome_iff.mpr ⟨table.get i, List.get_mem table i, hkey i⟩)
  have hinj : Set.InjOn held (Finset.univ : Finset (Fin table.length)) := by
    intro i _ j _ hij
    exact Fin.ext (h.distinct (hslot i) (hslot j) (hkey i) (hij ▸ hkey j))
  have hle := Finset.card_le_card_of_injOn held hmem hinj
  rw [Finset.card_univ, Fintype.card_fin] at hle
  omega

/-- The entry of a key is found by a search for the key. -/
theorem Represents.find [DecidableEq κ] (h : Represents key table map) (k : κ) :
    table.find? (fun a => key a = some k) = map k := by
  cases hmap : map k with
  | none =>
      rw [List.find?_eq_none]
      intro a ha hkey
      obtain ⟨i, hi⟩ := List.getElem?_of_mem ha
      rw [h.entry hi (of_decide_eq_true hkey)] at hmap
      cases hmap
  | some a =>
      obtain ⟨i, hi, ha⟩ := h.lookup.mp hmap
      cases hfind : table.find? (fun a => key a = some k) with
      | none =>
          exact absurd (decide_eq_true ha) (List.find?_eq_none.mp hfind a (List.mem_of_getElem? hi))
      | some b =>
          have hb : key b = some k := by simpa using List.find?_some hfind
          obtain ⟨j, hj⟩ := List.getElem?_of_mem (List.mem_of_find?_eq_some hfind)
          exact (h.entry hj hb).symm.trans hmap

/-- A slot of the table after one slot was written. -/
theorem getElem?_set_cases {i j : Nat} {a b c : α} (hi : table[i]? = some a)
    (hj : (table.set i b)[j]? = some c) : (j = i ∧ c = b) ∨ (j ≠ i ∧ table[j]? = some c) := by
  have hlt : i < table.length := (List.getElem?_eq_some_iff.mp hi).1
  by_cases hji : j = i
  · subst hji
    rw [List.getElem?_set_self hlt] at hj
    exact .inl ⟨rfl, (Option.some.inj hj).symm⟩
  · rw [List.getElem?_set_ne (Ne.symm hji)] at hj
    exact .inr ⟨hji, hj⟩

/-- The written slot, and another one, in the table after the write. -/
theorem getElem?_set_of {i : Nat} {a b : α} (hi : table[i]? = some a) :
    (table.set i b)[i]? = some b ∧
      ∀ {j : Nat} {c : α}, j ≠ i → table[j]? = some c → (table.set i b)[j]? = some c := by
  have hlt : i < table.length := (List.getElem?_eq_some_iff.mp hi).1
  refine ⟨List.getElem?_set_self hlt, ?_⟩
  intro j c hji hj
  rwa [List.getElem?_set_ne (Ne.symm hji)]

variable [DecidableEq κ]

/-- Writing the slot of a key, or a free slot when the key has none, sets the key's entry. -/
theorem Represents.write (h : Represents key table map) {i : Nat} {a b : α} {k : κ}
    (hi : table[i]? = some a) (hold : key a = some k ∨ key a = none ∧ map k = none)
    (hnew : key b = some k) :
    Represents key (table.set i b) (Function.update map k (some b)) := by
  obtain ⟨hself, hothers⟩ := getElem?_set_of (b := b) hi
  -- no other slot holds the key
  have hother {j : Nat} {c : α} (hji : j ≠ i) (hj : table[j]? = some c) : key c ≠ some k := by
    intro hc
    rcases hold with ha | ⟨_, hnone⟩
    · exact hji (h.distinct hj hi hc ha)
    · rw [h.entry hj hc] at hnone
      cases hnone
  constructor
  · intro j j' c c' k' hj hj' hc hc'
    rcases getElem?_set_cases hi hj with ⟨hji, hcb⟩ | ⟨hji, hkept⟩
    · rcases getElem?_set_cases hi hj' with ⟨hji', _⟩ | ⟨hji', hkept'⟩
      · exact hji.trans hji'.symm
      · rw [hcb, hnew] at hc
        exact absurd (hc'.trans hc.symm) (hother hji' hkept')
    · rcases getElem?_set_cases hi hj' with ⟨_, hcb'⟩ | ⟨_, hkept'⟩
      · rw [hcb', hnew] at hc'
        exact absurd (hc.trans hc'.symm) (hother hji hkept)
      · exact h.distinct hkept hkept' hc hc'
  · intro k' c
    by_cases hk : k' = k
    · subst hk
      rw [Function.update_self, Option.some.injEq]
      constructor
      · rintro rfl
        exact ⟨i, hself, hnew⟩
      · rintro ⟨j, hj, hc⟩
        rcases getElem?_set_cases hi hj with ⟨_, rfl⟩ | ⟨hji, hj⟩
        · rfl
        · exact absurd hc (hother hji hj)
    · rw [Function.update_of_ne hk, h.lookup]
      constructor
      · rintro ⟨j, hj, hc⟩
        refine ⟨j, hothers ?_ hj, hc⟩
        rintro rfl
        rw [hi, Option.some.injEq] at hj
        subst hj
        rcases hold with ha | ⟨ha, _⟩
        · rw [ha, Option.some.injEq] at hc
          exact hk hc.symm
        · rw [ha] at hc
          cases hc
      · rintro ⟨j, hj, hc⟩
        rcases getElem?_set_cases hi hj with ⟨_, rfl⟩ | ⟨_, hj⟩
        · rw [hnew, Option.some.injEq] at hc
          exact absurd hc.symm hk
        · exact ⟨j, hj, hc⟩

/-- Clearing the slot of a key removes the key's entry. -/
theorem Represents.clear (h : Represents key table map) {i : Nat} {a b : α} {k : κ}
    (hi : table[i]? = some a) (hold : key a = some k) (hnew : key b = none) :
    Represents key (table.set i b) (Function.update map k none) := by
  obtain ⟨_, hothers⟩ := getElem?_set_of (b := b) hi
  have hkept {j : Nat} {c : α} {k' : κ} (hj : (table.set i b)[j]? = some c) (hc : key c = some k') :
      j ≠ i ∧ table[j]? = some c := by
    rcases getElem?_set_cases hi hj with ⟨_, rfl⟩ | hother
    · rw [hnew] at hc
      cases hc
    · exact hother
  constructor
  · intro j j' c c' k' hj hj' hc hc'
    exact h.distinct (hkept hj hc).2 (hkept hj' hc').2 hc hc'
  · intro k' c
    by_cases hk : k' = k
    · subst hk
      rw [Function.update_self]
      constructor
      · intro hnone
        cases hnone
      · rintro ⟨j, hj, hc⟩
        obtain ⟨hji, hj⟩ := hkept hj hc
        exact absurd (h.distinct hj hi hc hold) hji
    · rw [Function.update_of_ne hk, h.lookup]
      constructor
      · rintro ⟨j, hj, hc⟩
        refine ⟨j, hothers ?_ hj, hc⟩
        rintro rfl
        rw [hi, Option.some.injEq] at hj
        subst hj
        rw [hold, Option.some.injEq] at hc
        exact hk hc.symm
      · rintro ⟨j, hj, hc⟩
        exact ⟨j, (hkept hj hc).2, hc⟩

omit [DecidableEq κ] in
/-- Going over the slots, keeping the keys of some and clearing the others. -/
theorem Represents.mapSlots (h : Represents key table map) (f : α → α) (keep : α → Bool)
    (hf : ∀ a, key (f a) = if keep a then key a else none) :
    Represents key (table.map f) fun k => ((map k).filter keep).map f := by
  have hslot {j : Nat} {c : α} {k : κ} (hj : (table.map f)[j]? = some c) (hc : key c = some k) :
      ∃ a, table[j]? = some a ∧ f a = c ∧ keep a = true ∧ key a = some k := by
    rw [List.getElem?_map, Option.map_eq_some_iff] at hj
    obtain ⟨a, ha, rfl⟩ := hj
    rw [hf] at hc
    split at hc
    · rename_i hkeep
      exact ⟨a, ha, rfl, hkeep, hc⟩
    · cases hc
  constructor
  · intro j j' c c' k hj hj' hc hc'
    obtain ⟨a, ha, _, _, hk⟩ := hslot hj hc
    obtain ⟨a', ha', _, _, hk'⟩ := hslot hj' hc'
    exact h.distinct ha ha' hk hk'
  · intro k c
    rw [Option.map_eq_some_iff]
    constructor
    · rintro ⟨a, ha, rfl⟩
      obtain ⟨hmap, hkeep⟩ := Option.filter_eq_some_iff.mp ha
      obtain ⟨j, hj, hk⟩ := h.lookup.mp hmap
      refine ⟨j, ?_, ?_⟩
      · rw [List.getElem?_map, hj]
        rfl
      · rw [hf, hkeep]
        exact hk
    · rintro ⟨j, hj, hc⟩
      obtain ⟨a, ha, rfl, hkeep, hk⟩ := hslot hj hc
      exact ⟨a, Option.filter_eq_some_iff.mpr ⟨h.entry ha hk, hkeep⟩, rfl⟩

/-! ## Filling a table -/

/-- Some slot holds the key. -/
def HasKey (key : α → Option κ) (table : List α) (k : κ) : Prop := ∃ a ∈ table, key a = some k

instance (key : α → Option κ) (table : List α) (k : κ) : Decidable (HasKey key table k) :=
  inferInstanceAs (Decidable (∃ a ∈ table, key a = some k))

/-- The number of free slots. -/
def freeSlots (key : α → Option κ) (table : List α) : Nat := table.countP fun a => (key a).isNone

/-- There is a free slot for each of the keys that no slot holds. -/
def Room (key : α → Option κ) (table : List α) (ks : List κ) : Prop :=
  (ks.countP fun k => !decide (HasKey key table k)) ≤ freeSlots key table

instance (key : α → Option κ) (table : List α) (ks : List κ) : Decidable (Room key table ks) :=
  inferInstanceAs (Decidable (_ ≤ _))

/-- The slot a key may be written into: its own, or a free one when it has none. -/
def FitsKey (key : α → Option κ) (table : List α) (k : κ) (a : α) : Prop :=
  key a = some k ∨ key a = none ∧ ¬ HasKey key table k

/-- `b` was written into a slot that fits the key. -/
def Wrote (key : α → Option κ) (k : κ) (b : α) (table table' : List α) : Prop :=
  ∃ (i : Nat) (a : α), table[i]? = some a ∧ FitsKey key table k a ∧ table' = table.set i b

/-- The entries were written one after another. -/
inductive Filled (key : α → Option κ) : List (κ × α) → List α → List α → Prop
  | nil (table : List α) : Filled key [] table table
  | cons {k : κ} {b : α} {writes : List (κ × α)} {table table' table'' : List α}
      (hfirst : Wrote key k b table table') (hrest : Filled key writes table' table'') :
      Filled key ((k, b) :: writes) table table''

omit [DecidableEq κ] in
/-- A write leaves the other keys where they were. -/
theorem Wrote.has_key_iff {k k' : κ} {b : α} {table' : List α} (h : Wrote key k b table table')
    (hnew : key b = some k) (hne : k' ≠ k) : HasKey key table' k' ↔ HasKey key table k' := by
  obtain ⟨i, a, hi, hfits, rfl⟩ := h
  obtain ⟨hself, hothers⟩ := getElem?_set_of (b := b) hi
  constructor
  · rintro ⟨c, hmem, hc⟩
    obtain ⟨j, hj⟩ := List.getElem?_of_mem hmem
    rcases getElem?_set_cases hi hj with ⟨_, rfl⟩ | ⟨_, hkept⟩
    · exact absurd (Option.some.inj (hc.symm.trans hnew)) hne
    · exact ⟨c, List.mem_of_getElem? hkept, hc⟩
  · rintro ⟨c, hmem, hc⟩
    obtain ⟨j, hj⟩ := List.getElem?_of_mem hmem
    refine ⟨c, List.mem_of_getElem? (hothers ?_ hj), hc⟩
    -- the written slot held no other key
    rintro rfl
    obtain rfl := Option.some.inj (hi.symm.trans hj)
    rcases hfits with hk | ⟨hnone, _⟩
    · exact hne (Option.some.inj (hc.symm.trans hk))
    · rw [hnone] at hc
      cases hc

/-- Writing the slot of a key keeps what the table stands for, but for the key. -/
theorem Represents.wrote (h : Represents key table map) {k : κ} {b : α} {table' : List α}
    (hwrote : Wrote key k b table table') (hnew : key b = some k) :
    Represents key table' (Function.update map k (some b)) := by
  obtain ⟨i, a, hi, hfits, rfl⟩ := hwrote
  refine h.write hi (hfits.imp_right fun ⟨hnone, hheld⟩ => ⟨hnone, ?_⟩) hnew
  rw [← Option.not_isSome_iff_eq_none, h.isSome_iff]
  exact hheld

/-- Where there is room for some keys there is a slot for the first of them. -/
theorem Room.slot {k : κ} {ks : List κ} (h : Room key table (k :: ks)) :
    HasKey key table k ∨ ∃ a ∈ table, key a = none := by
  by_cases hheld : HasKey key table k
  · exact .inl hheld
  · unfold Room freeSlots at h
    rw [List.countP_cons_of_pos (by simpa using hheld)] at h
    obtain ⟨a, hmem, hnone⟩ := List.countP_pos_iff.mp (Nat.lt_of_lt_of_le (Nat.succ_pos _) h)
    exact .inr ⟨a, hmem, Option.isNone_iff_eq_none.mp hnone⟩

/-- Once the first key is written there is room for the others. -/
theorem Room.tail {k : κ} {ks : List κ} {b : α} {table' : List α}
    (h : Room key table (k :: ks)) (hmem : k ∉ ks) (hwrote : Wrote key k b table table')
    (hnew : key b = some k) : Room key table' ks := by
  have hsame : (ks.countP fun k' => !decide (HasKey key table' k')) =
      ks.countP fun k' => !decide (HasKey key table k') := by
    refine List.countP_congr fun k' hk' => ?_
    have hne : k' ≠ k := fun heq => hmem (heq ▸ hk')
    simp [hwrote.has_key_iff hnew hne]
  obtain ⟨i, a, hi, hfits, rfl⟩ := hwrote
  obtain ⟨hlt, rfl⟩ := List.getElem?_eq_some_iff.mp hi
  unfold Room freeSlots at h ⊢
  rw [hsame, List.countP_set hlt, hnew]
  have hpos : (key table[i]).isNone = true → 0 < table.countP fun a => (key a).isNone :=
    fun hnone => List.countP_pos_iff.mpr ⟨_, List.getElem_mem hlt, hnone⟩
  rcases hfits with hk | ⟨hnone, hheld⟩
  · rw [List.countP_cons_of_neg (by simpa using ⟨_, List.getElem_mem hlt, hk⟩)] at h
    simpa [hk] using h
  · rw [List.countP_cons_of_pos (by simpa using hheld)] at h
    simp only [hnone, Option.isNone_none, if_true, Option.isNone_some, Bool.false_eq_true,
      if_false]
    omega

/-- The keys of the writes are those of the entries written, each written once. -/
structure Writes (key : α → Option κ) (writes : List (κ × α)) : Prop where
  keyed : ∀ w ∈ writes, key w.2 = some w.1
  nodup : (writes.map Prod.fst).Nodup

omit [DecidableEq κ] in
theorem Writes.tail {w : κ × α} {writes : List (κ × α)} (h : Writes key (w :: writes)) :
    Writes key writes :=
  ⟨fun v hv => h.keyed v (List.mem_cons_of_mem _ hv), (List.nodup_cons.mp h.nodup).2⟩

omit [DecidableEq κ] in
/-- Every slot is as it was, or holds one of the entries written, in a slot that fitted it. -/
theorem Filled.slots {writes : List (κ × α)} {table table' : List α}
    (h : Filled key writes table table') (hwrites : Writes key writes) (j : Nat) :
    table'[j]? = table[j]? ∨ ∃ w ∈ writes, ∃ a, table[j]? = some a ∧ FitsKey key table w.1 a ∧
      table'[j]? = some w.2 := by
  induction h with
  | nil table => exact .inl rfl
  | @cons k b writes table mid table' hfirst hrest ih =>
      have hnew : key b = some k := hwrites.keyed (k, b) List.mem_cons_self
      have hfresh (w : κ × α) (hw : w ∈ writes) : w.1 ≠ k := fun heq =>
        (List.nodup_cons.mp hwrites.nodup).1 (List.mem_map.mpr ⟨w, hw, heq⟩)
      have hheld := fun w hw => hfirst.has_key_iff hnew (hfresh w hw)
      obtain ⟨i, a, hi, hfits, rfl⟩ := hfirst
      obtain ⟨hself, _⟩ := getElem?_set_of (b := b) hi
      have hmid : j ≠ i → (table.set i b)[j]? = table[j]? :=
        fun hji => List.getElem?_set_ne (Ne.symm hji)
      rcases ih hwrites.tail with hsame | ⟨w, hw, c, hc, hfit, hput⟩
      · by_cases hji : j = i
        · subst hji
          exact .inr ⟨(k, b), List.mem_cons_self, a, hi, hfits, hsame.trans hself⟩
        · exact .inl (hsame.trans (hmid hji))
      · refine .inr ⟨w, List.mem_cons_of_mem _ hw, c, ?_, ?_, hput⟩
        · by_cases hji : j = i
          · -- a later write does not fit the slot just written
            subst hji
            obtain rfl := Option.some.inj (hself.symm.trans hc)
            rcases hfit with hk | ⟨hnone, _⟩
            · exact absurd (Option.some.inj (hnew.symm.trans hk)).symm (hfresh w hw)
            · rw [hnew] at hnone
              cases hnone
          · exact (hmid hji).symm.trans hc
        · exact hfit.imp_right fun ⟨hnone, hunheld⟩ =>
            ⟨hnone, fun hwas => hunheld ((hheld w hw).mpr hwas)⟩

omit [DecidableEq κ] in
/-- Every entry written is in the table. -/
theorem Filled.present {writes : List (κ × α)} {table table' : List α}
    (h : Filled key writes table table') (hwrites : Writes key writes) {w : κ × α}
    (hw : w ∈ writes) : ∃ j : Nat, table'[j]? = some w.2 := by
  induction h with
  | nil table => cases hw
  | @cons k b writes table mid table' hfirst hrest ih =>
      rcases List.mem_cons.mp hw with rfl | hlater
      · have hnew : key b = some k := hwrites.keyed (k, b) List.mem_cons_self
        obtain ⟨i, a, hi, _, rfl⟩ := hfirst
        obtain ⟨hself, _⟩ := getElem?_set_of (b := b) hi
        rcases hrest.slots hwrites.tail i with hsame | ⟨w, hw, c, hc, hfit, _⟩
        · exact ⟨i, hsame.trans hself⟩
        · obtain rfl := Option.some.inj (hself.symm.trans hc)
          rcases hfit with hk | ⟨hnone, _⟩
          · have hsame : w.1 = k := (Option.some.inj (hnew.symm.trans hk)).symm
            have hmem : k ∈ writes.map Prod.fst := List.mem_map.mpr ⟨w, hw, hsame⟩
            exact absurd hmem (List.nodup_cons.mp hwrites.nodup).1
          · rw [hnew] at hnone
            cases hnone
      · exact ih hwrites.tail hlater

/-- A filled table holds no key twice if it did not before. -/
theorem Filled.represents {writes : List (κ × α)} {table table' : List α}
    (h : Filled key writes table table') (hwrites : Writes key writes)
    (hmap : ∃ map, Represents key table map) : ∃ map, Represents key table' map := by
  induction h with
  | nil table => exact hmap
  | cons hfirst _ ih =>
      obtain ⟨map, hmap⟩ := hmap
      exact ih hwrites.tail ⟨_, hmap.wrote hfirst (hwrites.keyed _ List.mem_cons_self)⟩

end LinkFPGA.SlotTable
