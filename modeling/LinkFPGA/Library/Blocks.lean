import Mathlib.Data.List.Basic
import Mathlib.Data.List.TakeDrop

/-!
# Cutting a stream into blocks

A stream cut into blocks of one size, with less than a block left over: the blocks are the longest
multiple of the block size at the start of the stream. The segments of a message are blocks of
different sizes: `segment_at` finds one of them again by the lengths of those before it.
-/

namespace LinkFPGA.Blocks

variable {α : Type*}

/-- The stream is these blocks of `size` elements and a rest that is shorter. -/
structure Cut (size : Nat) (stream : List α) (blocks : List (List α)) (rest : List α) : Prop where
  join : blocks.flatten ++ rest = stream
  full : ∀ b ∈ blocks, b.length = size
  short : rest.length < size

variable {size : Nat} {stream rest : List α} {blocks : List (List α)}

theorem cut_nil (hsize : 0 < size) : Cut size ([] : List α) [] [] :=
  ⟨rfl, fun _ h => absurd h List.not_mem_nil, hsize⟩

/-- One more element that does not fill the block. -/
theorem Cut.push (h : Cut size stream blocks rest) {a : α} (hroom : rest.length + 1 < size) :
    Cut size (stream ++ [a]) blocks (rest ++ [a]) where
  join := by rw [← h.join, List.append_assoc]
  full := h.full
  short := by simpa using hroom

/-- One more element that fills the block. -/
theorem Cut.fill (h : Cut size stream blocks rest) {a : α} (hfull : rest.length + 1 = size) :
    Cut size (stream ++ [a]) (blocks ++ [rest ++ [a]]) [] where
  join := by
    rw [← h.join]
    simp
  full := by
    intro b hb
    rcases List.mem_append.mp hb with hold | hnew
    · exact h.full b hold
    · rw [List.mem_singleton.mp hnew]
      simpa using hfull
  short := by
    show 0 < size
    omega

theorem flatten_length (hfull : ∀ b ∈ blocks, b.length = size) :
    blocks.flatten.length = size * blocks.length := by
  induction blocks with
  | nil => rfl
  | cons b blocks ih =>
      have hrest := ih fun b' hb' => hfull b' (List.mem_cons_of_mem _ hb')
      rw [List.flatten_cons, List.length_append, hrest, hfull b List.mem_cons_self,
        List.length_cons, Nat.mul_succ, Nat.add_comm]

/-- There are as many blocks as fit in the stream. -/
theorem Cut.blocks_length (h : Cut size stream blocks rest) :
    blocks.length = stream.length / size := by
  have hlen : stream.length = rest.length + size * blocks.length := by
    rw [← h.join, List.length_append, flatten_length h.full, Nat.add_comm]
  have hpos : 0 < size := Nat.lt_of_le_of_lt (Nat.zero_le _) h.short
  rw [hlen, Nat.add_mul_div_left _ _ hpos, Nat.div_eq_of_lt h.short, Nat.zero_add]

/-- The blocks are the start of the stream. -/
theorem Cut.flatten_eq (h : Cut size stream blocks rest) :
    blocks.flatten = stream.take (size * (stream.length / size)) := by
  rw [← h.blocks_length, ← flatten_length h.full, ← h.join, List.take_left]

/-- A list of lists, flattened around the one at an index. -/
theorem flatten_around {segments : List (List α)} {k : Nat} (hk : k < segments.length) :
    segments.flatten =
      (segments.take k).flatten ++ (segments[k] ++ (segments.drop (k + 1)).flatten) := by
  have hsplit : segments.take k ++ segments[k] :: segments.drop (k + 1) = segments := by
    rw [List.getElem_cons_drop, List.take_append_drop]
  have hflat := congrArg List.flatten hsplit
  rw [List.flatten_append, List.flatten_cons] at hflat
  exact hflat.symm

/-- The block at an index. -/
theorem Cut.block_eq (h : Cut size stream blocks rest) {k : Nat} {b : List α}
    (hb : blocks[k]? = some b) : b = (stream.drop (size * k)).take size := by
  obtain ⟨hk, rfl⟩ := List.getElem?_eq_some_iff.mp hb
  have hbefore : (blocks.take k).flatten.length = size * k := by
    rw [flatten_length fun b' hb' => h.full b' (List.mem_of_mem_take hb'), List.length_take,
      Nat.min_eq_left (Nat.le_of_lt hk)]
  have hone : blocks[k].length = size := h.full _ (List.getElem_mem hk)
  rw [← h.join, flatten_around hk, List.append_assoc, List.append_assoc,
    List.drop_left' hbefore, List.take_left' hone]

/-- The block of a stream at an index, whether the stream is cut there or not. -/
def blockAt (size : Nat) (stream : List α) (k : Nat) : List α := (stream.drop (size * k)).take size

/-- A complete block stays when the stream goes on. -/
theorem block_at_append {k : Nat} (hcomplete : size * (k + 1) ≤ stream.length) (more : List α) :
    blockAt size (stream ++ more) k = blockAt size stream k := by
  have hroom : size ≤ (stream.drop (size * k)).length := by
    rw [List.length_drop]
    rw [Nat.mul_succ] at hcomplete
    omega
  rw [Nat.mul_succ] at hcomplete
  rw [blockAt, blockAt, List.drop_append_of_le_length (by omega),
    List.take_append_of_le_length hroom]

/-- Consecutive blocks are consecutive elements. -/
theorem consecutive_blocks (stream : List α) (k n : Nat) :
    (List.range' k n).flatMap (blockAt size stream) =
      (stream.drop (size * k)).take (size * n) := by
  induction n generalizing k with
  | zero => rfl
  | succ n ih =>
      have hnext : stream.drop (size * (k + 1)) = (stream.drop (size * k)).drop size := by
        rw [List.drop_drop, Nat.mul_succ]
      rw [List.range'_succ, List.flatMap_cons, ih, hnext, Nat.mul_succ, Nat.add_comm (size * n),
        List.take_add]
      rfl

/-- A segment of a message, by the length of what is before it. -/
theorem segment_at {segments : List (List α)} {k off len : Nat} {segment : List α}
    (h : segments[k]? = some segment) (hoff : (segments.take k).flatten.length = off)
    (hlen : segment.length = len) : (segments.flatten.drop off).take len = segment := by
  obtain ⟨hk, rfl⟩ := List.getElem?_eq_some_iff.mp h
  rw [flatten_around hk, List.drop_left' hoff, List.take_left' hlen]

end LinkFPGA.Blocks
