import LinkFPGA.Firmware.Main
import LinkFPGA.Proofs.AudioFrames

/-!
# The walk over the body of an AudioBuffer

`handle_audio_buffer` compares `chunk_count * 26`, a 32-bit product, with what is left of the
body, and then trusts the number of chunks. `audio_walk_safe_iff` says when the walk stays inside
the body: exactly when the product does not wrap to a value that passes the comparison.

Read `chunk_loop_cursor` and `parse_late` first: they say where the cursor is after the chunk loop
and what is read behind it.
-/

namespace LinkFPGA

/-! ## The chunk loop -/

/-- `numFrames` of the chunk at an index, for a chunk list at `p`. -/
def framesAt (mem : UInt32 → UInt8) (p : UInt32) (i : Nat) : UInt16 :=
  be16 (bytesAt mem (p + .ofNat (26 * i) + 8) 2)

/-- The sum of `numFrames` over the first chunks, not reduced modulo 2^16. -/
def frameSum (mem : UInt32 → UInt8) (p : UInt32) (k : Nat) : Nat :=
  ((List.range k).map fun i => (framesAt mem p i).toNat).sum

/-- The cursor after `k` iterations of the chunk loop. -/
structure AfterChunks (mem : UInt32 → UInt8) (c : BodyCursor) (k : Nat)
    (s : BodyCursor × UInt16) : Prop where
  p : s.1.p = c.p + .ofNat (26 * k)
  n : s.1.n = c.n - .ofNat (26 * k)
  reads : ∀ o, o ∈ s.1.reads ↔ o ∈ c.reads ∨
    ∃ i < k, o = c.p + .ofNat (26 * i) + 8 ∨ o = c.p + .ofNat (26 * i) + 8 + 1
  underflow : s.1.underflow = true ↔ c.underflow = true ∨
    ∃ i < k, (c.n - .ofNat (26 * i)).toNat < 26
  chunks : s.1.chunks = c.chunks + k
  frames : s.2 = .ofNat (frameSum mem c.p k)

theorem chunk_loop_cursor (mem : UInt32 → UInt8) (c : BodyCursor) (k : Nat) :
    AfterChunks mem c k ((chunkStep mem)^[k] (c, 0)) := by
  induction k with
  | zero =>
      refine ⟨by simp, by simp, by simp, by simp, rfl, rfl⟩
  | succ k ih =>
      rw [Function.iterate_succ_apply']
      generalize (chunkStep mem)^[k] (c, 0) = s at ih
      have hnext : 26 * (k + 1) = 26 * k + 26 := rfl
      refine ⟨?_, ?_, ?_, ?_, ?_, ?_⟩
      · show s.1.p + 8 + 2 + 8 + 8 = _
        rw [ih.p, hnext, UInt32.ofNat_add]
        grind
      · show s.1.n - 26 = _
        rw [ih.n, hnext, UInt32.ofNat_add]
        grind
      · intro o
        show o ∈ s.1.reads ++ (List.range 2).map (fun i => s.1.p + 8 + .ofNat i) ↔ _
        have hpair : (List.range 2).map (fun i => s.1.p + 8 + UInt32.ofNat i) =
            [s.1.p + 8, s.1.p + 8 + 1] := by
          show [s.1.p + 8 + 0, s.1.p + 8 + 1] = _
          rw [UInt32.add_zero]
        rw [hpair, List.mem_append, ih.reads, or_assoc, Nat.exists_lt_succ_right, ih.p]
        simp
      · show (s.1.underflow || decide (s.1.n < 26)) = true ↔ _
        rw [Bool.or_eq_true, decide_eq_true_eq, ih.underflow, or_assoc, ih.n,
          UInt32.lt_iff_toNat_lt, Nat.exists_lt_succ_right]
        rfl
      · show s.1.chunks + 1 = _
        rw [ih.chunks]
        omega
      · show s.2 + be16 (bytesAt mem (s.1.p + 8) 2) = _
        have hsum : frameSum mem c.p (k + 1) =
            frameSum mem c.p k + (framesAt mem c.p k).toNat := by
          rw [frameSum, List.range_succ, List.map_append, List.sum_append]
          simp [frameSum]
        rw [ih.frames, ih.p, hsum, UInt16.ofNat_add, UInt16.ofNat_toNat]
        rfl

/-! ## The checks before and behind the loop -/

/-- The cursor behind the channel id, the session id and `chunk_count`. -/
def headerCursor (n : UInt32) : BodyCursor := (((BodyCursor.start n).fetch 8).fetch 8).fetch 4

/-- `chunk_count`. -/
def chunkCountAt (mem : UInt32 → UInt8) : UInt32 := be32 (bytesAt mem 16 4)

/-- The body passes the checks before the chunk loop. -/
structure Chunked (mem : UInt32 → UInt8) (n : UInt32) : Prop where
  long : 54 ≤ n
  some : chunkCountAt mem ≠ 0
  fits : chunkCountAt mem * 26 ≤ n - 20

instance (mem : UInt32 → UInt8) (n : UInt32) : Decidable (Chunked mem n) :=
  decidable_of_iff (54 ≤ n ∧ chunkCountAt mem ≠ 0 ∧ chunkCountAt mem * 26 ≤ n - 20)
    ⟨fun ⟨l, s, f⟩ => ⟨l, s, f⟩, fun ⟨l, s, f⟩ => ⟨l, s, f⟩⟩

/-- The cursor and `total_frames` after the chunk loop. -/
def chunksEnd (mem : UInt32 → UInt8) (n : UInt32) : BodyCursor × UInt16 :=
  (chunkStep mem)^[(chunkCountAt mem).toNat] (headerCursor n, 0)

/-- The cursor behind `numBytes`, for a cursor behind the chunks. -/
def samplesCursor (c : BodyCursor) : BodyCursor :=
  ((((c.fetch 1).skip 4).consume 4).fetch 1).fetch 2

def codecAt (mem : UInt32 → UInt8) (p : UInt32) : UInt8 := mem p
def numChanAt (mem : UInt32 → UInt8) (p : UInt32) : UInt8 := mem (p + 5)
def numBytesAt (mem : UInt32 → UInt8) (p : UInt32) : UInt16 := be16 (bytesAt mem (p + 6) 2)

/-- The checks behind the chunk loop, for the cursor and `total_frames` after it. -/
structure Passes (mem : UInt32 → UInt8) (s : BodyCursor × UInt16) : Prop where
  codec : codecAt mem s.1.p = 1
  numChan : numChanAt mem s.1.p ≠ 0
  frames : s.2.toUInt32 * (numChanAt mem s.1.p).toUInt32 * 2 = (numBytesAt mem s.1.p).toUInt32
  bytes : (numBytesAt mem s.1.p).toUInt32 ≤ (samplesCursor s.1).n

instance (mem : UInt32 → UInt8) (s : BodyCursor × UInt16) : Decidable (Passes mem s) :=
  decidable_of_iff (codecAt mem s.1.p = 1 ∧ numChanAt mem s.1.p ≠ 0 ∧
      s.2.toUInt32 * (numChanAt mem s.1.p).toUInt32 * 2 = (numBytesAt mem s.1.p).toUInt32 ∧
      (numBytesAt mem s.1.p).toUInt32 ≤ (samplesCursor s.1).n)
    ⟨fun ⟨c, n, f, b⟩ => ⟨c, n, f, b⟩, fun ⟨c, n, f, b⟩ => ⟨c, n, f, b⟩⟩

/-- What an accepted body describes. -/
def infoAt (mem : UInt32 → UInt8) (s : BodyCursor × UInt16) : AudioBufferInfo :=
  ⟨.ofBytes (bytesAt mem 0 8), .ofBytes (bytesAt mem 8 8), s.2, numChanAt mem s.1.p⟩

/-- A body that fails a check before the loop. -/
theorem parse_early {mem : UInt32 → UInt8} {n : UInt32} (h : ¬ Chunked mem n) :
    parseAudioBuffer mem n = (.start n, none) ∨
      54 ≤ n ∧ parseAudioBuffer mem n = (headerCursor n, none) := by
  unfold parseAudioBuffer
  dsimp only
  by_cases hlong : n < 8 + 8 + 4 + 26 + 1 + 4 + 1 + 2
  · exact .inl (if_pos hlong)
  · right
    have hlong' : 54 ≤ n := UInt32.not_lt.mp hlong
    have hstop : chunkCountAt mem = 0 ∨ n - 20 < chunkCountAt mem * 26 := by
      by_cases hzero : chunkCountAt mem = 0
      · exact .inl hzero
      · exact .inr (UInt32.not_le.mp fun hfits => h ⟨hlong', hzero, hfits⟩)
    have hn : (headerCursor n).n = n - 20 := by
      show n - 8 - 8 - 4 = _
      grind
    rw [← hn] at hstop
    rw [if_neg hlong]
    exact ⟨hlong', if_pos hstop⟩

/-- The checks behind the loop. -/
theorem check_samples_eq (mem : UInt32 → UInt8) (channelId sessionId : LinkId)
    (s : BodyCursor × UInt16) :
    checkSamples mem channelId sessionId s =
      if s.1.n < 8 then (s.1, none)
      else (samplesCursor s.1, if Passes mem s then
        some ⟨channelId, sessionId, s.2, numChanAt mem s.1.p⟩ else none) := by
  have hchan : mem (((s.1.fetch 1).skip 4).consume 4).p = numChanAt mem s.1.p := by
    show mem (s.1.p + 1 + 4) = _
    rw [UInt32.add_assoc]
    rfl
  have hbytes : be16 (bytesAt mem ((((s.1.fetch 1).skip 4).consume 4).fetch 1).p 2) =
      numBytesAt mem s.1.p := by
    show be16 (bytesAt mem (s.1.p + 1 + 4 + 1) 2) = _
    rw [UInt32.add_assoc, UInt32.add_assoc]
    rfl
  unfold checkSamples
  dsimp only
  rw [hchan, hbytes]
  show (if s.1.n < 8 then (s.1, none) else _) = _
  congr 1
  by_cases hpass : Passes mem s
  · have hcodec : ¬ mem s.1.p ≠ 1 := not_not.mpr hpass.codec
    have hroom := UInt32.not_lt.mpr hpass.bytes
    unfold samplesCursor at hroom
    rw [if_neg hcodec, if_neg hpass.numChan, if_neg (not_not.mpr hpass.frames), if_neg hroom,
      if_pos hpass]
    rfl
  · rw [if_neg hpass]
    split
    · rfl
    · rename_i hcodec
      split
      · rfl
      · rename_i hnumChan
        split
        · rfl
        · rename_i hframes
          split
          · rfl
          · rename_i hroom
            exact absurd ⟨not_not.mp hcodec, hnumChan, not_not.mp hframes,
              UInt32.not_lt.mp hroom⟩ hpass

/-- A body that passes the checks before the loop. -/
theorem parse_late {mem : UInt32 → UInt8} {n : UInt32} (h : Chunked mem n) :
    parseAudioBuffer mem n =
      if (chunksEnd mem n).1.n < 8 then ((chunksEnd mem n).1, none)
      else (samplesCursor (chunksEnd mem n).1,
        if Passes mem (chunksEnd mem n) then some (infoAt mem (chunksEnd mem n)) else none) := by
  have hlong : ¬ n < 8 + 8 + 4 + 26 + 1 + 4 + 1 + 2 := UInt32.not_lt.mpr h.long
  have hn : (headerCursor n).n = n - 20 := by
    show n - 8 - 8 - 4 = _
    grind
  have hgo : ¬ (chunkCountAt mem = 0 ∨ (headerCursor n).n < chunkCountAt mem * 26) := by
    rw [hn]
    exact not_or.mpr ⟨h.some, UInt32.not_lt.mpr h.fits⟩
  unfold parseAudioBuffer
  dsimp only
  rw [if_neg hlong]
  exact (if_neg hgo).trans (check_samples_eq ..)

/-! ## Whether the walk stays inside the body -/

/-- Every read is inside the body, no subtraction from `n` has wrapped, and the chunk loop ran at
most `n / 26` times. -/
structure SafeCursor (n : UInt32) (c : BodyCursor) : Prop where
  inside : ∀ o ∈ c.reads, o < n
  remainder : c.underflow = false
  bounded : c.chunks ≤ n.toNat / 26

/-- `chunk_count * 26` wraps to a value that passes the comparison with the remainder. -/
def ProductWraps (mem : UInt32 → UInt8) (n : UInt32) : Prop :=
  54 ≤ n ∧ 2 ^ 32 ≤ 26 * (chunkCountAt mem).toNat ∧
    26 * (chunkCountAt mem).toNat % 2 ^ 32 ≤ n.toNat - 20

theorem header_reads (n : UInt32) :
    (headerCursor n).reads = (List.range 20).map fun i => 0 + .ofNat i := rfl

theorem header_rest {n : UInt32} (h : 54 ≤ n.toNat) : (headerCursor n).n.toNat = n.toNat - 20 := by
  have hn : (headerCursor n).n = n - 20 := by
    show n - 8 - 8 - 4 = _
    grind
  rw [hn]
  exact size_sub (k := 20) (by omega)

theorem header_underflow {n : UInt32} (h : 54 ≤ n.toNat) : (headerCursor n).underflow = false := by
  have hsize := n.toNat_lt
  have hfirst : ¬ n < 8 := by
    rw [UInt32.lt_iff_toNat_lt]
    show ¬ n.toNat < 8
    omega
  have hsecond : ¬ n - 8 < 8 := by
    rw [UInt32.lt_iff_toNat_lt, UInt32.toNat_sub]
    show ¬ (2 ^ 32 - 8 + n.toNat) % 2 ^ 32 < 8
    omega
  have hthird : ¬ n - 8 - 8 < 4 := by
    rw [UInt32.lt_iff_toNat_lt, UInt32.toNat_sub, UInt32.toNat_sub]
    show ¬ (2 ^ 32 - 8 + (2 ^ 32 - 8 + n.toNat) % 2 ^ 32) % 2 ^ 32 < 4
    omega
  show (((false || decide (n < 8)) || decide (n - 8 < 8)) || decide (n - 8 - 8 < 4)) = false
  simp [hfirst, hsecond, hthird]

/-- Whatever is read for the header is inside a body of 20 bytes. -/
theorem header_inside {n o : UInt32} (h : 20 ≤ n.toNat) (ho : o ∈ (headerCursor n).reads) :
    o < n := by
  rw [header_reads] at ho
  exact read_inside (by simpa using h) ho

/-- The product as the code computes it. -/
theorem product_toNat (mem : UInt32 → UInt8) :
    (chunkCountAt mem * 26).toNat = 26 * (chunkCountAt mem).toNat % 2 ^ 32 := by
  rw [UInt32.toNat_mul, Nat.mul_comm]
  rfl

/-- Where the product does not wrap, the chunks fit in the body. -/
theorem chunks_fit {mem : UInt32 → UInt8} {n : UInt32} (h : Chunked mem n)
    (hwrap : ¬ ProductWraps mem n) : 20 + 26 * (chunkCountAt mem).toNat ≤ n.toNat := by
  have hlong : 54 ≤ n.toNat := UInt32.le_iff_toNat_le.mp h.long
  have hrest : (n - 20).toNat = n.toNat - 20 := size_sub (k := 20) (by omega)
  have hfits := UInt32.le_iff_toNat_le.mp h.fits
  rw [product_toNat, hrest] at hfits
  have hsmall : 26 * (chunkCountAt mem).toNat < 2 ^ 32 := by
    by_contra hbig
    exact hwrap ⟨h.long, by omega, hfits⟩
  rw [Nat.mod_eq_of_lt hsmall] at hfits
  omega

/-- The cursor behind the chunks, where these fit in the body. -/
structure AtChunksEnd (mem : UInt32 → UInt8) (n : UInt32) (s : BodyCursor × UInt16) : Prop where
  pos : s.1.p.toNat = 20 + 26 * (chunkCountAt mem).toNat
  rest : s.1.n.toNat = n.toNat - (20 + 26 * (chunkCountAt mem).toNat)
  reads : ∀ o ∈ s.1.reads, o < n
  underflow : s.1.underflow = false
  chunks : s.1.chunks = (chunkCountAt mem).toNat

theorem chunks_end {mem : UInt32 → UInt8} {n : UInt32} (h : 54 ≤ n.toNat)
    (hfit : 20 + 26 * (chunkCountAt mem).toNat ≤ n.toNat) :
    AtChunksEnd mem n (chunksEnd mem n) := by
  have hsize := n.toNat_lt
  have hloop := chunk_loop_cursor mem (headerCursor n) (chunkCountAt mem).toNat
  have hn := header_rest h
  have hpos {k : Nat} (hk : 20 + k ≤ n.toNat) :
      ((headerCursor n).p + .ofNat k).toNat = 20 + k := by
    have hp : (headerCursor n).p = .ofNat 20 := rfl
    rw [hp, ← UInt32.ofNat_add]
    exact UInt32.toNat_ofNat_of_lt' (show 20 + k < 2 ^ 32 by omega)
  have hrest {k : Nat} (hk : 20 + k ≤ n.toNat) :
      ((headerCursor n).n - .ofNat k).toNat = n.toNat - (20 + k) := by
    rw [size_sub (by omega), hn]
    omega
  refine ⟨?_, ?_, ?_, ?_, ?_⟩
  · rw [chunksEnd, hloop.p, hpos hfit]
  · rw [chunksEnd, hloop.n, hrest hfit]
  · intro o ho
    rcases (hloop.reads o).mp ho with hheader | ⟨i, hi, hframes⟩
    · exact header_inside (by omega) hheader
    · -- the two bytes of `numFrames` lie inside the chunk
      have hone {k : Nat} (hk : k < 26) : (headerCursor n).p + .ofNat (26 * i + k) < n := by
        rw [UInt32.lt_iff_toNat_lt, hpos (by omega)]
        omega
      rcases hframes with rfl | rfl
      · have hlow := hone (show 8 < 26 by decide)
        rwa [UInt32.ofNat_add, ← UInt32.add_assoc] at hlow
      · have hhigh := hone (show 9 < 26 by decide)
        have hnine : UInt32.ofNat (26 * i + 9) = .ofNat (26 * i) + 8 + 1 := by
          rw [UInt32.ofNat_add, UInt32.add_assoc]
          rfl
        rwa [hnine, ← UInt32.add_assoc, ← UInt32.add_assoc] at hhigh
  · rw [Bool.eq_false_iff]
    intro hunder
    rcases hloop.underflow.mp hunder with hheader | ⟨i, hi, hless⟩
    · rw [header_underflow h] at hheader
      cases hheader
    · rw [hrest (by omega)] at hless
      omega
  · rw [chunksEnd, hloop.chunks]
    exact Nat.zero_add _

/-- The cursor behind `numBytes`, where that much of the body is there. -/
structure AtSamples (mem : UInt32 → UInt8) (n : UInt32) (c : BodyCursor) : Prop where
  fit : 28 + 26 * (chunkCountAt mem).toNat ≤ n.toNat
  pos : c.p.toNat = 28 + 26 * (chunkCountAt mem).toNat
  rest : c.n.toNat = n.toNat - (28 + 26 * (chunkCountAt mem).toNat)
  reads : ∀ o ∈ c.reads, o < n
  underflow : c.underflow = false
  chunks : c.chunks = (chunkCountAt mem).toNat

theorem at_samples {mem : UInt32 → UInt8} {n : UInt32} {s : BodyCursor × UInt16}
    (h : AtChunksEnd mem n s) (hroom : ¬ s.1.n < 8) : AtSamples mem n (samplesCursor s.1) := by
  have hsize := n.toNat_lt
  have hpos := h.pos
  have hrest := h.rest
  have hroom : 8 ≤ s.1.n.toNat := UInt32.le_iff_toNat_le.mp (UInt32.not_lt.mp hroom)
  have hahead {k : Nat} (hk : k ≤ 8) : (s.1.p + .ofNat k).toNat = s.1.p.toNat + k := by
    rw [UInt32.toNat_add, UInt32.toNat_ofNat_of_lt' (show k < 2 ^ 32 by omega)]
    exact Nat.mod_eq_of_lt (show s.1.p.toNat + k < 2 ^ 32 by omega)
  have hleft {k : Nat} (hk : k ≤ 8) : (s.1.n - .ofNat k).toNat = s.1.n.toNat - k :=
    size_sub (by omega)
  refine ⟨by omega, ?_, ?_, ?_, ?_, h.chunks⟩
  · have hp : (samplesCursor s.1).p = s.1.p + .ofNat 8 := by
      show s.1.p + 1 + 4 + 1 + 2 = s.1.p + 8
      grind
    rw [hp, hahead (Nat.le_refl 8), hpos]
    omega
  · have hn : (samplesCursor s.1).n = s.1.n - .ofNat 8 := by
      show s.1.n - 1 - 4 - 1 - 2 = s.1.n - 8
      grind
    rw [hn, hleft (Nat.le_refl 8), hrest]
    omega
  · intro o ho
    have hreads : (samplesCursor s.1).reads = s.1.reads ++ [s.1.p + .ofNat 0] ++
        [s.1.p + .ofNat 5] ++ [s.1.p + .ofNat 6, s.1.p + .ofNat 7] := by
      show s.1.reads ++ [s.1.p + 0] ++ [s.1.p + 1 + 4 + 0] ++
        [s.1.p + 1 + 4 + 1 + 0, s.1.p + 1 + 4 + 1 + 1] = _
      simp only [UInt32.add_assoc]
      rfl
    have hone {k : Nat} (hk : k < 8) : s.1.p + .ofNat k < n := by
      rw [UInt32.lt_iff_toNat_lt, hahead (by omega)]
      omega
    rw [hreads] at ho
    simp only [List.mem_append, List.mem_cons, List.not_mem_nil, or_false] at ho
    rcases ho with ((ho | rfl) | rfl) | rfl | rfl
    · exact h.reads o ho
    · exact hone (by decide)
    · exact hone (by decide)
    · exact hone (by decide)
    · exact hone (by decide)
  · -- each of the four reads subtracts from what the one before has left
    have hunder : (samplesCursor s.1).underflow = ((((s.1.underflow || decide (s.1.n < .ofNat 1)) ||
        decide (s.1.n - .ofNat 1 < .ofNat 4)) || decide (s.1.n - .ofNat 5 < .ofNat 1)) ||
        decide (s.1.n - .ofNat 6 < .ofNat 2)) := by
      have hfive : s.1.n - 1 - 4 = s.1.n - .ofNat 5 := by
        show _ = s.1.n - 5
        grind
      have hsix : s.1.n - .ofNat 5 - 1 = s.1.n - .ofNat 6 := by
        show s.1.n - 5 - 1 = s.1.n - 6
        grind
      show ((((s.1.underflow || decide (s.1.n < .ofNat 1)) ||
        decide (s.1.n - .ofNat 1 < .ofNat 4)) || decide (s.1.n - 1 - 4 < .ofNat 1)) ||
        decide (s.1.n - 1 - 4 - 1 < .ofNat 2)) = _
      rw [hfive, hsix]
    have hone {k l : Nat} (hkl : k + l ≤ 8) : decide (s.1.n - .ofNat k < .ofNat l) = false := by
      rw [decide_eq_false_iff_not, UInt32.lt_iff_toNat_lt, hleft (by omega),
        UInt32.toNat_ofNat_of_lt' (show l < 2 ^ 32 by omega)]
      omega
    have hzero : decide (s.1.n < .ofNat 1) = false := by
      have hzero := hone (show 0 + 1 ≤ 8 by decide)
      rwa [show s.1.n - UInt32.ofNat 0 = s.1.n from UInt32.sub_zero _] at hzero
    rw [hunder, h.underflow, hzero, hone (by decide), hone (by decide), hone (by decide)]
    rfl

/-- The comparison of the frames with `numBytes` is one of numbers: a 16-bit and an 8-bit factor do
not overflow 32 bits. -/
theorem frames_compare (total : UInt16) (numChan : UInt8) (numBytes : UInt16) :
    total.toUInt32 * numChan.toUInt32 * 2 = numBytes.toUInt32 ↔
      total.toNat * numChan.toNat * 2 = numBytes.toNat := by
  have htotal := total.toNat_lt
  have hchan := numChan.toNat_lt
  have hprod : total.toNat * numChan.toNat < 2 ^ 24 := by
    calc total.toNat * numChan.toNat ≤ total.toNat * 2 ^ 8 :=
          Nat.mul_le_mul_left _ (Nat.le_of_lt hchan)
      _ < 2 ^ 16 * 2 ^ 8 := Nat.mul_lt_mul_of_pos_right htotal (by decide)
      _ = 2 ^ 24 := rfl
  have htwo : (2 : UInt32).toNat = 2 := rfl
  rw [← UInt32.toNat_inj, UInt32.toNat_mul, UInt32.toNat_mul, UInt16.toNat_toUInt32,
    UInt8.toNat_toUInt32, UInt16.toNat_toUInt32, htwo]
  rw [Nat.mod_eq_of_lt (show total.toNat * numChan.toNat < 2 ^ 32 by omega),
    Nat.mod_eq_of_lt (show total.toNat * numChan.toNat * 2 < 2 ^ 32 by omega)]

/-- The samples of channel 0 lie inside the sample bytes of an accepted body. -/
theorem sample_inside {mem : UInt32 → UInt8} {n : UInt32} {c : BodyCursor} (h : AtSamples mem n c)
    {total numBytes : UInt16} {numChan : UInt8} (hchan : numChan ≠ 0)
    (hframes : total.toUInt32 * numChan.toUInt32 * 2 = numBytes.toUInt32)
    (hbytes : numBytes.toUInt32 ≤ c.n) {f : Nat} (hf : f < total.toNat) :
    (sampleOffset c.p numChan f).toNat = c.p.toNat + f * numChan.toNat * 2 ∧
      c.p.toNat + f * numChan.toNat * 2 + 1 < n.toNat := by
  have hsize := n.toNat_lt
  have hfit := h.fit
  have hpos := h.pos
  have hrest := h.rest
  have hsum := (frames_compare total numChan numBytes).mp hframes
  have hbytes := UInt32.le_iff_toNat_le.mp hbytes
  rw [UInt16.toNat_toUInt32, hrest] at hbytes
  have hone : 0 < numChan.toNat := Nat.pos_of_ne_zero fun hzero => hchan (UInt8.toNat_inj.mp hzero)
  have hbefore : (f + 1) * numChan.toNat ≤ total.toNat * numChan.toNat :=
    Nat.mul_le_mul_right _ hf
  rw [Nat.succ_mul] at hbefore
  have hinside : c.p.toNat + f * numChan.toNat * 2 + 1 < n.toNat := by omega
  refine ⟨?_, hinside⟩
  rw [sampleOffset, UInt32.toNat_add,
    UInt32.toNat_ofNat_of_lt' (show f * numChan.toNat * 2 < 2 ^ 32 by omega)]
  exact Nat.mod_eq_of_lt (show _ < 2 ^ 32 by omega)

/-- What the handler reads beyond its checks are the samples of an accepted body. -/
theorem handler_cursor (mem : UInt32 → UInt8) (n : UInt32) (w : AudioWorld) :
    (handleAudioBuffer mem n w).2 = (parseAudioBuffer mem n).1 ∨
      ∃ c info, parseAudioBuffer mem n = (c, some info) ∧
        (handleAudioBuffer mem n w).2 = { c with
          reads := c.reads ++ (List.range info.totalFrames.toNat).flatMap fun f =>
            [sampleOffset c.p info.numChan f, sampleOffset c.p info.numChan f + 1] } := by
  unfold handleAudioBuffer
  rcases hparse : parseAudioBuffer mem n with ⟨c, _ | info⟩
  · exact .inl rfl
  · dsimp only
    split
    · exact .inl rfl
    · split
      · exact .inl rfl
      · split
        · exact .inl rfl
        · exact .inr ⟨c, info, rfl, rfl⟩

/-- Sitting at the samples, an accepted body keeps the handler inside it. -/
theorem samples_safe {mem : UInt32 → UInt8} {n : UInt32} {s : BodyCursor × UInt16}
    (h : AtSamples mem n (samplesCursor s.1)) (hpass : Passes mem s) {o : UInt32}
    (ho : o ∈ (List.range s.2.toNat).flatMap fun f =>
      [sampleOffset (samplesCursor s.1).p (numChanAt mem s.1.p) f,
        sampleOffset (samplesCursor s.1).p (numChanAt mem s.1.p) f + 1]) : o < n := by
  obtain ⟨f, hf, hpair⟩ := List.mem_flatMap.mp ho
  obtain ⟨hoffset, hinside⟩ := sample_inside h hpass.numChan hpass.frames hpass.bytes
    (List.mem_range.mp hf)
  have hsize := n.toNat_lt
  rw [UInt32.lt_iff_toNat_lt]
  rcases List.mem_cons.mp hpair with rfl | hsecond
  · omega
  · rw [List.mem_singleton.mp hsecond, UInt32.toNat_add, hoffset]
    show (_ + 1) % 2 ^ 32 < _
    rw [Nat.mod_eq_of_lt (by omega)]
    exact hinside

/-- The chunk loop runs as often as `chunk_count` says. -/
theorem parse_chunks {mem : UInt32 → UInt8} {n : UInt32} (h : Chunked mem n) :
    (parseAudioBuffer mem n).1.chunks = (chunkCountAt mem).toNat := by
  have hloop := (chunk_loop_cursor mem (headerCursor n) (chunkCountAt mem).toNat).chunks
  have hend : (chunksEnd mem n).1.chunks = (chunkCountAt mem).toNat := hloop.trans (Nat.zero_add _)
  rw [parse_late h]
  split
  · exact hend
  · exact hend

/-- Where the product does not wrap, the checks of the body stay inside it. -/
theorem parse_safe {mem : UInt32 → UInt8} {n : UInt32} (hwrap : ¬ ProductWraps mem n) :
    SafeCursor n (parseAudioBuffer mem n).1 := by
  by_cases hchunked : Chunked mem n
  · have hlong : 54 ≤ n.toNat := UInt32.le_iff_toNat_le.mp hchunked.long
    have hfit := chunks_fit hchunked hwrap
    have hend := chunks_end hlong hfit
    have hcount : (parseAudioBuffer mem n).1.chunks ≤ n.toNat / 26 := by
      rw [parse_chunks hchunked]
      omega
    rw [parse_late hchunked] at hcount ⊢
    split
    · exact ⟨hend.reads, hend.underflow, by rw [hend.chunks]; omega⟩
    · rename_i hroom
      have hat := at_samples hend hroom
      exact ⟨hat.reads, hat.underflow, by rw [hat.chunks]; omega⟩
  · rcases parse_early hchunked with hshort | ⟨hlong, hheader⟩
    · rw [hshort]
      exact ⟨fun o ho => absurd ho List.not_mem_nil, rfl, Nat.zero_le _⟩
    · have hlong : 54 ≤ n.toNat := UInt32.le_iff_toNat_le.mp hlong
      rw [hheader]
      exact ⟨fun o ho => header_inside (by omega) ho, header_underflow hlong, Nat.zero_le _⟩

/-- Where the product wraps and passes, the chunk loop runs far past the body. -/
theorem wrap_unsafe {mem : UInt32 → UInt8} {n : UInt32} (hwrap : ProductWraps mem n)
    (w : AudioWorld) : ¬ SafeCursor n (handleAudioBuffer mem n w).2 := by
  intro hsafe
  obtain ⟨hlong, hbig, hpass⟩ := hwrap
  have hsize := n.toNat_lt
  have hlong' : 54 ≤ n.toNat := UInt32.le_iff_toNat_le.mp hlong
  have hchunked : Chunked mem n := by
    refine ⟨hlong, ?_, ?_⟩
    · intro hzero
      rw [hzero] at hbig
      exact absurd hbig (by decide)
    · have hrest : (n - 20).toNat = n.toNat - 20 := size_sub (k := 20) (by omega)
      rw [UInt32.le_iff_toNat_le, product_toNat, hrest]
      exact hpass
  have hcount : (handleAudioBuffer mem n w).2.chunks = (chunkCountAt mem).toNat := by
    rw [← parse_chunks hchunked]
    rcases handler_cursor mem n w with hsame | ⟨c, info, hparse, hcursor⟩
    · rw [hsame]
    · rw [hcursor, hparse]
  have hbounded := hsafe.bounded
  rw [hcount] at hbounded
  omega

/-- The walk of `handle_audio_buffer` over a body is safe exactly when `chunk_count * 26` does not
wrap to a value that passes the comparison with the remainder. -/
theorem audio_walk_safe_iff (mem : UInt32 → UInt8) (n : UInt32) (w : AudioWorld) :
    SafeCursor n (handleAudioBuffer mem n w).2 ↔ ¬ ProductWraps mem n := by
  constructor
  · exact fun hsafe hwrap => wrap_unsafe hwrap w hsafe
  · intro hwrap
    have hsafe := parse_safe hwrap
    rcases handler_cursor mem n w with hsame | ⟨c, info, hparse, hcursor⟩
    · rw [hsame]
      exact hsafe
    · -- the samples of an accepted body are read as well
      have hchunked : Chunked mem n := by
        by_contra hnot
        rcases parse_early hnot with hshort | ⟨_, hheader⟩
        · rw [hshort] at hparse
          cases hparse
        · rw [hheader] at hparse
          cases hparse
      have hlong : 54 ≤ n.toNat := UInt32.le_iff_toNat_le.mp hchunked.long
      have hend := chunks_end hlong (chunks_fit hchunked hwrap)
      rw [hparse] at hsafe
      rw [parse_late hchunked] at hparse
      split at hparse
      · cases hparse
      · rename_i hroom
        split at hparse
        · rename_i hpass
          obtain ⟨rfl, hinfo⟩ := Prod.mk.inj hparse
          obtain rfl := Option.some.inj hinfo
          rw [hcursor]
          refine ⟨?_, hsafe.remainder, hsafe.bounded⟩
          intro o ho
          rcases List.mem_append.mp ho with hbefore | hsample
          · exact hsafe.inside o hbefore
          · exact samples_safe (at_samples hend hroom) hpass hsample
        · cases hparse

/-- A body of 54 bytes whose `chunk_count` times 26 wraps to 4. -/
def wrappedChunks : List UInt8 :=
  List.replicate 16 0 ++ putBe32 165191050 ++ List.replicate 34 0

theorem wrapped_chunks_unsafe :
    ¬ SafeCursor 54 (handleAudioBuffer (memOf wrappedChunks) 54
      (audioPowerOn (powerOn (fun _ => 0) 0 []) 2)).2 := by
  have hcount : (chunkCountAt (memOf wrappedChunks)).toNat = 165191050 := rfl
  refine wrap_unsafe ⟨by decide, ?_, ?_⟩ _
  · rw [hcount]
    decide
  · rw [hcount]
    decide

end LinkFPGA
