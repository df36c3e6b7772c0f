import LinkFPGA.Firmware.Tlv

/-!
# Bytes behind a pointer

Memory as a function from 32-bit addresses (or offsets from a pointer) to bytes. `bytesAt` are
the bytes an access reads, `memOf` is a buffer seen through its pointer, and `bytes_at_mem_of`
says that an access inside the buffer reads the buffer. `size_sub` and `read_inside` are for walks
that keep a remainder. `tlvEmitBytesAt` is the emitter with its stores, and `emit_entries_at_eq`
says that a sequence of them stores the entries one after another.
-/

namespace LinkFPGA

/-- The `n` bytes at `p`. -/
def bytesAt (mem : UInt32 → UInt8) (p : UInt32) (n : Nat) : List UInt8 :=
  (List.range n).map fun i => mem (p + .ofNat i)

/-- A buffer by offset from its pointer. Memory past its end is taken to be 0. -/
def memOf (buf : List UInt8) : UInt32 → UInt8 := fun off => byteAt buf off.toNat

theorem ptr_add (p : UInt32) (off size : Nat) :
    p + UInt32.ofNat off + UInt32.ofNat size = p + UInt32.ofNat (off + size) := by
  rw [UInt32.add_assoc, ← UInt32.ofNat_add]

@[simp] theorem bytes_at_length (mem : UInt32 → UInt8) (p : UInt32) (n : Nat) :
    (bytesAt mem p n).length = n := by
  simp [bytesAt]

theorem bytes_at_getElem (mem : UInt32 → UInt8) (p : UInt32) (n i : Nat)
    (h : i < (bytesAt mem p n).length) : (bytesAt mem p n)[i] = mem (p + .ofNat i) := by
  simp [bytesAt]

theorem bytes_at_drop (mem : UInt32 → UInt8) (p : UInt32) (n k : Nat) :
    (bytesAt mem p n).drop k = bytesAt mem (p + .ofNat k) (n - k) := by
  refine List.ext_getElem (by simp) ?_
  intro i _ _
  rw [List.getElem_drop, bytes_at_getElem, bytes_at_getElem, ptr_add]

theorem bytes_at_take (mem : UInt32 → UInt8) (p : UInt32) {n k : Nat} (h : k ≤ n) :
    (bytesAt mem p n).take k = bytesAt mem p k := by
  refine List.ext_getElem (by simp [h]) ?_
  intro i _ _
  rw [List.getElem_take, bytes_at_getElem, bytes_at_getElem]

/-- An access inside a buffer reads the buffer. -/
theorem bytes_at_mem_of {buf : List UInt8} (hlen : buf.length < 2 ^ 32) {off n : Nat}
    (h : off + n ≤ buf.length) :
    bytesAt (memOf buf) (.ofNat off) n = (buf.drop off).take n := by
  refine List.ext_getElem (by simp; omega) ?_
  intro i hi _
  rw [bytes_at_length] at hi
  have haddr : (UInt32.ofNat off + UInt32.ofNat i).toNat = off + i := by
    rw [← UInt32.ofNat_add]
    exact UInt32.toNat_ofNat_of_lt' (show off + i < 2 ^ 32 by omega)
  rw [bytes_at_getElem, List.getElem_take, List.getElem_drop]
  show byteAt buf (UInt32.ofNat off + UInt32.ofNat i).toNat = buf[off + i]
  rw [haddr, byteAt, List.getD_eq_getElem _ _ (by omega)]

/-- What is left of a size when a part that fits is taken away. -/
theorem size_sub {n : UInt32} {k : Nat} (h : k ≤ n.toNat) : (n - .ofNat k).toNat = n.toNat - k := by
  have hk : (UInt32.ofNat k).toNat = k :=
    UInt32.toNat_ofNat_of_lt' (Nat.lt_of_le_of_lt h n.toNat_lt)
  rw [UInt32.toNat_sub_of_le _ _ (UInt32.le_iff_toNat_le.mpr (by omega)), hk]

/-- An access that fits in the size reads nothing behind it. -/
theorem read_inside {n p : UInt32} {k : Nat} (h : p.toNat + k ≤ n.toNat) {o : UInt32}
    (ho : o ∈ (List.range k).map fun i => p + .ofNat i) : o < n := by
  obtain ⟨i, hi, rfl⟩ := List.mem_map.mp ho
  have hik := List.mem_range.mp hi
  have hsize := n.toNat_lt
  have hoff : (UInt32.ofNat i).toNat = i := UInt32.toNat_ofNat_of_lt' (show i < 2 ^ 32 by omega)
  rw [UInt32.lt_iff_toNat_lt, UInt32.toNat_add, hoff, Nat.mod_eq_of_lt (by omega)]
  omega

/-! ## Stores -/

/-- `*p = b`. -/
def storeByte (mem : UInt32 → UInt8) (p : UInt32) (b : UInt8) : UInt32 → UInt8 :=
  fun q => if q = p then b else mem q

/-- Bytes stored one after another from `p` on. -/
def storeBytes (mem : UInt32 → UInt8) (p : UInt32) : List UInt8 → UInt32 → UInt8
  | [] => mem
  | b :: rest => storeBytes (storeByte mem p b) (p + 1) rest

/-- `tlv_emit_header`: the memory after the stores, and the advanced pointer. -/
def tlvEmitHeaderAt (mem : UInt32 → UInt8) (p key size : UInt32) : (UInt32 → UInt8) × UInt32 :=
  (storeBytes (storeBytes mem p (putBe32 key)) (p + 4) (putBe32 size), p + 8)

/-- `tlv_emit_bytes` through the pointer it advances; `n` is the length of `src`. -/
def tlvEmitBytesAt (mem : UInt32 → UInt8) (p key : UInt32) (src : List UInt8) :
    (UInt32 → UInt8) × UInt32 :=
  let n := UInt32.ofNat src.length
  let header := tlvEmitHeaderAt mem p key n
  (storeBytes header.1 header.2 src, header.2 + n)

/-- One `tlv_emit_bytes` for each entry. -/
def emitEntriesAt (out : (UInt32 → UInt8) × UInt32) (entries : List (UInt32 × List UInt8)) :
    (UInt32 → UInt8) × UInt32 :=
  entries.foldl (fun out entry => tlvEmitBytesAt out.1 out.2 entry.1 entry.2) out

/-- The encodings of entries, one behind the other. -/
def encodeEntries (entries : List (UInt32 × List UInt8)) : List UInt8 :=
  entries.flatMap fun entry => tlvEmitBytes entry.1 entry.2

@[simp] theorem encode_entries_nil : encodeEntries [] = [] := rfl

@[simp] theorem encode_entries_cons (entry : UInt32 × List UInt8)
    (entries : List (UInt32 × List UInt8)) :
    encodeEntries (entry :: entries) =
      tlvEmitBytes entry.1 entry.2 ++ encodeEntries entries := rfl

theorem encode_entries_append (xs ys : List (UInt32 × List UInt8)) :
    encodeEntries (xs ++ ys) = encodeEntries xs ++ encodeEntries ys :=
  List.flatMap_append

/-- A store of a sequence is a store of its front and then of its back. -/
theorem store_bytes_append (mem : UInt32 → UInt8) (p : UInt32) (xs ys : List UInt8) :
    storeBytes mem p (xs ++ ys) = storeBytes (storeBytes mem p xs) (p + .ofNat xs.length) ys := by
  induction xs generalizing mem p with
  | nil =>
      show storeBytes mem p ys = storeBytes mem (p + 0) ys
      rw [UInt32.add_zero]
  | cons b xs ih =>
      have hnext : p + 1 + UInt32.ofNat xs.length = p + UInt32.ofNat (xs.length + 1) := by
        rw [Nat.add_comm, ← ptr_add]
        rfl
      show storeBytes (storeByte mem p b) (p + 1) (xs ++ ys) = _
      rw [ih, hnext]
      rfl

/-- A store leaves every other address alone. -/
theorem store_bytes_other (mem : UInt32 → UInt8) (p q : UInt32) (bs : List UInt8)
    (h : ∀ i < bs.length, q ≠ p + .ofNat i) : storeBytes mem p bs q = mem q := by
  induction bs generalizing mem p with
  | nil => rfl
  | cons b bs ih =>
      have hrest : ∀ i < bs.length, q ≠ p + 1 + .ofNat i := by
        intro i hi
        have hnext := h (1 + i) (by rw [List.length_cons]; omega)
        rwa [← ptr_add] at hnext
      have hfirst : q ≠ p := by
        have hzero := h 0 (by rw [List.length_cons]; omega)
        rwa [show p + UInt32.ofNat 0 = p from UInt32.add_zero p] at hzero
      show storeBytes (storeByte mem p b) (p + 1) bs q = mem q
      rw [ih _ _ hrest]
      exact if_neg hfirst

/-- Bytes that fit into the address space are read back as they were stored. -/
theorem bytes_at_store_bytes (mem : UInt32 → UInt8) (p : UInt32) (bs : List UInt8)
    (h : bs.length ≤ 2 ^ 32) : bytesAt (storeBytes mem p bs) p bs.length = bs := by
  induction bs generalizing mem p with
  | nil => rfl
  | cons b bs ih =>
      rw [List.length_cons] at h
      -- the later stores come back to `p` only after the whole address space
      have hother : ∀ i < bs.length, p ≠ p + 1 + .ofNat i := by
        intro i hi heq
        have hnat := congrArg UInt32.toNat heq
        have hi' : (UInt32.ofNat i).toNat = i :=
          UInt32.toNat_ofNat_of_lt' (show i < 2 ^ 32 by omega)
        rw [UInt32.toNat_add, UInt32.toNat_add, hi', UInt32.toNat_one] at hnat
        have hp := p.toNat_lt
        omega
      have hfirst : storeBytes (storeByte mem p b) (p + 1) bs p = b := by
        rw [store_bytes_other _ _ _ _ hother]
        exact if_pos rfl
      have hrest := ih (storeByte mem p b) (p + 1) (by omega)
      refine List.ext_getElem (by simp) ?_
      intro i hi hi'
      rw [bytes_at_getElem]
      cases i with
      | zero =>
          rw [show p + UInt32.ofNat 0 = p from UInt32.add_zero p]
          exact hfirst
      | succ i =>
          have hlen : i < bs.length := by simpa using hi'
          have hget := bytes_at_getElem (storeBytes (storeByte mem p b) (p + 1) bs) (p + 1)
            bs.length i (by rwa [bytes_at_length])
          have hnext : p + 1 + UInt32.ofNat i = p + UInt32.ofNat (i + 1) := by
            rw [Nat.add_comm, ← ptr_add]
            rfl
          rw [List.getElem_cons_succ, ← hnext]
          show storeBytes (storeByte mem p b) (p + 1) bs (p + 1 + .ofNat i) = bs[i]
          rw [← hget]
          simp only [hrest]

/-- An emitted entry is its encoding, stored at the pointer. -/
theorem tlv_emit_bytes_at_eq (mem : UInt32 → UInt8) (p key : UInt32) (src : List UInt8) :
    tlvEmitBytesAt mem p key src =
      (storeBytes mem p (tlvEmitBytes key src),
        p + .ofNat (tlvEmitBytes key src).length) := by
  have hstores : storeBytes mem p (tlvEmitBytes key src) =
      storeBytes (storeBytes (storeBytes mem p (putBe32 key)) (p + 4)
        (putBe32 (.ofNat src.length))) (p + 8) src := by
    unfold tlvEmitBytes tlvEmitHeader
    rw [store_bytes_append, store_bytes_append]
    rfl
  rw [hstores, tlv_emit_bytes_length, ← ptr_add]
  rfl

/-- Emitted entries are their encodings, stored one behind the other. -/
theorem emit_entries_at_eq (mem : UInt32 → UInt8) (p : UInt32)
    (entries : List (UInt32 × List UInt8)) :
    emitEntriesAt (mem, p) entries =
      (storeBytes mem p (encodeEntries entries),
        p + .ofNat (encodeEntries entries).length) := by
  induction entries generalizing mem p with
  | nil => exact Prod.ext rfl (UInt32.add_zero p).symm
  | cons entry entries ih =>
      show emitEntriesAt (tlvEmitBytesAt mem p entry.1 entry.2) entries = _
      rw [tlv_emit_bytes_at_eq, ih, encode_entries_cons, store_bytes_append, List.length_append,
        ← ptr_add]

end LinkFPGA
