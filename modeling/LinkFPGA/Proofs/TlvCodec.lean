import LinkFPGA.Proofs.WalkBounds

/-!
# The grammar of TLV buffers

`tlv_walk` accepts exactly the buffers that `tlv_emit_bytes` writes. `walk_encode` is the round
trip on byte lists and `walk_grammar` its converse; `no_wrap_encode` carries the round trip over
to the 32-bit pointers of the target, since every header of an encoded buffer tells the truth
about its size.
-/

namespace LinkFPGA

variable {σ : Type}

/-- A callback that never stops the walk. -/
def Accepting (cb : TlvCb σ) : Prop := ∀ key v ctx, (cb key v ctx).2 = 0

/-- A callback together with the list of the entries it was given. -/
def recording (cb : TlvCb σ) : TlvCb (σ × List (UInt32 × List UInt8)) := fun key v ctx =>
  (((cb key v ctx.1).1, ctx.2 ++ [(key, v)]), (cb key v ctx.1).2)

/-- The context after the callback has seen the entries one after another. -/
def deliver (cb : TlvCb σ) (entries : List (UInt32 × List UInt8)) (ctx : σ) : σ :=
  entries.foldl (fun ctx entry => (cb entry.1 entry.2 ctx).1) ctx

theorem Accepting.recording {cb : TlvCb σ} (haccept : Accepting cb) :
    Accepting (recording cb) :=
  fun key v ctx => haccept key v ctx.1

/-- What is recorded is what is delivered. -/
theorem deliver_recording (cb : TlvCb σ) (entries seen : List (UInt32 × List UInt8)) (ctx : σ) :
    deliver (recording cb) entries (ctx, seen) = (deliver cb entries ctx, seen ++ entries) := by
  induction entries generalizing ctx seen with
  | nil => exact Prod.ext rfl (List.append_nil seen).symm
  | cons entry entries ih =>
      show deliver (recording cb) entries ((cb entry.1 entry.2 ctx).1, seen ++ [entry]) = _
      rw [ih, List.append_assoc]
      rfl

/-! ## Byte lists -/

/-- An encoded list of entries is delivered entry by entry. -/
theorem walk_encode {cb : TlvCb σ} (haccept : Accepting cb)
    (entries : List (UInt32 × List UInt8)) (hsize : ∀ entry ∈ entries, entry.2.length < 2 ^ 32)
    (ctx : σ) : tlvWalk cb (encodeEntries entries) ctx = (deliver cb entries ctx, 0) := by
  induction entries generalizing ctx with
  | nil => rfl
  | cons entry entries ih =>
      have hfirst := hsize entry List.mem_cons_self
      have hrest := ih fun e he => hsize e (List.mem_cons_of_mem _ he)
      rw [encode_entries_cons, tlv_walk_entry _ _ _ _ _ hfirst,
        if_neg (not_not.mpr (haccept _ _ _)), hrest]
      rfl

/-- The four bytes of a word, stored back. -/
theorem put_be32_be32 (p : List UInt8) (h : 4 ≤ p.length) : putBe32 (be32 p) = p.take 4 := by
  match p, h with
  | a :: b :: c :: d :: rest, _ =>
      have ha := a.toNat_lt
      have hb := b.toNat_lt
      have hc := c.toNat_lt
      have hd := d.toNat_lt
      have hword := be32_toNat a b c d rest
      simp only [putBe32, List.take_succ_cons, List.take_zero, List.cons.injEq, and_true]
      refine ⟨?_, ?_, ?_, ?_⟩ <;>
      · apply UInt8.toNat_inj.mp
        simp only [UInt32.toNat_toUInt8, UInt32.toNat_shiftRight, UInt32.reduceToNat,
          Nat.reduceMod, Nat.shiftRight_eq_div_pow]
        omega

/-- A buffer that starts with a header whose value fits is the encoding of that entry, and the
rest. -/
theorem split_entry {buf : List UInt8} (hheader : ¬ buf.length < 8)
    (hvalue : ¬ (buf.drop 8).length < (be32 (buf.drop 4)).toNat) :
    buf = tlvEmitBytes (be32 buf) ((buf.drop 8).take (be32 (buf.drop 4)).toNat) ++
      (buf.drop 8).drop (be32 (buf.drop 4)).toNat := by
  have hlen : ((buf.drop 8).take (be32 (buf.drop 4)).toNat).length =
      (be32 (buf.drop 4)).toNat := by
    rw [List.length_take]
    omega
  have hkey := put_be32_be32 buf (by omega)
  have hsize := put_be32_be32 (buf.drop 4) (by rw [List.length_drop]; omega)
  unfold tlvEmitBytes tlvEmitHeader
  rw [hlen, UInt32.ofNat_toNat, hkey, hsize, List.append_assoc, List.take_append_drop,
    List.append_assoc, show buf.drop 8 = (buf.drop 4).drop 4 by rw [List.drop_drop],
    List.take_append_drop, List.take_append_drop]

/-- A walk that is never stopped either delivers the entries the buffer is made of, or fails on
a buffer that is not made of entries. -/
theorem walk_grammar {cb : TlvCb σ} (haccept : Accepting cb) (buf : List UInt8) (ctx : σ) :
    (∃ entries : List (UInt32 × List UInt8), (∀ entry ∈ entries, entry.2.length < 2 ^ 32) ∧
      buf = encodeEntries entries ∧ tlvWalk cb buf ctx = (deliver cb entries ctx, 0)) ∨
    (tlvWalk cb buf ctx).2 = -1 := by
  induction hlen : buf.length using Nat.strong_induction_on generalizing buf ctx with
  | _ n ih =>
      -- what is left behind an entry is shorter by at least its header
      rw [tlv_walk_eq]
      by_cases hshort : buf.length < 8
      · rw [if_pos hshort]
        by_cases hempty : buf = []
        · rw [if_pos hempty]
          exact .inl ⟨[], by simp, hempty, rfl⟩
        · rw [if_neg hempty]
          exact .inr rfl
      · by_cases hlong : (buf.drop 8).length < (be32 (buf.drop 4)).toNat
        · rw [if_neg hshort, if_pos hlong]
          exact .inr rfl
        · rw [if_neg hshort, if_neg hlong]
          dsimp only
          rw [if_neg (not_not.mpr (haccept _ _ _))]
          have hsplit := split_entry hshort hlong
          set value := (buf.drop 8).take (be32 (buf.drop 4)).toNat with hvalue
          set rest := (buf.drop 8).drop (be32 (buf.drop 4)).toNat with hrest
          have hshorter : rest.length < n := by
            rw [hrest]
            simp only [List.length_drop]
            omega
          rcases ih _ hshorter rest (cb (be32 buf) value ctx).1 rfl with
            ⟨entries, hsize, hentries, hwalk⟩ | hfail
          · refine .inl ⟨(be32 buf, value) :: entries, ?_, ?_, hwalk⟩
            · intro entry hentry
              rcases List.mem_cons.mp hentry with rfl | hentry
              · have hword := (be32 (buf.drop 4)).toNat_lt
                simp only [hvalue, List.length_take]
                omega
              · exact hsize entry hentry
            · rw [encode_entries_cons, ← hentries]
              exact hsplit
          · exact .inr hfail

/-! ## Pointers -/

section
variable {mem : UInt32 → UInt8} {cb : PtrCb σ} {buf : UInt32}
  {entries : List (UInt32 × List UInt8)}

/-- The size field at an offset where an encoded entry starts. -/
theorem size_at_encoded {n off : Nat} {entry : UInt32 × List UInt8} {rest : List UInt8}
    (hsize : entry.2.length < 2 ^ 32)
    (h : (bytesAt mem buf n).drop off = tlvEmitBytes entry.1 entry.2 ++ rest) :
    sizeAt mem buf off = entry.2.length := by
  have hlen := congrArg List.length h
  rw [List.length_drop, bytes_at_length, List.length_append, tlv_emit_bytes_length] at hlen
  have hdrop : bytesAt mem (buf + .ofNat off + 4) (n - off - 4) =
      putBe32 (.ofNat entry.2.length) ++ (entry.2 ++ rest) := by
    have hfour := congrArg (List.drop 4) h
    rw [bytes_at_drop, bytes_at_drop] at hfour
    rw [show (4 : UInt32) = .ofNat 4 from rfl, hfour, tlvEmitBytes, tlvEmitHeader,
      List.append_assoc, List.append_assoc, List.drop_left' (by simp)]
  unfold sizeAt
  rw [← be32_bytes_at mem _ (by omega : 4 ≤ n - off - 4), hdrop, be32_put_be32_append,
    UInt32.toNat_ofNat_of_lt' hsize]

/-- The offsets where an entry starts, or the last one ends. -/
def Boundary (entries : List (UInt32 × List UInt8)) (off : Nat) : Prop :=
  ∃ before after, entries = before ++ after ∧ off = (encodeEntries before).length

theorem Boundary.le_length {off : Nat} (h : Boundary entries off) :
    off ≤ (encodeEntries entries).length := by
  obtain ⟨before, after, rfl, rfl⟩ := h
  rw [encode_entries_append, List.length_append]
  exact Nat.le_add_right _ _

/-- The header at a boundary leads to the next boundary. -/
theorem Boundary.next {n off : Nat} (h : Boundary entries off)
    (hsize : ∀ entry ∈ entries, entry.2.length < 2 ^ 32)
    (hbytes : bytesAt mem buf n = encodeEntries entries) (hmore : off + 8 ≤ n) :
    Boundary entries (off + 8 + sizeAt mem buf off) := by
  obtain ⟨before, after, rfl, rfl⟩ := h
  have hlen := congrArg List.length hbytes
  rw [encode_entries_append] at hbytes hlen
  rw [bytes_at_length, List.length_append] at hlen
  cases after with
  | nil =>
      rw [encode_entries_nil, List.length_nil] at hlen
      omega
  | cons entry after =>
      have hdrop := congrArg (List.drop (encodeEntries before).length) hbytes
      rw [List.drop_left, encode_entries_cons] at hdrop
      rw [size_at_encoded (hsize entry (by simp)) hdrop]
      refine ⟨before ++ [entry], after, by simp, ?_⟩
      rw [encode_entries_append, List.length_append, encode_entries_cons, List.length_append,
        tlv_emit_bytes_length, encode_entries_nil, List.length_nil]
      omega

/-- The walk of an encoded buffer comes to boundaries only. -/
theorem Reaches.boundary {len : UInt32} {ctx : σ} {off : Nat} {c : σ}
    (h : Reaches mem cb buf len ctx off c)
    (hsize : ∀ entry ∈ entries, entry.2.length < 2 ^ 32)
    (hbytes : bytesAt mem buf len.toNat = encodeEntries entries) : Boundary entries off := by
  induction h with
  | start => exact ⟨[], entries, rfl, rfl⟩
  | next _ hend _ ih => exact ih.next hsize hbytes (by omega)

end

/-- In main RAM, the walk on 32-bit pointers of an encoded buffer is the walk of its bytes,
whatever the callback does. -/
theorem walk32_encode {mem : UInt32 → UInt8} {buf : UInt32} (cb : TlvCb σ)
    {entries : List (UInt32 × List UInt8)} (ctx : σ)
    (hram : MainRamBuffer buf (encodeEntries entries).length)
    (hsize : ∀ entry ∈ entries, entry.2.length < 2 ^ 32)
    (hbytes : bytesAt mem buf (encodeEntries entries).length = encodeEntries entries) :
    (tlvWalk32 mem (onBytes mem cb) (buf + .ofNat (encodeEntries entries).length)
      ((encodeEntries entries).length / 8) buf ctx).result =
      some (tlvWalk cb (encodeEntries entries) ctx) := by
  have hhigh := hram.high
  have hlen : (UInt32.ofNat (encodeEntries entries).length).toNat =
      (encodeEntries entries).length :=
    UInt32.toNat_ofNat_of_lt' (show _ < 2 ^ 32 by omega)
  have hwrap : NoWrap mem (onBytes mem cb) buf (.ofNat (encodeEntries entries).length) ctx := by
    -- a header at a boundary is an entry's, and the entry ends inside the buffer
    intro off c hreach hmore
    have hbytes := hlen.symm ▸ hbytes
    have hend := ((hreach.boundary hsize hbytes).next hsize hbytes hmore).le_length
    omega
  have hwalk := tlv_walk_exact (hlen.symm ▸ hram) hwrap
  rwa [hlen, hbytes] at hwalk

/-! ## Both directions -/

/-- The values of an encoded buffer in main RAM have 32-bit sizes. -/
theorem entry_size_lt {entries : List (UInt32 × List UInt8)} {n : Nat}
    (h : (encodeEntries entries).length ≤ n) (entry : UInt32 × List UInt8)
    (hentry : entry ∈ entries) : entry.2.length ≤ n := by
  obtain ⟨before, after, rfl⟩ := List.append_of_mem hentry
  rw [encode_entries_append, encode_entries_cons, List.length_append, List.length_append,
    tlv_emit_bytes_length] at h
  omega

/-- Entries emitted into main RAM are walked back on 32-bit pointers, in order and to the end;
and in exact arithmetic the walk accepts nothing but the encodings of what it delivers. -/
theorem tlv_codec_exact (cb : TlvCb σ) (haccept : Accepting cb) (ctx : σ) :
    (∀ (mem : UInt32 → UInt8) (buf : UInt32) (entries : List (UInt32 × List UInt8)),
      MainRamBuffer buf (encodeEntries entries).length →
      (tlvWalk32 (emitEntriesAt (mem, buf) entries).1
        (onBytes (emitEntriesAt (mem, buf) entries).1 (recording cb))
        (emitEntriesAt (mem, buf) entries).2 ((encodeEntries entries).length / 8) buf
        (ctx, [])).result = some ((deliver cb entries ctx, entries), 0)) ∧
    ∀ buf : List UInt8,
      (tlvWalk (recording cb) buf (ctx, [])).2 = 0 ∧
        buf = encodeEntries (tlvWalk (recording cb) buf (ctx, [])).1.2 ∨
      (tlvWalk (recording cb) buf (ctx, [])).2 = -1 ∧
        ∀ entries : List (UInt32 × List UInt8), (∀ entry ∈ entries, entry.2.length < 2 ^ 32) →
          buf ≠ encodeEntries entries := by
  have hrecord (entries : List (UInt32 × List UInt8))
      (hsize : ∀ entry ∈ entries, entry.2.length < 2 ^ 32) :
      tlvWalk (recording cb) (encodeEntries entries) (ctx, []) =
        ((deliver cb entries ctx, entries), 0) := by
    rw [walk_encode haccept.recording entries hsize, deliver_recording, List.nil_append]
  constructor
  · intro mem buf entries hram
    have hhigh := hram.high
    have hsize (entry : UInt32 × List UInt8) (hentry : entry ∈ entries) :
        entry.2.length < 2 ^ 32 := by
      have hle := entry_size_lt (le_refl (encodeEntries entries).length) entry hentry
      omega
    have hbytes := bytes_at_store_bytes mem buf (encodeEntries entries) (by omega)
    rw [emit_entries_at_eq, walk32_encode (recording cb) (ctx, []) hram hsize hbytes,
      hrecord entries hsize]
  · intro buf
    rcases walk_grammar haccept.recording buf (ctx, []) with ⟨entries, hsize, rfl, hwalk⟩ | hfail
    · rw [hrecord entries hsize]
      exact .inl ⟨rfl, rfl⟩
    · refine .inr ⟨hfail, ?_⟩
      rintro entries hsize rfl
      rw [hrecord entries hsize] at hfail
      cases hfail

/-- Two entries, one of them empty, at the start of main RAM. -/
theorem tlv_codec_exact_two :
    (tlvWalk32 (emitEntriesAt ((fun _ => 0), 0x40000000) [(keyHt, [1, 2]), (keyGt, [])]).1
      (onBytes (emitEntriesAt ((fun _ => 0), 0x40000000) [(keyHt, [1, 2]), (keyGt, [])]).1
        (recording collect))
      (emitEntriesAt ((fun _ => 0), 0x40000000) [(keyHt, [1, 2]), (keyGt, [])]).2 2 0x40000000
      ([], [])).result =
      some (([(keyHt, [1, 2]), (keyGt, [])], [(keyHt, [1, 2]), (keyGt, [])]), 0) :=
  (tlv_codec_exact collect (fun _ _ _ => rfl) []).1 _ _ _ ⟨by decide, by decide⟩

end LinkFPGA
