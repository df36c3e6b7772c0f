import LinkFPGA.Firmware.Memory

/-!
# `tlv_walk` on 32-bit pointers

The loop of `tlv_walk` again, with pointers and sizes as they are on the RV32 target: 32-bit
words whose addition wraps. `tlv_walk_safe_iff` says when the walk of a received datagram stays
inside the datagram and ends: exactly when no header it reaches has a size that carries the
value's end past the top of the address space. `tlv_walk_exact` says that the walk is then the
one of `tlvWalk`, which takes the pointer arithmetic for exact. `tlv_walk_spins` is a header
whose size brings the pointer back to the header itself.

Read `Reaches` first: it is the walk in exact arithmetic, header by header.
-/

namespace LinkFPGA

/-! ## The loop -/

/-- `be32(p)` in a 32-bit address space. -/
def loadBe32 (mem : UInt32 → UInt8) (p : UInt32) : UInt32 :=
  be32 [mem p, mem (p + 1), mem (p + 2), mem (p + 3)]

/-- `tlv_cb_t` with the value passed as the C code passes it, by pointer and length. -/
abbrev PtrCb (σ : Type) := UInt32 → UInt32 → UInt32 → σ → σ × Int

/-- What a walk did within a number of iterations: the values it passed to the callback, by
pointer and length, and its return value and the context if it has returned. -/
structure WalkTrace (σ : Type) where
  calls : List (UInt32 × UInt32)
  result : Option (σ × Int)

variable {σ : Type}

/-- The `while` loop of `tlv_walk`, for at most the given number of iterations. -/
def tlvWalk32 (mem : UInt32 → UInt8) (cb : PtrCb σ) (endp : UInt32) :
    Nat → UInt32 → σ → WalkTrace σ
  | 0, p, ctx =>
      if p + 8 ≤ endp then ⟨[], none⟩
      else ⟨[], some (ctx, if p = endp then 0 else -1)⟩
  | iterations + 1, p, ctx =>
      if p + 8 ≤ endp then
        let key := loadBe32 mem p
        let size := loadBe32 mem (p + 4)
        let vp := p + 8
        if endp < vp + size then ⟨[], some (ctx, -1)⟩
        else
          let r := cb key vp size ctx
          if r.2 ≠ 0 then ⟨[(vp, size)], some (r.1, -1)⟩
          else
            let rest := tlvWalk32 mem cb endp iterations (vp + size) r.1
            ⟨(vp, size) :: rest.calls, rest.result⟩
      else ⟨[], some (ctx, if p = endp then 0 else -1)⟩

/-- A datagram in the main RAM of the SoC. -/
structure InMainRam (buf len : UInt32) : Prop where
  low : 0x40000000 ≤ buf.toNat
  high : buf.toNat + len.toNat ≤ 0x40800000
  datagram : len.toNat ≤ 1500

/-- A buffer of `n` bytes in the main RAM of the SoC. -/
structure MainRamBuffer (buf : UInt32) (n : Nat) : Prop where
  low : 0x40000000 ≤ buf.toNat
  high : buf.toNat + n ≤ 0x40800000

theorem InMainRam.buffer {buf len : UInt32} (hram : InMainRam buf len) :
    MainRamBuffer buf len.toNat :=
  ⟨hram.low, hram.high⟩

/-- A value lies inside the datagram. -/
def InBuffer (buf len : UInt32) (value : UInt32 × UInt32) : Prop :=
  buf.toNat ≤ value.1.toNat ∧ value.1.toNat + value.2.toNat ≤ buf.toNat + len.toNat

/-- The walk returns within `len / 8` iterations and passes values inside the datagram only. -/
def SafeWalk (mem : UInt32 → UInt8) (cb : PtrCb σ) (buf len : UInt32) (ctx : σ) : Prop :=
  (tlvWalk32 mem cb (buf + len) (len.toNat / 8) buf ctx).result.isSome ∧
    ∀ iterations, ∀ value ∈ (tlvWalk32 mem cb (buf + len) iterations buf ctx).calls,
      InBuffer buf len value

/-! ## The walk in exact arithmetic -/

/-- The size field of the header at an offset. -/
def sizeAt (mem : UInt32 → UInt8) (buf : UInt32) (off : Nat) : Nat :=
  (loadBe32 mem (buf + .ofNat off + 4)).toNat

/-- The callback's answer to the entry at an offset. -/
def entryAt (mem : UInt32 → UInt8) (cb : PtrCb σ) (buf : UInt32) (off : Nat) (ctx : σ) : σ × Int :=
  cb (loadBe32 mem (buf + .ofNat off)) (buf + .ofNat off + 8)
    (loadBe32 mem (buf + .ofNat off + 4)) ctx

/-- The walk comes to an offset, with a context: every entry before it ends inside the datagram
and was accepted. -/
inductive Reaches (mem : UInt32 → UInt8) (cb : PtrCb σ) (buf len : UInt32) (ctx : σ) :
    Nat → σ → Prop where
  | start : Reaches mem cb buf len ctx 0 ctx
  | next {off : Nat} {c : σ} : Reaches mem cb buf len ctx off c →
      off + 8 + sizeAt mem buf off ≤ len.toNat → (entryAt mem cb buf off c).2 = 0 →
      Reaches mem cb buf len ctx (off + 8 + sizeAt mem buf off) (entryAt mem cb buf off c).1

variable {mem : UInt32 → UInt8} {cb : PtrCb σ} {buf len : UInt32} {ctx : σ}

theorem Reaches.le_len {off : Nat} {c : σ} (h : Reaches mem cb buf len ctx off c) :
    off ≤ len.toNat := by
  cases h with
  | start => exact Nat.zero_le _
  | next _ hend _ => exact hend

/-- No header that the walk reaches has a size that wraps the value's end around. -/
def NoWrap (mem : UInt32 → UInt8) (cb : PtrCb σ) (buf len : UInt32) (ctx : σ) : Prop :=
  ∀ off c, Reaches mem cb buf len ctx off c → off + 8 ≤ len.toNat →
    buf.toNat + off + 8 + sizeAt mem buf off < 2 ^ 32

/-! ## One iteration -/

/-- An address inside the datagram, or just past it, in exact arithmetic. -/
theorem ptr_toNat (hram : MainRamBuffer buf len.toNat) {off : Nat} (hoff : off ≤ len.toNat + 8) :
    (buf + UInt32.ofNat off).toNat = buf.toNat + off := by
  have hhigh := hram.high
  have hsmall : off < UInt32.size := by
    show off < 2 ^ 32
    omega
  rw [UInt32.toNat_add, UInt32.toNat_ofNat_of_lt' hsmall, Nat.mod_eq_of_lt (by omega)]

/-- Where the value of a header starts, and where the datagram ends. -/
theorem value_toNat (hram : MainRamBuffer buf len.toNat) {off : Nat} (hoff : off ≤ len.toNat) :
    (buf + .ofNat off + 8).toNat = buf.toNat + (off + 8) := by
  rw [← ptr_toNat hram (Nat.add_le_add_right hoff 8), ← ptr_add]
  rfl

theorem end_toNat (hram : MainRamBuffer buf len.toNat) :
    (buf + len).toNat = buf.toNat + len.toNat := by
  have hlen := ptr_toNat hram (Nat.le_add_right len.toNat 8)
  rwa [UInt32.ofNat_toNat] at hlen

/-- The loop condition in exact arithmetic. -/
theorem loop_condition_iff (hram : MainRamBuffer buf len.toNat) {off : Nat}
    (hoff : off ≤ len.toNat) :
    buf + .ofNat off + 8 ≤ buf + len ↔ off + 8 ≤ len.toNat := by
  rw [UInt32.le_iff_toNat_le, value_toNat hram hoff, end_toNat hram]
  omega

/-- The next header, whether or not the addition wraps. -/
theorem ptr_next (mem : UInt32 → UInt8) (buf : UInt32) (off : Nat) :
    buf + .ofNat off + 8 + loadBe32 mem (buf + .ofNat off + 4) =
      buf + .ofNat (off + 8 + sizeAt mem buf off) := by
  rw [← ptr_add, ← ptr_add]
  unfold sizeAt
  rw [UInt32.ofNat_toNat]
  rfl

/-- The bound check in exact arithmetic, where the addition does not wrap. -/
theorem bound_check_iff (hram : MainRamBuffer buf len.toNat) {off : Nat}
    (hwrap : buf.toNat + off + 8 + sizeAt mem buf off < 2 ^ 32) :
    buf + len < buf + .ofNat (off + 8 + sizeAt mem buf off) ↔
      len.toNat < off + 8 + sizeAt mem buf off := by
  have hsmall : off + 8 + sizeAt mem buf off < UInt32.size := by
    show _ < 2 ^ 32
    omega
  rw [UInt32.lt_iff_toNat_lt, end_toNat hram, UInt32.toNat_add, UInt32.toNat_ofNat_of_lt' hsmall,
    Nat.mod_eq_of_lt (by omega)]
  omega

/-- The value of an entry that ends inside the datagram. -/
theorem entry_in_buffer (hram : MainRamBuffer buf len.toNat) {off : Nat}
    (hend : off + 8 + sizeAt mem buf off ≤ len.toNat) :
    InBuffer buf len (buf + .ofNat off + 8, loadBe32 mem (buf + .ofNat off + 4)) := by
  have hvalue := value_toNat hram (show off ≤ len.toNat by omega)
  unfold InBuffer
  unfold sizeAt at hend
  dsimp only
  omega

/-! ## Whole walks -/

/-- Where no header wraps, the walk from any header it reaches passes values inside the datagram
only, and needs one iteration for every eight bytes that are left. -/
theorem walk_safe (hram : MainRamBuffer buf len.toNat) (hwrap : NoWrap mem cb buf len ctx)
    (iterations : Nat) {off : Nat} {c : σ} (h : Reaches mem cb buf len ctx off c) :
    ((len.toNat - off) / 8 ≤ iterations →
      (tlvWalk32 mem cb (buf + len) iterations (buf + .ofNat off) c).result.isSome) ∧
    ∀ value ∈ (tlvWalk32 mem cb (buf + len) iterations (buf + .ofNat off) c).calls,
      InBuffer buf len value := by
  induction iterations generalizing off c with
  | zero =>
      have hcond := loop_condition_iff hram h.le_len
      unfold tlvWalk32
      split
      · rename_i hmore
        have hmore := hcond.mp hmore
        exact ⟨fun _ => by omega, by simp⟩
      · exact ⟨fun _ => rfl, by simp⟩
  | succ iterations ih =>
      have hcond := loop_condition_iff hram h.le_len
      unfold tlvWalk32
      split
      · rename_i hmore
        have hmore := hcond.mp hmore
        have hexact := hwrap off c h hmore
        dsimp only
        rw [ptr_next]
        split
        · exact ⟨fun _ => rfl, by simp⟩
        · rename_i hbound
          have hend : off + 8 + sizeAt mem buf off ≤ len.toNat := by
            rw [bound_check_iff hram hexact] at hbound
            omega
          have hvalue := entry_in_buffer hram hend
          split
          · exact ⟨fun _ => rfl, by simpa using hvalue⟩
          · rename_i hstop
            have hrest := ih (h.next hend (not_not.mp hstop))
            refine ⟨fun hlen => hrest.1 (by omega), ?_⟩
            intro value hmem
            rcases List.mem_cons.mp hmem with rfl | hmem
            · exact hvalue
            · exact hrest.2 value hmem
      · exact ⟨fun _ => rfl, by simp⟩

/-- What the walk passes to the callback from a header it reaches, it passes from the start. -/
theorem Reaches.calls (hram : MainRamBuffer buf len.toNat) {off : Nat} {c : σ}
    (h : Reaches mem cb buf len ctx off c) :
    ∃ before, ∀ iterations,
      (tlvWalk32 mem cb (buf + len) iterations (buf + .ofNat off) c).calls ⊆
        (tlvWalk32 mem cb (buf + len) (iterations + before) buf ctx).calls := by
  induction h with
  | start =>
      refine ⟨0, fun iterations => ?_⟩
      rw [show buf + UInt32.ofNat 0 = buf from UInt32.add_zero buf]
      exact List.Subset.refl _
  | @next off c hreach hend hok ih =>
      obtain ⟨before, hbefore⟩ := ih
      refine ⟨before + 1, fun iterations => ?_⟩
      have hloop := (loop_condition_iff hram hreach.le_len).mpr (by omega)
      have hlow := hram.high
      have hbound : ¬ buf + len < buf + .ofNat (off + 8 + sizeAt mem buf off) := by
        rw [bound_check_iff hram (by omega)]
        omega
      refine List.Subset.trans ?_
        (Nat.add_right_comm iterations 1 before ▸ hbefore (iterations + 1))
      intro value hmem
      unfold tlvWalk32
      rw [if_pos hloop]
      dsimp only
      rw [ptr_next, if_neg hbound]
      have hok' : (cb (loadBe32 mem (buf + .ofNat off)) (buf + .ofNat off + 8)
        (loadBe32 mem (buf + .ofNat off + 4)) c).2 = 0 := hok
      rw [if_neg (not_not.mpr hok')]
      exact List.mem_cons_of_mem _ hmem

/-- A header whose size wraps passes the bound check, and its value ends outside the datagram. -/
theorem wrap_escapes (hram : MainRamBuffer buf len.toNat) {off : Nat} {c : σ}
    (h : Reaches mem cb buf len ctx off c) (hmore : off + 8 ≤ len.toNat)
    (hwrap : 2 ^ 32 ≤ buf.toNat + off + 8 + sizeAt mem buf off) :
    ∃ iterations, ∃ value ∈ (tlvWalk32 mem cb (buf + len) iterations buf ctx).calls,
      ¬ InBuffer buf len value := by
  obtain ⟨before, hbefore⟩ := h.calls hram
  have hhigh := hram.high
  have hloop := (loop_condition_iff hram h.le_len).mpr hmore
  have hvalue := value_toNat hram h.le_len
  have hend := end_toNat hram
  have hsize : sizeAt mem buf off < 2 ^ 32 := UInt32.toNat_lt _
  have hbound : ¬ buf + len < buf + .ofNat off + 8 + loadBe32 mem (buf + .ofNat off + 4) := by
    have hsum : (buf + .ofNat off + 8 + loadBe32 mem (buf + .ofNat off + 4)).toNat =
        (buf.toNat + (off + 8) + sizeAt mem buf off) % 2 ^ 32 := by
      rw [UInt32.toNat_add, hvalue]
      rfl
    rw [UInt32.lt_iff_toNat_lt, hend, hsum]
    omega
  refine ⟨1 + before, (buf + .ofNat off + 8, loadBe32 mem (buf + .ofNat off + 4)),
    hbefore 1 ?_, ?_⟩
  · unfold tlvWalk32
    rw [if_pos hloop]
    dsimp only
    rw [if_neg hbound]
    split
    · exact List.mem_singleton_self _
    · exact List.mem_cons_self
  · intro hin
    have hlast := hin.2
    unfold sizeAt at hwrap
    dsimp only at hlast
    omega

/-- The walk of a datagram in main RAM stays inside the datagram and returns within `len / 8`
iterations exactly when no header it reaches has a size that wraps. -/
theorem tlv_walk_safe_iff (mem : UInt32 → UInt8) (cb : PtrCb σ) (buf len : UInt32) (ctx : σ)
    (hram : InMainRam buf len) : SafeWalk mem cb buf len ctx ↔ NoWrap mem cb buf len ctx := by
  constructor
  · intro hsafe off c hreach hmore
    by_contra hwrap
    obtain ⟨iterations, value, hmem, hout⟩ :=
      wrap_escapes hram.buffer hreach hmore (Nat.le_of_not_lt hwrap)
    exact hout (hsafe.2 iterations value hmem)
  · intro hwrap
    have hreach : Reaches mem cb buf len ctx 0 ctx := .start
    have hstart := fun iterations => walk_safe hram.buffer hwrap iterations hreach
    rw [show buf + UInt32.ofNat 0 = buf from UInt32.add_zero buf] at hstart
    exact ⟨(hstart _).1 (le_refl _), fun iterations => (hstart iterations).2⟩

/-- A datagram of two empty entries. -/
theorem tlv_walk_safe_iff_zeros :
    SafeWalk (fun _ => 0) (fun _ _ _ (n : Nat) => (n + 1, 0)) 0x40000000 16 0 := by
  have hram : InMainRam 0x40000000 16 := ⟨by decide, by decide, by decide⟩
  refine (tlv_walk_safe_iff _ _ _ _ _ hram).mpr ?_
  intro off c _ hmore
  have hlen : (16 : UInt32).toNat = 16 := rfl
  have hbuf : (0x40000000 : UInt32).toNat = 0x40000000 := rfl
  have hsize : sizeAt (fun _ => 0) 0x40000000 off = 0 := by
    show (be32 [0, 0, 0, 0]).toNat = 0
    decide
  omega

/-! ## Agreement with the walk of a byte list -/

/-- `be32` reads the first four bytes. -/
theorem be32_bytes_at (mem : UInt32 → UInt8) (p : UInt32) {n : Nat} (h : 4 ≤ n) :
    be32 (bytesAt mem p n) = loadBe32 mem p := by
  obtain ⟨m, rfl⟩ := Nat.exists_eq_add_of_le' h
  have hfour : bytesAt mem p (m + 4) =
      mem p :: mem (p + 1) :: mem (p + 2) :: mem (p + 3) :: bytesAt mem (p + .ofNat 4) m := by
    refine List.ext_getElem (by simp) ?_
    intro i hi _
    match i with
    | 0 => simp [bytes_at_getElem]
    | 1 | 2 | 3 => simp [bytes_at_getElem]
    | i + 4 =>
        simp only [List.getElem_cons_succ, bytes_at_getElem]
        rw [ptr_add, Nat.add_comm 4 i]
  rw [hfour]
  rfl

/-- A callback on byte lists, called with a pointer and a length. -/
def onBytes (mem : UInt32 → UInt8) (cb : TlvCb σ) : PtrCb σ :=
  fun key vp vlen ctx => cb key (bytesAt mem vp vlen.toNat) ctx

/-- Past the last header, both walks accept the datagram only if nothing is left of it. -/
theorem walk_exact_end (hram : MainRamBuffer buf len.toNat) {cb : TlvCb σ} {off : Nat} {c : σ}
    (hoff : off ≤ len.toNat) (hdone : ¬ off + 8 ≤ len.toNat) :
    (c, if buf + .ofNat off = buf + len then (0 : Int) else -1) =
      tlvWalk cb (bytesAt mem (buf + .ofNat off) (len.toNat - off)) c := by
  have hsame : buf + .ofNat off = buf + len ↔ off = len.toNat := by
    rw [← UInt32.toNat_inj, ptr_toNat hram (by omega), end_toNat hram]
    omega
  have hempty : bytesAt mem (buf + .ofNat off) (len.toNat - off) = [] ↔ off = len.toNat := by
    rw [← List.length_eq_zero_iff, bytes_at_length]
    omega
  have hshort : (bytesAt mem (buf + .ofNat off) (len.toNat - off)).length < 8 := by
    rw [bytes_at_length]
    omega
  rw [tlv_walk_eq, if_pos hshort]
  by_cases hend : off = len.toNat
  · rw [if_pos (hsame.mpr hend), if_pos (hempty.mpr hend)]
  · rw [if_neg fun h => hend (hsame.mp h), if_neg fun h => hend (hempty.mp h)]

/-- The walk of the bytes at a pointer, by the header in front of them. -/
theorem tlv_walk_header (mem : UInt32 → UInt8) (cb : TlvCb σ) (p : UInt32) {n : Nat} (hn : 8 ≤ n)
    (c : σ) :
    tlvWalk cb (bytesAt mem p n) c =
      let size := (loadBe32 mem (p + 4)).toNat
      if n - 8 < size then (c, -1)
      else
        let r := cb (loadBe32 mem p) (bytesAt mem (p + 8) size) c
        if r.2 ≠ 0 then (r.1, -1)
        else tlvWalk cb (bytesAt mem (p + 8 + .ofNat size) (n - 8 - size)) r.1 := by
  have hkey : be32 (bytesAt mem p n) = loadBe32 mem p := be32_bytes_at mem _ (by omega)
  have hsize : be32 ((bytesAt mem p n).drop 4) = loadBe32 mem (p + 4) := by
    rw [bytes_at_drop]
    exact be32_bytes_at mem _ (by omega)
  have hbody : (bytesAt mem p n).drop 8 = bytesAt mem (p + 8) (n - 8) := bytes_at_drop mem _ _ 8
  have hlong : ¬ (bytesAt mem p n).length < 8 := by
    rw [bytes_at_length]
    omega
  rw [tlv_walk_eq, if_neg hlong, hkey, hsize, hbody, bytes_at_length]
  dsimp only
  by_cases hout : n - 8 < (loadBe32 mem (p + 4)).toNat
  · rw [if_pos hout, if_pos hout]
  · rw [if_neg hout, if_neg hout, bytes_at_take mem _ (not_lt.mp hout), bytes_at_drop]

/-- At every header that the walk reaches, the callback answers as one on byte lists does. -/
def AnswersAs (mem : UInt32 → UInt8) (cb : PtrCb σ) (cb' : TlvCb σ) (buf len : UInt32)
    (ctx : σ) : Prop :=
  ∀ off c, Reaches mem cb buf len ctx off c → off + 8 + sizeAt mem buf off ≤ len.toNat →
    entryAt mem cb buf off c = entryAt mem (onBytes mem cb') buf off c

/-- Where no header wraps, the two walks agree from every header reached. -/
theorem walk_exact_from (hram : MainRamBuffer buf len.toNat) {cb' : TlvCb σ}
    (hwrap : NoWrap mem cb buf len ctx) (hsame : AnswersAs mem cb cb' buf len ctx)
    (iterations : Nat) {off : Nat} {c : σ} (h : Reaches mem cb buf len ctx off c)
    (hlen : (len.toNat - off) / 8 ≤ iterations) :
    (tlvWalk32 mem cb (buf + len) iterations (buf + .ofNat off) c).result =
      some (tlvWalk cb' (bytesAt mem (buf + .ofNat off) (len.toNat - off)) c) := by
  induction iterations generalizing off c with
  | zero =>
      have hcond := loop_condition_iff hram h.le_len
      have hdone : ¬ off + 8 ≤ len.toNat := by omega
      rw [tlvWalk32, if_neg fun hmore => hdone (hcond.mp hmore)]
      exact congrArg some (walk_exact_end hram h.le_len hdone)
  | succ iterations ih =>
      have hcond := loop_condition_iff hram h.le_len
      by_cases hmore : off + 8 ≤ len.toNat
      · -- the header does not wrap, so the pointer comparison is the one on lengths
        have hbound := bound_check_iff hram (hwrap off c h hmore)
        rw [tlvWalk32, if_pos (hcond.mpr hmore), tlv_walk_header mem cb' _ (by omega)]
        dsimp only
        rw [UInt32.ofNat_toNat, ptr_next]
        by_cases hout : len.toNat < off + 8 + sizeAt mem buf off
        · rw [if_pos (hbound.mpr hout)]
          exact congrArg some (if_pos (show _ < sizeAt mem buf off by omega)).symm
        · have hfits : ¬ len.toNat - off - 8 < (loadBe32 mem (buf + .ofNat off + 4)).toNat :=
            show ¬ _ < sizeAt mem buf off by omega
          have hrest : len.toNat - off - 8 - (loadBe32 mem (buf + .ofNat off + 4)).toNat =
              len.toNat - (off + 8 + sizeAt mem buf off) :=
            show _ - sizeAt mem buf off = _ by omega
          rw [if_neg fun hlt => hout (hbound.mp hlt), if_neg hfits, hrest]
          change WalkTrace.result (if (entryAt mem cb buf off c).2 ≠ 0
              then ⟨_, some ((entryAt mem cb buf off c).1, -1)⟩ else _) =
            some (if (entryAt mem (onBytes mem cb') buf off c).2 ≠ 0
              then ((entryAt mem (onBytes mem cb') buf off c).1, -1)
              else tlvWalk cb' _ (entryAt mem (onBytes mem cb') buf off c).1)
          rw [← hsame off c h (by omega)]
          by_cases hstop : (entryAt mem cb buf off c).2 = 0
          · rw [if_neg (not_not.mpr hstop), if_neg (not_not.mpr hstop)]
            exact ih (h.next (by omega) hstop) (by omega)
          · rw [if_pos hstop, if_pos hstop]
      · rw [tlvWalk32, if_neg fun hloop => hmore (hcond.mp hloop)]
        exact congrArg some (walk_exact_end hram h.le_len hmore)

/-- Where no header wraps, the walk on 32-bit pointers is the walk of the datagram's bytes. -/
theorem pointer_walk_exact {cb' : TlvCb σ} (hram : MainRamBuffer buf len.toNat)
    (hwrap : NoWrap mem cb buf len ctx) (hsame : AnswersAs mem cb cb' buf len ctx) :
    (tlvWalk32 mem cb (buf + len) (len.toNat / 8) buf ctx).result =
      some (tlvWalk cb' (bytesAt mem buf len.toNat) ctx) := by
  have hstart := walk_exact_from hram hwrap hsame (len.toNat / 8) .start (le_refl _)
  rwa [show buf + UInt32.ofNat 0 = buf from UInt32.add_zero buf] at hstart

/-- A callback that sees the bytes of its value only. -/
theorem tlv_walk_exact {cb : TlvCb σ} (hram : MainRamBuffer buf len.toNat)
    (hwrap : NoWrap mem (onBytes mem cb) buf len ctx) :
    (tlvWalk32 mem (onBytes mem cb) (buf + len) (len.toNat / 8) buf ctx).result =
      some (tlvWalk cb (bytesAt mem buf len.toNat) ctx) :=
  pointer_walk_exact hram hwrap fun _ _ _ _ => rfl

/-! ## A size that wraps -/

/-- A header at the start of main RAM with the size `0xFFFFFFF8`. -/
def spinning (p : UInt32) : UInt8 :=
  if p = 0x40000007 then 0xF8 else if 0x40000004 ≤ p ∧ p < 0x40000007 then 0xFF else 0

/-- That size brings the pointer back to the header: the value passed ends at the top of the
address space, and the loop never ends. -/
theorem tlv_walk_spins :
    ¬ ∀ (mem : UInt32 → UInt8) (cb : PtrCb Unit) (buf len : UInt32), InMainRam buf len →
      SafeWalk mem cb buf len () := by
  intro h
  have hram : InMainRam 0x40000000 8 := ⟨by decide, by decide, by decide⟩
  have hspin (iterations : Nat) :
      (tlvWalk32 spinning (fun _ _ _ _ => ((), 0)) 0x40000008 iterations 0x40000000 ()).result =
        none := by
    induction iterations with
    | zero => rfl
    -- one iteration leads back to the same header
    | succ iterations ih => exact ih
  have hsafe := (h spinning (fun _ _ _ _ => ((), 0)) 0x40000000 8 hram).1
  rw [show (0x40000000 : UInt32) + 8 = 0x40000008 from rfl, hspin] at hsafe
  cases hsafe

end LinkFPGA
