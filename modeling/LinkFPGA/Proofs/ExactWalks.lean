import LinkFPGA.Firmware.Link
import LinkFPGA.Proofs.EntryBounds
import LinkFPGA.Proofs.WalkBounds

/-!
# Where the exact walks are the walks on memory

The receive paths are modelled on byte lists: `tlvWalk` takes the pointers for exact, and inside
an entry `memOf` takes the bytes behind the value for zeros. Here `tlv_walk` runs on 32-bit
pointers over one memory, and the handlers read a value where it lies, with whatever stands behind
it. `discovery_walk_exact`, `announcement_walk_exact` and `byes_walk_exact` say that the two are
the same as long as no size on the way wraps.

Read `auca_walk_same` first: a loop whose lengths do not wrap never looks behind the value.
-/

namespace LinkFPGA

/-! ## Reads inside a value -/

/-- The memory from a pointer on. -/
def memFrom (mem : UInt32 → UInt8) (p : UInt32) : UInt32 → UInt8 := fun off => mem (p + off)

/-- Two memories hold the same value of `n` bytes. -/
def SameValue (n : UInt32) (mem mem' : UInt32 → UInt8) : Prop := ∀ o < n, mem o = mem' o

/-- The value at a pointer, and the same bytes with zeros behind them. -/
theorem same_value_mem_of (mem : UInt32 → UInt8) (p n : UInt32) :
    SameValue n (memFrom mem p) (memOf (bytesAt mem p n.toNat)) := by
  intro o ho
  have hin : o.toNat < (bytesAt mem p n.toNat).length := by
    rw [bytes_at_length]
    exact UInt32.lt_iff_toNat_lt.mp ho
  show mem (p + o) = byteAt (bytesAt mem p n.toNat) o.toNat
  rw [byteAt, List.getD_eq_getElem _ _ hin, bytes_at_getElem, UInt32.ofNat_toNat]

section
variable {mem mem' : UInt32 → UInt8} {n : UInt32} (hsame : SameValue n mem mem')

include hsame

theorem SameValue.bytes {p : UInt32} {k : Nat} (hin : p.toNat + k ≤ n.toNat) :
    bytesAt mem p k = bytesAt mem' p k := by
  refine List.map_congr_left ?_
  intro i hi
  exact hsame _ (read_inside hin (List.mem_map_of_mem hi))

variable (peerId : LinkId) (peerAddr : UInt32) (peerPort : UInt16)

/-- From a channel on, the loop reads the value only, if no length it comes to wraps. -/
theorem auca_walk_same {count k : Nat} {c : EntryCursor} (h : AtChannel mem n k c)
    (hwrap : ∀ j, k ≤ j → j < k + count → ¬ NameWraps mem n j) (w : AudioWorld) :
    aucaWalk mem peerId peerAddr peerPort count c w =
      aucaWalk mem' peerId peerAddr peerPort count c w := by
  induction count generalizing k c w with
  | zero => rfl
  | succ count ih =>
      unfold aucaWalk
      by_cases hshort : c.cur.n < 4
      · rw [if_pos hshort, if_pos hshort]
      · have hlong : 4 ≤ c.cur.n.toNat := UInt32.le_iff_toNat_le.mp (UInt32.not_lt.mp hshort)
        have hrest := h.rest
        have hp := h.p
        have hword : bytesAt mem c.cur.p 4 = bytesAt mem' c.cur.p 4 := hsame.bytes (by omega)
        rw [if_neg hshort, if_neg hshort]
        dsimp only
        rw [← hword]
        by_cases hname : (c.cur.fetch 4).n < be32 (bytesAt mem c.cur.p 4) + 8
        · rw [if_pos hname, if_pos hname]
        · have hpass : nameLenAt mem k + 8 ≤ c.cur.n - 4 := by
            rw [← h.len]
            exact UInt32.not_lt.mp hname
          have hfits : channelOffset mem (k + 1) ≤ n.toNat :=
            ((h.passes_iff (by omega)).mp hpass).resolve_right (hwrap k le_rfl (by omega))
          have hcopied := name_copied_le (nameLenAt mem k)
          have hoff := channel_offset_succ mem k
          obtain ⟨hp1, hp2, -⟩ := h.pointers hfits
          have hnameBytes : bytesAt mem (c.cur.fetch 4).p (nameCopied (nameLenAt mem k)) =
              bytesAt mem' (c.cur.fetch 4).p (nameCopied (nameLenAt mem k)) :=
            hsame.bytes (show (c.cur.p + 4).toNat + _ ≤ _ by omega)
          have hid : bytesAt mem (c.cur.p + 4 + nameLenAt mem k) 8 =
              bytesAt mem' (c.cur.p + 4 + nameLenAt mem k) 8 := hsame.bytes (by omega)
          have hnext := ih (h.next hfits) (fun j hkj hj => hwrap j (by omega) (by omega))
          rw [if_neg hname, if_neg hname]
          unfold nextChannel at hnext
          rw [h.len] at hnext ⊢
          refine (hnext _).trans (congrArg (aucaWalk mem' peerId peerAddr peerPort count _) ?_)
          exact congrArg₂ (fun cid name =>
            recordChannel peerId peerAddr peerPort (.ofBytes cid) (cString name) w) hid hnameBytes

/-- An entry of an announcement. -/
theorem ann_walk_same {key : UInt32} (hwrap : ¬ AnnWraps mem key n) (s : AnnCtx × AudioWorld) :
    annWalk mem peerId peerAddr peerPort key n s =
      annWalk mem' peerId peerAddr peerPort key n s := by
  have hword (hlong : ¬ n < 4) : bytesAt mem 0 4 = bytesAt mem' 0 4 :=
    hsame.bytes (by
      rw [UInt32.lt_iff_toNat_lt] at hlong
      show 0 + 4 ≤ _
      have h4 : (4 : UInt32).toNat = 4 := rfl
      omega)
  unfold annWalk
  dsimp only
  by_cases hht : key = keyHt
  · rw [if_pos hht, if_pos hht]
    by_cases height : n = 8
    · have hlong : bytesAt mem 0 8 = bytesAt mem' 0 8 := hsame.bytes (by rw [height]; rfl)
      rw [hlong]
    · rw [if_pos height, if_pos height]
  · rw [if_neg hht, if_neg hht]
    by_cases hpi : key = keyPi
    · rw [if_pos hpi, if_pos hpi]
      by_cases hshort : n < 4
      · rw [if_pos hshort, if_pos hshort]
      · rw [if_neg hshort, if_neg hshort, hword hshort]
    · rw [if_neg hpi, if_neg hpi]
      by_cases hauca : key = keyAuca
      · by_cases hshort : n < 4
        · rw [if_pos hauca, if_pos hauca, if_pos hshort, if_pos hshort]
        · have hlong : 4 ≤ n.toNat := UInt32.le_iff_toNat_le.mp (UInt32.not_lt.mp hshort)
          have hloop : aucaWalk mem peerId peerAddr peerPort (be32 (bytesAt mem 0 4)).toNat
                ⟨(BodyCursor.start n).fetch 4, []⟩ s.2 =
              aucaWalk mem' peerId peerAddr peerPort (be32 (bytesAt mem 0 4)).toNat
                ⟨(BodyCursor.start n).fetch 4, []⟩ s.2 := by
            refine auca_walk_same hsame peerId peerAddr peerPort (first_channel mem hlong) ?_ s.2
            intro j _ hj hname
            exact hwrap ⟨hlong, .inr ⟨hauca, j, by rwa [Nat.zero_add] at hj, hname⟩⟩
          rw [if_pos hauca, if_pos hauca, if_neg hshort, if_neg hshort, ← hword hshort, hloop]
      · rw [if_neg hauca, if_neg hauca]

/-- An entry of a byes message. -/
theorem aucb_walk_same {key : UInt32} (hwrap : ¬ AucbWraps mem key n) (w : AudioWorld) :
    (aucbWalk mem key n w).2 = (aucbWalk mem' key n w).2 := by
  unfold aucbWalk
  dsimp only
  by_cases hkey : key = keyAucb
  · rw [if_neg (not_not.mpr hkey), if_neg (not_not.mpr hkey)]
    by_cases hshort : n < 4
    · rw [if_pos hshort, if_pos hshort]
    · have hlong : 4 ≤ n.toNat := UInt32.le_iff_toNat_le.mp (UInt32.not_lt.mp hshort)
      have hword : bytesAt mem 0 4 = bytesAt mem' 0 4 := hsame.bytes (show 0 + 4 ≤ _ by omega)
      have hcount : be32 (bytesAt mem 0 4) = be32 (bytesAt mem' 0 4) := congrArg be32 hword
      rw [if_neg hshort, if_neg hshort, ← hcount]
      by_cases hrefused : ((BodyCursor.start n).fetch 4).n < be32 (bytesAt mem 0 4) * 8
      · rw [if_pos hrefused, if_pos hrefused]
      · have hroom : 4 + firstWord mem * 8 ≤ n.toNat := by
          have hn4 : ((BodyCursor.start n).fetch 4).n.toNat = n.toNat - 4 := size_sub (k := 4) hlong
          have hproduct : (be32 (bytesAt mem 0 4) * 8).toNat = firstWord mem * 8 % 2 ^ 32 :=
            UInt32.toNat_mul _ 8
          have hfits : firstWord mem * 8 % 2 ^ 32 ≤ n.toNat - 4 := by
            rw [← hproduct, ← hn4]
            exact UInt32.le_iff_toNat_le.mp (UInt32.not_lt.mp hrefused)
          have hexact : firstWord mem * 8 < 2 ^ 32 :=
            not_le.mp fun hbig => hwrap ⟨hkey, hlong, hbig, hfits⟩
          rw [Nat.mod_eq_of_lt hexact] at hfits
          omega
        rw [if_neg hrefused, if_neg hrefused]
        refine Prod.ext ?_ rfl
        refine (byes_loop mem _ w _).world.trans (Eq.trans ?_ (byes_loop mem' _ w _).world.symm)
        refine List.foldl_ext _ _ w ?_
        intro w' i hi
        have hi' : i < firstWord mem := List.mem_range.mp hi
        have hoff : (4 + UInt32.ofNat (i * 8)).toNat = 4 + i * 8 := by
          have hsize := n.toNat_lt
          rw [UInt32.toNat_add, UInt32.toNat_ofNat_of_lt' (show i * 8 < 2 ^ 32 by omega)]
          exact Nat.mod_eq_of_lt (show 4 + i * 8 < 2 ^ 32 by omega)
        have hid : bytesAt mem (4 + .ofNat (i * 8)) 8 = bytesAt mem' (4 + .ofNat (i * 8)) 8 :=
          hsame.bytes (by omega)
        exact congrArg (fun cid => dropChannel (.ofBytes cid) w') hid
  · rw [if_pos hkey, if_pos hkey]

end

/-! ## The handlers on memory -/

section
variable (mem : UInt32 → UInt8) (peerId : LinkId) (peerAddr : UInt32) (peerPort : UInt16)

/-- `ann_handler`, called with a pointer. -/
def annHandlerAt : PtrCb (AnnCtx × AudioWorld) := fun key vp vlen s =>
  (annWalk (memFrom mem vp) peerId peerAddr peerPort key vlen s).2

/-- `handle_aucb_entry`, called with a pointer. -/
def handleAucbEntryAt : PtrCb AudioWorld := fun key vp vlen w =>
  (aucbWalk (memFrom mem vp) key vlen w).2

/-- No header that the walk reaches wraps, and no value passes a comparison that wraps. -/
structure Unwrapped {σ : Type} (wraps : (UInt32 → UInt8) → UInt32 → UInt32 → Prop)
    (cb : PtrCb σ) (buf len : UInt32) (ctx : σ) : Prop where
  headers : NoWrap mem cb buf len ctx
  values : ∀ off c, Reaches mem cb buf len ctx off c → off + 8 + sizeAt mem buf off ≤ len.toNat →
    ¬ wraps (memFrom mem (buf + .ofNat off + 8)) (loadBe32 mem (buf + .ofNat off))
      (loadBe32 mem (buf + .ofNat off + 4))

variable {mem} {buf len : UInt32}

/-- The walk of a discovery datagram's payload, with the sender's record as its context. -/
theorem discovery_walk_exact {p : Peer} (hram : MainRamBuffer buf len.toNat)
    (hlen : 20 ≤ len.toNat)
    (hwrap : NoWrap mem (onBytes mem handleEntry) (buf + 20) (len - 20) p) :
    (tlvWalk32 mem (onBytes mem handleEntry) (buf + len) ((len.toNat - 20) / 8) (buf + 20)
      p).result = some (tlvWalk handleEntry (messageBody (bytesAt mem buf len.toNat)) p) := by
  have hlow := hram.low
  have hhigh := hram.high
  have hrest : (len - 20).toNat = len.toNat - 20 := size_sub (k := 20) hlen
  have hstart : (buf + 20).toNat = buf.toNat + 20 :=
    ptr_toNat hram (show 20 ≤ len.toNat + 8 by omega)
  have hbody : messageBody (bytesAt mem buf len.toNat) =
      bytesAt mem (buf + 20) (len - 20).toNat := by
    rw [hrest]
    exact bytes_at_drop mem buf len.toNat 20
  have hend : buf + 20 + (len - 20) = buf + len := by grind
  have hwalk := tlv_walk_exact ⟨by omega, by omega⟩ hwrap
  rwa [hend, hrest, ← hrest, ← hbody, hrest] at hwalk

/-- The walk of an announcement. -/
theorem announcement_walk_exact {s : AnnCtx × AudioWorld} (hram : MainRamBuffer buf len.toNat)
    (h : Unwrapped mem AnnWraps (annHandlerAt mem peerId peerAddr peerPort) buf len s) :
    (tlvWalk32 mem (annHandlerAt mem peerId peerAddr peerPort) (buf + len) (len.toNat / 8) buf
      s).result =
      some (tlvWalk (annHandler peerId peerAddr peerPort) (bytesAt mem buf len.toNat) s) := by
  refine pointer_walk_exact hram h.headers ?_
  intro off c hreach hfits
  have hvalue := ann_walk_eq peerId peerAddr peerPort (loadBe32 mem (buf + .ofNat off))
    (bytesAt mem (buf + .ofNat off + 8) (loadBe32 mem (buf + .ofNat off + 4)).toNat) c
  rw [bytes_at_length, UInt32.ofNat_toNat] at hvalue
  refine Eq.trans (congrArg Prod.snd ?_) hvalue
  exact ann_walk_same (same_value_mem_of _ _ _) peerId peerAddr peerPort
    (h.values off c hreach hfits) c

/-- The walk of a byes message. -/
theorem byes_walk_exact {w : AudioWorld} (hram : MainRamBuffer buf len.toNat)
    (h : Unwrapped mem AucbWraps (handleAucbEntryAt mem) buf len w) :
    (tlvWalk32 mem (handleAucbEntryAt mem) (buf + len) (len.toNat / 8) buf w).result =
      some (tlvWalk handleAucbEntry (bytesAt mem buf len.toNat) w) := by
  refine pointer_walk_exact hram h.headers ?_
  intro off c hreach hfits
  have hvalue := aucb_walk_eq (loadBe32 mem (buf + .ofNat off))
    (bytesAt mem (buf + .ofNat off + 8) (loadBe32 mem (buf + .ofNat off + 4)).toNat) c
  rw [bytes_at_length, UInt32.ofNat_toNat] at hvalue
  refine Eq.trans ?_ hvalue
  exact aucb_walk_same (same_value_mem_of _ _ _) (h.values off c hreach hfits) c

end

end LinkFPGA
