import LinkFPGA.Proofs.AudioWalk

/-!
# What an AudioBuffer body holds

The fields of a body by their offsets, the sum of the frames of its chunks as a number, and the
samples of channel 0 byte by byte. `handle_accepted` and `handle_refused` say in these terms what
`handle_audio_buffer` makes of a body: it adds the frames up in 16 bits, and looks for the fields
behind the chunks where a 32-bit product says.
-/

namespace LinkFPGA

/-! ## Fields and samples -/

/-- The sum of the frames of all chunks of a body. -/
def totalFrameSum (mem : UInt32 → UInt8) : Nat := frameSum mem 20 (chunkCountAt mem).toNat

/-- The offset of the fields behind the chunks. -/
def trailerOffset (mem : UInt32 → UInt8) : Nat := 20 + 26 * (chunkCountAt mem).toNat

/-- Where the code looks for them: `chunk_count * 26` is reduced modulo 2^32. -/
def trailerAt (mem : UInt32 → UInt8) : Nat := 20 + 26 * (chunkCountAt mem).toNat % 2 ^ 32

/-- The fields at this offset and the sample bytes behind them are all there, and describe this
many frames. -/
structure Describes (mem : UInt32 → UInt8) (n : UInt32) (off frames : Nat) : Prop where
  trailer : off + 8 ≤ n.toNat
  codec : codecAt mem (.ofNat off) = 1
  numChan : numChanAt mem (.ofNat off) ≠ 0
  frames : frames * (numChanAt mem (.ofNat off)).toNat * 2 = (numBytesAt mem (.ofNat off)).toNat
  bytes : off + 8 + (numBytesAt mem (.ofNat off)).toNat ≤ n.toNat

instance (mem : UInt32 → UInt8) (n : UInt32) (off frames : Nat) :
    Decidable (Describes mem n off frames) :=
  decidable_of_iff (off + 8 ≤ n.toNat ∧ codecAt mem (.ofNat off) = 1 ∧
      numChanAt mem (.ofNat off) ≠ 0 ∧
      frames * (numChanAt mem (.ofNat off)).toNat * 2 = (numBytesAt mem (.ofNat off)).toNat ∧
      off + 8 + (numBytesAt mem (.ofNat off)).toNat ≤ n.toNat)
    ⟨fun ⟨t, c, m, f, b⟩ => ⟨t, c, m, f, b⟩, fun ⟨t, c, m, f, b⟩ => ⟨t, c, m, f, b⟩⟩

/-- The 16-bit big-endian number at an offset. -/
def sampleAt (mem : UInt32 → UInt8) (off : Nat) : UInt16 :=
  .ofNat (256 * (mem (.ofNat off)).toNat + (mem (.ofNat (off + 1))).toNat)

/-- The samples of channel 0 of the frames that start at an offset: that of frame `f` is the sample
at index `f * numChan`. -/
def frameSamples (mem : UInt32 → UInt8) (off numChan frames : Nat) : List UInt16 :=
  (List.range frames).map fun f => sampleAt mem (off + 2 * (f * numChan))

/-- The code accepts the body. -/
structure AcceptedBody (mem : UInt32 → UInt8) (n : UInt32) : Prop where
  long : 54 ≤ n.toNat
  some : chunkCountAt mem ≠ 0
  fields : Describes mem n (trailerAt mem) (totalFrameSum mem % 65536)

instance (mem : UInt32 → UInt8) (n : UInt32) : Decidable (AcceptedBody mem n) :=
  decidable_of_iff (54 ≤ n.toNat ∧ chunkCountAt mem ≠ 0 ∧
      Describes mem n (trailerAt mem) (totalFrameSum mem % 65536))
    ⟨fun ⟨l, s, f⟩ => ⟨l, s, f⟩, fun ⟨l, s, f⟩ => ⟨l, s, f⟩⟩

/-- The samples of channel 0 of a body that is accepted. -/
def bodySamples (mem : UInt32 → UInt8) : List UInt16 :=
  frameSamples mem (trailerAt mem + 8) (numChanAt mem (.ofNat (trailerAt mem))).toNat
    (totalFrameSum mem % 65536)

@[simp] theorem frame_samples_length (mem : UInt32 → UInt8) (off numChan frames : Nat) :
    (frameSamples mem off numChan frames).length = frames := by
  simp [frameSamples]

/-! ## The code's view of them -/

variable {mem : UInt32 → UInt8} {n : UInt32}

/-- `be16` reads a big-endian number. -/
theorem be16_at (mem : UInt32 → UInt8) (off : Nat) :
    be16 (bytesAt mem (.ofNat off) 2) = sampleAt mem off := by
  have hlow := (mem (.ofNat (off + 1))).toNat_lt
  have hhigh := (mem (.ofNat off)).toNat_lt
  have hpair : bytesAt mem (.ofNat off) 2 = [mem (.ofNat off), mem (.ofNat (off + 1))] := by
    show [mem (.ofNat off + .ofNat 0), mem (.ofNat off + .ofNat 1)] = _
    rw [← UInt32.ofNat_add, ← UInt32.ofNat_add, Nat.add_zero]
  rw [hpair]
  show (mem (.ofNat off)).toUInt16 <<< 8 ||| (mem (.ofNat (off + 1))).toUInt16 = _
  refine UInt16.toNat_inj.mp ?_
  have hshift : (mem (.ofNat off)).toNat <<< 8 = 256 * (mem (.ofNat off)).toNat := by
    rw [Nat.shiftLeft_eq, Nat.mul_comm]
  rw [sampleAt, UInt16.toNat_or, UInt16.toNat_shiftLeft, UInt8.toNat_toUInt16,
    UInt8.toNat_toUInt16, UInt16.toNat_ofNat_of_lt' (show _ < 65536 by omega)]
  show (mem (.ofNat off)).toNat <<< 8 % 65536 ||| (mem (.ofNat (off + 1))).toNat = _
  rw [Nat.mod_eq_of_lt (by omega), ← Nat.shiftLeft_add_eq_or_of_lt (by omega), hshift]

/-- The code's samples of channel 0. -/
theorem channel_zero_eq (mem : UInt32 → UInt8) (off : Nat) (numChan : UInt8) (frames : Nat) :
    channelZero mem (.ofNat off) numChan frames = frameSamples mem off numChan.toNat frames := by
  refine List.map_congr_left fun f _ => ?_
  rw [sampleOffset, ← UInt32.ofNat_add, be16_at, Nat.mul_comm 2]

/-- `total_frames` is the sum modulo 2^16. -/
theorem total_frames_toNat (mem : UInt32 → UInt8) (n : UInt32) :
    (chunksEnd mem n).2.toNat = totalFrameSum mem % 65536 := by
  have hframes := (chunk_loop_cursor mem (headerCursor n) (chunkCountAt mem).toNat).frames
  show ((chunkStep mem)^[(chunkCountAt mem).toNat] (headerCursor n, 0)).2.toNat = _
  rw [hframes]
  exact UInt16.toNat_ofNat

/-- Behind the loop the cursor stands where the product says. -/
theorem chunks_end_pos (mem : UInt32 → UInt8) (n : UInt32) :
    (chunksEnd mem n).1.p = .ofNat (trailerAt mem) := by
  have hloop := (chunk_loop_cursor mem (headerCursor n) (chunkCountAt mem).toNat).p
  have hreduced : UInt32.ofNat (26 * (chunkCountAt mem).toNat % 2 ^ 32) =
      .ofNat (26 * (chunkCountAt mem).toNat) := UInt32.ofNat_mod_size
  rw [chunksEnd, hloop, trailerAt, UInt32.ofNat_add, hreduced]
  rfl

/-- The body is as long as the product says, as far as the code can tell. -/
theorem chunked_iff : Chunked mem n ↔
    54 ≤ n.toNat ∧ chunkCountAt mem ≠ 0 ∧ trailerAt mem ≤ n.toNat := by
  have hfits (hlong : 54 ≤ n.toNat) :
      chunkCountAt mem * 26 ≤ n - 20 ↔ trailerAt mem ≤ n.toNat := by
    have hrest : (n - 20).toNat = n.toNat - 20 := size_sub (k := 20) (by omega)
    rw [UInt32.le_iff_toNat_le, product_toNat, hrest, trailerAt]
    omega
  constructor
  · rintro ⟨hlong, hsome, hfit⟩
    have hlong' : 54 ≤ n.toNat := UInt32.le_iff_toNat_le.mp hlong
    exact ⟨hlong', hsome, (hfits hlong').mp hfit⟩
  · rintro ⟨hlong, hsome, hfit⟩
    exact ⟨UInt32.le_iff_toNat_le.mpr hlong, hsome, (hfits hlong).mpr hfit⟩

/-- What the cursor behind the loop leaves of the body. -/
theorem chunks_end_rest (hlong : 54 ≤ n.toNat) (hfit : trailerAt mem ≤ n.toNat) :
    (chunksEnd mem n).1.n.toNat = n.toNat - trailerAt mem := by
  have hloop := (chunk_loop_cursor mem (headerCursor n) (chunkCountAt mem).toNat).n
  have hreduced : UInt32.ofNat (26 * (chunkCountAt mem).toNat) =
      .ofNat (26 * (chunkCountAt mem).toNat % 2 ^ 32) := UInt32.ofNat_mod_size.symm
  unfold trailerAt at hfit ⊢
  rw [chunksEnd, hloop, hreduced, size_sub (by rw [header_rest hlong]; omega), header_rest hlong]
  omega

/-- The code accepts a body exactly when the parser gets to its end. -/
theorem accepted_iff : AcceptedBody mem n ↔
    Chunked mem n ∧ ¬ (chunksEnd mem n).1.n < 8 ∧ Passes mem (chunksEnd mem n) := by
  rw [chunked_iff]
  have hroom (hlong : 54 ≤ n.toNat) (hfit : trailerAt mem ≤ n.toNat) :
      ¬ (chunksEnd mem n).1.n < 8 ↔ trailerAt mem + 8 ≤ n.toNat := by
    rw [UInt32.lt_iff_toNat_lt, chunks_end_rest hlong hfit]
    show ¬ _ < 8 ↔ _
    omega
  have hbytes (hlong : 54 ≤ n.toNat) (hmore : trailerAt mem + 8 ≤ n.toNat) (x : UInt16) :
      x.toUInt32 ≤ (samplesCursor (chunksEnd mem n).1).n ↔
        trailerAt mem + 8 + x.toNat ≤ n.toNat := by
    have hn : (samplesCursor (chunksEnd mem n).1).n = (chunksEnd mem n).1.n - .ofNat 8 := by
      show (chunksEnd mem n).1.n - 1 - 4 - 1 - 2 = (chunksEnd mem n).1.n - 8
      grind
    have hrest : (chunksEnd mem n).1.n.toNat = n.toNat - trailerAt mem :=
      chunks_end_rest hlong (by omega)
    rw [UInt32.le_iff_toNat_le, UInt16.toNat_toUInt32, hn, size_sub (by omega), hrest]
    omega
  constructor
  · rintro ⟨hlong, hsome, htrailer, hcodec, hchan, hframes, hpresent⟩
    refine ⟨⟨hlong, hsome, by omega⟩, (hroom hlong (by omega)).mpr htrailer, ?_, ?_, ?_, ?_⟩
    · rwa [chunks_end_pos]
    · rwa [chunks_end_pos]
    · rwa [chunks_end_pos, frames_compare, total_frames_toNat]
    · rw [chunks_end_pos]
      exact (hbytes hlong htrailer _).mpr hpresent
  · rintro ⟨⟨hlong, hsome, hfit⟩, hmore, hcodec, hchan, hframes, hpresent⟩
    have htrailer := (hroom hlong hfit).mp hmore
    rw [chunks_end_pos] at hcodec hchan hframes hpresent
    rw [frames_compare, total_frames_toNat] at hframes
    exact ⟨hlong, hsome, htrailer, hcodec, hchan, hframes, (hbytes hlong htrailer _).mp hpresent⟩

/-- What the parser returns of a body it accepts. -/
theorem parse_accepted (h : AcceptedBody mem n) :
    parseAudioBuffer mem n =
      (samplesCursor (chunksEnd mem n).1, some (infoAt mem (chunksEnd mem n))) := by
  obtain ⟨hchunked, hmore, hpass⟩ := accepted_iff.mp h
  rw [parse_late hchunked, if_neg hmore, if_pos hpass]

/-- A body that the parser returns something of is accepted. -/
theorem accepted_of_parse {c : BodyCursor} {info : AudioBufferInfo}
    (h : parseAudioBuffer mem n = (c, some info)) : AcceptedBody mem n := by
  rw [accepted_iff]
  by_cases hchunked : Chunked mem n
  · refine ⟨hchunked, ?_⟩
    rw [parse_late hchunked] at h
    split at h
    · cases h
    · rename_i hmore
      refine ⟨hmore, ?_⟩
      by_contra hfail
      rw [if_neg hfail] at h
      cases h
  · rcases parse_early hchunked with hnone | ⟨_, hnone⟩
    · rw [hnone] at h
      cases h
    · rw [hnone] at h
      cases h

/-- An accepted body of our session delivers its samples of channel 0 to the subscription to its
channel. -/
theorem handle_accepted (h : AcceptedBody mem n) {w : AudioWorld}
    (hsession : LinkId.ofBytes (bytesAt mem 8 8) = w.core.linkSelfSession) {j : Nat}
    (hfind : findSubForChannel w (.ofBytes (bytesAt mem 0 8)) = some j) {sub : AudioSub}
    (hsub : w.linkAudioSubs[j]? = some sub) :
    (handleAudioBuffer mem n w).1 = w.setSub j
      (sub.deliver (numChanAt mem (.ofNat (trailerAt mem))) (bodySamples mem)) := by
  have hpos : (samplesCursor (chunksEnd mem n).1).p = .ofNat (trailerAt mem + 8) := by
    have hp : (samplesCursor (chunksEnd mem n).1).p = (chunksEnd mem n).1.p + .ofNat 8 := by
      show (chunksEnd mem n).1.p + 1 + 4 + 1 + 2 = (chunksEnd mem n).1.p + 8
      grind
    rw [hp, chunks_end_pos, ← UInt32.ofNat_add]
  rw [handle_audio_buffer_delivers (parse_accepted h) hsession hfind hsub, hpos, channel_zero_eq]
  show w.setSub j (sub.deliver (numChanAt mem (chunksEnd mem n).1.p)
    (frameSamples mem (trailerAt mem + 8) (numChanAt mem (chunksEnd mem n).1.p).toNat
      (chunksEnd mem n).2.toNat)) = _
  rw [chunks_end_pos, total_frames_toNat]
  rfl

/-- Any other body changes nothing. -/
theorem handle_refused {w : AudioWorld} (h : AcceptedBody mem n →
    LinkId.ofBytes (bytesAt mem 8 8) ≠ w.core.linkSelfSession ∨
      findSubForChannel w (.ofBytes (bytesAt mem 0 8)) = none) :
    (handleAudioBuffer mem n w).1 = w := by
  refine handle_audio_buffer_ignores fun c info hparse => ?_
  have haccept := accepted_of_parse hparse
  obtain ⟨-, hinfo⟩ := Prod.mk.inj ((parse_accepted haccept).symm.trans hparse)
  obtain rfl := Option.some.inj hinfo
  exact h haccept

end LinkFPGA
