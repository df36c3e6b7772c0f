import LinkFPGA.Library.Blocks
import LinkFPGA.Proofs.AudioBodies

/-!
# AudioBuffer round trip

A datagram of `send_audio_buffer_for` is the concatenation of `audioSegments`, so each field is
found at the sum of the lengths before it. `handle_rx_encoded` is the round trip: another node of
the session that has subscribed to the channel appends exactly the samples that were encoded.
-/

namespace LinkFPGA

open Blocks

section Encoded

variable (selfId session : LinkId) (bp : Int64) (c : AudioLocal) (beatsFirst : Int64)
  (samples : List UInt16)

/-- The fields of an encoded AudioBuffer, in order. -/
def audioSegments : List (List UInt8) :=
  [kProtoAudio, [6, 0, 0, 0], selfId.bytes, c.channelId.bytes, session.bytes, putBe32 1,
    putBe64 c.nextSendCount, putBe16 64, putBe64 beatsFirst.toUInt64, putBe64 bp.toUInt64, [1],
    putBe32 linkTdmFsHz, [1], putBe16 128, samples.flatMap putBe16]

theorem encode_eq_segments :
    encodeAudioBuffer selfId session bp c beatsFirst samples =
      (audioSegments selfId session bp c beatsFirst samples).flatten := by
  simp [encodeAudioBuffer, encodeAudioHeader, audioSegments, audioFramesPerPkt]

theorem sample_bytes_length : (samples.flatMap putBe16).length = 2 * samples.length := by
  induction samples with
  | nil => rfl
  | cons v samples ih =>
      rw [List.flatMap_cons, List.length_append, put_be16_length, ih, List.length_cons]
      omega

/-- The fields in front of the samples take 74 bytes. -/
theorem header_length :
    ((audioSegments selfId session bp c beatsFirst samples).take 14).flatten.length = 74 := by
  simp [audioSegments, kProtoAudio, selfId.length_bytes, c.channelId.length_bytes,
    session.length_bytes]

theorem encode_length :
    (encodeAudioBuffer selfId session bp c beatsFirst samples).length =
      74 + 2 * samples.length := by
  have hk : 14 < (audioSegments selfId session bp c beatsFirst samples).length := by
    simp [audioSegments]
  have hlast : (audioSegments selfId session bp c beatsFirst samples)[14] ++
      ((audioSegments selfId session bp c beatsFirst samples).drop 15).flatten =
        samples.flatMap putBe16 := List.append_nil _
  rw [encode_eq_segments, flatten_around hk, List.length_append, header_length, hlast,
    sample_bytes_length]

/-- The `count` of the first chunk of a datagram. -/
def countField (buf : List UInt8) : UInt64 := be64 (buf.drop 40)

/-- The sample bytes of a datagram with one chunk. -/
def samplePayload (buf : List UInt8) : List UInt8 := buf.drop 74

@[simp] theorem count_field_encode :
    countField (encodeAudioBuffer selfId session bp c beatsFirst samples) = c.nextSendCount := by
  have hoff : ((audioSegments selfId session bp c beatsFirst samples).take 6).flatten.length = 40 :=
    by simp [audioSegments, kProtoAudio, selfId.length_bytes, c.channelId.length_bytes,
      session.length_bytes]
  have hk : 6 < (audioSegments selfId session bp c beatsFirst samples).length := by
    simp [audioSegments]
  rw [countField, encode_eq_segments, flatten_around hk, List.drop_left' hoff]
  exact be64_put_be64_append _ _

@[simp] theorem sample_payload_encode :
    samplePayload (encodeAudioBuffer selfId session bp c beatsFirst samples) =
      samples.flatMap putBe16 := by
  have hk : 14 < (audioSegments selfId session bp c beatsFirst samples).length := by
    simp [audioSegments]
  rw [samplePayload, encode_eq_segments, flatten_around hk,
    List.drop_left' (header_length selfId session bp c beatsFirst samples)]
  exact List.append_nil _

/-- The bytes of one sample. -/
theorem sample_bytes {f : Nat} {v : UInt16} (h : samples[f]? = some v) :
    ((samples.flatMap putBe16).drop (2 * f)).take 2 = putBe16 v := by
  induction samples generalizing f with
  | nil => cases h
  | cons u samples ih =>
      cases f with
      | zero =>
          obtain rfl := Option.some.inj h
          rfl
      | succ f =>
          rw [List.flatMap_cons, Nat.mul_succ, Nat.add_comm, ← List.drop_drop,
            List.drop_left' (put_be16_length u)]
          exact ih h

/-- A field of an encoded AudioBuffer, read through the datagram's pointer. -/
theorem field_at (hsamples : samples.length = 64) (k off len : Nat) {field : List UInt8}
    (h : (audioSegments selfId session bp c beatsFirst samples)[k]? = some field)
    (hoff : ((audioSegments selfId session bp c beatsFirst samples).take k).flatten.length = off)
    (hlen : field.length = len) (hend : off + len ≤ 202) :
    bytesAt (memOf (encodeAudioBuffer selfId session bp c beatsFirst samples)) (.ofNat off) len =
      field := by
  have hbuf := encode_length selfId session bp c beatsFirst samples
  rw [hsamples] at hbuf
  rw [bytes_at_mem_of (by omega) (by omega), encode_eq_segments]
  exact segment_at h hoff hlen

/-- The body starts behind the header of 20 bytes. -/
theorem body_bytes (buf : UInt32 → UInt8) (off n : Nat) :
    bytesAt (audioBody buf) (.ofNat off) n = bytesAt buf (.ofNat (20 + off)) n := by
  unfold bytesAt
  refine List.map_congr_left ?_
  intro i _
  show buf (20 + (UInt32.ofNat off + UInt32.ofNat i)) = _
  rw [UInt32.ofNat_add, UInt32.add_assoc]
  rfl

/-- The first byte of a field. -/
theorem first_byte {mem : UInt32 → UInt8} {p : UInt32} {n : Nat} {b : UInt8} {rest : List UInt8}
    (h : bytesAt mem p (n + 1) = b :: rest) : mem p = b := by
  unfold bytesAt at h
  rw [List.range_succ_eq_map, List.map_cons] at h
  have hfirst := List.head_eq_of_cons_eq h
  rwa [show p + UInt32.ofNat 0 = p from UInt32.add_zero p] at hfirst

/-- The datagram is recognised by every other node. -/
theorem encode_is_audio_buffer (hsamples : samples.length = 64) {v : AudioWorld}
    (hid : selfId ≠ v.core.linkSelfId) :
    IsAudioBuffer v (memOf (encodeAudioBuffer selfId session bp c beatsFirst samples))
      (.ofNat (encodeAudioBuffer selfId session bp c beatsFirst samples).length) := by
  have hfield := @field_at selfId session bp c beatsFirst samples hsamples
  refine ⟨?_, ?_, ?_, ?_⟩
  · rw [encode_length, hsamples]
    decide
  · exact hfield 0 0 8 rfl rfl rfl (by decide)
  · exact first_byte (hfield 1 8 4 rfl rfl rfl (by decide))
  · have hsender := hfield 2 12 8 rfl rfl selfId.length_bytes (by decide)
    have hbytes : bytesAt (memOf (encodeAudioBuffer selfId session bp c beatsFirst samples)) 12 8 =
        selfId.bytes := hsender
    rw [hbytes, LinkId.ofBytes_bytes]
    exact hid

/-- A field of the body, read through the body's pointer. -/
theorem body_field_at (hsamples : samples.length = 64) (k off len : Nat) {field : List UInt8}
    (h : (audioSegments selfId session bp c beatsFirst samples)[k]? = some field)
    (hoff : ((audioSegments selfId session bp c beatsFirst samples).take k).flatten.length =
      20 + off) (hlen : field.length = len) (hend : 20 + off + len ≤ 202) :
    bytesAt (audioBody (memOf (encodeAudioBuffer selfId session bp c beatsFirst samples)))
      (.ofNat off) len = field := by
  rw [body_bytes]
  exact field_at selfId session bp c beatsFirst samples hsamples k (20 + off) len h hoff hlen hend

/-- What the fields of the body are read as. -/
structure ReadsBack (mem : UInt32 → UInt8) : Prop where
  channel : LinkId.ofBytes (bytesAt mem 0 8) = c.channelId
  session : LinkId.ofBytes (bytesAt mem 8 8) = session
  count : be32 (bytesAt mem (.ofNat 16) 4) = 1
  frames : be16 (bytesAt mem (.ofNat 28) 2) = 64
  codec : mem (.ofNat 46) = 1
  numChan : mem (.ofNat 51) = 1
  numBytes : be16 (bytesAt mem (.ofNat 52) 2) = 128
  samples : frameSamples mem 54 1 64 = samples

theorem encode_reads_back (hsamples : samples.length = 64) :
    ReadsBack session c samples
      (audioBody (memOf (encodeAudioBuffer selfId session bp c beatsFirst samples))) := by
  have hself := selfId.length_bytes
  have hchannel := c.channelId.length_bytes
  have hsession := session.length_bytes
  have hbody := @body_field_at selfId session bp c beatsFirst samples hsamples
  generalize audioBody (memOf (encodeAudioBuffer selfId session bp c beatsFirst samples)) = mem
    at hbody
  unfold audioSegments at hbody
  refine ⟨?_, ?_, ?_, ?_, ?_, ?_, ?_, ?_⟩
  · have hbytes := hbody 3 0 8 rfl (by simp [hself, kProtoAudio]) hchannel (by decide)
    rw [show (0 : UInt32) = .ofNat 0 from rfl, hbytes, LinkId.ofBytes_bytes]
  · have hbytes := hbody 4 8 8 rfl (by simp [hself, hchannel, kProtoAudio]) hsession (by decide)
    rw [show (8 : UInt32) = .ofNat 8 from rfl, hbytes, LinkId.ofBytes_bytes]
  · rw [hbody 5 16 4 rfl (by simp [hself, hchannel, hsession, kProtoAudio]) rfl (by decide)]
    rfl
  · rw [hbody 7 28 2 rfl (by simp [hself, hchannel, hsession, kProtoAudio]) rfl (by decide)]
    rfl
  · exact first_byte
      (hbody 10 46 1 rfl (by simp [hself, hchannel, hsession, kProtoAudio]) rfl (by decide))
  · exact first_byte
      (hbody 12 51 1 rfl (by simp [hself, hchannel, hsession, kProtoAudio]) rfl (by decide))
  · rw [hbody 13 52 2 rfl (by simp [hself, hchannel, hsession, kProtoAudio]) rfl (by decide)]
    rfl
  · have hbytes := hbody 14 54 128 rfl (by simp [hself, hchannel, hsession, kProtoAudio])
      (by rw [sample_bytes_length, hsamples]) (by decide)
    refine List.ext_getElem (by simp [hsamples]) ?_
    intro f hf hf'
    have hsample : bytesAt mem (.ofNat (54 + 2 * f)) 2 = putBe16 samples[f] := by
      rw [UInt32.ofNat_add, ← sample_bytes samples (List.getElem?_eq_getElem hf'), ← hbytes,
        bytes_at_drop, bytes_at_take _ _ (by omega)]
    simp only [frameSamples, List.getElem_map, List.getElem_range]
    rw [← be16_at, Nat.mul_one, hsample, be16_put_be16]

variable {selfId session bp c beatsFirst samples}

theorem ReadsBack.trailer_at {mem : UInt32 → UInt8} (h : ReadsBack session c samples mem) :
    trailerAt mem = 46 := by
  have hcount : chunkCountAt mem = 1 := h.count
  rw [trailerAt, hcount]
  rfl

theorem ReadsBack.total_frame_sum {mem : UInt32 → UInt8} (h : ReadsBack session c samples mem) :
    totalFrameSum mem = 64 := by
  have hcount : chunkCountAt mem = 1 := h.count
  have hone : totalFrameSum mem = (be16 (bytesAt mem (.ofNat 28) 2)).toNat := by
    unfold totalFrameSum
    rw [hcount]
    rfl
  rw [hone, h.frames]
  rfl

/-- The code accepts the body, for the samples that were encoded. -/
theorem ReadsBack.accepted {mem : UInt32 → UInt8} (h : ReadsBack session c samples mem)
    {n : UInt32} (hn : n.toNat = 182) : AcceptedBody mem n ∧ bodySamples mem = samples := by
  have hchan : numChanAt mem (.ofNat 46) = 1 := h.numChan
  have hbytes : numBytesAt mem (.ofNat 46) = 128 := h.numBytes
  constructor
  · refine ⟨by omega, ?_, ?_⟩
    · rw [show chunkCountAt mem = 1 from h.count]
      decide
    · rw [h.trailer_at, h.total_frame_sum]
      refine ⟨by omega, h.codec, ?_, ?_, ?_⟩
      · rw [hchan]
        decide
      · rw [hchan, hbytes]
        rfl
      · rw [hbytes, hn]
        decide
  · rw [bodySamples, h.trailer_at, h.total_frame_sum, hchan]
    exact h.samples

/-- Another node of the session that has subscribed to the channel appends the samples. -/
theorem handle_rx_encoded (hsamples : samples.length = 64) {v : AudioWorld} {j : Nat}
    {sub : AudioSub} (hid : selfId ≠ v.core.linkSelfId)
    (hsession : session = v.core.linkSelfSession)
    (hfind : findSubForChannel v c.channelId = some j) (hsub : v.linkAudioSubs[j]? = some sub)
    (srcAddr : UInt32) (srcPort : UInt16) :
    let buf := encodeAudioBuffer selfId session bp c beatsFirst samples
    linkAudioHandleRx (memOf buf) (.ofNat buf.length) srcAddr srcPort v =
      v.setSub j (sub.deliver 1 samples) := by
  intro buf
  have hbuffer := encode_is_audio_buffer selfId session bp c beatsFirst samples hsamples hid
  have hback := encode_reads_back selfId session bp c beatsFirst samples hsamples
  rw [handle_rx_audio_buffer hbuffer]
  have hlen : (UInt32.ofNat buf.length - 20).toNat = 182 := by
    rw [show buf.length = 74 + 2 * samples.length from encode_length .., hsamples]
    rfl
  show (handleAudioBuffer (audioBody (memOf buf)) (.ofNat buf.length - 20) v).1 = _
  generalize audioBody (memOf buf) = mem at hback
  obtain ⟨haccept, hbody⟩ := hback.accepted hlen
  have hchan : numChanAt mem (.ofNat 46) = 1 := hback.numChan
  rw [handle_accepted haccept (hback.session.trans hsession) (by rw [hback.channel]; exact hfind)
    hsub, hback.trailer_at, hchan, hbody]

end Encoded

end LinkFPGA
