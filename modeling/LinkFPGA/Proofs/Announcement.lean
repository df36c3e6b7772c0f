import LinkFPGA.Firmware.AudioSend
import LinkFPGA.Proofs.TlvCodec

/-!
# The bytes of a PeerAnnouncement

The loops of `encode_peer_announcement` add up the sizes they are about to write. So an
announcement is a sequence of TLV entries (`peer_announcement_body_eq`), one of them the vector of
the channels in use, and its length is a sum over the local channels (`announcement_length`).
-/

namespace LinkFPGA

/-! ## The vector of channels -/

/-- The number of channels in use. -/
def usedCount (locals : List AudioLocal) : Nat := (locals.filter (·.inUse)).length

/-- The bytes the channels in use take. -/
def usedSize (locals : List AudioLocal) : Nat :=
  (locals.map fun c => if c.inUse then 12 + c.name.length else 0).sum

theorem encode_channel_length (c : AudioLocal) :
    (encodeChannel c).length = 12 + c.name.length := by
  unfold encodeChannel
  rw [List.length_append, List.length_append, put_be32_length, c.channelId.length_bytes]
  omega

theorem auca_channels_length (locals : List AudioLocal) :
    (aucaChannels locals).length = usedSize locals := by
  unfold aucaChannels usedSize
  rw [List.length_flatMap]
  congr 1
  refine List.map_congr_left fun c _ => ?_
  split
  · exact encode_channel_length c
  · rfl

/-- The first loop counts what the second one writes, modulo `2 ^ 32`. -/
theorem auca_totals_eq (locals : List AudioLocal) :
    aucaTotals locals = (.ofNat (4 + usedSize locals), .ofNat (usedCount locals)) := by
  have hloop (acc : UInt32 × UInt32) : locals.foldl (fun acc c =>
      if c.inUse then (acc.1 + (4 + .ofNat c.name.length + 8), acc.2 + 1) else acc) acc =
      (acc.1 + .ofNat (usedSize locals), acc.2 + .ofNat (usedCount locals)) := by
    induction locals generalizing acc with
    | nil => exact Prod.ext (UInt32.add_zero _).symm (UInt32.add_zero _).symm
    | cons c locals ih =>
        rw [List.foldl_cons, ih]
        unfold usedSize usedCount
        by_cases huse : c.inUse = true
        · have hsize : (4 : UInt32) + .ofNat c.name.length + 8 = .ofNat (12 + c.name.length) := by
            rw [show (12 + c.name.length) = 4 + c.name.length + 8 by omega, UInt32.ofNat_add,
              UInt32.ofNat_add]
            rfl
          rw [if_pos huse, List.filter_cons_of_pos huse, List.map_cons, List.sum_cons, if_pos huse,
            hsize, List.length_cons, Nat.add_comm _ 1]
          refine Prod.ext ?_ ?_
          · rw [UInt32.add_assoc, ← UInt32.ofNat_add]
          · show acc.2 + .ofNat 1 + _ = _
            rw [UInt32.add_assoc, ← UInt32.ofNat_add]
        · rw [if_neg huse, List.filter_cons_of_neg huse, List.map_cons, List.sum_cons, if_neg huse,
            Nat.zero_add]
  unfold aucaTotals
  rw [hloop, UInt32.ofNat_add]
  exact Prod.ext rfl (UInt32.zero_add _)

/-! ## The entries of an announcement -/

/-- The value of the `auca` entry. -/
def aucaValue (locals : List AudioLocal) : List UInt8 :=
  putBe32 (.ofNat (usedCount locals)) ++ aucaChannels locals

theorem auca_value_length (locals : List AudioLocal) :
    (aucaValue locals).length = 4 + usedSize locals := by
  rw [aucaValue, List.length_append, put_be32_length, auca_channels_length]

/-- The entries before the ping. -/
def announcementEntries (peerName : List UInt8) (w : AudioWorld) :
    List (UInt32 × List UInt8) :=
  [(keySess, w.core.linkSelfSession.bytes),
    (keyPi, putBe32 (.ofNat peerName.length) ++ peerName),
    (keyAuca, aucaValue w.linkAudioLocal)]

/-- An announcement is the encoding of its entries. -/
theorem peer_announcement_body_eq (peerName : List UInt8) (w : AudioWorld) :
    peerAnnouncementBody peerName w = encodeEntries (announcementEntries peerName w) := by
  have hname : (4 : UInt32) + .ofNat peerName.length =
      .ofNat (putBe32 (.ofNat peerName.length) ++ peerName).length := by
    rw [List.length_append, put_be32_length, UInt32.ofNat_add]
    rfl
  have hauca : (aucaTotals w.linkAudioLocal).1 = .ofNat (aucaValue w.linkAudioLocal).length := by
    rw [auca_totals_eq, auca_value_length]
  unfold peerAnnouncementBody announcementEntries
  dsimp only
  rw [hname, hauca, auca_totals_eq]
  simp only [encode_entries_cons, encode_entries_nil, tlvEmitBytes, aucaValue, List.append_assoc,
    List.append_nil]

/-- The ping entry. -/
def pingEntry (w : AudioWorld) (withPing : Bool) : List (UInt32 × List UInt8) :=
  if withPing then [(keyHt, putBe64 w.core.clock.now)] else []

/-- The bytes of an announcement: the header and the entries. -/
theorem encode_announcement_eq (peerName : List UInt8) (withPing : Bool) (w : AudioWorld) :
    (encodePeerAnnouncement peerName withPing w).1 =
      encodeAudioHeader w.core.linkSelfId 1 linkDiscoveryTtlSec.toUInt8 ++
        encodeEntries (announcementEntries peerName w ++ pingEntry w withPing) := by
  unfold encodePeerAnnouncement pingEntry
  dsimp only
  rw [encode_entries_append, ← peer_announcement_body_eq]
  cases withPing with
  | false => exact (List.append_nil _).symm ▸ rfl
  | true =>
      rw [if_pos rfl, if_pos rfl, encode_entries_cons, encode_entries_nil, List.append_nil,
        List.append_assoc, tlv_emit_u64be_eq]

theorem encode_audio_header_length (selfId : LinkId) (mtype ttl : UInt8) :
    (encodeAudioHeader selfId mtype ttl).length = 20 := by
  unfold encodeAudioHeader
  rw [List.length_append, selfId.length_bytes]
  rfl

/-- The length of an announcement. -/
theorem announcement_length (peerName : List UInt8) (withPing : Bool) (w : AudioWorld) :
    (encodePeerAnnouncement peerName withPing w).1.length =
      60 + peerName.length + usedSize w.linkAudioLocal + if withPing then 16 else 0 := by
  have hping : (encodeEntries (pingEntry w withPing)).length = if withPing then 16 else 0 := by
    cases withPing <;> rfl
  rw [encode_announcement_eq, List.length_append, encode_audio_header_length,
    encode_entries_append, List.length_append, hping, announcementEntries]
  simp only [encode_entries_cons, encode_entries_nil, List.length_append, List.length_nil,
    tlv_emit_bytes_length, put_be32_length, auca_value_length, w.core.linkSelfSession.length_bytes]
  omega

/-- The entries of a payload that was encoded from entries. -/
theorem tlv_entries_encode (entries : List (UInt32 × List UInt8))
    (hsize : ∀ entry ∈ entries, entry.2.length < 2 ^ 32) :
    tlvEntries (encodeEntries entries) = entries := by
  have hdeliver (seen : List (UInt32 × List UInt8)) :
      deliver collect entries seen = seen ++ entries := by
    induction entries generalizing seen with
    | nil => exact (List.append_nil seen).symm
    | cons entry entries ih =>
        show deliver collect entries (seen ++ [entry]) = _
        rw [ih fun e he => hsize e (List.mem_cons_of_mem _ he), List.append_assoc]
        rfl
  have haccept : Accepting collect := fun _ _ _ => rfl
  rw [tlvEntries, walk_encode haccept entries hsize, hdeliver, List.nil_append]

/-- A channel in use is one of the channels of the vector. -/
theorem encode_channel_infix {locals : List AudioLocal} {c : AudioLocal} (hmem : c ∈ locals)
    (huse : c.inUse = true) : encodeChannel c <:+: aucaValue locals := by
  obtain ⟨before, after, rfl⟩ := List.append_of_mem hmem
  refine ⟨putBe32 (.ofNat (usedCount (before ++ c :: after))) ++ aucaChannels before,
    aucaChannels after, ?_⟩
  unfold aucaValue aucaChannels
  rw [List.flatMap_append, List.flatMap_cons, if_pos huse]
  simp only [List.append_assoc]

end LinkFPGA
