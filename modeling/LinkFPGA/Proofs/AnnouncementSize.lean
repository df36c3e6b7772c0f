import LinkFPGA.Proofs.AudioCalls
import LinkFPGA.Proofs.AudioStream

/-!
# How long an announcement gets

`encode_peer_announcement` writes 21 bytes for each of the channels that `link_audio_init` has
set up, on a stack buffer of 1200 bytes. `announcements_fit_iff` says that this is enough for up
to three TDM ports and for no more.
-/

namespace LinkFPGA

open Runs

/-! ## The size of the table -/

/-- The bytes a channel takes. -/
def identitySize (c : Bool × LinkId × List UInt8) : Nat := if c.1 then 12 + c.2.2.length else 0

theorem used_size_eq (w : AudioWorld) :
    usedSize w.linkAudioLocal = ((identities w).map identitySize).sum := by
  rw [identities, List.map_map]
  rfl

/-- The names of the first four ports are nine bytes long. -/
theorem local_name_length : ∀ i < 64,
    (localName (i / linkTdmChannelsPerPort) (i % linkTdmChannelsPerPort)).length = 9 := by
  decide +kernel

theorem run_used_size (core : World) (ports : Nat) (es : List AudioCall) :
    usedSize (run callAudio (audioBoot core ports) es).linkAudioLocal =
      ((List.range (ports * linkTdmChannelsPerPort)).map fun i =>
        12 + (localName (i / linkTdmChannelsPerPort) (i % linkTdmChannelsPerPort)).length).sum := by
  rw [used_size_eq, run_identities, identities, List.map_map,
    audio_boot_map (g := fun i =>
      12 + (localName (i / linkTdmChannelsPerPort) (i % linkTdmChannelsPerPort)).length)]
  intro w idx
  rfl

/-- The channels of up to four ports take 21 bytes each. -/
theorem used_size_few {ports : Nat} (hports : ports ≤ 4) :
    ((List.range (ports * linkTdmChannelsPerPort)).map fun i =>
      12 + (localName (i / linkTdmChannelsPerPort) (i % linkTdmChannelsPerPort)).length).sum =
      ports * 336 := by
  have hconst : (List.range (ports * linkTdmChannelsPerPort)).map (fun i =>
      12 + (localName (i / linkTdmChannelsPerPort) (i % linkTdmChannelsPerPort)).length) =
      (List.range (ports * linkTdmChannelsPerPort)).map fun _ => 21 := by
    refine List.map_congr_left fun i hi => ?_
    have hlt := List.mem_range.mp hi
    have hall : ports * linkTdmChannelsPerPort ≤ 4 * linkTdmChannelsPerPort :=
      Nat.mul_le_mul_right _ hports
    rw [local_name_length i (Nat.lt_of_lt_of_le hlt hall)]
  rw [hconst, List.map_const', List.sum_replicate_nat, List.length_range,
    linkTdmChannelsPerPort]
  omega

/-- The channels of more ports take at least as many. -/
theorem used_size_many {ports : Nat} (hports : 4 ≤ ports) :
    1344 ≤ ((List.range (ports * linkTdmChannelsPerPort)).map fun i =>
      12 + (localName (i / linkTdmChannelsPerPort) (i % linkTdmChannelsPerPort)).length).sum := by
  obtain ⟨more, rfl⟩ := Nat.exists_eq_add_of_le hports
  rw [Nat.add_mul, List.range_add, List.map_append, List.sum_append,
    used_size_few (Nat.le_refl 4)]
  exact Nat.le_add_right _ _

/-! ## Announcements -/

/-- The announcement has an `auca` entry that contains the channel. -/
def Lists (buf : List UInt8) (c : AudioLocal) : Prop :=
  ∃ entry ∈ tlvEntries (buf.drop 20), entry.1 = keyAuca ∧ encodeChannel c <:+: entry.2

/-- The bytes fit into `buf[LINK_MAX_MSG_AUDIO]` and list every channel in use. -/
def Fits (w : AudioWorld) (buf : List UInt8) : Prop :=
  buf.length ≤ linkMaxMsgAudio ∧ ∀ c ∈ w.linkAudioLocal, c.inUse = true → Lists buf c

/-- An announcement that fits into its buffer lists every channel in use. -/
theorem announcement_lists {peerName : List UInt8} {withPing : Bool} {w : AudioWorld}
    (hfits : (encodePeerAnnouncement peerName withPing w).1.length ≤ linkMaxMsgAudio)
    {c : AudioLocal} (hmem : c ∈ w.linkAudioLocal) (huse : c.inUse = true) :
    Lists (encodePeerAnnouncement peerName withPing w).1 c := by
  rw [encode_announcement_eq] at hfits ⊢
  have hsize (entry : UInt32 × List UInt8)
      (hentry : entry ∈ announcementEntries peerName w ++ pingEntry w withPing) :
      entry.2.length < 2 ^ 32 := by
    have hle := entry_size_lt (le_refl _) entry hentry
    rw [List.length_append] at hfits
    unfold linkMaxMsgAudio at hfits
    omega
  refine ⟨(keyAuca, aucaValue w.linkAudioLocal), ?_, rfl, encode_channel_infix hmem huse⟩
  rw [List.drop_left' (encode_audio_header_length _ _ _), tlv_entries_encode _ hsize]
  simp [announcementEntries]

/-- The datagrams of a round of announcements. -/
def announcementRound (peerName : List UInt8) (w : AudioWorld) : List Datagram :=
  (sendAnnouncements peerName w).core.sent.drop w.core.sent.length

/-- The bytes of a datagram. -/
def Datagram.bytes : Datagram → List UInt8
  | .unicast _ _ _ buf => buf
  | .mcastV4 _ _ buf => buf
  | .mcastV6 _ _ buf => buf

/-- A round sends announcements. -/
theorem round_announces {peerName : List UInt8} {w : AudioWorld} {d : Datagram}
    (hd : d ∈ announcementRound peerName w) : IsAnnouncement peerName w d.bytes := by
  obtain ⟨_, sent, hsent, hmem⟩ := announce_sends peerName w
  rw [announcementRound, hsent, List.drop_left] at hd
  obtain ⟨_, _, buf, rfl, hbuf⟩ := hmem d hd
  exact hbuf

section
variable (core : World) (ports : Nat) (es : List AudioCall) (peerName : List UInt8)

/-- With up to three ports every announcement fits. -/
theorem few_ports_fit (hports : ports ≤ 3) (hname : peerName.length ≤ 31) {w : AudioWorld}
    (hw : w = run callAudio (audioBoot core ports) es) {buf : List UInt8}
    (h : IsAnnouncement peerName w buf) : Fits w buf := by
  obtain ⟨withPing, _, ⟨clock, sent, rfl⟩, rfl⟩ := h
  have hused := run_used_size core ports es
  rw [← hw, used_size_few (by omega)] at hused
  have hlen : (encodePeerAnnouncement peerName withPing
      { w with core := { w.core with clock := clock, sent := sent } }).1.length ≤
      linkMaxMsgAudio := by
    have hping : (if withPing = true then 16 else 0) ≤ 16 := by
      cases withPing <;> decide
    rw [announcement_length]
    dsimp only
    rw [hused]
    unfold linkMaxMsgAudio
    omega
  exact ⟨hlen, fun c hmem huse => announcement_lists hlen hmem huse⟩

/-- With four ports or more no announcement fits. -/
theorem many_ports_overflow (hports : 4 ≤ ports) (withPing : Bool) :
    linkMaxMsgAudio < (encodePeerAnnouncement peerName withPing
      (run callAudio (audioBoot core ports) es)).1.length := by
  have hused := used_size_many hports
  rw [announcement_length, run_used_size]
  unfold linkMaxMsgAudio
  omega

/-- Whatever has happened since `link_audio_init`, the announcements stay within their buffer and
list every channel in use exactly if there are at most three TDM ports. -/
theorem announcements_fit_iff (hname : peerName.length ≤ 31) (w : AudioWorld)
    (hw : w = run callAudio (audioBoot core ports) es) :
    ((∀ withPing, Fits w (encodePeerAnnouncement peerName withPing w).1) ∧
      ∀ d ∈ announcementRound peerName w, Fits w d.bytes) ↔ ports ≤ 3 := by
  constructor
  · intro h
    by_contra hmany
    -- the announcement without a ping is too long already
    have hover := many_ports_overflow core ports es peerName (by omega) false
    have hfits := (h.1 false).1
    rw [hw] at hfits
    omega
  · intro hfew
    refine ⟨fun withPing => ?_, fun d hd => ?_⟩
    · exact few_ports_fit core ports es peerName hfew hname hw ⟨withPing, w, .refl w, rfl⟩
    · exact few_ports_fit core ports es peerName hfew hname hw (round_announces hd)

end

/-- The build with two ports, with the name the firmware has. -/
theorem announcements_fit_iff_two :
    ((∀ withPing, Fits (audioBoot (powerOn (fun _ => 0) 0 []) 2) (encodePeerAnnouncement
        [0x6C, 0x69, 0x6E, 0x6B, 0x66, 0x70, 0x67, 0x61] withPing
        (audioBoot (powerOn (fun _ => 0) 0 []) 2)).1) ∧
      ∀ d ∈ announcementRound [0x6C, 0x69, 0x6E, 0x6B, 0x66, 0x70, 0x67, 0x61]
        (audioBoot (powerOn (fun _ => 0) 0 []) 2),
        Fits (audioBoot (powerOn (fun _ => 0) 0 []) 2) d.bytes) ↔ 2 ≤ 3 :=
  announcements_fit_iff (powerOn (fun _ => 0) 0 []) 2 [] _ (by decide) _ rfl

/-- The build with four ports overflows the buffer with its first announcement. -/
theorem four_ports_overflow :
    ¬ ∀ (core : World) (ports : Nat) (es : List AudioCall) (peerName : List UInt8)
      (withPing : Bool), 1 ≤ ports → peerName.length ≤ 31 →
      (encodePeerAnnouncement peerName withPing
        (run callAudio (audioBoot core ports) es)).1.length ≤ linkMaxMsgAudio := by
  intro h
  have hover := many_ports_overflow (powerOn (fun _ => 0) 0 []) 4 []
    [0x6C, 0x69, 0x6E, 0x6B, 0x66, 0x70, 0x67, 0x61] (le_refl 4) false
  have hfits := h (powerOn (fun _ => 0) 0 []) 4 []
    [0x6C, 0x69, 0x6E, 0x6B, 0x66, 0x70, 0x67, 0x61] false (by decide) (by decide)
  omega

end LinkFPGA
