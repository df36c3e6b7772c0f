import Mathlib.Data.List.TakeWhile
import LinkFPGA.Firmware.Main
import LinkFPGA.Proofs.CatalogMessages

/-!
# A PeerAnnouncement, heard

`ann_handler` reads the vector of channels with running lengths, channel by channel
(`auca_loop_encoded`), so hearing an announcement is recording the channels in use
(`handle_announcement`), and answering the ping. `announcement_round_trip` says what that leaves
in the catalog of a node in any state it can reach.
-/

namespace LinkFPGA

open Runs SlotTable

/-- The channels of a table that are announced. -/
def usedChannels (locals : List AudioLocal) : List AudioLocal := locals.filter (·.inUse)

theorem auca_channels_eq (locals : List AudioLocal) :
    aucaChannels locals = (usedChannels locals).flatMap encodeChannel := by
  unfold aucaChannels usedChannels
  induction locals with
  | nil => rfl
  | cons c locals ih =>
      rw [List.flatMap_cons, ih]
      by_cases huse : c.inUse = true
      · rw [if_pos huse, List.filter_cons_of_pos huse, List.flatMap_cons]
      · rw [if_neg huse, List.filter_cons_of_neg huse, List.nil_append]

/-- A channel in use takes at least a byte. -/
theorem used_count_le_size (locals : List AudioLocal) : usedCount locals ≤ usedSize locals := by
  unfold usedCount usedSize
  induction locals with
  | nil => exact Nat.le_refl 0
  | cons c locals ih =>
      rw [List.map_cons, List.sum_cons]
      by_cases huse : c.inUse = true
      · have hfilter : (c :: locals).filter (·.inUse) = c :: locals.filter (·.inUse) :=
          List.filter_cons_of_pos huse
        rw [hfilter, List.length_cons, if_pos huse]
        omega
      · have hfilter : (c :: locals).filter (·.inUse) = locals.filter (·.inUse) :=
          List.filter_cons_of_neg huse
        rw [hfilter, if_neg huse]
        omega

/-! ## The vector of channels -/

/-- A field inside a run of bytes. -/
theorem bytes_at_field (rd : UInt32 → UInt8) (v : UInt32) {n off len : Nat}
    (h : off + len ≤ n) :
    bytesAt rd (v + .ofNat off) len = ((bytesAt rd v n).drop off).take len := by
  rw [bytes_at_drop, bytes_at_take rd _ (by omega)]

/-- A name without a NUL is the string in its array. -/
theorem c_string_eq {name : List UInt8} (h : 0 ∉ name) : cString name = name := by
  refine List.takeWhile_eq_self_iff.mpr fun b hb => ?_
  exact decide_eq_true fun hzero => h (hzero ▸ hb)

section
variable (peerId : LinkId) (peerAddr : UInt32) (peerPort : UInt16)

/-- The loop records the channels it was encoded from. -/
theorem auca_loop_encoded {rd : UInt32 → UInt8} {channels : List AudioLocal} {v n : UInt32}
    (hbytes : bytesAt rd v n.toNat = channels.flatMap encodeChannel)
    (hnames : ∀ c ∈ channels, c.name.length < linkAudioNameMax ∧ 0 ∉ c.name) (w : AudioWorld) :
    aucaLoop rd peerId peerAddr peerPort channels.length v n w =
      (recordChannels peerId peerAddr peerPort channels w, 0) := by
  induction channels generalizing v n w with
  | nil => rfl
  | cons c channels ih =>
      obtain ⟨hname, hnul⟩ := hnames c List.mem_cons_self
      have hmax : linkAudioNameMax = 32 := rfl
      rw [List.flatMap_cons] at hbytes
      have hn : n.toNat = 12 + c.name.length + (channels.flatMap encodeChannel).length := by
        have hlen := congrArg List.length hbytes
        rwa [bytes_at_length, List.length_append, encode_channel_length] at hlen
      -- the three fields of the first channel
      have hsplit : bytesAt rd v n.toNat = putBe32 (.ofNat c.name.length) ++ (c.name ++
          (c.channelId.bytes ++ channels.flatMap encodeChannel)) := by
        rw [hbytes, encodeChannel, List.append_assoc, List.append_assoc]
      have hdrop4 : (bytesAt rd v n.toNat).drop 4 = c.name ++
          (c.channelId.bytes ++ channels.flatMap encodeChannel) := by
        rw [hsplit, List.drop_left' (put_be32_length _)]
      have hdrop : (bytesAt rd v n.toNat).drop (4 + c.name.length) =
          c.channelId.bytes ++ channels.flatMap encodeChannel := by
        rw [← List.drop_drop, hdrop4, List.drop_left]
      have hlenField : be32 (bytesAt rd v 4) = .ofNat c.name.length := by
        rw [← bytes_at_take rd v (show 4 ≤ n.toNat by omega), hsplit,
          List.take_left' (put_be32_length _)]
        exact be32_put_be32_append _ []
      have hnameLen : (UInt32.ofNat c.name.length).toNat = c.name.length :=
        UInt32.toNat_ofNat_of_lt' (show c.name.length < 2 ^ 32 by omega)
      have hnameField : bytesAt rd (v + 4) c.name.length = c.name := by
        rw [show v + 4 = v + .ofNat 4 from rfl,
          bytes_at_field rd v (show 4 + c.name.length ≤ n.toNat by omega), hdrop4, List.take_left]
      have hptr : v + 4 + .ofNat c.name.length = v + .ofNat (4 + c.name.length) :=
        ptr_add v 4 c.name.length
      have hidField : bytesAt rd (v + 4 + .ofNat c.name.length) 8 = c.channelId.bytes := by
        rw [hptr, bytes_at_field rd v (show 4 + c.name.length + 8 ≤ n.toNat by omega), hdrop,
          List.take_left' c.channelId.length_bytes]
      -- the remainder after it
      have hn4 : (n - 4).toNat = n.toNat - 4 := size_sub (k := 4) (by omega)
      have hnName : (n - 4 - .ofNat c.name.length).toNat = n.toNat - 4 - c.name.length := by
        rw [size_sub (by omega), hn4]
      have hrest : (n - 4 - .ofNat c.name.length - 8).toNat =
          (channels.flatMap encodeChannel).length := by
        have hid : (n - 4 - .ofNat c.name.length - 8).toNat =
            (n - 4 - .ofNat c.name.length).toNat - 8 := size_sub (k := 8) (by omega)
        rw [hid, hnName]
        omega
      have hbytes' : bytesAt rd (v + 4 + .ofNat c.name.length + 8)
          (n - 4 - .ofNat c.name.length - 8).toNat = channels.flatMap encodeChannel := by
        have hafter := bytes_at_drop rd v n.toNat (4 + c.name.length + 8)
        rw [← List.drop_drop, hdrop, List.drop_left' c.channelId.length_bytes] at hafter
        have hleft : (channels.flatMap encodeChannel).length =
            n.toNat - (4 + c.name.length + 8) := by omega
        rw [hrest, hptr, show (8 : UInt32) = .ofNat 8 from rfl, ptr_add, hleft]
        exact hafter.symm
      have hlong : ¬ n < 4 := UInt32.not_lt.mpr (UInt32.le_iff_toNat_le.mpr (show 4 ≤ _ by omega))
      have hroom : ¬ n - 4 < .ofNat c.name.length + 8 := by
        refine UInt32.not_lt.mpr (UInt32.le_iff_toNat_le.mpr ?_)
        rw [UInt32.toNat_add, hnameLen, hn4]
        show (_ + 8) % _ ≤ _
        omega
      rw [List.length_cons, aucaLoop, if_neg hlong]
      dsimp only
      rw [hlenField, if_neg hroom, hnameLen, if_pos hname, hnameField, hidField, c_string_eq hnul,
        LinkId.ofBytes_bytes,
        ih hbytes' (fun c' hc' => hnames c' (List.mem_cons_of_mem _ hc'))]
      rfl

/-- What the `auca` entry of an announcement does. -/
theorem ann_handler_auca {locals : List AudioLocal} (hsize : (aucaValue locals).length < 2 ^ 32)
    (hnames : ∀ c ∈ usedChannels locals, c.name.length < linkAudioNameMax ∧ 0 ∉ c.name)
    (s : AnnCtx × AudioWorld) :
    annHandler peerId peerAddr peerPort keyAuca (aucaValue locals) s =
      ((s.1, recordChannels peerId peerAddr peerPort (usedChannels locals) s.2), 0) := by
  have hlen := auca_value_length locals
  have hn : (UInt32.ofNat (aucaValue locals).length).toNat = (aucaValue locals).length :=
    UInt32.toNat_ofNat_of_lt' hsize
  have hlong : ¬ UInt32.ofNat (aucaValue locals).length < 4 :=
    UInt32.not_lt.mpr (UInt32.le_iff_toNat_le.mpr (show 4 ≤ _ by omega))
  have hcount : (be32 (aucaValue locals)).toNat = (usedChannels locals).length := by
    have hle := used_count_le_size locals
    rw [aucaValue, be32_put_be32_append, UInt32.toNat_ofNat_of_lt' (show _ < 2 ^ 32 by omega)]
    rfl
  have hbytes : bytesAt (memOf (aucaValue locals)) 4
      (UInt32.ofNat (aucaValue locals).length - 4).toNat =
        (usedChannels locals).flatMap encodeChannel := by
    rw [UInt32.toNat_sub_of_le _ _ (UInt32.not_lt.mp hlong), hn,
      show (4 : UInt32) = .ofNat 4 from rfl]
    show bytesAt _ _ ((aucaValue locals).length - 4) = _
    rw [bytes_at_mem_of hsize (by omega), aucaValue, List.drop_left' (put_be32_length _),
      List.take_of_length_le (by simp), auca_channels_eq]
  unfold annHandler
  dsimp only
  rw [if_neg (by decide), if_neg (by decide), if_neg (by decide), if_pos rfl, if_neg hlong, hcount,
    auca_loop_encoded peerId peerAddr peerPort hbytes hnames]

end

/-! ## The datagram -/

/-- Hearing the entries of an announcement records the channels in use, and answers the ping. -/
theorem handle_announcement {peerName : List UInt8} {sender : AudioWorld} (withPing : Bool)
    (hpeerName : peerName.length < linkAudioNameMax)
    (hnames : ∀ c ∈ usedChannels sender.linkAudioLocal,
      c.name.length < linkAudioNameMax ∧ 0 ∉ c.name)
    (hsize : (aucaValue sender.linkAudioLocal).length < 2 ^ 32) (peerId : LinkId)
    (srcAddr : UInt32) (srcPort : UInt16) (w : AudioWorld) :
    handlePeerAnnouncement peerId srcAddr srcPort
        (encodeEntries (announcementEntries peerName sender ++ pingEntry sender withPing)) w =
      if withPing then sendPong srcAddr srcPort sender.core.clock.now.toInt64
        (recordChannels peerId srcAddr srcPort (usedChannels sender.linkAudioLocal) w)
      else recordChannels peerId srcAddr srcPort (usedChannels sender.linkAudioLocal) w := by
  have hmax : linkAudioNameMax = 32 := rfl
  set recorded := recordChannels peerId srcAddr srcPort (usedChannels sender.linkAudioLocal) w
    with hrecorded
  have hsess (s : AnnCtx × AudioWorld) : annHandler peerId srcAddr srcPort keySess
      sender.core.linkSelfSession.bytes s = (s, 0) := by
    unfold annHandler
    dsimp only
    rw [sender.core.linkSelfSession.length_bytes]
    rfl
  have hpi (s : AnnCtx × AudioWorld) : annHandler peerId srcAddr srcPort keyPi
      (putBe32 (.ofNat peerName.length) ++ peerName) s = (s, 0) := by
    have hn : (UInt32.ofNat (4 + peerName.length)).toNat = 4 + peerName.length :=
      UInt32.toNat_ofNat_of_lt' (show _ < 2 ^ 32 by omega)
    have hlong : ¬ UInt32.ofNat (4 + peerName.length) < 4 :=
      UInt32.not_lt.mpr (UInt32.le_iff_toNat_le.mpr (show 4 ≤ _ by omega))
    have hwhole : (4 : UInt32) + .ofNat peerName.length = .ofNat (4 + peerName.length) := by
      rw [UInt32.ofNat_add]
      rfl
    unfold annHandler
    dsimp only
    rw [List.length_append, put_be32_length, be32_put_be32_append, hwhole, if_neg (by decide),
      if_pos rfl, if_neg hlong, if_neg (by simp)]
  have hauca := ann_handler_auca peerId srcAddr srcPort hsize hnames (⟨0, false⟩, w)
  have hwalk : tlvWalk (annHandler peerId srcAddr srcPort)
      (encodeEntries (announcementEntries peerName sender ++ pingEntry sender withPing))
      (⟨0, false⟩, w) =
        (((if withPing then ⟨sender.core.clock.now.toInt64, true⟩ else ⟨0, false⟩), recorded),
          0) := by
    rw [announcementEntries, List.cons_append, List.cons_append, List.cons_append, List.nil_append,
      encode_entries_cons, encode_entries_cons, encode_entries_cons,
      tlv_walk_accepted (by rw [LinkId.length_bytes]; decide) (hsess _),
      tlv_walk_accepted (by rw [List.length_append, put_be32_length]; omega) (hpi _),
      tlv_walk_accepted hsize hauca]
    cases withPing with
    | false => rfl
    | true =>
        have hping (s : AnnCtx × AudioWorld) : annHandler peerId srcAddr srcPort keyHt
            (putBe64 sender.core.clock.now) s =
              ((⟨sender.core.clock.now.toInt64, true⟩, s.2), 0) := by
          unfold annHandler
          dsimp only
          rw [if_pos rfl, put_be64_length, if_neg (by decide), be64_put_be64]
        rw [pingEntry, if_pos rfl, encode_entries_cons,
          tlv_walk_accepted (by rw [put_be64_length]; decide) (hping _)]
        rfl
  unfold handlePeerAnnouncement
  rw [hwalk]
  cases withPing <;> rfl

/-- A PeerAnnouncement of another node is handed over with its sender and its entries. -/
theorem handle_rx_announcement {peerId : LinkId} {ttl : UInt8} {body : List UInt8}
    (hsize : 20 + body.length < 2 ^ 32) {w : AudioWorld} (hother : peerId ≠ w.core.linkSelfId)
    (srcAddr : UInt32) (srcPort : UInt16) :
    linkAudioHandleRx (memOf (encodeAudioHeader peerId 1 ttl ++ body))
        (.ofNat (encodeAudioHeader peerId 1 ttl ++ body).length) srcAddr srcPort w =
      handlePeerAnnouncement peerId srcAddr srcPort body w := by
  have hlen : (encodeAudioHeader peerId 1 ttl ++ body).length = 20 + body.length := by
    rw [List.length_append, encode_audio_header_length]
  have hn : (UInt32.ofNat (20 + body.length)).toNat = 20 + body.length :=
    UInt32.toNat_ofNat_of_lt' hsize
  have hheader : 20 ≤ UInt32.ofNat (20 + body.length) :=
    UInt32.le_iff_toNat_le.mpr (show 20 ≤ _ by omega)
  have hrest : (UInt32.ofNat (20 + body.length) - 20).toNat = body.length := by
    have hsub : (UInt32.ofNat (20 + body.length) - 20).toNat =
        (UInt32.ofNat (20 + body.length)).toNat - 20 := size_sub (k := 20) (by omega)
    rw [hsub, hn]
    omega
  have hfield (off n : Nat) (h : off + n ≤ 20 + body.length) :
      bytesAt (memOf (encodeAudioHeader peerId 1 ttl ++ body)) (.ofNat off) n =
        ((encodeAudioHeader peerId 1 ttl ++ body).drop off).take n :=
    bytes_at_mem_of (by omega) (by omega)
  have hproto := hfield 0 8 (by omega)
  have hsender := hfield 12 8 (by omega)
  have hbody := hfield 20 body.length (by omega)
  rw [List.drop_left' (encode_audio_header_length _ _ _), List.take_length] at hbody
  have hdrop : (encodeAudioHeader peerId 1 ttl ++ body).drop 12 = peerId.bytes ++ body := by
    rw [encodeAudioHeader, List.append_assoc]
    exact List.drop_left' (show (kProtoAudio ++ [1, ttl, 0, 0]).length = 12 from rfl)
  rw [hdrop, List.take_left' peerId.length_bytes] at hsender
  have hid : LinkId.ofBytes (bytesAt (memOf (encodeAudioHeader peerId 1 ttl ++ body)) 12 8) =
      peerId := by
    rw [show (12 : UInt32) = .ofNat 12 from rfl, hsender, LinkId.ofBytes_bytes]
  have hforeign : IsForeign w (memOf (encodeAudioHeader peerId 1 ttl ++ body))
      (.ofNat (20 + body.length)) := ⟨hheader, hproto, by rwa [hid]⟩
  rw [hlen, handle_rx_foreign hforeign, hid, hrest,
    show bytesAt (memOf (encodeAudioHeader peerId 1 ttl ++ body)) 20 body.length = body from hbody]
  exact if_pos rfl

/-! ## The catalog of the receiver -/

/-- The channels in use have ids of their own, the names fit their arrays, and the announcement
fits its buffer. -/
structure Announceable (sender : AudioWorld) (peerName : List UInt8) (withPing : Bool) : Prop where
  distinct : ((usedChannels sender.linkAudioLocal).map AudioLocal.channelId).Nodup
  names : ∀ c ∈ usedChannels sender.linkAudioLocal, c.name.length ≤ 31 ∧ 0 ∉ c.name
  shortName : peerName.length ≤ 31
  size : (encodePeerAnnouncement peerName withPing sender).1.length ≤ 1200

/-- The node is another one, and has room for the channels, none of which another peer has
announced to it. -/
structure Admits (w sender : AudioWorld) : Prop where
  other : sender.core.linkSelfId ≠ w.core.linkSelfId
  room : Room AudioRemote.key w.linkAudioRemote
    ((usedChannels sender.linkAudioLocal).map AudioLocal.channelId)
  owner : ∀ c ∈ usedChannels sender.linkAudioLocal, ∀ r ∈ w.linkAudioRemote,
    r.key = some c.channelId → r.peerId = sender.core.linkSelfId

/-- The kPong that answers a ping, if there was one. -/
def pongs (selfId : LinkId) (srcAddr : UInt32) (srcPort : UInt16) (pingHt : UInt64)
    (withPing : Bool) : List Datagram :=
  if withPing then [.unicast srcAddr srcPort linkDiscoveryPort
    (encodeAudioHeader selfId 3 linkDiscoveryTtlSec.toUInt8 ++ tlvEmitU64be keyHt pingHt)]
  else []

/-- The entries of the channels are in the catalog `remote'`, and no slot of it differs from
`remote` but by holding one of them. -/
structure Cataloged (peerId : LinkId) (peerAddr : UInt32) (peerPort : UInt16)
    (channels : List AudioLocal) (remote remote' : List AudioRemote) : Prop where
  entry : ∀ c ∈ channels, ∃ (i : Nat) (t : UInt64), remote'[i]? =
      some (announcedEntry peerId peerAddr peerPort c.channelId c.name t) ∧
    ∀ (j : Nat) (r : AudioRemote), remote'[j]? = some r → r.key = some c.channelId → j = i
  slot : ∀ j : Nat, remote'[j]? = remote[j]? ∨ ∃ c ∈ channels, ∃ (old : AudioRemote) (t : UInt64),
    remote[j]? = some old ∧ FitsKey AudioRemote.key remote c.channelId old ∧
      remote'[j]? = some (announcedEntry peerId peerAddr peerPort c.channelId c.name t)

/-- Recording keeps the datagrams sent, and the identity. -/
theorem record_channels_core (peerId : LinkId) (peerAddr : UInt32) (peerPort : UInt16)
    (channels : List AudioLocal) (w : AudioWorld) :
    (recordChannels peerId peerAddr peerPort channels w).core.sent = w.core.sent ∧
      (recordChannels peerId peerAddr peerPort channels w).core.linkSelfId =
        w.core.linkSelfId := by
  have hone : ∀ c ∈ channels, ∀ s : AudioWorld,
      s.core.sent = w.core.sent ∧ s.core.linkSelfId = w.core.linkSelfId →
      (recordChannel peerId peerAddr peerPort c.channelId c.name s).core.sent = w.core.sent ∧
        (recordChannel peerId peerAddr peerPort c.channelId c.name s).core.linkSelfId =
          w.core.linkSelfId := by
    intro c _ s hs
    rcases record_channel_cases peerId peerAddr peerPort c.channelId c.name s with
      ⟨hsame, _⟩ | ⟨_, _, _, _, hrecord⟩
    · rw [hsame]
      exact hs
    · rw [hrecord]
      exact hs
  exact Sweep.inv_sweep hone ⟨rfl, rfl⟩

/-- What hearing an announcement does: the channels in use are recorded and the ping is answered,
and that is all. -/
theorem hear_announcement {sender w : AudioWorld} {peerName : List UInt8} {withPing : Bool}
    (hsender : Announceable sender peerName withPing)
    (hother : sender.core.linkSelfId ≠ w.core.linkSelfId) (srcAddr : UInt32) (srcPort : UInt16) :
    let bytes := (encodePeerAnnouncement peerName withPing sender).1
    let heard := linkAudioHandleRx (memOf bytes) (.ofNat bytes.length) srcAddr srcPort w
    CatalogOnly w heard ∧
      heard.linkAudioRemote = (recordChannels sender.core.linkSelfId srcAddr srcPort
        (usedChannels sender.linkAudioLocal) w).linkAudioRemote ∧
      heard.core.sent = w.core.sent ++
        pongs w.core.linkSelfId srcAddr srcPort sender.core.clock.now withPing := by
  have hmax : linkAudioNameMax = 32 := rfl
  have hlength := announcement_length peerName withPing sender
  have hsize := hsender.size
  have hshort := hsender.shortName
  have hnames (c : AudioLocal) (hc : c ∈ usedChannels sender.linkAudioLocal) :
      c.name.length < linkAudioNameMax ∧ 0 ∉ c.name := by
    obtain ⟨hname, hnul⟩ := hsender.names c hc
    exact ⟨by omega, hnul⟩
  have hauca : (aucaValue sender.linkAudioLocal).length < 2 ^ 32 := by
    rw [auca_value_length]
    omega
  have hbody : 20 + (encodeEntries (announcementEntries peerName sender ++
      pingEntry sender withPing)).length < 2 ^ 32 := by
    rw [encode_announcement_eq, List.length_append, encode_audio_header_length] at hsize
    omega
  intro bytes heard
  have hrx : heard = handlePeerAnnouncement sender.core.linkSelfId srcAddr srcPort
      (encodeEntries (announcementEntries peerName sender ++ pingEntry sender withPing)) w := by
    show linkAudioHandleRx (memOf bytes) (.ofNat bytes.length) srcAddr srcPort w = _
    rw [show bytes = _ from encode_announcement_eq peerName withPing sender]
    exact handle_rx_announcement hbody hother srcAddr srcPort
  obtain ⟨hsent, hself⟩ := record_channels_core sender.core.linkSelfId srcAddr srcPort
    (usedChannels sender.linkAudioLocal) w
  refine ⟨hrx ▸ peer_announcement_frame _ _ _ _ w, ?_⟩
  rw [hrx, handle_announcement withPing (by omega) hnames hauca]
  cases withPing with
  | false => exact ⟨rfl, hsent.trans (List.append_nil _).symm⟩
  | true =>
      refine ⟨rfl, ?_⟩
      rw [if_pos rfl, pongs, if_pos rfl, sendPong, hself, ← hsent]
      simp [AudioWorld.send, World.send]

/-- Distinct channels for which there is room are cataloged. -/
theorem recorded_cataloged (peerId : LinkId) (peerAddr : UInt32) (peerPort : UInt16)
    {channels : List AudioLocal} {w : AudioWorld} (hcatalog : CatalogDistinct w)
    (hnodup : (channels.map AudioLocal.channelId).Nodup)
    (hroom : Room AudioRemote.key w.linkAudioRemote (channels.map AudioLocal.channelId))
    (howner : ∀ c ∈ channels, ∀ r ∈ w.linkAudioRemote, r.key = some c.channelId →
      r.peerId = peerId) :
    Cataloged peerId peerAddr peerPort channels w.linkAudioRemote
      (recordChannels peerId peerAddr peerPort channels w).linkAudioRemote := by
  obtain ⟨writes, hfilled, hwrites⟩ :=
    record_channels peerId peerAddr peerPort hnodup hroom howner
  have hkeyed := hwrites.writes _ _ _ hnodup
  obtain ⟨map, hmap⟩ := hfilled.represents hkeyed hcatalog
  refine ⟨fun c hc => ?_, fun j => ?_⟩
  · obtain ⟨t, hwrite⟩ := hwrites.all c hc
    obtain ⟨i, hi⟩ := hfilled.present hkeyed hwrite
    exact ⟨i, t, hi, fun j r hj hkey => hmap.distinct hj hi hkey rfl⟩
  · rcases hfilled.slots hkeyed j with hsame | ⟨write, hwrite, old, hold, hfits, hput⟩
    · exact .inl hsame
    · obtain ⟨c, hc, t, rfl⟩ := hwrites.entry write hwrite
      exact .inr ⟨c, hc, old, t, hold, hfits, hput⟩

/-- An entry in use for another channel is in the one catalog exactly when it is in the other. -/
theorem Cataloged.others {peerId : LinkId} {peerAddr : UInt32} {peerPort : UInt16}
    {channels : List AudioLocal} {remote remote' : List AudioRemote}
    (h : Cataloged peerId peerAddr peerPort channels remote remote') (j : Nat) {r : AudioRemote}
    (huse : r.inUse = true) (hother : ∀ c ∈ channels, c.channelId ≠ r.channelId) :
    remote'[j]? = some r ↔ remote[j]? = some r := by
  rcases h.slot j with hsame | ⟨c, hc, old, t, hold, hfits, hput⟩
  · rw [hsame]
  · constructor
    · intro hr
      obtain rfl := Option.some.inj (hput.symm.trans hr)
      exact absurd rfl (hother c hc)
    · intro hr
      obtain rfl := Option.some.inj (hold.symm.trans hr)
      rcases hfits with hkey | ⟨hnone, _⟩
      · exact absurd (remote_key_some_iff.mp hkey).2.symm (hother c hc)
      · rw [remote_key_none_iff.mp hnone] at huse
        cases huse

/-- Channels that are cataloged have room, and no other owner. -/
theorem Cataloged.again {peerId : LinkId} {peerAddr : UInt32} {peerPort : UInt16}
    {channels : List AudioLocal} {remote remote' : List AudioRemote}
    (h : Cataloged peerId peerAddr peerPort channels remote remote') :
    Room AudioRemote.key remote' (channels.map AudioLocal.channelId) ∧
      ∀ c ∈ channels, ∀ r ∈ remote', r.key = some c.channelId → r.peerId = peerId := by
  constructor
  · have hheld : ∀ k ∈ channels.map AudioLocal.channelId, HasKey AudioRemote.key remote' k := by
      intro k hk
      obtain ⟨c, hc, rfl⟩ := List.mem_map.mp hk
      obtain ⟨i, t, hi, _⟩ := h.entry c hc
      exact ⟨_, List.mem_of_getElem? hi, rfl⟩
    unfold Room
    rw [List.countP_eq_zero.mpr fun k hk => by simpa using hheld k hk]
    exact Nat.zero_le _
  · intro c hc r hr hkey
    obtain ⟨i, t, hi, hsole⟩ := h.entry c hc
    obtain ⟨j, hj⟩ := List.getElem?_of_mem hr
    obtain rfl := hsole j r hj hkey
    obtain rfl := Option.some.inj (hi.symm.trans hj)
    rfl

/-- Cataloging channels that are cataloged changes nothing but when they were last seen. -/
theorem Cataloged.refresh {peerId : LinkId} {peerAddr : UInt32} {peerPort : UInt16}
    {channels : List AudioLocal} {remote remote' remote'' : List AudioRemote}
    (h : Cataloged peerId peerAddr peerPort channels remote remote')
    (h' : Cataloged peerId peerAddr peerPort channels remote' remote'') (j : Nat) :
    ∃ t, remote''[j]? = (remote'[j]?).map fun r => { r with lastSeenUs := t } := by
  rcases h'.slot j with hsame | ⟨c, hc, old, t, hold, hfits, hput⟩
  · rw [hsame]
    cases hj : remote'[j]? with
    | none => exact ⟨0, rfl⟩
    | some r => exact ⟨r.lastSeenUs, rfl⟩
  · obtain ⟨i, t', hi, hsole⟩ := h.entry c hc
    -- the slot that fits is the one that holds the channel
    have hkey : old.key = some c.channelId :=
      hfits.resolve_right fun ⟨_, hheld⟩ => hheld ⟨_, List.mem_of_getElem? hi, rfl⟩
    obtain rfl := hsole j old hold hkey
    obtain rfl := Option.some.inj (hi.symm.trans hold)
    exact ⟨t, by rw [hput, hold]; rfl⟩

/-- An announcement heard by another node in any state it can reach, with room for the channels
and no entry of another peer for them: each channel in use has exactly one entry, with its id, its
name, the sender and the source of the datagram; the entries of other channels stay; hearing it
again changes nothing but when the channels were last seen; and a kPong goes out with the time of
the ping, if there was one. -/
theorem announcement_round_trip (core : World) (ports : Nat) (calls : List AudioCall)
    {sender : AudioWorld} {peerName : List UInt8} {withPing : Bool}
    (hsender : Announceable sender peerName withPing)
    (hreceiver : Admits (run callAudio (audioBoot core ports) calls) sender) (srcAddr : UInt32)
    (srcPort : UInt16) :
    let w := run callAudio (audioBoot core ports) calls
    let channels := usedChannels sender.linkAudioLocal
    let bytes := (encodePeerAnnouncement peerName withPing sender).1
    let hear := linkAudioHandleRx (memOf bytes) (.ofNat bytes.length) srcAddr srcPort
    (∀ c ∈ channels, ∃ (i : Nat) (t : UInt64), (hear w).linkAudioRemote[i]? =
        some (announcedEntry sender.core.linkSelfId srcAddr srcPort c.channelId c.name t) ∧
      ∀ (j : Nat) (r : AudioRemote), (hear w).linkAudioRemote[j]? = some r →
        r.inUse = true → r.channelId = c.channelId → j = i) ∧
    (∀ (j : Nat) (r : AudioRemote), r.inUse = true →
      (∀ c ∈ channels, c.channelId ≠ r.channelId) →
      ((hear w).linkAudioRemote[j]? = some r ↔ w.linkAudioRemote[j]? = some r)) ∧
    (CatalogOnly (hear w) (hear (hear w)) ∧
      ∀ j : Nat, ∃ t, (hear (hear w)).linkAudioRemote[j]? =
        ((hear w).linkAudioRemote[j]?).map fun r => { r with lastSeenUs := t }) ∧
    (hear w).core.sent = w.core.sent ++
      pongs w.core.linkSelfId srcAddr srcPort sender.core.clock.now withPing := by
  intro w channels bytes hear
  have hcatalog : CatalogDistinct w := run_catalog core ports calls
  obtain ⟨⟨remote, clock, sent, hframe⟩, hremote, hsent⟩ :=
    hear_announcement hsender hreceiver.other srcAddr srcPort
  have hfirst := recorded_cataloged sender.core.linkSelfId srcAddr srcPort hcatalog
    hsender.distinct hreceiver.room hreceiver.owner
  rw [← hremote] at hfirst
  -- the second time
  have hother : sender.core.linkSelfId ≠ (hear w).core.linkSelfId := by
    rw [show hear w = _ from hframe]
    exact hreceiver.other
  have hcatalog' : CatalogDistinct (hear w) :=
    call_catalog hcatalog (.event (.rx _ _ srcAddr srcPort))
  obtain ⟨hframe', hremote', _⟩ := hear_announcement hsender hother srcAddr srcPort
  obtain ⟨hroom, howner⟩ := hfirst.again
  have hsecond := recorded_cataloged sender.core.linkSelfId srcAddr srcPort hcatalog'
    hsender.distinct hroom howner
  rw [← hremote'] at hsecond
  refine ⟨fun c hc => ?_, fun j r huse hothers => hfirst.others j huse hothers,
    ⟨hframe', fun j => hfirst.refresh hsecond j⟩, hsent⟩
  obtain ⟨i, t, hi, hsole⟩ := hfirst.entry c hc
  exact ⟨i, t, hi, fun j r hj huse hcid => hsole j r hj (remote_key_some_iff.mpr ⟨huse, hcid⟩)⟩

/-- A channel in use, with an id and a name. -/
def namedChannel (id : UInt8) (name : List UInt8) : AudioLocal :=
  { AudioLocal.zero with
    inUse := true
    channelId := .ofBytes [id]
    name := name }

/-- A node with two channels in use and a free entry between them. -/
def twoChannelNode : AudioWorld :=
  { audioPowerOn { powerOn (fun _ => 1000) 0 [] with linkSelfId := .ofBytes [9] } 1 with
    linkAudioLocal := [namedChannel 1 [0x61], .zero, namedChannel 2 [0x62, 0x63]] }

/-- A node with one channel. -/
def oneChannelNode : AudioWorld :=
  { audioPowerOn { powerOn (fun _ => 1000) 0 [] with linkSelfId := .ofBytes [8] } 1 with
    linkAudioLocal := [namedChannel 3 [0x64]] }

/-- What a receiver has heard so far: the announcement of the node with one channel. -/
def heardOneChannel : List AudioCall :=
  let bytes := (encodePeerAnnouncement [0x6E] false oneChannelNode).1
  [.event (.rx (memOf bytes) (.ofNat bytes.length) 0x0A000003 20808)]

/-- The two channels are entered beside the one that has been there. -/
theorem announcement_round_trip_two :
    let w := run callAudio (audioBoot (powerOn (fun _ => 5000) 0 []) 0) heardOneChannel
    let bytes := (encodePeerAnnouncement [0x6E] true twoChannelNode).1
    let hear := linkAudioHandleRx (memOf bytes) (.ofNat bytes.length) 0x0A000002 20808
    (∀ c ∈ [namedChannel 1 [0x61], namedChannel 2 [0x62, 0x63]], ∃ (i : Nat) (t : UInt64),
      (hear w).linkAudioRemote[i]? =
        some (announcedEntry (.ofBytes [9]) 0x0A000002 20808 c.channelId c.name t)) ∧
    (∃ r, r.channelId = .ofBytes [3] ∧ (hear w).linkAudioRemote[0]? = some r) ∧
    (∀ j : Nat, ∃ t, (hear (hear w)).linkAudioRemote[j]? =
      ((hear w).linkAudioRemote[j]?).map fun r => { r with lastSeenUs := t }) ∧
    (hear w).core.sent =
      w.core.sent ++ pongs w.core.linkSelfId 0x0A000002 20808 1000 true := by
  have hsender : Announceable twoChannelNode [0x6E] true :=
    ⟨by decide, by decide, by decide, by decide +kernel⟩
  have hreceiver : Admits
      (run callAudio (audioBoot (powerOn (fun _ => 5000) 0 []) 0) heardOneChannel) twoChannelNode :=
    ⟨by decide +kernel, by decide +kernel, by decide +kernel⟩
  have hbefore : ∃ r ∈ (run callAudio (audioBoot (powerOn (fun _ => 5000) 0 []) 0)
      heardOneChannel).linkAudioRemote[0]?, r.inUse = true ∧ r.channelId = .ofBytes [3] := by
    decide +kernel
  have hforeign : ∀ c ∈ usedChannels twoChannelNode.linkAudioLocal, c.channelId ≠ .ofBytes [3] := by
    decide
  have hping : twoChannelNode.core.clock.now = 1000 := rfl
  obtain ⟨hentered, hothers, hagain, hsent⟩ := announcement_round_trip
    (powerOn (fun _ => 5000) 0 []) 0 heardOneChannel hsender hreceiver 0x0A000002 20808
  rw [hping] at hsent
  obtain ⟨r, hr, huse, hcid⟩ := hbefore
  refine ⟨fun c hc => ?_, ⟨r, hcid, ?_⟩, hagain.2, hsent⟩
  · obtain ⟨i, t, hi, -⟩ := hentered c hc
    exact ⟨i, t, hi⟩
  · exact (hothers 0 r huse (hcid ▸ hforeign)).mpr hr

end LinkFPGA
