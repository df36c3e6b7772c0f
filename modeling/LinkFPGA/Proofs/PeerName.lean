import LinkFPGA.Firmware.WebUi
import LinkFPGA.Proofs.AnnouncementSize
import LinkFPGA.Proofs.SessionTracking

/-!
# The name of the node

`POST /api/name` stores the name where `serve_status` reads it (`status_name_eq`). The announcements
carry the `s_peer_name` of `link_audio.c`, which is another array and keeps the name it starts with
(`announcement_name`). So the two agree when the last name posted is that one, and while none has
been posted (`announced_names_iff`).
-/

namespace LinkFPGA

open Runs

/-! ## The name reported -/

/-- The body of a `POST /api/name`, as far as it is stored. -/
def postedBody : WebEvent → Option (List UInt8)
  | .postName body blen => some (bytesAt (memOf body) 0 (min blen.toNat 31))
  | _ => none

/-- The first 31 bytes of the last body posted up to a NUL, and the default before any. -/
def postedName (es : List WebEvent) : List UInt8 :=
  match (es.filterMap postedBody).getLast? with
  | none => defaultPeerName
  | some body => CString.text body

/-- A post changes the name in the status, and nothing else does. -/
theorem step_status_name (w : WebWorld) (e : WebEvent) :
    statusName (webStep w e) = ((postedBody e).map CString.text).getD (statusName w) := by
  cases e with
  | postName body blen =>
      have hn : (if blen < 31 then blen.toNat else 31) = min blen.toNat 31 := by
        have hlt : blen < 31 ↔ blen.toNat < 31 := UInt32.lt_iff_toNat_lt
        by_cases h : blen.toNat < 31
        · rw [if_pos (hlt.mpr h)]
          omega
        · rw [if_neg fun hless => h (hlt.mp hless)]
          omega
      show CString.text (bytesAt (memOf body) 0 (if blen < 31 then blen.toNat else 31) ++
        0 :: _) = _
      rw [hn, CString.text_terminated]
      rfl
  | tick | other => simp [webStep, statusName, postedBody]

/-- The status has the name that was posted last. -/
theorem status_name_eq (audio : AudioWorld) (es : List WebEvent) :
    statusName (run webStep (webBoot audio) es) = postedName es := by
  induction es using List.reverseRecOn with
  | nil => rfl
  | append_singleton es e ih =>
      rw [run_append, run_cons, run_nil, step_status_name, ih]
      unfold postedName
      rw [List.filterMap_append, List.getLast?_append]
      cases hbody : postedBody e with
      | none =>
          have hnone : [e].filterMap postedBody = [] := by simp [hbody]
          rw [hnone]
          rfl
      | some body =>
          have hone : [e].filterMap postedBody = [body] := by simp [hbody]
          rw [hone]
          rfl

/-! ## The name announced -/

/-- The name in the `__pi` entry of an announcement, which is the one behind `sess`. -/
def carriedName (buf : List UInt8) : Option (List UInt8) :=
  let entry := buf.drop 36
  if be32 entry = keyPi then some ((entry.drop 12).take (be32 (entry.drop 8)).toNat) else none

/-- An announcement carries the name it was encoded with. -/
theorem announcement_name {peerName : List UInt8} (hname : peerName.length < 2 ^ 32)
    {w : AudioWorld} {buf : List UInt8} (h : IsAnnouncement peerName w buf) :
    carriedName buf = some peerName := by
  obtain ⟨withPing, w', -, rfl⟩ := h
  let rest := encodeEntries ([(keyAuca, aucaValue w'.linkAudioLocal)] ++ pingEntry w' withPing)
  let before := encodeAudioHeader w'.core.linkSelfId 1 linkDiscoveryTtlSec.toUInt8 ++
    tlvEmitBytes keySess w'.core.linkSelfSession.bytes
  have hsplit : (encodePeerAnnouncement peerName withPing w').1 =
      before ++ (putBe32 keyPi ++ (putBe32 (.ofNat (4 + peerName.length)) ++
        (putBe32 (.ofNat peerName.length) ++ (peerName ++ rest)))) := by
    rw [encode_announcement_eq]
    simp [announcementEntries, encode_entries_cons, tlvEmitBytes, tlvEmitHeader, before, rest,
      Nat.add_comm]
  have hbefore : before.length = 36 := by
    rw [List.length_append, encode_audio_header_length, tlv_emit_bytes_length,
      w'.core.linkSelfSession.length_bytes]
  have hdrop : (encodePeerAnnouncement peerName withPing w').1.drop 36 =
      putBe32 keyPi ++ (putBe32 (.ofNat (4 + peerName.length)) ++
        (putBe32 (.ofNat peerName.length) ++ (peerName ++ rest))) := by
    rw [hsplit, ← hbefore, List.drop_left]
  have hlen : (UInt32.ofNat peerName.length).toNat = peerName.length :=
    UInt32.toNat_ofNat_of_lt' hname
  unfold carriedName
  dsimp only
  rw [hdrop, be32_put_be32_append, if_pos rfl]
  have hname : (putBe32 keyPi ++ (putBe32 (.ofNat (4 + peerName.length)) ++
      (putBe32 (.ofNat peerName.length) ++ (peerName ++ rest)))).drop 12 = peerName ++ rest := rfl
  have hcount : (putBe32 keyPi ++ (putBe32 (.ofNat (4 + peerName.length)) ++
      (putBe32 (.ofNat peerName.length) ++ (peerName ++ rest)))).drop 8 =
      putBe32 (.ofNat peerName.length) ++ (peerName ++ rest) := rfl
  rw [hname, hcount, be32_put_be32_append, hlen, List.take_left]

/-- Since a state only announcements and requests have been sent. -/
def TickSends (peerName : List UInt8) (w s : AudioWorld) : Prop :=
  ∃ sent, s.core.sent = w.core.sent ++ sent ∧
    ∀ d ∈ sent, IsAnnouncement peerName w d.bytes ∨ byteAt d.bytes 8 = 4

theorem request_tick_sends {peerName : List UInt8} {w s : AudioWorld}
    (h : TickSends peerName w s) (now : UInt64) (i : Nat) :
    TickSends peerName w (requestAgain now s i) := by
  unfold requestAgain
  split
  · exact h
  · rename_i sub _
    split
    · obtain ⟨sent, hsent, hkind⟩ := h
      refine ⟨sent ++ [.unicast sub.sourceAddr sub.sourcePort linkDiscoveryPort
        (encodeChannelRequest s.core.linkSelfId 4 sub.channelId)], ?_, fun d hd => ?_⟩
      · rw [← List.append_assoc, ← hsent]
        rfl
      · rcases List.mem_append.mp hd with hbefore | hlast
        · exact hkind d hbefore
        · obtain rfl := List.mem_singleton.mp hlast
          exact .inr rfl
    · exact h

/-- A tick sends announcements and requests. -/
theorem tick_sends (peerName : List UInt8) (w : AudioWorld) :
    TickSends peerName w.advance (linkAudioTick peerName w) := by
  have hone : ∀ i ∈ List.range linkAudioMaxRemote, ∀ s, TickSends peerName w.advance s →
      TickSends peerName w.advance (requestAgain w.core.clock.now s i) :=
    fun i _ s hs => request_tick_sends hs _ i
  unfold linkAudioTick
  refine Sweep.inv_sweep hone ?_
  split
  · obtain ⟨-, sent, hsent, hmem⟩ := announce_sends peerName w.advance
    refine ⟨sent, hsent, fun d hd => ?_⟩
    obtain ⟨_, _, buf, rfl, hbuf⟩ := hmem d hd
    exact .inl hbuf
  · exact ⟨[], (List.append_nil _).symm, by simp⟩

/-- The PeerAnnouncements among the datagrams that an event sends. -/
def announcements (w : WebWorld) : WebEvent → List Datagram
  | .tick clock =>
      ((webStep w (.tick clock)).audio.core.sent.drop w.audio.core.sent.length).filter
        fun d => byteAt d.bytes 8 = 1
  | _ => []

/-- They carry the name of `link_audio.c`. -/
theorem announcements_name {w : WebWorld} {e : WebEvent} {d : Datagram}
    (hd : d ∈ announcements w e) : carriedName d.bytes = some audioPeerName := by
  cases e with
  | tick clock =>
      obtain ⟨sent, hsent, hkind⟩ := tick_sends audioPeerName (w.audio.at clock)
      have hbefore : (w.audio.at clock).advance.core.sent = w.audio.core.sent := rfl
      have haudio : (webStep w (.tick clock)).audio =
          linkAudioTick audioPeerName (w.audio.at clock) := by
        rw [webStep]
      have hnew : (webStep w (.tick clock)).audio.core.sent.drop w.audio.core.sent.length =
          sent := by
        rw [haudio, hsent, hbefore, List.drop_left]
      rw [announcements, hnew] at hd
      obtain ⟨hin, htype⟩ := List.mem_filter.mp hd
      rcases hkind d hin with hannounces | hrequest
      · exact announcement_name (by decide) hannounces
      · rw [decide_eq_true_iff, hrequest] at htype
        exact absurd htype (by decide)
  | postName | other => cases hd

/-- After any run, the announcements that an event sends all carry the name in the status, which is
the name posted last, if and only if there are none, or that name is the default. -/
theorem announced_names_iff (audio : AudioWorld) (es : List WebEvent) (e : WebEvent) :
    let w := run webStep (webBoot audio) es
    (∀ d ∈ announcements w e,
        carriedName d.bytes = some (statusName w) ∧ statusName w = postedName es) ↔
      announcements w e = [] ∨ postedName es = defaultPeerName := by
  intro w
  have hstatus : statusName w = postedName es := status_name_eq audio es
  constructor
  · intro hall
    cases hsent : announcements w e with
    | nil => exact .inl rfl
    | cons d rest =>
        have hd : d ∈ announcements w e := hsent ▸ List.mem_cons_self
        have hcarried := (hall d hd).1
        rw [announcements_name hd, hstatus] at hcarried
        exact .inr (Option.some.inj hcarried).symm
  · intro hright d hd
    refine ⟨?_, hstatus⟩
    rcases hright with hnone | hdefault
    · rw [hnone] at hd
      cases hd
    · rw [announcements_name hd, hstatus, hdefault]
      rfl

/-- The node has a peer, and `studio` is posted as its name. -/
def namedStudio : WebWorld :=
  run webStep (webBoot (audioBoot (runEvents nodeSelf [aliveFrom nodeA]) 2))
    [.postName "studio".toUTF8.toList 6]

/-- The next announcement carries `linkfpga`. -/
theorem old_name_announced :
    ¬ ∀ d ∈ announcements namedStudio (.tick ⟨ticking 1000000, 0⟩),
      carriedName d.bytes = some (statusName namedStudio) := by
  decide +kernel

end LinkFPGA
