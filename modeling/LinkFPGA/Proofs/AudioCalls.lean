import LinkFPGA.Library.Sweep
import LinkFPGA.Proofs.Announcement
import LinkFPGA.Proofs.AudioFrames

/-!
# What the calls of Link-Audio leave alone

`call_identities`: no call changes which local channels there are, or their ids and names, so an
announcement lists what `link_audio_init` set up. `announce_sends` and `request_sends` say what
`link_audio_tick` hands to the network.
-/

namespace LinkFPGA

open Runs

/-! ## Announcing -/

/-- Only the clock and the network were touched. -/
def NetworkOnly (w w' : AudioWorld) : Prop :=
  ∃ clock sent, w' = { w with core := { w.core with clock := clock, sent := sent } }

theorem NetworkOnly.refl (w : AudioWorld) : NetworkOnly w w := ⟨w.core.clock, w.core.sent, rfl⟩

theorem NetworkOnly.trans {w w' w'' : AudioWorld} (h : NetworkOnly w w')
    (h' : NetworkOnly w' w'') : NetworkOnly w w'' := by
  obtain ⟨_, _, rfl⟩ := h
  obtain ⟨clock, sent, rfl⟩ := h'
  exact ⟨clock, sent, rfl⟩

/-- The buffer is an announcement of the node, with a ping or without. -/
def IsAnnouncement (peerName : List UInt8) (w : AudioWorld) (buf : List UInt8) : Prop :=
  ∃ withPing w', NetworkOnly w w' ∧ buf = (encodePeerAnnouncement peerName withPing w').1

theorem encode_announcement_frame (peerName : List UInt8) (withPing : Bool) (w : AudioWorld) :
    NetworkOnly w (encodePeerAnnouncement peerName withPing w).2 := by
  unfold encodePeerAnnouncement
  dsimp only
  split
  · exact ⟨_, _, rfl⟩
  · exact .refl w

/-- The loop of `send_announcements` sends announcements. -/
theorem announce_loop (peerName : List UInt8) (peers : List Peer) (s : Bool × AudioWorld) :
    NetworkOnly s.2 (peers.foldl (announceTo peerName) s).2 ∧
    ∃ sent, (peers.foldl (announceTo peerName) s).2.core.sent = s.2.core.sent ++ sent ∧
      ∀ d ∈ sent, ∃ addr port buf, d = .unicast addr port linkDiscoveryPort buf ∧
        IsAnnouncement peerName s.2 buf := by
  induction peers generalizing s with
  | nil => exact ⟨.refl _, [], (List.append_nil _).symm, by simp⟩
  | cons peer peers ih =>
      rw [List.foldl_cons]
      by_cases hskip : peer.inUse = false ∨ peer.aep4Addr = 0
      · rw [show announceTo peerName s peer = s from if_pos hskip]
        exact ih s
      · have hone : announceTo peerName s peer =
            (false, (encodePeerAnnouncement peerName s.1 s.2).2.send (.unicast peer.aep4Addr
              peer.aep4Port linkDiscoveryPort (encodePeerAnnouncement peerName s.1 s.2).1)) :=
          if_neg hskip
        have hframe : NetworkOnly s.2 (announceTo peerName s peer).2 := by
          rw [hone]
          exact (encode_announcement_frame peerName s.1 s.2).trans ⟨_, _, rfl⟩
        have hkept : (encodePeerAnnouncement peerName s.1 s.2).2.core.sent = s.2.core.sent := by
          unfold encodePeerAnnouncement
          dsimp only
          split <;> rfl
        obtain ⟨hrest, sent, hsent, hmem⟩ := ih (announceTo peerName s peer)
        refine ⟨hframe.trans hrest, .unicast peer.aep4Addr peer.aep4Port linkDiscoveryPort
          (encodePeerAnnouncement peerName s.1 s.2).1 :: sent, ?_, ?_⟩
        · rw [hsent, hone]
          show ((encodePeerAnnouncement peerName s.1 s.2).2.core.sent ++ [_]) ++ sent = _
          rw [hkept, List.append_assoc]
          rfl
        · intro d hd
          rcases List.mem_cons.mp hd with rfl | hd
          · exact ⟨_, _, _, rfl, s.1, s.2, .refl _, rfl⟩
          · obtain ⟨addr, port, buf, rfl, withPing, w', hw', rfl⟩ := hmem d hd
            exact ⟨addr, port, _, rfl, withPing, w', hframe.trans hw', rfl⟩

/-- A round of announcements: only announcements are sent, and only the network, the clock and
the time of the last round change. -/
theorem announce_sends (peerName : List UInt8) (w : AudioWorld) :
    (∃ last, NetworkOnly { w with sLastAnnounceUs := last } (sendAnnouncements peerName w)) ∧
    ∃ sent, (sendAnnouncements peerName w).core.sent = w.core.sent ++ sent ∧
      ∀ d ∈ sent, ∃ addr port buf, d = .unicast addr port linkDiscoveryPort buf ∧
        IsAnnouncement peerName w buf := by
  obtain ⟨⟨clock, sent, hframe⟩, hsent⟩ := announce_loop peerName w.core.linkPeers (true, w)
  refine ⟨?_, hsent⟩
  unfold sendAnnouncements
  rw [hframe]
  exact ⟨clock.now, clock.advance, sent, rfl⟩

/-! ## The local channels -/

/-- What `link_audio_init` fixes of a local channel for good. -/
def AudioLocal.identity (c : AudioLocal) : Bool × LinkId × List UInt8 :=
  (c.inUse, c.channelId, c.name)

/-- The local channels, by what is fixed of them. -/
def identities (w : AudioWorld) : List (Bool × LinkId × List UInt8) :=
  w.linkAudioLocal.map AudioLocal.identity

theorem identities_of_local {w w' : AudioWorld} (h : w'.linkAudioLocal = w.linkAudioLocal) :
    identities w' = identities w :=
  congrArg (List.map AudioLocal.identity) h

section
variable {α : Type} {f : AudioLocal → α}

/-- An entry written over, with a part of it as it was. -/
theorem set_local_map {w : AudioWorld} {i : Nat} {c : AudioLocal} (c' : AudioLocal)
    (hc : w.linkAudioLocal[i]? = some c) (hsame : f c' = f c) :
    (w.setLocal i c').linkAudioLocal.map f = w.linkAudioLocal.map f := by
  show (w.linkAudioLocal.set i c').map f = _
  have hentry : (w.linkAudioLocal.map f)[i]? = some (f c) := by
    rw [List.getElem?_map, hc]
    rfl
  rw [List.map_set, hsame]
  obtain ⟨hlt, hget⟩ := List.getElem?_eq_some_iff.mp hentry
  rw [← hget, List.set_getElem_self]

/-- A TDM frame changes the packet counts of the local channels and nothing else of them. -/
theorem frame_local_map (hcount : ∀ c n, f { c with nextSendCount := n } = f c) (port : Nat)
    (rx : Nat → UInt16) (beats : Nat → Int64) (w : AudioWorld) :
    (linkAudioOnTdmFrame port rx beats w).linkAudioLocal.map f = w.linkAudioLocal.map f := by
  have hsend (i : Nat) (samples : List UInt16) (beatsFirst : Int64) (w : AudioWorld) :
      (sendAudioBufferFor i samples beatsFirst w).linkAudioLocal.map f =
        w.linkAudioLocal.map f := by
    unfold sendAudioBufferFor
    split
    · rfl
    · rename_i c hc
      split
      · rfl
      · exact set_local_map { c with nextSendCount := c.nextSendCount + 1 } hc (hcount c _)
  refine frame_keeps (P := fun s => s.linkAudioLocal.map f = w.linkAudioLocal.map f) ?_
    (fun _ _ _ hs => hs) rfl
  intro _ ch _ s hs
  refine Eq.trans ?_ hs
  unfold captureChannel
  dsimp only
  split
  · split
    · exact hsend _ _ _ _
    · rfl
  · rfl

end

theorem rx_identities (buf : UInt32 → UInt8) (len : UInt32) (srcAddr : UInt32) (srcPort : UInt16)
    (w : AudioWorld) : identities (linkAudioHandleRx buf len srcAddr srcPort w) = identities w := by
  by_cases hrequest : IsChannelRequest w buf len
  · rw [handle_rx_channel_request hrequest]
    rcases channel_request_frame (buf 8) (.ofBytes (bytesAt buf 12 8)) srcAddr srcPort
      (bytesAt buf 20 (len - 20).toNat) w with hw | ⟨i, c, num, subs, hc, hw⟩
    · rw [hw]
    · rw [hw]
      exact set_local_map _ hc rfl
  · exact identities_of_local (rx_local hrequest srcAddr srcPort)

/-! ## The tick and the subscription API -/

/-- The re-request loop leaves everything but the subscriptions and the network alone, and sends
requests for subscriptions in use. -/
theorem request_sends (now : UInt64) (w : AudioWorld) (i : Nat) :
    (∃ subs sent, requestAgain now w i =
      { w with linkAudioSubs := subs, core := { w.core with sent := w.core.sent ++ sent } } ∧
      ∀ d ∈ sent, ∃ sub ∈ w.linkAudioSubs, sub.inUse = true ∧
        d = .unicast sub.sourceAddr sub.sourcePort linkDiscoveryPort
          (encodeChannelRequest w.core.linkSelfId 4 sub.channelId)) := by
  unfold requestAgain
  split
  · exact ⟨w.linkAudioSubs, [], by rw [List.append_nil], by simp⟩
  · rename_i sub hsub
    split
    · rename_i hdue
      refine ⟨_, _, rfl, fun d hd => ?_⟩
      obtain rfl := List.mem_singleton.mp hd
      exact ⟨sub, List.mem_of_getElem? hsub, hdue.1, rfl⟩
    · exact ⟨w.linkAudioSubs, [], by rw [List.append_nil], by simp⟩

theorem tick_local (peerName : List UInt8) (w : AudioWorld) :
    (linkAudioTick peerName w).linkAudioLocal = w.linkAudioLocal := by
  have hone : ∀ i ∈ List.range linkAudioMaxRemote, ∀ s : AudioWorld,
      s.linkAudioLocal = w.linkAudioLocal →
      (requestAgain w.core.clock.now s i).linkAudioLocal = w.linkAudioLocal := by
    intro i _ s hs
    obtain ⟨_, _, hrequest, _⟩ := request_sends w.core.clock.now s i
    rw [hrequest]
    exact hs
  unfold linkAudioTick
  refine Sweep.inv_sweep hone ?_
  split
  · obtain ⟨_, _, _, hw⟩ := (announce_sends peerName w.advance).1
    rw [hw]
    rfl
  · rfl

theorem subscribe_local (port channel : Int) (cid : LinkId) (w : AudioWorld) :
    (linkAudioSubscribe port channel cid w).1.linkAudioLocal = w.linkAudioLocal := by
  unfold linkAudioSubscribe
  split
  · rfl
  · dsimp only
    split <;> rfl

theorem unsubscribe_local (cid : LinkId) (w : AudioWorld) :
    (linkAudioUnsubscribe cid w).1.linkAudioLocal = w.linkAudioLocal := by
  unfold linkAudioUnsubscribe
  split <;> rfl

/-- No call changes the local channels. -/
theorem call_identities (w : AudioWorld) (e : AudioCall) :
    identities (callAudio w e) = identities w := by
  cases e with
  | event e =>
      cases e with
      | rx buf len srcAddr srcPort => exact rx_identities buf len srcAddr srcPort w
      | tdmFrame port rx beats => exact frame_local_map (fun _ _ => rfl) port rx beats w
      | other => rfl
  | tick peerName => exact identities_of_local (tick_local peerName w)
  | subscribe port channel cid => exact identities_of_local (subscribe_local port channel cid w)
  | unsubscribe cid => exact identities_of_local (unsubscribe_local cid w)

theorem run_identities (w : AudioWorld) (es : List AudioCall) :
    identities (run callAudio w es) = identities w := by
  induction es generalizing w with
  | nil => rfl
  | cons e es ih => exact (ih _).trans (call_identities w e)

end LinkFPGA
