import LinkFPGA.Library.Sweep
import LinkFPGA.Firmware.LinkAudio

/-!
# What a Link-Audio handler may change

One lemma for each handler of `link_audio_handle_rx`, and their summary `audio_rx_cases`: a
datagram updates the catalog, or takes channels out of it, or changes the subscribers of one local
channel, or is an AudioBuffer. The two loops of `link_audio_on_tdm_frame` change the capture side
and the playback side only.
-/

namespace LinkFPGA

/-! ## Announcements -/

/-- Only the catalog, the clock and the network were touched. -/
def CatalogOnly (w w' : AudioWorld) : Prop :=
  ∃ remote clock sent, w' = { w with
    linkAudioRemote := remote
    core := { w.core with
      clock := clock
      sent := sent } }

theorem CatalogOnly.refl (w : AudioWorld) : CatalogOnly w w :=
  ⟨w.linkAudioRemote, w.core.clock, w.core.sent, rfl⟩

theorem CatalogOnly.trans {w w' w'' : AudioWorld} (h : CatalogOnly w w')
    (h' : CatalogOnly w' w'') : CatalogOnly w w'' := by
  obtain ⟨remote, clock, sent, rfl⟩ := h
  obtain ⟨remote', clock', sent', rfl⟩ := h'
  exact ⟨remote', clock', sent', rfl⟩

theorem record_channel_frame (peerId : LinkId) (peerAddr : UInt32) (peerPort : UInt16)
    (cid : LinkId) (name : List UInt8) (w : AudioWorld) :
    CatalogOnly w (recordChannel peerId peerAddr peerPort cid name w) := by
  unfold recordChannel
  dsimp only
  split
  · exact ⟨_, _, _, rfl⟩
  · split
    · exact .refl w
    · exact ⟨_, _, _, rfl⟩

theorem auca_loop_frame (rd : UInt32 → UInt8) (peerId : LinkId) (peerAddr : UInt32)
    (peerPort : UInt16) (count : Nat) (v n : UInt32) (w : AudioWorld) :
    CatalogOnly w (aucaLoop rd peerId peerAddr peerPort count v n w).1 := by
  induction count generalizing v n w with
  | zero => exact .refl w
  | succ count ih =>
      unfold aucaLoop
      dsimp only
      split
      · exact .refl w
      · split
        · exact .refl w
        · exact (record_channel_frame ..).trans (ih ..)

theorem ann_handler_frame (peerId : LinkId) (peerAddr : UInt32) (peerPort : UInt16) (key : UInt32)
    (v : List UInt8) (s : AnnCtx × AudioWorld) :
    CatalogOnly s.2 (annHandler peerId peerAddr peerPort key v s).1.2 := by
  unfold annHandler
  dsimp only
  split
  · split <;> exact .refl s.2
  · split
    · split
      · exact .refl s.2
      · split <;> exact .refl s.2
    · split
      · split <;> exact .refl s.2
      · split
        · split
          · exact .refl s.2
          · exact auca_loop_frame ..
        · exact .refl s.2

/-- A PeerAnnouncement changes the catalog and may be answered. -/
theorem peer_announcement_frame (senderId : LinkId) (srcAddr : UInt32) (srcPort : UInt16)
    (body : List UInt8) (w : AudioWorld) :
    CatalogOnly w (handlePeerAnnouncement senderId srcAddr srcPort body w) := by
  have hwalk : CatalogOnly w
      (tlvWalk (annHandler senderId srcAddr srcPort) body (⟨0, false⟩, w)).1.2 := by
    refine tlv_walk_induct (P := fun s : AnnCtx × AudioWorld => CatalogOnly w s.2) body (.refl w) ?_
    intro entry _ s hs
    exact hs.trans (ann_handler_frame ..)
  unfold handlePeerAnnouncement
  dsimp only
  split
  · exact hwalk.trans ⟨_, _, _, rfl⟩
  · exact hwalk

/-! ## Byes -/

/-- Catalog entries and subscriptions may have been taken out of use, and nothing else. -/
def ReleasesOnly (w w' : AudioWorld) : Prop :=
  ∃ remote subs, w' = { w with linkAudioRemote := remote, linkAudioSubs := subs } ∧
    ∀ j : Nat, subs[j]? = w.linkAudioSubs[j]? ∨
      subs[j]? = (w.linkAudioSubs[j]?).map fun sub => { sub with inUse := false }

theorem ReleasesOnly.refl (w : AudioWorld) : ReleasesOnly w w :=
  ⟨w.linkAudioRemote, w.linkAudioSubs, rfl, fun _ => .inl rfl⟩

theorem ReleasesOnly.trans {w w' w'' : AudioWorld} (h : ReleasesOnly w w')
    (h' : ReleasesOnly w' w'') : ReleasesOnly w w'' := by
  obtain ⟨remote, subs, rfl, hsubs⟩ := h
  obtain ⟨remote', subs', rfl, hsubs'⟩ := h'
  refine ⟨remote', subs', rfl, fun j => ?_⟩
  rcases hsubs' j with hsame' | hfree'
  · rw [hsame']
    exact hsubs j
  · rw [hfree']
    rcases hsubs j with hsame | hfree
    · exact .inr (congrArg _ hsame)
    · refine .inr ?_
      dsimp only
      rw [hfree, Option.map_map]
      rfl

theorem drop_channel_frame (cid : LinkId) (w : AudioWorld) :
    ReleasesOnly w (dropChannel cid w) := by
  refine ⟨_, _, rfl, fun j => ?_⟩
  rw [List.getElem?_map]
  cases w.linkAudioSubs[j]? with
  | none => exact .inl rfl
  | some sub =>
      by_cases hdrop : sub.inUse ∧ sub.channelId = cid
      · exact .inr (by simp [hdrop])
      · exact .inl (by simp only [Option.map_some, if_neg hdrop])

/-- ChannelByes take entries out of use. -/
theorem channel_byes_frame (body : List UInt8) (w : AudioWorld) :
    ReleasesOnly w (tlvWalk handleAucbEntry body w).1 := by
  refine tlv_walk_induct (P := ReleasesOnly w) body (.refl w) ?_
  intro entry _ s hs
  unfold handleAucbEntry
  dsimp only
  split
  · exact hs
  · split
    · exact hs
    · split
      · exact hs
      · generalize List.range (be32 entry.2).toNat = ids
        induction ids generalizing s with
        | nil => exact hs
        | cons i ids ih => exact ih _ (hs.trans (drop_channel_frame ..))

/-! ## Requests -/

/-- Only the subscribers of one local channel may have changed. -/
def SubscribersOnly (w w' : AudioWorld) : Prop :=
  w' = w ∨ ∃ (i : Nat) (c : AudioLocal) (num : Nat) (subs : Vector Subscriber linkAudioMaxSubPer),
    w.linkAudioLocal[i]? = some c ∧
    w' = w.setLocal i { c with numSubscribers := num, subscribers := subs }

theorem channel_request_frame (mtype : UInt8) (requester : LinkId) (srcAddr : UInt32)
    (srcPort : UInt16) (body : List UInt8) (w : AudioWorld) :
    SubscribersOnly w (handleChannelRequest mtype requester srcAddr srcPort body w) := by
  have hset {i : Nat} {c : AudioLocal} (hc : w.linkAudioLocal[i]? = some c) (num : Nat)
      (subs : Vector Subscriber linkAudioMaxSubPer) :
      SubscribersOnly w (w.setLocal i { c with numSubscribers := num, subscribers := subs }) :=
    .inr ⟨i, c, num, subs, hc, rfl⟩
  unfold handleChannelRequest
  dsimp only
  split
  · exact .inl rfl
  · split
    · exact .inl rfl
    · rename_i i _ c hc
      split
      · unfold AudioLocal.addSubscriber
        split
        · exact hset hc c.numSubscribers c.subscribers
        · split
          · exact hset hc c.numSubscribers c.subscribers
          · exact hset hc _ _
      · unfold AudioLocal.removeSubscriber
        split
        · exact hset hc c.numSubscribers c.subscribers
        · exact hset hc _ _

/-! ## The dispatch -/

/-- The datagram comes from another node. -/
def IsForeign (w : AudioWorld) (buf : UInt32 → UInt8) (len : UInt32) : Prop :=
  20 ≤ len ∧ bytesAt buf 0 8 = kProtoAudio ∧ LinkId.ofBytes (bytesAt buf 12 8) ≠ w.core.linkSelfId

instance (w : AudioWorld) (buf : UInt32 → UInt8) (len : UInt32) :
    Decidable (IsForeign w buf len) :=
  inferInstanceAs (Decidable (_ ∧ _ ∧ _))

/-- A datagram of the node itself, or of no Link-Audio node, is ignored. -/
theorem handle_rx_refused {w : AudioWorld} {buf : UInt32 → UInt8} {len : UInt32}
    (h : ¬ IsForeign w buf len) (srcAddr : UInt32) (srcPort : UInt16) :
    linkAudioHandleRx buf len srcAddr srcPort w = w := by
  unfold linkAudioHandleRx
  dsimp only
  split
  · rfl
  · rename_i hlong
    split
    · rfl
    · rename_i hproto
      split
      · rfl
      · rename_i hsender
        exact absurd ⟨UInt32.not_lt.mp hlong, not_not.mp hproto, hsender⟩ h

/-- A datagram of another node is dispatched by its type. -/
theorem handle_rx_foreign {w : AudioWorld} {buf : UInt32 → UInt8} {len : UInt32}
    (h : IsForeign w buf len) (srcAddr : UInt32) (srcPort : UInt16) :
    linkAudioHandleRx buf len srcAddr srcPort w =
      if buf 8 = 1 then
        handlePeerAnnouncement (.ofBytes (bytesAt buf 12 8)) srcAddr srcPort
          (bytesAt buf 20 (len - 20).toNat) w
      else if buf 8 = 2 then (tlvWalk handleAucbEntry (bytesAt buf 20 (len - 20).toNat) w).1
      else if buf 8 = 4 ∨ buf 8 = 5 then
        handleChannelRequest (buf 8) (.ofBytes (bytesAt buf 12 8)) srcAddr srcPort
          (bytesAt buf 20 (len - 20).toNat) w
      else if buf 8 = 6 then (handleAudioBuffer (fun off => buf (20 + off)) (len - 20) w).1
      else w := by
  obtain ⟨hlong, hproto, hsender⟩ := h
  have hlong : ¬ len < 8 + 12 := UInt32.not_lt.mpr hlong
  unfold linkAudioHandleRx
  rw [if_neg hlong, if_neg (not_not.mpr hproto)]
  dsimp only
  rw [if_neg hsender]

/-- The datagram is an AudioBuffer of another node. -/
structure IsAudioBuffer (w : AudioWorld) (buf : UInt32 → UInt8) (len : UInt32) : Prop where
  header : 20 ≤ len
  proto : bytesAt buf 0 8 = kProtoAudio
  mtype : buf 8 = 6
  sender : LinkId.ofBytes (bytesAt buf 12 8) ≠ w.core.linkSelfId

instance (w : AudioWorld) (buf : UInt32 → UInt8) (len : UInt32) :
    Decidable (IsAudioBuffer w buf len) :=
  decidable_of_iff (20 ≤ len ∧ bytesAt buf 0 8 = kProtoAudio ∧ buf 8 = 6 ∧
    LinkId.ofBytes (bytesAt buf 12 8) ≠ w.core.linkSelfId)
    ⟨fun ⟨h, p, m, s⟩ => ⟨h, p, m, s⟩, fun ⟨h, p, m, s⟩ => ⟨h, p, m, s⟩⟩

/-- The body of a datagram, by offset. -/
def audioBody (buf : UInt32 → UInt8) : UInt32 → UInt8 := fun off => buf (20 + off)

/-- An AudioBuffer goes to `handle_audio_buffer`. -/
theorem handle_rx_audio_buffer {w : AudioWorld} {buf : UInt32 → UInt8} {len : UInt32}
    (h : IsAudioBuffer w buf len) (srcAddr : UInt32) (srcPort : UInt16) :
    linkAudioHandleRx buf len srcAddr srcPort w =
      (handleAudioBuffer (audioBody buf) (len - 20) w).1 := by
  have hforeign : IsForeign w buf len := ⟨h.header, h.proto, h.sender⟩
  rw [handle_rx_foreign hforeign, h.mtype]
  rfl

/-- The datagram is a kChannelRequest or kStopChannelRequest of another node. -/
structure IsChannelRequest (w : AudioWorld) (buf : UInt32 → UInt8) (len : UInt32) : Prop where
  header : 20 ≤ len
  proto : bytesAt buf 0 8 = kProtoAudio
  mtype : buf 8 = 4 ∨ buf 8 = 5
  sender : LinkId.ofBytes (bytesAt buf 12 8) ≠ w.core.linkSelfId

instance (w : AudioWorld) (buf : UInt32 → UInt8) (len : UInt32) :
    Decidable (IsChannelRequest w buf len) :=
  decidable_of_iff (20 ≤ len ∧ bytesAt buf 0 8 = kProtoAudio ∧ (buf 8 = 4 ∨ buf 8 = 5) ∧
    LinkId.ofBytes (bytesAt buf 12 8) ≠ w.core.linkSelfId)
    ⟨fun ⟨h, p, m, s⟩ => ⟨h, p, m, s⟩, fun ⟨h, p, m, s⟩ => ⟨h, p, m, s⟩⟩

/-- A request goes to `handle_channel_request`. -/
theorem handle_rx_channel_request {w : AudioWorld} {buf : UInt32 → UInt8} {len : UInt32}
    (h : IsChannelRequest w buf len) (srcAddr : UInt32) (srcPort : UInt16) :
    linkAudioHandleRx buf len srcAddr srcPort w =
      handleChannelRequest (buf 8) (.ofBytes (bytesAt buf 12 8)) srcAddr srcPort
        (bytesAt buf 20 (len - 20).toNat) w := by
  have hforeign : IsForeign w buf len := ⟨h.header, h.proto, h.sender⟩
  rw [handle_rx_foreign hforeign]
  rcases h.mtype with hmtype | hmtype <;> rw [hmtype] <;> rfl

/-- What a datagram may do. -/
theorem audio_rx_cases (buf : UInt32 → UInt8) (len : UInt32) (srcAddr : UInt32) (srcPort : UInt16)
    (w : AudioWorld) :
    IsAudioBuffer w buf len ∨
      ¬ IsAudioBuffer w buf len ∧
        (CatalogOnly w (linkAudioHandleRx buf len srcAddr srcPort w) ∨
        ReleasesOnly w (linkAudioHandleRx buf len srcAddr srcPort w) ∨
        SubscribersOnly w (linkAudioHandleRx buf len srcAddr srcPort w)) := by
  by_cases hbuffer : IsAudioBuffer w buf len
  · exact .inl hbuffer
  · refine .inr ⟨hbuffer, ?_⟩
    by_cases hforeign : IsForeign w buf len
    · obtain ⟨hlong, hproto, hsender⟩ := hforeign
      rw [handle_rx_foreign ⟨hlong, hproto, hsender⟩]
      split
      · exact .inl (peer_announcement_frame ..)
      · split
        · exact .inr (.inl (channel_byes_frame ..))
        · split
          · exact .inr (.inr (channel_request_frame ..))
          · split
            · rename_i hmtype
              exact absurd ⟨hlong, hproto, hmtype, hsender⟩ hbuffer
            · exact .inl (.refl w)
    · rw [handle_rx_refused hforeign]
      exact .inl (.refl w)

/-! ## AudioBuffers -/

/-- The subscription that `find_sub_for_channel` finds. -/
theorem find_sub_some {w : AudioWorld} {cid : LinkId} {j : Nat}
    (h : findSubForChannel w cid = some j) :
    ∃ sub, w.linkAudioSubs[j]? = some sub ∧ sub.inUse = true ∧ sub.channelId = cid := by
  obtain ⟨hlt, hmatch, _⟩ := List.findIdx?_eq_some_iff_getElem.mp h
  rw [Bool.and_eq_true, decide_eq_true_eq] at hmatch
  exact ⟨_, List.getElem?_eq_getElem hlt, hmatch.1, hmatch.2⟩

/-- A subscription in use for the channel is found, or one before it. -/
theorem find_sub_isSome {w : AudioWorld} {cid : LinkId} {i : Nat} {sub : AudioSub}
    (hsub : w.linkAudioSubs[i]? = some sub) (huse : sub.inUse = true) (hcid : sub.channelId = cid) :
    (findSubForChannel w cid).isSome := by
  unfold findSubForChannel
  rw [List.findIdx?_isSome, List.any_eq_true]
  refine ⟨sub, List.mem_of_getElem? hsub, ?_⟩
  rw [Bool.and_eq_true, decide_eq_true_eq]
  exact ⟨huse, hcid⟩

/-- A body that passes every check is delivered. -/
theorem handle_audio_buffer_delivers {mem : UInt32 → UInt8} {n : UInt32} {w : AudioWorld}
    {c : BodyCursor} {info : AudioBufferInfo} {j : Nat} {sub : AudioSub}
    (hparse : parseAudioBuffer mem n = (c, some info))
    (hsession : info.sessionId = w.core.linkSelfSession)
    (hfind : findSubForChannel w info.channelId = some j)
    (hsub : w.linkAudioSubs[j]? = some sub) :
    (handleAudioBuffer mem n w).1 =
      w.setSub j (sub.deliver info.numChan
        (channelZero mem c.p info.numChan info.totalFrames.toNat)) := by
  unfold handleAudioBuffer
  rw [hparse]
  dsimp only
  rw [if_neg (not_not.mpr hsession), hfind]
  dsimp only
  rw [hsub]

/-- A body that fails a check changes nothing. -/
theorem handle_audio_buffer_ignores {mem : UInt32 → UInt8} {n : UInt32} {w : AudioWorld}
    (h : ∀ c info, parseAudioBuffer mem n = (c, some info) →
      info.sessionId ≠ w.core.linkSelfSession ∨ findSubForChannel w info.channelId = none) :
    (handleAudioBuffer mem n w).1 = w := by
  unfold handleAudioBuffer
  split
  · rfl
  · rename_i c info hparse
    rcases h c info hparse with hsession | hfind
    · rw [if_pos hsession]
    · rw [hfind]
      split <;> rfl

/-- A datagram that is no request leaves the local channels alone. -/
theorem rx_local {w : AudioWorld} {buf : UInt32 → UInt8} {len : UInt32}
    (h : ¬ IsChannelRequest w buf len) (srcAddr : UInt32) (srcPort : UInt16) :
    (linkAudioHandleRx buf len srcAddr srcPort w).linkAudioLocal = w.linkAudioLocal := by
  by_cases hforeign : IsForeign w buf len
  · obtain ⟨hlong, hproto, hsender⟩ := hforeign
    rw [handle_rx_foreign ⟨hlong, hproto, hsender⟩]
    split
    · obtain ⟨_, _, _, hw⟩ := peer_announcement_frame (.ofBytes (bytesAt buf 12 8)) srcAddr
        srcPort (bytesAt buf 20 (len - 20).toNat) w
      rw [hw]
    · split
      · obtain ⟨_, _, hw, _⟩ := channel_byes_frame (bytesAt buf 20 (len - 20).toNat) w
        rw [hw]
      · split
        · rename_i hmtype
          exact absurd ⟨hlong, hproto, hmtype, hsender⟩ h
        · split
          · unfold handleAudioBuffer
            repeat' split
            all_goals rfl
          · rfl
  · rw [handle_rx_refused hforeign]

/-! ## The two loops of a TDM frame -/

/-- Only the capture side, the clock and the network were touched. -/
def CaptureOnly (w w' : AudioWorld) : Prop :=
  ∃ locals clock sent pktBuf pktPos sentBuffers, w' = { w with
    linkAudioLocal := locals
    core := { w.core with
      clock := clock
      sent := sent }
    sTxPktBuf := pktBuf
    sTxPktPos := pktPos
    sentBuffers := sentBuffers }

theorem CaptureOnly.refl (w : AudioWorld) : CaptureOnly w w := ⟨_, _, _, _, _, _, rfl⟩

theorem CaptureOnly.trans {w w' w'' : AudioWorld} (h : CaptureOnly w w')
    (h' : CaptureOnly w' w'') : CaptureOnly w w'' := by
  obtain ⟨_, _, _, _, _, _, rfl⟩ := h
  obtain ⟨locals, clock, sent, pktBuf, pktPos, sentBuffers, rfl⟩ := h'
  exact ⟨locals, clock, sent, pktBuf, pktPos, sentBuffers, rfl⟩

theorem send_audio_buffer_frame (i : Nat) (samples : List UInt16) (beatsFirst : Int64)
    (w : AudioWorld) : CaptureOnly w (sendAudioBufferFor i samples beatsFirst w) := by
  unfold sendAudioBufferFor
  split
  · exact .refl w
  · split
    · exact .refl w
    · exact ⟨_, _, _, _, _, _, rfl⟩

theorem capture_channel_frame (port : Nat) (rx : Nat → UInt16) (beats : Nat → Int64)
    (w : AudioWorld) (ch : Nat) : CaptureOnly w (captureChannel port rx beats w ch) := by
  have hstore (w : AudioWorld) (pktBuf) (pktPos) :
      CaptureOnly w { w with sTxPktBuf := pktBuf, sTxPktPos := pktPos } :=
    ⟨_, _, _, pktBuf, pktPos, _, rfl⟩
  unfold captureChannel
  dsimp only
  split
  · split
    · exact ((hstore w _ w.sTxPktPos).trans (send_audio_buffer_frame ..)).trans
        (hstore _ _ _)
    · exact hstore w _ _
  · exact hstore w _ _

/-- The capture loop leaves the subscriptions alone. -/
theorem capture_loop_frame (port : Nat) (rx : Nat → UInt16) (beats : Nat → Int64) (chs : List Nat)
    (w : AudioWorld) : CaptureOnly w (chs.foldl (captureChannel port rx beats) w) := by
  induction chs generalizing w with
  | nil => exact .refl w
  | cons ch chs ih => exact (capture_channel_frame ..).trans (ih _)

/-- Only subscriptions and TDM transmit slots were touched. -/
def PlaybackOnly (w w' : AudioWorld) : Prop :=
  ∃ subs tdmTx, w' = { w with linkAudioSubs := subs, tdmTx := tdmTx }

/-- The drain loop leaves the capture side alone. -/
theorem drain_loop_frame (port : Nat) (slots : List Nat) (w : AudioWorld) :
    PlaybackOnly w (slots.foldl (drainSub port) w) := by
  induction slots generalizing w with
  | nil => exact ⟨_, _, rfl⟩
  | cons i slots ih =>
      have hone : PlaybackOnly w (drainSub port w i) := by
        unfold drainSub
        split
        · exact ⟨_, _, rfl⟩
        · split
          · exact ⟨_, _, rfl⟩
          · exact ⟨_, _, rfl⟩
      obtain ⟨subs, tdmTx, hfirst⟩ := hone
      obtain ⟨subs', tdmTx', hrest⟩ := ih (drainSub port w i)
      refine ⟨subs', tdmTx', ?_⟩
      rw [List.foldl_cons, hrest, hfirst]

/-- A TDM frame keeps what each capture keeps, if subscriptions and transmit slots are no part of
it. -/
theorem frame_keeps {P : AudioWorld → Prop} {port : Nat} {rx : Nat → UInt16}
    {beats : Nat → Int64} {w : AudioWorld}
    (hcapture : port < w.numTdmPorts → ∀ ch ∈ List.range linkTdmChannelsPerPort, ∀ s, P s →
      P (captureChannel port rx beats s ch))
    (hdrain : ∀ s subs tdmTx, P s → P { s with linkAudioSubs := subs, tdmTx := tdmTx })
    (h : P w) : P (linkAudioOnTdmFrame port rx beats w) := by
  unfold linkAudioOnTdmFrame
  split
  · exact h
  · rename_i hknown
    have hcaptured := Sweep.inv_sweep (hcapture (Nat.not_le.mp hknown)) h
    obtain ⟨subs, tdmTx, hplayed⟩ := drain_loop_frame port (List.range linkAudioMaxRemote)
      ((List.range linkTdmChannelsPerPort).foldl (captureChannel port rx beats) w)
    dsimp only
    rw [hplayed]
    exact hdrain _ subs tdmTx hcaptured

end LinkFPGA
