import LinkFPGA.Proofs.AudioCalls
import LinkFPGA.Proofs.AudioStream
import LinkFPGA.Proofs.AudioWalk

/-!
# What unsubscribing leaves behind

`link_audio_subscribe` takes the first free slot without looking for a subscription of the
channel, and `link_audio_unsubscribe` frees the first slot it finds. So it is final as long as no
channel takes two slots (`unsubscribe_final`), that is, as long as no channel is subscribed to
while it is subscribed to. `subscribe_twice_survives` is the run in which one is.

Read `call_slot` first: it says what a call can put into a slot.
-/

namespace LinkFPGA

open Runs

/-- The subscription is in use, for the channel. -/
def AudioSub.Holds (sub : AudioSub) (cid : LinkId) : Prop :=
  sub.inUse = true ∧ sub.channelId = cid

/-- No subscription in use is for the channel. -/
def Unsubscribed (cid : LinkId) (w : AudioWorld) : Prop :=
  ∀ (j : Nat) (sub : AudioSub), w.linkAudioSubs[j]? = some sub → ¬ sub.Holds cid

/-- At most one subscription in use is for the channel. -/
def SoleSlot (cid : LinkId) (w : AudioWorld) : Prop :=
  ∀ (i j : Nat) (s t : AudioSub), w.linkAudioSubs[i]? = some s → w.linkAudioSubs[j]? = some t →
    s.Holds cid → t.Holds cid → i = j

/-- The call subscribes to the channel, and succeeds. -/
def Subscribes (cid : LinkId) (w : AudioWorld) : AudioCall → Prop
  | .subscribe port channel c => c = cid ∧ (linkAudioSubscribe port channel c w).2 = 0
  | _ => False

/-- The call subscribes to the channel, and succeeds, although it is subscribed to. -/
def Resubscribes (cid : LinkId) (w : AudioWorld) (e : AudioCall) : Prop :=
  Subscribes cid w e ∧ ¬ Unsubscribed cid w

/-! ## What a call puts into a slot -/

/-- Every subscription in use was in use before. -/
def NoneAdded (w w' : AudioWorld) : Prop :=
  ∀ (j : Nat) (s' : AudioSub), w'.linkAudioSubs[j]? = some s' →
    ∃ s, w.linkAudioSubs[j]? = some s ∧ ∀ cid, s'.Holds cid → s.Holds cid

theorem NoneAdded.refl (w : AudioWorld) : NoneAdded w w := fun _ s' h => ⟨s', h, fun _ => id⟩

theorem NoneAdded.of_eq {w w' : AudioWorld} (h : w'.linkAudioSubs = w.linkAudioSubs) :
    NoneAdded w w' := by
  intro j s' hs'
  rw [h] at hs'
  exact ⟨s', hs', fun _ => id⟩

theorem NoneAdded.trans {w w' w'' : AudioWorld} (h : NoneAdded w w') (h' : NoneAdded w' w'') :
    NoneAdded w w'' := by
  intro j s'' hs''
  obtain ⟨s', hs', hback'⟩ := h' j s'' hs''
  obtain ⟨s, hs, hback⟩ := h j s' hs'
  exact ⟨s, hs, fun cid hheld => hback cid (hback' cid hheld)⟩

/-- A subscription written over, but not put into use or given another channel. -/
theorem none_added_set {w : AudioWorld} {i : Nat} {s s' : AudioSub}
    (hs : w.linkAudioSubs[i]? = some s) (hheld : ∀ cid, s'.Holds cid → s.Holds cid) :
    NoneAdded w (w.setSub i s') := by
  intro j t ht
  have ht : (w.linkAudioSubs.set i s')[j]? = some t := ht
  have hlt : i < w.linkAudioSubs.length := (List.getElem?_eq_some_iff.mp hs).1
  by_cases hji : j = i
  · subst hji
    rw [List.getElem?_set_self hlt] at ht
    obtain rfl := Option.some.inj ht
    exact ⟨s, hs, hheld⟩
  · rw [List.getElem?_set_ne (Ne.symm hji)] at ht
    exact ⟨t, ht, fun _ => id⟩

/-- Delivering samples keeps what a subscription is for. -/
theorem deliver_keeps (sub : AudioSub) (numChan : UInt8) (samples : List UInt16) :
    (sub.deliver numChan samples).inUse = sub.inUse ∧
      (sub.deliver numChan samples).channelId = sub.channelId := by
  have hloop : ∀ start : AudioSub, (samples.foldl AudioSub.push start).inUse = start.inUse ∧
      (samples.foldl AudioSub.push start).channelId = start.channelId := by
    induction samples with
    | nil => exact fun _ => ⟨rfl, rfl⟩
    | cons v samples ih =>
        intro start
        have hpush : (start.push v).inUse = start.inUse ∧
            (start.push v).channelId = start.channelId := by
          unfold AudioSub.push
          dsimp only
          split <;> exact ⟨rfl, rfl⟩
        exact ⟨(ih _).1.trans hpush.1, (ih _).2.trans hpush.2⟩
  exact hloop { sub with numChanRemote := numChan }

theorem audio_buffer_adds_none (mem : UInt32 → UInt8) (n : UInt32) (w : AudioWorld) :
    NoneAdded w (handleAudioBuffer mem n w).1 := by
  unfold handleAudioBuffer
  split
  · exact .refl w
  · rename_i info _
    split
    · exact .refl w
    · split
      · exact .refl w
      · split
        · exact .refl w
        · rename_i sub hsub
          have hkeeps := deliver_keeps sub info.numChan
          refine none_added_set hsub fun cid hheld => ?_
          exact ⟨(hkeeps _).1 ▸ hheld.1, (hkeeps _).2 ▸ hheld.2⟩

theorem rx_adds_none (buf : UInt32 → UInt8) (len : UInt32) (srcAddr : UInt32) (srcPort : UInt16)
    (w : AudioWorld) : NoneAdded w (linkAudioHandleRx buf len srcAddr srcPort w) := by
  rcases audio_rx_cases buf len srcAddr srcPort w with hbuffer | ⟨_, hcatalog | hreleases | hsubs⟩
  · rw [handle_rx_audio_buffer hbuffer]
    exact audio_buffer_adds_none _ _ w
  · obtain ⟨_, _, _, hw⟩ := hcatalog
    exact .of_eq (by rw [hw])
  · obtain ⟨remote, subs, hw, hslots⟩ := hreleases
    rw [hw]
    intro j s' hs'
    rcases hslots j with hsame | hfreed
    · exact ⟨s', hsame.symm.trans hs', fun _ => id⟩
    · obtain ⟨s, hs, rfl⟩ := Option.map_eq_some_iff.mp (hfreed.symm.trans hs')
      exact ⟨s, hs, fun cid hheld => by cases hheld.1⟩
  · rcases hsubs with hw | ⟨_, _, _, _, _, hw⟩
    · exact .of_eq (by rw [hw])
    · exact .of_eq (by rw [hw]; rfl)

theorem frame_adds_none (port : Nat) (rx : Nat → UInt16) (beats : Nat → Int64) (w : AudioWorld) :
    NoneAdded w (linkAudioOnTdmFrame port rx beats w) := by
  unfold linkAudioOnTdmFrame
  split
  · exact .refl w
  · dsimp only
    have hcapture := capture_loop_frame port rx beats (List.range linkTdmChannelsPerPort) w
    generalize (List.range linkTdmChannelsPerPort).foldl (captureChannel port rx beats) w = captured
      at hcapture
    have hcaptured : NoneAdded w captured := by
      obtain ⟨_, _, _, _, _, _, rfl⟩ := hcapture
      exact .of_eq rfl
    have hone : ∀ i ∈ List.range linkAudioMaxRemote, ∀ s, NoneAdded w s →
        NoneAdded w (drainSub port s i) := by
      intro i _ s hs
      refine hs.trans ?_
      unfold drainSub
      split
      · exact .refl s
      · rename_i sub hsub
        split
        · exact .refl s
        · have hheld : ∀ cid, sub.drain.1.Holds cid → sub.Holds cid := by
            intro cid hheld
            unfold AudioSub.drain at hheld
            split at hheld <;> exact hheld
          exact (none_added_set hsub hheld).trans (.of_eq rfl)
    exact Sweep.inv_sweep hone hcaptured

theorem request_adds_none (now : UInt64) (w : AudioWorld) (i : Nat) :
    NoneAdded w (requestAgain now w i) := by
  unfold requestAgain
  split
  · exact .refl w
  · rename_i sub hsub
    split
    · have hsent : NoneAdded w (sendChannelRequest 4 sub.sourceAddr sub.sourcePort sub.channelId
          w) := .of_eq rfl
      exact hsent.trans (none_added_set hsub fun _ hheld => ⟨hheld.1, hheld.2⟩)
    · exact .refl w

theorem announce_adds_none (peerName : List UInt8) (w : AudioWorld) :
    NoneAdded w (sendAnnouncements peerName w) := by
  obtain ⟨_, _, _, hw⟩ := (announce_sends peerName w).1
  exact .of_eq (by rw [hw])

theorem unsubscribe_adds_none (cid : LinkId) (w : AudioWorld) :
    NoneAdded w (linkAudioUnsubscribe cid w).1 := by
  unfold linkAudioUnsubscribe
  split
  · exact .refl w
  · rename_i i hfind
    obtain ⟨hlt, _⟩ := List.findIdx?_eq_some_iff_getElem.mp hfind
    have hsub : w.linkAudioSubs[i]? = some (w.linkAudioSubs.getD i .zero) := by
      rw [List.getD_eq_getElem _ _ hlt, List.getElem?_eq_getElem hlt]
    exact (NoneAdded.of_eq rfl).trans (none_added_set (w := sendChannelRequest 5 _ _ _ w) hsub
      fun _ hheld => by cases hheld.1)

/-- A successful subscription takes a free slot. -/
theorem subscribe_slot (port channel : Int) (cid : LinkId) (w : AudioWorld) :
    (linkAudioSubscribe port channel cid w).1 = w ∨
    (linkAudioSubscribe port channel cid w).2 = 0 ∧ ∃ (j : Nat) (s' : AudioSub),
      (linkAudioSubscribe port channel cid w).1 = w.setSub j s' ∧ s'.channelId = cid := by
  unfold linkAudioSubscribe
  split
  · exact .inl rfl
  · rename_i i hfind
    dsimp only
    split
    · exact .inl rfl
    · refine .inr ⟨rfl, _, _, rfl, ?_⟩
      obtain ⟨hlt, hmatch, _⟩ := List.findIdx?_eq_some_iff_getElem.mp hfind
      rw [Bool.and_eq_true, decide_eq_true_eq] at hmatch
      show (w.linkAudioRemote.getD i .zero).channelId = cid
      rw [List.getD_eq_getElem _ _ hlt]
      exact hmatch.2

/-- A call puts no subscription into use, unless it is a successful `link_audio_subscribe`. -/
theorem call_slot (w : AudioWorld) (e : AudioCall) :
    NoneAdded w (callAudio w e) ∨
    ∃ (j : Nat) (s' : AudioSub), Subscribes s'.channelId w e ∧ callAudio w e = w.setSub j s' := by
  cases e with
  | event e =>
      cases e with
      | rx buf len srcAddr srcPort => exact .inl (rx_adds_none buf len srcAddr srcPort w)
      | tdmFrame port rx beats => exact .inl (frame_adds_none port rx beats w)
      | other core => exact .inl (.of_eq rfl)
  | tick peerName =>
      refine .inl ?_
      have hone : ∀ i ∈ List.range linkAudioMaxRemote, ∀ s, NoneAdded w s →
          NoneAdded w (requestAgain w.core.clock.now s i) :=
        fun i _ s hs => hs.trans (request_adds_none _ s i)
      have hadvance : NoneAdded w w.advance := .of_eq rfl
      show NoneAdded w (linkAudioTick peerName w)
      unfold linkAudioTick
      refine Sweep.inv_sweep hone ?_
      split
      · exact hadvance.trans (announce_adds_none peerName w.advance)
      · exact hadvance
  | subscribe port channel cid =>
      show NoneAdded w (linkAudioSubscribe port channel cid w).1 ∨ _
      rcases subscribe_slot port channel cid w with hsame | ⟨hok, j, s', hset, rfl⟩
      · exact .inl (.of_eq (by rw [hsame]))
      · exact .inr ⟨j, s', ⟨rfl, hok⟩, hset⟩
  | unsubscribe cid => exact .inl (unsubscribe_adds_none cid w)

variable {w : AudioWorld} {e : AudioCall} {cid : LinkId}

/-- A slot of the table after one slot was written. -/
theorem set_sub_cases {j k : Nat} {s' t : AudioSub}
    (h : (w.setSub j s').linkAudioSubs[k]? = some t) :
    (k = j ∧ t = s') ∨ (k ≠ j ∧ w.linkAudioSubs[k]? = some t) := by
  have h : (w.linkAudioSubs.set j s')[k]? = some t := h
  by_cases hkj : k = j
  · subst hkj
    obtain ⟨hlt, hget⟩ := List.getElem?_eq_some_iff.mp h
    rw [List.getElem_set_self] at hget
    exact .inl ⟨rfl, hget.symm⟩
  · rw [List.getElem?_set_ne (Ne.symm hkj)] at h
    exact .inr ⟨hkj, h⟩

/-- A channel stays unsubscribed until a subscription succeeds. -/
theorem step_unsubscribed (h : Unsubscribed cid w) (hguard : ¬ Subscribes cid w e) :
    Unsubscribed cid (callAudio w e) := by
  intro k t ht hheld
  rcases call_slot w e with hnone | ⟨j, s', hsubs, hset⟩
  · obtain ⟨s, hs, hback⟩ := hnone k t ht
    exact h k s hs (hback cid hheld)
  · rw [hset] at ht
    rcases set_sub_cases ht with ⟨_, rfl⟩ | ⟨_, ht⟩
    · exact hguard (hheld.2 ▸ hsubs)
    · exact h k t ht hheld

/-- A channel takes at most one slot until it is subscribed to twice. -/
theorem step_sole (h : SoleSlot cid w) (hguard : ¬ Resubscribes cid w e) :
    SoleSlot cid (callAudio w e) := by
  intro i k s t hs ht hs' ht'
  rcases call_slot w e with hnone | ⟨j, new, hsubs, hset⟩
  · obtain ⟨a, ha, hback⟩ := hnone i s hs
    obtain ⟨b, hb, hback'⟩ := hnone k t ht
    exact h i k a b ha hb (hback cid hs') (hback' cid ht')
  · rw [hset] at hs ht
    -- a new subscription of the channel finds no other one
    have hfree (hnew : new.channelId = cid) : Unsubscribed cid w :=
      not_not.mp fun hheld => hguard ⟨hnew ▸ hsubs, hheld⟩
    rcases set_sub_cases hs with ⟨hi, hnew⟩ | ⟨_, hold⟩
    · rcases set_sub_cases ht with ⟨hk, _⟩ | ⟨_, hold'⟩
      · exact hi.trans hk.symm
      · exact absurd ht' (hfree (hnew ▸ hs'.2) k t hold')
    · rcases set_sub_cases ht with ⟨_, hnew⟩ | ⟨_, hold'⟩
      · exact absurd hs' (hfree (hnew ▸ ht'.2) i s hold)
      · exact h i k s t hold hold' hs' ht'

/-! ## Unsubscribing -/

/-- A successful `link_audio_unsubscribe` is final exactly if the channel took one slot. -/
theorem unsubscribe_frees_iff (hok : (linkAudioUnsubscribe cid w).2 = 0) :
    Unsubscribed cid (linkAudioUnsubscribe cid w).1 ↔ SoleSlot cid w := by
  unfold linkAudioUnsubscribe at hok ⊢
  cases hfind : w.linkAudioSubs.findIdx? (fun sub => sub.inUse && sub.channelId = cid) with
  | none =>
      rw [hfind] at hok
      cases hok
  | some i =>
      obtain ⟨hlt, hmatch, _⟩ := List.findIdx?_eq_some_iff_getElem.mp hfind
      rw [Bool.and_eq_true, decide_eq_true_eq] at hmatch
      have hfirst := List.getElem?_eq_getElem hlt
      constructor
      · intro hfree
        -- any other slot would have survived
        have honly (j : Nat) (t : AudioSub) (ht : w.linkAudioSubs[j]? = some t)
            (hheld : t.Holds cid) : j = i := by
          by_contra hji
          refine hfree j t ?_ hheld
          show (w.linkAudioSubs.set i _)[j]? = some t
          rw [List.getElem?_set_ne (Ne.symm hji), ht]
        intro j k s t hs ht hs' ht'
        exact (honly j s hs hs').trans (honly k t ht ht').symm
      · intro hsole j t ht hheld
        rcases set_sub_cases ht with ⟨_, rfl⟩ | ⟨hji, ht⟩
        · cases hheld.1
        · exact hji (hsole j i t _ ht hfirst hheld hmatch)

/-- The datagram is a ChannelRequest for the channel. -/
def IsRequest (cid : LinkId) (selfId : LinkId) (d : Datagram) : Prop :=
  ∃ addr port, d = .unicast addr port linkDiscoveryPort (encodeChannelRequest selfId 4 cid)

theorem encode_request_inj {selfId c c' : LinkId} (mtype : UInt8)
    (h : encodeChannelRequest selfId mtype c = encodeChannelRequest selfId mtype c') : c = c' := by
  unfold encodeChannelRequest tlvEmitBytes at h
  have hvalue := List.append_cancel_left h
  rw [c.length_bytes, c'.length_bytes] at hvalue
  have hbytes := List.append_cancel_left hvalue
  calc c = .ofBytes c.bytes := (LinkId.ofBytes_bytes c).symm
    _ = .ofBytes c'.bytes := by rw [hbytes]
    _ = c' := LinkId.ofBytes_bytes c'

/-- The type byte tells an announcement from a request. -/
theorem announcement_not_request {peerName : List UInt8} {buf : List UInt8} {selfId : LinkId}
    (h : IsAnnouncement peerName w buf) : buf ≠ encodeChannelRequest selfId 4 cid := by
  rintro rfl
  obtain ⟨withPing, w', _, hbuf⟩ := h
  rw [encode_announcement_eq] at hbuf
  have htype := congrArg (fun l => l[8]?) hbuf
  have hrequest : (encodeChannelRequest selfId 4 cid)[8]? = some 4 := rfl
  have hannounce (rest : List UInt8) : (encodeAudioHeader w'.core.linkSelfId 1
      linkDiscoveryTtlSec.toUInt8 ++ rest)[8]? = some 1 := rfl
  rw [hrequest, hannounce] at htype
  exact absurd (Option.some.inj htype) (by decide)

/-- The channel is not subscribed to, and none of the datagrams sent since a state is a request
for it. -/
def RequestsNone (cid : LinkId) (w s : AudioWorld) : Prop :=
  Unsubscribed cid s ∧ s.core.linkSelfId = w.core.linkSelfId ∧
    ∃ sent, s.core.sent = w.core.sent ++ sent ∧ ∀ d ∈ sent, ¬ IsRequest cid w.core.linkSelfId d

theorem announce_requests_none (h : Unsubscribed cid w) (peerName : List UInt8) :
    RequestsNone cid w (sendAnnouncements peerName w.advance) := by
  obtain ⟨⟨_, _, _, hw⟩, sent, hsent, hmem⟩ := announce_sends peerName w.advance
  refine ⟨?_, by rw [hw]; rfl, sent, hsent, ?_⟩
  · rw [hw]
    exact h
  · intro d hd
    obtain ⟨_, _, buf, rfl, hbuf⟩ := hmem d hd
    rintro ⟨_, _, heq⟩
    injection heq with _ _ _ heq
    exact announcement_not_request hbuf heq

/-- The re-request loop works on the subscriptions in use. -/
theorem request_requests_none {s : AudioWorld} (h : RequestsNone cid w s) (now : UInt64) (i : Nat) :
    RequestsNone cid w (requestAgain now s i) := by
  obtain ⟨hfree, hself, sent, hsent, hnone⟩ := h
  have hadds := request_adds_none now s i
  obtain ⟨subs, more, hs, hmore⟩ := request_sends now s i
  refine ⟨fun j t ht hheld => ?_, ?_, sent ++ more, ?_, ?_⟩
  · obtain ⟨a, ha, hback⟩ := hadds j t ht
    exact hfree j a ha (hback cid hheld)
  · rw [hs]
    exact hself
  · rw [hs, ← List.append_assoc, ← hsent]
  · intro d hd
    rcases List.mem_append.mp hd with hd | hd
    · exact hnone d hd
    · obtain ⟨sub, hmem, huse, rfl⟩ := hmore d hd
      rintro ⟨addr, port, heq⟩
      injection heq with _ _ _ hbuf
      rw [hself] at hbuf
      obtain ⟨j, hj⟩ := List.getElem?_of_mem hmem
      exact hfree j sub hj ⟨huse, encode_request_inj 4 hbuf⟩

/-- The tick sends no request for a channel that is not subscribed to. -/
theorem tick_requests (h : Unsubscribed cid w) (peerName : List UInt8) :
    ∃ sent, (linkAudioTick peerName w).core.sent = w.core.sent ++ sent ∧
      ∀ d ∈ sent, ¬ IsRequest cid w.core.linkSelfId d := by
  have hone : ∀ i ∈ List.range linkAudioMaxRemote, ∀ s, RequestsNone cid w s →
      RequestsNone cid w (requestAgain w.core.clock.now s i) :=
    fun i _ s hs => request_requests_none hs _ i
  have hadvance : RequestsNone cid w w.advance := ⟨h, rfl, [], (List.append_nil _).symm, by simp⟩
  have htick : RequestsNone cid w (linkAudioTick peerName w) := by
    unfold linkAudioTick
    refine Sweep.inv_sweep hone ?_
    split
    · exact announce_requests_none h peerName
    · exact hadvance
  exact htick.2.2

/-- The channel an AudioBuffer is for. -/
theorem parse_channel_id {mem : UInt32 → UInt8} {n : UInt32} {c : BodyCursor}
    {info : AudioBufferInfo} (h : parseAudioBuffer mem n = (c, some info)) :
    info.channelId = LinkId.ofBytes (bytesAt mem 0 8) := by
  unfold parseAudioBuffer at h
  dsimp only at h
  split at h
  · cases h
  · split at h
    · cases h
    · rw [check_samples_eq] at h
      split at h
      · cases h
      · obtain ⟨_, hinfo⟩ := Prod.mk.inj h
        split at hinfo
        · obtain rfl := Option.some.inj hinfo
          rfl
        · cases hinfo

/-- An AudioBuffer of a channel that is not subscribed to changes nothing. -/
theorem buffer_unsubscribed (h : Unsubscribed cid w) {buf : UInt32 → UInt8} {len : UInt32}
    (hbuffer : IsAudioBuffer w buf len) (hcid : LinkId.ofBytes (bytesAt buf 20 8) = cid)
    (srcAddr : UInt32) (srcPort : UInt16) : linkAudioHandleRx buf len srcAddr srcPort w = w := by
  rw [handle_rx_audio_buffer hbuffer]
  refine handle_audio_buffer_ignores fun c info hparse => .inr ?_
  have hbody : bytesAt (audioBody buf) 0 8 = bytesAt buf 20 8 := by
    unfold bytesAt
    refine List.map_congr_left fun i _ => ?_
    show buf (20 + (0 + .ofNat i)) = _
    rw [UInt32.zero_add]
  rw [parse_channel_id hparse, hbody, hcid]
  refine List.findIdx?_eq_none_iff.mpr fun sub hmem => ?_
  obtain ⟨j, hj⟩ := List.getElem?_of_mem hmem
  have hfree := h j sub hj
  unfold AudioSub.Holds at hfree
  rw [Bool.and_eq_false_iff, decide_eq_false_iff_not]
  by_cases huse : sub.inUse = true
  · exact .inr fun hsame => hfree ⟨huse, hsame⟩
  · exact .inl (Bool.eq_false_iff.mpr huse)

/-! ## Whole runs -/

theorem audio_boot_unsubscribed (core : World) (ports : Nat) (cid : LinkId) :
    Unsubscribed cid (audioBoot core ports) := by
  have hinv : ∀ j ∈ List.range (ports * linkTdmChannelsPerPort), ∀ s : AudioWorld,
      Unsubscribed cid s → Unsubscribed cid (initLocal s j) := fun _ _ _ hs => hs
  have hinit : Unsubscribed cid (audioPowerOn core ports) := by
    intro j t ht hheld
    have ht : (List.replicate linkAudioMaxRemote AudioSub.zero)[j]? = some t := ht
    obtain rfl := List.eq_of_mem_replicate (List.mem_of_getElem? ht)
    cases hheld.1
  exact Sweep.inv_sweep hinv hinit

/-- In a run in which the channel is never subscribed to while it is subscribed to, a successful
`link_audio_unsubscribe` is final: until the channel is subscribed to again, no subscription in
use is for it, the tick does not request it, and its AudioBuffers change no subscription. -/
theorem unsubscribe_final (core : World) (ports : Nat) (cid : LinkId)
    (before after : List AudioCall) (w w' : AudioWorld)
    (hw : w = run callAudio (audioBoot core ports) before)
    (hguard : Guarded callAudio (fun w e => ¬ Resubscribes cid w e) (audioBoot core ports) before)
    (hok : (linkAudioUnsubscribe cid w).2 = 0)
    (hafter : Guarded callAudio (fun w e => ¬ Subscribes cid w e) (linkAudioUnsubscribe cid w).1
      after)
    (hw' : w' = run callAudio (linkAudioUnsubscribe cid w).1 after) :
    Unsubscribed cid w' ∧
    (∀ peerName, ∃ sent, (linkAudioTick peerName w').core.sent = w'.core.sent ++ sent ∧
      ∀ d ∈ sent, ¬ IsRequest cid w'.core.linkSelfId d) ∧
    ∀ buf len srcAddr srcPort, IsAudioBuffer w' buf len →
      LinkId.ofBytes (bytesAt buf 20 8) = cid →
      (linkAudioHandleRx buf len srcAddr srcPort w').linkAudioSubs = w'.linkAudioSubs := by
  have hinit : SoleSlot cid (audioBoot core ports) := fun i _ s _ hs _ hheld _ =>
    absurd hheld (audio_boot_unsubscribed core ports cid i s hs)
  have hsole : SoleSlot cid w :=
    hw ▸ run_induct (fun _ _ h hstep => step_sole h hstep) hinit hguard
  have hfree : Unsubscribed cid w' :=
    hw' ▸ run_induct (fun _ _ h hstep => step_unsubscribed h hstep)
      ((unsubscribe_frees_iff hok).mpr hsole) hafter
  refine ⟨hfree, fun peerName => tick_requests hfree peerName, ?_⟩
  intro buf len srcAddr srcPort hbuffer hcid
  rw [buffer_unsubscribed hfree hbuffer hcid]

/-- A channel without a name. -/
def someChannel : LinkId := .ofBytes [1, 2, 3]

/-- Another node announces it. -/
def someAnnouncement : AudioCall :=
  let buf := encodeAudioHeader (.ofBytes [7]) 1 5 ++
    tlvEmitBytes keyAuca (putBe32 1 ++ putBe32 0 ++ someChannel.bytes)
  .event (.rx (memOf buf) (.ofNat buf.length) 0x0A000002 4000)

/-- A channel subscribed to once. -/
theorem unsubscribe_final_once :
    let w := run callAudio (audioBoot (powerOn (fun _ => 0) 0 []) 1)
      [someAnnouncement, .subscribe 0 0 someChannel]
    (linkAudioUnsubscribe someChannel w).2 = 0 ∧
      Unsubscribed someChannel (linkAudioUnsubscribe someChannel w).1 := by
  intro w
  have hok : (linkAudioUnsubscribe someChannel w).2 = 0 := by decide +kernel
  have hfirst : Unsubscribed someChannel (callAudio
      (audioBoot (powerOn (fun _ => 0) 0 []) 1) someAnnouncement) :=
    step_unsubscribed (audio_boot_unsubscribed _ _ _) id
  have hguard : Guarded callAudio (fun w e => ¬ Resubscribes someChannel w e)
      (audioBoot (powerOn (fun _ => 0) 0 []) 1)
      [someAnnouncement, .subscribe 0 0 someChannel] :=
    ⟨fun h => h.1, fun h => h.2 hfirst, trivial⟩
  exact ⟨hok, (unsubscribe_final _ _ someChannel _ [] w _ rfl hguard hok trivial rfl).1⟩

/-- A channel subscribed to twice is still subscribed to after it was unsubscribed. -/
theorem subscribe_twice_survives :
    ¬ ∀ (core : World) (ports : Nat) (cid : LinkId) (before : List AudioCall),
      (linkAudioUnsubscribe cid (run callAudio (audioBoot core ports) before)).2 = 0 →
      Unsubscribed cid
        (linkAudioUnsubscribe cid (run callAudio (audioBoot core ports) before)).1 := by
  intro h
  have hfinal := h (powerOn (fun _ => 0) 0 []) 1 someChannel
    [someAnnouncement, .subscribe 0 0 someChannel, .subscribe 0 1 someChannel] (by decide +kernel)
  have hsecond : ((linkAudioUnsubscribe someChannel (run callAudio
      (audioBoot (powerOn (fun _ => 0) 0 []) 1) [someAnnouncement, .subscribe 0 0 someChannel,
        .subscribe 0 1 someChannel])).1.linkAudioSubs[1]?).map
      (fun sub => (sub.inUse, sub.channelId)) = some (true, someChannel) := by
    decide +kernel
  obtain ⟨sub, hsub, hheld⟩ := Option.map_eq_some_iff.mp hsecond
  exact hfinal 1 sub hsub ⟨congrArg (·.1) hheld, congrArg (·.2) hheld⟩

end LinkFPGA
