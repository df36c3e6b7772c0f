import Mathlib.Data.List.Forall2
import Mathlib.Data.List.Induction
import LinkFPGA.Proofs.AudioCodec
import LinkFPGA.Proofs.JitterRing

/-!
# The audio stream, end to end

A local channel is captured sample by sample into a packet buffer, and every 64th sample sends the
buffer. `Stream` follows one channel through a run: the buffers it has sent are the blocks that
its captured samples are cut into, and the packet buffer holds the rest. `audio_stream_integrity`
puts this together with the round trip of `AudioCodec`.

Read `capture_self` first: it is one sample of one channel.
-/

namespace LinkFPGA

open Blocks

/-! ## The wiring -/

/-- The index of the local channel of a port and channel. -/
def localIndex (port ch : Nat) : Nat := port * linkTdmChannelsPerPort + ch

/-- Every channel of every port has one local channel, in use. -/
structure Wired (ports : Nat) (w : AudioWorld) : Prop where
  count : w.numTdmPorts = ports
  size : w.linkAudioLocal.length = ports * linkTdmChannelsPerPort
  entry : ∀ (i : Nat) (c : AudioLocal), w.linkAudioLocal[i]? = some c → c.inUse = true ∧
    c.tdmPort = (i / linkTdmChannelsPerPort : Nat) ∧
    c.tdmChannel = (i % linkTdmChannelsPerPort : Nat)

variable {ports port ch : Nat} {w : AudioWorld}

theorem local_index_lt (hport : port < ports) (hch : ch < linkTdmChannelsPerPort) :
    localIndex port ch < ports * linkTdmChannelsPerPort := by
  have hnext : (port + 1) * linkTdmChannelsPerPort ≤ ports * linkTdmChannelsPerPort :=
    Nat.mul_le_mul_right _ hport
  rw [Nat.succ_mul] at hnext
  unfold localIndex
  omega

/-- Two channels share a local channel only if they are the same. -/
theorem local_index_inj {port' ch' : Nat} (hch : ch < linkTdmChannelsPerPort)
    (hch' : ch' < linkTdmChannelsPerPort) (h : localIndex port ch = localIndex port' ch') :
    port = port' ∧ ch = ch' := by
  unfold localIndex linkTdmChannelsPerPort at *
  omega

/-- The wired entry of a channel is the one the capture loop finds. -/
theorem Wired.find (h : Wired ports w) (hport : port < ports) (hch : ch < linkTdmChannelsPerPort) :
    findLocalAt w port ch = some (localIndex port ch) := by
  have hlt : localIndex port ch < w.linkAudioLocal.length := by
    rw [h.size]
    exact local_index_lt hport hch
  have hdiv : localIndex port ch / linkTdmChannelsPerPort = port := by
    unfold localIndex linkTdmChannelsPerPort at *
    omega
  have hmod : localIndex port ch % linkTdmChannelsPerPort = ch := by
    unfold localIndex linkTdmChannelsPerPort at *
    omega
  refine List.findIdx?_eq_some_iff_getElem.mpr ⟨hlt, ?_, ?_⟩
  · obtain ⟨huse, hp, hc⟩ := h.entry _ _ (List.getElem?_eq_getElem hlt)
    rw [huse, hp, hc, hdiv, hmod]
    simp
  · intro j hj hmatch
    obtain ⟨_, hp, hc⟩ := h.entry j _ (List.getElem?_eq_getElem (Nat.lt_trans hj hlt))
    rw [hp, hc] at hmatch
    simp only [Bool.and_eq_true, decide_eq_true_eq, Int.ofNat_inj] at hmatch
    unfold localIndex at hj
    unfold linkTdmChannelsPerPort at *
    omega

/-- Writing an entry that keeps its wiring. -/
theorem Wired.setLocal (h : Wired ports w) {i : Nat} {c c' : AudioLocal}
    (hc : w.linkAudioLocal[i]? = some c) (huse : c'.inUse = c.inUse) (hp : c'.tdmPort = c.tdmPort)
    (hch : c'.tdmChannel = c.tdmChannel) : Wired ports (w.setLocal i c') where
  count := h.count
  size := by
    show (w.linkAudioLocal.set i c').length = _
    rw [List.length_set]
    exact h.size
  entry := by
    intro j d hd
    have hlt : i < w.linkAudioLocal.length := (List.getElem?_eq_some_iff.mp hc).1
    have hset : (w.linkAudioLocal.set i c')[j]? = some d := hd
    by_cases hji : i = j
    · subst hji
      rw [List.getElem?_set_self hlt] at hset
      obtain rfl := Option.some.inj hset
      rw [huse, hp, hch]
      exact h.entry i c hc
    · rw [List.getElem?_set_ne hji] at hset
      exact h.entry j d hset

/-! ## One sample of one channel -/

/-- What the capture loop keeps for one channel, and the buffers the channel has sent. -/
@[ext] structure LaneView where
  buf : Vector UInt16 audioFramesPerPkt.toNat
  pos : UInt32
  chan : Option AudioLocal
  sent : List SentBuffer

def laneView (port ch : Nat) (w : AudioWorld) : LaneView where
  buf := w.sTxPktBuf (port, ch)
  pos := w.sTxPktPos (port, ch)
  chan := w.linkAudioLocal[localIndex port ch]?
  sent := w.sentBuffers.filter (·.channel = localIndex port ch)

/-- The identity that goes into every buffer. -/
structure SenderId where
  selfId : LinkId
  session : LinkId
  bp : Int64

def senderId (w : AudioWorld) : SenderId :=
  ⟨w.core.linkSelfId, w.core.linkSelfSession, w.core.linkSelfTimeline.tempoUsPerBeat⟩

/-- The buffer a channel sends. -/
def SenderId.buffer (s : SenderId) (i : Nat) (c : AudioLocal) (beatsFirst : Int64)
    (samples : List UInt16) : SentBuffer :=
  ⟨i, encodeAudioBuffer s.selfId s.session s.bp c beatsFirst samples, c.endpoints⟩

/-- One sample of a channel: it is stored, and a full buffer is sent and starts over. -/
def LaneView.capture (s : SenderId) (i : Nat) (sample : UInt16) (beatsFirst : Int64)
    (v : LaneView) : LaneView :=
  let buf := v.buf.setIfInBounds v.pos.toNat sample
  if v.pos + 1 = audioFramesPerPkt then
    match v.chan with
    | none => { v with buf := buf, pos := 0 }
    | some c =>
        if c.numSubscribers = 0 then { v with buf := buf, pos := 0 }
        else
          { buf := buf
            pos := 0
            chan := some { c with nextSendCount := c.nextSendCount + 1 }
            sent := v.sent ++ [s.buffer i c beatsFirst buf.toList] }
  else { v with buf := buf, pos := v.pos + 1 }

/-- The state before the send, with the sample stored. -/
theorem capture_channel_eq (h : Wired ports w) (hport : port < ports)
    (hch : ch < linkTdmChannelsPerPort) (rx : Nat → UInt16) (beats : Nat → Int64) :
    captureChannel port rx beats w ch =
      let buf := (w.sTxPktBuf (port, ch)).setIfInBounds (w.sTxPktPos (port, ch)).toNat (rx ch)
      let stored := { w with sTxPktBuf := Function.update w.sTxPktBuf (port, ch) buf }
      if w.sTxPktPos (port, ch) + 1 = audioFramesPerPkt then
        { sendAudioBufferFor (localIndex port ch) buf.toList (beats ch) stored with
          sTxPktPos := Function.update
            (sendAudioBufferFor (localIndex port ch) buf.toList (beats ch) stored).sTxPktPos
            (port, ch) 0 }
      else
        { stored with
          sTxPktPos := Function.update w.sTxPktPos (port, ch) (w.sTxPktPos (port, ch) + 1) } := by
  have hfind : findLocalAt { w with
      sTxPktBuf := Function.update w.sTxPktBuf (port, ch)
        ((w.sTxPktBuf (port, ch)).setIfInBounds (w.sTxPktPos (port, ch)).toNat (rx ch)) } port ch =
      some (localIndex port ch) := h.find hport hch
  unfold captureChannel
  dsimp only
  rw [hfind]

/-- What a send does to the lane of another channel. -/
theorem send_other {i : Nat} (hne : i ≠ localIndex port ch) (samples : List UInt16)
    (beatsFirst : Int64) (w : AudioWorld) :
    laneView port ch (sendAudioBufferFor i samples beatsFirst w) = laneView port ch w := by
  unfold sendAudioBufferFor
  split
  · rfl
  · split
    · rfl
    · unfold laneView
      dsimp only
      rw [List.filter_append]
      simp [AudioWorld.setLocal, hne]

/-- What a send does to the channel that sends. -/
theorem send_self (i : Nat) (samples : List UInt16) (beatsFirst : Int64) (w : AudioWorld) :
    sendAudioBufferFor i samples beatsFirst w = w ∧
        (∀ c, w.linkAudioLocal[i]? = some c → c.numSubscribers = 0) ∨
      ∃ c, w.linkAudioLocal[i]? = some c ∧ c.numSubscribers ≠ 0 ∧
        sendAudioBufferFor i samples beatsFirst w =
          { w.setLocal i { c with nextSendCount := c.nextSendCount + 1 } with
            core := { w.core.advance with
              sent := w.core.sent ++ c.endpoints.map fun (addr, port) =>
                Datagram.unicast addr port linkDiscoveryPort
                  ((senderId w).buffer i c beatsFirst samples).buf }
            sentBuffers := w.sentBuffers ++ [(senderId w).buffer i c beatsFirst samples] } := by
  unfold sendAudioBufferFor
  cases hc : w.linkAudioLocal[i]? with
  | none => exact .inl ⟨rfl, fun c h => nomatch h⟩
  | some c =>
      by_cases hnone : c.numSubscribers = 0
      · refine .inl ⟨if_pos hnone, ?_⟩
        intro d hd
        obtain rfl := Option.some.inj hd
        exact hnone
      · exact .inr ⟨c, rfl, hnone, if_neg hnone⟩

/-- The capture loop at another channel leaves the lane alone. -/
theorem capture_other (h : Wired ports w) {port' ch' : Nat} (hport' : port' < ports)
    (hch' : ch' < linkTdmChannelsPerPort) (hch : ch < linkTdmChannelsPerPort)
    (hne : (port', ch') ≠ (port, ch)) (rx : Nat → UInt16) (beats : Nat → Int64) :
    laneView port ch (captureChannel port' rx beats w ch') = laneView port ch w := by
  have hindex : localIndex port' ch' ≠ localIndex port ch := by
    intro heq
    obtain ⟨rfl, rfl⟩ := local_index_inj hch' hch heq
    exact hne rfl
  have hbuf (w : AudioWorld) (buf : Vector UInt16 audioFramesPerPkt.toNat) :
      laneView port ch { w with
        sTxPktBuf := Function.update w.sTxPktBuf (port', ch') buf } = laneView port ch w := by
    unfold laneView
    dsimp only
    rw [Function.update_of_ne hne.symm]
  have hpos (w : AudioWorld) (pos : UInt32) :
      laneView port ch { w with
        sTxPktPos := Function.update w.sTxPktPos (port', ch') pos } = laneView port ch w := by
    unfold laneView
    dsimp only
    rw [Function.update_of_ne hne.symm]
  rw [capture_channel_eq h hport' hch']
  dsimp only
  split
  · exact (hpos _ 0).trans ((send_other hindex ..).trans (hbuf w _))
  · exact (hpos { w with sTxPktBuf := _ } _).trans (hbuf w _)

/-- The capture loop at a channel is one sample of its lane. -/
theorem capture_self (h : Wired ports w) (hport : port < ports) (hch : ch < linkTdmChannelsPerPort)
    (rx : Nat → UInt16) (beats : Nat → Int64) :
    laneView port ch (captureChannel port rx beats w ch) =
      (laneView port ch w).capture (senderId w) (localIndex port ch) (rx ch) (beats ch) := by
  rw [capture_channel_eq h hport hch]
  unfold LaneView.capture
  by_cases hfull : w.sTxPktPos (port, ch) + 1 = audioFramesPerPkt
  · have hfull' : (laneView port ch w).pos + 1 = audioFramesPerPkt := hfull
    dsimp only
    rw [if_pos hfull, if_pos hfull']
    generalize hbuf : (w.sTxPktBuf (port, ch)).setIfInBounds (w.sTxPktPos (port, ch)).toNat (rx ch)
      = buf
    have hbuf' : (laneView port ch w).buf.setIfInBounds (laneView port ch w).pos.toNat (rx ch) =
      buf := hbuf
    rw [hbuf']
    rcases send_self (localIndex port ch) buf.toList (beats ch)
      { w with sTxPktBuf := Function.update w.sTxPktBuf (port, ch) buf } with
      ⟨hsend, hnone⟩ | ⟨c, hc, hsome, hsend⟩
    · rw [hsend]
      cases hc : (laneView port ch w).chan with
      | none => exact LaneView.ext (Function.update_self ..) (Function.update_self ..) hc rfl
      | some c =>
          dsimp only
          rw [if_pos (hnone c hc)]
          exact LaneView.ext (Function.update_self ..) (Function.update_self ..) hc rfl
    · have hlt : localIndex port ch < w.linkAudioLocal.length :=
        (List.getElem?_eq_some_iff.mp hc).1
      have hchan : (laneView port ch w).chan = some c := hc
      rw [hsend, hchan]
      dsimp only
      rw [if_neg hsome]
      refine LaneView.ext (Function.update_self ..) (Function.update_self ..)
        (List.getElem?_set_self hlt) ?_
      show List.filter _ (w.sentBuffers ++ [(senderId w).buffer _ c _ _]) = _
      rw [List.filter_append, List.filter_singleton]
      simp [SenderId.buffer, laneView]
  · have hfull' : ¬ (laneView port ch w).pos + 1 = audioFramesPerPkt := hfull
    dsimp only
    rw [if_neg hfull, if_neg hfull']
    exact LaneView.ext (Function.update_self ..) (Function.update_self ..) rfl rfl

/-! ## One frame -/

/-- The capture loop keeps the wiring and the sender's identity. -/
theorem capture_wired (h : Wired ports w) (hport : port < ports)
    (hch : ch < linkTdmChannelsPerPort) (rx : Nat → UInt16) (beats : Nat → Int64) :
    Wired ports (captureChannel port rx beats w ch) ∧
      senderId (captureChannel port rx beats w ch) = senderId w := by
  rw [capture_channel_eq h hport hch]
  dsimp only
  split
  · rcases send_self (localIndex port ch) _ (beats ch) { w with sTxPktBuf := _ } with
      ⟨hsend, _⟩ | ⟨c, hc, _, hsend⟩
    · rw [hsend]
      exact ⟨⟨h.count, h.size, h.entry⟩, rfl⟩
    · rw [hsend]
      have hset : Wired ports (w.setLocal (localIndex port ch)
          { c with nextSendCount := c.nextSendCount + 1 }) := h.setLocal hc rfl rfl rfl
      exact ⟨⟨hset.count, hset.size, hset.entry⟩, rfl⟩
  · exact ⟨⟨h.count, h.size, h.entry⟩, rfl⟩

/-- A frame of the lane's port is one sample of the lane; a frame of another port leaves it
alone. -/
theorem frame_lane (h : Wired ports w) (hport : port < ports) (hch : ch < linkTdmChannelsPerPort)
    (p : Nat) (rx : Nat → UInt16) (beats : Nat → Int64) :
    laneView port ch (linkAudioOnTdmFrame p rx beats w) =
      if p = port then
        (laneView port ch w).capture (senderId w) (localIndex port ch) (rx ch) (beats ch)
      else laneView port ch w := by
  have hcapture (hp : p < ports) :
      laneView port ch ((List.range linkTdmChannelsPerPort).foldl (captureChannel p rx beats) w) =
        if p = port then
          (laneView port ch w).capture (senderId w) (localIndex port ch) (rx ch) (beats ch)
        else laneView port ch w := by
    have hinv : ∀ j ∈ List.range linkTdmChannelsPerPort, ∀ s,
        Wired ports s ∧ senderId s = senderId w →
        Wired ports (captureChannel p rx beats s j) ∧
          senderId (captureChannel p rx beats s j) = senderId w := by
      intro j hj s hs
      obtain ⟨hwired, hsame⟩ := capture_wired hs.1 hp (List.mem_range.mp hj) rx beats
      exact ⟨hwired, hsame.trans hs.2⟩
    split
    · rename_i heq
      subst heq
      refine Sweep.view_sweep hinv ?_ ?_ List.nodup_range (List.mem_range.mpr hch) ⟨h, rfl⟩
      · intro j hj s hs hne
        exact capture_other hs.1 hp (List.mem_range.mp hj) hch
          (fun heq => hne (Prod.mk.inj heq).2) rx beats
      · intro s hs
        rw [capture_self hs.1 hport hch, hs.2]
    · rename_i hne
      -- a frame of another port: no channel of the loop is the lane's
      have hloop : ∀ l : List Nat, (∀ j ∈ l, j < linkTdmChannelsPerPort) → ∀ s, Wired ports s →
          laneView port ch (l.foldl (captureChannel p rx beats) s) = laneView port ch s := by
        intro l
        induction l with
        | nil => exact fun _ _ _ => rfl
        | cons j l ih =>
            intro hl s hs
            have hj := hl j List.mem_cons_self
            rw [List.foldl_cons, ih (fun k hk => hl k (List.mem_cons_of_mem _ hk)) _
              (capture_wired hs hp hj rx beats).1]
            exact capture_other hs hp hj hch (fun heq => hne (Prod.mk.inj heq).1) rx beats
      exact hloop _ (fun j hj => List.mem_range.mp hj) w h
  unfold linkAudioOnTdmFrame
  rw [h.count]
  split
  · rename_i hp
    rw [if_neg (by omega)]
  · rename_i hp
    have hlane := hcapture (Nat.not_le.mp hp)
    generalize (List.range linkTdmChannelsPerPort).foldl (captureChannel p rx beats) w = captured
      at hlane
    obtain ⟨subs, tdmTx, hdrain⟩ := drain_loop_frame p (List.range linkAudioMaxRemote) captured
    show laneView port ch ((List.range linkAudioMaxRemote).foldl (drainSub p) captured) = _
    rw [hdrain]
    exact hlane

theorem frame_wired (h : Wired ports w) (p : Nat) (rx : Nat → UInt16) (beats : Nat → Int64) :
    Wired ports (linkAudioOnTdmFrame p rx beats w) := by
  refine frame_keeps ?_ (fun _ _ _ hs => ⟨hs.count, hs.size, hs.entry⟩) h
  intro hp j hj s hs
  rw [h.count] at hp
  exact (capture_wired hs hp (List.mem_range.mp hj) rx beats).1

/-! ## The datagrams behind the buffers -/

/-- Every buffer sent since a state has gone to each of its endpoints. -/
def Logged (w w' : AudioWorld) : Prop :=
  ∃ sent, w'.sentBuffers = w.sentBuffers ++ sent ∧
    ∀ sb ∈ sent, ∀ e ∈ sb.endpoints,
      Datagram.unicast e.1 e.2 linkDiscoveryPort sb.buf ∈ w'.core.sent

theorem capture_logged {w' : AudioWorld} (h : Logged w w') (p : Nat) (rx : Nat → UInt16)
    (beats : Nat → Int64) (ch : Nat) : Logged w (captureChannel p rx beats w' ch) := by
  have hsend (i : Nat) (samples : List UInt16) (beatsFirst : Int64) {w' : AudioWorld}
      (h : Logged w w') : Logged w (sendAudioBufferFor i samples beatsFirst w') := by
    rcases send_self i samples beatsFirst w' with ⟨hsame, _⟩ | ⟨c, _, _, hnew⟩
    · rw [hsame]
      exact h
    · obtain ⟨sent, hsent, hall⟩ := h
      rw [hnew]
      refine ⟨sent ++ [(senderId w').buffer i c beatsFirst samples], ?_, ?_⟩
      · show w'.sentBuffers ++ _ = _
        rw [hsent, List.append_assoc]
      · intro sb hsb e he
        rcases List.mem_append.mp hsb with hold | hlast
        · exact List.mem_append_left _ (hall sb hold e he)
        · obtain rfl := List.mem_singleton.mp hlast
          exact List.mem_append_right _ (List.mem_map.mpr ⟨e, he, rfl⟩)
  have hstored : Logged w { w' with
      sTxPktBuf := Function.update w'.sTxPktBuf (p, ch)
        ((w'.sTxPktBuf (p, ch)).setIfInBounds (w'.sTxPktPos (p, ch)).toNat (rx ch)) } := h
  unfold captureChannel
  dsimp only
  split
  · split
    · exact hsend _ _ _ hstored
    · exact h
  · exact h

theorem frame_logged (w : AudioWorld) (p : Nat) (rx : Nat → UInt16) (beats : Nat → Int64) :
    Logged w (linkAudioOnTdmFrame p rx beats w) := by
  have hinit : Logged w w := ⟨[], (List.append_nil _).symm, fun _ h => absurd h List.not_mem_nil⟩
  refine frame_keeps ?_ (fun _ _ _ hs => hs) hinit
  intro _ j _ s hs
  exact capture_logged hs p rx beats j

/-- A buffer that a frame adds to the lane has gone to each of its endpoints. -/
theorem frame_buffer_logged {w : AudioWorld} {port ch : Nat} {rx : Nat → UInt16}
    {beats : Nat → Int64} {sb : SentBuffer}
    (hsent : (laneView port ch (linkAudioOnTdmFrame port rx beats w)).sent =
      (laneView port ch w).sent ++ [sb]) :
    ∀ e ∈ sb.endpoints, Datagram.unicast e.1 e.2 linkDiscoveryPort sb.buf ∈
      (linkAudioOnTdmFrame port rx beats w).core.sent := by
  obtain ⟨new, hnew, hall⟩ := frame_logged w port rx beats
  have hfilter : (laneView port ch w).sent ++ new.filter (·.channel = localIndex port ch) =
      (laneView port ch (linkAudioOnTdmFrame port rx beats w)).sent := by
    show List.filter _ _ ++ _ = List.filter _ _
    rw [← List.filter_append, ← hnew]
  rw [hsent] at hfilter
  have hlast := List.append_cancel_left hfilter
  have hin := hlast ▸ List.mem_singleton_self sb
  exact hall sb (List.mem_filter.mp hin).1

/-! ## Datagrams received -/

/-- A datagram leaves the lane alone, but for the subscribers of its local channel. -/
structure SameLane (ports port ch : Nat) (w w' : AudioWorld) : Prop where
  wired : Wired ports w'
  buf : (laneView port ch w').buf = (laneView port ch w).buf
  pos : (laneView port ch w').pos = (laneView port ch w).pos
  sent : (laneView port ch w').sent = (laneView port ch w).sent
  counter : ∀ c', (laneView port ch w').chan = some c' →
    ∃ c, (laneView port ch w).chan = some c ∧ c'.nextSendCount = c.nextSendCount

theorem SameLane.of_eq (h : Wired ports w) {w' : AudioWorld}
    (hcount : w'.numTdmPorts = w.numTdmPorts) (hlocal : w'.linkAudioLocal = w.linkAudioLocal)
    (hbuf : w'.sTxPktBuf = w.sTxPktBuf) (hpos : w'.sTxPktPos = w.sTxPktPos)
    (hsent : w'.sentBuffers = w.sentBuffers) : SameLane ports port ch w w' where
  wired := ⟨hcount.trans h.count, by rw [hlocal]; exact h.size, by rw [hlocal]; exact h.entry⟩
  buf := congrFun hbuf _
  pos := congrFun hpos _
  sent := by
    unfold laneView
    rw [hsent]
  counter := by
    intro c' hc'
    unfold laneView at hc' ⊢
    rw [hlocal] at hc'
    exact ⟨c', hc', rfl⟩

theorem rx_lane (h : Wired ports w) (buf : UInt32 → UInt8) (len srcAddr : UInt32)
    (srcPort : UInt16) :
    SameLane ports port ch w (linkAudioHandleRx buf len srcAddr srcPort w) := by
  rcases audio_rx_cases buf len srcAddr srcPort w with hbuffer | ⟨_, hcatalog | hreleases | hsubs⟩
  · rw [handle_rx_audio_buffer hbuffer]
    have hcases : (handleAudioBuffer (audioBody buf) (len - 20) w).1 = w ∨
        ∃ j sub, (handleAudioBuffer (audioBody buf) (len - 20) w).1 = w.setSub j sub := by
      unfold handleAudioBuffer
      split
      · exact .inl rfl
      · split
        · exact .inl rfl
        · split
          · exact .inl rfl
          · split
            · exact .inl rfl
            · exact .inr ⟨_, _, rfl⟩
    rcases hcases with hsame | ⟨j, sub, hset⟩
    · rw [hsame]
      exact .of_eq h rfl rfl rfl rfl rfl
    · rw [hset]
      exact .of_eq h rfl rfl rfl rfl rfl
  · obtain ⟨_, _, _, hsame⟩ := hcatalog
    rw [hsame]
    exact .of_eq h rfl rfl rfl rfl rfl
  · obtain ⟨_, _, hsame, _⟩ := hreleases
    rw [hsame]
    exact .of_eq h rfl rfl rfl rfl rfl
  · rcases hsubs with hsame | ⟨i, c, num, subs, hc, hset⟩
    · rw [hsame]
      exact .of_eq h rfl rfl rfl rfl rfl
    · rw [hset]
      refine ⟨h.setLocal hc rfl rfl rfl, rfl, rfl, rfl, ?_⟩
      intro c' hc'
      have hlt : i < w.linkAudioLocal.length := (List.getElem?_eq_some_iff.mp hc).1
      have hentry :
          (w.linkAudioLocal.set i
            { c with numSubscribers := num, subscribers := subs })[localIndex port ch]? =
            some c' := hc'
      by_cases hi : i = localIndex port ch
      · subst hi
        rw [List.getElem?_set_self hlt] at hentry
        obtain rfl := Option.some.inj hentry
        exact ⟨c, hc, rfl⟩
      · rw [List.getElem?_set_ne hi] at hentry
        exact ⟨c', hentry, rfl⟩

/-! ## Write positions -/

/-- Every write position is inside the packet buffer. -/
def PositionsInside (w : AudioWorld) : Prop := ∀ k, w.sTxPktPos k < audioFramesPerPkt

theorem send_positions (i : Nat) (samples : List UInt16) (beatsFirst : Int64) (w : AudioWorld) :
    (sendAudioBufferFor i samples beatsFirst w).sTxPktPos = w.sTxPktPos := by
  rcases send_self i samples beatsFirst w with ⟨hsame, _⟩ | ⟨c, _, _, hnew⟩
  · rw [hsame]
  · rw [hnew]
    rfl

theorem capture_positions (h : PositionsInside w) (p : Nat) (rx : Nat → UInt16)
    (beats : Nat → Int64) (ch : Nat) : PositionsInside (captureChannel p rx beats w ch) := by
  have hzero : (0 : UInt32) < audioFramesPerPkt := by decide
  have hupdate (pos : UInt32) (hpos : pos < audioFramesPerPkt) :
      ∀ k, Function.update w.sTxPktPos (p, ch) pos k < audioFramesPerPkt := by
    intro k
    rw [Function.update_apply]
    split
    · exact hpos
    · exact h k
  unfold captureChannel
  dsimp only
  split
  · split
    · intro k
      show Function.update (sendAudioBufferFor ..).sTxPktPos (p, ch) 0 k < _
      rw [send_positions]
      exact hupdate 0 hzero k
    · exact hupdate 0 hzero
  · rename_i hmore
    refine hupdate _ ?_
    have hlt := UInt32.lt_iff_toNat_lt.mp (h (p, ch))
    have hne : (w.sTxPktPos (p, ch) + 1).toNat ≠ 64 := fun heq =>
      hmore (UInt32.toNat_inj.mp heq)
    have hsize : audioFramesPerPkt.toNat = 64 := rfl
    rw [UInt32.toNat_add, UInt32.toNat_one] at hne
    rw [UInt32.lt_iff_toNat_lt, UInt32.toNat_add, UInt32.toNat_one]
    omega

theorem step_positions (hwired : Wired ports w) (h : PositionsInside w) (e : AudioEvent) :
    PositionsInside (audioStep w e) := by
  cases e with
  | other core => exact h
  | rx buf len srcAddr srcPort =>
      intro k
      have hpos : (linkAudioHandleRx buf len srcAddr srcPort w).sTxPktPos k = w.sTxPktPos k :=
        (rx_lane hwired buf len srcAddr srcPort).pos
      show (linkAudioHandleRx buf len srcAddr srcPort w).sTxPktPos k < _
      rw [hpos]
      exact h k
  | tdmFrame p rx beats =>
      show PositionsInside (linkAudioOnTdmFrame p rx beats w)
      refine frame_keeps ?_ (fun _ _ _ hs => hs) h
      intro _ j _ s hs
      exact capture_positions hs p rx beats j

/-! ## The stream of one channel -/

/-- The samples captured for a channel. -/
def captured (port ch : Nat) (es : List AudioEvent) : List UInt16 :=
  es.filterMap fun
    | .tdmFrame p rx _ => if p = port then some (rx ch) else none
    | _ => none

/-- A frame of the port captures one sample more. -/
theorem captured_frame (es : List AudioEvent) (rx : Nat → UInt16) (beats : Nat → Int64) :
    captured port ch (es ++ [.tdmFrame port rx beats]) = captured port ch es ++ [rx ch] := by
  simp [captured]

/-- The local channel has a subscriber when a frame of its port is served. -/
def Subscribed (port ch : Nat) (w : AudioWorld) (e : AudioEvent) : Prop :=
  ∀ rx beats, e = .tdmFrame port rx beats →
    ∀ c, w.linkAudioLocal[localIndex port ch]? = some c → c.numSubscribers ≠ 0

/-- A buffer was sent by one frame of the run, from the state the run had then: it carries that
node's identity and these samples, and went out to every subscriber. -/
def SentIn (start : AudioWorld) (es : List AudioEvent) (port ch : Nat) (block : List UInt16)
    (sb : SentBuffer) : Prop :=
  ∃ before rx beats after c, es = before ++ AudioEvent.tdmFrame port rx beats :: after ∧
    (runAudio start before).linkAudioLocal[localIndex port ch]? = some c ∧
    sb = (senderId (runAudio start before)).buffer (localIndex port ch) c (beats ch) block ∧
    ∀ e ∈ sb.endpoints, Datagram.unicast e.1 e.2 linkDiscoveryPort sb.buf ∈
      (runAudio start (before ++ [.tdmFrame port rx beats])).core.sent

theorem SentIn.mono {start : AudioWorld} {es : List AudioEvent} {block : List UInt16}
    {sb : SentBuffer} (h : SentIn start es port ch block sb) (e : AudioEvent) :
    SentIn start (es ++ [e]) port ch block sb := by
  obtain ⟨before, rx, beats, after, c, rfl, hrest⟩ := h
  exact ⟨before, rx, beats, after ++ [e], c, by simp, hrest⟩

/-- What a channel has sent after a run are the blocks of what it captured. -/
structure Stream (ports port ch : Nat) (start : AudioWorld) (es : List AudioEvent)
    (blocks : List (List UInt16)) (rest : List UInt16) : Prop where
  wired : Wired ports (runAudio start es)
  cut : Cut 64 (captured port ch es) blocks rest
  pos : (laneView port ch (runAudio start es)).pos = .ofNat rest.length
  stored : (laneView port ch (runAudio start es)).buf.toList.take rest.length = rest
  counter : ∀ c, (laneView port ch (runAudio start es)).chan = some c →
    c.nextSendCount = .ofNat blocks.length
  sent : List.Forall₂ (fun kb sb => SentIn start es port ch kb.1 sb ∧
      countField sb.buf = .ofNat kb.2 ∧ samplePayload sb.buf = kb.1.flatMap putBe16)
    blocks.zipIdx (laneView port ch (runAudio start es)).sent

/-- A sample stored at the write position. -/
theorem store_take {buf : Vector UInt16 audioFramesPerPkt.toNat} {rest : List UInt16}
    (hshort : rest.length < 64) (hstored : buf.toList.take rest.length = rest) (v : UInt16) :
    (buf.setIfInBounds rest.length v).toList.take (rest.length + 1) = rest ++ [v] := by
  have hlen : buf.toList.length = 64 := Vector.length_toList
  rw [Vector.toList_setIfInBounds, List.set_eq_take_append_cons_drop, if_pos (by omega), hstored]
  simp [List.take_append]

variable {start : AudioWorld} {es : List AudioEvent} {blocks : List (List UInt16)}
  {rest : List UInt16}

theorem run_audio_snoc (start : AudioWorld) (es : List AudioEvent) (e : AudioEvent) :
    runAudio start (es ++ [e]) = audioStep (runAudio start es) e := by
  rw [runAudio, Runs.run_append]
  rfl

/-- The buffers sent so far stay sent in a longer run. -/
theorem Stream.sent_mono (h : Stream ports port ch start es blocks rest) (e : AudioEvent) :
    List.Forall₂ (fun kb sb => SentIn start (es ++ [e]) port ch kb.1 sb ∧
      countField sb.buf = .ofNat kb.2 ∧ samplePayload sb.buf = kb.1.flatMap putBe16)
      blocks.zipIdx (laneView port ch (runAudio start es)).sent :=
  h.sent.imp fun _ _ ⟨hsent, hfields⟩ => ⟨hsent.mono e, hfields⟩

/-- An event that is not a frame of the port. -/
theorem Stream.silent (h : Stream ports port ch start es blocks rest) {e : AudioEvent}
    (hsame : SameLane ports port ch (runAudio start es) (audioStep (runAudio start es) e))
    (hcaptured : captured port ch (es ++ [e]) = captured port ch es) :
    Stream ports port ch start (es ++ [e]) blocks rest := by
  have hrun := run_audio_snoc start es e
  refine ⟨?_, ?_, ?_, ?_, ?_, ?_⟩
  · rw [hrun]
    exact hsame.wired
  · rw [hcaptured]
    exact h.cut
  · rw [hrun, hsame.pos]
    exact h.pos
  · rw [hrun, hsame.buf]
    exact h.stored
  · intro c' hc'
    rw [hrun] at hc'
    obtain ⟨c, hc, hcount⟩ := hsame.counter c' hc'
    rw [hcount]
    exact h.counter c hc
  · rw [hrun, hsame.sent]
    exact h.sent_mono e

/-- The write position, and when the packet buffer is full after the next sample. -/
theorem Stream.full_iff (h : Stream ports port ch start es blocks rest)
    (hshort : rest.length < 64) :
    (laneView port ch (runAudio start es)).pos.toNat = rest.length ∧
      ((laneView port ch (runAudio start es)).pos + 1 = audioFramesPerPkt ↔
        rest.length + 1 = 64) := by
  have hpos : (UInt32.ofNat rest.length).toNat = rest.length :=
    UInt32.toNat_ofNat_of_lt' (show rest.length < 2 ^ 32 by omega)
  rw [h.pos, ← UInt32.toNat_inj, UInt32.toNat_add, hpos, UInt32.toNat_one]
  refine ⟨rfl, ?_⟩
  show (rest.length + 1) % 2 ^ 32 = 64 ↔ _
  omega

/-- A frame of the port that does not fill the packet buffer. -/
theorem Stream.store (h : Stream ports port ch start es blocks rest) (hport : port < ports)
    (hch : ch < linkTdmChannelsPerPort) (rx : Nat → UInt16) (beats : Nat → Int64)
    (hroom : rest.length + 1 < 64) :
    Stream ports port ch start (es ++ [.tdmFrame port rx beats]) blocks (rest ++ [rx ch]) := by
  have hrun := run_audio_snoc start es (.tdmFrame port rx beats)
  have hlane := frame_lane h.wired hport hch port rx beats
  obtain ⟨hpos, hfull⟩ := h.full_iff (by omega)
  have hmore : ¬ (laneView port ch (runAudio start es)).pos + 1 = audioFramesPerPkt :=
    mt hfull.mp hroom.ne
  rw [if_pos rfl, LaneView.capture, if_neg hmore] at hlane
  have hview : laneView port ch (runAudio start (es ++ [.tdmFrame port rx beats])) = _ :=
    (congrArg (laneView port ch) hrun).trans hlane
  refine ⟨?_, ?_, ?_, ?_, ?_, ?_⟩
  · rw [hrun]
    exact frame_wired h.wired port rx beats
  · rw [captured_frame]
    exact h.cut.push hroom
  · rw [hview]
    show (laneView port ch (runAudio start es)).pos + 1 = _
    rw [h.pos, List.length_append, UInt32.ofNat_add]
    rfl
  · rw [hview, hpos, List.length_append]
    exact store_take (by omega) h.stored (rx ch)
  · intro c hc
    rw [hview] at hc
    exact h.counter c hc
  · rw [hview]
    exact h.sent_mono _

/-- A frame of the port that fills the packet buffer sends it. -/
theorem Stream.send (h : Stream ports port ch start es blocks rest) (hport : port < ports)
    (hch : ch < linkTdmChannelsPerPort) (rx : Nat → UInt16) (beats : Nat → Int64)
    (hsub : Subscribed port ch (runAudio start es) (.tdmFrame port rx beats))
    (hfull : rest.length + 1 = 64) :
    Stream ports port ch start (es ++ [.tdmFrame port rx beats])
      (blocks ++ [rest ++ [rx ch]]) [] := by
  have hrun := run_audio_snoc start es (.tdmFrame port rx beats)
  have hlane := frame_lane h.wired hport hch port rx beats
  obtain ⟨hpos, hiff⟩ := h.full_iff (by omega)
  have hlast : (laneView port ch (runAudio start es)).pos + 1 = audioFramesPerPkt :=
    hiff.mpr hfull
  have hlt : localIndex port ch < (runAudio start es).linkAudioLocal.length := by
    rw [h.wired.size]
    exact local_index_lt hport hch
  obtain ⟨c, hc⟩ : ∃ c, (laneView port ch (runAudio start es)).chan = some c :=
    ⟨_, List.getElem?_eq_getElem hlt⟩
  have hbuf : ((laneView port ch (runAudio start es)).buf.setIfInBounds
      (laneView port ch (runAudio start es)).pos.toNat (rx ch)).toList = rest ++ [rx ch] := by
    have htake := store_take (by omega) h.stored (rx ch)
    rw [hpos, ← htake, hfull]
    exact (List.take_of_length_le (Nat.le_of_eq Vector.length_toList)).symm
  rw [if_pos rfl, LaneView.capture, if_pos hlast, hc] at hlane
  dsimp only at hlane
  rw [if_neg (hsub rx beats rfl c hc), hbuf] at hlane
  have hview : laneView port ch (runAudio start (es ++ [.tdmFrame port rx beats])) = _ :=
    (congrArg (laneView port ch) hrun).trans hlane
  refine ⟨?_, ?_, ?_, ?_, ?_, ?_⟩
  · rw [hrun]
    exact frame_wired h.wired port rx beats
  · rw [captured_frame]
    exact h.cut.fill hfull
  · rw [hview]
    rfl
  · exact List.take_zero
  · intro c' hc'
    rw [hview] at hc'
    obtain rfl := Option.some.inj hc'
    show c.nextSendCount + 1 = _
    rw [h.counter c hc, List.length_append, UInt64.ofNat_add]
    rfl
  · have hsent := congrArg LaneView.sent hview
    dsimp only at hsent
    have hadded := (congrArg LaneView.sent (congrArg (laneView port ch) hrun)).symm.trans hsent
    have hlogged := frame_buffer_logged hadded
    rw [hsent, List.zipIdx_append]
    refine List.rel_append (h.sent_mono _) (.cons ⟨?_, ?_, ?_⟩ .nil)
    · refine ⟨es, rx, beats, [], c, rfl, hc, rfl, ?_⟩
      rw [hrun]
      exact hlogged
    · rw [SenderId.buffer, count_field_encode, h.counter c hc, Nat.zero_add]
    · exact sample_payload_encode ..

/-- Every guarded run is a stream. -/
theorem stream_of_run (hwired : Wired ports start) (hport : port < ports)
    (hch : ch < linkTdmChannelsPerPort) (hpos : start.sTxPktPos (port, ch) = 0)
    (hcount : ∀ c, start.linkAudioLocal[localIndex port ch]? = some c → c.nextSendCount = 0)
    (hempty : start.sentBuffers = []) (es : List AudioEvent)
    (hrun : Runs.Guarded audioStep (Subscribed port ch) start es) :
    ∃ blocks rest, Stream ports port ch start es blocks rest := by
  induction es using List.reverseRecOn with
  | nil =>
      refine ⟨[], [], hwired, cut_nil (by decide), hpos, List.take_zero, hcount, ?_⟩
      have hnone : (laneView port ch start).sent = [] := by
        unfold laneView
        rw [hempty]
        rfl
      show List.Forall₂ _ [] (laneView port ch start).sent
      rw [hnone]
      exact .nil
  | append_singleton es e ih =>
      obtain ⟨hbefore, hguard⟩ := (Runs.guarded_append start es [e]).mp hrun
      obtain ⟨blocks, rest, h⟩ := ih hbefore
      cases e with
      | other core =>
          refine ⟨blocks, rest, h.silent (.of_eq h.wired rfl rfl rfl rfl rfl) ?_⟩
          simp [captured]
      | rx buf len srcAddr srcPort =>
          refine ⟨blocks, rest, h.silent (rx_lane h.wired ..) ?_⟩
          simp [captured]
      | tdmFrame p rx beats =>
          by_cases hp : p = port
          · subst hp
            have hshort := h.cut.short
            by_cases hfull : rest.length + 1 = 64
            · exact ⟨_, _, h.send hport hch rx beats hguard.1 hfull⟩
            · exact ⟨_, _, h.store hport hch rx beats (by omega)⟩
          · have hlane := frame_lane h.wired hport hch p rx beats
            rw [if_neg hp] at hlane
            refine ⟨blocks, rest, h.silent ⟨frame_wired h.wired p rx beats, ?_, ?_, ?_, ?_⟩ ?_⟩
            · exact congrArg LaneView.buf hlane
            · exact congrArg LaneView.pos hlane
            · exact congrArg LaneView.sent hlane
            · intro c' hc'
              exact ⟨c', (congrArg LaneView.chan hlane).symm.trans hc', rfl⟩
            · simp [captured, hp]

/-! ## The state after boot -/

/-- What `link_audio_init` fixes of an entry. -/
def AudioLocal.wiring (c : AudioLocal) : Bool × Int × Int × UInt64 :=
  (c.inUse, c.tdmPort, c.tdmChannel, c.nextSendCount)

/-- The wiring of an entry that `link_audio_init` has written. -/
def initWiring (i : Nat) : Bool × Int × Int × UInt64 :=
  (true, (i / linkTdmChannelsPerPort : Nat), (i % linkTdmChannelsPerPort : Nat), 0)

/-- One iteration of the loop of `link_audio_init`. -/
def initLocal (w : AudioWorld) (idx : Nat) : AudioWorld :=
  (w.setLocal idx
    (localEntry w (idx / linkTdmChannelsPerPort) (idx % linkTdmChannelsPerPort))).advance

/-- The entry at an index, through a function of the entries. -/
def localView {α : Type*} (f : AudioLocal → α) (i : Nat) (w : AudioWorld) : Option α :=
  (w.linkAudioLocal[i]?).map f

theorem audio_boot_length (core : World) (ports : Nat) :
    (audioBoot core ports).linkAudioLocal.length = ports * linkTdmChannelsPerPort := by
  have hinv : ∀ j ∈ List.range (ports * linkTdmChannelsPerPort), ∀ s : AudioWorld,
      s.linkAudioLocal.length = ports * linkTdmChannelsPerPort →
        (initLocal s j).linkAudioLocal.length = ports * linkTdmChannelsPerPort :=
    fun _ _ _ hs => List.length_set.trans hs
  have hinit : (audioPowerOn core ports).linkAudioLocal.length =
      ports * linkTdmChannelsPerPort := List.length_replicate
  exact Sweep.inv_sweep hinv hinit

/-- What `link_audio_init` writes into the table, through a function of the entries that does not
depend on the clock. -/
theorem audio_boot_map {α : Type*} {f : AudioLocal → α} {g : Nat → α}
    (hentry : ∀ w idx,
      f (localEntry w (idx / linkTdmChannelsPerPort) (idx % linkTdmChannelsPerPort)) = g idx)
    (core : World) (ports : Nat) :
    (audioBoot core ports).linkAudioLocal.map f =
      (List.range (ports * linkTdmChannelsPerPort)).map g := by
  have hsize := audio_boot_length core ports
  refine List.ext_getElem? fun i => ?_
  rw [List.getElem?_map, List.getElem?_map]
  by_cases hi : i < ports * linkTdmChannelsPerPort
  · have htrue : ∀ j ∈ List.range (ports * linkTdmChannelsPerPort), ∀ s : AudioWorld,
        True → True := fun _ _ _ h => h
    have hother : ∀ j ∈ List.range (ports * linkTdmChannelsPerPort), ∀ s : AudioWorld, True →
        j ≠ i → localView f i (initLocal s j) = localView f i s :=
      fun _ _ _ _ hji => congrArg (Option.map f) (List.getElem?_set_ne hji)
    have hself : ∀ s : AudioWorld, True →
        localView f i (initLocal s i) = (localView f i s).map fun _ => g i := by
      intro s _
      show ((s.linkAudioLocal.set i _)[i]?).map f = ((s.linkAudioLocal[i]?).map f).map _
      rw [List.getElem?_set_self']
      cases s.linkAudioLocal[i]? with
      | none => rfl
      | some c => exact congrArg some (hentry s i)
    have hview : localView f i ((List.range (ports * linkTdmChannelsPerPort)).foldl initLocal
        (audioPowerOn core ports)) =
        (localView f i (audioPowerOn core ports)).map fun _ => g i :=
      Sweep.view_sweep htrue hother hself List.nodup_range (List.mem_range.mpr hi) trivial
    have hzero : (audioPowerOn core ports).linkAudioLocal[i]? = some .zero := by
      show (List.replicate (ports * linkTdmChannelsPerPort) AudioLocal.zero)[i]? = _
      rw [List.getElem?_replicate, if_pos hi]
    rw [localView, localView, hzero] at hview
    rw [List.getElem?_range hi]
    exact hview
  · have hout : (audioBoot core ports).linkAudioLocal[i]? = none :=
      List.getElem?_eq_none_iff.mpr (hsize.symm ▸ Nat.le_of_not_lt hi)
    have hrange : (List.range (ports * linkTdmChannelsPerPort))[i]? = none :=
      List.getElem?_eq_none_iff.mpr (List.length_range.symm ▸ Nat.le_of_not_lt hi)
    rw [hout, hrange]
    rfl

/-- The state after boot. -/
structure Booted (ports : Nat) (w : AudioWorld) : Prop where
  wired : Wired ports w
  pos : ∀ k, w.sTxPktPos k = 0
  counter : ∀ (i : Nat) (c : AudioLocal), w.linkAudioLocal[i]? = some c → c.nextSendCount = 0
  sent : w.sentBuffers = []

theorem audio_boot_booted (core : World) (ports : Nat) : Booted ports (audioBoot core ports) := by
  have hmap := audio_boot_map (f := AudioLocal.wiring) (g := initWiring) (fun _ _ => rfl) core ports
  have hsize := audio_boot_length core ports
  have hwiring (i : Nat) (c : AudioLocal)
      (hc : (audioBoot core ports).linkAudioLocal[i]? = some c) : c.wiring = initWiring i := by
    have hi : i < ports * linkTdmChannelsPerPort := by
      rw [← hsize]
      exact (List.getElem?_eq_some_iff.mp hc).1
    have hentry := congrArg (fun l => l[i]?) hmap
    rw [List.getElem?_map, hc, List.getElem?_map, List.getElem?_range hi] at hentry
    exact Option.some.inj hentry
  have hinv : ∀ j ∈ List.range (ports * linkTdmChannelsPerPort), ∀ s : AudioWorld,
      s.numTdmPorts = ports ∧ (∀ k, s.sTxPktPos k = 0) ∧ s.sentBuffers = [] →
        (initLocal s j).numTdmPorts = ports ∧ (∀ k, (initLocal s j).sTxPktPos k = 0) ∧
          (initLocal s j).sentBuffers = [] := fun _ _ _ hs => hs
  have hinit : (audioPowerOn core ports).numTdmPorts = ports ∧
      (∀ k, (audioPowerOn core ports).sTxPktPos k = 0) ∧
      (audioPowerOn core ports).sentBuffers = [] := ⟨rfl, fun _ => rfl, rfl⟩
  obtain ⟨hports, hpos, hsent⟩ := Sweep.inv_sweep hinv hinit
  refine ⟨⟨hports, hsize, ?_⟩, hpos, ?_, hsent⟩
  · intro i c hc
    have h := hwiring i c hc
    exact ⟨congrArg (·.1) h, congrArg (·.2.1) h, congrArg (·.2.2.1) h⟩
  · intro i c hc
    exact congrArg (·.2.2.2) (hwiring i c hc)

/-! ## End to end -/

/-- The buffers a channel has sent. -/
def sentBy (port ch : Nat) (w : AudioWorld) : List SentBuffer :=
  w.sentBuffers.filter (·.channel = localIndex port ch)

/-- Another node of the sender's session that has subscribed to a channel, as it receives a
datagram: it appends these samples to the ring of the subscription, which drops its oldest samples
if it overflows, and changes nothing else. -/
def Appends (sender : World) (cid : LinkId) (buf : List UInt8) (samples : List UInt16) : Prop :=
  ∀ (v : AudioWorld) (j : Nat) (sub : AudioSub) (srcAddr : UInt32) (srcPort : UInt16),
    sender.linkSelfId ≠ v.core.linkSelfId → sender.linkSelfSession = v.core.linkSelfSession →
    findSubForChannel v cid = some j → v.linkAudioSubs[j]? = some sub →
    linkAudioHandleRx (memOf buf) (.ofNat buf.length) srcAddr srcPort v =
        v.setSub j (sub.deliver 1 samples) ∧
      (sub.ring.count ≤ 1024 → (sub.deliver 1 samples).ring.queue =
        (sub.ring.queue ++ samples).drop ((sub.ring.queue ++ samples).length - 1024))

/-- What a channel has sent after a run from boot. -/
structure StreamIntact (core : World) (ports : Nat) (es : List AudioEvent) (port ch : Nat) :
    Prop where
  /-- The sample bytes are those of the first `64 * (N / 64)` captured samples. -/
  payload : (sentBy port ch (runAudio (audioBoot core ports) es)).flatMap
      (fun sb => samplePayload sb.buf) =
    ((captured port ch es).take (64 * ((captured port ch es).length / 64))).flatMap putBe16
  /-- The buffers are numbered from 0. -/
  counts : (sentBy port ch (runAudio (audioBoot core ports) es)).map
      (fun sb => countField sb.buf) =
    (List.range ((captured port ch es).length / 64)).map UInt64.ofNat
  /-- The datagrams are short enough. -/
  size : ∀ sb ∈ sentBy port ch (runAudio (audioBoot core ports) es),
    sb.buf.length ≤ linkMaxMsgAudio
  /-- Buffer `k` went to every subscriber the channel had, of which there was one, and is received
  as the samples from `64 * k` on. -/
  received : ∀ (k : Nat) (sb : SentBuffer),
    (sentBy port ch (runAudio (audioBoot core ports) es))[k]? = some sb →
    ∃ before rx beats after c, es = before ++ AudioEvent.tdmFrame port rx beats :: after ∧
      let sender := runAudio (audioBoot core ports) before
      sender.linkAudioLocal[localIndex port ch]? = some c ∧ sb.endpoints = c.endpoints ∧
      (∀ e ∈ c.endpoints, Datagram.unicast e.1 e.2 linkDiscoveryPort sb.buf ∈
        (audioStep sender (.tdmFrame port rx beats)).core.sent) ∧
      Appends sender.core c.channelId sb.buf (((captured port ch es).drop (64 * k)).take 64)

/-- The bytes of the blocks are those of the stream. -/
theorem flatten_map_bytes (blocks : List (List UInt16)) :
    (blocks.map (·.flatMap putBe16)).flatten = blocks.flatten.flatMap putBe16 := by
  induction blocks with
  | nil => rfl
  | cons b blocks ih =>
      rw [List.map_cons, List.flatten_cons, List.flatten_cons, List.flatMap_append, ih]

/-- What is computed from the buffers sent is computed from the blocks. -/
theorem map_eq_of_forall₂ {α β γ : Type*} {f : β → γ} {g : α → γ} {as : List α} {bs : List β}
    (h : List.Forall₂ (fun a b => f b = g a) as bs) : bs.map f = as.map g := by
  induction h with
  | nil => rfl
  | cons hab _ ih => rw [List.map_cons, List.map_cons, hab, ih]

/-- A buffer sent, and its block. -/
theorem Stream.buffer (h : Stream ports port ch start es blocks rest) {k : Nat} {sb : SentBuffer}
    (hk : (sentBy port ch (runAudio start es))[k]? = some sb) :
    ∃ b, blocks[k]? = some b ∧ SentIn start es port ch b sb := by
  obtain ⟨hlt, hsb⟩ := List.getElem?_eq_some_iff.mp hk
  have hsent : List.Forall₂ _ blocks.zipIdx (sentBy port ch (runAudio start es)) := h.sent
  have hlt' : k < blocks.zipIdx.length := by
    rw [hsent.length_eq]
    exact hlt
  have hpair := hsent.get hlt' hlt
  refine ⟨(blocks.zipIdx[k]).1, ?_, ?_⟩
  · rw [List.getElem_zipIdx]
    exact List.getElem?_eq_getElem (by simpa using hlt')
  · have hthis : (sentBy port ch (runAudio start es)).get ⟨k, hlt⟩ = sb := hsb
    rw [hthis] at hpair
    exact hpair.1

/-- The write positions stay inside in every run. -/
theorem run_positions (hwired : Wired ports start) (hinside : PositionsInside start)
    (es : List AudioEvent) : PositionsInside (runAudio start es) := by
  have hstep : ∀ s e, Wired ports s ∧ PositionsInside s →
      Wired ports (audioStep s e) ∧ PositionsInside (audioStep s e) := by
    intro s e ⟨hs, hpos⟩
    refine ⟨?_, step_positions hs hpos e⟩
    cases e with
    | other core => exact ⟨hs.count, hs.size, hs.entry⟩
    | rx buf len srcAddr srcPort =>
        have hlane : SameLane ports 0 0 s (linkAudioHandleRx buf len srcAddr srcPort s) :=
          rx_lane hs buf len srcAddr srcPort
        exact hlane.wired
    | tdmFrame p rx beats => exact frame_wired hs p rx beats
  exact (Runs.run_invariant hstep ⟨hwired, hinside⟩ es).2

/-- What another node makes of a buffer of this run. -/
theorem SentIn.appends {block : List UInt16} {sb : SentBuffer}
    (h : SentIn start es port ch block sb) (hblock : block.length = 64) :
    ∃ before rx beats after c, es = before ++ AudioEvent.tdmFrame port rx beats :: after ∧
      (runAudio start before).linkAudioLocal[localIndex port ch]? = some c ∧
      sb.endpoints = c.endpoints ∧
      (∀ e ∈ c.endpoints, Datagram.unicast e.1 e.2 linkDiscoveryPort sb.buf ∈
        (audioStep (runAudio start before) (.tdmFrame port rx beats)).core.sent) ∧
      Appends (runAudio start before).core c.channelId sb.buf block := by
  obtain ⟨before, rx, beats, after, c, hes, hc, rfl, hnet⟩ := h
  rw [run_audio_snoc] at hnet
  refine ⟨before, rx, beats, after, c, hes, hc, rfl, hnet, ?_⟩
  intro v j sub srcAddr srcPort hid hsession hfind hsub
  refine ⟨handle_rx_encoded hblock hid hsession hfind hsub srcAddr srcPort, fun hcount => ?_⟩
  rw [(ring_deliver sub 1 block hcount).2]
  exact RingQueue.foldl_enqueue (by decide) (by rw [sub.ring.queue_length]; exact hcount) block

/-- Audio streams are intact end to end: write positions stay inside the packet buffers, and for a
local channel that has a subscriber whenever a frame of its port is served, the AudioBuffers sent
are the captured samples in blocks of 64, numbered consecutively, and each is received as its block
by a subscriber. -/
theorem audio_stream_integrity (core : World) (ports : Nat) (es : List AudioEvent) (port ch : Nat)
    (hport : port < ports) (hch : ch < linkTdmChannelsPerPort) :
    (∀ k, (runAudio (audioBoot core ports) es).sTxPktPos k < audioFramesPerPkt) ∧
      (Runs.Guarded audioStep (Subscribed port ch) (audioBoot core ports) es →
        StreamIntact core ports es port ch) := by
  have hboot := audio_boot_booted core ports
  constructor
  · refine run_positions hboot.wired ?_ es
    intro k
    rw [hboot.pos]
    decide
  · intro hrun
    obtain ⟨blocks, rest, h⟩ := stream_of_run hboot.wired hport hch (hboot.pos _)
      (hboot.counter _) hboot.sent es hrun
    have hsent : List.Forall₂ _ blocks.zipIdx
        (sentBy port ch (runAudio (audioBoot core ports) es)) := h.sent
    have hpayload := map_eq_of_forall₂ (f := fun sb : SentBuffer => samplePayload sb.buf)
      (g := fun kb : List UInt16 × Nat => kb.1.flatMap putBe16) (hsent.imp fun _ _ h => h.2.2)
    have hcounts := map_eq_of_forall₂ (f := fun sb : SentBuffer => countField sb.buf)
      (g := fun kb : List UInt16 × Nat => UInt64.ofNat kb.2) (hsent.imp fun _ _ h => h.2.1)
    have hblock {k : Nat} {b : List UInt16} (hb : blocks[k]? = some b) : b.length = 64 :=
      h.cut.full b (List.mem_of_getElem? hb)
    refine ⟨?_, ?_, ?_, ?_⟩
    · have hfst : blocks.zipIdx.map (fun kb => kb.1.flatMap putBe16) =
          (blocks.zipIdx.map Prod.fst).map (·.flatMap putBe16) := by
        rw [List.map_map]
        rfl
      rw [List.flatMap_def, hpayload, hfst, List.zipIdx_map_fst, ← h.cut.flatten_eq]
      exact flatten_map_bytes blocks
    · have hsnd : blocks.zipIdx.map (fun kb => UInt64.ofNat kb.2) =
          (blocks.zipIdx.map Prod.snd).map UInt64.ofNat := by
        rw [List.map_map]
        rfl
      rw [hcounts, hsnd, List.zipIdx_map_snd, ← h.cut.blocks_length, List.range_eq_range']
    · intro sb hsb
      obtain ⟨k, hk⟩ := List.getElem?_of_mem hsb
      obtain ⟨b, hb, before, rx, beats, after, c, _, _, rfl, _⟩ := h.buffer hk
      show (encodeAudioBuffer ..).length ≤ 1200
      rw [encode_length, hblock hb]
      decide
    · intro k sb hk
      obtain ⟨b, hb, hsb⟩ := h.buffer hk
      rw [← h.cut.block_eq hb]
      exact hsb.appends (hblock hb)

/-- A ChannelRequest of another node for the first local channel, as it is after a boot at time
0. -/
def firstRequest : List UInt8 :=
  encodeAudioHeader ⟨List.replicate 8 1, rfl⟩ 4 5 ++ tlvEmitBytes keyChid (randomId 0).bytes

/-- The node whose channel is asked for. -/
def firstNode : World := powerOn (fun _ => 0) 0 []

/-- The frames served afterwards, each with the next number as its samples. -/
def countingFrames : List AudioEvent :=
  (List.range 70).map fun n => .tdmFrame 0 (fun _ => .ofNat n) fun _ => 0

def requestedEvents : List AudioEvent :=
  .rx (memOf firstRequest) (.ofNat firstRequest.length) 1 20808 :: countingFrames

/-- The channel has a subscriber at each of the frames. -/
theorem first_request_subscribes {w : AudioWorld}
    (hw : w = linkAudioHandleRx (memOf firstRequest) (.ofNat firstRequest.length) 1 20808
      (audioBoot firstNode 1)) : Runs.Guarded audioStep (Subscribed 0 0) w countingFrames := by
  have hasked : Runs.Guarded audioStep
      (fun w _ => ∀ c ∈ w.linkAudioLocal[0]?, c.numSubscribers ≠ 0) w countingFrames := by
    rw [hw]
    decide +kernel
  exact hasked.mono fun _ _ hguard _ _ _ c hc => hguard c hc

/-- The first 64 of the 70 samples are sent, as one buffer. -/
theorem audio_stream_integrity_requested :
    let sent := sentBy 0 0 (runAudio (audioBoot firstNode 1) requestedEvents)
    (∀ k, (runAudio (audioBoot firstNode 1) requestedEvents).sTxPktPos k < audioFramesPerPkt) ∧
      StreamIntact firstNode 1 requestedEvents 0 0 ∧
      sent.flatMap (fun sb => samplePayload sb.buf) =
        ((List.range 64).map UInt16.ofNat).flatMap putBe16 ∧
      sent.map (fun sb => countField sb.buf) = [0] := by
  intro sent
  obtain ⟨hpos, hstream⟩ := audio_stream_integrity firstNode 1 requestedEvents 0 0 (by decide)
    (by decide)
  have hrequest : Subscribed 0 0 (audioBoot firstNode 1)
      (.rx (memOf firstRequest) (.ofNat firstRequest.length) 1 20808) := by
    intro rx beats heq
    cases heq
  have hintact := hstream ⟨hrequest, first_request_subscribes rfl⟩
  have hcaptured : captured 0 0 requestedEvents = (List.range 70).map UInt16.ofNat := by
    decide +kernel
  refine ⟨hpos, hintact, ?_, ?_⟩
  · refine hintact.payload.trans ?_
    rw [hcaptured]
    decide +kernel
  · refine hintact.counts.trans ?_
    rw [hcaptured]
    decide +kernel

end LinkFPGA
