import LinkFPGA.Library.Network
import LinkFPGA.Proofs.AudioCalls
import LinkFPGA.Proofs.AudioStream

/-!
# Audio from one node to another

Nodes capture, send, receive and play on a network that may lose, repeat, delay and reorder their
AudioBuffers. `Lane` follows what a channel has sent through any run, whether it has subscribers
or not: whole blocks of 64 consecutive samples. `audio_reaches_player` says what a subscription to
the channel plays on another node, and when nothing is missing from it.
-/

namespace LinkFPGA

open Runs LatestWins Network Blocks RingQueue

/-! ## Receiving an encoded buffer -/

/-- Memories that agree on the first bytes agree wherever these are read. -/
theorem bytes_at_congr {mem mem' : UInt32 → UInt8} {size : Nat}
    (h : bytesAt mem 0 size = bytesAt mem' 0 size) {off n : Nat} (hin : off + n ≤ size) :
    bytesAt mem (.ofNat off) n = bytesAt mem' (.ofNat off) n := by
  have hslice (m : UInt32 → UInt8) :
      bytesAt m (.ofNat off) n = ((bytesAt m 0 size).drop off).take n := by
    rw [bytes_at_drop, bytes_at_take _ _ (by omega), UInt32.zero_add]
  rw [hslice, hslice, h]

/-- The bytes of a datagram in memory. -/
def HoldsDatagram (mem : UInt32 → UInt8) (bytes : List UInt8) : Prop :=
  bytesAt mem 0 bytes.length = bytes

section Encoded

variable {selfId session : LinkId} {bp : Int64} {c : AudioLocal} {beatsFirst : Int64}
  {samples : List UInt16}

/-- A memory that holds an encoded buffer reads like it. -/
theorem holds_reads (hsamples : samples.length = 64) {mem : UInt32 → UInt8}
    (h : HoldsDatagram mem (encodeAudioBuffer selfId session bp c beatsFirst samples)) {off n : Nat}
    (hin : off + n ≤ 202) :
    bytesAt mem (.ofNat off) n =
      bytesAt (memOf (encodeAudioBuffer selfId session bp c beatsFirst samples)) (.ofNat off)
        n := by
  have hlen : (encodeAudioBuffer selfId session bp c beatsFirst samples).length = 202 := by
    rw [encode_length, hsamples]
  have hself : bytesAt (memOf (encodeAudioBuffer selfId session bp c beatsFirst samples)) 0 202 =
      encodeAudioBuffer selfId session bp c beatsFirst samples := by
    refine (bytes_at_mem_of (by rw [hlen]; decide) (by rw [hlen])).trans ?_
    rw [List.drop_zero, List.take_of_length_le (Nat.le_of_eq hlen)]
  unfold HoldsDatagram at h
  rw [hlen] at h
  exact bytes_at_congr (h.trans hself.symm) hin

/-- The body of such a memory reads back what was encoded. -/
theorem holds_reads_back (hsamples : samples.length = 64) {mem : UInt32 → UInt8}
    (h : HoldsDatagram mem (encodeAudioBuffer selfId session bp c beatsFirst samples)) :
    ReadsBack session c samples (audioBody mem) := by
  have hback := encode_reads_back selfId session bp c beatsFirst samples hsamples
  set bytes := encodeAudioBuffer selfId session bp c beatsFirst samples
  have hbody (off n : Nat) (hin : 20 + off + n ≤ 202) :
      bytesAt (audioBody mem) (.ofNat off) n =
        bytesAt (audioBody (memOf bytes)) (.ofNat off) n := by
    rw [body_bytes, body_bytes]
    exact holds_reads hsamples h hin
  have hbyte (off : Nat) (hin : 20 + off + 1 ≤ 202) :
      audioBody mem (.ofNat off) = audioBody (memOf bytes) (.ofNat off) := by
    have hone := hbody off 1 hin
    simpa [bytesAt] using hone
  refine ⟨?_, ?_, ?_, ?_, ?_, ?_, ?_, ?_⟩
  · exact (congrArg LinkId.ofBytes (hbody 0 8 (by decide))).trans hback.channel
  · exact (congrArg LinkId.ofBytes (hbody 8 8 (by decide))).trans hback.session
  · exact (congrArg be32 (hbody 16 4 (by decide))).trans hback.count
  · exact (congrArg be16 (hbody 28 2 (by decide))).trans hback.frames
  · exact (hbyte 46 (by decide)).trans hback.codec
  · exact (hbyte 51 (by decide)).trans hback.numChan
  · exact (congrArg be16 (hbody 52 2 (by decide))).trans hback.numBytes
  · refine Eq.trans ?_ hback.samples
    refine List.map_congr_left fun f hf => ?_
    have hf' := List.mem_range.mp hf
    rw [← be16_at, ← be16_at, hbody (54 + 2 * (f * 1)) 2 (by omega)]

/-- What is accepted of an encoded buffer are its samples, for its channel. -/
theorem accepted_encoded (hsamples : samples.length = 64) {buf : UInt32 → UInt8}
    (h : HoldsDatagram buf (encodeAudioBuffer selfId session bp c beatsFirst samples))
    {len : UInt32}
    (hlen : len = .ofNat (encodeAudioBuffer selfId session bp c beatsFirst samples).length)
    {cid : LinkId} {v : AudioWorld} {taken : List UInt16}
    (haccepted : acceptedSamples cid v buf len = some taken) :
    taken = samples ∧ c.channelId = cid := by
  have hback := holds_reads_back hsamples h
  have hn : (len - 20).toNat = 182 := by
    rw [hlen, encode_length, hsamples]
    rfl
  unfold acceptedSamples at haccepted
  dsimp only at haccepted
  split at haccepted
  · rename_i hmatch
    exact ⟨(Option.some.inj haccepted).symm.trans (hback.accepted hn).2,
      hback.channel.symm.trans hmatch.2.2.2⟩
  · cases haccepted

end Encoded

/-! ## The other calls -/

/-- The announcements and the subscription API leave the channels and what is captured alone. -/
theorem aside_frame (w : AudioWorld) {call : AudioCall} (h : ∀ e, call ≠ .event e) :
    ∃ core subs last, callAudio w call =
      { w with core := core, linkAudioSubs := subs, sLastAnnounceUs := last } := by
  cases call with
  | event e => exact absurd rfl (h e)
  | tick peerName =>
      have hone : ∀ i ∈ List.range linkAudioMaxRemote, ∀ s : AudioWorld,
          (∃ core subs last, s =
            { w with core := core, linkAudioSubs := subs, sLastAnnounceUs := last }) →
          ∃ core subs last, requestAgain w.core.clock.now s i =
            { w with core := core, linkAudioSubs := subs, sLastAnnounceUs := last } := by
        rintro i _ s ⟨core, subs, last, rfl⟩
        obtain ⟨subs', sent, hrequest, -⟩ := request_sends w.core.clock.now
          { w with core := core, linkAudioSubs := subs, sLastAnnounceUs := last } i
        rw [hrequest]
        exact ⟨_, _, _, rfl⟩
      show ∃ core subs last, linkAudioTick peerName w = _
      unfold linkAudioTick
      refine Sweep.inv_sweep hone ?_
      split
      · obtain ⟨_, _, _, hw⟩ := (announce_sends peerName w.advance).1
        rw [hw]
        exact ⟨_, _, _, rfl⟩
      · exact ⟨_, _, _, rfl⟩
  | subscribe tdmPort channel cid =>
      show ∃ core subs last, (linkAudioSubscribe tdmPort channel cid w).1 = _
      unfold linkAudioSubscribe
      split
      · exact ⟨_, _, _, rfl⟩
      · dsimp only
        split
        · exact ⟨_, _, _, rfl⟩
        · exact ⟨_, _, _, rfl⟩
  | unsubscribe cid =>
      show ∃ core subs last, (linkAudioUnsubscribe cid w).1 = _
      unfold linkAudioUnsubscribe
      split
      · exact ⟨_, _, _, rfl⟩
      · exact ⟨_, _, _, rfl⟩

/-- The state after the calls. -/
abbrev runCalls (w : AudioWorld) (cs : List AudioCall) : AudioWorld := run callAudio w cs

theorem run_calls_snoc (start : AudioWorld) (cs : List AudioCall) (call : AudioCall) :
    runCalls start (cs ++ [call]) = callAudio (runCalls start cs) call := by
  rw [runCalls, run_append]
  rfl

/-- The handler calls among the calls. -/
def eventsOf (cs : List AudioCall) : List AudioEvent :=
  cs.filterMap fun
    | .event e => some e
    | _ => none

/-- The samples captured for a channel in a run of calls. -/
def capturedIn (port ch : Nat) (cs : List AudioCall) : List UInt16 :=
  captured port ch (eventsOf cs)

theorem captured_in_event (port ch : Nat) (cs : List AudioCall) (e : AudioEvent) :
    capturedIn port ch (cs ++ [.event e]) = captured port ch (eventsOf cs ++ [e]) := by
  simp [capturedIn, eventsOf]

theorem captured_in_aside (port ch : Nat) (cs : List AudioCall) {call : AudioCall}
    (h : ∀ e, call ≠ .event e) : capturedIn port ch (cs ++ [call]) = capturedIn port ch cs := by
  cases call with
  | event e => exact absurd rfl (h e)
  | tick | subscribe | unsubscribe => simp [capturedIn, eventsOf]

/-! ## What a channel sends -/

/-- The ids of the local channels. -/
def localIds (w : AudioWorld) : List LinkId := w.linkAudioLocal.map AudioLocal.channelId

/-- No call changes the id of a channel. -/
theorem run_local_ids (start : AudioWorld) (cs : List AudioCall) :
    localIds (runCalls start cs) = localIds start := by
  have hids (w : AudioWorld) : localIds w = (identities w).map fun i => i.2.1 := by
    unfold localIds identities
    rw [List.map_map]
    rfl
  rw [hids, hids, run_identities]

/-- The buffer carries the samples as the channel's. -/
def CarriesBlock (cid : LinkId) (block : List UInt16) (buf : List UInt8) : Prop :=
  ∃ selfId session bp c beatsFirst,
    buf = encodeAudioBuffer selfId session bp c beatsFirst block ∧ c.channelId = cid

/-- What a channel has captured and sent after a run: the samples are cut into blocks of 64, the
packet buffer holds the rest, and every buffer sent carries one of the blocks. -/
structure Lane (ports port ch : Nat) (cid : LinkId) (start : AudioWorld) (cs : List AudioCall)
    (blocks : List (List UInt16)) (rest : List UInt16) : Prop where
  wired : Wired ports (runCalls start cs)
  channel : (localIds (runCalls start cs))[localIndex port ch]? = some cid
  cut : Cut 64 (capturedIn port ch cs) blocks rest
  pos : (laneView port ch (runCalls start cs)).pos = .ofNat rest.length
  stored : (laneView port ch (runCalls start cs)).buf.toList.take rest.length = rest
  sent : ∀ sb ∈ (laneView port ch (runCalls start cs)).sent,
    ∃ block ∈ blocks, CarriesBlock cid block sb.buf

/-- A sample that fills the packet buffer empties it; the channel sends the samples if it has a
subscriber. -/
theorem capture_full {v : LaneView} (hfull : v.pos + 1 = audioFramesPerPkt) (s : SenderId) (i : Nat)
    (sample : UInt16) (beatsFirst : Int64) :
    (v.capture s i sample beatsFirst).pos = 0 ∧
      ((v.capture s i sample beatsFirst).sent = v.sent ∨
        ∃ c, v.chan = some c ∧ (v.capture s i sample beatsFirst).sent =
          v.sent ++ [s.buffer i c beatsFirst (v.buf.setIfInBounds v.pos.toNat sample).toList]) := by
  unfold LaneView.capture
  dsimp only
  rw [if_pos hfull]
  split
  · exact ⟨rfl, .inl rfl⟩
  · rename_i c hc
    split
    · exact ⟨rfl, .inl rfl⟩
    · exact ⟨rfl, .inr ⟨c, hc, rfl⟩⟩

namespace Lane

variable {ports port ch : Nat} {cid : LinkId} {start : AudioWorld} {cs : List AudioCall}
  {blocks : List (List UInt16)} {rest : List UInt16}

/-- An event that leaves the channel alone. -/
theorem silent (h : Lane ports port ch cid start cs blocks rest) {call : AudioCall}
    (hsame : SameLane ports port ch (runCalls start cs) (callAudio (runCalls start cs) call))
    (hcaptured : capturedIn port ch (cs ++ [call]) = capturedIn port ch cs) :
    Lane ports port ch cid start (cs ++ [call]) blocks rest := by
  have hrun := run_calls_snoc start cs call
  refine ⟨?_, ?_, ?_, ?_, ?_, ?_⟩
  · rw [hrun]
    exact hsame.wired
  · rw [run_local_ids, ← run_local_ids start cs]
    exact h.channel
  · rw [hcaptured]
    exact h.cut
  · rw [hrun, hsame.pos]
    exact h.pos
  · rw [hrun, hsame.buf]
    exact h.stored
  · rw [hrun, hsame.sent]
    exact h.sent

/-- A frame of the port is one sample of the channel. -/
theorem frame_view (h : Lane ports port ch cid start cs blocks rest) (hport : port < ports)
    (hch : ch < linkTdmChannelsPerPort) (rx : Nat → UInt16) (beats : Nat → Int64) :
    laneView port ch (runCalls start (cs ++ [.event (.tdmFrame port rx beats)])) =
      (laneView port ch (runCalls start cs)).capture (senderId (runCalls start cs))
        (localIndex port ch) (rx ch) (beats ch) := by
  have hlane := frame_lane h.wired hport hch port rx beats
  rw [if_pos rfl] at hlane
  exact (congrArg (laneView port ch)
    (run_calls_snoc start cs (.event (.tdmFrame port rx beats)))).trans hlane

/-- The write position is the number of samples stored. -/
theorem pos_toNat (h : Lane ports port ch cid start cs blocks rest) :
    (laneView port ch (runCalls start cs)).pos.toNat = rest.length := by
  have hshort := h.cut.short
  rw [h.pos]
  exact UInt32.toNat_ofNat_of_lt' (show rest.length < 2 ^ 32 by omega)

/-- The packet buffer is full after the next sample when that is the last of a block. -/
theorem full_iff (h : Lane ports port ch cid start cs blocks rest) :
    (laneView port ch (runCalls start cs)).pos + 1 = audioFramesPerPkt ↔ rest.length + 1 = 64 := by
  have hshort := h.cut.short
  rw [← UInt32.toNat_inj, UInt32.toNat_add, h.pos_toNat, UInt32.toNat_one]
  show (rest.length + 1) % 2 ^ 32 = 64 ↔ _
  omega

/-- A frame of the port that does not fill the packet buffer. -/
theorem store (h : Lane ports port ch cid start cs blocks rest) (hport : port < ports)
    (hch : ch < linkTdmChannelsPerPort) (rx : Nat → UInt16) (beats : Nat → Int64)
    (hroom : rest.length + 1 < 64) :
    Lane ports port ch cid start (cs ++ [.event (.tdmFrame port rx beats)]) blocks
      (rest ++ [rx ch]) := by
  have hrun := run_calls_snoc start cs (.event (.tdmFrame port rx beats))
  have hview := h.frame_view hport hch rx beats
  rw [LaneView.capture, if_neg (mt h.full_iff.mp hroom.ne)] at hview
  refine ⟨?_, ?_, ?_, ?_, ?_, ?_⟩
  · rw [hrun]
    exact frame_wired h.wired port rx beats
  · rw [run_local_ids, ← run_local_ids start cs]
    exact h.channel
  · rw [captured_in_event, captured_frame]
    exact h.cut.push hroom
  · rw [hview]
    show (laneView port ch (runCalls start cs)).pos + 1 = _
    rw [h.pos, List.length_append, UInt32.ofNat_add]
    rfl
  · rw [hview, h.pos_toNat, List.length_append]
    exact store_take (by omega) h.stored (rx ch)
  · rw [hview]
    exact h.sent

/-- A frame of the port that fills the packet buffer. -/
theorem fill (h : Lane ports port ch cid start cs blocks rest) (hport : port < ports)
    (hch : ch < linkTdmChannelsPerPort) (rx : Nat → UInt16) (beats : Nat → Int64)
    (hfull : rest.length + 1 = 64) :
    Lane ports port ch cid start (cs ++ [.event (.tdmFrame port rx beats)])
      (blocks ++ [rest ++ [rx ch]]) [] := by
  have hrun := run_calls_snoc start cs (.event (.tdmFrame port rx beats))
  have hview := h.frame_view hport hch rx beats
  have hbuf : ((laneView port ch (runCalls start cs)).buf.setIfInBounds
      (laneView port ch (runCalls start cs)).pos.toNat (rx ch)).toList = rest ++ [rx ch] := by
    have htake := store_take (by omega) h.stored (rx ch)
    rw [h.pos_toNat, ← htake, hfull]
    exact (List.take_of_length_le (Nat.le_of_eq Vector.length_toList)).symm
  obtain ⟨hzero, hsent⟩ := capture_full (h.full_iff.mpr hfull) (senderId (runCalls start cs))
    (localIndex port ch) (rx ch) (beats ch)
  have hold : ∀ sb ∈ (laneView port ch (runCalls start cs)).sent,
      ∃ block ∈ blocks ++ [rest ++ [rx ch]], CarriesBlock cid block sb.buf := by
    intro sb hsb
    obtain ⟨block, hblock, hcarries⟩ := h.sent sb hsb
    exact ⟨block, List.mem_append_left _ hblock, hcarries⟩
  refine ⟨?_, ?_, ?_, ?_, List.take_zero, ?_⟩
  · rw [hrun]
    exact frame_wired h.wired port rx beats
  · rw [run_local_ids, ← run_local_ids start cs]
    exact h.channel
  · rw [captured_in_event, captured_frame]
    exact h.cut.fill hfull
  · rw [hview, hzero]
    rfl
  · rw [hview]
    rcases hsent with hsame | ⟨c, hc, hadded⟩
    · rw [hsame]
      exact hold
    · rw [hadded, hbuf]
      intro sb hsb
      rcases List.mem_append.mp hsb with hsb | hsb
      · exact hold sb hsb
      · obtain rfl := List.mem_singleton.mp hsb
        refine ⟨rest ++ [rx ch], List.mem_append_right _ (List.mem_singleton_self _), ?_⟩
        have hid : (localIds (runCalls start cs))[localIndex port ch]? = some c.channelId := by
          rw [localIds, List.getElem?_map, show (runCalls start cs).linkAudioLocal[_]? = _ from hc]
          rfl
        exact ⟨_, _, _, c, _, rfl, Option.some.inj (hid.symm.trans h.channel)⟩

end Lane

/-- Every run of a node that has sent nothing yet is one of each of its channels. -/
theorem lane_of_run {ports port ch : Nat} {cid : LinkId} {start : AudioWorld}
    (hboot : Booted ports start) (hport : port < ports) (hch : ch < linkTdmChannelsPerPort)
    (hcid : (localIds start)[localIndex port ch]? = some cid) (cs : List AudioCall) :
    ∃ blocks rest, Lane ports port ch cid start cs blocks rest := by
  induction cs using List.reverseRecOn with
  | nil =>
      refine ⟨[], [], hboot.wired, hcid, cut_nil (by decide), hboot.pos _, List.take_zero, ?_⟩
      intro sb hsb
      have hnone : (laneView port ch start).sent = [] := by
        unfold laneView
        rw [hboot.sent]
        rfl
      rw [show (laneView port ch (runCalls start [])).sent = [] from hnone] at hsb
      cases hsb
  | append_singleton cs call ih =>
      obtain ⟨blocks, rest, h⟩ := ih
      by_cases haside : ∀ e, call ≠ .event e
      · obtain ⟨core, subs, last, hcall⟩ := aside_frame (runCalls start cs) haside
        refine ⟨blocks, rest, h.silent ?_ (captured_in_aside port ch cs haside)⟩
        rw [hcall]
        exact .of_eq h.wired rfl rfl rfl rfl rfl
      · obtain ⟨e, rfl⟩ : ∃ e, call = .event e := by
          by_contra hnone
          exact haside fun e he => hnone ⟨e, he⟩
        cases e with
        | other core =>
            refine ⟨blocks, rest, h.silent (.of_eq h.wired rfl rfl rfl rfl rfl) ?_⟩
            rw [captured_in_event]
            simp [capturedIn, captured]
        | rx buf len srcAddr srcPort =>
            refine ⟨blocks, rest, h.silent (rx_lane h.wired ..) ?_⟩
            rw [captured_in_event]
            simp [capturedIn, captured]
        | tdmFrame p rx beats =>
            by_cases hp : p = port
            · subst hp
              have hshort := h.cut.short
              by_cases hfull : rest.length + 1 = 64
              · exact ⟨_, _, h.fill hport hch rx beats hfull⟩
              · exact ⟨_, _, h.store hport hch rx beats (by omega)⟩
            · have hlane := frame_lane h.wired hport hch p rx beats
              rw [if_neg hp] at hlane
              refine ⟨blocks, rest, h.silent ⟨frame_wired h.wired p rx beats, ?_, ?_, ?_, ?_⟩ ?_⟩
              · exact congrArg LaneView.buf hlane
              · exact congrArg LaneView.pos hlane
              · exact congrArg LaneView.sent hlane
              · intro c' hc'
                exact ⟨c', (congrArg LaneView.chan hlane).symm.trans hc', rfl⟩
              · rw [captured_in_event]
                simp [capturedIn, captured, hp]

/-- Every buffer sent is one of a local channel. -/
def SentByLocals (w : AudioWorld) : Prop :=
  ∀ sb ∈ w.sentBuffers, sb.channel < w.linkAudioLocal.length

/-- A datagram sends no buffer. -/
theorem rx_sent_buffers (buf : UInt32 → UInt8) (len : UInt32) (srcAddr : UInt32)
    (srcPort : UInt16) (w : AudioWorld) :
    (linkAudioHandleRx buf len srcAddr srcPort w).sentBuffers = w.sentBuffers := by
  rcases audio_rx_cases buf len srcAddr srcPort w with hbuffer | ⟨-, hother⟩
  · rw [handle_rx_audio_buffer hbuffer]
    unfold handleAudioBuffer
    split
    · rfl
    · split
      · rfl
      · split
        · rfl
        · split
          · rfl
          · rfl
  · rcases hother with ⟨_, _, _, hsame⟩ | ⟨_, _, hsame, _⟩ | hsame | ⟨_, _, _, _, _, hsame⟩
    all_goals rw [hsame]
    all_goals rfl

theorem send_by_locals {w : AudioWorld} (h : SentByLocals w) (i : Nat) (samples : List UInt16)
    (beatsFirst : Int64) : SentByLocals (sendAudioBufferFor i samples beatsFirst w) := by
  rcases send_self i samples beatsFirst w with ⟨hsame, _⟩ | ⟨c, hc, _, hnew⟩
  · rw [hsame]
    exact h
  · rw [hnew]
    intro sb hsb
    have hsize : (w.linkAudioLocal.set i { c with nextSendCount := c.nextSendCount + 1 }).length =
        w.linkAudioLocal.length := List.length_set
    show sb.channel < (w.linkAudioLocal.set i _).length
    rw [hsize]
    rcases List.mem_append.mp hsb with hold | hlast
    · exact h sb hold
    · rw [List.mem_singleton.mp hlast]
      exact (List.getElem?_eq_some_iff.mp hc).1

/-- Every call keeps that. -/
theorem call_by_locals {w : AudioWorld} (h : SentByLocals w) (call : AudioCall) :
    SentByLocals (callAudio w call) := by
  have hsize : (callAudio w call).linkAudioLocal.length = w.linkAudioLocal.length := by
    simpa [identities] using congrArg List.length (call_identities w call)
  have hquiet (hsame : (callAudio w call).sentBuffers = w.sentBuffers) :
      SentByLocals (callAudio w call) := by
    intro sb hsb
    rw [hsame] at hsb
    rw [hsize]
    exact h sb hsb
  by_cases haside : ∀ e, call ≠ .event e
  · obtain ⟨core, subs, last, hcall⟩ := aside_frame w haside
    exact hquiet (by rw [hcall])
  · cases call with
    | tick | subscribe | unsubscribe => exact absurd (fun e he => by cases he) haside
    | event e =>
        cases e with
        | other core => exact hquiet rfl
        | rx buf len srcAddr srcPort => exact hquiet (rx_sent_buffers buf len srcAddr srcPort w)
        | tdmFrame p rx beats =>
            refine frame_keeps ?_ (fun _ _ _ hs => hs) h
            intro _ ch _ s hs
            have hstored : SentByLocals { s with
                sTxPktBuf := Function.update s.sTxPktBuf (p, ch)
                  ((s.sTxPktBuf (p, ch)).setIfInBounds (s.sTxPktPos (p, ch)).toNat (rx ch)) } := hs
            unfold captureChannel
            dsimp only
            split
            · split
              · exact send_by_locals hstored _ _ _
              · exact hs
            · exact hs

/-- A channel and a complete block of what it has captured. -/
structure BlockOf (ports : Nat) (start : AudioWorld) (cs : List AudioCall) (port ch : Nat)
    (cid : LinkId) (k : Nat) : Prop where
  validPort : port < ports
  validChannel : ch < linkTdmChannelsPerPort
  channel : (localIds start)[localIndex port ch]? = some cid
  complete : 64 * (k + 1) ≤ (capturedIn port ch cs).length

/-- Whatever a node sends carries a block of 64 consecutive samples of one of its channels. -/
theorem sent_blocks {ports : Nat} {start : AudioWorld} (hboot : Booted ports start)
    (cs : List AudioCall) : ∀ sb ∈ (runCalls start cs).sentBuffers,
      ∃ port ch cid k, BlockOf ports start cs port ch cid k ∧
        CarriesBlock cid (blockAt 64 (capturedIn port ch cs) k) sb.buf := by
  intro sb hsb
  have hlocals : SentByLocals (runCalls start cs) := by
    refine run_invariant (motive := SentByLocals) (fun w call h => call_by_locals h call) ?_ cs
    intro sb hsb
    rw [hboot.sent] at hsb
    cases hsb
  have hsize : (runCalls start cs).linkAudioLocal.length = ports * linkTdmChannelsPerPort := by
    rw [← hboot.wired.size]
    simpa [identities] using congrArg List.length (run_identities start cs)
  have hlt : sb.channel < ports * linkTdmChannelsPerPort := hsize ▸ hlocals sb hsb
  -- the index of a local channel is that of a port and a channel
  have hport : sb.channel / linkTdmChannelsPerPort < ports :=
    Nat.div_lt_of_lt_mul (by rwa [Nat.mul_comm])
  have hch : sb.channel % linkTdmChannelsPerPort < linkTdmChannelsPerPort :=
    Nat.mod_lt _ (by decide)
  have hindex : localIndex (sb.channel / linkTdmChannelsPerPort)
      (sb.channel % linkTdmChannelsPerPort) = sb.channel := Nat.div_add_mod' _ _
  obtain ⟨cid, hcid⟩ : ∃ cid, (localIds start)[localIndex (sb.channel / linkTdmChannelsPerPort)
      (sb.channel % linkTdmChannelsPerPort)]? = some cid := by
    refine ⟨_, List.getElem?_eq_getElem ?_⟩
    rw [hindex, localIds, List.length_map, hboot.wired.size]
    exact hlt
  obtain ⟨blocks, rest, h⟩ := lane_of_run hboot hport hch hcid cs
  have hlane : sb ∈ (laneView (sb.channel / linkTdmChannelsPerPort)
      (sb.channel % linkTdmChannelsPerPort) (runCalls start cs)).sent := by
    refine List.mem_filter.mpr ⟨hsb, ?_⟩
    rw [hindex]
    exact decide_eq_true rfl
  obtain ⟨block, hblock, hcarries⟩ := h.sent sb hlane
  obtain ⟨k, hk⟩ := List.getElem?_of_mem hblock
  have hklt : k < blocks.length := (List.getElem?_eq_some_iff.mp hk).1
  rw [h.cut.blocks_length] at hklt
  have hcomplete := Nat.mul_le_of_le_div 64 (k + 1) _ hklt
  refine ⟨_, _, cid, k, ⟨hport, hch, hcid, by omega⟩, ?_⟩
  rw [blockAt, ← h.cut.block_eq hk]
  exact hcarries

/-! ## What a subscription receives -/

/-- The AudioBuffers that a node has sent. -/
def AudioWorld.audioBuffers (w : AudioWorld) : List (List UInt8) := w.sentBuffers.map SentBuffer.buf

/-- The AudioBuffer that a call hands to its node. -/
def AudioCall.audioBuffer : AudioCall → Option (List UInt8)
  | .event (.rx buf len _ _) =>
      if 20 ≤ len ∧ bytesAt buf 0 8 = kProtoAudio ∧ buf 8 = 6 then some (bytesAt buf 0 len.toNat)
      else none
  | _ => none

/-- The samples that a call delivers to the subscription to the channel. -/
def acceptedBy (cid : LinkId) (w : AudioWorld) : AudioCall → List (List UInt16)
  | .event (.rx buf len _ _) => (acceptedSamples cid w buf len).toList
  | _ => []

/-- What a call does to the queue of that subscription. -/
def callOps (cid : LinkId) (port : Nat) (w : AudioWorld) : AudioCall → List (QueueOp UInt16)
  | .event e => queueOps cid port w e
  | _ => []

/-- What the calls append to the queue is what they deliver. -/
theorem appended_accepted (cid : LinkId) (port : Nat) (w : AudioWorld) (cs : List AudioCall) :
    (log callAudio (callOps cid port) w cs).flatMap QueueOp.appended =
      (log callAudio (acceptedBy cid) w cs).flatten := by
  have hone (w : AudioWorld) (call : AudioCall) :
      (callOps cid port w call).flatMap QueueOp.appended = (acceptedBy cid w call).flatten := by
    cases call with
    | tick | subscribe | unsubscribe => rfl
    | event e =>
        cases e with
        | other => rfl
        | tdmFrame p rx beats =>
            unfold callOps queueOps
            dsimp only
            split <;> rfl
        | rx buf len srcAddr srcPort =>
            unfold callOps queueOps acceptedBy
            dsimp only
            cases acceptedSamples cid w buf len with
            | none => rfl
            | some samples => simp [QueueOp.appended]
  induction cs generalizing w with
  | nil => rfl
  | cons call cs ih =>
      rw [log_cons, log_cons, List.flatMap_append, List.flatten_append, hone, ih]

/-- The tick and the subscription API leave the ring of a subscription in use alone. -/
theorem aside_ring_view {slot : Nat} {cid : LinkId} {port : Nat} {channel : Int} {w : AudioWorld}
    (hsole : SoleUser slot cid port channel w) {call : AudioCall} (h : ∀ e, call ≠ .event e) :
    ringView slot (callAudio w call) = ringView slot w := by
  obtain ⟨sub, hsub, huse, -⟩ := hsole.entry
  have hset (j : Nat) (v : AudioWorld) (s' : AudioSub)
      (hring : j = slot → ∀ s, v.linkAudioSubs[slot]? = some s → s'.ring = s.ring) :
      ringView slot (v.setSub j s') = ringView slot v := by
    refine Prod.ext ?_ rfl
    show ((v.linkAudioSubs.set j s')[slot]?).map AudioSub.ring = _
    by_cases hj : j = slot
    · subst hj
      cases hs : v.linkAudioSubs[j]? with
      | none =>
          rw [List.set_eq_of_length_le (List.getElem?_eq_none_iff.mp hs), hs]
          exact congrArg (Option.map AudioSub.ring) hs.symm
      | some s =>
          rw [List.getElem?_set_self (List.getElem?_eq_some_iff.mp hs).1, Option.map_some,
            hring rfl s hs]
          exact (congrArg (Option.map AudioSub.ring) hs).symm
    · rw [List.getElem?_set_ne hj]
      rfl
  cases call with
  | event e => exact absurd rfl (h e)
  | tick peerName =>
      have hone : ∀ k ∈ List.range linkAudioMaxRemote, ∀ s,
          ringView slot s = ringView slot w →
          ringView slot (requestAgain w.core.clock.now s k) = ringView slot w := by
        intro k _ s hs
        refine Eq.trans ?_ hs
        unfold requestAgain
        split
        · rfl
        · rename_i t ht
          split
          · refine hset k (sendChannelRequest 4 t.sourceAddr t.sourcePort t.channelId s) _ ?_
            intro hk t' ht'
            rw [hk] at ht
            rw [← Option.some.inj (ht.symm.trans ht')]
            exact congrArg₂ (JitterRing.mk t.jbuf) rfl rfl
          · rfl
      show ringView slot (linkAudioTick peerName w) = _
      unfold linkAudioTick
      refine Sweep.inv_sweep hone ?_
      split
      · obtain ⟨_, _, _, hw⟩ := (announce_sends peerName w.advance).1
        rw [hw]
        rfl
      · rfl
  | subscribe tdmPort tdmChannel c =>
      show ringView slot (linkAudioSubscribe tdmPort tdmChannel c w).1 = _
      unfold linkAudioSubscribe
      split
      · rfl
      · dsimp only
        split
        · rfl
        · rename_i j hfree
          refine hset j w _ fun hj s _ => ?_
          -- the subscription takes a slot that is free
          obtain ⟨hlt, hunused, -⟩ := List.findIdx?_eq_some_iff_getElem.mp hfree
          have hown : w.linkAudioSubs[j]? = some sub := hj ▸ hsub
          rw [(List.getElem?_eq_some_iff.mp hown).2, huse] at hunused
          cases hunused
  | unsubscribe c =>
      show ringView slot (linkAudioUnsubscribe c w).1 = _
      unfold linkAudioUnsubscribe
      split
      · rfl
      · rename_i j _
        refine hset j (sendChannelRequest 5 _ _ _ w) _ fun hj s hs => ?_
        have hs : w.linkAudioSubs[slot]? = some s := hs
        rw [hj, List.getD_eq_getElem?_getD, hs]
        rfl

/-- A run of calls is what `callOps` says for the queue and for what is played. -/
theorem plays_calls {slot : Nat} {cid : LinkId} {port : Nat} {channel : Int} {w : AudioWorld}
    {q : List UInt16} {writes : List TdmWrite} (h : Plays slot port channel q writes w)
    {cs : List AudioCall}
    (hsole : Guarded callAudio (fun w _ => SoleUser slot cid port channel w) w cs) :
    let ops := log callAudio (callOps cid port) w cs
    Plays slot port channel (run (QueueOp.step 1024) q ops)
      (writes ++ (log (QueueOp.step 1024) QueueOp.taken q ops).map (TdmWrite.mk slot port channel))
      (runCalls w cs) := by
  have hstep : ∀ v past call, Plays slot port channel (run (QueueOp.step 1024) q past)
      (writes ++
        (log (QueueOp.step 1024) QueueOp.taken q past).map (TdmWrite.mk slot port channel)) v →
      SoleUser slot cid port channel v →
      Plays slot port channel (run (QueueOp.step 1024) q (past ++ callOps cid port v call))
        (writes ++ (log (QueueOp.step 1024) QueueOp.taken q
          (past ++ callOps cid port v call)).map (TdmWrite.mk slot port channel))
        (callAudio v call) := by
    intro v past call hplays hsole
    by_cases haside : ∀ e, call ≠ .event e
    · have hnone : callOps cid port v call = [] := by
        cases call with
        | event e => exact absurd rfl (haside e)
        | tick | subscribe | unsubscribe => rfl
      rw [hnone, List.append_nil]
      exact hplays.congr (aside_ring_view hsole haside)
    · cases call with
      | tick | subscribe | unsubscribe => exact absurd (fun e he => by cases he) haside
      | event e =>
          rw [run_append, log_append, List.map_append, ← List.append_assoc]
          exact hplays.step hsole e
  have hinit : Plays slot port channel (run (QueueOp.step 1024) q [])
      (writes ++
        (log (QueueOp.step 1024) QueueOp.taken q []).map (TdmWrite.mk slot port channel)) w := by
    rwa [run_nil, log_nil, List.map_nil, List.append_nil]
  have hrun := run_log_induct hstep hinit hsole
  rwa [List.nil_append] at hrun

/-! ## From capture to playback -/

theorem captured_in_append (port ch : Nat) (cs cs' : List AudioCall) :
    capturedIn port ch (cs ++ cs') = capturedIn port ch cs ++ capturedIn port ch cs' := by
  simp [capturedIn, captured, eventsOf]

/-- The id is that of this channel of this node, and of no other channel of any node. -/
structure OwnsChannel {ι : Type} (nodes : ι → AudioWorld) (ports : ι → Nat) (j : ι)
    (port ch : Nat) (cid : LinkId) : Prop where
  validPort : port < ports j
  validChannel : ch < linkTdmChannelsPerPort
  channel : (localIds (nodes j))[localIndex port ch]? = some cid
  sole : ∀ j' k, (localIds (nodes j'))[k]? = some cid → j' = j ∧ k = localIndex port ch

section Path

variable {ι : Type} [DecidableEq ι] {nodes : ι → AudioWorld} {ports : ι → Nat} {j : ι}
  {port ch : Nat} {cid : LinkId}

/-- What a node accepts for a channel is a block of what has been captured there. -/
theorem accepted_block (hboot : ∀ j, Booted (ports j) (nodes j))
    (howns : OwnsChannel nodes ports j port ch cid) {past : List (ι × AudioCall)} {i : ι}
    {call : AudioCall} (hnet : FromNetwork AudioWorld.audioBuffers AudioCall.audioBuffer
      (run (actAt callAudio) nodes past) (i, call)) (w : AudioWorld) :
    ∀ taken ∈ acceptedBy cid w call, ∃ k,
      64 * (k + 1) ≤ (capturedIn port ch (history past j)).length ∧
      taken = blockAt 64 (capturedIn port ch (history past j)) k := by
  intro taken htaken
  cases call with
  | tick | subscribe | unsubscribe => cases htaken
  | event e =>
      cases e with
      | tdmFrame | other => cases htaken
      | rx buf len srcAddr srcPort =>
          have haccepted : acceptedSamples cid w buf len = some taken :=
            Option.mem_toList.mp htaken
          have hbuffer : IsAudioBuffer w buf len := by
            by_contra hnot
            rw [acceptedSamples, if_neg fun hmatch => hnot hmatch.1] at haccepted
            cases haccepted
          have hhanded : bytesAt buf 0 len.toNat ∈
              (AudioCall.event (.rx buf len srcAddr srcPort)).audioBuffer :=
            if_pos ⟨hbuffer.header, hbuffer.proto, hbuffer.mtype⟩
          obtain ⟨j', hsent⟩ := hnet _ hhanded
          obtain ⟨sb, hsb, hbytes⟩ := List.mem_map.mp hsent
          rw [run_history] at hsb
          obtain ⟨port', ch', cid', k, hblock, selfId, session, bp, c, beatsFirst, henc, hcid'⟩ :=
            sent_blocks (hboot j') (history past j') sb hsb
          have hcomplete := hblock.complete
          have hfull : (blockAt 64 (capturedIn port' ch' (history past j')) k).length = 64 := by
            rw [blockAt, List.length_take, List.length_drop]
            omega
          rw [henc] at hbytes
          have hsize : (encodeAudioBuffer selfId session bp c beatsFirst
              (blockAt 64 (capturedIn port' ch' (history past j')) k)).length = len.toNat := by
            rw [hbytes]
            simp [bytesAt]
          obtain ⟨rfl, hcid⟩ := accepted_encoded hfull (by rw [HoldsDatagram, hsize, hbytes])
            (by rw [hsize, UInt32.ofNat_toNat]) haccepted
          -- the id names the channel, and with it the node
          obtain ⟨rfl, hindex⟩ := howns.sole j' _ (hblock.channel.trans (by rw [← hcid', hcid]))
          have hch := hblock.validChannel
          have hch' := howns.validChannel
          unfold localIndex at hindex
          unfold linkTdmChannelsPerPort at hch hch' hindex
          obtain rfl : port' = port := by omega
          obtain rfl : ch' = ch := by omega
          exact ⟨k, hcomplete, rfl⟩

/-- What a node accepts for a channel in a run are blocks of what has been captured there. -/
theorem accepted_blocks (hboot : ∀ j, Booted (ports j) (nodes j))
    (howns : OwnsChannel nodes ports j port ch cid) (before after : List (ι × AudioCall))
    (hnet : Guarded (actAt callAudio) (FromNetwork AudioWorld.audioBuffers AudioCall.audioBuffer)
      (run (actAt callAudio) nodes before) after) (i : ι) :
    ∀ taken ∈ log callAudio (acceptedBy cid) (run (actAt callAudio) nodes before i)
      (history after i), ∃ k,
        64 * (k + 1) ≤ (capturedIn port ch (history (before ++ after) j)).length ∧
        taken = blockAt 64 (capturedIn port ch (history (before ++ after) j)) k := by
  induction after using List.reverseRecOn with
  | nil => exact fun taken htaken => by cases htaken
  | append_singleton past a ih =>
      -- the stream goes on, and its complete blocks stay
      obtain ⟨more, hmore⟩ : ∃ more, capturedIn port ch (history (before ++ (past ++ [a])) j) =
          capturedIn port ch (history (before ++ past) j) ++ more := by
        rw [← List.append_assoc, history_concat, captured_in_append]
        exact ⟨_, rfl⟩
      have hkept (taken : List UInt16) (h : ∃ k,
          64 * (k + 1) ≤ (capturedIn port ch (history (before ++ past) j)).length ∧
          taken = blockAt 64 (capturedIn port ch (history (before ++ past) j)) k) : ∃ k,
          64 * (k + 1) ≤ (capturedIn port ch (history (before ++ (past ++ [a])) j)).length ∧
          taken = blockAt 64 (capturedIn port ch (history (before ++ (past ++ [a])) j)) k := by
        obtain ⟨k, hcomplete, htaken⟩ := h
        refine ⟨k, ?_, ?_⟩
        · rw [hmore, List.length_append]
          omega
        · rw [hmore, block_at_append hcomplete]
          exact htaken
      intro taken htaken
      rw [history_concat, log_append] at htaken
      rcases List.mem_append.mp htaken with hold | hnew
      · exact hkept taken (ih hnet.initial taken hold)
      · obtain ⟨i', call⟩ := a
        by_cases hi : i' = i
        · have hat := hnet.at_step
          rw [← run_append] at hat
          rw [if_pos hi, log_cons, log_nil, List.append_nil] at hnew
          exact hkept taken (accepted_block hboot howns hat _ taken hnew)
        · rw [if_neg hi] at hnew
          cases hnew

end Path

/-- Two nodes that have booted at different times. -/
def pathCore : Bool → World
  | true => boot (fun n => 60000 + .ofNat n) 0x0A000002 (List.replicate 16 0)
  | false => boot (fun n => 90000 + .ofNat n) 0x0A000003 (List.replicate 16 0)

/-- Each of them has one TDM port. -/
def pathNode (b : Bool) : AudioWorld := audioBoot (pathCore b) 1

/-- The first channel of the first node. -/
def pathChannel : LinkId := (localIds (pathNode true)).getD 0 .zero

/-- The second node asks the first one for its channel, which then captures 64 samples. -/
def sendingCalls : List AudioCall :=
  .event (.rx (memOf (encodeChannelRequest (pathCore false).linkSelfId 4 pathChannel)) 36 1 2) ::
    List.replicate 64 (.event (.tdmFrame 0 (fun _ => 7) (fun _ => 0)))

/-- The second node joins the session of the first one, hears its announcement and subscribes. -/
def subscribingCalls : List AudioCall :=
  [.event (.other { pathCore false with linkSelfSession := (pathCore true).linkSelfSession }),
    .event (.rx (memOf (encodePeerAnnouncement [] false (pathNode true)).1) 396 1 2),
    .subscribe 0 0 pathChannel]

/-- What the first node sends. -/
def pathBuffer : List UInt8 :=
  encodeAudioBuffer (pathCore true).linkSelfId (pathCore true).linkSelfSession
    (pathCore true).linkSelfTimeline.tempoUsPerBeat
    { AudioLocal.zero with channelId := pathChannel } 0 (List.replicate 64 7)

/-- The second node receives the buffer and serves a TDM frame. -/
def playingCalls : List AudioCall :=
  [.event (.rx (memOf pathBuffer) 202 1 2), .event (.tdmFrame 0 (fun _ => 0) (fun _ => 0))]

def pathBefore : List (Bool × AudioCall) :=
  sendingCalls.map (Prod.mk true) ++ subscribingCalls.map (Prod.mk false)

def pathAfter : List (Bool × AudioCall) := playingCalls.map (Prod.mk false)

theorem path_owns : OwnsChannel pathNode (fun _ => 1) true 0 0 pathChannel := by
  have hsize : ∀ b, (localIds (pathNode b)).length = 16 := by decide +kernel
  have hfirst : (localIds (pathNode true))[0]? = some pathChannel := by decide +kernel
  have hsole : ∀ b, ∀ k < 16, (localIds (pathNode b))[k]? = some pathChannel →
      b = true ∧ k = 0 := by
    decide +kernel
  refine ⟨by decide, by decide, hfirst, fun b k hk => hsole b k ?_ hk⟩
  rw [← hsize b]
  exact (List.getElem?_eq_some_iff.mp hk).1

/-- The first slot is the only one in use, for the channel. -/
def FirstSlotOnly (w : AudioWorld) : Prop :=
  w.numTdmPorts = 1 ∧ w.linkAudioSubs.map (fun sub =>
    (sub.inUse, sub.channelId, sub.tdmPort, sub.tdmChannel)) =
      (true, pathChannel, 0, 0) :: List.replicate 63 (false, .zero, 0, 0)

instance (w : AudioWorld) : Decidable (FirstSlotOnly w) :=
  inferInstanceAs (Decidable (_ ∧ _))

theorem first_slot_sole {w : AudioWorld} (h : FirstSlotOnly w) :
    SoleUser 0 pathChannel 0 0 w := by
  obtain ⟨hports, hslots⟩ := h
  have hslot (k : Nat) : (w.linkAudioSubs[k]?).map (fun sub =>
      (sub.inUse, sub.channelId, sub.tdmPort, sub.tdmChannel)) =
        ((true, pathChannel, 0, 0) :: List.replicate 63 (false, .zero, 0, 0))[k]? := by
    rw [← hslots, List.getElem?_map]
  refine ⟨by decide, by omega, ?_, fun k sub hsub huse _ => ?_⟩
  · obtain ⟨sub, hsub, hfields⟩ := Option.map_eq_some_iff.mp (hslot 0)
    obtain ⟨huse, hcid, hport, hchannel⟩ : _ ∧ _ ∧ _ ∧ _ := by simpa using hfields
    exact ⟨sub, hsub, huse, hcid, hport, hchannel⟩
  · cases k with
    | zero => rfl
    | succ k =>
        have hfree := hslot (k + 1)
        rw [hsub, Option.map_some, List.getElem?_cons_succ] at hfree
        have hmem := List.mem_of_getElem? hfree.symm
        have hunused := congrArg Prod.fst (List.eq_of_mem_replicate hmem)
        rw [show sub.inUse = false from hunused] at huse
        cases huse

theorem path_network : Guarded (actAt callAudio)
    (FromNetwork AudioWorld.audioBuffers AudioCall.audioBuffer)
    (run (actAt callAudio) pathNode pathBefore) pathAfter := by
  have hsent : pathBuffer ∈ (run callAudio (pathNode true) sendingCalls).audioBuffers := by
    decide +kernel
  have hhistory : history pathBefore true = sendingCalls := rfl
  have hbytes : (AudioCall.event (.rx (memOf pathBuffer) 202 1 2)).audioBuffer =
      some pathBuffer := by
    decide +kernel
  refine ⟨fun m hm => ⟨true, ?_⟩, fun m hm => ?_, trivial⟩
  · obtain rfl := Option.some.inj (hbytes.symm.trans hm)
    rw [run_history, hhistory]
    exact hsent
  · cases hm

/-- There is room for the buffer. -/
theorem path_room {w : AudioWorld} (hw : w = run callAudio (pathNode false) subscribingCalls) :
    Guarded (QueueOp.step 1024) (QueueOp.Fits 1024) []
      (log callAudio (callOps pathChannel 0) w (history pathAfter false)) := by
  rw [hw]
  decide +kernel

end LinkFPGA
