import LinkFPGA.Firmware.Device
import LinkFPGA.Library.SharedStream
import LinkFPGA.Library.Sweep
import LinkFPGA.Proofs.HandlerReadings
import LinkFPGA.Proofs.WebControl

/-!
# The main loop and the discovery core

The modules of the firmware share the host clock and the network. `main_loop_refines` says that the
discovery core cannot tell: whatever Link-Audio, the sync sources, the admin page and the TDM ports
do in between, it does what it does alone, on the readings of the clock that it makes itself.
-/

namespace LinkFPGA

open Runs SharedStream

/-! ## The core as a reader of the clock -/

/-- A handler call of the core; without an event, `beat_pulse_init` and `link_init`. -/
def coreTurn (w : World) : Option Event → World
  | none => linkInit (beatPulseInit w)
  | some e => step w e

/-- The state without the clock and the record of what was sent. -/
def World.bare (w : World) : World := w.on ⟨fun _ => 0, 0⟩ []

/-- The state apart from what the clock will show. -/
def World.progress (w : World) : Progress World Datagram := ⟨w.bare, w.clock.reads, w.sent⟩

/-- The handlers of the core on what the clock shows next. -/
def coreMachine : Machine World (Option Event) UInt64 Datagram := fun e b future =>
  (coreTurn (b.on ⟨future, 0⟩ []) e).progress

theorem core_turn_uniform (e : Option Event) : Uniform fun w => coreTurn w e := by
  cases e with
  | none =>
      have hinit : Uniform beatPulseInit := .still fun _ _ _ => rfl
      have hstart := hinit.comp link_init_uniform
      simp only [coreTurn]
      exact hstart
  | some e => exact step_uniform e

/-- What a turn makes of a state, by what it makes of it on the rest of the clock. -/
theorem core_turn_shifted (w : World) (e : Option Event) :
    (coreTurn w e).clock.reading = w.clock.reading ∧
      turn coreMachine w.clock.reading w.progress e = (coreTurn w e).progress := by
  obtain ⟨n, new, h⟩ := core_turn_uniform e w
  obtain ⟨hclock, hsent⟩ := Uniform.leaves (f := fun w => coreTurn w e) h
  have hrest := h ⟨fun i => w.clock.reading (w.clock.reads + i), 0⟩ [] fun i _ =>
    congrArg (fun k => w.clock.reading (w.clock.reads + k)) (Nat.zero_add i)
  refine ⟨by rw [hclock]; rfl, ?_⟩
  have hmachine : coreMachine e w.bare (fun i => w.clock.reading (w.clock.reads + i)) =
      ⟨(coreTurn w e).bare, n, new⟩ := by
    show (coreTurn (w.on _ []) e).progress = _
    dsimp only at hrest
    rw [hrest]
    show Progress.mk (coreTurn w e).bare (0 + n) ([] ++ new) = _
    rw [Nat.zero_add, List.nil_append]
  have hturn : turn coreMachine w.clock.reading w.progress e =
      let r := coreMachine e w.bare fun i => w.clock.reading (w.clock.reads + i)
      ⟨r.state, w.clock.reads + r.taken, w.sent ++ r.out⟩ := rfl
  rw [hturn, hmachine]
  unfold World.progress
  rw [hclock, hsent]
  rfl

/-- The core looks at the readings that it makes. -/
theorem core_machine_looks : Looks coreMachine := by
  intro e b f g hsame
  obtain ⟨n, new, h⟩ := core_turn_uniform e (b.on ⟨f, 0⟩ [])
  obtain ⟨hclock, _⟩ := Uniform.leaves (f := fun w => coreTurn w e) h
  have htaken : (coreMachine e b f).taken = n := by
    show (coreTurn (b.on ⟨f, 0⟩ []) e).clock.reads = n
    rw [hclock]
    exact Nat.zero_add n
  have hthere := h ⟨g, 0⟩ [] fun i hi => by
    show g (0 + i) = f (0 + i)
    rw [Nat.zero_add]
    exact hsame i (htaken ▸ hi)
  have hhere := h ⟨f, 0⟩ [] (.refl _ _)
  have hg : coreTurn (b.on ⟨g, 0⟩ []) e =
      (coreTurn (b.on ⟨f, 0⟩ []) e).on (Clock.skip ⟨g, 0⟩ n) ([] ++ new) := hthere
  have hf : coreTurn (b.on ⟨f, 0⟩ []) e =
      (coreTurn (b.on ⟨f, 0⟩ []) e).on (Clock.skip ⟨f, 0⟩ n) ([] ++ new) := hhere
  show (coreTurn (b.on ⟨g, 0⟩ []) e).progress = (coreTurn (b.on ⟨f, 0⟩ []) e).progress
  rw [hg, hf]
  rfl

/-- A run of the core is a run of the machine. -/
theorem run_progress (w : World) (es : List (Option Event)) :
    run (turn coreMachine w.clock.reading) w.progress es = (run coreTurn w es).progress := by
  induction es generalizing w with
  | nil => rfl
  | cons e es ih =>
      obtain ⟨hreading, hturn⟩ := core_turn_shifted w e
      rw [run_cons, run_cons, hturn, ← hreading]
      exact ih (coreTurn w e)

/-! ## What others do to the core -/

/-- Between two states of the core, its own handlers serve these events; what else happens makes
readings and sends datagrams. -/
def Does (es : List Event) (w w' : World) : Prop :=
  w'.clock.reading = w.clock.reading ∧ ∃ as, ownEvents as = es.map some ∧
    run (act coreMachine w.clock.reading) w.progress as = w'.progress

/-- Readings made, and datagrams sent, by others. -/
def Aside (w w' : World) : Prop := ∃ n new, w' = w.on (w.clock.skip n) (w.sent ++ new)

theorem Aside.refl (w : World) : Aside w w := ⟨0, [], by rw [List.append_nil]; rfl⟩

theorem Aside.trans {a b c : World} (h : Aside a b) (h' : Aside b c) : Aside a c := by
  obtain ⟨n, new, rfl⟩ := h
  obtain ⟨k, later, rfl⟩ := h'
  exact ⟨n + k, new ++ later, by rw [← Clock.skip_skip, ← List.append_assoc]; rfl⟩

theorem Does.own (w : World) (e : Event) : Does [e] w (step w e) :=
  ⟨(core_turn_shifted w (some e)).1, [.own (some e)], rfl, (core_turn_shifted w (some e)).2⟩

theorem Does.trans {es es' : List Event} {a b c : World} (h : Does es a b) (h' : Does es' b c) :
    Does (es ++ es') a c := by
  obtain ⟨hreading, as, hown, hrun⟩ := h
  obtain ⟨hreading', as', hown', hrun'⟩ := h'
  refine ⟨hreading'.trans hreading, as ++ as', ?_, ?_⟩
  · rw [own_events_append, hown, hown', List.map_append]
  · rw [run_append, hrun, ← hreading, hrun']

theorem Aside.does {w w' : World} (h : Aside w w') : Does [] w w' := by
  obtain ⟨n, new, rfl⟩ := h
  exact ⟨rfl, [.others n new], rfl, rfl⟩

theorem Does.refl (w : World) : Does [] w w := (Aside.refl w).does

/-! ## Link-Audio -/

/-- A reading. -/
theorem Aside.reading (w : World) : Aside w w.advance :=
  ⟨1, [], congrArg (w.on (w.clock.skip 1)) (List.append_nil w.sent).symm⟩

/-- A datagram. -/
theorem Aside.datagram (w : World) (d : Datagram) : Aside w (w.send d) := ⟨0, [d], rfl⟩

theorem record_channel_aside (peerId : LinkId) (peerAddr : UInt32) (peerPort : UInt16)
    (cid : LinkId) (name : List UInt8) (a : AudioWorld) :
    Aside a.core (recordChannel peerId peerAddr peerPort cid name a).core := by
  unfold recordChannel
  dsimp only
  split
  · exact .reading a.core
  · split
    · exact .refl a.core
    · exact .reading a.core

theorem auca_loop_aside (rd : UInt32 → UInt8) (peerId : LinkId) (peerAddr : UInt32)
    (peerPort : UInt16) (count : Nat) (v n : UInt32) (a : AudioWorld) :
    Aside a.core (aucaLoop rd peerId peerAddr peerPort count v n a).1.core := by
  induction count generalizing v n a with
  | zero => exact .refl a.core
  | succ count ih =>
      unfold aucaLoop
      dsimp only
      split
      · exact .refl a.core
      · split
        · exact .refl a.core
        · exact (record_channel_aside ..).trans (ih ..)

theorem ann_handler_aside (peerId : LinkId) (peerAddr : UInt32) (peerPort : UInt16) (key : UInt32)
    (v : List UInt8) (s : AnnCtx × AudioWorld) :
    Aside s.2.core (annHandler peerId peerAddr peerPort key v s).1.2.core := by
  unfold annHandler
  dsimp only
  split
  · split <;> exact .refl s.2.core
  · split
    · split
      · exact .refl s.2.core
      · split <;> exact .refl s.2.core
    · split
      · split <;> exact .refl s.2.core
      · split
        · split
          · exact .refl s.2.core
          · exact auca_loop_aside ..
        · exact .refl s.2.core

theorem peer_announcement_aside (senderId : LinkId) (srcAddr : UInt32) (srcPort : UInt16)
    (body : List UInt8) (a : AudioWorld) :
    Aside a.core (handlePeerAnnouncement senderId srcAddr srcPort body a).core := by
  have hwalk : Aside a.core
      (tlvWalk (annHandler senderId srcAddr srcPort) body (⟨0, false⟩, a)).1.2.core := by
    refine tlv_walk_induct (P := fun s : AnnCtx × AudioWorld => Aside a.core s.2.core) body
      (.refl a.core) ?_
    intro entry _ s hs
    exact hs.trans (ann_handler_aside ..)
  unfold handlePeerAnnouncement
  dsimp only
  split
  · exact hwalk.trans (.datagram _ _)
  · exact hwalk

/-- A Link-Audio datagram. -/
theorem audio_rx_aside (buf : UInt32 → UInt8) (len : UInt32) (srcAddr : UInt32)
    (srcPort : UInt16) (a : AudioWorld) :
    Aside a.core (linkAudioHandleRx buf len srcAddr srcPort a).core := by
  unfold linkAudioHandleRx
  dsimp only
  split
  · exact .refl a.core
  split
  · exact .refl a.core
  split
  · exact .refl a.core
  split
  · exact peer_announcement_aside ..
  split
  · obtain ⟨remote, subs, hbyes, -⟩ := channel_byes_frame (bytesAt buf 20 (len - 20).toNat) a
    rw [hbyes]
    exact .refl a.core
  split
  · rcases channel_request_frame (buf 8) (.ofBytes (bytesAt buf 12 8)) srcAddr srcPort
      (bytesAt buf 20 (len - 20).toNat) a with hsame | ⟨i, c, num, subs, -, hset⟩
    · rw [hsame]
      exact .refl a.core
    · rw [hset]
      exact .refl a.core
  split
  · unfold handleAudioBuffer
    repeat' split
    all_goals exact .refl a.core
  · exact .refl a.core

theorem send_audio_buffer_aside (i : Nat) (samples : List UInt16) (beatsFirst : Int64)
    (a : AudioWorld) : Aside a.core (sendAudioBufferFor i samples beatsFirst a).core := by
  unfold sendAudioBufferFor
  split
  · exact .refl a.core
  · split
    · exact .refl a.core
    · exact ⟨1, _, rfl⟩

theorem capture_channel_aside (port : Nat) (rx : Nat → UInt16) (beats : Nat → Int64)
    (a : AudioWorld) (ch : Nat) : Aside a.core (captureChannel port rx beats a ch).core := by
  unfold captureChannel
  dsimp only
  split
  · split
    · exact send_audio_buffer_aside ..
    · exact .refl a.core
  · exact .refl a.core

/-- A TDM frame. -/
theorem tdm_frame_aside (port : Nat) (rx : Nat → UInt16) (beats : Nat → Int64) (a : AudioWorld) :
    Aside a.core (linkAudioOnTdmFrame port rx beats a).core := by
  unfold linkAudioOnTdmFrame
  split
  · exact .refl a.core
  · dsimp only
    have hcapture : ∀ ch ∈ List.range linkTdmChannelsPerPort, ∀ b : AudioWorld,
        Aside a.core b.core → Aside a.core (captureChannel port rx beats b ch).core :=
      fun ch _ b hb => hb.trans (capture_channel_aside port rx beats b ch)
    have hdrain : ∀ i ∈ List.range linkAudioMaxRemote, ∀ b : AudioWorld,
        Aside a.core b.core → Aside a.core (drainSub port b i).core := by
      intro i _ b hb
      refine hb.trans ?_
      unfold drainSub
      split
      · exact .refl b.core
      · split <;> exact .refl b.core
    exact Sweep.inv_sweep hdrain (Sweep.inv_sweep hcapture (.refl a.core))

theorem encode_announcement_aside (peerName : List UInt8) (withPing : Bool) (a : AudioWorld) :
    Aside a.core (encodePeerAnnouncement peerName withPing a).2.core := by
  unfold encodePeerAnnouncement
  dsimp only
  split
  · exact .reading a.core
  · exact .refl a.core

theorem send_announcements_aside (peerName : List UInt8) (a : AudioWorld) :
    Aside a.core (sendAnnouncements peerName a).core := by
  have hone : ∀ peer ∈ a.core.linkPeers, ∀ s : Bool × AudioWorld,
      Aside a.core s.2.core → Aside a.core (announceTo peerName s peer).2.core := by
    intro peer _ s hs
    unfold announceTo
    split
    · exact hs
    · exact (hs.trans (encode_announcement_aside peerName s.1 s.2)).trans (.datagram _ _)
  exact (Sweep.inv_sweep hone (.refl a.core)).trans (.reading _)

/-- `link_audio_tick`. -/
theorem audio_tick_aside (peerName : List UInt8) (a : AudioWorld) :
    Aside a.core (linkAudioTick peerName a).core := by
  unfold linkAudioTick
  dsimp only
  have hone : ∀ i ∈ List.range linkAudioMaxRemote, ∀ b : AudioWorld,
      Aside a.core b.core → Aside a.core (requestAgain a.core.clock.now b i).core := by
    intro i _ b hb
    refine hb.trans ?_
    unfold requestAgain
    split
    · exact .refl b.core
    · split
      · exact .datagram b.core _
      · exact .refl b.core
  refine Sweep.inv_sweep hone ?_
  · split
    · exact (Aside.reading a.core).trans (send_announcements_aside peerName a.advance)
    · exact .reading a.core

/-- `link_audio_init`. -/
theorem audio_boot_aside (core : World) (numTdmPorts : Nat) :
    Aside core (audioBoot core numTdmPorts).core := by
  have hone : ∀ idx ∈ List.range (audioPowerOn core numTdmPorts).maxLocalChannels,
      ∀ b : AudioWorld, Aside core b.core → Aside core ((b.setLocal idx (localEntry b
        (idx / linkTdmChannelsPerPort) (idx % linkTdmChannelsPerPort))).advance).core :=
    fun _ _ b hb => hb.trans (.reading b.core)
  unfold audioBoot linkAudioInit
  exact Sweep.inv_sweep hone (.refl core)

/-! ## The admin page and the sync sources -/

/-- The handlers of the core that served in between all served events of a kind. -/
def DoesOnly (p : Event → Prop) (w w' : World) : Prop := ∃ es, (∀ e ∈ es, p e) ∧ Does es w w'

namespace DoesOnly

variable {p : Event → Prop} {a b c : World}

theorem aside (h : Aside a b) : DoesOnly p a b :=
  ⟨[], fun _ he => absurd he List.not_mem_nil, h.does⟩

theorem refl (w : World) : DoesOnly p w w := aside (.refl w)

theorem own (w : World) {e : Event} (he : p e) : DoesOnly p w (step w e) :=
  ⟨[e], fun _ h => List.mem_singleton.mp h ▸ he, .own w e⟩

theorem trans (h : DoesOnly p a b) (h' : DoesOnly p b c) : DoesOnly p a c := by
  obtain ⟨es, hes, h⟩ := h
  obtain ⟨es', hes', h'⟩ := h'
  exact ⟨es ++ es', fun e he => (List.mem_append.mp he).elim (hes e) (hes' e), h.trans h'⟩

end DoesOnly

/-- What the admin page can ask the core for. -/
def Event.OfPage : Event → Prop
  | .setLocalTempo _ | .setPlay _ => True
  | _ => False

/-- What the sync sources can ask the core for. -/
def Event.OfSource : Event → Prop
  | .setLocalTempo _ | .setPlay _ | .euroReset => True
  | _ => False

variable {cfg : WebConfig}

/-- A handler of the page. -/
theorem web_route_does (hnan : ∃ bpm, cfg.setTempoNan = linkSetLocalTempo bpm)
    {route : Route WebDevice} (hroute : route ∈ webuiInit cfg) (path body : List UInt8)
    (blen : UInt32) (resp : HttpResponse) (d : WebDevice) :
    DoesOnly Event.OfPage d.core (route.fn path body blen resp d).2.core := by
  obtain ⟨bpm, hnan⟩ := hnan
  have htempo (bpm : Rat) : DoesOnly Event.OfPage d.core (linkSetLocalTempo bpm d.core) :=
    .own d.core (e := .setLocalTempo bpm) trivial
  have hplay (play : Bool) : DoesOnly Event.OfPage d.core (linkSetPlay play d.core) :=
    .own d.core (e := .setPlay play) trivial
  rw [webuiInit, add_routes _ _ (by simp [maxRoutes]), List.nil_append] at hroute
  obtain ⟨listed, hlisted, rfl⟩ := List.mem_map.mp hroute
  simp only [List.mem_cons, List.not_mem_nil, or_false] at hlisted
  rcases hlisted with rfl | rfl | rfl | rfl | rfl | rfl | rfl | rfl | rfl
  · exact .refl d.core
  · exact .aside (.reading d.core)
  · exact .refl d.core
  · dsimp only
    unfold postTempo
    split
    · show DoesOnly _ d.core (cfg.setTempoNan d.core)
      rw [hnan]
      exact htempo bpm
    · exact .refl d.core
    · split
      · exact .refl d.core
      · exact htempo _
  · exact hplay true
  · exact hplay false
  · exact .refl d.core
  · dsimp only
    unfold postSubscribe
    split
    · exact .refl d.core
    · split
      · exact .refl d.core
      · show DoesOnly _ d.core (linkAudioSubscribe _ _ _ d.web.audio).1.core
        unfold linkAudioSubscribe
        repeat' split
        all_goals exact .refl d.core
  · dsimp only
    unfold postUnsubscribe
    split
    · exact .refl d.core
    · show DoesOnly _ d.core (linkAudioUnsubscribe _ d.web.audio).1.core
      unfold linkAudioUnsubscribe
      split
      · exact .refl d.core
      · exact .aside (.datagram d.core _)

/-- A segment of a request. -/
theorem recv_segment_does (hnan : ∃ bpm, cfg.setTempoNan = linkSetLocalTempo bpm) (cs : ConnState)
    (bytes : List UInt8) (d : WebDevice) :
    DoesOnly Event.OfPage d.core (recvSegment (webuiInit cfg) cs bytes d).2.1.core := by
  have hdispatch (cs : ConnState) :
      DoesOnly Event.OfPage d.core (dispatch (webuiInit cfg) cs d).2.core := by
    unfold dispatch
    split
    · exact .refl d.core
    · split
      · exact .refl d.core
      · exact web_route_does hnan (List.mem_of_find?_eq_some ‹_›) ..
  unfold recvSegment onRecv
  dsimp only
  split
  · exact .refl d.core
  · generalize (if (!(cs.append bytes).haveHeaders) = true then parseHeaders (cs.append bytes)
      else cs.append bytes) = parsed
    split
    · exact .refl d.core
    · exact hdispatch parsed

/-- `midi_tick`. -/
theorem midi_tick_does (i : MidiInputs) (s : SyncWorld) :
    DoesOnly Event.OfSource s.core (midiTick i s).core := by
  have htempo (s : SyncWorld) (bpm : Rat) :
      DoesOnly Event.OfSource s.core (linkSetLocalTempo bpm s.core) :=
    .own s.core (e := .setLocalTempo bpm) trivial
  have hplay (s : SyncWorld) (play : Bool) :
      DoesOnly Event.OfSource s.core (linkSetPlay play s.core) :=
    .own s.core (e := .setPlay play) trivial
  unfold midiTick midiRtEvent
  dsimp only
  split
  · exact .refl s.core
  split
  · split
    · exact htempo s _
    · exact .refl s.core
  split
  · split
    · exact hplay s true
    · exact .refl s.core
  split
  · split
    · exact hplay s false
    · exact .refl s.core
  · exact .refl s.core

/-- `euro_tick`. -/
theorem euro_tick_does (i : EuroInputs) (s : SyncWorld) :
    DoesOnly Event.OfSource s.core (euroTick i s).core := by
  have hclock (s : SyncWorld) : DoesOnly Event.OfSource s.core (euroClock i s).core := by
    unfold euroClock
    split
    · dsimp only
      split
      · exact .own s.core (e := .setLocalTempo s.euro.bpm) trivial
      · exact .refl s.core
    · exact .refl s.core
  have hreset (s : SyncWorld) : DoesOnly Event.OfSource s.core (euroReset i s).core := by
    unfold euroReset
    split
    · dsimp only
      split
      · exact .own s.core (e := .euroReset) trivial
      · exact .refl s.core
    · exact .refl s.core
  have hrun (s : SyncWorld) : DoesOnly Event.OfSource s.core (euroRun i s).core := by
    unfold euroRun
    dsimp only
    split
    · split
      · exact .own s.core (e := .setPlay _) trivial
      · exact .refl s.core
    · exact .refl s.core
  let measured : SyncWorld := { s with euro := euroMeasure i s.euro }
  have hedges := (hclock measured).trans (hreset (euroClock i measured))
  exact hedges.trans (hrun (euroReset i (euroClock i measured)))

/-! ## One pass -/

/-- What the core is asked for when this comes in. -/
def Callback.Asks {κ : Type} : Callback κ → List Event → Prop
  | .udp buf srcAddr srcPort, es =>
      es = if buf.length ≤ 1500 then [.udp buf srcAddr srcPort] else []
  | .segment _ _, es => ∀ e ∈ es, e.OfPage
  | .localAddress v4 v6, es => es = [.localAddress v4 v6]
  | .accept _, es | .closed _, es | .sysNow, es => es = []

/-- In a pass the core is asked for what has come in, for its two ticks, and for what the sync
sources want, in this order. -/
def OfPass {κ : Type} (p : Pass κ) (es : List Event) : Prop :=
  ∃ arrived wanted, List.Forall₂ Callback.Asks p.arrivals arrived ∧ (∀ e ∈ wanted, e.OfSource) ∧
    es = arrived.flatten ++ [.linkTick, .sessionTick] ++ wanted

/-- `on_udp_rx` on the whole state: the core serves the datagram, or ignores it. -/
theorem on_datagram_does (buf : List UInt8) (srcAddr : UInt32) (srcPort : UInt16)
    (a : AudioWorld) :
    Does [.udp buf srcAddr srcPort] a.core (onDatagram buf srcAddr srcPort a).core := by
  have hown : Does [.udp buf srcAddr srcPort] a.core (onUdpRx buf srcAddr srcPort a.core) :=
    .own a.core (.udp buf srcAddr srcPort)
  unfold onUdpRx at hown
  unfold onDatagram
  split
  · rename_i hshort
    rwa [if_pos hshort] at hown
  · rename_i hlong
    rw [if_neg hlong] at hown
    split
    · rename_i hdiscovery
      rwa [if_pos hdiscovery] at hown
    · rename_i hdiscovery
      rw [if_neg hdiscovery] at hown
      split
      · rename_i hlink
        rwa [if_pos hlink] at hown
      · rename_i hlink
        rw [if_neg hlink] at hown
        split
        · exact hown.trans (audio_rx_aside ..).does
        · exact hown

theorem serve_tdm_aside {κ : Type} (p : PortPass) (port : Nat) (d : Device κ) :
    Aside d.core (serveTdm p port d).core := by
  unfold serveTdm
  dsimp only
  split
  · exact tdm_frame_aside port p.rx p.beats d.audio
  · exact .refl d.core

/-- The loop over the ports. -/
theorem serve_ports_aside {κ : Type} (ports : Nat → PortPass) (l : List Nat) (d : Device κ) :
    Aside d.core (l.foldl (fun d port => serveTdm (ports port) port d) d).core :=
  have hone : ∀ port ∈ l, ∀ d' : Device κ,
      Aside d.core d'.core → Aside d.core (serveTdm (ports port) port d').core :=
    fun port _ d' hd' => hd'.trans (serve_tdm_aside (ports port) port d')
  Sweep.inv_sweep hone (.refl d.core)

theorem set_audio_core {κ : Type} (audio : AudioWorld) (d : Device κ) :
    (d.setAudio audio).core = audio.core := rfl

theorem set_sync_core {κ : Type} (s : SyncWorld) (d : Device κ) : (d.setSync s).core = s.core := rfl

theorem set_core_core {κ : Type} (core : World) (d : Device κ) : (d.setCore core).core = core := rfl

/-- `link_tick` and `session_tick`. -/
theorem ticks_do {κ : Type} (d : Device κ) : Does [.linkTick, .sessionTick] d.core
    ((d.setCore (linkTick d.core)).setCore
      (sessionTick (d.setCore (linkTick d.core)).core)).core := by
  rw [set_core_core, set_core_core]
  exact (Does.own d.core .linkTick).trans (.own (linkTick d.core) .sessionTick)

theorem audio_does {κ : Type} (d : Device κ) :
    Does [] d.core (d.setAudio (linkAudioTick audioPeerName d.audio)).core := by
  rw [set_audio_core]
  exact (audio_tick_aside audioPeerName d.audio).does

theorem midi_does {κ : Type} (i : MidiInputs) (d : Device κ) :
    DoesOnly Event.OfSource d.core (d.setSync (midiTick i d.sync)).core := by
  rw [set_sync_core]
  exact midi_tick_does i d.sync

theorem euro_does {κ : Type} (i : EuroInputs) (d : Device κ) :
    DoesOnly Event.OfSource d.core (d.setSync (euroTick i d.sync)).core := by
  rw [set_sync_core]
  exact euro_tick_does i d.sync

variable {κ : Type} [DecidableEq κ]

theorem net_poll_does (hnan : ∃ bpm, cfg.setTempoNan = linkSetLocalTempo bpm) (d : Device κ)
    (arrival : Callback κ) :
    ∃ es, arrival.Asks es ∧ Does es d.core (netPoll cfg d arrival).core := by
  cases arrival with
  | udp buf srcAddr srcPort =>
      refine ⟨_, rfl, ?_⟩
      show Does _ d.core (udpRxHandler buf srcAddr srcPort d.audio).core
      unfold udpRxHandler
      split
      · exact on_datagram_does ..
      · exact .refl d.core
  | accept k => exact ⟨[], rfl, .refl d.core⟩
  | segment k bytes =>
      show DoesOnly Event.OfPage d.core
        (httpServe (webuiInit cfg) d.http (.receive k bytes)).state.web.audio.core
      unfold httpServe Sessions.serve
      dsimp only
      split
      · exact .refl d.core
      · exact recv_segment_does hnan _ bytes d.http.state
  | closed k => exact ⟨[], rfl, .refl d.core⟩
  | localAddress v4 v6 => exact ⟨_, rfl, .own d.core (.localAddress v4 v6)⟩
  | sysNow => exact ⟨[], rfl, (Aside.reading d.core).does⟩

/-- The callbacks of a pass. -/
theorem arrivals_do (hnan : ∃ bpm, cfg.setTempoNan = linkSetLocalTempo bpm)
    (arrivals : List (Callback κ)) (d : Device κ) :
    ∃ arrived, List.Forall₂ Callback.Asks arrivals arrived ∧
      Does arrived.flatten d.core (arrivals.foldl (netPoll cfg) d).core := by
  induction arrivals generalizing d with
  | nil => exact ⟨[], .nil, .refl d.core⟩
  | cons arrival arrivals ih =>
      obtain ⟨es, hes, hfirst⟩ := net_poll_does hnan d arrival
      obtain ⟨arrived, harrived, hrest⟩ := ih (netPoll cfg d arrival)
      exact ⟨es :: arrived, .cons hes harrived, hfirst.trans hrest⟩

/-- One pass of the loop, for the core. -/
theorem main_loop_does (hnan : ∃ bpm, cfg.setTempoNan = linkSetLocalTempo bpm) (d : Device κ)
    (p : Pass κ) : ∃ es, OfPass p es ∧ Does es d.core (mainLoop cfg d p).core := by
  obtain ⟨arrived, harrived, hpolled⟩ := arrivals_do hnan p.arrivals d
  unfold mainLoop
  dsimp only
  generalize p.arrivals.foldl (netPoll cfg) d = polled at hpolled ⊢
  have hticks := hpolled.trans (ticks_do polled)
  generalize (polled.setCore (linkTick polled.core)).setCore
    (sessionTick (polled.setCore (linkTick polled.core)).core) = ticked at hticks ⊢
  have haudio := hticks.trans (audio_does ticked)
  generalize ticked.setAudio (linkAudioTick audioPeerName ticked.audio) = sounded at haudio ⊢
  obtain ⟨byMidi, hbyMidi, hmidi⟩ := midi_does p.midi sounded
  generalize sounded.setSync (midiTick p.midi sounded.sync) = played at hmidi ⊢
  obtain ⟨byEuro, hbyEuro, heuro⟩ := euro_does (p.euro.atPpqn played.euro.ppqn) played
  generalize played.setSync (euroTick (p.euro.atPpqn played.euro.ppqn) played.sync) = clocked
    at heuro ⊢
  have hserved := serve_ports_aside p.ports (List.range clocked.tdm.numTdmPorts) clocked
  have hall := ((haudio.trans hmidi).trans heuro).trans hserved.does
  rw [List.append_nil, List.append_nil, List.append_assoc] at hall
  refine ⟨_, ⟨arrived, byMidi ++ byEuro, harrived, ?_, rfl⟩, hall⟩
  exact fun e he => (List.mem_append.mp he).elim (hbyMidi e) (hbyEuro e)

/-! ## Whole runs -/

/-- The loop, for the core. -/
theorem run_does (hnan : ∃ bpm, cfg.setTempoNan = linkSetLocalTempo bpm) (d : Device κ)
    (passes : List (Pass κ)) : ∃ asked, List.Forall₂ OfPass passes asked ∧
      Does asked.flatten d.core (run (mainLoop cfg) d passes).core := by
  induction passes generalizing d with
  | nil => exact ⟨[], .nil, .refl d.core⟩
  | cons p passes ih =>
      obtain ⟨es, hes, hpass⟩ := main_loop_does hnan d p
      obtain ⟨asked, hasked, hrest⟩ := ih (mainLoop cfg d p)
      exact ⟨es :: asked, .cons hes hasked, hpass.trans hrest⟩

/-- Initialisation is a turn of the core. -/
theorem boot_turn (reading : Nat → UInt64) (v4 : UInt32) (v6 : List UInt8) :
    (boot reading v4 v6).clock.reading = reading ∧
      turn coreMachine reading (powerOn reading v4 v6).progress none =
        (boot reading v4 v6).progress :=
  core_turn_shifted (powerOn reading v4 v6) none

/-- Two states that differ in the clock and in what was sent only. -/
theorem eq_on_of_bare {w w' : World} (h : w'.bare = w.bare) : w = w'.on w.clock w.sent := by
  have hback : w.bare.on w.clock w.sent = w := rfl
  rw [← hback, ← h]
  rfl

/-- The start of the firmware, for the core. -/
theorem link_app_main_does {κ : Type} (s : Start) :
    Does [.broadcastAliveNow] (boot s.reading s.v4 s.v6) (linkAppMain s : Device κ).core := by
  have haudio := audio_boot_aside (boot s.reading s.v4 s.v6) s.numTdmPorts
  exact haudio.does.trans (.own (audioBoot (boot s.reading s.v4 s.v6) s.numTdmPorts).core
    .broadcastAliveNow)

/-- The core alone on the items of the clock that it reads. -/
theorem run_core_events (w : World) (es : List Event) :
    run coreTurn w (es.map some) = run step w es :=
  List.foldl_map

/-- A pass in which nothing comes in. -/
def quietPass : Pass Unit where
  arrivals := []
  midi := ⟨0, false, 0, 0, 0, 0⟩
  euro := ⟨0, 0, 0, 0, 0, 0⟩
  ports := fun _ => ⟨[], fun _ => 0, fun _ => 0, []⟩

/-- A pass in which a browser sends the command to play. -/
def playPass : Pass Unit :=
  let request := bytesOf "POST /api/play HTTP/1.0\r\nContent-Length: 0\r\n\r\n"
  { quietPass with arrivals := [.accept (), .segment () request] }

/-- A clock that counts milliseconds. -/
def benchStart : Start := ⟨fun i => .ofNat (1000 * i), 0, [], 1, 0, 0, 0, 0⟩

def tunedPage : WebConfig := { pageConfig with setTempoNan := linkSetLocalTempo 120 }

end LinkFPGA
