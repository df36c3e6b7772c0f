import LinkFPGA.Library.Runs
import LinkFPGA.Firmware.AudioCatalog

/-!
# Receiving, capturing and playing (`link_audio.c`)

`link_audio_handle_rx` dispatches a datagram to its handler. `link_audio_on_tdm_frame` captures
one sample of every channel of a port and plays one sample of every subscription routed to it. A
run of the module is a list of `AudioEvent`s in any order.
-/

namespace LinkFPGA

/-- `link_audio_handle_rx(buf, len, src_addr, src_port)`. -/
def linkAudioHandleRx (buf : UInt32 → UInt8) (len : UInt32) (srcAddr : UInt32) (srcPort : UInt16)
    (w : AudioWorld) : AudioWorld :=
  if len < 8 + 12 then w
  else if bytesAt buf 0 8 ≠ kProtoAudio then w
  else
    let mtype := buf 8
    let senderId := LinkId.ofBytes (bytesAt buf 12 8)
    if senderId = w.core.linkSelfId then w
    else
      let bodylen := len - 20
      let body := bytesAt buf 20 bodylen.toNat
      if mtype = 1 then handlePeerAnnouncement senderId srcAddr srcPort body w
      else if mtype = 2 then (tlvWalk handleAucbEntry body w).1
      else if mtype = 4 ∨ mtype = 5 then
        handleChannelRequest mtype senderId srcAddr srcPort body w
      else if mtype = 6 then (handleAudioBuffer (fun off => buf (20 + off)) bodylen w).1
      else w

/-! ## One TDM frame -/

/-- The first local channel wired to a port and channel. -/
def findLocalAt (w : AudioWorld) (port ch : Nat) : Option Nat :=
  w.linkAudioLocal.findIdx? fun lc =>
    lc.inUse && lc.tdmPort = (port : Int) && lc.tdmChannel = (ch : Int)

/-- One iteration of the capture loop of `link_audio_on_tdm_frame`. `rx` is what `tdm_read_rx`
returns for each channel of the port, and `beats` the `beats_first` of each channel. -/
def captureChannel (port : Nat) (rx : Nat → UInt16) (beats : Nat → Int64) (w : AudioWorld)
    (ch : Nat) : AudioWorld :=
  let pos := w.sTxPktPos (port, ch)
  let buf := (w.sTxPktBuf (port, ch)).setIfInBounds pos.toNat (rx ch)
  let pos := pos + 1
  let w := { w with sTxPktBuf := Function.update w.sTxPktBuf (port, ch) buf }
  if pos = audioFramesPerPkt then
    let w := match findLocalAt w port ch with
      | some i => sendAudioBufferFor i buf.toList (beats ch) w
      | none => w
    { w with sTxPktPos := Function.update w.sTxPktPos (port, ch) 0 }
  else { w with sTxPktPos := Function.update w.sTxPktPos (port, ch) pos }

/-- What the drain loop does to a subscription of the port, and the sample it plays. -/
def AudioSub.drain (sub : AudioSub) : AudioSub × Option UInt16 :=
  if sub.jbufR ≠ sub.jbufW then
    ({ sub with jbufR := sub.jbufR + 1 },
      some (sub.jbuf.get ⟨(sub.jbufR % linkAudioJbufLen).toNat,
        UInt32.lt_iff_toNat_lt.mp (UInt32.mod_lt _ (by decide))⟩))
  else (sub, none)

/-- One iteration of the drain loop of `link_audio_on_tdm_frame`. -/
def drainSub (port : Nat) (w : AudioWorld) (i : Nat) : AudioWorld :=
  match w.linkAudioSubs[i]? with
  | none => w
  | some sub =>
      if sub.inUse = false ∨ sub.tdmPort ≠ port then w
      else
        { w.setSub i sub.drain.1 with
          tdmTx := w.tdmTx ++
            (sub.drain.2.map (TdmWrite.mk i sub.tdmPort sub.tdmChannel)).toList }

/-- `link_audio_on_tdm_frame(port)`. -/
def linkAudioOnTdmFrame (port : Nat) (rx : Nat → UInt16) (beats : Nat → Int64) (w : AudioWorld) :
    AudioWorld :=
  if w.numTdmPorts ≤ port then w
  else
    let w := (List.range linkTdmChannelsPerPort).foldl (captureChannel port rx beats) w
    (List.range linkAudioMaxRemote).foldl (drainSub port) w

/-! ## Runs -/

/-- What can happen next to the audio state. -/
inductive AudioEvent where
  /-- A datagram handed to `link_audio_handle_rx`. -/
  | rx (buf : UInt32 → UInt8) (len : UInt32) (srcAddr : UInt32) (srcPort : UInt16)
  /-- `link_audio_on_tdm_frame`, with the samples captured and the `beats_first` computed. -/
  | tdmFrame (port : Nat) (rx : Nat → UInt16) (beats : Nat → Int64)
  /-- The rest of the firmware runs and leaves this state. -/
  | other (core : World)

/-- One handler call. -/
def audioStep (w : AudioWorld) : AudioEvent → AudioWorld
  | .rx buf len srcAddr srcPort => linkAudioHandleRx buf len srcAddr srcPort w
  | .tdmFrame port rx beats => linkAudioOnTdmFrame port rx beats w
  | .other core => { w with core := core }

/-- The state after the events. -/
abbrev runAudio (w : AudioWorld) (es : List AudioEvent) : AudioWorld := Runs.run audioStep w es

end LinkFPGA
