import Mathlib.Logic.Function.Basic
import LinkFPGA.Firmware.World

/-!
# The tables of Link-Audio (`link_audio.h`)

The records of `link_audio.h` and the statics of `link_audio.c`. `LINK_NUM_TDM_PORTS` is a build
parameter, so it is a field of the state. An array whose size the firmware relies on is a
`Vector`; a `char[32]` is the string before its NUL.
-/

namespace LinkFPGA

/-! ## Constants -/

def linkTdmChannelsPerPort : Nat := 16
def linkTdmFsHz : UInt32 := 48000
def linkAudioNameMax : Nat := 32
def linkAudioJbufLen : UInt32 := 1024
def linkAudioMaxSubPer : Nat := 8
def linkAudioMaxRemote : Nat := 64
def audioFramesPerPkt : UInt32 := 64

/-- `"chnnlsv\x01"`. -/
def kProtoAudio : List UInt8 := [0x63, 0x68, 0x6E, 0x6E, 0x6C, 0x73, 0x76, 1]

/-! ## Records -/

/-- One entry of the parallel arrays `sub_addr`, `sub_port` and `sub_peer`. -/
structure Subscriber where
  addr : UInt32
  port : UInt16
  peer : LinkId
  deriving DecidableEq, Repr

/-- A channel we publish (`link_audio_local_t`). -/
structure AudioLocal where
  inUse : Bool
  channelId : LinkId
  name : List UInt8
  tdmPort : Int
  tdmChannel : Int
  nextSendCount : UInt64
  numSubscribers : Nat
  subscribers : Vector Subscriber linkAudioMaxSubPer

/-- A channel another peer has announced (`link_audio_remote_t`). -/
structure AudioRemote where
  inUse : Bool
  peerId : LinkId
  channelId : LinkId
  name : List UInt8
  endpointAddr : UInt32
  endpointPort : UInt16
  lastSeenUs : UInt64
  deriving DecidableEq, Repr

/-- A channel we have subscribed to (`link_audio_sub_t`). `jbufW` and `jbufR` count the samples
written and read, modulo 2^32; the index into `jbuf` is the counter modulo its length. -/
structure AudioSub where
  inUse : Bool
  channelId : LinkId
  sourcePeer : LinkId
  sourceAddr : UInt32
  sourcePort : UInt16
  tdmPort : Int
  tdmChannel : Int
  /-- When to ask for the channel again. -/
  nextRequestUs : UInt64
  lastCount : UInt64
  numChanRemote : UInt8
  jbuf : Vector UInt16 linkAudioJbufLen.toNat
  jbufW : UInt32
  jbufR : UInt32

/-- The record left by `memset(.., 0, ..)`. -/
def AudioLocal.zero : AudioLocal where
  inUse := false
  channelId := .zero
  name := []
  tdmPort := 0
  tdmChannel := 0
  nextSendCount := 0
  numSubscribers := 0
  subscribers := .replicate _ ⟨0, 0, .zero⟩

def AudioRemote.zero : AudioRemote where
  inUse := false
  peerId := .zero
  channelId := .zero
  name := []
  endpointAddr := 0
  endpointPort := 0
  lastSeenUs := 0

def AudioSub.zero : AudioSub where
  inUse := false
  channelId := .zero
  sourcePeer := .zero
  sourceAddr := 0
  sourcePort := 0
  tdmPort := 0
  tdmChannel := 0
  nextRequestUs := 0
  lastCount := 0
  numChanRemote := 0
  jbuf := .replicate _ 0
  jbufW := 0
  jbufR := 0

/-! ## The state -/

/-- An AudioBuffer that `send_audio_buffer_for` put together, with the index of its channel in
`link_audio_local` and the endpoints it was sent to. -/
structure SentBuffer where
  channel : Nat
  buf : List UInt8
  endpoints : List (UInt32 × UInt16)
  deriving DecidableEq, Repr

/-- A call of `tdm_write_tx`, with the index in `link_audio_subs` of the subscription that made
it. -/
structure TdmWrite where
  sub : Nat
  port : Int
  channel : Int
  sample : UInt16
  deriving DecidableEq, Repr

/-- The globals and statics of `link_audio.c` beside those of the rest of the firmware. The
statics `s_tx_pkt_buf` and `s_tx_pkt_pos` are indexed by port and channel. -/
structure AudioWorld where
  core : World
  /-- `LINK_NUM_TDM_PORTS`. -/
  numTdmPorts : Nat
  linkAudioLocal : List AudioLocal
  linkAudioRemote : List AudioRemote
  linkAudioSubs : List AudioSub
  sLastAnnounceUs : UInt64
  sTxPktBuf : Nat × Nat → Vector UInt16 audioFramesPerPkt.toNat
  sTxPktPos : Nat × Nat → UInt32
  /-- Every AudioBuffer sent so far. The datagrams themselves are in `core.sent`. -/
  sentBuffers : List SentBuffer
  /-- Every write to a TDM transmit slot so far. -/
  tdmTx : List TdmWrite

namespace AudioWorld

/-- `LINK_MAX_CHANNELS`. -/
def maxLocalChannels (w : AudioWorld) : Nat := w.numTdmPorts * linkTdmChannelsPerPort

/-- The state after one call of `host_time_us()`, which returns `w.core.clock.now`. -/
def advance (w : AudioWorld) : AudioWorld := { w with core := w.core.advance }

/-- Hand a datagram to the network layer. -/
def send (w : AudioWorld) (d : Datagram) : AudioWorld := { w with core := w.core.send d }

/-- Write one entry of `link_audio_local`. -/
def setLocal (w : AudioWorld) (i : Nat) (c : AudioLocal) : AudioWorld :=
  { w with linkAudioLocal := w.linkAudioLocal.set i c }

/-- Write one entry of `link_audio_subs`. -/
def setSub (w : AudioWorld) (i : Nat) (sub : AudioSub) : AudioWorld :=
  { w with linkAudioSubs := w.linkAudioSubs.set i sub }

end AudioWorld

/-! ## `link_audio_init` -/

/-- `random_id` at a reading of the host clock. -/
def randomId (t : UInt64) : LinkId :=
  ⟨(List.range 8).map fun i =>
    (t >>> (UInt64.ofNat i * 8)).toUInt8 ^^^ (0xa5 + UInt8.ofNat i * 7), by simp⟩

/-- `snprintf(name, LINK_AUDIO_NAME_MAX, "tdm%d-ch%02d", port, ch)`. -/
def localName (port ch : Nat) : List UInt8 :=
  let digits := toString ch
  let text := "tdm" ++ toString port ++ "-ch" ++ (if ch < 10 then "0" ++ digits else digits)
  (text.toUTF8.toList).take (linkAudioNameMax - 1)

/-- The entry that `link_audio_init` writes for one port and channel. -/
def localEntry (w : AudioWorld) (port ch : Nat) : AudioLocal :=
  { AudioLocal.zero with
    inUse := true
    tdmPort := port
    tdmChannel := ch
    channelId := randomId w.core.clock.now
    name := localName port ch }

/-- `link_audio_init`: the tables are cleared, and then every channel of every port gets an entry
of its own. -/
def linkAudioInit (w : AudioWorld) : AudioWorld :=
  let cleared := { w with
    linkAudioLocal := List.replicate w.maxLocalChannels .zero
    linkAudioRemote := List.replicate linkAudioMaxRemote .zero
    linkAudioSubs := List.replicate linkAudioMaxRemote .zero }
  let filled := (List.range w.maxLocalChannels).foldl (fun w idx =>
    (w.setLocal idx
      (localEntry w (idx / linkTdmChannelsPerPort) (idx % linkTdmChannelsPerPort))).advance) cleared
  { filled with sLastAnnounceUs := 0 }

/-- The statics of `link_audio.c` at power-up. -/
def audioPowerOn (core : World) (numTdmPorts : Nat) : AudioWorld where
  core := core
  numTdmPorts := numTdmPorts
  linkAudioLocal := List.replicate (numTdmPorts * linkTdmChannelsPerPort) .zero
  linkAudioRemote := List.replicate linkAudioMaxRemote .zero
  linkAudioSubs := List.replicate linkAudioMaxRemote .zero
  sLastAnnounceUs := 0
  sTxPktBuf := fun _ => .replicate _ 0
  sTxPktPos := fun _ => 0
  sentBuffers := []
  tdmTx := []

/-- The audio state the main loop starts from. -/
def audioBoot (core : World) (numTdmPorts : Nat) : AudioWorld :=
  linkAudioInit (audioPowerOn core numTdmPorts)

end LinkFPGA
