import LinkFPGA.Firmware.Main
import LinkFPGA.Firmware.SyncSources
import LinkFPGA.Firmware.Tdm
import LinkFPGA.Firmware.WebUi

/-!
# The whole firmware (`main.c`, `net.c`)

`link_app_main` on the state of all modules: its start, and one pass of its loop. What a pass meets
from outside is its argument: what lwIP hands out during `net_poll`, the registers of the sync
inputs, and what the TDM cores complete and capture.
-/

namespace LinkFPGA

open Sessions

/-! ## The state -/

/-- The state of all modules, with a connection for each name of `κ`. -/
structure Device (κ : Type) where
  /-- `http_server.c`, and behind it `webui.c`, `link_audio.c` and the rest. -/
  http : Server κ ConnState WebDevice HttpResponse
  midi : MidiState
  euro : EuroState
  tdm : Tdm

namespace Device

variable {κ : Type}

def audio (d : Device κ) : AudioWorld := d.http.state.web.audio

def core (d : Device κ) : World := d.audio.core

/-- Another state of `link_audio.c` and what is behind it. -/
def setAudio (audio : AudioWorld) (d : Device κ) : Device κ :=
  { d with http := { d.http with
    state := { d.http.state with web := { d.http.state.web with audio := audio } } } }

/-- Another state of the rest. -/
def setCore (core : World) (d : Device κ) : Device κ := d.setAudio { d.audio with core := core }

/-- The sync sources and what they act on. -/
def sync (d : Device κ) : SyncWorld := ⟨d.core, d.midi, d.euro⟩

/-- Another state of them. -/
def setSync (s : SyncWorld) (d : Device κ) : Device κ :=
  { d.setCore s.core with
    midi := s.midi
    euro := s.euro }

/-- The cores of these ports complete a frame. -/
def completeFrames (ports : List Nat) (d : Device κ) : Device κ :=
  { d with tdm := ports.foldl (fun t port => t.completeFrame port) d.tdm }

end Device

/-! ## Receiving -/

/-- `on_udp_rx`, with all its branches. -/
def onDatagram (buf : List UInt8) (srcAddr : UInt32) (srcPort : UInt16) (a : AudioWorld) :
    AudioWorld :=
  if buf.length < 8 then a
  else if buf.take 8 = kProtoHdr then { a with core := linkHandleRx buf srcAddr srcPort a.core }
  else if buf.take 8 = kProtoLink then
    let measured := measurementHandleRx a.core.clock a.core.meas buf srcAddr srcPort
    { a with core := answerPing buf srcAddr srcPort (applyMeas measured a.core) }
  else if buf.take 8 = kProtoAudio then
    linkAudioHandleRx (memOf buf) (.ofNat buf.length) srcAddr srcPort a
  else a

/-- `udp_rx_handler`, for a datagram from an IPv4 address, or with the address 0. -/
def udpRxHandler (buf : List UInt8) (srcAddr : UInt32) (srcPort : UInt16) (a : AudioWorld) :
    AudioWorld :=
  if buf.length ≤ 1500 then onDatagram buf srcAddr srcPort a else a

/-- What lwIP can call in the firmware. -/
inductive Callback (κ : Type) where
  | udp (buf : List UInt8) (srcAddr : UInt32) (srcPort : UInt16)
  /-- A connection to the HTTP server is opened. -/
  | accept (k : κ)
  /-- `on_recv` with data. -/
  | segment (k : κ) (bytes : List UInt8)
  /-- `on_recv` with an error, or without data. -/
  | closed (k : κ)
  /-- Other local addresses. -/
  | localAddress (v4 : UInt32) (v6 : List UInt8)
  /-- `sys_now`. -/
  | sysNow

variable {κ : Type} [DecidableEq κ]

/-- One callback during `net_poll`. -/
def netPoll (cfg : WebConfig) (d : Device κ) : Callback κ → Device κ
  | .udp buf srcAddr srcPort => d.setAudio (udpRxHandler buf srcAddr srcPort d.audio)
  | .accept k => { d with http := httpServe (webuiInit cfg) d.http (.connect k) }
  | .segment k bytes => { d with http := httpServe (webuiInit cfg) d.http (.receive k bytes) }
  | .closed k => { d with http := httpServe (webuiInit cfg) d.http (.disconnect k) }
  | .localAddress v4 v6 => d.setCore { d.core with localIpv4 := v4, localIpv6 := v6 }
  | .sysNow => d.setCore d.core.advance

/-! ## The loop -/

/-- What the loop meets at a port. -/
structure PortPass where
  /-- The ports that complete a frame before the port is looked at. -/
  before : List Nat
  /-- The samples captured, and the values of `beats_first`. -/
  rx : Nat → UInt16
  beats : Nat → Int64
  /-- The ports that complete a frame while the port is served. -/
  meanwhile : List Nat

/-- What one pass of the loop meets. -/
structure Pass (κ : Type) where
  arrivals : List (Callback κ)
  midi : MidiInputs
  euro : EuroInputs
  ports : Nat → PortPass

/-- The body of the loop over the ports. -/
def serveTdm (p : PortPass) (port : Nat) (d : Device κ) : Device κ :=
  let d := d.completeFrames p.before
  if tdmFramePending port d.tdm then
    let d := (d.setAudio (linkAudioOnTdmFrame port p.rx p.beats d.audio)).completeFrames p.meanwhile
    { d with tdm := tdmClearFramePending port d.tdm }
  else d

/-- One pass of the loop of `link_app_main`. -/
def mainLoop (cfg : WebConfig) (d : Device κ) (p : Pass κ) : Device κ :=
  let d := p.arrivals.foldl (netPoll cfg) d
  let d := d.setCore (linkTick d.core)
  let d := d.setCore (sessionTick d.core)
  let d := d.setAudio (linkAudioTick audioPeerName d.audio)
  let d := d.setSync (midiTick p.midi d.sync)
  let d := d.setSync (euroTick (p.euro.atPpqn d.euro.ppqn) d.sync)
  (List.range d.tdm.numTdmPorts).foldl (fun d port => serveTdm (p.ports port) port d) d

/-! ## The start -/

/-- What the firmware finds when it starts. -/
structure Start where
  reading : Nat → UInt64
  v4 : UInt32
  v6 : List UInt8
  numTdmPorts : Nat
  /-- The counts and the level of the Eurorack inputs. -/
  clkCount : UInt32
  rstCount : UInt32
  runCount : UInt32
  euroStatus : UInt32

/-- `link_app_main` up to its loop. -/
def linkAppMain (s : Start) : Device κ :=
  let audio := audioBoot (boot s.reading s.v4 s.v6) s.numTdmPorts
  let sync := syncInit audio.core s.clkCount s.rstCount s.runCount s.euroStatus
  let d : Device κ :=
    { http := .idle ⟨webBoot audio, List.replicate sRespBufMax 0⟩
      midi := sync.midi
      euro := sync.euro
      tdm := ⟨s.numTdmPorts, fun _ => 0, fun _ => 0⟩ }
  d.setCore (linkBroadcastAliveNow d.core)

end LinkFPGA
