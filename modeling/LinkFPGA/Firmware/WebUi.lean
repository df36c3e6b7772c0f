import LinkFPGA.Firmware.AudioSend
import LinkFPGA.Firmware.HttpServer
import LinkFPGA.Firmware.Link

/-!
# Handlers of the admin page (`webui.c`)

The handlers and the table of routes that `webui_init` makes of them. `webui.c` and `link_audio.c`
have a static `s_peer_name` each.
-/

namespace LinkFPGA

/-! ## The name -/

/-- `"linkfpga"`, which both statics start with. -/
def defaultPeerName : List UInt8 := [0x6C, 0x69, 0x6E, 0x6B, 0x66, 0x70, 0x67, 0x61]

/-- The string in the `s_peer_name` of `link_audio.c`. Nothing writes it. -/
def audioPeerName : List UInt8 := defaultPeerName

/-- The state that the handlers work on: `link_audio.c` with the rest of the firmware, and the
`s_peer_name` of `webui.c`. -/
structure WebWorld where
  audio : AudioWorld
  sPeerName : List UInt8

/-- The state at power-up, for a state of the rest. -/
def webBoot (audio : AudioWorld) : WebWorld where
  audio := audio
  sPeerName := defaultPeerName ++ List.replicate 24 0

/-- The answer of a handler that has done what it was asked for. -/
def okJson (resp : HttpResponse) : HttpResponse :=
  { resp with
    contentType := some "application/json"
    body := "\x7b\"ok\":true\x7d".toUTF8.toList
    bodyLen := 11 }

/-- `post_name`. -/
def postName (_path body : List UInt8) (blen : UInt32) (resp : HttpResponse) (w : WebWorld) :
    HttpResponse × WebWorld :=
  let n := if blen < 31 then blen.toNat else 31
  (okJson resp, { w with
    sPeerName := bytesAt (memOf body) 0 n ++ 0 :: w.sPeerName.drop (n + 1) })

/-- The name in the answer of `serve_status`. -/
def statusName (w : WebWorld) : List UInt8 := CString.text w.sPeerName

/-- What can happen to the name and to the announcements. -/
inductive WebEvent where
  /-- A `POST /api/name`, with the memory at `body` and its length. -/
  | postName (body : List UInt8) (blen : UInt32)
  /-- A `link_audio_tick`, and what the host clock shows to it. -/
  | tick (clock : Clock)
  /-- Another call of `link_audio.c`, or anything else that the firmware does. -/
  | other (audio : AudioWorld)

/-- One event. -/
def webStep (w : WebWorld) : WebEvent → WebWorld
  | .postName body blen => (postName [] body blen (.plain 200 "") w).2
  | .tick clock => { w with audio := linkAudioTick audioPeerName (w.audio.at clock) }
  | .other audio => { w with audio := audio }

/-! ## Channels -/

/-- The size of `s_resp_buf`. -/
def sRespBufMax : Nat := 4096

/-- What `serve_channels` keeps free in it. -/
def respSlack : Nat := 192

/-- `"0123456789abcdef"`. -/
def hexTable : List UInt8 :=
  [0x30, 0x31, 0x32, 0x33, 0x34, 0x35, 0x36, 0x37, 0x38, 0x39, 0x61, 0x62, 0x63, 0x64, 0x65, 0x66]

/-- `node_id_hex`, the string in `out`. -/
def nodeIdHex (id : LinkId) : List UInt8 :=
  id.bytes.flatMap fun b : UInt8 =>
    [byteAt hexTable (b >>> 4).toNat, byteAt hexTable (b &&& 0xf).toNat]

/-- `n += snprintf(s_resp_buf + n, sizeof(s_resp_buf) - n, ..)` of a text, on `s_resp_buf` and
`n`. -/
def respPrint (text : List UInt8) (s : List UInt8 × Nat) : List UInt8 × Nat :=
  let size := (UInt32.ofNat sRespBufMax - UInt32.ofNat s.2).toNat
  let (stored, len) := CString.snprintf size text
  (s.1.take s.2 ++ stored ++ s.1.drop (s.2 + stored.length), s.2 + len)

/-- `{"channels":[`. -/
def channelsOpen : List UInt8 :=
  [0x7B, 0x22, 0x63, 0x68, 0x61, 0x6E, 0x6E, 0x65, 0x6C, 0x73, 0x22, 0x3A, 0x5B]

/-- `]}`. -/
def channelsClose : List UInt8 := [0x5D, 0x7D]

/-- `{"id":"%s","name":"%s","peer":"%s"}` for a catalog entry. -/
def channelText (r : AudioRemote) : List UInt8 :=
  [0x7B, 0x22, 0x69, 0x64, 0x22, 0x3A, 0x22] ++ nodeIdHex r.channelId ++
    [0x22, 0x2C, 0x22, 0x6E, 0x61, 0x6D, 0x65, 0x22, 0x3A, 0x22] ++ r.name ++
    [0x22, 0x2C, 0x22, 0x70, 0x65, 0x65, 0x72, 0x22, 0x3A, 0x22] ++ nodeIdHex r.peerId ++
    [0x22, 0x7D]

/-- The loop of `serve_channels`, on the catalog entries that are left, `s_resp_buf` with `n`, and
`first`. -/
def channelsLoop : List AudioRemote → List UInt8 × Nat → Bool → List UInt8 × Nat
  | [], s, _ => s
  | r :: rs, s, first =>
      if s.2 < sRespBufMax - respSlack then
        if r.inUse = false then channelsLoop rs s first
        else channelsLoop rs (respPrint ((if first then [] else [0x2C]) ++ channelText r) s) false
      else s

/-- `serve_channels`: the response and `s_resp_buf`. -/
def serveChannels (_path _body : List UInt8) (_blen : UInt32) (resp : HttpResponse)
    (sRespBuf : List UInt8) (w : AudioWorld) : HttpResponse × List UInt8 :=
  let s := respPrint channelsOpen (sRespBuf, 0)
  let s := channelsLoop w.linkAudioRemote s true
  let (buf, n) := respPrint channelsClose s
  ({ resp with
      contentType := some "application/json"
      body := buf
      bodyLen := .ofNat n }, buf)

/-! ## Status -/

/-- The state of all handlers. -/
structure WebDevice where
  web : WebWorld
  sRespBuf : List UInt8

/-- The rest of the firmware behind the handlers. -/
def WebDevice.core (d : WebDevice) : World := d.web.audio.core

/-- Another state of it. -/
def WebDevice.setCore (core : World) (d : WebDevice) : WebDevice :=
  { d with web := { d.web with audio := { d.web.audio with core := core } } }

/-- What the handlers rely on. -/
structure WebConfig where
  /-- `index_html`. -/
  indexHtml : List UInt8
  /-- `LINK_NUM_PHYSICAL_TDM_PORTS`. -/
  numPhysicalTdmPorts : Nat
  /-- What `%.3f` prints of a number. -/
  fixed3 : Rat → List UInt8
  /-- `link_set_local_tempo(NAN)`, which has no defined behaviour. -/
  setTempoNan : World → World

/-- The bytes of a text. -/
def bytesOf (text : String) : List UInt8 := text.toUTF8.toList

/-- `"true"` or `"false"`. -/
def boolText (b : Bool) : List UInt8 := if b then bytesOf "true" else bytesOf "false"

/-- The start of the answer of `serve_status`, for the values of `bp` and `cur_beats`. -/
def statusHead (cfg : WebConfig) (d : WebDevice) (bp : Int) (curBeats : Rat) : List UInt8 :=
  bytesOf "\x7b\"node_id\":\"" ++ nodeIdHex d.core.linkSelfId ++
    bytesOf "\",\"session_id\":\"" ++ nodeIdHex d.core.linkSelfSession ++
    bytesOf "\",\"tempo_bpm\":" ++ cfg.fixed3 (60000000 / bp) ++
    bytesOf ",\"beats\":" ++ cfg.fixed3 curBeats ++
    bytesOf ",\"playing\":" ++ boolText (d.core.linkSelfStartstop.isPlaying ≠ 0) ++
    bytesOf ",\"synced\":" ++ boolText (d.core.linkSelfSession ≠ d.core.linkSelfId) ++
    bytesOf ",\"name\":\"" ++ statusName d.web ++
    bytesOf "\",\"tdm\":\x7b\"physical\":" ++ bytesOf (toString cfg.numPhysicalTdmPorts) ++
    bytesOf ",\"virtual\":" ++
      bytesOf (toString ((d.web.audio.numTdmPorts : Int) - cfg.numPhysicalTdmPorts)) ++
    bytesOf ",\"channels_per_port\":16,\"fs_hz\":48000\x7d,\"peers\":["

/-- The four bytes of an address, and the port. -/
def endpointText (addr : UInt32) (port : UInt16) : List UInt8 :=
  bytesOf (toString (addr >>> 24 &&& 0xff).toNat) ++ bytesOf "." ++
    bytesOf (toString (addr >>> 16 &&& 0xff).toNat) ++ bytesOf "." ++
    bytesOf (toString (addr >>> 8 &&& 0xff).toNat) ++ bytesOf "." ++
    bytesOf (toString (addr &&& 0xff).toNat) ++ bytesOf ":" ++ bytesOf (toString port.toNat)

/-- What `serve_status` prints of a peer. -/
def peerText (cfg : WebConfig) (p : Peer) : List UInt8 :=
  let bp := p.timeline.tempoUsPerBeat.toInt
  bytesOf "\x7b\"node_id\":\"" ++ nodeIdHex p.nodeId ++
    bytesOf "\",\"session_id\":\"" ++ nodeIdHex p.sessionId ++
    bytesOf "\",\"tempo_bpm\":" ++ cfg.fixed3 (if bp = 0 then 0 else 60000000 / bp) ++
    bytesOf ",\"endpoint\":\"" ++ endpointText p.mep4Addr p.mep4Port ++ bytesOf "\"\x7d"

/-- What `serve_status` keeps free in `s_resp_buf`. -/
def statusSlack : Nat := 256

/-- The loop of `serve_status`, on the peers that are left, `s_resp_buf` with `n`, and `first`. -/
def statusLoop (cfg : WebConfig) : List Peer → List UInt8 × Nat → Bool → List UInt8 × Nat
  | [], s, _ => s
  | p :: ps, s, first =>
      if s.2 < sRespBufMax - statusSlack then
        if p.inUse = false then statusLoop cfg ps s first
        else
          statusLoop cfg ps (respPrint ((if first then [] else [0x2C]) ++ peerText cfg p) s) false
      else s

/-- `serve_status`. -/
def serveStatus (cfg : WebConfig) (_path _body : List UInt8) (_blen : UInt32)
    (resp : HttpResponse) (d : WebDevice) : HttpResponse × WebDevice :=
  let nowG := (ghostNow d.core).toInt64
  let d := d.setCore d.core.advance
  let tl := d.core.linkSelfTimeline
  let bp := if tl.tempoUsPerBeat ≤ 0 then 500000 else tl.tempoUsPerBeat.toInt
  let curBeats := (tl.beatOriginMicrobeats.toInt : Rat) / 1000000 +
    ((nowG - tl.timeOriginUsGhost).toInt : Rat) / bp
  let s := respPrint (statusHead cfg d bp curBeats) (d.sRespBuf, 0)
  let s := statusLoop cfg d.core.linkPeers s true
  let (buf, n) := respPrint channelsClose s
  ({ resp with
      contentType := some "application/json"
      body := buf
      bodyLen := .ofNat n }, { d with sRespBuf := buf })

/-! ## Controls -/

/-- The answer of a handler that cannot do what it was asked for. -/
def badRequest (text : String) (resp : HttpResponse) : HttpResponse :=
  { resp with
    status := 400
    body := bytesOf text
    bodyLen := .ofNat (bytesOf text).length }

/-- The string in `tmp` after `memcpy` of a body into an array that was cleared. -/
def copiedText (max : Nat) (body : List UInt8) (blen : UInt32) : List UInt8 :=
  CString.text (bytesAt (memOf body) 0 (if blen.toNat < max then blen.toNat else max))

/-- The loop of `hex_to_id`. -/
def hexBytes : Nat → List UInt8 → Option (List UInt8)
  | 0, _ => some []
  | n + 1, s =>
      match CString.scanHex 2 s with
      | none => none
      | some v => (hexBytes n (s.drop 2)).map (v.toUInt8 :: ·)

/-- `hex_to_id`; `none` is its `-1`. -/
def hexToId (s : List UInt8) : Option LinkId :=
  if s.length < 16 then none else (hexBytes 8 s).map LinkId.ofBytes

/-- `post_tempo`. -/
def postTempo (cfg : WebConfig) (_path body : List UInt8) (blen : UInt32) (resp : HttpResponse)
    (d : WebDevice) : HttpResponse × WebDevice :=
  match CString.atof (copiedText 15 body blen) with
  -- neither comparison is true
  | .nan => (okJson resp, d.setCore (cfg.setTempoNan d.core))
  | .infinite _ => (badRequest "bad tempo" resp, d)
  | .finite bpm =>
      if bpm < 20 ∨ 999 < bpm then (badRequest "bad tempo" resp, d)
      else (okJson resp, d.setCore (linkSetLocalTempo bpm d.core))

/-- `post_play` and `post_stop`. -/
def postTransport (play : Bool) (_path _body : List UInt8) (_blen : UInt32) (resp : HttpResponse)
    (d : WebDevice) : HttpResponse × WebDevice :=
  (okJson resp, d.setCore (linkSetPlay play d.core))

/-- `sscanf(tmp, "%d %d %16s", &port, &slot, hex)`, when it converts all three. -/
def scanSubscribe (s : List UInt8) : Option (Int32 × Int32 × List UInt8) :=
  match CString.scanInt s with
  | none => none
  | some (port, s) =>
      match CString.scanInt s with
      | none => none
      | some (slot, s) => (CString.scanWord 16 s).map fun word => (port, slot, word.1)

/-- `post_subscribe`. -/
def postSubscribe (_path body : List UInt8) (blen : UInt32) (resp : HttpResponse) (d : WebDevice) :
    HttpResponse × WebDevice :=
  match scanSubscribe (copiedText 79 body blen) with
  | none => (badRequest "subscribe failed" resp, d)
  | some (port, slot, hex) =>
      match hexToId hex with
      | none => (badRequest "subscribe failed" resp, d)
      | some id =>
          let r := linkAudioSubscribe port.toInt slot.toInt id d.web.audio
          (if r.2 = 0 then okJson resp else badRequest "subscribe failed" resp,
            { d with web := { d.web with audio := r.1 } })

/-- `post_unsubscribe`. -/
def postUnsubscribe (_path body : List UInt8) (blen : UInt32) (resp : HttpResponse)
    (d : WebDevice) : HttpResponse × WebDevice :=
  match hexToId (copiedText 19 body blen) with
  | none => (badRequest "unsubscribe failed" resp, d)
  | some id =>
      let r := linkAudioUnsubscribe id d.web.audio
      (if r.2 = 0 then okJson resp else badRequest "unsubscribe failed" resp,
        { d with web := { d.web with audio := r.1 } })

/-! ## Routes -/

/-- `serve_index`. -/
def serveIndex (cfg : WebConfig) (_path _body : List UInt8) (_blen : UInt32) (resp : HttpResponse)
    (d : WebDevice) : HttpResponse × WebDevice :=
  ({ resp with
      contentType := some "text/html; charset=utf-8"
      body := cfg.indexHtml
      bodyLen := .ofNat cfg.indexHtml.length }, d)

/-- `webui_init`, on a table without routes. -/
def webuiInit (cfg : WebConfig) : List (Route WebDevice) :=
  [⟨bytesOf "GET", bytesOf "/", serveIndex cfg⟩,
    ⟨bytesOf "GET", bytesOf "/api/status", serveStatus cfg⟩,
    ⟨bytesOf "GET", bytesOf "/api/channels", fun path body blen resp d =>
      let r := serveChannels path body blen resp d.sRespBuf d.web.audio
      (r.1, { d with sRespBuf := r.2 })⟩,
    ⟨bytesOf "POST", bytesOf "/api/tempo", postTempo cfg⟩,
    ⟨bytesOf "POST", bytesOf "/api/play", postTransport true⟩,
    ⟨bytesOf "POST", bytesOf "/api/stop", postTransport false⟩,
    ⟨bytesOf "POST", bytesOf "/api/name", fun path body blen resp d =>
      let r := postName path body blen resp d.web
      (r.1, { d with web := r.2 })⟩,
    ⟨bytesOf "POST", bytesOf "/api/subscribe", postSubscribe⟩,
    ⟨bytesOf "POST", bytesOf "/api/unsubscribe", postUnsubscribe⟩].foldl
      (fun routes route => httpRoute route routes) []

end LinkFPGA
