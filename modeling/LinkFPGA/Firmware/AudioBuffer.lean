import LinkFPGA.Firmware.AudioState
import LinkFPGA.Firmware.Memory

/-!
# The AudioBuffer message (`link_audio.c`)

`send_audio_buffer_for` lays 64 samples of a local channel out as a datagram.
`handle_audio_buffer` walks the body of a received one with 32-bit pointers and sizes, as the
RV32 target does; it may read memory past the body, so it is modelled on memory and not on a byte
list. `BodyCursor` also keeps what the walk did: the offsets it read, whether a subtraction from
`n` wrapped, and how often the chunk loop ran.
-/

namespace LinkFPGA

/-! ## Encoder -/

/-- `encode_audio_header`. -/
def encodeAudioHeader (selfId : LinkId) (mtype ttl : UInt8) : List UInt8 :=
  kProtoAudio ++ [mtype, ttl, 0, 0] ++ selfId.bytes

/-- The datagram of `send_audio_buffer_for`. `beatsFirst` is what the floating-point expression
for `beats_first` evaluates to. -/
def encodeAudioBuffer (selfId session : LinkId) (bp : Int64) (c : AudioLocal) (beatsFirst : Int64)
    (samples : List UInt16) : List UInt8 :=
  encodeAudioHeader selfId 6 0 ++ c.channelId.bytes ++ session.bytes ++ putBe32 1 ++
    putBe64 c.nextSendCount ++ putBe16 audioFramesPerPkt.toUInt16 ++ putBe64 beatsFirst.toUInt64 ++
    putBe64 bp.toUInt64 ++ [1] ++ putBe32 linkTdmFsHz ++ [1] ++
    putBe16 (audioFramesPerPkt.toUInt16 * 2) ++ samples.flatMap putBe16

/-- The first `num_subscribers` entries. -/
def AudioLocal.endpoints (c : AudioLocal) : List (UInt32 × UInt16) :=
  (c.subscribers.toList.take c.numSubscribers).map fun s => (s.addr, s.port)

/-- `send_audio_buffer_for(&link_audio_local[i], samples)`. -/
def sendAudioBufferFor (i : Nat) (samples : List UInt16) (beatsFirst : Int64) (w : AudioWorld) :
    AudioWorld :=
  match w.linkAudioLocal[i]? with
  | none => w
  | some c =>
      if c.numSubscribers = 0 then w
      else
        let buf := encodeAudioBuffer w.core.linkSelfId w.core.linkSelfSession
          w.core.linkSelfTimeline.tempoUsPerBeat c beatsFirst samples
        let datagrams := c.endpoints.map fun (addr, port) =>
          Datagram.unicast addr port linkDiscoveryPort buf
        -- `ghost_time_us()` reads the clock once
        { w.setLocal i { c with nextSendCount := c.nextSendCount + 1 } with
          core := { w.core.advance with sent := w.core.sent ++ datagrams }
          sentBuffers := w.sentBuffers ++ [⟨i, buf, c.endpoints⟩] }

/-! ## The walk over a received body -/

/-- Where `handle_audio_buffer` stands: `p` as an offset from the body, the remainder `n`, and
what was done to get there. -/
structure BodyCursor where
  p : UInt32
  n : UInt32
  /-- The offsets that were read. -/
  reads : List UInt32
  /-- Some `n -= k` had `n < k`. -/
  underflow : Bool
  /-- The iterations of the chunk loop. -/
  chunks : Nat
  deriving DecidableEq, Repr

namespace BodyCursor

def start (n : UInt32) : BodyCursor := ⟨0, n, [], false, 0⟩

/-- Read `k` bytes at `p`. -/
def read (c : BodyCursor) (k : Nat) : BodyCursor :=
  { c with reads := c.reads ++ (List.range k).map fun i => c.p + .ofNat i }

/-- `p += k`. -/
def skip (c : BodyCursor) (k : UInt32) : BodyCursor := { c with p := c.p + k }

/-- `n -= k`. -/
def consume (c : BodyCursor) (k : UInt32) : BodyCursor :=
  { c with
    n := c.n - k
    underflow := c.underflow || decide (c.n < k) }

/-- Read `k` bytes, then `p += k; n -= k`. -/
def fetch (c : BodyCursor) (k : Nat) : BodyCursor :=
  ((c.read k).skip (.ofNat k)).consume (.ofNat k)

end BodyCursor

/-- What a body that passed the checks describes; the cursor stands at its samples. -/
structure AudioBufferInfo where
  channelId : LinkId
  sessionId : LinkId
  totalFrames : UInt16
  numChan : UInt8
  deriving DecidableEq, Repr

/-- One iteration of the chunk loop, on the cursor and `total_frames`. -/
def chunkStep (mem : UInt32 → UInt8) (s : BodyCursor × UInt16) : BodyCursor × UInt16 :=
  let c := s.1.skip 8
  let numFrames := be16 (bytesAt mem c.p 2)
  let c := ((((c.read 2).skip 2).skip 8).skip 8).consume 26
  ({ c with chunks := c.chunks + 1 }, s.2 + numFrames)

/-- The checks of `handle_audio_buffer` behind the chunk loop. -/
def checkSamples (mem : UInt32 → UInt8) (channelId sessionId : LinkId) (s : BodyCursor × UInt16) :
    BodyCursor × Option AudioBufferInfo :=
  let c := s.1
  let totalFrames := s.2
  if c.n < 1 + 4 + 1 + 2 then (c, none)
  else
    let codec := mem c.p
    let c := c.fetch 1
    let c := (c.skip 4).consume 4
    let numChan := mem c.p
    let c := c.fetch 1
    let numBytes := be16 (bytesAt mem c.p 2)
    let c := c.fetch 2
    if codec ≠ 1 then (c, none)
    else if numChan = 0 then (c, none)
    else if totalFrames.toUInt32 * numChan.toUInt32 * 2 ≠ numBytes.toUInt32 then (c, none)
    else if c.n < numBytes.toUInt32 then (c, none)
    else (c, some ⟨channelId, sessionId, totalFrames, numChan⟩)

/-- `handle_audio_buffer` up to its last check on the body itself. -/
def parseAudioBuffer (mem : UInt32 → UInt8) (n : UInt32) : BodyCursor × Option AudioBufferInfo :=
  let c := BodyCursor.start n
  if n < 8 + 8 + 4 + 26 + 1 + 4 + 1 + 2 then (c, none)
  else
    let channelId := LinkId.ofBytes (bytesAt mem c.p 8)
    let c := c.fetch 8
    let sessionId := LinkId.ofBytes (bytesAt mem c.p 8)
    let c := c.fetch 8
    let chunkCount := be32 (bytesAt mem c.p 4)
    let c := c.fetch 4
    -- `(size_t)chunk_count * 26` is a 32-bit product
    if chunkCount = 0 ∨ c.n < chunkCount * 26 then (c, none)
    else checkSamples mem channelId sessionId ((chunkStep mem)^[chunkCount.toNat] (c, 0))

/-! ## The jitter ring -/

/-- The loop body that appends one sample: write, `jbuf_w++`, and drop the oldest sample if the
ring overflowed. -/
def AudioSub.push (sub : AudioSub) (v : UInt16) : AudioSub :=
  let sub := { sub with
    jbuf := sub.jbuf.set (sub.jbufW % linkAudioJbufLen).toNat v
      (UInt32.lt_iff_toNat_lt.mp (UInt32.mod_lt _ (by decide)))
    jbufW := sub.jbufW + 1 }
  if linkAudioJbufLen < sub.jbufW - sub.jbufR then
    { sub with jbufR := sub.jbufW - linkAudioJbufLen }
  else sub

/-- The last part of `handle_audio_buffer`: the samples of channel 0 go to the subscription. -/
def AudioSub.deliver (sub : AudioSub) (numChan : UInt8) (samples : List UInt16) : AudioSub :=
  let sub := samples.foldl AudioSub.push { sub with numChanRemote := numChan }
  { sub with lastCount := sub.lastCount + 1 }

/-! ## Decoder -/

/-- The offset of sample `f` of channel 0, `p + (f * numChan) * 2`. -/
def sampleOffset (p : UInt32) (numChan : UInt8) (f : Nat) : UInt32 :=
  p + .ofNat (f * numChan.toNat * 2)

/-- The samples of channel 0 of a body. -/
def channelZero (mem : UInt32 → UInt8) (p : UInt32) (numChan : UInt8) (totalFrames : Nat) :
    List UInt16 :=
  (List.range totalFrames).map fun f => be16 (bytesAt mem (sampleOffset p numChan f) 2)

/-- `find_sub_for_channel`, by index. -/
def findSubForChannel (w : AudioWorld) (cid : LinkId) : Option Nat :=
  w.linkAudioSubs.findIdx? fun sub => sub.inUse && sub.channelId = cid

/-- `handle_audio_buffer(p, n)`, with what its walk over the body did. -/
def handleAudioBuffer (mem : UInt32 → UInt8) (n : UInt32) (w : AudioWorld) :
    AudioWorld × BodyCursor :=
  match parseAudioBuffer mem n with
  | (c, none) => (w, c)
  | (c, some info) =>
      if info.sessionId ≠ w.core.linkSelfSession then (w, c)
      else
        match findSubForChannel w info.channelId with
        | none => (w, c)
        | some i =>
            match w.linkAudioSubs[i]? with
            | none => (w, c)
            | some sub =>
                let frames := info.totalFrames.toNat
                let reads := (List.range frames).flatMap fun f =>
                  [sampleOffset c.p info.numChan f, sampleOffset c.p info.numChan f + 1]
                (w.setSub i (sub.deliver info.numChan (channelZero mem c.p info.numChan frames)),
                  { c with reads := c.reads ++ reads })

end LinkFPGA
