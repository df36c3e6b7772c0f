import LinkFPGA.Library.Clocked

/-!
# The TDM serialiser and deserialiser (`tdm.py`)

`TdmSerdes` is the part of `TDM16Core` in the `audio` clock domain, `FrameCounter` the part in the
`sys` domain that counts its frame pulses behind a two-stage synchroniser. As in the other cores, a
statement of a `sync` block reads the registers as they were before the edge, and of two
assignments to one register the later one stands.
-/

namespace LinkFPGA

/-- What the serdes is given in one audio cycle: the sixteen samples to send and the synchronised
`sdin`. -/
structure TdmIn where
  txHold : Vector (BitVec 16) 16
  sdinR : Bool
  deriving DecidableEq, Repr

/-- The registers of `_make_physical_serdes`; `bit_idx` and `slot` are four bits wide. -/
structure TdmSerdes where
  bitIdx : Fin 16
  slot : Fin 16
  bck : Bool
  sdout : Bool
  txShift : BitVec 16
  rxShift : BitVec 16
  rxLat : Vector (BitVec 16) 16
  framePulseAudio : Bool
  deriving DecidableEq, Repr

namespace TdmSerdes

/-- The registers at power-on. -/
def reset : TdmSerdes where
  bitIdx := 0
  slot := 0
  bck := false
  sdout := false
  txShift := 0
  rxShift := 0
  rxLat := Vector.replicate 16 0
  framePulseAudio := false

/-- The statement for the transmitter: the start of a slot reloads `tx_shift` and puts out the
most significant bit of the sample. -/
def transmit (i : TdmIn) (s t : TdmSerdes) : TdmSerdes :=
  if s.bitIdx = 0 then
    { t with
      txShift := i.txHold.get s.slot
      sdout := (i.txHold.get s.slot).getLsbD 15 }
  else
    { t with
      sdout := s.txShift.getLsbD 15
      txShift := s.txShift <<< 1 }

/-- `(rx_shift << 1) | sdin_r`. -/
def shiftIn (i : TdmIn) (s : TdmSerdes) : BitVec 16 :=
  s.rxShift <<< 1 ||| (BitVec.ofBool i.sdinR).setWidth 16

/-- The statements for the receiver and the position in the frame. -/
def receive (i : TdmIn) (s t : TdmSerdes) : TdmSerdes :=
  let t := { t with rxShift := s.shiftIn i }
  if s.bitIdx = 15 then
    let t := { t with rxLat := t.rxLat.set s.slot (s.shiftIn i), bitIdx := 0 }
    if s.slot = 15 then { t with slot := 0, framePulseAudio := true }
    else { t with slot := s.slot + 1 }
  else { t with bitIdx := s.bitIdx + 1 }

/-- A clock edge of the serdes. -/
def clk (s : TdmSerdes) (i : TdmIn) : TdmSerdes :=
  let t := { s with bck := !s.bck, framePulseAudio := false }
  if s.bck then s.receive i (s.transmit i t) else t

/-- The cycle in which the first bit of a frame goes out: `bck` is high, slot and bit are the
first. -/
structure AtFrameStart (s : TdmSerdes) : Prop where
  bck : s.bck = true
  slot : s.slot = 0
  bitIdx : s.bitIdx = 0

end TdmSerdes

/-- The registers of the frame counter, the two stages of the synchroniser first. -/
structure FrameCounter where
  stage : Bool
  framePulseSys : Bool
  frameCnt : UInt32
  deriving DecidableEq, Repr

namespace FrameCounter

/-- The registers at power-on. -/
def reset : FrameCounter := ⟨false, false, 0⟩

/-- A clock edge of the frame counter, with the level of `frame_pulse_audio`. -/
def clk (s : FrameCounter) (framePulseAudio : Bool) : FrameCounter where
  stage := framePulseAudio
  framePulseSys := s.stage
  frameCnt := if s.framePulseSys then s.frameCnt + 1 else s.frameCnt

end FrameCounter

end LinkFPGA
