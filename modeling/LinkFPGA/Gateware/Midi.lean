import LinkFPGA.Library.Serial

/-!
# The MIDI transceiver (`midi.py`)

The two UARTs of `MidiCore`: `MidiTx` is the injector of real-time bytes with the transmitter it
shares with the data FIFO, `MidiRx` the synchroniser and the receiver. `RtMeter` is what becomes
of the real-time bytes received: the timestamped event slot and the period meter. A statement of a
`sync` block reads the registers as they were before the edge, and of two assignments to one
register the later one stands; `clk` follows this order.
-/

namespace LinkFPGA

/-- `int(round(a / b))`: to the nearest integer, a half to the even one. -/
def roundDiv (a b : ℕ) : ℕ :=
  if 2 * (a % b) < b then a / b
  else if b < 2 * (a % b) then a / b + 1
  else if a / b % 2 = 0 then a / b
  else a / b + 1

/-- `ticks_per_us` of the time base; `ghost_time.py` asserts that it is at least one. -/
def ticksPerUs (sysClkFreq : ℕ) : ℕ := roundDiv sysClkFreq 1000000

/-- `divider_max`, the clock cycles of a bit at 31250 baud. -/
def dividerMax (sysClkFreq : ℕ) : ℕ := max 1 (roundDiv sysClkFreq 31250)

theorem divider_max_pos (sysClkFreq : ℕ) : 0 < dividerMax sysClkFreq :=
  Nat.lt_of_lt_of_le Nat.one_pos (Nat.le_max_left _ _)

/-- Migen's `bits_for`: the width of a register that holds `n`. -/
def bitsFor (n : ℕ) : ℕ := n.log2 + 1

/-- The value left in a register `Signal(max=divider_max + 1)` by an assignment. -/
def wrapDiv (D n : ℕ) : ℕ := n % 2 ^ bitsFor D

theorem wrap_div_of_le {D n : ℕ} (h : n ≤ D) : wrapDiv D n = n :=
  Nat.mod_eq_of_lt (lt_of_le_of_lt h Nat.lt_log2_self)

/-- What `MidiCore` is given in one clock cycle on its transmit side. -/
structure MidiTxIn where
  ctrl : UInt8
  autoTxCtrl : UInt8
  clk24 : Bool
  start : Bool
  stop : Bool
  txData : UInt8
  txPush : Bool
  deriving DecidableEq, Repr

namespace MidiTxIn

/-- `enable`. -/
def enable (i : MidiTxIn) : Bool := i.ctrl &&& 1 = 1

/-- `soft_rst`. -/
def softRst (i : MidiTxIn) : Bool := i.ctrl &&& 2 = 2

def autoClk (i : MidiTxIn) : Bool := i.autoTxCtrl &&& 1 = 1

def autoStart (i : MidiTxIn) : Bool := i.autoTxCtrl &&& 2 = 2

def autoStop (i : MidiTxIn) : Bool := i.autoTxCtrl &&& 4 = 4

end MidiTxIn

/-- `RT_CLOCK`. -/
def rtClock : UInt8 := 0xF8

/-- `RT_START`. -/
def rtStart : UInt8 := 0xFA

/-- `RT_STOP`. -/
def rtStop : UInt8 := 0xFC

/-- The registers of the transmit path; `fifo` is the content of `tx_data_fifo`, oldest byte
first. -/
structure MidiTx where
  fifo : List UInt8
  rtPending : Bool
  rtByteOut : UInt8
  txBusy : Bool
  txShift : BitVec 10
  txBits : ℕ
  txDiv : ℕ
  deriving DecidableEq, Repr

namespace MidiTx

/-- The registers at power-on. -/
def reset : MidiTx where
  fifo := []
  rtPending := false
  rtByteOut := 0
  txBusy := false
  txShift := 0
  txBits := 0
  txDiv := 0

/-- `Cat(0, byte, 1)`. -/
def frameWord (b : UInt8) : BitVec 10 := 1#1 ++ b.toBitVec ++ 0#1

/-- `tx_data_fifo.re`. -/
def fifoRe (i : MidiTxIn) (s : MidiTx) : Bool :=
  !s.txBusy && !s.rtPending && !s.fifo.isEmpty && i.enable

/-- The FIFO after an edge: a read drops the oldest byte, a write is taken while there are fewer
than 64. -/
def nextFifo (i : MidiTxIn) (s : MidiTx) : List UInt8 :=
  (if s.fifoRe i then s.fifo.tail else s.fifo) ++
    if i.txPush ∧ s.fifo.length < 64 then [i.txData] else []

/-- The injector: the level of a transport pulse sets the slot, start before stop before clock. -/
def inject (i : MidiTxIn) (s : MidiTx) : MidiTx :=
  if i.softRst then { s with rtPending := false }
  else if i.start && i.autoStart then { s with rtByteOut := rtStart, rtPending := true }
  else if i.stop && i.autoStop then { s with rtByteOut := rtStop, rtPending := true }
  else if i.clk24 && i.autoClk then { s with rtByteOut := rtClock, rtPending := true }
  else s

/-- Load the shift register. -/
def load (D : ℕ) (b : UInt8) (t : MidiTx) : MidiTx :=
  { t with txShift := frameWord b, txBusy := true, txBits := 10, txDiv := wrapDiv D (D - 1) }

/-- A clock edge of the transmit path. The UART reads the registers `s` from before the edge and
assigns over what the injector assigned. -/
def clk (D : ℕ) (i : MidiTxIn) (s : MidiTx) : MidiTx :=
  let t := { s.inject i with fifo := s.nextFifo i }
  if i.softRst then { t with txBusy := false, txBits := 0, txDiv := 0 }
  else if i.enable then
    if !s.txBusy then
      if s.rtPending then { t.load D s.rtByteOut with rtPending := false }
      else
        match s.fifo with
        | b :: _ => t.load D b
        | [] => t
    else if s.txDiv = 0 then
      { t with
        txDiv := wrapDiv D (D - 1)
        txShift := s.txShift >>> 1
        txBits := (s.txBits + 15) % 16
        txBusy := if s.txBits = 1 then false else s.txBusy }
    else { t with txDiv := s.txDiv - 1 }
  else t

/-- `pads.tx`. -/
def padTx (s : MidiTx) : Bool := !s.txBusy || s.txShift.getLsbD 0

/-- The byte the transmitter takes when it is free. -/
def offer (s : MidiTx) : Option UInt8 := if s.rtPending then some s.rtByteOut else s.fifo.head?

end MidiTx

/-- The registers of the receive path up to the byte strobe. -/
structure MidiRx where
  /-- The two stages of the synchroniser; the second one is `rx_sync`. -/
  stage : Bool
  rxSync : Bool
  rxBusy : Bool
  rxShift : BitVec 8
  rxBits : ℕ
  rxDiv : ℕ
  rxByte : UInt8
  rxStrobe : Bool
  rxPrev : Bool
  deriving DecidableEq, Repr

namespace MidiRx

/-- The registers at power-on: the synchroniser is low, `rx_prev` is high. -/
def reset : MidiRx where
  stage := false
  rxSync := false
  rxBusy := false
  rxShift := 0
  rxBits := 0
  rxDiv := 0
  rxByte := 0
  rxStrobe := false
  rxPrev := true

/-- The receiver at rest on an idle line. -/
def idle : MidiRx where
  stage := true
  rxSync := true
  rxBusy := false
  rxShift := 0
  rxBits := 0
  rxDiv := 0
  rxByte := 0
  rxStrobe := false
  rxPrev := true

/-- A clock edge of the receive path, with the level of `pads.rx`. -/
def clk (D : ℕ) (enable softRst rx : Bool) (s : MidiRx) : MidiRx :=
  let t := { s with stage := rx, rxSync := s.stage, rxStrobe := false, rxPrev := s.rxSync }
  if softRst then { t with rxBusy := false, rxBits := 0, rxDiv := 0 }
  else if enable then
    if !s.rxBusy then
      if !s.rxSync && s.rxPrev then
        { t with rxBusy := true, rxBits := 0, rxDiv := wrapDiv D (D + D / 2 - 1) }
      else t
    else if s.rxDiv = 0 then
      if s.rxBits < 8 then
        { t with
          rxDiv := wrapDiv D (D - 1)
          rxShift := BitVec.ofBool s.rxSync ++ s.rxShift.extractLsb' 1 7
          rxBits := (s.rxBits + 1) % 16 }
      else
        { t with
          rxDiv := wrapDiv D (D - 1)
          rxByte := UInt8.ofBitVec s.rxShift
          rxStrobe := true
          rxBusy := false }
    else { t with rxDiv := s.rxDiv - 1 }
  else t

/-- The byte the receiver strobes in this cycle. -/
def strobed (s : MidiRx) : Option UInt8 := if s.rxStrobe then some s.rxByte else none

end MidiRx

/-- `_is_rt`: `0xF8` to `0xFF`. -/
def isRt (b : UInt8) : Bool := b >>> 3 = 0b11111

/-- What the event slot and the period meter are given in one clock cycle. -/
structure RtMeterIn where
  /-- `rx_byte` where `rx_strobe` is high. -/
  strobed : Option UInt8
  hostTime : UInt64
  softRst : Bool
  rtEvAck : Bool
  deriving DecidableEq, Repr

/-- The registers of the event slot and the period meter. -/
structure RtMeter where
  rxTs : UInt64
  rtQByte : UInt8
  rtQTs : UInt64
  rtQValid : Bool
  lastClkTs : UInt64
  curPeriod : UInt32
  deriving DecidableEq, Repr

namespace RtMeter

/-- The registers at power-on. -/
def reset : RtMeter := ⟨0, 0, 0, false, 0, 0⟩

/-- A real-time byte takes the event slot if it is free. -/
def queue (s : RtMeter) (b : UInt8) (t : RtMeter) : RtMeter :=
  if !s.rtQValid then { t with rtQByte := b, rtQTs := s.rxTs, rtQValid := true } else t

/-- A clock byte moves the period meter on. -/
def meter (s : RtMeter) (b : UInt8) (t : RtMeter) : RtMeter :=
  if b = rtClock then
    { t with
      curPeriod := if s.lastClkTs ≠ 0 then (s.rxTs - s.lastClkTs).toUInt32 else s.curPeriod
      lastClkTs := s.rxTs }
  else t

/-- A clock edge. `rx_ts` is assigned in a statement of its own, so the others still read the
stamp of the byte before. -/
def clk (s : RtMeter) (i : RtMeterIn) : RtMeter :=
  let t := { s with rxTs := if i.strobed.isSome then i.hostTime else s.rxTs }
  let t :=
    if i.softRst then { t with rtQValid := false, curPeriod := 0, lastClkTs := 0 }
    else
      match i.strobed with
      | some b => if isRt b then s.meter b (s.queue b t) else t
      | none => t
  if i.rtEvAck then { t with rtQValid := false } else t

end RtMeter

end LinkFPGA
