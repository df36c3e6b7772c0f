import LinkFPGA.Library.Clocked

/-!
# The Eurorack jacks (`eurorack.py`)

`EurorackInput` brings three jacks in through three-stage synchronisers, counts their edges, stamps
them with `host_time` and measures the period of the clock. As in the other cores, a statement of a
`sync` block reads the registers as they were before the edge.
-/

namespace LinkFPGA

/-- `MultiReg` with `n=3`; the third stage is its output. -/
structure MultiReg where
  first : Bool
  second : Bool
  third : Bool
  deriving DecidableEq, Repr

/-- A clock edge of the synchroniser. -/
def MultiReg.clk (s : MultiReg) (pad : Bool) : MultiReg := ⟨pad, s.first, s.second⟩

/-- What the core is given in one clock cycle. -/
structure EurorackIn where
  clkIn : Bool
  rstIn : Bool
  runIn : Bool
  hostTime : UInt64
  /-- The bits of `CTRL`. -/
  enable : Bool
  softRst : Bool
  deriving DecidableEq, Repr

/-- The registers of `EurorackInput`. -/
structure EurorackInput where
  clkS : MultiReg
  rstS : MultiReg
  runS : MultiReg
  clkPrev : Bool
  rstPrev : Bool
  runPrev : Bool
  clkCount : UInt32
  rstCount : UInt32
  runCount : UInt32
  clkPeriod : UInt32
  lastClkTs : UInt64
  clkTsFull : UInt64
  rstTsFull : UInt64
  runTsFull : UInt64
  anyEdge : Bool
  deriving DecidableEq, Repr

namespace EurorackInput

/-- The registers at power-on. -/
def reset : EurorackInput where
  clkS := ⟨false, false, false⟩
  rstS := ⟨false, false, false⟩
  runS := ⟨false, false, false⟩
  clkPrev := false
  rstPrev := false
  runPrev := false
  clkCount := 0
  rstCount := 0
  runCount := 0
  clkPeriod := 0
  lastClkTs := 0
  clkTsFull := 0
  rstTsFull := 0
  runTsFull := 0
  anyEdge := false

/-- `clk_s & ~clk_prev`. -/
def clkRises (s : EurorackInput) : Bool := s.clkS.third && !s.clkPrev

/-- `rst_s & ~rst_prev`. -/
def rstRises (s : EurorackInput) : Bool := s.rstS.third && !s.rstPrev

/-- `run_s ^ run_prev`. -/
def runChanges (s : EurorackInput) : Bool := s.runS.third ^^ s.runPrev

/-- The statement for an edge of the clock. -/
def clkEdge (hostTime : UInt64) (s t : EurorackInput) : EurorackInput :=
  if s.clkRises then
    { t with
      clkCount := s.clkCount + 1
      clkTsFull := hostTime
      clkPeriod :=
        if s.lastClkTs ≠ 0 then (hostTime - s.lastClkTs).toUInt32 else s.clkPeriod
      lastClkTs := hostTime
      anyEdge := true }
  else t

/-- The statement for an edge of the reset. -/
def rstEdge (hostTime : UInt64) (s t : EurorackInput) : EurorackInput :=
  if s.rstRises then
    { t with
      rstCount := s.rstCount + 1
      rstTsFull := hostTime
      anyEdge := true }
  else t

/-- The statement for an edge of the run level. -/
def runEdge (hostTime : UInt64) (s t : EurorackInput) : EurorackInput :=
  if s.runChanges then
    { t with
      runCount := s.runCount + 1
      runTsFull := hostTime
      anyEdge := true }
  else t

/-- A clock edge of the core. -/
def clk (s : EurorackInput) (i : EurorackIn) : EurorackInput :=
  let t := { s with
    clkS := s.clkS.clk i.clkIn
    rstS := s.rstS.clk i.rstIn
    runS := s.runS.clk i.runIn
    clkPrev := s.clkS.third
    rstPrev := s.rstS.third
    runPrev := s.runS.third
    anyEdge := false }
  if i.softRst then
    { t with clkCount := 0, rstCount := 0, runCount := 0, clkPeriod := 0, lastClkTs := 0 }
  else if i.enable then
    s.runEdge i.hostTime (s.rstEdge i.hostTime (s.clkEdge i.hostTime t))
  else t

/-- The status word `STATUS`. -/
def status (s : EurorackInput) : UInt32 := if s.runS.third then 1 else 0

end EurorackInput

end LinkFPGA
