import LinkFPGA.Firmware.AudioSend

/-!
# The TDM frame counters (`tdm.c`) and the loop that serves them (`main.c`)

Each TDM16 core counts the frames it has completed. The main loop polls the counters, calls
`link_audio_on_tdm_frame` for a port whose counter has moved and then reads the counter again to
clear it. The machine below takes one step of the loop body at a time, so that the hardware can
complete a frame between any two of them.
-/

namespace LinkFPGA

/-- The counters and the statics of `tdm.c`, by port. -/
structure Tdm where
  /-- `LINK_NUM_TDM_PORTS`. -/
  numTdmPorts : Nat
  /-- The `frame_count` registers. -/
  frameCount : Nat → UInt32
  sLastCount : Nat → UInt32

/-- `tdm_frame_count`: the `switch` has cases for the ports 0 to 3. -/
def tdmFrameCount (port : Nat) (t : Tdm) : UInt32 :=
  if port < 4 ∧ port < t.numTdmPorts then t.frameCount port else 0

/-- `tdm_frame_pending`. -/
def tdmFramePending (port : Nat) (t : Tdm) : Bool :=
  if t.numTdmPorts ≤ port then false else decide (tdmFrameCount port t ≠ t.sLastCount port)

/-- `tdm_clear_frame_pending`. -/
def tdmClearFramePending (port : Nat) (t : Tdm) : Tdm :=
  if t.numTdmPorts ≤ port then t
  else { t with sLastCount := Function.update t.sLastCount port (tdmFrameCount port t) }

/-- The core of a port completes a frame. -/
def Tdm.completeFrame (port : Nat) (t : Tdm) : Tdm :=
  { t with frameCount := Function.update t.frameCount port (t.frameCount port + 1) }

/-! ## The loop body for one port -/

/-- What the main loop does next for the port. -/
inductive LoopPc where
  /-- `if (tdm_frame_pending(port))` -/
  | check
  /-- `link_audio_on_tdm_frame(port);` -/
  | serve
  /-- `tdm_clear_frame_pending(port);` -/
  | clear
  deriving DecidableEq, Repr

/-- The main loop at work on one port. -/
structure FrameLoop where
  tdm : Tdm
  audio : AudioWorld
  pc : LoopPc
  /-- The calls of `link_audio_on_tdm_frame(port)` so far. -/
  served : Nat

/-- The statics and counters at power-up. -/
def FrameLoop.start (numTdmPorts : Nat) (audio : AudioWorld) : FrameLoop where
  tdm := ⟨numTdmPorts, fun _ => 0, fun _ => 0⟩
  audio := audio
  pc := .check
  served := 0

/-- What happens next. -/
inductive LoopEvent where
  /-- The hardware completes a frame of the port. -/
  | frame
  /-- The loop takes its next step for the port. If it serves the frame, it captures these samples
  and computes these `beats_first`. -/
  | loop (rx : Nat → UInt16) (beats : Nat → Int64)
  /-- Between two checks of the port, the rest of the loop leaves this audio state. -/
  | others (audio : AudioWorld)

/-- One step of the hardware or of the loop. -/
def loopStep (port : Nat) (s : FrameLoop) : LoopEvent → FrameLoop
  | .frame => { s with tdm := s.tdm.completeFrame port }
  | .loop rx beats =>
      match s.pc with
      | .check => if tdmFramePending port s.tdm then { s with pc := .serve } else s
      | .serve => { s with
          audio := linkAudioOnTdmFrame port rx beats s.audio
          served := s.served + 1
          pc := .clear }
      | .clear => { s with
          tdm := tdmClearFramePending port s.tdm
          pc := .check }
  | .others audio => if s.pc = .check then { s with audio := audio } else s

end LinkFPGA
