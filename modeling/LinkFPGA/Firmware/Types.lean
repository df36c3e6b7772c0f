import Mathlib.Data.List.Basic

/-!
# Link records and compile-time constants

The records of `link.h` and the protocol constants of `config.h`. A field keeps the width and
the signedness of its C type. Flags that only ever hold 0 or 1 are `Bool`; `is_playing` stays a
byte, since the encoder normalises it.
-/

namespace LinkFPGA

/-! ## Constants of `config.h` -/

def linkDiscoveryTtlSec : UInt64 := 5
def linkDiscoveryBcastMs : UInt64 := 250
def linkDiscoveryMinMs : UInt64 := 50
def linkDiscoveryPruneGraceMs : UInt64 := 1000
def linkDiscoveryPort : UInt16 := 20808
def linkMaxPeers : Nat := 16
def linkPingIntervalMs : UInt64 := 50
def linkMaxPings : Nat := 5
def linkSampleThreshold : Nat := 100
def linkSessionEpsUs : Int64 := 500000
def linkSessionRemeasureS : UInt64 := 30
def linkMaxMsgDiscovery : Nat := 512
def linkMaxMsgLink : Nat := 512
def linkMaxMsgAudio : Nat := 1200
def linkDefaultTempoUsPerBeat : Int64 := 500000

/-! ## Identifiers -/

/-- Eight raw bytes naming a node or a session (`link_id_t`). -/
structure LinkId where
  bytes : List UInt8
  length_bytes : bytes.length = 8
  deriving DecidableEq, Repr

namespace LinkId

/-- The identifier left by `memset(.., 0, ..)`. -/
def zero : LinkId := ⟨List.replicate 8 0, rfl⟩

/-- `memcpy(id.bytes, p, 8)`. Every caller has checked that `p` holds eight bytes; missing bytes
read as 0. -/
def ofBytes (p : List UInt8) : LinkId :=
  ⟨(p ++ List.replicate 8 0).take 8, by simp⟩

@[simp] theorem ofBytes_bytes_append (id : LinkId) (rest : List UInt8) :
    ofBytes (id.bytes ++ rest) = id := by
  rcases id with ⟨bytes, hlen⟩
  simp [ofBytes, hlen]

@[simp] theorem ofBytes_bytes (id : LinkId) : ofBytes id.bytes = id := by
  simpa using ofBytes_bytes_append id []

end LinkId

/-- `memcmp` on two buffers of one length: the difference of the first bytes that differ, and 0
when none does. -/
def memcmp : List UInt8 → List UInt8 → Int
  | a :: as, b :: bs => if a = b then memcmp as bs else (a.toNat : Int) - b.toNat
  | _, _ => 0

/-- `memcmp` of a buffer with itself is 0. -/
@[simp] theorem memcmp_self (bytes : List UInt8) : memcmp bytes bytes = 0 := by
  induction bytes with
  | nil => rfl
  | cons b bs ih => simpa [memcmp] using ih

/-! ## Timeline, start/stop state and peers -/

/-- `link_timeline_t`. -/
structure Timeline where
  tempoUsPerBeat : Int64
  beatOriginMicrobeats : Int64
  timeOriginUsGhost : Int64
  deriving DecidableEq, Repr

/-- `link_startstop_t`. -/
structure Startstop where
  isPlaying : UInt8
  beatsMicrobeats : Int64
  timestampUsGhost : Int64
  deriving DecidableEq, Repr

/-- One slot of the peer table (`link_peer_t`). -/
structure Peer where
  inUse : Bool
  nodeId : LinkId
  sessionId : LinkId
  timeline : Timeline
  startstop : Startstop
  mep4Addr : UInt32
  mep4Port : UInt16
  aep4Addr : UInt32
  aep4Port : UInt16
  mep6Addr : List UInt8
  mep6Port : UInt16
  haveMep6 : Bool
  aep6Addr : List UInt8
  aep6Port : UInt16
  haveAep6 : Bool
  /-- Host time at which the entry lapses. -/
  expiresAtUs : UInt64
  /-- Set once a GhostXForm is known for the peer's session. -/
  measured : Bool
  /-- GhostXForm intercept for that session. -/
  ghostOffset : Int64
  deriving DecidableEq, Repr

/-- The slot left by `memset(p, 0, sizeof(*p))`. -/
def Peer.zero : Peer where
  inUse := false
  nodeId := .zero
  sessionId := .zero
  timeline := ⟨0, 0, 0⟩
  startstop := ⟨0, 0, 0⟩
  mep4Addr := 0
  mep4Port := 0
  aep4Addr := 0
  aep4Port := 0
  mep6Addr := List.replicate 16 0
  mep6Port := 0
  haveMep6 := false
  aep6Addr := List.replicate 16 0
  aep6Port := 0
  haveAep6 := false
  expiresAtUs := 0
  measured := false
  ghostOffset := 0

end LinkFPGA
