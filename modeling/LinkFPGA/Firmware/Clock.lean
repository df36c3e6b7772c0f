import Mathlib.Data.List.Basic

/-!
# Host-time readings and outgoing datagrams

The firmware sees time only through `host_time_us()`, and each call returns its own reading of
the counter. `Clock` lists the readings in the order of the calls, so two reads inside one
handler may differ. What `net.c` is asked to send is recorded as `Datagram`s.
-/

namespace LinkFPGA

/-- The values successive calls of `host_time_us()` return, and how many were made. -/
structure Clock where
  reading : Nat → UInt64
  reads : Nat

namespace Clock

/-- What the next call of `host_time_us()` returns. -/
def now (c : Clock) : UInt64 := c.reading c.reads

/-- The clock after one call of `host_time_us()`. -/
def advance (c : Clock) : Clock := { c with reads := c.reads + 1 }

@[simp] theorem advance_reading (c : Clock) : c.advance.reading = c.reading := rfl

@[simp] theorem advance_reads (c : Clock) : c.advance.reads = c.reads + 1 := rfl

end Clock

/-- A call of one of the `net_udp_send_*` functions. -/
inductive Datagram where
  | unicast (dstAddr : UInt32) (dstPort srcPort : UInt16) (buf : List UInt8)
  | mcastV4 (dstPort srcPort : UInt16) (buf : List UInt8)
  | mcastV6 (dstPort srcPort : UInt16) (buf : List UInt8)
  deriving DecidableEq, Repr

end LinkFPGA
