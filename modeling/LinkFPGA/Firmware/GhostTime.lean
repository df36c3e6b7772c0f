import LinkFPGA.Gateware.GhostTime

/-!
# Reading the time base (`ghost_time.c`)

The firmware puts a 64-bit time together from two reads of 32-bit status words. A read returns
the word the gateware drives in the cycle of the read; `TimeCall` says which cycles these are.
-/

namespace LinkFPGA

/-- The cycles of one call: it is entered in `start`, reads a low word in `lo` and a high word in
`hi`, and returns in `stop`. -/
structure TimeCall where
  start : ℕ
  lo : ℕ
  hi : ℕ
  stop : ℕ
  start_lt_lo : start < lo
  lo_lt_hi : lo < hi
  hi_le_stop : hi ≤ stop

/-- `((uint64_t)hi << 32) | lo`. -/
def joinWords (hi lo : UInt32) : UInt64 := hi.toUInt64 <<< 32 ||| lo.toUInt64

/-- `host_time_us()` against the counter of each cycle. -/
def hostTimeUs (unit : ℕ → HostClock) (c : TimeCall) : UInt64 :=
  let lo := (unit c.lo).hostLo
  let hi := (unit c.hi).hostHi
  joinWords hi lo

/-- `ghost_time_us()`. The read of `HOST_LO` between `start` and `lo`, whose word is thrown away,
leaves no trace in the unit. -/
def ghostTimeUs (unit : ℕ → HostClock) (c : TimeCall) : UInt64 :=
  let lo := (unit c.lo).ghostLo
  let hi := (unit c.hi).ghostHi
  joinWords hi lo

/-- The high word of one value over the low word of another. -/
theorem join_words_toNat (x y : UInt64) :
    (joinWords (y >>> 32).toUInt32 x.toUInt32).toNat =
      y.toNat / 2 ^ 32 * 2 ^ 32 + x.toNat % 2 ^ 32 := by
  have hy := y.toNat_lt
  have hhigh : (y >>> 32).toUInt32.toNat = y.toNat / 2 ^ 32 := by
    rw [UInt64.toNat_toUInt32, UInt64.toNat_shiftRight]
    show (y.toNat >>> 32) % 2 ^ 32 = _
    rw [Nat.shiftRight_eq_div_pow, Nat.mod_eq_of_lt (by omega)]
  have hlow : x.toUInt32.toNat = x.toNat % 2 ^ 32 := UInt64.toNat_toUInt32 x
  have hshift : ((y >>> 32).toUInt32.toUInt64 <<< 32).toNat = y.toNat / 2 ^ 32 * 2 ^ 32 := by
    rw [UInt64.toNat_shiftLeft, UInt32.toNat_toUInt64, hhigh]
    show (y.toNat / 2 ^ 32) <<< 32 % 2 ^ 64 = _
    rw [Nat.shiftLeft_eq, Nat.mod_eq_of_lt (by omega)]
  have hlt : x.toNat % 2 ^ 32 < 2 ^ 32 := Nat.mod_lt _ (by decide)
  rw [joinWords, UInt64.toNat_or, hshift, UInt32.toNat_toUInt64, hlow, Nat.mul_comm,
    Nat.two_pow_add_eq_or_of_lt hlt]

end LinkFPGA
