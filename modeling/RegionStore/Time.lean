/-!
Wall-clock time in milliseconds since the epoch. Readings are signed 64-bit counts;
sums and differences of them saturate at the ends of that range.
-/
namespace RegionStore

namespace Millis

def latest : Int := 9223372036854775807

def earliest : Int := -9223372036854775808

def clamp (t : Int) : Int := max earliest (min latest t)

def add (a b : Int) : Int := clamp (a + b)

def sub (a b : Int) : Int := clamp (a - b)

end Millis

/-- A length of time, kept exactly. -/
structure Duration where
  seconds : Nat
  nanos : Nat
  deriving DecidableEq, Repr

namespace Duration

def totalNanos (d : Duration) : Nat := d.seconds * 1000000000 + d.nanos

/-- Whole milliseconds; what is left over is dropped. -/
def millis (d : Duration) : Nat := d.totalNanos / 1000000

end Duration

/-- A point in time, in nanoseconds since the epoch; negative before it. -/
structure Moment where
  nanos : Int
  deriving DecidableEq, Repr

namespace Moment

def afterEpoch (d : Duration) : Moment := ⟨d.totalNanos⟩

def beforeEpoch (d : Duration) : Moment := ⟨-d.totalNanos⟩

/-- The clock reading at a moment. Times before the epoch read as zero, and a count of
milliseconds that needs more than 64 bits keeps its low 64. -/
def epochMillis (m : Moment) : Int :=
  if m.nanos < 0 then 0 else (m.nanos / 1000000).bmod UInt64.size

theorem epochMillis_of_neg {m : Moment} (h : m.nanos < 0) : m.epochMillis = 0 := if_pos h

theorem epochMillis_of_le {m : Moment} (nonneg : 0 ≤ m.nanos)
    (small : m.nanos / 1000000 ≤ Millis.latest) : m.epochMillis = m.nanos / 1000000 := by
  unfold epochMillis
  rw [if_neg (by omega)]
  unfold Millis.latest at small
  apply Int.bmod_eq_of_le <;> simp only [UInt64.size] <;> omega

end Moment

end RegionStore
