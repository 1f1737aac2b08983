/-!
Usage counters of a region. Failed placements are counted until a sweep makes room; once the
count exceeds the threshold the region is in shortage. The counters are 64-bit words.
-/
namespace RegionStore

structure Usage where
  /-- Bytes issued. -/
  used : UInt64
  /-- Failed placements since the count was last reset. -/
  failures : UInt64
  threshold : UInt64
  deriving DecidableEq, Repr

namespace Usage

def withThreshold (threshold : UInt64) : Usage := ⟨0, 0, threshold⟩

def inShortage (u : Usage) : Bool := u.threshold < u.failures

def addUsed (u : Usage) (bytes : UInt64) : Usage := { u with used := u.used + bytes }

def subUsed (u : Usage) (bytes : UInt64) : Usage := { u with used := u.used - bytes }

def recordFailure (u : Usage) : Usage := { u with failures := u.failures + 1 }

/-- Whether the next failure is the one that brings on the shortage. -/
def failureStartsShortage (u : Usage) : Bool := u.failures + 1 == u.threshold + 1

def resetFailures (u : Usage) : Usage := { u with failures := 0 }

/-- Everything but the threshold starts over. -/
def reset (u : Usage) : Usage := { u with used := 0, failures := 0 }

/-- The failure that starts a shortage is the one before which there is none and after which
there is one, as long as the threshold is not the largest word. -/
theorem failureStartsShortage_iff {u : Usage} (h : u.threshold.toNat + 1 < UInt64.size)
    (h' : u.failures.toNat + 1 < UInt64.size) :
    u.failureStartsShortage = true ↔
      u.inShortage = false ∧ u.recordFailure.inShortage = true := by
  simp only [UInt64.size] at h h'
  simp only [failureStartsShortage, inShortage, recordFailure, beq_iff_eq, decide_eq_false_iff_not,
    decide_eq_true_eq, UInt64.lt_iff_toNat_lt, ← UInt64.toNat_inj, UInt64.toNat_add,
    UInt64.reduceToNat]
  omega

end Usage

end RegionStore
