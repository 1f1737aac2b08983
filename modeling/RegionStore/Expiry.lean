import RegionStore.Time

/-!
Lifetimes. A payload may carry a lifetime counted from its creation, a deadline on the
clock, or neither; the lifetime wins when both are given.
-/
namespace RegionStore

/-- Values that are not positive mean "none". -/
structure Expiry where
  /-- Lifetime in milliseconds. -/
  lifetime : Int
  /-- Deadline in milliseconds since the epoch. -/
  deadline : Int
  deriving DecidableEq, Repr

namespace Expiry

def never : Expiry := ⟨0, 0⟩

def inMillis (millis : Int) : Expiry := ⟨millis, 0⟩

def atMillis (deadline : Int) : Expiry := ⟨0, deadline⟩

/-- Expires once `d` has passed since creation; lifetimes too long for the clock are cut
to the longest one it can count. -/
def after (d : Duration) : Expiry := inMillis (min (d.millis : Int) Millis.latest)

/-- Expires when the clock reaches `m`. -/
def atMoment (m : Moment) : Expiry := atMillis m.epochMillis

/-- The form that entries keep: at most one of the two parts is set, to a positive value. -/
def normalized (e : Expiry) : Expiry :=
  if 0 < e.lifetime then ⟨e.lifetime, 0⟩
  else if 0 < e.deadline then ⟨0, e.deadline⟩
  else never

def isNever (e : Expiry) : Bool := e.normalized = never

@[simp] theorem normalized_normalized (e : Expiry) : e.normalized.normalized = e.normalized := by
  unfold normalized never
  split
  · simp [*]
  · split <;> simp [*]

theorem isNever_iff {e : Expiry} : e.isNever = true ↔ e.lifetime ≤ 0 ∧ e.deadline ≤ 0 := by
  unfold isNever normalized never
  split
  · simp; omega
  · split
    · simp; omega
    · simp; omega

end Expiry

end RegionStore
