import RegionStore.Binary64
import RegionStore.Expiry
import RegionStore.Handle
import RegionStore.Span

/-!
Table entries. An entry describes one range of bytes; while it is issued it also carries a
lease, the record of what is stored there and how it has been used. Releasing an entry
advances its generation, so that no handle issued before names it any more.
-/
namespace RegionStore

structure Lease where
  /-- Length of the payload, at most the size of the range. -/
  len : Nat
  createdAt : Int
  /-- In normal form. -/
  expiry : Expiry
  hits : UInt64
  /-- Clock reading of the latest hit, zero before the first. -/
  lastHitAt : Int
  tag : UInt32
  deriving DecidableEq, Repr

namespace Lease

def blank : Lease := ⟨0, 0, .never, 0, 0, 0⟩

/-- A lease as it stands when a range is issued. -/
def issued (len : Nat) (tag : UInt32) (expiry : Expiry) (now : Int) : Lease :=
  ⟨len, now, expiry.normalized, 0, 0, tag⟩

def hit (l : Lease) (now : Int) : Lease := { l with hits := l.hits + 1, lastHitAt := now }

/-- The lifetime has passed. -/
def lifetimeOver (l : Lease) (now : Int) : Bool :=
  0 < l.expiry.lifetime ∧ Millis.add l.createdAt l.expiry.lifetime ≤ now

/-- The deadline has passed. -/
def deadlineOver (l : Lease) (now : Int) : Bool :=
  0 < l.expiry.deadline ∧ l.expiry.deadline ≤ now

def isExpired (l : Lease) (now : Int) : Bool := l.lifetimeOver now || l.deadlineOver now

/-- Hits per millisecond of age, as the bit pattern of a binary64 number. The age counts as at
least one millisecond, so the quotient is defined; no hits at all are a frequency of zero. -/
def frequency (l : Lease) (now : Int) : Nat :=
  if l.hits = 0 then 0
  else Binary64.quotient (Binary64.roundNat l.hits.toNat)
    (Binary64.roundNat (max 1 (now - l.createdAt)).toNat)

theorem frequency_of_unused {l : Lease} (h : l.hits = 0) (now : Int) : l.frequency now = 0 :=
  if_pos h

theorem frequency_pos {l : Lease} (h : l.hits ≠ 0) (now : Int) : 0 < l.frequency now := by
  rw [frequency, if_neg h]
  apply Binary64.quotient_pos
  · apply Binary64.roundNat_pos
    have : l.hits.toNat ≠ 0 := fun e => h (UInt64.toNat_inj.1 e)
    omega
  · apply Binary64.roundNat_pos
    omega

end Lease

structure Entry where
  generation : UInt32
  free : Bool
  segment : Nat
  span : Span
  lease : Lease
  deriving DecidableEq, Repr

/-- What is known of an entry at one point in time, with the handle that names it. -/
structure Snapshot where
  handle : Handle
  segment : Nat
  span : Span
  free : Bool
  lease : Lease
  deriving DecidableEq, Repr

namespace Entry

/-- A fresh entry for a range that nobody has used. -/
def vacant (segment : Nat) (span : Span) : Entry := ⟨0, true, segment, span, .blank⟩

/-- The entry is issued, and still to the holder of generation `g`. -/
def isCurrent (e : Entry) (g : UInt32) : Bool := !e.free && e.generation == g

def move (e : Entry) (segment : Nat) (span : Span) : Entry := { e with segment, span }

/-- Hands the entry out. Lengths are kept in 32 bits. -/
def issue (e : Entry) (len : Nat) (tag : UInt32) (expiry : Expiry) (now : Int) : Entry :=
  { e with free := false, lease := .issued (len % UInt32.size) tag expiry now }

/-- Ends every handle to the entry, whether it is issued or not. -/
def invalidate (e : Entry) : Entry :=
  { e with generation := e.generation + 1, free := true, lease := .blank }

/-- Takes the entry back from the holder of generation `g`; of any number of attempts through
one handle exactly one succeeds. -/
def claim? (e : Entry) (g : UInt32) : Option Entry :=
  if e.isCurrent g then some e.invalidate else none

def hit (e : Entry) (now : Int) : Entry := { e with lease := e.lease.hit now }

def resize (e : Entry) (len : Nat) : Entry :=
  { e with lease := { e.lease with len := len % UInt32.size } }

def snapshot (e : Entry) (region slot : Nat) : Snapshot :=
  ⟨⟨region, slot, e.generation⟩, e.segment, e.span, e.free, e.lease⟩

theorem isCurrent_iff {e : Entry} {g : UInt32} :
    e.isCurrent g = true ↔ e.free = false ∧ e.generation = g := by
  simp [isCurrent]

theorem claim?_eq_some_iff {e e' : Entry} {g : UInt32} :
    e.claim? g = some e' ↔ e.isCurrent g = true ∧ e' = e.invalidate := by
  unfold claim?
  split
  · next h => exact ⟨fun k => ⟨h, (Option.some.inj k).symm⟩, fun k => k.2 ▸ rfl⟩
  · next h => exact ⟨nofun, fun k => absurd k.1 h⟩

end Entry

end RegionStore
