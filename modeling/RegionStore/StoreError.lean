/-!
The reasons for which storage is refused, and the wording of each.
-/
namespace RegionStore

inductive StoreError where
  /-- No free range is large enough at the moment; eviction may help. -/
  | outOfSpace (requested : Nat)
  /-- Larger than anything that could ever be held. -/
  | oversizedRequest (requested limit : Nat)
  | emptyPayload
  /-- A new payload in place that is longer than the range. -/
  | capacityExceeded (requested capacity : Nat)
  /-- The range was released after the handle was issued. -/
  | staleHandle
  | unknownRegion (region : Nat)
  /-- Bookkeeping that contradicts itself. -/
  | invariantViolation (detail : String)
  | invalidConfig (reason : String)
  deriving DecidableEq, Repr

namespace StoreError

def message : StoreError → String
  | outOfSpace requested => s!"out of space: no free range for {requested} bytes"
  | oversizedRequest requested limit =>
    s!"oversized request: {requested} bytes exceeds limit of {limit} bytes"
  | emptyPayload => "empty payload"
  | capacityExceeded requested capacity =>
    s!"capacity exceeded: {requested} bytes does not fit in {capacity} bytes"
  | staleHandle => "stale pointer"
  | unknownRegion region => s!"unknown region {region}"
  | invariantViolation detail => s!"invariant violated: {detail}"
  | invalidConfig reason => s!"invalid configuration: {reason}"

/-- Exhaustion means "no room right now", which is worth a try in another region. -/
def isExhaustion : StoreError → Bool
  | outOfSpace _ => true
  | _ => false

/-- A smaller region may refuse what a larger one accepts, so an oversized request is
worth another try as well. -/
def isRetryable : StoreError → Bool
  | outOfSpace _ => true
  | oversizedRequest _ _ => true
  | _ => false

end StoreError

/-- An operation answers with a value or a refusal, and always with the state it leaves
behind: a refusal for lack of room is counted. -/
abbrev Outcome (σ α : Type) := Except StoreError α × σ

end RegionStore
