import RegionStore.Expiry
import RegionStore.StoreError

/-!
Requests for space: either a payload to copy, or a number of bytes to set aside.
-/
namespace RegionStore

inductive Content where
  | payload (bytes : List UInt8)
  /-- Space to be filled later; until then it shows whatever bytes were there before. -/
  | reserved (size : Nat)
  deriving DecidableEq, Repr

def Content.size : Content → Nat
  | payload bytes => bytes.length
  | reserved size => size

structure Request where
  content : Content
  expiry : Expiry
  tag : UInt32
  deriving DecidableEq, Repr

namespace Request

def size (q : Request) : Nat := q.content.size

/-- Refuses what no amount of eviction could make room for. -/
def refusal? (q : Request) (limit : Nat) : Option StoreError :=
  if q.size = 0 then some .emptyPayload
  else if limit < q.size then some (.oversizedRequest q.size limit)
  else none

theorem refusal?_eq_none_iff {q : Request} {limit : Nat} :
    q.refusal? limit = none ↔ 1 ≤ q.size ∧ q.size ≤ limit := by
  unfold refusal?
  split
  · simp; omega
  · split <;> simp <;> omega

end Request

end RegionStore
