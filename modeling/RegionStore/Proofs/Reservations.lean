import RegionStore.Proofs.Attempts
import RegionStore.Proofs.Overlays

/-!
Space that is set aside and filled right away. Room is found without regard to the payload, so setting
aside and copying comes to the same as storing, down to the last counter.
-/
namespace RegionStore

/-- Copies a payload over one of its length, and tells whether the lengths were the same. -/
def Patch.copy (bytes : List UInt8) : Patch Bool where
  run shown := if shown.length = bytes.length then (bytes, true) else (shown, false)
  length_run shown := by
    split
    · next same => exact same.symm
    · rfl

namespace Region

variable {r r' : Region} {bytes : List UInt8} {expiry : Expiry} {tag : UInt32} {now : Int}

/-- What becomes of setting space aside in a region and of storing a payload there: both are refused
and leave the same behind, or both are answered with one handle, and copying the payload through it
makes up the difference. -/
inductive Filled (bytes : List UInt8) : (reserved stored : Outcome Region Handle) → Prop
  | refused {refusal : StoreError} {r : Region} :
    Filled bytes (.error refusal, r) (.error refusal, r)
  | placed {k : Handle} {r r' : Region} (region : k.region = r.id)
    (filled : r.edit k (Patch.copy bytes).run = (.ok true, r')) :
    Filled bytes (.ok k, r) (.ok k, r')

end Region

namespace Store

/-- What becomes of setting space aside in a store and of storing a payload: they come to the same, but
for the payload if there is a handle to copy it through. -/
inductive Filled (bytes : List UInt8) : (reserved stored : Outcome Store (Option Handle)) → Prop
  | unplaced {answer : Except StoreError (Option Handle)} {s : Store}
    (unplaced : ∀ k, answer ≠ .ok (some k)) : Filled bytes (answer, s) (answer, s)
  | placed {k : Handle} {s s' : Store} (filled : s.edit k (Patch.copy bytes).run = (.ok true, s')) :
    Filled bytes (.ok (some k), s) (.ok (some k), s')

variable {s : Store} {bytes : List UInt8} {expiry : Expiry} {tag : UInt32} {now : Int}

theorem Filled.refused {refusal : StoreError} : Filled bytes (.error refusal, s) (.error refusal, s) :=
  .unplaced fun _ same => by cases same

end Store

end RegionStore
