import RegionStore.FreeSpans
import RegionStore.Placement.FirstFit
import RegionStore.Placement.SlotPool

/-!
The ways to find room in a region. Each keeps its own account of what is free beside the slot
table: the list of all ranges, the free ranges, or queues of free slots.
-/
namespace RegionStore

inductive Strategy where
  | firstFit
  /-- Largest fit; ranges that come back are merged with their neighbours. -/
  | largestFit
  | slab
  deriving DecidableEq, Repr

inductive Placement where
  | firstFit (order : List Nat)
  | largestFit (free : FreeSpans)
  | slab (pools : List SlotPool) (fallThrough : Bool)

namespace Placement

def strategy : Placement → Strategy
  | firstFit _ => .firstFit
  | largestFit _ => .largestFit
  | slab _ _ => .slab

/-- Sets `size` bytes aside. The slot that is answered holds a free entry for them. -/
def reserve (p : Placement) (t : SlotTable) (size : Nat) :
    Option (Nat × SlotTable × Placement) :=
  match p with
  | firstFit order =>
    (FirstFit.reserve order t size).map fun (slot, order, t) => (slot, t, firstFit order)
  | largestFit free =>
    (free.take size).map fun (span, free) =>
      let (slot, t) := t.insert 0 span
      (slot, t, largestFit free)
  | slab pools fallThrough =>
    (SlotPool.reserve fallThrough size pools).map fun (slot, pools) =>
      (slot, t, slab pools fallThrough)

/-- Takes back the range of a slot whose entry has been released. -/
def release (p : Placement) (t : SlotTable) (slot : Nat) (e : Entry) :
    Except StoreError (SlotTable × Placement) :=
  match p with
  | firstFit order => .ok (t, firstFit order)
  | largestFit free =>
    match free.release e.span with
    | .error refusal => .error refusal
    | .ok (_, free) => .ok (t.retire slot, largestFit free)
  | slab pools fallThrough =>
    match SlotPool.release e.segment slot pools with
    | none => .error (.invariantViolation s!"segment {e.segment} has no pool")
    | some pools => .ok (t, slab pools fallThrough)

/-- Everything is free again, in a region of `size` bytes. Slots of pools keep their ranges. -/
def reset (p : Placement) (t : SlotTable) (size : Nat) : SlotTable × Placement :=
  match p with
  | firstFit _ =>
    let (order, t) := FirstFit.start t.reset size
    (t, firstFit order)
  | largestFit _ => (t.reset, largestFit (.spanning size))
  | slab pools fallThrough => (t.invalidateAll, slab (pools.map .refill) fallThrough)

end Placement

end RegionStore
