import RegionStore.Queue
import RegionStore.Segment

/-!
Pools of equal slots. Each pool has segments of its own, cut from end to end into slots of one
size, and a queue of the free ones. Requests go to the smallest size that holds them.
-/
namespace RegionStore

structure SlotPool where
  slotSize : Nat
  slotsPerSegment : Nat
  segmentCount : Nat
  /-- Number of the pool's first segment; the others follow. -/
  firstSegment : Nat
  /-- Number of the pool's first slot; the others follow. -/
  firstSlot : Nat
  free : Queue Nat
  deriving Repr

namespace SlotPool

def slotCount (p : SlotPool) : Nat := p.segmentCount * p.slotsPerSegment

def segmentSize (p : SlotPool) : Nat := p.slotsPerSegment * p.slotSize

def freeCount (p : SlotPool) : Nat := p.free.size

def slots (p : SlotPool) : List Nat := List.range' p.firstSlot p.slotCount

def ownsSegment (p : SlotPool) (segment : Nat) : Bool :=
  p.firstSegment ≤ segment && segment < p.firstSegment + p.segmentCount

/-- Every slot is free again, in slot order. -/
def refill (p : SlotPool) : SlotPool := { p with free := .ofList p.slots }

/-- The range of the slot at a position of a segment. -/
def slotSpan (p : SlotPool) (position : Nat) : Span := .ofSize (position * p.slotSize) p.slotSize

/-- Segment and range of every slot, in slot order. -/
def extents (p : SlotPool) : List (Nat × Span) :=
  (List.range p.segmentCount).flatMap fun segment =>
    (List.range p.slotsPerSegment).map fun position =>
      (p.firstSegment + segment, p.slotSpan position)

theorem length_extents (p : SlotPool) : p.extents.length = p.slotCount := by
  simp [extents, slotCount, List.length_flatMap, List.map_const']

def segments (p : SlotPool) : List Segment := List.replicate p.segmentCount (.zeroed p.segmentSize)

/-- Adds a size to a strictly ascending list. -/
def insertAscending (size : Nat) : List Nat → List Nat
  | [] => [size]
  | other :: rest =>
    if size < other then size :: other :: rest
    else if size = other then other :: rest
    else other :: insertAscending size rest

/-- The distinct sizes in ascending order. -/
def ascending (sizes : List Nat) : List Nat := sizes.foldr insertAscending []

theorem mem_insertAscending {size other : Nat} {sizes : List Nat} :
    other ∈ insertAscending size sizes ↔ other = size ∨ other ∈ sizes := by
  induction sizes with
  | nil => simp [insertAscending]
  | cons head rest ih => grind [insertAscending]

theorem mem_ascending {size : Nat} {sizes : List Nat} : size ∈ ascending sizes ↔ size ∈ sizes := by
  induction sizes with
  | nil => simp [ascending]
  | cons head rest ih =>
    simp only [ascending, List.foldr_cons, mem_insertAscending, List.mem_cons]
    exact or_congr_right ih

theorem pairwise_insertAscending {size : Nat} {sizes : List Nat} (h : sizes.Pairwise (· < ·)) :
    (insertAscending size sizes).Pairwise (· < ·) := by
  induction sizes with
  | nil => simp [insertAscending]
  | cons head rest ih =>
    have ⟨first, others⟩ := List.pairwise_cons.1 h
    unfold insertAscending
    split
    · next below =>
      refine List.pairwise_cons.2 ⟨fun other member => ?_, h⟩
      rcases List.mem_cons.1 member with rfl | member
      · exact below
      · exact Nat.lt_trans below (first other member)
    · split
      · exact h
      · refine List.pairwise_cons.2 ⟨fun other member => ?_, ih others⟩
        rcases mem_insertAscending.1 member with rfl | member
        · omega
        · exact first other member

theorem pairwise_ascending (sizes : List Nat) : (ascending sizes).Pairwise (· < ·) := by
  induction sizes with
  | nil => simp [ascending]
  | cons head rest ih => exact pairwise_insertAscending ih

/-- One pool per size, each over `count` segments of at most `budget` bytes. Segments and slots
are numbered through from the given ones on. -/
def layOut (count budget : Nat) (firstSegment firstSlot : Nat) :
    List Nat → Except StoreError (List SlotPool)
  | [] => .ok []
  | size :: larger =>
    let pool : SlotPool := ⟨size, budget / size, count, firstSegment, firstSlot, .ofList []⟩
    if pool.slotsPerSegment = 0 then
      .error (.invalidConfig s!"slot size {size} does not fit in a {budget} byte segment")
    else match Segment.make pool.segmentSize with
      | .error refusal => .error refusal
      | .ok _ =>
        match layOut count budget (firstSegment + count) (firstSlot + pool.slotCount) larger with
        | .error refusal => .error refusal
        | .ok pools => .ok (pool.refill :: pools)

/-- Splits `size` bytes evenly among the distinct slot sizes, and each share among `count`
segments. -/
def make (size : Nat) (slotSizes : List Nat) (count : Nat) : Except StoreError (List SlotPool) :=
  match ascending slotSizes with
  | [] => .error (.invalidConfig "slab allocator needs at least one slot size")
  | smallest :: larger =>
    if smallest = 0 then .error (.invalidConfig "slot size must be greater than zero")
    else if count = 0 then .error (.invalidConfig "segments per pool must be greater than zero")
    else
      let sizes := smallest :: larger
      layOut count (size / sizes.length / count) 0 0 sizes

/-- A free slot of the first pool whose slots hold `size` bytes. When that pool has none left,
the next larger ones are tried only if `fallThrough` is set. -/
def reserve (fallThrough : Bool) (size : Nat) : List SlotPool → Option (Nat × List SlotPool)
  | [] => none
  | pool :: larger =>
    match if pool.slotSize < size then none else pool.free.pop? with
    | some (slot, free) => some (slot, { pool with free } :: larger)
    | none =>
      if pool.slotSize < size || fallThrough then
        (reserve fallThrough size larger).map fun (slot, pools) => (slot, pool :: pools)
      else none

/-- Puts a slot back into the queue of the pool that owns the segment it lies in. -/
def release (segment slot : Nat) : List SlotPool → Option (List SlotPool)
  | [] => none
  | pool :: others =>
    if pool.ownsSegment segment then some ({ pool with free := pool.free.push slot } :: others)
    else (release segment slot others).map (pool :: ·)

end SlotPool

end RegionStore
