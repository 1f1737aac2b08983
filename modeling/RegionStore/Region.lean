import RegionStore.Placement
import RegionStore.Request
import RegionStore.Usage

/-!
A region: segments of bytes, the table of their entries, an account of what is free, and usage
counters. Every access through a handle is checked, so a handle kept past its release is refused
and never reads bytes of another owner.
-/
namespace RegionStore

structure Region where
  table : SlotTable
  segments : Array Segment
  placement : Placement
  usage : Usage

namespace Region

def id (r : Region) : Nat := r.table.region

/-- Bytes that can be issued in total. -/
def capacity (r : Region) : Nat := r.segments.toList.foldr (fun s total => s.size + total) 0

/-- Largest request that could ever be met. -/
def maxRequest (r : Region) : Nat :=
  match r.placement with
  | .firstFit _ => r.capacity
  | .largestFit _ => r.capacity
  | .slab pools _ => (pools.getLast?.map (·.slotSize)).getD 0

def used (r : Region) : Nat := r.usage.used.toNat

def inShortage (r : Region) : Bool := r.usage.inShortage

def setThreshold (r : Region) (threshold : UInt64) : Region :=
  { r with usage := { r.usage with threshold } }

/-- A region that places by first fit. -/
def firstFit (id size : Nat) : Except StoreError Region :=
  match Segment.make size with
  | .error refusal => .error refusal
  | .ok segment =>
    let (order, table) := FirstFit.start (.empty id) size
    .ok ⟨table, #[segment], .firstFit order, .withThreshold 0⟩

/-- A region that places by largest fit. -/
def largestFit (id size : Nat) : Except StoreError Region :=
  match Segment.make size with
  | .error refusal => .error refusal
  | .ok segment => .ok ⟨.empty id, #[segment], .largestFit (.spanning size), .withThreshold 0⟩

/-- A region of slot pools. Every slot has its entry from the start. -/
def slab (id size : Nat) (slotSizes : List Nat) (segmentsPerPool : Nat) (fallThrough : Bool) :
    Except StoreError Region :=
  match SlotPool.make size slotSizes segmentsPerPool with
  | .error refusal => .error refusal
  | .ok pools =>
    let entries := (pools.flatMap (·.extents)).map fun (segment, span) => .vacant segment span
    .ok {
      table := ⟨id, entries.toArray, []⟩
      segments := (pools.flatMap (·.segments)).toArray
      placement := .slab pools fallThrough
      usage := .withThreshold 0 }

/-- Copies a payload to the range of an entry; space that is only reserved keeps its bytes. -/
def fill (r : Region) (e : Entry) : Content → Except StoreError (Array Segment)
  | .reserved _ => .ok r.segments
  | .payload bytes =>
    match r.segments[e.segment]? with
    | none =>
      .error (.invariantViolation s!"slot references missing segment {e.segment}")
    | some segment =>
      match segment.write? e.span.start bytes with
      | none => .error (.invariantViolation
          s!"range at {e.span.start} does not fit in segment {e.segment}")
      | some segment => .ok (r.segments.modify e.segment fun _ => segment)

/-- Finds room, writes the payload there and issues a handle. A failure for lack of room is
counted and changes nothing else. -/
def place (r : Region) (now : Int) (q : Request) : Outcome Region Handle :=
  match r.placement.reserve r.table q.size with
  | none => (.error (.outOfSpace q.size), { r with usage := r.usage.recordFailure })
  | some (slot, table, placement) =>
    match table.find? slot with
    | none =>
      (.error (.invariantViolation s!"free queue references missing slot {slot}"), r)
    | some e =>
      match r.fill e q.content with
      | .error refusal => (.error refusal, r)
      | .ok segments =>
        (.ok ⟨r.id, slot, e.generation⟩, {
          table := table.modify slot (·.issue q.size q.tag q.expiry now)
          segments
          placement
          usage := r.usage.addUsed (.ofNat e.span.size) })

/-- Places a request that could fit at all. -/
def submit (r : Region) (now : Int) (q : Request) : Outcome Region Handle :=
  match q.refusal? r.maxRequest with
  | some refusal => (.error refusal, r)
  | none => r.place now q

theorem submit_eq_place {r : Region} {q : Request} (positive : 1 ≤ q.size)
    (small : q.size ≤ r.maxRequest) (now : Int) : r.submit now q = r.place now q := by
  rw [submit, Request.refusal?_eq_none_iff.2 ⟨positive, small⟩]

/-- Entry and segment that a handle names. -/
def locate (r : Region) (h : Handle) : Except StoreError (Entry × Segment) :=
  match r.table.checked h with
  | .error refusal => .error refusal
  | .ok e =>
    match r.segments[e.segment]? with
    | none =>
      .error (.invariantViolation s!"slot references missing segment {e.segment}")
    | some segment => .ok (e, segment)

/-- Shows a payload to `f`, which counts as a hit. -/
def view (r : Region) (now : Int) (h : Handle) (f : List UInt8 → α) : Outcome Region α :=
  match r.locate h with
  | .error refusal => (.error refusal, r)
  | .ok (e, segment) =>
    match segment.view e h.generation with
    | .error refusal => (.error refusal, r)
    | .ok payload => (.ok (f payload), { r with table := r.table.modify h.slot (·.hit now) })

/-- A copy of the payload. -/
def get (r : Region) (now : Int) (h : Handle) : Outcome Region (List UInt8) :=
  r.view now h fun payload => payload

/-- Lets `f` change a payload in place; this is no hit. -/
def edit (r : Region) (h : Handle) (f : List UInt8 → List UInt8 × α) : Outcome Region α :=
  match r.locate h with
  | .error refusal => (.error refusal, r)
  | .ok (e, segment) =>
    match segment.edit e h.generation f with
    | .error refusal => (.error refusal, r)
    | .ok (answer, segment) =>
      (.ok answer, { r with segments := r.segments.modify e.segment fun _ => segment })

/-- Overwrites a payload in place; the handle stays good. -/
def overwrite (r : Region) (h : Handle) (payload : List UInt8) : Outcome Region Handle :=
  match r.locate h with
  | .error refusal => (.error refusal, r)
  | .ok (e, segment) =>
    match segment.overwrite e h.generation payload with
    | .error refusal => (.error refusal, r)
    | .ok (segment, e') =>
      (.ok h, { r with
        table := r.table.modify h.slot fun _ => e'
        segments := r.segments.modify e.segment fun _ => segment })

/-- Releases a range and places the new payload with the same expiry and tag. The range just
released is large enough, so there is always room. -/
def replace (r : Region) (now : Int) (h : Handle) (payload : List UInt8) :
    Outcome Region Handle :=
  match r.table.claim? h.slot h.generation with
  | none => (.error .staleHandle, r)
  | some (e, table) =>
    { r with table, usage := r.usage.subUsed (.ofNat e.span.size) }.place now
      ⟨.payload payload, e.lease.expiry, e.lease.tag⟩

/-- Gives a handle a new payload that must fit in its range. The handle that is answered takes
the place of the old one; only first fit issues a new one. -/
def update (r : Region) (now : Int) (h : Handle) (payload : List UInt8) :
    Outcome Region Handle :=
  if payload.isEmpty then (.error .emptyPayload, r)
  else match r.table.checked h with
    | .error refusal => (.error refusal, r)
    | .ok e =>
      if e.span.size < payload.length then
        (.error (.capacityExceeded payload.length e.span.size), r)
      else match r.placement with
        | .firstFit _ => r.replace now h payload
        | .largestFit _ => r.overwrite h payload
        | .slab _ _ => r.overwrite h payload

/-- Releases a range and answers with its size, or with zero if the handle is stale already. -/
def release (r : Region) (h : Handle) : Outcome Region Nat :=
  if h.region ≠ r.id then (.error (.unknownRegion h.region), r)
  else match r.table.claim? h.slot h.generation with
    | none => (.ok 0, r)
    | some (e, table) =>
      match r.placement.release table h.slot e with
      | .error refusal => (.error refusal, r)
      | .ok (table, placement) =>
        (.ok e.span.size,
          { r with table, placement, usage := r.usage.subUsed (.ofNat e.span.size) })

theorem release_of_claim?_eq_none {r : Region} {h : Handle} (own : h.region = r.id)
    (stale : r.table.claim? h.slot h.generation = none) : r.release h = (.ok 0, r) := by
  simp [release, own, stale]

def info (r : Region) (h : Handle) : Except StoreError Snapshot :=
  (r.table.checked h).map (·.snapshot r.id h.slot)

/-- What a handle names can be asked for exactly while the table knows it. -/
theorem info_eq_ok_iff {r : Region} {h : Handle} {s : Snapshot} :
    r.info h = .ok s ↔ ∃ e, r.table.checked h = .ok e ∧ s = e.snapshot r.id h.slot := by
  unfold info
  cases r.table.checked h <;> simp [Except.map, eq_comm]

def live (r : Region) : List Snapshot := r.table.live

/-- Releases everything at once. Bytes stay as they are. -/
def clear (r : Region) : Region :=
  let (table, placement) := r.placement.reset r.table r.capacity
  { r with table, placement, usage := r.usage.reset }

/-- Checks the free ranges, and that free and used bytes make up the whole region. Only the
account of largest fit can be checked on its own. -/
def check (r : Region) : Except StoreError Unit :=
  match r.placement with
  | .largestFit free =>
    match free.check with
    | .error refusal => .error refusal
    | .ok () =>
      if free.freeBytes + r.used ≠ r.capacity then
        .error (.invariantViolation
          s!"free {free.freeBytes} + used {r.used} != region size {r.capacity}")
      else .ok ()
  | .firstFit _ => .ok ()
  | .slab _ _ => .ok ()

end Region

end RegionStore
