import RegionStore.Proofs.StoreRuns

/-!
The operations once more, step by step and with every step checked: sums and differences have to
stay inside their words, lists and tables have to hold what is looked up in them, only free entries
are moved or issued, and no bookkeeping contradicts itself. Where a step fails there is no result.
-/
namespace RegionStore

variable {α : Type}

def word32? (n : Nat) : Option Nat := if n < UInt32.size then some n else none

def word64? (n : Nat) : Option Nat := if n < UInt64.size then some n else none

/-- A difference of unsigned words. -/
def minus? (a b : Nat) : Option Nat := if b ≤ a then some (a - b) else none

/-- The ends of a range are 32-bit words, its size is a 64-bit one. -/
def Span.size? (s : Span) : Option Nat := do
  let reach ← minus? s.last s.start
  word64? (reach + 1)

namespace FreeSpans

def insert? (f : FreeSpans) (span : Span) : Option FreeSpans := do
  let bytes ← span.size?
  let freeBytes ← word64? (f.freeBytes + bytes)
  some { f.insert span with freeBytes }

def remove? (f : FreeSpans) (span : Span) : Option FreeSpans := do
  let bytes ← span.size?
  let freeBytes ← minus? f.freeBytes bytes
  some { f.remove span with freeBytes }

def spanning? (size : Nat) : Option FreeSpans :=
  if size = 0 then some empty
  else do
    let last ← word32? (size - 1)
    empty.insert? ⟨0, last⟩

def take? (f : FreeSpans) (size : Nat) : Option (Option (Span × FreeSpans)) :=
  match f.largest with
  | none => some none
  | some whole => do
    let room ← whole.size?
    if room < size then some none
    else
      let rest ← f.remove? whole
      let size ← word32? size
      let reach ← minus? size 1
      let last ← word32? (whole.start + reach)
      if last < whole.last then
        let next ← word32? (last + 1)
        let rest ← rest.insert? ⟨next, whole.last⟩
        some (some (⟨whole.start, last⟩, rest))
      else some (some (⟨whole.start, last⟩, rest))

def mergeLeft? (f : FreeSpans) (span : Span) : Option (Span × FreeSpans) :=
  match f.endingBefore span.start with
  | some left => (f.remove? left).map fun rest => (⟨left.start, span.last⟩, rest)
  | none => some (span, f)

def mergeRight? (f : FreeSpans) (span : Span) : Option (Span × FreeSpans) :=
  match f.startingAfter span.last with
  | some right => (f.remove? right).map fun rest => (⟨span.start, right.last⟩, rest)
  | none => some (span, f)

def release? (f : FreeSpans) (span : Span) : Option (Span × FreeSpans) :=
  match f.overlapping span with
  | some _ => none
  | none => do
    let (joined, f) ← f.mergeLeft? span
    let (joined, f) ← f.mergeRight? joined
    let f ← f.insert? joined
    some (joined, f)

/-- The sum of sizes that a check forms, range by range. -/
def sum? (total : Nat) : List Span → Option Nat
  | [] => some total
  | span :: rest => do
    let bytes ← span.size?
    let total ← word64? (total + bytes)
    sum? total rest

end FreeSpans

namespace SlotTable

/-- Gives a free entry another range. -/
def move? (t : SlotTable) (slot segment : Nat) (span : Span) : Option SlotTable := do
  let e ← t.find? slot
  guard (e.free = true)
  guard (span.start ≤ span.last)
  some (t.modify slot (·.move segment span))

def insert? (t : SlotTable) (segment : Nat) (span : Span) : Option (Nat × SlotTable) :=
  match t.vacant with
  | slot :: rest => do
    let t ← t.move? slot segment span
    some (slot, { t with vacant := rest })
  | [] => do
    let slot ← word32? t.slotCount
    some (slot, { t with entries := t.entries.push (.vacant segment span) })

/-- Hands a free entry out. -/
def issue? (t : SlotTable) (slot : Nat) (q : Request) (now : Int) : Option SlotTable := do
  let e ← t.find? slot
  guard (e.free = true)
  let len ← word32? q.size
  some (t.modify slot (·.issue len q.tag q.expiry now))

/-- Snapshots and the stack number slots in 32 bits. -/
def live? (t : SlotTable) : Option (List Snapshot) := do
  guard (t.slotCount ≤ UInt32.size)
  some t.live

def reset? (t : SlotTable) : Option SlotTable := do
  guard (t.slotCount ≤ UInt32.size)
  some t.reset

end SlotTable

namespace FirstFit

def fits? (t : SlotTable) (size slot : Nat) : Option Bool :=
  match t.find? slot with
  | none => some false
  | some e =>
    if e.free then e.span.size?.map fun room => decide (size ≤ room) else some false

/-- The position on the list of the first range that fits. -/
def position? (t : SlotTable) (size : Nat) : List Nat → Option (Option Nat)
  | [] => some none
  | slot :: rest => do
    if ← fits? t size slot then some (some 0)
    else (position? t size rest).map (·.map (· + 1))

def reserve? (order : List Nat) (t : SlotTable) (size : Nat) :
    Option (Option (Nat × List Nat × SlotTable)) := do
  match ← position? t size order with
  | none => some none
  | some i =>
    let slot ← order[i]?
    let e ← t.find? slot
    let room ← e.span.size?
    if room = size then some (some (slot, order, t))
    else
      let size ← word32? size
      let split ← word32? (e.span.start + size)
      let last ← minus? split 1
      let (fresh, t) ← t.insert? 0 ⟨e.span.start, last⟩
      let t ← t.move? slot 0 ⟨split, e.span.last⟩
      some (some (fresh, order.insertIdx i fresh, t))

end FirstFit

namespace SlotPool

/-- Positions of the pools whose slots hold `size` bytes. -/
def candidates (pools : List SlotPool) (size : Nat) (first : Nat) : List Nat :=
  ((pools.zipIdx first).filter (size ≤ ·.1.slotSize)).map (·.2)

/-- A slot from one of the pools at some positions, with the position of that pool. -/
def pop? (fallThrough : Bool) (pools : List SlotPool) :
    List Nat → Option (Option (Nat × Nat × List SlotPool))
  | [] => some none
  | i :: larger => do
    let pool ← pools[i]?
    match pool.free.pop? with
    | some (slot, free) => some (some (slot, i, pools.set i { pool with free }))
    | none => if fallThrough then pop? fallThrough pools larger else some none

end SlotPool

namespace Placement

/-- With the number of bytes that the reservation counts for. -/
def reserve? (p : Placement) (t : SlotTable) (size : Nat) :
    Option (Option (Nat × SlotTable × Placement × Nat)) :=
  match p with
  | firstFit order => do
    match ← FirstFit.reserve? order t size with
    | none => some none
    | some (slot, order, t) => some (some (slot, t, firstFit order, size))
  | largestFit free => do
    match ← free.take? size with
    | none => some none
    | some (span, free) =>
      let (slot, t) ← t.insert? 0 span
      some (some (slot, t, largestFit free, size))
  | slab pools fallThrough => do
    match ← SlotPool.pop? fallThrough pools (SlotPool.candidates pools size 0) with
    | none => some none
    | some (slot, i, pools) =>
      let pool ← pools[i]?
      some (some (slot, t, slab pools fallThrough, pool.slotSize))

/-- The number of bytes that the release of an entry counts for. -/
def bytes? (p : Placement) (e : Entry) : Option Nat :=
  match p with
  | firstFit _ => e.span.size?
  | largestFit _ => e.span.size?
  | slab pools _ => do
    let i ← pools.findIdx? (·.ownsSegment e.segment)
    let pool ← pools[i]?
    some pool.slotSize

def release? (p : Placement) (t : SlotTable) (slot : Nat) (e : Entry) :
    Option (SlotTable × Placement) :=
  match p with
  | firstFit order => some (t, firstFit order)
  | largestFit free => do
    let (_, free) ← free.release? e.span
    some (t.retire slot, largestFit free)
  | slab pools fallThrough => do
    let i ← pools.findIdx? (·.ownsSegment e.segment)
    let pool ← pools[i]?
    some (t, slab (pools.set i { pool with free := pool.free.push slot }) fallThrough)

def reset? (p : Placement) (t : SlotTable) (size : Nat) : Option (SlotTable × Placement) :=
  match p with
  | firstFit _ => do
    let t ← t.reset?
    let last ← minus? size 1
    let last ← word32? last
    let (slot, t) ← t.insert? 0 ⟨0, last⟩
    some (t, firstFit [slot])
  | largestFit _ => do
    let t ← t.reset?
    let free ← FreeSpans.spanning? size
    some (t, largestFit free)
  | slab pools fallThrough => some (t.invalidateAll, slab (pools.map .refill) fallThrough)

end Placement

namespace Usage

def addUsed? (u : Usage) (bytes : Nat) : Option Usage := do
  let used ← word64? (u.used.toNat + bytes)
  some { u with used := .ofNat used }

def subUsed? (u : Usage) (bytes : Nat) : Option Usage := do
  let used ← minus? u.used.toNat bytes
  some { u with used := .ofNat used }

/-- Counts a failure, and works out whether it is the one past the threshold. -/
def recordFailure? (u : Usage) : Option Usage := do
  let failures ← word64? (u.failures.toNat + 1)
  let _ ← word64? (u.threshold.toNat + 1)
  some { u with failures := .ofNat failures }

end Usage

namespace Region

def fill? (r : Region) (e : Entry) : Content → Option (Array Segment)
  | .reserved _ => some r.segments
  | .payload bytes => do
    let segment ← r.segments[e.segment]?
    let _ ← word64? (e.span.start + bytes.length)
    let segment ← segment.write? e.span.start bytes
    some (r.segments.modify e.segment fun _ => segment)

def place? (r : Region) (now : Int) (q : Request) : Option (Outcome Region Handle) := do
  match ← r.placement.reserve? r.table q.size with
  | none =>
    let usage ← r.usage.recordFailure?
    some (.error (.outOfSpace q.size), { r with usage })
  | some (slot, table, placement, bytes) =>
    let e ← table.find? slot
    let segments ← r.fill? e q.content
    let table ← table.issue? slot q now
    let usage ← r.usage.addUsed? bytes
    some (.ok ⟨r.id, slot, e.generation⟩, { table, segments, placement, usage })

def submit? (r : Region) (now : Int) (q : Request) : Option (Outcome Region Handle) :=
  match q.refusal? r.maxRequest with
  | some refusal => some (.error refusal, r)
  | none => r.place? now q

/-- The segment of an entry, with so many bytes of the entry in reach. -/
def reach? (r : Region) (e : Entry) (len : Nat) : Option Segment := do
  let segment ← r.segments[e.segment]?
  let _ ← word64? (e.span.start + len)
  let _ ← word64? (e.span.last + 1)
  some segment

def view? (r : Region) (now : Int) (h : Handle) (f : List UInt8 → α) :
    Option (Outcome Region α) :=
  match r.table.checked h with
  | .error refusal => some (.error refusal, r)
  | .ok e => do
    let segment ← r.reach? e e.lease.len
    match segment.view e h.generation with
    | .error refusal => some (.error refusal, r)
    | .ok payload =>
      some (.ok (f payload), { r with table := r.table.modify h.slot (·.hit now) })

def edit? (r : Region) (h : Handle) (f : List UInt8 → List UInt8 × α) :
    Option (Outcome Region α) :=
  match r.table.checked h with
  | .error refusal => some (.error refusal, r)
  | .ok e => do
    let segment ← r.reach? e e.lease.len
    match segment.edit e h.generation f with
    | .error refusal => some (.error refusal, r)
    | .ok (answer, segment) =>
      some (.ok answer, { r with segments := r.segments.modify e.segment fun _ => segment })

def overwrite? (r : Region) (h : Handle) (payload : List UInt8) :
    Option (Outcome Region Handle) :=
  match r.table.checked h with
  | .error refusal => some (.error refusal, r)
  | .ok e => do
    let segment ← r.reach? e payload.length
    match segment.overwrite e h.generation payload with
    | .error refusal => some (.error refusal, r)
    | .ok (segment, e') =>
      some (.ok h, { r with
        table := r.table.modify h.slot fun _ => e'
        segments := r.segments.modify e.segment fun _ => segment })

def replace? (r : Region) (now : Int) (h : Handle) (payload : List UInt8) :
    Option (Outcome Region Handle) :=
  match r.table.claim? h.slot h.generation with
  | none => some (.error .staleHandle, r)
  | some (e, table) => do
    let bytes ← e.span.size?
    let usage ← r.usage.subUsed? bytes
    { r with table, usage }.place? now ⟨.payload payload, e.lease.expiry, e.lease.tag⟩

def update? (r : Region) (now : Int) (h : Handle) (payload : List UInt8) :
    Option (Outcome Region Handle) :=
  if payload.isEmpty then some (.error .emptyPayload, r)
  else match r.table.checked h with
    | .error refusal => some (.error refusal, r)
    | .ok e => do
      let room ← e.span.size?
      if room < payload.length then
        some (.error (.capacityExceeded payload.length room), r)
      else match r.placement with
        | .firstFit _ => r.replace? now h payload
        | .largestFit _ => r.overwrite? h payload
        | .slab _ _ => r.overwrite? h payload

/-- Sizes and pools are worked out before it is known whether the handle is good. -/
def release? (r : Region) (h : Handle) : Option (Outcome Region Nat) :=
  if h.region ≠ r.id then some (.error (.unknownRegion h.region), r)
  else match r.table.find? h.slot with
    | none => some (.ok 0, r)
    | some e => do
      let bytes ← r.placement.bytes? e
      match e.claim? h.generation with
      | none => some (.ok 0, r)
      | some e' =>
        let (table, placement) ←
          r.placement.release? (r.table.modify h.slot fun _ => e') h.slot e
        let usage ← r.usage.subUsed? bytes
        some (.ok bytes, { r with table, placement, usage })

/-- Releases handles one after another and adds the bytes to a running total. -/
def releaseAll? (total : Nat) (r : Region) : List Handle → Option (Outcome Region Nat)
  | [] => some (.ok total, r)
  | h :: rest => do
    match ← r.release? h with
    | (.error refusal, r) => some (.error refusal, r)
    | (.ok freed, r) =>
      let total ← word64? (total + freed)
      releaseAll? total r rest

def collectExpired? (r : Region) (batch : Nat) (now : Int) : Option (Outcome Region Nat) := do
  let live ← r.table.live?
  r.releaseAll? 0 ((expiredBatch live batch now).map (·.handle))

/-- The age of a payload that has been used is a signed 64-bit word. -/
def Aged (live : List Snapshot) (now : Int) : Prop :=
  ∀ x ∈ live, x.lease.hits ≠ 0 →
    Millis.earliest ≤ now - x.lease.createdAt ∧ now - x.lease.createdAt ≤ Millis.latest

instance (live : List Snapshot) (now : Int) : Decidable (Aged live now) :=
  inferInstanceAs (Decidable (∀ x ∈ live, _))

def collectLeastUsed? (r : Region) (batch : Nat) (now : Int) : Option (Outcome Region Nat) :=
  if !r.inShortage then some (.ok 0, r)
  else do
    let live ← r.table.live?
    if live.isEmpty then some (.ok 0, r)
    else
      guard (Aged live now)
      match ← r.releaseAll? 0
          ((leastUsed live now (evictionCount live.length batch)).map (·.handle)) with
      | (.error refusal, r) => some (.error refusal, r)
      | (.ok freed, r) =>
        some (.ok freed, if 0 < freed then { r with usage := r.usage.resetFailures } else r)

def clear? (r : Region) : Option Region := do
  let (table, placement) ← r.placement.reset? r.table r.capacity
  some { r with table, placement, usage := r.usage.reset }

/-- The check of largest fit adds up all free ranges, and the used bytes to them. -/
def check? (r : Region) : Option (Except StoreError Unit) :=
  match r.placement with
  | .largestFit free => do
    let _ ← FreeSpans.sum? 0 free.byOffset
    let _ ← word64? (free.freeBytes + r.used)
    some r.check
  | .firstFit _ => some r.check
  | .slab _ _ => some r.check

def perform? (r : Region) (now : Int) : Op → Option (Answer α × Region)
  | .submit q => (r.submit? now q).map (·.map (.ofExcept .handle) fun r => r)
  | .view k f => (r.view? now k f).map (·.map (.ofExcept .bytes) fun r => r)
  | .edit k patch => (r.edit? k patch.run).map (·.map (.ofExcept fun _ => .done) fun r => r)
  | .update k bytes => (r.update? now k bytes).map (·.map (.ofExcept .handle) fun r => r)
  | .release k => (r.release? k).map (·.map (.ofExcept .count) fun r => r)
  | .collectExpired batch =>
    (r.collectExpired? batch now).map (·.map (.ofExcept .count) fun r => r)
  | .collectLeastUsed batch =>
    (r.collectLeastUsed? batch now).map (·.map (.ofExcept .count) fun r => r)
  | .setThreshold threshold => some (.done, r.setThreshold threshold)
  | .clear => r.clear?.map fun r => (.done, r)

end Region

namespace Store

def onRegion? (s : Store) (id : Nat) (op : Region → Option (Outcome Region α)) :
    Option (Outcome Store α) :=
  match s.region id with
  | .error refusal => some (.error refusal, s)
  | .ok r => do
    let (answer, r) ← op r
    some (answer, s.setRegion id r)

def tryRegions? (now : Int) (q : Request) : (budget attempt : Nat) → (previous : Option Nat) →
    Store → Option (Outcome Store (Option Handle))
  | 0, _, _, s => some (s.exhausted q)
  | budget + 1, attempt, previous, s =>
    match s.routing.next previous attempt s.regions.length with
    | (none, routing) => some ({ s with routing }.exhausted q)
    | (some id, routing) => do
      let r ← s.regions[id]?
      match ← r.submit? now q with
      | (.ok h, r) =>
        some (.ok (some h), { s.setRegion id r with
          routing, tally := { s.tally with stores := s.tally.stores + 1 } })
      | (.error refusal, r) =>
        let s := { s.setRegion id r with routing }
        if refusal.isRetryable then tryRegions? now q budget (attempt + 1) (some id) s
        else some (.error refusal, s)

def submit? (s : Store) (now : Int) (q : Request) : Option (Outcome Store (Option Handle)) :=
  match q.refusal? s.maxRequest with
  | some refusal => some (.error refusal, s)
  | none => tryRegions? now q (s.routing.attemptLimit s.regions.length) 1 none s

def view? (s : Store) (now : Int) (h : Handle) (f : List UInt8 → α) : Option (Outcome Store α) :=
  s.onRegion? h.region (·.view? now h f)

def edit? (s : Store) (h : Handle) (f : List UInt8 → List UInt8 × α) :
    Option (Outcome Store α) :=
  s.onRegion? h.region (·.edit? h f)

def update? (s : Store) (now : Int) (h : Handle) (payload : List UInt8) :
    Option (Outcome Store Handle) :=
  s.onRegion? h.region (·.update? now h payload)

def release? (s : Store) (h : Handle) : Option (Outcome Store Nat) := do
  match ← s.onRegion? h.region (·.release? h) with
  | (.error refusal, s) => some (.error refusal, s)
  | (.ok freed, s) =>
    some (.ok freed,
      if 0 < freed then { s with tally := { s.tally with frees := s.tally.frees + 1 } } else s)

def move? (s : Store) (now : Int) (h : Handle) (payload : List UInt8) :
    Option (Outcome Store (Option Handle)) :=
  match s.info h with
  | .error refusal => some (.error refusal, s)
  | .ok old => do
    match ← s.submit? now
        ⟨.payload payload, remainingExpiry old.lease now, old.lease.tag⟩ with
    | (.error refusal, s) => some (.error refusal, s)
    | (.ok none, s) => some (.ok none, s)
    | (.ok (some moved), s) =>
      match ← s.release? h with
      | (.error refusal, s) => some (.error refusal, s)
      | (.ok _, s) => some (.ok (some moved), s)

def updateOrMove? (s : Store) (now : Int) (h : Handle) (payload : List UInt8) :
    Option (Outcome Store (Option Handle)) := do
  match ← s.update? now h payload with
  | (.ok h, s) => some (.ok (some h), s)
  | (.error (.capacityExceeded _ _), s) => s.move? now h payload
  | (.error refusal, s) => some (.error refusal, s)

def clear? (s : Store) : Option Store := do
  let regions ← s.regions.mapM (·.clear?)
  some { s with regions, routing := s.routing.reset }

/-- Sweeps region after region and adds the bytes to a running total. -/
def sweepRegions? (sweep : Region → Option (Outcome Region Nat)) (total : Nat) :
    List Region → Option (Except StoreError Nat × List Region)
  | [] => some (.ok total, [])
  | r :: rest => do
    match ← sweep r with
    | (.error refusal, r) => some (.error refusal, r :: rest)
    | (.ok freed, r) =>
      let total ← word64? (total + freed)
      let (answer, rest) ← sweepRegions? sweep total rest
      some (answer, r :: rest)

def collectExpired? (s : Store) (now : Int) : Option (Outcome Store Nat) := do
  match ← sweepRegions? (·.collectExpired? s.expireBatch now) 0 s.regions with
  | (.error refusal, regions) => some (.error refusal, { s with regions })
  | (.ok freed, regions) =>
    some (.ok freed, { s with
      regions, tally := { s.tally with expiredBytes := s.tally.expiredBytes + freed } })

def collectLeastUsed? (s : Store) (now : Int) : Option (Outcome Store Nat) := do
  match ← sweepRegions? (·.collectLeastUsed? s.leastUsedBatch now) 0 s.regions with
  | (.error refusal, regions) => some (.error refusal, { s with regions })
  | (.ok freed, regions) =>
    some (.ok freed, { s with
      regions, tally := { s.tally with leastUsedBytes := s.tally.leastUsedBytes + freed } })

def perform? (s : Store) (now : Int) : Op α → Option (Answer α × Store)
  | .put bytes expiry tag =>
    (s.submit? now ⟨.payload bytes, expiry, tag⟩).map (·.map (.ofExcept .ofPlace) id)
  | .reserve size expiry tag =>
    (s.submit? now ⟨.reserved size, expiry, tag⟩).map (·.map (.ofExcept .ofPlace) id)
  | .get k => (s.view? now k fun payload => payload).map (·.map (.ofExcept .bytes) id)
  | .view k f => (s.view? now k f).map (·.map (.ofExcept .shown) id)
  | .edit k patch => (s.edit? k patch.run).map (·.map (.ofExcept .shown) id)
  | .update k bytes => (s.update? now k bytes).map (·.map (.ofExcept .handle) id)
  | .updateOrMove k bytes => (s.updateOrMove? now k bytes).map (·.map (.ofExcept .ofPlace) id)
  | .release k => (s.release? k).map (·.map (.ofExcept .count) id)
  | .info k => some (.ofExcept .snapshot (s.info k), s)
  | .collectExpired => (s.collectExpired? now).map (·.map (.ofExcept .count) id)
  | .collectLeastUsed => (s.collectLeastUsed? now).map (·.map (.ofExcept .count) id)
  | .clear => s.clear?.map fun s => (.done, s)

def take? (s : Store) (now : Int) : Command α → Option (Answer α × Store)
  | .ask op => s.perform? now op
  | .inRegion i op =>
    match s.regions[i]? with
    | none => some (.refused (.unknownRegion i), s)
    | some r => do
      let (answer, r) ← r.perform? now op
      some (answer, s.setRegion i r)

def run? (s : Store) : List (Int × Command α) → Option (List (Answer α) × Store)
  | [] => some ([], s)
  | (now, step) :: rest => do
    let (answer, s) ← s.take? now step
    let (answers, s) ← s.run? rest
    some (answer :: answers, s)

end Store

end RegionStore
