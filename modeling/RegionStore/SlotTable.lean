import RegionStore.Entry
import RegionStore.StoreError

/-!
The table of a region's entries. Slots are numbered in order of creation and are never given
up; a slot that is retired waits on a stack and is used again, with its generation already
advanced, before a new one is made.
-/
namespace RegionStore

structure SlotTable where
  region : Nat
  entries : Array Entry
  /-- The slot retired last comes first. -/
  vacant : List Nat
  deriving DecidableEq, Repr

namespace SlotTable

def empty (region : Nat) : SlotTable := ⟨region, #[], []⟩

def slotCount (t : SlotTable) : Nat := t.entries.size

/-- The entry of a slot in whatever state it is. -/
def find? (t : SlotTable) (slot : Nat) : Option Entry := t.entries[slot]?

def modify (t : SlotTable) (slot : Nat) (f : Entry → Entry) : SlotTable :=
  { t with entries := t.entries.modify slot f }

@[simp] theorem find?_modify (t : SlotTable) (slot other : Nat) (f : Entry → Entry) :
    (t.modify slot f).find? other =
      if slot = other then (t.find? other).map f else t.find? other := by
  simp only [find?, modify, Array.getElem?_modify]

@[simp] theorem vacant_modify (t : SlotTable) (slot : Nat) (f : Entry → Entry) :
    (t.modify slot f).vacant = t.vacant := rfl

@[simp] theorem slotCount_modify (t : SlotTable) (slot : Nat) (f : Entry → Entry) :
    (t.modify slot f).slotCount = t.slotCount := by
  simp [slotCount, modify]

/-- A free entry for the range, in the slot retired last or else in a new one. -/
def insert (t : SlotTable) (segment : Nat) (span : Span) : Nat × SlotTable :=
  match t.vacant with
  | slot :: rest => (slot, { (t.modify slot (·.move segment span)) with vacant := rest })
  | [] => (t.slotCount, { t with entries := t.entries.push (.vacant segment span) })

/-- Puts a released slot on the stack. -/
def retire (t : SlotTable) (slot : Nat) : SlotTable := { t with vacant := slot :: t.vacant }

@[simp] theorem find?_retire (t : SlotTable) (slot other : Nat) :
    (t.retire slot).find? other = t.find? other := rfl

/-- The entry that a handle names: it must be of this region and not yet released. -/
def checked (t : SlotTable) (h : Handle) : Except StoreError Entry :=
  if h.region ≠ t.region then .error (.unknownRegion h.region)
  else match t.find? h.slot with
    | none => .error .staleHandle
    | some e => if e.isCurrent h.generation then .ok e else .error .staleHandle

theorem checked_eq_ok_iff {t : SlotTable} {h : Handle} {e : Entry} :
    t.checked h = .ok e ↔
      h.region = t.region ∧ t.find? h.slot = some e ∧ e.isCurrent h.generation = true := by
  unfold checked
  split
  · next foreign => simp [foreign]
  · next same =>
    have same : h.region = t.region := Classical.not_not.1 same
    split
    · next missing => simp [missing]
    · next found entry =>
      split
      · next current => grind
      · next stale => grind

/-- Releases what a handle names and returns the entry as it was, or `none` for a handle that
names nothing any more. -/
def claim? (t : SlotTable) (slot : Nat) (g : UInt32) : Option (Entry × SlotTable) :=
  match t.find? slot with
  | none => none
  | some e =>
    match e.claim? g with
    | none => none
    | some e' => some (e, t.modify slot fun _ => e')

theorem claim?_eq_some_iff {t t' : SlotTable} {slot : Nat} {g : UInt32} {e : Entry} :
    t.claim? slot g = some (e, t') ↔ t.find? slot = some e ∧ e.isCurrent g = true ∧
      t' = t.modify slot fun _ => e.invalidate := by
  unfold claim? Entry.claim?
  grind

theorem claim?_eq_none_iff {t : SlotTable} {slot : Nat} {g : UInt32} :
    t.claim? slot g = none ↔ ∀ e, t.find? slot = some e → e.isCurrent g = false := by
  unfold claim? Entry.claim?
  grind

def snapshots (t : SlotTable) : List Snapshot :=
  t.entries.toList.mapIdx fun slot e => e.snapshot t.region slot

/-- Snapshots of the issued entries, in slot order. -/
def live (t : SlotTable) : List Snapshot := t.snapshots.filter (!·.free)

theorem mem_live {t : SlotTable} {s : Snapshot} :
    s ∈ t.live ↔ ∃ slot e, t.find? slot = some e ∧ e.free = false ∧
      s = e.snapshot t.region slot := by
  simp only [live, snapshots, List.mem_filter, List.mem_mapIdx, find?]
  constructor
  · rintro ⟨⟨slot, bound, rfl⟩, issued⟩
    have bound : slot < t.entries.size := bound
    refine ⟨slot, t.entries[slot], by simp [bound], ?_, by simp⟩
    simpa [Entry.snapshot] using issued
  · rintro ⟨slot, e, found, issued, rfl⟩
    obtain ⟨bound, rfl⟩ := Array.getElem?_eq_some_iff.1 found
    exact ⟨⟨slot, bound, by simp⟩, by simp [Entry.snapshot, issued]⟩

/-- Ends every handle; slots stay as they are assigned. -/
def invalidateAll (t : SlotTable) : SlotTable :=
  { t with entries := t.entries.map Entry.invalidate }

@[simp] theorem find?_invalidateAll (t : SlotTable) (slot : Nat) :
    t.invalidateAll.find? slot = (t.find? slot).map Entry.invalidate := by
  simp [find?, invalidateAll]

/-- Ends every handle and retires every slot, so that they are used again from slot zero on. -/
def reset (t : SlotTable) : SlotTable :=
  { t.invalidateAll with vacant := List.range t.slotCount }

@[simp] theorem find?_reset (t : SlotTable) (slot : Nat) :
    t.reset.find? slot = (t.find? slot).map Entry.invalidate := find?_invalidateAll t slot

end SlotTable

end RegionStore
