import Std.Data.TreeMap
import RegionStore.Entry
import RegionStore.StoreError

/-!
Fixed blocks of bytes, and access to them through entries. Bytes start as zero and only the
written ones are kept. Access through an entry stays inside the entry's range and inside the
segment, whatever the entry says: reading and overwriting refuse all else.
-/
namespace RegionStore

structure Segment where
  size : Nat
  written : Std.TreeMap Nat UInt8

namespace Segment

/-- Offsets are kept in 32 bits. -/
def maxSize : Nat := UInt32.size - 1

def zeroed (size : Nat) : Segment := ⟨size, {}⟩

/-- A zeroed segment of an admissible size. -/
def make (size : Nat) : Except StoreError Segment :=
  if size = 0 then .error (.invalidConfig "region size must be greater than zero")
  else if maxSize < size then
    .error (.invalidConfig s!"region size {size} exceeds maximum of {maxSize} bytes")
  else .ok (zeroed size)

def byteAt (s : Segment) (offset : Nat) : UInt8 := s.written.getD offset 0

/-- The `n` bytes from `start` on. -/
def read (s : Segment) (start : Nat) : Nat → List UInt8
  | 0 => []
  | n + 1 => s.byteAt start :: s.read (start + 1) n

@[simp] theorem length_read (s : Segment) (start n : Nat) : (s.read start n).length = n := by
  induction n generalizing start with
  | zero => rfl
  | succ n ih => simp [read, ih]

theorem getElem_read {s : Segment} {start n i : Nat} (h : i < (s.read start n).length) :
    (s.read start n)[i] = s.byteAt (start + i) := by
  induction n generalizing start i with
  | zero => simp [read] at h
  | succ n ih =>
    cases i with
    | zero => simp [read]
    | succ i => simp [read, ih]; congr 1; omega

def put (s : Segment) (start : Nat) : List UInt8 → Segment
  | [] => s
  | b :: rest => { s with written := s.written.insert start b }.put (start + 1) rest

@[simp] theorem size_put (s : Segment) (start : Nat) (payload : List UInt8) :
    (s.put start payload).size = s.size := by
  induction payload generalizing s start with
  | nil => rfl
  | cons b rest ih => simp [put, ih]

theorem byteAt_put (s : Segment) (start offset : Nat) (payload : List UInt8) :
    (s.put start payload).byteAt offset =
      if start ≤ offset then (payload[offset - start]?).getD (s.byteAt offset)
      else s.byteAt offset := by
  induction payload generalizing s start with
  | nil => simp [put]
  | cons b rest ih =>
    rw [put, ih]
    have insert : ({ s with written := s.written.insert start b } : Segment).byteAt offset =
        if start = offset then b else s.byteAt offset := by
      simp [byteAt, Std.TreeMap.getD_insert]
    rw [insert]
    by_cases before : start ≤ offset
    · by_cases here : start = offset
      · subst here
        simp [show ¬ start + 1 ≤ start by omega]
      · have after : start + 1 ≤ offset := by omega
        have index : offset - start = offset - (start + 1) + 1 := by omega
        simp [before, here, after, index]
    · have : ¬ start + 1 ≤ offset := by omega
      have : start ≠ offset := by omega
      simp [*]

/-- What was put is read back. -/
theorem read_put (s : Segment) (start : Nat) (payload : List UInt8) :
    (s.put start payload).read start payload.length = payload := by
  apply List.ext_getElem
  · simp
  · intro i read written
    rw [getElem_read, byteAt_put]
    simp [written]

/-- What lies elsewhere is untouched. -/
theorem read_put_of_disjoint {s : Segment} {start other n : Nat} {payload : List UInt8}
    (apart : other + n ≤ start ∨ start + payload.length ≤ other) :
    (s.put start payload).read other n = s.read other n := by
  apply List.ext_getElem
  · simp
  · intro i left right
    have bound : i < n := by simpa using left
    rw [getElem_read, getElem_read, byteAt_put]
    split
    · next before =>
      have : payload.length ≤ other + i - start := by omega
      simp [List.getElem?_eq_none this]
    · rfl

/-- Writes the payload if all of it lies inside the segment. -/
def write? (s : Segment) (start : Nat) (payload : List UInt8) : Option Segment :=
  if start + payload.length ≤ s.size then some (s.put start payload) else none

/-- The entry is current and `len` bytes from its start on lie inside its range and inside the
segment. A longer `len` would mean that the entry has passed to another owner meanwhile. -/
def accessible (s : Segment) (e : Entry) (g : UInt32) (len : Nat) : Bool :=
  e.isCurrent g && e.span.start + len ≤ e.span.last + 1 && e.span.start + len ≤ s.size

theorem accessible_iff {s : Segment} {e : Entry} {g : UInt32} {len : Nat} :
    s.accessible e g len = true ↔ e.isCurrent g = true ∧
      e.span.start + len ≤ e.span.last + 1 ∧ e.span.start + len ≤ s.size := by
  simp [accessible, and_assoc]

/-- The payload of an entry. -/
def view (s : Segment) (e : Entry) (g : UInt32) : Except StoreError (List UInt8) :=
  if s.accessible e g e.lease.len then .ok (s.read e.span.start e.lease.len)
  else .error .staleHandle

/-- Lets `f` change the payload of an entry; the length stays, so what `f` leaves beyond it is
dropped and what it leaves out keeps its bytes. -/
def edit (s : Segment) (e : Entry) (g : UInt32) (f : List UInt8 → List UInt8 × α) :
    Except StoreError (α × Segment) :=
  match s.view e g with
  | .error refusal => .error refusal
  | .ok payload =>
    let (changed, answer) := f payload
    .ok (answer, s.put e.span.start (changed.take payload.length))

/-- Replaces the payload of an entry and records the new length. -/
def overwrite (s : Segment) (e : Entry) (g : UInt32) (payload : List UInt8) :
    Except StoreError (Segment × Entry) :=
  if s.accessible e g payload.length then
    .ok (s.put e.span.start payload, e.resize payload.length)
  else .error .staleHandle

theorem view_eq_ok_iff {s : Segment} {e : Entry} {g : UInt32} {payload : List UInt8} :
    s.view e g = .ok payload ↔
      s.accessible e g e.lease.len = true ∧ payload = s.read e.span.start e.lease.len := by
  unfold view
  split
  · next h => exact ⟨fun k => ⟨h, (Except.ok.inj k).symm⟩, fun k => k.2 ▸ rfl⟩
  · next h => exact ⟨nofun, fun k => absurd k.1 h⟩

end Segment

end RegionStore
