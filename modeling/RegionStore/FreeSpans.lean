import RegionStore.StoreError
import RegionStore.Span

/-!
The free ranges of a region, kept twice: by offset, to find the neighbours of a range that comes
back, and by size, to find the largest one. Ranges that touch are merged as they come back, so
the ranges are the maximal runs of free bytes.
-/
namespace RegionStore

structure FreeSpans where
  /-- In address order. -/
  byOffset : List Span
  /-- Largest first; of equal ones the lowest first. -/
  bySize : List Span
  freeBytes : Nat
  deriving DecidableEq, Repr

namespace FreeSpans

def empty : FreeSpans := ⟨[], [], 0⟩

def offsetBefore (a b : Span) : Bool := a.start < b.start

def sizeBefore (a b : Span) : Bool := b.size < a.size || (a.size == b.size && a.start < b.start)

/-- Places a range in front of the first one that comes after it. -/
def insertBy (before : Span → Span → Bool) (span : Span) : List Span → List Span
  | [] => [span]
  | other :: rest =>
    if before span other then span :: other :: rest else other :: insertBy before span rest

theorem mem_insertBy {before : Span → Span → Bool} {span other : Span} {spans : List Span} :
    other ∈ insertBy before span spans ↔ other = span ∨ other ∈ spans := by
  induction spans with
  | nil => simp [insertBy]
  | cons head rest ih =>
    unfold insertBy
    split
    · simp
    · simp only [List.mem_cons, ih]; grind

theorem perm_insertBy (before : Span → Span → Bool) (span : Span) (spans : List Span) :
    (insertBy before span spans).Perm (span :: spans) := by
  induction spans with
  | nil => exact .refl _
  | cons head rest ih =>
    unfold insertBy
    split
    · exact .refl _
    · exact (ih.cons head).trans (.swap ..)

def insert (f : FreeSpans) (span : Span) : FreeSpans where
  byOffset := insertBy offsetBefore span f.byOffset
  bySize := insertBy sizeBefore span f.bySize
  freeBytes := f.freeBytes + span.size

def remove (f : FreeSpans) (span : Span) : FreeSpans where
  byOffset := f.byOffset.erase span
  bySize := f.bySize.erase span
  freeBytes := f.freeBytes - span.size

/-- One range over `size` bytes; offsets are kept in 32 bits. -/
def spanning (size : Nat) : FreeSpans :=
  if size = 0 then empty else empty.insert ⟨0, (size - 1) % UInt32.size⟩

/-- The largest range, of several the one with the lowest start. -/
def largest (f : FreeSpans) : Option Span := f.bySize.head?

/-- Cuts `size` bytes off the front of the largest range. If they do not fit there, they fit
nowhere. -/
def take (f : FreeSpans) (size : Nat) : Option (Span × FreeSpans) :=
  match f.largest with
  | none => none
  | some whole =>
    if whole.size < size then none
    else
      let issued := Span.ofSize whole.start size
      let rest := f.remove whole
      some (issued,
        if issued.last < whole.last then rest.insert ⟨issued.last + 1, whole.last⟩ else rest)

/-- The last range that starts at or before an offset. -/
def lastUpTo (f : FreeSpans) (offset : Nat) : Option Span :=
  (f.byOffset.takeWhile (·.start ≤ offset)).getLast?

/-- The range that ends right before an offset. -/
def endingBefore (f : FreeSpans) (offset : Nat) : Option Span :=
  f.byOffset.find? (·.last + 1 == offset)

/-- The range that starts right after an offset. -/
def startingAfter (f : FreeSpans) (offset : Nat) : Option Span :=
  f.byOffset.find? (·.start == offset + 1)

/-- Takes the free range that ends right before `span` out of the set and joins the two. -/
def mergeLeft (f : FreeSpans) (span : Span) : Span × FreeSpans :=
  match f.endingBefore span.start with
  | some left => (⟨left.start, span.last⟩, f.remove left)
  | none => (span, f)

/-- Takes the free range that starts right after `span` out of the set and joins the two. -/
def mergeRight (f : FreeSpans) (span : Span) : Span × FreeSpans :=
  match f.startingAfter span.last with
  | some right => (⟨span.start, right.last⟩, f.remove right)
  | none => (span, f)

/-- The free range that shares a byte with `span`, if one does: only the last one that starts
at or before the end of `span` can reach into it. -/
def overlapping (f : FreeSpans) (span : Span) : Option Span :=
  (f.lastUpTo span.last).filter (span.start ≤ ·.last)

/-- Gives a range back and answers with the range it has become part of. A range with free
bytes in it is refused. -/
def release (f : FreeSpans) (span : Span) : Except StoreError (Span × FreeSpans) :=
  match f.overlapping span with
  | some free => .error (.invariantViolation
      (s!"released range [{span.start}, {span.last}] overlaps " ++
        s!"free range [{free.start}, {free.last}]"))
  | none =>
    let (joined, f) := f.mergeLeft span
    let (joined, f) := f.mergeRight joined
    .ok (joined, f.insert joined)

/-- Walks over the ranges in address order and adds up their sizes. -/
def sumChecked (total : Nat) : Option Span → List Span → Except StoreError Nat
  | _, [] => .ok total
  | previous, span :: rest =>
    if span.last < span.start then
      .error (.invariantViolation s!"free range [{span.start}, {span.last}] is inverted")
    else match previous.filter (span.start ≤ ·.last + 1) with
      | some left => .error (.invariantViolation
          s!"free range at {span.start} overlaps or touches range ending at {left.last}")
      | none => sumChecked (total + span.size) (some span) rest

/-- Checks that both orders hold the same ranges, that no two ranges overlap or touch, and that
the byte count is right. -/
def check (f : FreeSpans) : Except StoreError Unit :=
  if f.bySize.length ≠ f.byOffset.length then
    .error (.invariantViolation
      s!"free index sizes differ: {f.bySize.length} by size, {f.byOffset.length} by offset")
  else match f.bySize.find? (· ∉ f.byOffset) with
    | some stray => .error (.invariantViolation
        s!"free range at {stray.start} of {stray.size} bytes missing from offset index")
    | none =>
      match sumChecked 0 none f.byOffset with
      | .error refusal => .error refusal
      | .ok total =>
        if total ≠ f.freeBytes then
          .error (.invariantViolation
            s!"free byte count {f.freeBytes} does not match ranges total {total}")
        else .ok ()

end FreeSpans

end RegionStore
