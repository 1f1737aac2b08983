import RegionStore.SlotTable

/-!
First fit by address. Every range of the region, issued or free, is on a list in address order;
a request takes the front of the first free range that is large enough. Ranges are cut, never
merged.
-/
namespace RegionStore.FirstFit

/-- The slot holds a free range of at least `size` bytes. -/
def fits (t : SlotTable) (size slot : Nat) : Bool :=
  match t.find? slot with
  | none => false
  | some e => e.free && size ≤ e.span.size

theorem fits_iff {t : SlotTable} {size slot : Nat} :
    fits t size slot = true ↔ ∃ e, t.find? slot = some e ∧ e.free = true ∧ size ≤ e.span.size := by
  unfold fits
  split <;> simp [*]

/-- One free range over the whole region. -/
def start (t : SlotTable) (size : Nat) : List Nat × SlotTable :=
  let (slot, t) := t.insert 0 (.ofSize 0 size)
  ([slot], t)

def insertBefore (fresh slot : Nat) : List Nat → List Nat
  | [] => []
  | other :: rest =>
    if other = slot then fresh :: other :: rest else other :: insertBefore fresh slot rest

theorem insertBefore_append {fresh slot : Nat} {lower : List Nat} (h : slot ∉ lower)
    (higher : List Nat) :
    insertBefore fresh slot (lower ++ slot :: higher) = lower ++ fresh :: slot :: higher := by
  induction lower with
  | nil => simp [insertBefore]
  | cons head rest ih =>
    obtain ⟨apart, absent⟩ : slot ≠ head ∧ slot ∉ rest := by simpa using h
    simp [insertBefore, Ne.symm apart, ih absent]

/-- Finds room for `size` bytes. A range that is larger than needed keeps its slot for what
remains, and the part in front of it goes to another slot. -/
def reserve (order : List Nat) (t : SlotTable) (size : Nat) :
    Option (Nat × List Nat × SlotTable) :=
  match order.find? (fits t size) with
  | none => none
  | some slot =>
    match t.find? slot with
    | none => none
    | some e =>
      if e.span.size = size then some (slot, order, t)
      else
        let (fresh, t) := t.insert 0 (.ofSize e.span.start size)
        some (fresh, insertBefore fresh slot order,
          t.modify slot (·.move 0 ⟨e.span.start + size, e.span.last⟩))

/-- There is room exactly if some range on the list fits. -/
theorem reserve_eq_none_iff {order : List Nat} {t : SlotTable} {size : Nat} :
    reserve order t size = none ↔ ∀ slot ∈ order, fits t size slot = false := by
  unfold reserve
  split
  · next h => simpa using h
  · next slot h =>
    obtain ⟨e, entry, -, -⟩ := fits_iff.1 (List.find?_some h)
    simp only [entry]
    constructor
    · intro none
      split at none <;> contradiction
    · intro absent
      have := List.find?_some h
      rw [absent slot (List.mem_of_find?_eq_some h)] at this
      contradiction

end RegionStore.FirstFit
