/-!
Ranges of byte offsets.
-/
namespace RegionStore

/-- Both ends belong to the range, so it is never empty. -/
structure Span where
  start : Nat
  last : Nat
  deriving DecidableEq, Repr

namespace Span

def size (s : Span) : Nat := s.last - s.start + 1

theorem size_pos (s : Span) : 0 < s.size := Nat.succ_pos _

theorem start_add_size {s : Span} (ordered : s.start ≤ s.last) :
    s.start + s.size = s.last + 1 := by
  unfold size; omega

/-- The `n` bytes from `start` on, for positive `n`. -/
def ofSize (start n : Nat) : Span := ⟨start, start + n - 1⟩

theorem size_ofSize {n : Nat} (positive : 0 < n) (start : Nat) : (ofSize start n).size = n := by
  simp only [ofSize, size]; omega

theorem ofSize_start_size {s : Span} (ordered : s.start ≤ s.last) : ofSize s.start s.size = s := by
  have hlast : s.start + s.size - 1 = s.last := by rw [start_add_size ordered]; rfl
  rw [ofSize, hlast]

instance : Membership Nat Span where
  mem s offset := s.start ≤ offset ∧ offset ≤ s.last

theorem mem_def {s : Span} {offset : Nat} :
    offset ∈ s ↔ s.start ≤ offset ∧ offset ≤ s.last := Iff.rfl

instance (offset : Nat) (s : Span) : Decidable (offset ∈ s) :=
  inferInstanceAs (Decidable (_ ∧ _))

theorem mem_ofSize {start n offset : Nat} (positive : 0 < n) :
    offset ∈ ofSize start n ↔ start ≤ offset ∧ offset < start + n := by
  simp only [mem_def, ofSize]; omega

end Span

end RegionStore
