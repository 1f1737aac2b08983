import RegionStore.Proofs.CheckedOperations

/-!
Free ranges step by step. Inside a region no offset, no size and no count of free bytes leaves its
word, so the checked operations on the free ranges are the operations themselves.
-/
namespace RegionStore

theorem word32?_of_le {n : Nat} (h : n ≤ Segment.maxSize) : word32? n = some n := by
  refine if_pos ?_
  simp only [Segment.maxSize, UInt32.size] at h ⊢
  omega

theorem word64?_of_lt {n : Nat} (h : n < UInt64.size) : word64? n = some n := if_pos h

theorem word64?_of_le {n : Nat} (h : n ≤ Segment.maxSize) : word64? n = some n := by
  refine if_pos ?_
  simp only [Segment.maxSize, UInt32.size, UInt64.size] at h ⊢
  omega

theorem minus?_of_le {a b : Nat} (h : b ≤ a) : minus? a b = some (a - b) := if_pos h

theorem guard_of {p : Prop} [Decidable p] (h : p) : (guard p : Option Unit) = some () := if_pos h

/-- A range of offsets in order, each of them in a segment of the largest size. -/
def Span.Sane (s : Span) : Prop := s.start ≤ s.last ∧ s.last < Segment.maxSize

theorem Span.Sane.size_le {s : Span} (h : s.Sane) : s.size ≤ Segment.maxSize := by
  have hsize := Span.start_add_size h.1
  have := h.2
  omega

theorem Span.Sane.size? {s : Span} (h : s.Sane) : s.size? = some s.size := by
  have hword : s.last - s.start + 1 ≤ Segment.maxSize := h.size_le
  simp only [Span.size?, minus?_of_le h.1, Option.bind_eq_bind, Option.bind_some,
    word64?_of_le hword]
  rfl

/-- A piece at the front. -/
theorem Span.Sane.front {s : Span} (h : s.Sane) {n : Nat} (positive : 1 ≤ n) (small : n ≤ s.size) :
    (Span.ofSize s.start n).Sane := by
  have hsize := Span.start_add_size h.1
  have := h.2
  constructor <;> dsimp only [Span.ofSize] <;> omega

/-- What is left behind a piece at the front. -/
theorem Span.Sane.rest {s : Span} (h : s.Sane) {n : Nat} (larger : n < s.size) :
    (⟨s.start + n, s.last⟩ : Span).Sane := by
  have hsize := Span.start_add_size h.1
  exact ⟨by dsimp only; omega, h.2⟩

namespace FreeSpans

variable {f : FreeSpans} {span : Span}

theorem insert?_eq (sane : span.Sane) (room : f.freeBytes + span.size ≤ Segment.maxSize) :
    f.insert? span = some (f.insert span) := by
  simp only [insert?, sane.size?, Option.bind_eq_bind, Option.bind_some, word64?_of_le room]
  rfl

theorem remove?_eq (sane : span.Sane) (counted : span.size ≤ f.freeBytes) :
    f.remove? span = some (f.remove span) := by
  simp only [remove?, sane.size?, Option.bind_eq_bind, Option.bind_some, minus?_of_le counted]
  rfl

theorem spanning?_eq {size : Nat} (positive : 1 ≤ size) (small : size ≤ Segment.maxSize) :
    spanning? size = some (spanning size) := by
  have hword : size - 1 ≤ Segment.maxSize := by omega
  have sane : (⟨0, size - 1⟩ : Span).Sane := ⟨Nat.zero_le _, by dsimp only; omega⟩
  have room : empty.freeBytes + (⟨0, size - 1⟩ : Span).size ≤ Segment.maxSize := by
    have := sane.size_le
    change 0 + _ ≤ _
    omega
  have hnonzero : ¬ size = 0 := by omega
  simp only [spanning?, spanning, if_neg hnonzero, word32?_of_le hword, Option.bind_eq_bind,
    Option.bind_some, insert?_eq sane room, Segment.mod_eq_self hword]

/-- The free ranges lie inside of a region. -/
structure Inside (f : FreeSpans) : Prop where
  valid : f.Valid
  offsets : ∀ offset, f.Covers offset → offset < Segment.maxSize
  bytes : f.freeBytes ≤ Segment.maxSize

theorem Account.inside {t : SlotTable} {size : Nat} (h : Account f t size)
    (small : size ≤ Segment.maxSize) : f.Inside := by
  refine ⟨h.valid, fun offset covered => ?_, ?_⟩
  · have := ((h.covers offset).1 covered).1
    omega
  · have := h.bytes
    omega

namespace Inside

theorem sane (h : f.Inside) (member : span ∈ f.byOffset) : span.Sane := by
  have ordered := h.valid.ordered span member
  exact ⟨ordered, h.offsets span.last ⟨span, member, ordered, Nat.le_refl _⟩⟩

theorem remove? (h : f.Inside) (member : span ∈ f.byOffset) :
    f.remove? span = some (f.remove span) := by
  have := h.valid.freeBytes_remove member
  exact remove?_eq (h.sane member) (by omega)

theorem take? (h : f.Inside) {n : Nat} (positive : 1 ≤ n) : f.take? n = some (f.take n) := by
  cases largest : f.largest with
  | none => simp only [FreeSpans.take?, FreeSpans.take, largest]
  | some whole =>
    obtain ⟨member, -⟩ := h.valid.largest_eq_some largest
    have sane := h.sane member
    have hsize := Span.start_add_size sane.1
    have hbytes := h.valid.freeBytes_remove member
    have hsmall := sane.2
    simp only [FreeSpans.take?, FreeSpans.take, largest, sane.size?, Option.bind_eq_bind,
      Option.bind_some]
    by_cases large : whole.size < n
    · rw [if_pos large, if_pos large]
    · have hlast : whole.start + (n - 1) = (Span.ofSize whole.start n).last := by
        dsimp only [Span.ofSize]
        omega
      have hn : n ≤ Segment.maxSize := by omega
      have hfits : (Span.ofSize whole.start n).last ≤ Segment.maxSize := by omega
      simp only [if_neg large, h.remove? member, Option.bind_some, word32?_of_le hn,
        minus?_of_le positive, hlast, word32?_of_le hfits]
      by_cases shorter : (Span.ofSize whole.start n).last < whole.last
      · have hrest : (⟨(Span.ofSize whole.start n).last + 1, whole.last⟩ : Span).Sane :=
          ⟨shorter, hsmall⟩
        have hword : (Span.ofSize whole.start n).last + 1 ≤ Segment.maxSize := by omega
        have hroom : (f.remove whole).freeBytes +
            (⟨(Span.ofSize whole.start n).last + 1, whole.last⟩ : Span).size ≤
              Segment.maxSize := by
          have := h.bytes
          have hpart := Span.start_add_size hrest.1
          dsimp only at hpart
          omega
        simp only [if_pos shorter, word32?_of_le hword, Option.bind_some, insert?_eq hrest hroom]
        rfl
      · simp only [if_neg shorter]
        rfl

end Inside

/-- What is left after a merge still lies inside, and so does what has been joined. -/
theorem Merged.inside {joined : Span} {f' : FreeSpans} (h : Merged f span joined f')
    (inside : f.Inside) (sane : span.Sane) (room : f.freeBytes + span.size ≤ Segment.maxSize) :
    f'.Inside ∧ joined.Sane ∧ f'.freeBytes + joined.size ≤ Segment.maxSize := by
  have hbytes := h.bytes
  have hoffsets : ∀ offset, offset ∈ joined ∨ f'.Covers offset → offset < Segment.maxSize := by
    intro offset covered
    rcases (h.covers offset).1 covered with member | covered
    · exact Nat.lt_of_le_of_lt member.2 sane.2
    · exact inside.offsets offset covered
  refine ⟨⟨h.valid, fun offset covered => hoffsets offset (Or.inr covered), by omega⟩,
    ⟨h.ordered, ?_⟩, by omega⟩
  exact hoffsets joined.last (Or.inl ⟨h.ordered, Nat.le_refl _⟩)

namespace Inside

theorem mergeLeft? (h : f.Inside) : f.mergeLeft? span = some (f.mergeLeft span) := by
  cases found : f.endingBefore span.start with
  | none => simp only [FreeSpans.mergeLeft?, FreeSpans.mergeLeft, found]
  | some left =>
    simp only [FreeSpans.mergeLeft?, FreeSpans.mergeLeft, found,
      h.remove? (List.mem_of_find?_eq_some found), Option.map_some]

theorem mergeRight? (h : f.Inside) : f.mergeRight? span = some (f.mergeRight span) := by
  cases found : f.startingAfter span.last with
  | none => simp only [FreeSpans.mergeRight?, FreeSpans.mergeRight, found]
  | some right =>
    simp only [FreeSpans.mergeRight?, FreeSpans.mergeRight, found,
      h.remove? (List.mem_of_find?_eq_some found), Option.map_some]

/-- A range without free bytes comes back without a refusal. -/
theorem release? (h : f.Inside) (sane : span.Sane)
    (disjoint : ∀ offset ∈ span, ¬ f.Covers offset)
    (room : f.freeBytes + span.size ≤ Segment.maxSize) :
    ∃ joined f', f.release span = .ok (joined, f') ∧ f.release? span = some (joined, f') := by
  have hfree := (h.valid.overlapping_eq_none_iff sane.1).2 disjoint
  obtain ⟨hleft, -⟩ := h.valid.mergeLeft sane.1 disjoint
  obtain ⟨inside, sane', room'⟩ := hleft.inside h sane room
  obtain ⟨hright, -⟩ := inside.valid.mergeRight sane'.1 hleft.disjoint
  obtain ⟨-, sane'', room''⟩ := hright.inside inside sane' room'
  refine ⟨_, _, by rw [FreeSpans.release, hfree], ?_⟩
  simp only [FreeSpans.release?, hfree, h.mergeLeft?, inside.mergeRight?, Option.bind_eq_bind,
    Option.bind_some, insert?_eq sane'' room'']

theorem sum? (h : f.Inside) : FreeSpans.sum? 0 f.byOffset = some f.freeBytes := by
  have hsum : ∀ (spans : List Span) (total : Nat), (∀ s ∈ spans, s.Sane) →
      total + Span.total spans ≤ Segment.maxSize →
      FreeSpans.sum? total spans = some (total + Span.total spans) := by
    intro spans
    induction spans with
    | nil => exact fun _ _ _ => rfl
    | cons s rest ih =>
      intro total sane room
      rw [Span.total_cons] at room ⊢
      have hword : total + s.size ≤ Segment.maxSize := by omega
      simp only [FreeSpans.sum?, (sane s (by simp)).size?, Option.bind_eq_bind, Option.bind_some,
        word64?_of_le hword]
      rw [ih (total + s.size) (fun other member => sane other (by simp [member])) (by omega)]
      congr 1
      omega
  have hbytes := h.valid.bytes
  have hroom := h.bytes
  rw [hsum f.byOffset 0 (fun s member => h.sane member) (by omega), Nat.zero_add, ← hbytes]

end Inside

end FreeSpans

end RegionStore
