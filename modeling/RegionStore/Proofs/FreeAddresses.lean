import Mathlib.Data.Set.Card
import Mathlib.Order.Interval.Finset.Nat
import RegionStore.Proofs.FreeRanges

/-!
The free ranges as a set of addresses, whatever has been taken and given back. The ranges, the count
of bytes and the largest range are told by the set alone, and so is what each operation answers.
-/
namespace RegionStore

/-- Ranges that lie apart name as many offsets as they have bytes. -/
theorem Span.encard_covered {spans : List Span} (ordered : ∀ s ∈ spans, s.start ≤ s.last)
    (apart : spans.Pairwise fun a b => a.last < b.start) :
    {offset | ∃ s ∈ spans, offset ∈ s}.encard = Span.total spans := by
  induction spans with
  | nil => simp
  | cons s rest ih =>
    obtain ⟨hs, hrest⟩ := List.pairwise_cons.1 apart
    have hsplit : {offset | ∃ s' ∈ s :: rest, offset ∈ s'} =
        Set.Icc s.start s.last ∪ {offset | ∃ s' ∈ rest, offset ∈ s'} := by
      ext offset
      simp [mem_def]
    have hdisjoint : Disjoint (Set.Icc s.start s.last) {offset | ∃ s' ∈ rest, offset ∈ s'} := by
      rw [Set.disjoint_left]
      rintro offset hmem ⟨other, hother, hmem'⟩
      have := hs other hother
      rw [Set.mem_Icc] at hmem
      rw [mem_def] at hmem'
      omega
    have hsize : (Set.Icc s.start s.last).encard = s.size := by
      have := ordered s List.mem_cons_self
      rw [← Finset.coe_Icc, Set.encard_coe_eq_coe_finsetCard, Nat.card_Icc, size]
      congr 1
      omega
    rw [hsplit, Set.encard_union_eq hdisjoint, hsize,
      ih (fun other member => ordered other (List.mem_cons_of_mem s member)) hrest, total_cons,
      Nat.cast_add]

namespace FreeSpans

inductive Op where
  | take (size : Nat)
  | release (span : Span)
  /-- Start over with one range of so many bytes. -/
  | reset (size : Nat)

/-- Offsets are words of 32 bits, and nothing larger than the last of them is asked for. -/
def Op.Fits : Op → Prop
  | take size => 1 ≤ size ∧ size < UInt32.size
  | release span => span.start ≤ span.last ∧ span.last < UInt32.size
  | reset size => size ≤ UInt32.size

/-- What is refused changes nothing. -/
def step (f : FreeSpans) : Op → FreeSpans
  | .take size =>
    match f.take size with
    | none => f
    | some (_, f') => f'
  | .release span =>
    match f.release span with
    | .error _ => f
    | .ok (_, f') => f'
  | .reset size => .spanning size

/-- Sets that come about from the empty one, or from one range, by any operations. -/
inductive Reachable : FreeSpans → Prop
  | empty : Reachable .empty
  | spanning {size : Nat} (small : size ≤ UInt32.size) : Reachable (.spanning size)
  | step {f : FreeSpans} (h : Reachable f) {op : Op} (fits : op.Fits) : Reachable (f.step op)

variable {f : FreeSpans} {span : Span} {size : Nat}

/-! ### What one operation does to the set -/

/-- Bytes are taken off the front of the longest run, or every run is too short for them. -/
structure Taken (f : FreeSpans) (size : Nat) : Prop where
  refused : f.take size = none ↔ ∀ s : Span, s.MaximalRun f.Covers → s.size < size
  untouched : f.take size = none → f.step (.take size) = f
  front : f.take size ≠ none → ∃ whole : Span, whole.LongestRun f.Covers ∧
    size ≤ whole.size ∧ f.take size = some (.ofSize whole.start size, f.step (.take size)) ∧
    ∀ offset, (f.step (.take size)).Covers offset ↔
      f.Covers offset ∧ offset ∉ Span.ofSize whole.start size

/-- A range joins the set, as part of a run, exactly if it does not meet it. -/
structure Returned (f : FreeSpans) (span : Span) : Prop where
  refused : (∃ refusal, f.release span = .error refusal) ↔ ∃ offset ∈ span, f.Covers offset
  untouched : (∃ offset ∈ span, f.Covers offset) → f.step (.release span) = f
  joined : (∀ offset ∈ span, ¬ f.Covers offset) → ∃ run : Span,
    f.release span = .ok (run, f.step (.release span)) ∧
    run.MaximalRun (f.step (.release span)).Covers ∧ (∀ offset ∈ span, offset ∈ run) ∧
    ∀ offset, (f.step (.release span)).Covers offset ↔ f.Covers offset ∨ offset ∈ span

namespace Valid

theorem taken (h : f.Valid) (positive : 1 ≤ size) : Taken f size := by
  refine ⟨?_, fun none => ?_, fun some => ?_⟩
  · rw [h.take_eq_none_iff]
    simp only [h.mem_iff_maximalRun]
  · simp only [step, none]
  · obtain ⟨⟨issued, f'⟩, htake⟩ := Option.ne_none_iff_exists'.1 some
    obtain ⟨whole, largest, large, rfl, -, hcovers, -⟩ := h.take positive htake
    have hstep : f.step (.take size) = f' := by simp only [step, htake]
    rw [hstep]
    exact ⟨whole, h.largest_eq_some_iff.1 largest, large, htake, hcovers⟩

/-- A range is refused if it meets the set. -/
theorem release_eq_error (h : f.Valid) (ordered : span.start ≤ span.last)
    (meets : ∃ offset ∈ span, f.Covers offset) : ∃ refusal, f.release span = .error refusal := by
  cases found : f.overlapping span with
  | none =>
    obtain ⟨offset, inside, covers⟩ := meets
    exact absurd covers ((h.overlapping_eq_none_iff ordered).1 found offset inside)
  | some free => simp only [FreeSpans.release, found, Except.error.injEq, exists_eq']

theorem returned (h : f.Valid) (ordered : span.start ≤ span.last) : Returned f span := by
  have hjoined : (∀ offset ∈ span, ¬ f.Covers offset) → ∃ (run : Span) (f' : FreeSpans),
      f.release span = .ok (run, f') ∧ run.MaximalRun f'.Covers ∧ (∀ offset ∈ span, offset ∈ run) ∧
        ∀ offset, f'.Covers offset ↔ f.Covers offset ∨ offset ∈ span := by
    intro apart
    obtain ⟨run, f', hrelease, valid, member, hcovers, hinside, -⟩ := h.release ordered apart
    exact ⟨run, f', hrelease, valid.mem_iff_maximalRun.1 member, hinside, hcovers⟩
  refine ⟨⟨fun refused => ?_, h.release_eq_error ordered⟩, fun meets => ?_, fun apart => ?_⟩
  · by_contra none
    obtain ⟨run, f', hrelease, -⟩ := hjoined fun offset inside covers =>
      none ⟨offset, inside, covers⟩
    obtain ⟨refusal, hrefused⟩ := refused
    rw [hrelease] at hrefused
    cases hrefused
  · obtain ⟨refusal, hrefused⟩ := h.release_eq_error ordered meets
    simp only [step, hrefused]
  · obtain ⟨run, f', hrelease, hrun⟩ := hjoined apart
    have hstep : f.step (.release span) = f' := by simp only [step, hrelease]
    rw [hstep]
    exact ⟨run, hrelease, hrun⟩

end Valid

/-! ### Sets that can come about -/

/-- Both lists and the count are in order, and all offsets are words. -/
structure Worded (f : FreeSpans) : Prop where
  valid : f.Valid
  word : ∀ offset, f.Covers offset → offset < UInt32.size

theorem worded_spanning (small : size ≤ UInt32.size) : (spanning size).Worded :=
  ⟨.spanning small, fun offset covers => by rw [covers_spanning small] at covers; omega⟩

theorem Worded.step (h : f.Worded) {op : Op} (fits : op.Fits) : (f.step op).Worded := by
  cases op with
  | take size =>
    cases htake : f.take size with
    | none =>
      simp only [FreeSpans.step, htake]
      exact h
    | some found =>
      obtain ⟨issued, f'⟩ := found
      obtain ⟨whole, -, -, -, valid, hcovers, -⟩ := h.valid.take fits.1 htake
      simp only [FreeSpans.step, htake]
      exact ⟨valid, fun offset covers => h.word offset ((hcovers offset).1 covers).1⟩
  | release span =>
    by_cases meets : ∃ offset ∈ span, f.Covers offset
    · rw [(h.valid.returned fits.1).untouched meets]
      exact h
    · have apart : ∀ offset ∈ span, ¬ f.Covers offset := fun offset inside covers =>
        meets ⟨offset, inside, covers⟩
      obtain ⟨run, f', hrelease, valid, -, hcovers, -⟩ := h.valid.release fits.1 apart
      simp only [FreeSpans.step, hrelease]
      refine ⟨valid, fun offset covers => ?_⟩
      rcases (hcovers offset).1 covers with covers | inside
      · exact h.word offset covers
      · have := fits.2
        rw [Span.mem_def] at inside
        omega
  | reset size => exact worded_spanning fits

theorem Reachable.worded (h : f.Reachable) : f.Worded := by
  induction h with
  | empty => exact worded_spanning (Nat.zero_le _)
  | spanning small => exact worded_spanning small
  | step _ fits ih => exact ih.step fits

/-- All that is kept is told by the set: the ranges are its maximal runs in address order, and the
largest of them is the longest run. -/
structure Canonical (f : FreeSpans) : Prop where
  ordered : f.byOffset.Pairwise fun a b => a.last < b.start
  runs : ∀ s : Span, s ∈ f.byOffset ↔ s.MaximalRun f.Covers
  bytes : {offset | f.Covers offset}.encard = f.freeBytes
  largest : ∀ s : Span, f.largest = some s ↔ s.LongestRun f.Covers
  check : f.check = .ok ()
  word : ∀ offset, f.Covers offset → offset < UInt32.size

theorem Worded.canonical (h : f.Worded) : f.Canonical := by
  have apart : f.byOffset.Pairwise fun a b => a.last < b.start :=
    h.valid.separate.imp fun separate => by omega
  refine ⟨apart, fun s => h.valid.mem_iff_maximalRun, ?_, fun s => h.valid.largest_eq_some_iff,
    h.valid.check, h.word⟩
  rw [h.valid.bytes]
  exact Span.encard_covered h.valid.ordered apart

/-- Whatever has been taken, given back or started over, the free ranges are a set of addresses. A
range comes back exactly if it does not meet the set, and the answer is the run that it has become
part of. Bytes are taken from the front of the longest run, unless every run is too short. What is
refused leaves the set as it was. -/
theorem ranges_are_addresses (h : f.Reachable) :
    f.Canonical ∧
    (∀ span, (Op.release span).Fits → Returned f span) ∧
    (∀ size, (Op.take size).Fits → Taken f size) ∧
    ∀ size, (Op.reset size).Fits → ∀ offset,
      (f.step (.reset size)).Covers offset ↔ offset < size := by
  have worded := h.worded
  refine ⟨worded.canonical, fun span fits => ?_, fun size fits => ?_, fun size fits offset => ?_⟩
  · exact worded.valid.returned fits.1
  · exact worded.valid.taken fits.1
  · exact covers_spanning fits

/-- The last two offsets there are, and two others with one between them. The range between them
joins all three, and two bytes more come off the front of what it has become. -/
theorem ranges_are_addresses_joined : ∃ f : FreeSpans, f.Reachable ∧ f.Canonical ∧
    f.byOffset = [⟨0, 1⟩, ⟨3, 4⟩, ⟨4294967294, 4294967295⟩] ∧ f.largest = some ⟨0, 1⟩ ∧
    f.release ⟨2, 2⟩ = .ok (⟨0, 4⟩, f.step (.release ⟨2, 2⟩)) ∧ Returned f ⟨2, 2⟩ ∧
    Returned f ⟨4294967293, 4294967294⟩ ∧ f.step (.release ⟨4294967293, 4294967294⟩) = f ∧
    (f.step (.release ⟨2, 2⟩)).take 2 = some (⟨0, 1⟩, ⟨[⟨2, 4⟩, ⟨4294967294, 4294967295⟩],
      [⟨2, 4⟩, ⟨4294967294, 4294967295⟩], 5⟩) ∧ Taken f 2 := by
  let f := ((((spanning 5).step (.take 3)).step (.release ⟨0, 1⟩)).step
    (.release ⟨4294967294, 4294967295⟩))
  have reachable : f.Reachable := by
    apply Reachable.step
    · apply Reachable.step
      · exact (Reachable.spanning (by decide)).step ⟨by decide, by decide⟩
      · exact ⟨by decide, by decide⟩
    · exact ⟨by decide, by decide⟩
  obtain ⟨canonical, returned, taken, -⟩ := ranges_are_addresses reachable
  refine ⟨f, reachable, canonical, by decide, by decide, by decide, ?_, ?_, by decide, by decide, ?_⟩
  · exact returned _ ⟨by decide, by decide⟩
  · exact returned _ ⟨by decide, by decide⟩
  · exact taken _ ⟨by decide, by decide⟩

end FreeSpans

end RegionStore
