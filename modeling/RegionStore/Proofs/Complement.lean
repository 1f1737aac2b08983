import RegionStore.Proofs.FreeRanges
import RegionStore.Proofs.Table

/-!
The account that largest fit keeps. The free ranges are the complement of the issued ones, and
the slots that were issued before wait on the stack.
-/
namespace RegionStore.FreeSpans

structure Account (free : FreeSpans) (t : SlotTable) (size : Nat) : Prop where
  valid : free.Valid
  covers : ∀ offset, free.Covers offset ↔
    offset < size ∧ ∀ slot s, t.range? slot = some s → offset ∉ s
  bounds : ∀ slot s, t.range? slot = some s → s.start ≤ s.last ∧ s.last < size
  apart : ∀ slot other s s', t.range? slot = some s → t.range? other = some s' →
    slot ≠ other → s.Apart s'
  bytes : free.freeBytes + t.issuedBytes = size
  vacant : t.VacantFree
  distinct : t.vacant.Nodup
  segment : t.Unsegmented

/-- With nothing issued, the account is one free range over the whole region. -/
theorem account_spanning {t : SlotTable} {size : Nat} (idle : ∀ slot, t.range? slot = none)
    (vacant : t.VacantFree) (distinct : t.vacant.Nodup) (segment : t.Unsegmented)
    (positive : 1 ≤ size) (small : size ≤ UInt32.size) : Account (.spanning size) t size := by
  have hbytes : t.issuedBytes = 0 := by
    rw [SlotTable.issuedBytes_eq_total t (Nat.le_refl _),
      List.filterMap_eq_nil_iff.2 fun slot _ => idle slot, Span.total_nil]
  refine ⟨.spanning small, fun offset => ?_, by simp [idle], by simp [idle], ?_, vacant, distinct,
    segment⟩
  · rw [covers_spanning small]
    simp [idle]
  · rw [hbytes, spanning_eq_insert positive small]
    change 0 + (size - 1 - 0 + 1) + 0 = size
    omega

namespace Account

variable {free : FreeSpans} {t : SlotTable} {size : Nat}

theorem not_waiting (h : Account free t size) {slot : Nat} {e : Entry}
    (issued : t.issued? slot = some e) : slot ∉ t.vacant := by
  intro waiting
  obtain ⟨e', found, hfree⟩ := h.vacant slot waiting
  rw [SlotTable.issued?_of_free found hfree] at issued
  cases issued

/-- A new lease for what is issued changes nothing here. -/
theorem modify (h : Account free t size) {slot : Nat} {e : Entry} {f : Entry → Entry}
    (issued : t.issued? slot = some e) (still : (f e).free = false)
    (place : (f e).place = e.place) : Account free (t.modify slot f) size := by
  have hrange := SlotTable.range?_modify issued still place
  refine ⟨h.valid, ?_, ?_, ?_, ?_, h.vacant.modify f (h.not_waiting issued), h.distinct,
    h.segment.modify (SlotTable.issued?_eq_some_iff.1 issued).1 (congrArg Prod.fst place)⟩
  · simp only [hrange]
    exact h.covers
  · simp only [hrange]
    exact h.bounds
  · simp only [hrange]
    exact h.apart
  · rw [SlotTable.issuedBytes_congr hrange]
    exact h.bytes

/-- What is taken goes to a free entry; once that is issued, the account is right again. -/
theorem reserve (h : Account free t size) {n : Nat} {span : Span} {free' : FreeSpans}
    (positive : 1 ≤ n) (taken : free.take n = some (span, free')) :
    SlotTable.Readied t (t.insert 0 span).2 (t.insert 0 span).1 ∧
      ∃ e, (t.insert 0 span).2.find? (t.insert 0 span).1 = some e ∧ e.free = true ∧
        e.span.size = n ∧ ∀ f : Entry → Entry, (f e).free = false → (f e).place = e.place →
          Account free' ((t.insert 0 span).2.modify (t.insert 0 span).1 f) size := by
  obtain ⟨whole, largest, large, rfl, hvalid, hcovers, hbytes⟩ := h.valid.take positive taken
  obtain ⟨member, -⟩ := h.valid.largest_eq_some largest
  have hfits := Span.start_add_size (h.valid.ordered whole member)
  -- every byte that is taken was free, hence inside the region and in no other range
  have hfree : ∀ offset ∈ Span.ofSize whole.start n, offset < size ∧
      ∀ slot s, t.range? slot = some s → offset ∉ s := by
    intro offset hmem
    rw [Span.mem_ofSize positive] at hmem
    exact (h.covers offset).1 ⟨whole, member, Span.mem_def.2 (by omega)⟩
  obtain ⟨ready, e, found, hfreed, -, hspan⟩ :=
    SlotTable.insert_readied h.vacant 0 (.ofSize whole.start n)
  refine ⟨ready, e, found, hfreed, by rw [hspan, Span.size_ofSize positive], ?_⟩
  intro f issued place
  generalize hslot : (t.insert 0 (.ofSize whole.start n)).1 = slot at *
  have hnone : t.range? slot = none := by rw [SlotTable.range?, ready.not_issued]; rfl
  have hrange (x : Nat) : ((t.insert 0 (.ofSize whole.start n)).2.modify slot f).range? x =
      if x = slot then some (.ofSize whole.start n) else t.range? x := by
    rw [SlotTable.range?, ready.issued?_issue found issued]
    split
    · rw [Option.map_some, show (f e).span = e.span from congrArg Prod.snd place, hspan]
    · rfl
  have hordered : (Span.ofSize whole.start n).start ≤ (Span.ofSize whole.start n).last := by
    dsimp only [Span.ofSize]
    omega
  refine ⟨hvalid, fun offset => ?_, fun x s hs => ?_, fun x y s s' hs hs' hne => ?_, ?_, ?_, ?_, ?_⟩
  · rw [hcovers, h.covers]
    simp only [hrange]
    grind
  · rw [hrange] at hs
    split at hs
    · cases hs
      exact ⟨hordered, (hfree _ (Span.mem_def.2 ⟨hordered, Nat.le_refl _⟩)).1⟩
    · exact h.bounds x s hs
  · rw [hrange] at hs hs'
    split at hs
    · cases hs
      rw [if_neg (by omega)] at hs'
      exact Span.apart_of_disjoint hordered (h.bounds y s' hs').1
        fun offset hmem => (hfree offset hmem).2 y s' hs'
    · split at hs'
      · cases hs'
        exact symm (Span.apart_of_disjoint hordered (h.bounds x s hs).1
          fun offset hmem => (hfree offset hmem).2 x s hs)
      · exact h.apart x y s s' hs hs' hne
  · have hissue := ready.issuedBytes_issue found issued
    rw [show (f e).span = e.span from congrArg Prod.snd place, hspan,
      Span.size_ofSize positive] at hissue
    have := h.bytes
    omega
  · apply (SlotTable.vacantFree_insert h.vacant h.distinct 0 _).modify
    intro waiting
    exact (SlotTable.mem_vacant_insert h.distinct waiting).2 hslot.symm
  · exact SlotTable.nodup_vacant_insert h.distinct 0 _
  · exact (SlotTable.unsegmented_insert h.segment h.vacant _).modify found
      (congrArg Prod.fst place)

/-- A range that is released comes back, and its slot goes on the stack. -/
theorem release (h : Account free t size) {slot : Nat} {e : Entry}
    (issued : t.issued? slot = some e) :
    ∃ joined free', free.release e.span = .ok (joined, free') ∧
      Account free' ((t.modify slot fun _ => e.invalidate).retire slot) size := by
  have hissued := SlotTable.range?_of_issued? issued
  obtain ⟨hordered, hlast⟩ := h.bounds slot e.span hissued
  have hdisjoint : ∀ offset ∈ e.span, ¬ free.Covers offset := by
    intro offset hmem hcovers
    exact ((h.covers offset).1 hcovers).2 slot e.span hissued hmem
  obtain ⟨joined, free', hrelease, hvalid, -, hcovers, -, hbytes⟩ :=
    h.valid.release hordered hdisjoint
  have hreleased (x : Nat) : ((t.modify slot fun _ => e.invalidate).retire slot).issued? x =
      if x = slot then none else t.issued? x := by
    rw [SlotTable.issued?_retire, SlotTable.issued?_release issued]
  have hrange (x : Nat) : ((t.modify slot fun _ => e.invalidate).retire slot).range? x =
      if x = slot then none else t.range? x := by
    rw [SlotTable.range?, hreleased]
    split <;> rfl
  have hwaiting := h.not_waiting issued
  refine ⟨joined, free', hrelease, hvalid, fun offset => ?_, fun x s hs => ?_,
    fun x y s s' hs hs' hne => ?_, ?_, ?_, ?_, ?_⟩
  · have hother : ∀ x s, x ≠ slot → t.range? x = some s → offset ∈ e.span → offset ∉ s :=
      fun x s hne hs => (h.apart slot x e.span s hissued hs (Ne.symm hne)).not_mem
    have hinside : offset ∈ e.span → offset < size := by
      rw [Span.mem_def]
      omega
    rw [hcovers, h.covers]
    simp only [hrange]
    grind
  · rw [hrange] at hs
    split at hs
    · cases hs
    · exact h.bounds x s hs
  · rw [hrange] at hs hs'
    split at hs
    · cases hs
    · split at hs'
      · cases hs'
      · exact h.apart x y s s' hs hs' hne
  · have := SlotTable.issuedBytes_of_released issued hreleased
    have := h.bytes
    omega
  · intro x waiting
    rcases List.mem_cons.1 waiting with rfl | waiting
    · refine ⟨e.invalidate, ?_, rfl⟩
      rw [SlotTable.find?_retire, SlotTable.find?_modify, if_pos rfl,
        (SlotTable.issued?_eq_some_iff.1 issued).1, Option.map_some]
    · exact h.vacant.modify _ hwaiting x waiting
  · exact List.nodup_cons.2 ⟨hwaiting, h.distinct⟩
  · have hfound := (SlotTable.issued?_eq_some_iff.1 issued).1
    exact h.segment.modify (f := fun _ => e.invalidate) hfound rfl

theorem reset (h : Account free t size) (positive : 1 ≤ size) (small : size ≤ UInt32.size) :
    Account (.spanning size) t.reset size := by
  apply account_spanning
  · intro slot
    rw [SlotTable.range?, SlotTable.issued?_reset, Option.map_none]
  · exact t.vacantFree_reset
  · exact List.nodup_range
  · exact h.segment.reset
  · exact positive
  · exact small

end Account

end RegionStore.FreeSpans
