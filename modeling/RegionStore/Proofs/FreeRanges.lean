import RegionStore.FreeSpans
import RegionStore.Proofs.Spans

/-!
The free ranges as a set of offsets. Both orders list the same ranges, no two of which touch, so
the ranges are the maximal runs of the set. Taking and releasing change the set by exactly one
range, whatever they cut or merge to do so.
-/
namespace RegionStore.FreeSpans

def Covers (f : FreeSpans) (offset : Nat) : Prop := ∃ s ∈ f.byOffset, offset ∈ s

structure Valid (f : FreeSpans) : Prop where
  ordered : ∀ s ∈ f.byOffset, s.start ≤ s.last
  separate : f.byOffset.Pairwise fun a b => a.last + 1 < b.start
  same : f.bySize.Perm f.byOffset
  ranked : f.bySize.Pairwise fun a b => sizeBefore a b = true
  bytes : f.freeBytes = Span.total f.byOffset

theorem sizeBefore_iff {a b : Span} : sizeBefore a b = true ↔
    b.size < a.size ∨ (a.size = b.size ∧ a.start < b.start) := by
  simp [sizeBefore]

/-- Ordered insertion keeps the order, if the new range can be compared with all the others. -/
theorem pairwise_insertBy {before : Span → Span → Bool} {span : Span} {spans : List Span}
    (trans : ∀ a b c, before a b = true → before b c = true → before a c = true)
    (comparable : ∀ s ∈ spans, before span s = true ∨ before s span = true)
    (sorted : spans.Pairwise fun a b => before a b = true) :
    (insertBy before span spans).Pairwise fun a b => before a b = true := by
  induction spans with
  | nil => exact List.pairwise_singleton _ _
  | cons head rest ih =>
    obtain ⟨hhead, hrest⟩ := List.pairwise_cons.1 sorted
    unfold insertBy
    split
    · next first =>
      refine List.pairwise_cons.2 ⟨fun s hs => ?_, sorted⟩
      rcases List.mem_cons.1 hs with rfl | hs
      · exact first
      · exact trans _ _ _ first (hhead s hs)
    · next later =>
      have hbefore : before head span = true :=
        (comparable head (by simp)).resolve_left later
      refine List.pairwise_cons.2 ⟨fun s hs => ?_,
        ih (fun s hs => comparable s (by simp [hs])) hrest⟩
      rcases mem_insertBy.1 hs with rfl | hs
      · exact hbefore
      · exact hhead s hs

namespace Valid

variable {f : FreeSpans}

theorem nodup (h : f.Valid) : f.byOffset.Nodup :=
  h.separate.imp_of_mem fun ha hb hlt heq => by
    subst heq
    have := h.ordered _ ha
    omega

theorem eq_or_gap (h : f.Valid) {a b : Span} (ha : a ∈ f.byOffset) (hb : b ∈ f.byOffset) :
    a = b ∨ a.Gap b := Span.eq_or_gap h.separate ha hb

/-- The ranges are exactly the maximal runs of free offsets. -/
theorem mem_iff_maximalRun (h : f.Valid) {s : Span} :
    s ∈ f.byOffset ↔ s.MaximalRun f.Covers := Span.mem_iff_maximalRun h.ordered h.separate

theorem empty : FreeSpans.empty.Valid :=
  ⟨nofun, List.Pairwise.nil, List.Perm.nil, List.Pairwise.nil, rfl⟩

/-- A range that leaves a gap to all the others can be added as it is. -/
theorem insert (h : f.Valid) {span : Span} (ordered : span.start ≤ span.last)
    (gap : ∀ s ∈ f.byOffset, span.Gap s) : (f.insert span).Valid := by
  have hordered : ∀ s ∈ (f.insert span).byOffset, s.start ≤ s.last := by
    intro s hs
    rcases mem_insertBy.1 hs with rfl | hs
    · exact ordered
    · exact h.ordered s hs
  have hgap : ∀ a ∈ (f.insert span).byOffset, ∀ b ∈ (f.insert span).byOffset,
      a = b ∨ a.Gap b := by
    intro a ha b hb
    rcases mem_insertBy.1 ha with hanew | haold
    · rcases mem_insertBy.1 hb with hbnew | hbold
      · exact Or.inl (hanew.trans hbnew.symm)
      · exact Or.inr (hanew ▸ gap b hbold)
    · rcases mem_insertBy.1 hb with hbnew | hbold
      · exact Or.inr (hbnew ▸ symm (gap a haold))
      · exact h.eq_or_gap haold hbold
  have hstarts : ∀ s ∈ f.byOffset, span.start < s.start ∨ s.start < span.start := by
    intro s hs
    have hs' := h.ordered s hs
    have := gap s hs
    unfold Span.Gap at this
    omega
  have hsorted : (f.insert span).byOffset.Pairwise fun a b => offsetBefore a b = true := by
    apply pairwise_insertBy
    · intro a b c hab hbc
      simp only [offsetBefore, decide_eq_true_eq] at hab hbc ⊢
      omega
    · intro s hs
      simpa [offsetBefore] using hstarts s hs
    · refine h.separate.imp_of_mem fun ha _ hlt => ?_
      have := h.ordered _ ha
      simp only [offsetBefore, decide_eq_true_eq]
      omega
  refine ⟨hordered, ?_, ?_, ?_, ?_⟩
  · refine hsorted.imp_of_mem fun {a b} ha hb hlt => ?_
    have ha' := hordered a ha
    have hb' := hordered b hb
    simp only [offsetBefore, decide_eq_true_eq] at hlt
    rcases hgap a ha b hb with rfl | hab
    · omega
    · unfold Span.Gap at hab
      omega
  · exact (perm_insertBy _ _ _).trans ((h.same.cons span).trans (perm_insertBy _ _ _).symm)
  · apply pairwise_insertBy
    · intro a b c hab hbc
      rw [sizeBefore_iff] at hab hbc ⊢
      omega
    · intro s hs
      have := hstarts s (h.same.mem_iff.1 hs)
      rw [sizeBefore_iff, sizeBefore_iff]
      omega
    · exact h.ranked
  · have := Span.total_perm (perm_insertBy offsetBefore span f.byOffset)
    change f.freeBytes + span.size = Span.total (insertBy offsetBefore span f.byOffset)
    rw [this, Span.total_cons, h.bytes]
    omega

theorem mem_remove (h : f.Valid) {span s : Span} :
    s ∈ (f.remove span).byOffset ↔ s ≠ span ∧ s ∈ f.byOffset := h.nodup.mem_erase_iff

theorem remove (h : f.Valid) {span : Span} (member : span ∈ f.byOffset) :
    (f.remove span).Valid := by
  refine ⟨fun s hs => h.ordered s (h.mem_remove.1 hs).2, ?_, h.same.erase span, ?_, ?_⟩
  · exact h.separate.sublist List.erase_sublist
  · exact h.ranked.sublist List.erase_sublist
  · have := Span.total_perm (List.perm_cons_erase member)
    change f.freeBytes - span.size = Span.total (f.byOffset.erase span)
    rw [h.bytes, this, Span.total_cons]
    omega

/-- The range that is answered as the largest is the first one in order of size. -/
theorem largest_eq_some (h : f.Valid) {whole : Span} (largest : f.largest = some whole) :
    whole ∈ f.byOffset ∧ ∀ s ∈ f.byOffset, s = whole ∨ sizeBefore whole s = true := by
  unfold FreeSpans.largest at largest
  cases hsize : f.bySize with
  | nil => simp [hsize] at largest
  | cons head rest =>
    rw [hsize, List.head?_cons, Option.some.injEq] at largest
    subst largest
    have hranked := h.ranked
    rw [hsize] at hranked
    refine ⟨h.same.mem_iff.1 (by simp [hsize]), fun s hs => ?_⟩
    have hs := h.same.mem_iff.2 hs
    rw [hsize, List.mem_cons] at hs
    exact hs.imp_right fun hs => (List.pairwise_cons.1 hranked).1 s hs

theorem largest_eq_none (h : f.Valid) (none : f.largest = none) : f.byOffset = [] := by
  have hsize : f.bySize = [] := List.head?_eq_none_iff.1 none
  have := h.same
  rw [hsize] at this
  exact List.nil_perm.1 this

theorem largest_eq_some_iff (h : f.Valid) {s : Span} :
    f.largest = some s ↔ s.LongestRun f.Covers := by
  have longest : ∀ whole, f.largest = some whole → whole.LongestRun f.Covers := by
    intro whole largest
    obtain ⟨member, first⟩ := h.largest_eq_some largest
    refine ⟨h.mem_iff_maximalRun.1 member, fun other run => ?_⟩
    rcases first other (h.mem_iff_maximalRun.2 run) with rfl | before
    · exact Or.inr ⟨rfl, Nat.le_refl _⟩
    · rw [sizeBefore_iff] at before
      omega
  refine ⟨longest s, fun run => ?_⟩
  have member := h.mem_iff_maximalRun.2 run.run
  cases found : f.largest with
  | none =>
    rw [h.largest_eq_none found] at member
    cases member
  | some whole => rw [(longest whole found).unique run]

end Valid

theorem covers_insert {f : FreeSpans} {span : Span} {offset : Nat} :
    (f.insert span).Covers offset ↔ offset ∈ span ∨ f.Covers offset := by
  simp only [Covers, insert, mem_insertBy, or_and_right, exists_or, exists_eq_left]

theorem not_covers_empty (offset : Nat) : ¬ empty.Covers offset := by
  rintro ⟨s, hs, -⟩
  cases hs

theorem spanning_eq_insert {size : Nat} (positive : 1 ≤ size) (small : size ≤ UInt32.size) :
    spanning size = empty.insert ⟨0, size - 1⟩ := by
  rw [spanning, if_neg (by omega), Nat.mod_eq_of_lt (by omega)]

theorem covers_spanning {size : Nat} (small : size ≤ UInt32.size) {offset : Nat} :
    (spanning size).Covers offset ↔ offset < size := by
  cases size with
  | zero => exact iff_of_false (not_covers_empty offset) (Nat.not_lt_zero offset)
  | succ size =>
    rw [spanning_eq_insert (by omega) small, covers_insert, Span.mem_def, Nat.lt_succ_iff]
    simp [not_covers_empty]

namespace Valid

variable {f : FreeSpans}

theorem spanning {size : Nat} (small : size ≤ UInt32.size) : (FreeSpans.spanning size).Valid := by
  cases size with
  | zero => exact Valid.empty
  | succ size =>
    rw [spanning_eq_insert (by omega) small]
    exact Valid.empty.insert (Nat.zero_le _) nofun

/-- A stretch of free offsets lies in one range. -/
theorem exists_mem_of_covers (h : f.Valid) {span : Span} (ordered : span.start ≤ span.last)
    (covers : ∀ offset ∈ span, f.Covers offset) :
    ∃ whole ∈ f.byOffset, whole.start ≤ span.start ∧ span.last ≤ whole.last := by
  obtain ⟨whole, member, first⟩ := covers span.start ⟨Nat.le_refl _, ordered⟩
  rw [Span.mem_def] at first
  refine ⟨whole, member, first.1, Nat.le_of_not_lt fun short => ?_⟩
  -- the offset right behind the range is free, yet no other range comes that close
  exact (h.mem_iff_maximalRun.1 member).after (covers _ ⟨by omega, short⟩)

theorem covers_remove (h : f.Valid) {span : Span} (member : span ∈ f.byOffset) {offset : Nat} :
    (f.remove span).Covers offset ↔ f.Covers offset ∧ offset ∉ span := by
  constructor
  · rintro ⟨s, hs, hmem⟩
    obtain ⟨hne, hs⟩ := h.mem_remove.1 hs
    refine ⟨⟨s, hs, hmem⟩, fun hspan => ?_⟩
    rcases h.eq_or_gap hs member with heq | hgap
    · exact hne heq
    · rw [Span.mem_def] at hmem hspan
      unfold Span.Gap at hgap
      omega
  · rintro ⟨⟨s, hs, hmem⟩, hspan⟩
    exact ⟨s, h.mem_remove.2 ⟨fun heq => hspan (heq ▸ hmem), hs⟩, hmem⟩

theorem freeBytes_remove (h : f.Valid) {span : Span} (member : span ∈ f.byOffset) :
    (f.remove span).freeBytes + span.size = f.freeBytes := by
  have := Span.total_perm (List.perm_cons_erase member)
  rw [Span.total_cons, ← h.bytes] at this
  change f.freeBytes - span.size + span.size = f.freeBytes
  omega

/-- A gap to a range is a gap to each part of it. -/
theorem gap_of_part {s whole part : Span} (gap : s.Gap whole) (start : whole.start ≤ part.start)
    (last : part.last ≤ whole.last) : part.Gap s := by
  unfold Span.Gap at gap ⊢
  omega

/-- What is taken are the first bytes of the largest range; all else stays free. -/
theorem take (h : f.Valid) {n : Nat} {issued : Span} {f' : FreeSpans} (positive : 1 ≤ n)
    (taken : f.take n = some (issued, f')) :
    ∃ whole, f.largest = some whole ∧ n ≤ whole.size ∧ issued = .ofSize whole.start n ∧
      f'.Valid ∧ (∀ offset, f'.Covers offset ↔ f.Covers offset ∧ offset ∉ issued) ∧
      f'.freeBytes + n = f.freeBytes := by
  unfold FreeSpans.take at taken
  split at taken
  · cases taken
  · next whole largest =>
    split at taken
    · cases taken
    · next large =>
      obtain ⟨member, -⟩ := h.largest_eq_some largest
      have hordered := h.ordered whole member
      have hsize := Span.start_add_size hordered
      have hremove (offset : Nat) : (f.remove whole).Covers offset ↔
          f.Covers offset ∧ offset ∉ whole := h.covers_remove member
      have hbytes := h.freeBytes_remove member
      simp only [Option.some.injEq, Prod.mk.injEq] at taken
      obtain ⟨rfl, hrest⟩ := taken
      refine ⟨whole, largest, by omega, rfl, ?_⟩
      have hcovers : ∀ offset, offset ∈ whole → f.Covers offset :=
        fun offset hmem => ⟨whole, member, hmem⟩
      split at hrest
      · next shorter =>
        subst hrest
        have hlast : (Span.ofSize whole.start n).last + 1 = whole.start + n := by
          dsimp only [Span.ofSize]
          omega
        refine ⟨(h.remove member).insert shorter fun s hs => ?_, fun offset => ?_, ?_⟩
        · obtain ⟨hne, hs⟩ := h.mem_remove.1 hs
          exact gap_of_part ((h.eq_or_gap hs member).resolve_left hne)
            (by dsimp only; omega) (Nat.le_refl _)
        · have := hcovers offset
          rw [covers_insert, hremove, Span.mem_ofSize positive]
          rw [Span.mem_def] at this ⊢
          rw [Span.mem_def]
          simp only [hlast]
          grind
        · have hpart : (Span.mk ((Span.ofSize whole.start n).last + 1) whole.last).size + n =
              whole.size := by
            simp only [Span.size, hlast] at hsize large ⊢
            omega
          change (f.remove whole).freeBytes + _ + n = f.freeBytes
          omega
      · next whole_fit =>
        subst hrest
        have hlast : n = whole.size := by
          dsimp only [Span.ofSize] at whole_fit
          omega
        refine ⟨h.remove member, fun offset => ?_, by omega⟩
        rw [hremove, Span.mem_ofSize positive, Span.mem_def]
        grind

/-- Nothing can be taken exactly if every range is too short. -/
theorem take_eq_none_iff (h : f.Valid) {n : Nat} :
    f.take n = none ↔ ∀ s ∈ f.byOffset, s.size < n := by
  unfold FreeSpans.take
  split
  · next none => simp [h.largest_eq_none none]
  · next whole largest =>
    obtain ⟨member, first⟩ := h.largest_eq_some largest
    split
    · next small =>
      refine iff_of_true rfl fun s hs => ?_
      rcases first s hs with rfl | hbefore
      · exact small
      · rw [sizeBefore_iff] at hbefore
        omega
    · next large =>
      refine iff_of_false nofun fun hall => ?_
      exact large (hall whole member)

theorem mem_takeWhile_start {spans : List Span} {offset : Nat} {s : Span}
    (sorted : spans.Pairwise fun a b => a.start < b.start) :
    s ∈ spans.takeWhile (·.start ≤ offset) ↔ s ∈ spans ∧ s.start ≤ offset := by
  induction spans with
  | nil => simp
  | cons head rest ih =>
    obtain ⟨hhead, hrest⟩ := List.pairwise_cons.1 sorted
    rw [List.takeWhile_cons]
    split
    · next early =>
      rw [List.mem_cons, List.mem_cons, ih hrest]
      have : s = head → s.start ≤ offset := fun heq => by simpa [heq] using early
      grind
    · next late =>
      have hlate : offset < head.start := by simpa using late
      refine iff_of_false List.not_mem_nil fun ⟨hs, hle⟩ => ?_
      rcases List.mem_cons.1 hs with rfl | hs
      · omega
      · have := hhead s hs
        omega

/-- Of the ranges that start in time, the last one reaches farthest. -/
theorem lastUpTo_eq_some (h : f.Valid) {offset : Nat} {last : Span}
    (found : f.lastUpTo offset = some last) :
    last ∈ f.byOffset ∧ last.start ≤ offset ∧
      ∀ s ∈ f.byOffset, s.start ≤ offset → s.last ≤ last.last := by
  have hsorted : f.byOffset.Pairwise fun a b => a.start < b.start :=
    h.separate.imp_of_mem fun ha _ hlt => by have := h.ordered _ ha; omega
  obtain ⟨front, hfront⟩ := List.getLast?_eq_some_iff.1 found
  have hlast : last ∈ f.byOffset.takeWhile (·.start ≤ offset) := by rw [hfront]; simp
  obtain ⟨member, early⟩ := (mem_takeWhile_start hsorted).1 hlast
  refine ⟨member, early, fun s hs hle => ?_⟩
  have hin := (mem_takeWhile_start hsorted).2 ⟨hs, hle⟩
  have hsep := h.separate.sublist (List.takeWhile_sublist fun s : Span => s.start ≤ offset)
  rw [hfront] at hin hsep
  rcases List.mem_append.1 hin with hin | hin
  · have hgap := (List.pairwise_append.1 hsep).2.2 s hin last (by simp)
    have := h.ordered last member
    omega
  · exact Nat.le_of_eq (congrArg Span.last (List.mem_singleton.1 hin))

theorem lastUpTo_eq_none (h : f.Valid) {offset : Nat} (none : f.lastUpTo offset = none) :
    ∀ s ∈ f.byOffset, offset < s.start := by
  intro s hs
  have hsorted : f.byOffset.Pairwise fun a b => a.start < b.start :=
    h.separate.imp_of_mem fun ha _ hlt => by have := h.ordered _ ha; omega
  have hnil := List.getLast?_eq_none_iff.1 none
  by_cases hle : s.start ≤ offset
  · have := (mem_takeWhile_start hsorted).2 ⟨hs, hle⟩
    rw [hnil] at this
    cases this
  · omega

/-- No free range is found to overlap exactly if no byte of the range is free. -/
theorem overlapping_eq_none_iff (h : f.Valid) {span : Span} (ordered : span.start ≤ span.last) :
    f.overlapping span = none ↔ ∀ offset ∈ span, ¬ f.Covers offset := by
  unfold overlapping
  cases found : f.lastUpTo span.last with
  | none =>
    refine iff_of_true rfl ?_
    rintro offset hmem ⟨s, hs, hs'⟩
    have := h.lastUpTo_eq_none found s hs
    rw [Span.mem_def] at hmem hs'
    omega
  | some last =>
    obtain ⟨member, early, farthest⟩ := h.lastUpTo_eq_some found
    have hlast := h.ordered last member
    simp only [Option.filter_eq_none_iff, Option.some.injEq, decide_eq_true_eq]
    constructor
    · rintro hno offset hmem ⟨s, hs, hs'⟩
      rw [Span.mem_def] at hmem hs'
      have := farthest s hs (by omega)
      have := hno last rfl
      omega
    · rintro hno _ rfl hreach
      refine hno (max span.start last.start) ?_ ⟨last, member, ?_⟩
      all_goals rw [Span.mem_def]; omega

end Valid

/-- `joined` stands for `span` after a merge: together with the ranges that are left in `f'` it
covers what `span` and `f` covered. -/
structure Merged (f : FreeSpans) (span joined : Span) (f' : FreeSpans) : Prop where
  valid : f'.Valid
  ordered : joined.start ≤ joined.last
  disjoint : ∀ offset ∈ joined, ¬ f'.Covers offset
  covers : ∀ offset, (offset ∈ joined ∨ f'.Covers offset) ↔ (offset ∈ span ∨ f.Covers offset)
  bytes : f'.freeBytes + joined.size = f.freeBytes + span.size
  kept : ∀ s ∈ f'.byOffset, s ∈ f.byOffset

namespace Valid

variable {f : FreeSpans}

/-- A free range right beside `span` joins with it. -/
theorem absorb (h : f.Valid) {span side joined : Span} (ordered : span.start ≤ span.last)
    (disjoint : ∀ offset ∈ span, ¬ f.Covers offset) (member : side ∈ f.byOffset)
    (beside : (side.last + 1 = span.start ∧ joined = ⟨side.start, span.last⟩) ∨
      (side.start = span.last + 1 ∧ joined = ⟨span.start, side.last⟩)) :
    Merged f span joined (f.remove side) := by
  have hside := h.ordered side member
  have hremove (offset : Nat) : (f.remove side).Covers offset ↔
      f.Covers offset ∧ offset ∉ side := h.covers_remove member
  have hbytes := h.freeBytes_remove member
  have hcovers : ∀ offset, side.start ≤ offset → offset ≤ side.last → f.Covers offset :=
    fun offset hle hle' => ⟨side, member, hle, hle'⟩
  refine ⟨h.remove member, ?_, fun offset hmem => ?_, fun offset => ?_, ?_,
    fun s hs => (h.mem_remove.1 hs).2⟩
  · rcases beside with ⟨_, rfl⟩ | ⟨_, rfl⟩ <;> dsimp only <;> omega
  · have hspan := disjoint offset
    rw [hremove, Span.mem_def]
    rw [Span.mem_def] at hmem hspan
    rcases beside with ⟨_, rfl⟩ | ⟨_, rfl⟩ <;> dsimp only at hmem <;> grind
  · have hin := hcovers offset
    rw [hremove, Span.mem_def, Span.mem_def, Span.mem_def]
    rcases beside with ⟨_, rfl⟩ | ⟨_, rfl⟩ <;> dsimp only <;> grind
  · simp only [Span.size] at hbytes ⊢
    rcases beside with ⟨_, rfl⟩ | ⟨_, rfl⟩ <;> dsimp only <;> omega

theorem mergeLeft (h : f.Valid) {span : Span} (ordered : span.start ≤ span.last)
    (disjoint : ∀ offset ∈ span, ¬ f.Covers offset) :
    Merged f span (f.mergeLeft span).1 (f.mergeLeft span).2 ∧
      ∀ s ∈ (f.mergeLeft span).2.byOffset, s.last + 1 ≠ (f.mergeLeft span).1.start := by
  unfold FreeSpans.mergeLeft
  cases found : f.endingBefore span.start with
  | none =>
    refine ⟨⟨h, ordered, disjoint, fun _ => Iff.rfl, rfl, fun _ => id⟩, fun s hs => ?_⟩
    simpa using List.find?_eq_none.1 found s hs
  | some left =>
    have member := List.mem_of_find?_eq_some found
    have htouch : left.last + 1 = span.start := by simpa using List.find?_some found
    refine ⟨h.absorb ordered disjoint member (Or.inl ⟨htouch, rfl⟩), fun s hs => ?_⟩
    obtain ⟨hne, hs⟩ := h.mem_remove.1 hs
    have hgap := (h.eq_or_gap hs member).resolve_left hne
    have := h.ordered s hs
    have := h.ordered left member
    unfold Span.Gap at hgap
    dsimp only
    omega

theorem mergeRight (h : f.Valid) {span : Span} (ordered : span.start ≤ span.last)
    (disjoint : ∀ offset ∈ span, ¬ f.Covers offset) :
    Merged f span (f.mergeRight span).1 (f.mergeRight span).2 ∧
      (f.mergeRight span).1.start = span.start ∧
      ∀ s ∈ (f.mergeRight span).2.byOffset, s.start ≠ (f.mergeRight span).1.last + 1 := by
  unfold FreeSpans.mergeRight
  cases found : f.startingAfter span.last with
  | none =>
    refine ⟨⟨h, ordered, disjoint, fun _ => Iff.rfl, rfl, fun _ => id⟩, rfl, fun s hs => ?_⟩
    simpa using List.find?_eq_none.1 found s hs
  | some right =>
    have member := List.mem_of_find?_eq_some found
    have htouch : right.start = span.last + 1 := by simpa using List.find?_some found
    refine ⟨h.absorb ordered disjoint member (Or.inr ⟨htouch, rfl⟩), rfl, fun s hs => ?_⟩
    obtain ⟨hne, hs⟩ := h.mem_remove.1 hs
    have hgap := (h.eq_or_gap hs member).resolve_left hne
    have := h.ordered s hs
    have := h.ordered right member
    unfold Span.Gap at hgap
    dsimp only
    omega

/-- A range without free bytes comes back whole, as part of a range that leaves a gap to all
others. -/
theorem release (h : f.Valid) {span : Span} (ordered : span.start ≤ span.last)
    (disjoint : ∀ offset ∈ span, ¬ f.Covers offset) :
    ∃ joined f', f.release span = .ok (joined, f') ∧ f'.Valid ∧ joined ∈ f'.byOffset ∧
      (∀ offset, f'.Covers offset ↔ f.Covers offset ∨ offset ∈ span) ∧
      (∀ offset ∈ span, offset ∈ joined) ∧ f'.freeBytes = f.freeBytes + span.size := by
  have hfree := (h.overlapping_eq_none_iff ordered).2 disjoint
  obtain ⟨hleft, hnoleft⟩ := h.mergeLeft ordered disjoint
  obtain ⟨hright, hstart, hnoright⟩ := hleft.valid.mergeRight hleft.ordered hleft.disjoint
  unfold FreeSpans.release
  simp only [hfree]
  generalize f.mergeLeft span = left at *
  generalize left.2.mergeRight left.1 = right at *
  refine ⟨right.1, right.2.insert right.1, rfl, ?_, mem_insertBy.2 (Or.inl rfl),
    fun offset => ?_, fun offset hmem => ?_, ?_⟩
  · refine hright.valid.insert hright.ordered fun s hs => ?_
    have hs' := hright.kept s hs
    have hordered := hright.valid.ordered s hs
    have hapart : s.Apart right.1 := Span.apart_of_disjoint hordered hright.ordered
      fun offset hmem hmem' => hright.disjoint offset hmem' ⟨s, hs, hmem⟩
    have := hnoleft s hs'
    have := hnoright s hs
    unfold Span.Apart at hapart
    unfold Span.Gap
    omega
  · rw [covers_insert, hright.covers, hleft.covers, or_comm]
  · have hin := (hright.covers offset).2 ((hleft.covers offset).2 (Or.inl hmem))
    refine hin.resolve_right ?_
    rintro ⟨s, hs, hmem'⟩
    exact disjoint offset hmem ⟨s, hleft.kept s (hright.kept s hs), hmem'⟩
  · have := hright.bytes
    have := hleft.bytes
    change right.2.freeBytes + right.1.size = f.freeBytes + span.size
    omega

private theorem sumChecked_eq (spans : List Span) (total : Nat) (previous : Option Span)
    (ordered : ∀ s ∈ spans, s.start ≤ s.last)
    (separate : spans.Pairwise fun a b => a.last + 1 < b.start)
    (first : ∀ left, previous = some left → ∀ s ∈ spans, left.last + 1 < s.start) :
    sumChecked total previous spans = .ok (total + Span.total spans) := by
  induction spans generalizing total previous with
  | nil => rfl
  | cons s rest ih =>
    obtain ⟨hs, hrest⟩ := List.pairwise_cons.1 separate
    have hordered := ordered s (by simp)
    have hprevious : previous.filter (s.start ≤ ·.last + 1) = none := by
      rw [Option.filter_eq_none_iff]
      intro left hleft
      have := first left hleft s (by simp)
      simp only [decide_eq_true_eq]
      omega
    have hnext : ∀ left, some s = some left → ∀ other ∈ rest, left.last + 1 < other.start := by
      rintro left ⟨⟩
      exact hs
    unfold sumChecked
    rw [if_neg (by omega)]
    simp only [hprevious]
    rw [ih _ _ (fun other member => ordered other (by simp [member])) hrest hnext,
      Span.total_cons, Nat.add_assoc]

/-- The check finds nothing. -/
theorem check (h : f.Valid) : f.check = .ok () := by
  have hlength := h.same.length_eq
  have hstray : f.bySize.find? (· ∉ f.byOffset) = none := by
    rw [List.find?_eq_none]
    intro s hs
    simp [h.same.mem_iff.1 hs]
  have hsum := sumChecked_eq f.byOffset 0 none h.ordered h.separate nofun
  rw [Nat.zero_add, ← h.bytes] at hsum
  unfold FreeSpans.check
  rw [if_neg fun hne => hne hlength]
  simp only [hstray, hsum]
  exact if_neg fun hne => hne rfl

end Valid

end RegionStore.FreeSpans
