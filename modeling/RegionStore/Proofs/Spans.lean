import Mathlib.Data.List.Pairwise
import RegionStore.Span

/-!
Lists of ranges: how many bytes they name, when they tile a stretch of offsets, and when one list
cuts the ranges of another into pieces.
-/
namespace RegionStore.Span

/-- Neither range reaches into the other. -/
def Apart (a b : Span) : Prop := a.last < b.start ∨ b.last < a.start

instance : Std.Symm Apart := ⟨fun _ _ => Or.symm⟩

theorem Apart.not_mem {a b : Span} (h : Apart a b) {offset : Nat} (ha : offset ∈ a) :
    offset ∉ b := by
  intro hb
  rw [mem_def] at ha hb
  unfold Apart at h
  omega

theorem apart_of_disjoint {a b : Span} (ha : a.start ≤ a.last) (hb : b.start ≤ b.last)
    (h : ∀ offset ∈ a, offset ∉ b) : Apart a b := by
  have hstart := h (max a.start b.start)
  simp only [mem_def] at hstart
  unfold Apart
  omega

/-- At least one offset lies between the two ranges. -/
def Gap (a b : Span) : Prop := a.last + 1 < b.start ∨ b.last + 1 < a.start

instance : Std.Symm Gap := ⟨fun _ _ => Or.symm⟩

/-- Bytes named by a list of ranges, each range counted by itself. -/
def total : List Span → Nat
  | [] => 0
  | s :: rest => s.size + total rest

@[simp] theorem total_nil : total [] = 0 := rfl

@[simp] theorem total_cons (s : Span) (rest : List Span) :
    total (s :: rest) = s.size + total rest := rfl

@[simp] theorem total_append (xs ys : List Span) : total (xs ++ ys) = total xs + total ys := by
  induction xs with
  | nil => simp
  | cons s rest ih => simp [ih, Nat.add_assoc]

theorem total_perm {xs ys : List Span} (h : xs.Perm ys) : total xs = total ys := by
  induction h with
  | nil => rfl
  | cons s _ ih => simp [ih]
  | swap s s' rest => simp only [total_cons]; omega
  | trans _ _ ih ih' => exact ih.trans ih'

theorem total_le_of_sublist {xs ys : List Span} (h : xs.Sublist ys) : total xs ≤ total ys := by
  induction h with
  | slnil => exact Nat.le_refl _
  | cons s _ ih => rw [total_cons]; omega
  | cons_cons s _ ih => rw [total_cons, total_cons]; omega

/-- Read in order, the ranges cover the offsets from `first` up to `past`, each exactly once:
every range starts where the one before it ended. -/
def Tiles : (first : Nat) → List Span → (past : Nat) → Prop
  | first, [], past => first = past
  | first, s :: rest, past => s.start = first ∧ s.start ≤ s.last ∧ Tiles (s.last + 1) rest past

theorem tiles_append {xs ys : List Span} {first past : Nat} :
    Tiles first (xs ++ ys) past ↔ ∃ middle, Tiles first xs middle ∧ Tiles middle ys past := by
  induction xs generalizing first with
  | nil => simp [Tiles]
  | cons s rest ih => simp [Tiles, ih, and_assoc]

theorem Tiles.le {spans : List Span} {first past : Nat} (h : Tiles first spans past) :
    first ≤ past := by
  induction spans generalizing first with
  | nil => exact Nat.le_of_eq h
  | cons s rest ih =>
    obtain ⟨hstart, hordered, hrest⟩ := h
    have := ih hrest
    omega

theorem Tiles.bounds {spans : List Span} {first past : Nat} (h : Tiles first spans past)
    {s : Span} (member : s ∈ spans) : first ≤ s.start ∧ s.start ≤ s.last ∧ s.last < past := by
  induction spans generalizing first with
  | nil => cases member
  | cons head rest ih =>
    obtain ⟨hstart, hordered, hrest⟩ := h
    have hle := hrest.le
    rcases List.mem_cons.1 member with rfl | member
    · omega
    · have := ih hrest member
      omega

theorem Tiles.pairwise {spans : List Span} {first past : Nat} (h : Tiles first spans past) :
    spans.Pairwise fun a b => a.last < b.start := by
  induction spans generalizing first with
  | nil => exact List.Pairwise.nil
  | cons s rest ih =>
    refine List.pairwise_cons.2 ⟨fun other member => ?_, ih h.2.2⟩
    have := h.2.2.bounds member
    omega

/-- A tiling names every byte of its stretch once. -/
theorem Tiles.add_total {spans : List Span} {first past : Nat} (h : Tiles first spans past) :
    first + total spans = past := by
  induction spans generalizing first with
  | nil => exact h
  | cons s rest ih =>
    obtain ⟨hstart, hordered, hrest⟩ := h
    have hsize := start_add_size hordered
    have htail := ih hrest
    rw [total_cons]
    omega

theorem Tiles.length_le {spans : List Span} {first past : Nat} (h : Tiles first spans past) :
    first + spans.length ≤ past := by
  induction spans generalizing first with
  | nil => exact Nat.le_of_eq h
  | cons s rest ih =>
    obtain ⟨hstart, hordered, hrest⟩ := h
    have := ih hrest
    rw [List.length_cons]
    omega

/-- The new list keeps each old range or cuts it into consecutive pieces, in the old order. -/
inductive Cut : (old new : List Span) → Prop
  | nil : Cut [] []
  | cons {s : Span} {pieces old new : List Span} (tiles : Tiles s.start pieces (s.last + 1))
      (rest : Cut old new) : Cut (s :: old) (pieces ++ new)

theorem Cut.refl {spans : List Span} (ordered : ∀ s ∈ spans, s.start ≤ s.last) :
    Cut spans spans := by
  induction spans with
  | nil => exact Cut.nil
  | cons s rest ih =>
    have kept : Tiles s.start [s] (s.last + 1) := ⟨rfl, ordered s (by simp), rfl⟩
    exact Cut.cons kept (ih fun other member => ordered other (by simp [member]))

theorem Cut.append {old new old' new' : List Span} (h : Cut old new) (h' : Cut old' new') :
    Cut (old ++ old') (new ++ new') := by
  induction h with
  | nil => exact h'
  | cons tiles _ ih =>
    rw [List.cons_append, List.append_assoc]
    exact Cut.cons tiles ih

theorem Cut.length_le {old new : List Span} (h : Cut old new)
    (ordered : ∀ s ∈ old, s.start ≤ s.last) : old.length ≤ new.length := by
  induction h with
  | nil => exact Nat.le_refl _
  | @cons s pieces old new tiles _ ih =>
    have hrest := ih fun other member => ordered other (by simp [member])
    have hs := ordered s (by simp)
    have hpieces : pieces ≠ [] := by
      rintro rfl
      have : s.start = s.last + 1 := tiles
      omega
    have := List.length_pos_iff.2 hpieces
    simp only [List.length_cons, List.length_append]
    omega

/-- A maximal run of the offsets with a property: all of its offsets have it, and the offsets
right before and right after it do not. -/
structure MaximalRun (p : Nat → Prop) (s : Span) : Prop where
  ordered : s.start ≤ s.last
  inside : ∀ offset ∈ s, p offset
  before : ∀ offset, offset + 1 = s.start → ¬ p offset
  after : ¬ p (s.last + 1)

theorem MaximalRun.congr {p q : Nat → Prop} (h : ∀ offset, p offset ↔ q offset) {s : Span} :
    MaximalRun p s ↔ MaximalRun q s := by
  have : p = q := funext fun offset => propext (h offset)
  rw [this]

/-- The longest of the maximal runs, of several the one with the lowest start. -/
structure LongestRun (p : Nat → Prop) (s : Span) : Prop where
  run : MaximalRun p s
  first : ∀ other, MaximalRun p other →
    other.size < s.size ∨ (other.size = s.size ∧ s.start ≤ other.start)

/-- The property alone tells which run is the longest. -/
theorem LongestRun.unique {p : Nat → Prop} {a b : Span} (ha : LongestRun p a)
    (hb : LongestRun p b) : a = b := by
  have hab := ha.first b hb.run
  have hba := hb.first a ha.run
  have := start_add_size ha.run.ordered
  have := start_add_size hb.run.ordered
  cases a
  cases b
  simp only [mk.injEq]
  dsimp only at *
  omega

/-- Two ranges of a list that leaves gaps are the same one or have a gap between them. -/
theorem eq_or_gap {spans : List Span} (separate : spans.Pairwise fun a b => a.last + 1 < b.start)
    {a b : Span} (ha : a ∈ spans) (hb : b ∈ spans) : a = b ∨ a.Gap b := by
  have gaps : spans.Pairwise Gap := separate.imp Or.inl
  by_cases same : a = b
  · exact Or.inl same
  · exact Or.inr (gaps.forall ha hb same)

/-- Ordered ranges with a gap after each of them are the maximal runs of what they cover. -/
theorem mem_iff_maximalRun {spans : List Span} (ordered : ∀ s ∈ spans, s.start ≤ s.last)
    (separate : spans.Pairwise fun a b => a.last + 1 < b.start) {s : Span} :
    s ∈ spans ↔ MaximalRun (fun offset => ∃ other ∈ spans, offset ∈ other) s := by
  constructor
  · intro member
    have hs := ordered s member
    refine ⟨hs, fun offset h => ⟨s, member, h⟩, ?_, ?_⟩
    · rintro offset hbefore ⟨other, hother, hmem⟩
      have := ordered other hother
      rw [mem_def] at hmem
      rcases eq_or_gap separate member hother with rfl | hgap | hgap <;> omega
    · rintro ⟨other, hother, hmem⟩
      have := ordered other hother
      rw [mem_def] at hmem
      rcases eq_or_gap separate member hother with rfl | hgap | hgap <;> omega
  · intro run
    obtain ⟨a, ha, hmem⟩ := run.inside s.start ⟨Nat.le_refl _, run.ordered⟩
    rw [mem_def] at hmem
    -- `a` covers the first offset of the run, so it can neither begin before it nor end elsewhere
    have hstart : a.start = s.start := by
      by_cases hlt : a.start < s.start
      · exact absurd ⟨a, ha, mem_def.2 ⟨by omega, by omega⟩⟩
          (run.before (s.start - 1) (by omega))
      · omega
    have hle : a.last ≤ s.last := by
      by_cases hlt : s.last < a.last
      · exact absurd ⟨a, ha, mem_def.2 ⟨by have := run.ordered; omega, by omega⟩⟩ run.after
      · omega
    have hlast : a.last = s.last := by
      by_cases hlt : a.last < s.last
      · obtain ⟨b, hb, hmem'⟩ := run.inside (a.last + 1) ⟨by omega, by omega⟩
        rw [mem_def] at hmem'
        rcases eq_or_gap separate ha hb with rfl | hgap | hgap <;> omega
      · omega
    cases a
    cases s
    simp only at hstart hlast
    subst hstart hlast
    exact ha

/-- Two lists of ranges in strict address order with the same members are the same list. -/
theorem eq_of_mem_iff {xs ys : List Span} (hxs : xs.Pairwise fun a b => a.start < b.start)
    (hys : ys.Pairwise fun a b => a.start < b.start) (h : ∀ s, s ∈ xs ↔ s ∈ ys) : xs = ys := by
  have nodup : ∀ {zs : List Span}, zs.Pairwise (fun a b => a.start < b.start) → zs.Nodup :=
    fun hzs => hzs.imp fun hlt heq => by subst heq; omega
  have perm : xs.Perm ys := (List.perm_ext_iff_of_nodup (nodup hxs) (nodup hys)).2 h
  exact perm.eq_of_pairwise (fun a b _ _ hab hba => absurd hab (by omega)) hxs hys

end RegionStore.Span
