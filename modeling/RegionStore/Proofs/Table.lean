import RegionStore.Proofs.Spans
import RegionStore.SlotTable

/-!
Two views of a slot table: the entry issued at each slot, and the generation that each slot has
reached. The sum of the issued ranges follows from the first one, and every operation on the table
is described by what it does to the two.
-/
namespace RegionStore

/-- Where the bytes of an entry lie. -/
def Entry.place (e : Entry) : Nat × Span := (e.segment, e.span)

namespace SlotTable

/-- The entry of a slot, if the slot is issued. -/
def issued? (t : SlotTable) (slot : Nat) : Option Entry := (t.find? slot).filter (!·.free)

/-- A slot that does not exist yet stands at the generation it will start with. -/
def generationAt (t : SlotTable) (slot : Nat) : UInt32 :=
  ((t.find? slot).map (·.generation)).getD 0

theorem issued?_eq_some_iff {t : SlotTable} {slot : Nat} {e : Entry} :
    t.issued? slot = some e ↔ t.find? slot = some e ∧ e.free = false := by
  simp [issued?]

theorem issued?_eq_none_iff {t : SlotTable} {slot : Nat} :
    t.issued? slot = none ↔ ∀ e, t.find? slot = some e → e.free = true := by
  simp [issued?]

theorem issued?_of_free {t : SlotTable} {slot : Nat} {e : Entry} (found : t.find? slot = some e)
    (free : e.free = true) : t.issued? slot = none := by
  simp [issued?, found, free]

theorem generationAt_of_find? {t : SlotTable} {slot : Nat} {e : Entry}
    (found : t.find? slot = some e) : t.generationAt slot = e.generation := by
  simp [generationAt, found]

theorem find?_eq_none_iff {t : SlotTable} {slot : Nat} :
    t.find? slot = none ↔ t.slotCount ≤ slot := by
  simp [find?, slotCount]

theorem exists_find?_iff {t : SlotTable} {slot : Nat} :
    (∃ e, t.find? slot = some e) ↔ slot < t.slotCount := by
  rw [← Option.isSome_iff_exists, Option.isSome_iff_ne_none, ne_eq, find?_eq_none_iff, Nat.not_le]

theorem lt_slotCount_of_issued? {t : SlotTable} {slot : Nat} {e : Entry}
    (h : t.issued? slot = some e) : slot < t.slotCount :=
  exists_find?_iff.1 ⟨e, (issued?_eq_some_iff.1 h).1⟩

/-- A handle names what is issued at its slot, while the slot is still at its generation. -/
theorem checked_eq_ok_iff_issued? {t : SlotTable} {h : Handle} {e : Entry} :
    t.checked h = .ok e ↔
      h.region = t.region ∧ t.issued? h.slot = some e ∧ e.generation = h.generation := by
  rw [checked_eq_ok_iff, issued?_eq_some_iff, Entry.isCurrent_iff, and_assoc]

theorem checked_eq_error_iff {t : SlotTable} {h : Handle} {refusal : StoreError} :
    t.checked h = .error refusal ↔
      (h.region ≠ t.region ∧ refusal = .unknownRegion h.region) ∨
      (h.region = t.region ∧ refusal = .staleHandle ∧
        ∀ e, t.issued? h.slot = some e → e.generation ≠ h.generation) := by
  unfold checked
  split
  · next foreign => grind
  · next own =>
    split
    · next missing => grind [issued?]
    · next e found =>
      split
      · next current => grind [issued?_eq_some_iff, Entry.isCurrent_iff]
      · next stale => grind [issued?_eq_some_iff, Entry.isCurrent_iff]

private theorem filter_mapIdx (entries : List Entry) (f : Nat → Entry → Snapshot)
    (free : ∀ i e, (f i e).free = e.free) :
    (entries.mapIdx f).filter (!·.free) =
      (List.range entries.length).filterMap fun i =>
        (entries[i]?.filter (!·.free)).map (f i) := by
  induction entries generalizing f with
  | nil => rfl
  | cons e rest ih =>
    have htail := ih (fun i => f (i + 1)) fun i => free (i + 1)
    rw [List.mapIdx_cons, List.length_cons, List.range_succ_eq_map, List.filterMap_cons,
      List.filterMap_map, List.filter_cons, free]
    simp only [List.getElem?_cons_zero, htail, Function.comp_def, List.getElem?_cons_succ,
      Nat.succ_eq_add_one]
    cases h : e.free <;> simp [h, Option.filter_some]

/-- The list of what is live, read off the view slot by slot. -/
theorem live_eq_filterMap (t : SlotTable) {n : Nat} (h : t.slotCount ≤ n) :
    t.live = (List.range n).filterMap fun slot =>
      (t.issued? slot).map (·.snapshot t.region slot) := by
  have hlive : t.live = (List.range t.slotCount).filterMap fun slot =>
      (t.issued? slot).map (·.snapshot t.region slot) := by
    unfold live snapshots
    rw [filter_mapIdx _ _ fun _ _ => rfl]
    simp [issued?, find?, slotCount]
  obtain ⟨extra, rfl⟩ := Nat.exists_eq_add_of_le h
  rw [hlive, List.range_add, List.filterMap_append, List.filterMap_map]
  have beyond : (List.range extra).filterMap ((fun slot =>
      (t.issued? slot).map (·.snapshot t.region slot)) ∘ (t.slotCount + ·)) = [] := by
    rw [List.filterMap_eq_nil_iff]
    intro i _
    have hnone : t.find? (t.slotCount + i) = none := find?_eq_none_iff.2 (by omega)
    simp [issued?, hnone]
  rw [beyond, List.append_nil]

theorem mem_live_iff {t : SlotTable} {s : Snapshot} :
    s ∈ t.live ↔ ∃ slot e, t.issued? slot = some e ∧ s = e.snapshot t.region slot := by
  rw [mem_live]
  simp only [issued?_eq_some_iff, and_assoc]

/-- Where one slot changes, what holds of all issued entries has to be shown for that one. -/
theorem forall_issued {t t' : SlotTable} {slot : Nat} {new : Option Entry} {P : Entry → Prop}
    (issued : ∀ x, t'.issued? x = if x = slot then new else t.issued? x)
    (others : ∀ x e, t.issued? x = some e → P e) (here : ∀ e, new = some e → P e) :
    ∀ x e, t'.issued? x = some e → P e := by
  intro x e found
  rw [issued] at found
  split at found
  · exact here e found
  · exact others x e found

/-- The range issued at a slot. -/
def range? (t : SlotTable) (slot : Nat) : Option Span := (t.issued? slot).map (·.span)

theorem range?_eq_some_iff {t : SlotTable} {slot : Nat} {s : Span} :
    t.range? slot = some s ↔ ∃ e, t.issued? slot = some e ∧ e.span = s := by
  simp [range?]

theorem range?_of_issued? {t : SlotTable} {slot : Nat} {e : Entry}
    (issued : t.issued? slot = some e) : t.range? slot = some e.span := by
  rw [range?, issued, Option.map_some]

/-- Bytes of all issued ranges. -/
def issuedBytes (t : SlotTable) : Nat := Span.total (t.live.map (·.span))

/-- Bytes of the range issued at a slot, zero if none is. -/
def bytesAt (t : SlotTable) (slot : Nat) : Nat := ((t.range? slot).map Span.size).getD 0

theorem issuedBytes_eq_total (t : SlotTable) {n : Nat} (h : t.slotCount ≤ n) :
    t.issuedBytes = Span.total ((List.range n).filterMap t.range?) := by
  rw [issuedBytes, live_eq_filterMap t h, List.map_filterMap]
  simp only [Option.map_map]
  rfl

private theorem total_filterMap_of_eq_off {f g : Nat → Option Span} {slot n : Nat}
    (inside : slot < n) (off : ∀ x, x ≠ slot → g x = f x) :
    Span.total ((List.range n).filterMap g) + ((f slot).map Span.size).getD 0 =
      Span.total ((List.range n).filterMap f) + ((g slot).map Span.size).getD 0 := by
  have append (k : Nat → Option Span) (m : Nat) :
      Span.total ((List.range (m + 1)).filterMap k) =
        Span.total ((List.range m).filterMap k) + ((k m).map Span.size).getD 0 := by
    rw [List.range_succ, List.filterMap_append, Span.total_append]
    cases h : k m <;> simp [h]
  have below (m : Nat) (hm : m ≤ slot) :
      Span.total ((List.range m).filterMap g) = Span.total ((List.range m).filterMap f) := by
    induction m with
    | zero => rfl
    | succ m ih => rw [append, append, ih (by omega), off m (by omega)]
  induction n with
  | zero => omega
  | succ m ih =>
    rw [append, append]
    by_cases here : m = slot
    · subst here
      have := below m (Nat.le_refl _)
      omega
    · have := ih (by omega)
      rw [off m here]
      omega

/-- Where only one slot differs, the sums differ by what is issued there. -/
theorem issuedBytes_of_eq_off {t t' : SlotTable} (slot : Nat)
    (off : ∀ x, x ≠ slot → t'.range? x = t.range? x) :
    t'.issuedBytes + t.bytesAt slot = t.issuedBytes + t'.bytesAt slot := by
  let n := max (max t.slotCount t'.slotCount) (slot + 1)
  rw [issuedBytes_eq_total t (show t.slotCount ≤ n by omega),
    issuedBytes_eq_total t' (show t'.slotCount ≤ n by omega)]
  exact total_filterMap_of_eq_off (show slot < n by omega) off

theorem issuedBytes_congr {t t' : SlotTable} (range : ∀ x, t'.range? x = t.range? x) :
    t'.issuedBytes = t.issuedBytes := by
  have := issuedBytes_of_eq_off 0 fun x _ => range x
  have hbytes : t'.bytesAt 0 = t.bytesAt 0 := by rw [bytesAt, bytesAt, range]
  omega

theorem issuedBytes_of_idle {t : SlotTable} (idle : ∀ x, t.issued? x = none) :
    t.issuedBytes = 0 := by
  rw [issuedBytes_eq_total t (Nat.le_refl _), List.filterMap_eq_nil_iff.2, Span.total_nil]
  intro x _
  rw [range?, idle, Option.map_none]

/-- Where nothing changes but that one slot is released, so many bytes less are issued. -/
theorem issuedBytes_of_released {t t' : SlotTable} {slot : Nat} {e : Entry}
    (issued : t.issued? slot = some e)
    (released : ∀ x, t'.issued? x = if x = slot then none else t.issued? x) :
    e.span.size + t'.issuedBytes = t.issuedBytes := by
  have hbytes : t'.issuedBytes + t.bytesAt slot = t.issuedBytes + t'.bytesAt slot :=
    issuedBytes_of_eq_off slot fun x hx => by rw [range?, range?, released, if_neg hx]
  simp only [bytesAt, range?, released, issued, if_pos, Option.map_none, Option.map_some,
    Option.getD_none, Option.getD_some] at hbytes
  omega

/-! ### Operations -/

theorem issued?_modify {t : SlotTable} {slot : Nat} {e : Entry} (found : t.find? slot = some e)
    (f : Entry → Entry) (x : Nat) :
    (t.modify slot f).issued? x =
      if x = slot then (if (f e).free then none else some (f e)) else t.issued? x := by
  unfold issued?
  rw [find?_modify]
  by_cases here : slot = x
  · subst here
    simp only [found, ↓reduceIte, Option.map_some, Option.filter_some, Bool.not_eq_true']
    cases (f e).free <;> rfl
  · rw [if_neg here, if_neg fun h => here h.symm]

theorem modify_self (t : SlotTable) (slot : Nat) : (t.modify slot fun e => e) = t := by
  have : t.entries.modify slot (fun e => e) = t.entries := by
    apply Array.ext_getElem?
    intro i
    rw [Array.getElem?_modify]
    split <;> simp
  rw [modify, this]

theorem generationAt_modify {t : SlotTable} {slot : Nat} {e : Entry}
    (found : t.find? slot = some e) (f : Entry → Entry) (x : Nat) :
    (t.modify slot f).generationAt x =
      if x = slot then (f e).generation else t.generationAt x := by
  unfold generationAt
  rw [find?_modify]
  by_cases here : slot = x
  · subst here
    simp [found]
  · rw [if_neg here, if_neg fun h => here h.symm]

theorem place_modify {t : SlotTable} {slot : Nat} {e : Entry} {f : Entry → Entry}
    (found : t.find? slot = some e) (place : (f e).place = e.place) (x : Nat) :
    ((t.modify slot f).find? x).map Entry.place = (t.find? x).map Entry.place := by
  rw [find?_modify]
  split
  · next here =>
    rw [← here, found, Option.map_some, Option.map_some, Option.map_some, place]
  · rfl

/-- A new lease for what is issued leaves every range where it is. -/
theorem range?_modify {t : SlotTable} {slot : Nat} {e : Entry} {f : Entry → Entry}
    (issued : t.issued? slot = some e) (still : (f e).free = false)
    (place : (f e).place = e.place) (x : Nat) : (t.modify slot f).range? x = t.range? x := by
  have hspan : (f e).span = e.span := congrArg Prod.snd place
  rw [range?, issued?_modify (issued?_eq_some_iff.1 issued).1]
  split
  · next here => simp [still, hspan, here, range?, issued]
  · rfl

theorem issued?_release {t : SlotTable} {slot : Nat} {e : Entry}
    (issued : t.issued? slot = some e) (x : Nat) :
    (t.modify slot fun _ => e.invalidate).issued? x = if x = slot then none else t.issued? x := by
  rw [issued?_modify (issued?_eq_some_iff.1 issued).1]
  rfl

@[simp] theorem issued?_retire (t : SlotTable) (slot x : Nat) :
    (t.retire slot).issued? x = t.issued? x := rfl

@[simp] theorem issued?_invalidateAll (t : SlotTable) (x : Nat) :
    t.invalidateAll.issued? x = none := by
  rw [issued?_eq_none_iff]
  intro e found
  rw [find?_invalidateAll] at found
  obtain ⟨old, _, rfl⟩ := Option.map_eq_some_iff.1 found
  rfl

theorem generationAt_invalidateAll (t : SlotTable) (x : Nat) :
    t.invalidateAll.generationAt x =
      if x < t.slotCount then t.generationAt x + 1 else t.generationAt x := by
  unfold generationAt
  rw [find?_invalidateAll]
  split
  · next inside =>
    obtain ⟨e, found⟩ := exists_find?_iff.2 inside
    simp [found, Entry.invalidate]
  · next beyond => simp [find?_eq_none_iff.2 (Nat.le_of_not_lt beyond)]

@[simp] theorem issued?_reset (t : SlotTable) (x : Nat) : t.reset.issued? x = none :=
  issued?_invalidateAll t x

@[simp] theorem slotCount_reset (t : SlotTable) : t.reset.slotCount = t.slotCount := by
  simp [slotCount, reset, invalidateAll]

theorem generationAt_reset (t : SlotTable) (x : Nat) :
    t.reset.generationAt x =
      if x < t.slotCount then t.generationAt x + 1 else t.generationAt x :=
  generationAt_invalidateAll t x

/-- Every slot on the stack exists and is free. -/
def VacantFree (t : SlotTable) : Prop :=
  ∀ slot ∈ t.vacant, ∃ e, t.find? slot = some e ∧ e.free = true

theorem vacantFree_reset (t : SlotTable) : t.reset.VacantFree := by
  intro slot member
  obtain ⟨e, found⟩ := exists_find?_iff.2 (List.mem_range.1 member)
  exact ⟨e.invalidate, by rw [find?_reset, found]; rfl, rfl⟩

/-- A free entry stands at `slot`, to be issued next, and nobody who holds a handle can tell
`t'` from `t`. -/
structure Readied (t t' : SlotTable) (slot : Nat) : Prop where
  region : t'.region = t.region
  issued : ∀ x, t'.issued? x = t.issued? x
  generation : ∀ x, t'.generationAt x = t.generationAt x
  entry : ∃ e, t'.find? slot = some e ∧ e.free = true

theorem Readied.refl {t : SlotTable} {slot : Nat} {e : Entry} (found : t.find? slot = some e)
    (free : e.free = true) : Readied t t slot :=
  ⟨rfl, fun _ => rfl, fun _ => rfl, e, found, free⟩

theorem Readied.not_issued {t t' : SlotTable} {slot : Nat} (h : Readied t t' slot) :
    t.issued? slot = none := by
  obtain ⟨e, found, free⟩ := h.entry
  rw [← h.issued]
  exact issued?_of_free found free

/-- What is seen once the entry is issued. -/
theorem Readied.issued?_issue {t t' : SlotTable} {slot : Nat} (h : Readied t t' slot) {e : Entry}
    (found : t'.find? slot = some e) {f : Entry → Entry} (issued : (f e).free = false) (x : Nat) :
    (t'.modify slot f).issued? x = if x = slot then some (f e) else t.issued? x := by
  rw [issued?_modify found, h.issued]
  simp [issued]

theorem Readied.generationAt_issue {t t' : SlotTable} {slot : Nat} (h : Readied t t' slot)
    {e : Entry} (found : t'.find? slot = some e) {f : Entry → Entry}
    (same : (f e).generation = e.generation) :
    (t'.modify slot f).generationAt = t.generationAt := by
  funext x
  rw [generationAt_modify found, ← h.generation]
  split
  · next here => rw [here, generationAt_of_find? found, same]
  · rfl

theorem Readied.issuedBytes_issue {t t' : SlotTable} {slot : Nat} (h : Readied t t' slot)
    {e : Entry} (found : t'.find? slot = some e) {f : Entry → Entry}
    (issued : (f e).free = false) :
    (t'.modify slot f).issuedBytes = t.issuedBytes + (f e).span.size := by
  have hissued := h.issued?_issue found issued
  have hbytes : (t'.modify slot f).issuedBytes + t.bytesAt slot =
      t.issuedBytes + (t'.modify slot f).bytesAt slot :=
    issuedBytes_of_eq_off slot fun x hx => by rw [range?, range?, hissued, if_neg hx]
  simp only [bytesAt, range?, hissued, if_pos, h.not_issued, Option.map_none, Option.map_some,
    Option.getD_none, Option.getD_some] at hbytes
  exact hbytes

/-- The other free entries may be given other ranges. -/
theorem Readied.move {t t' : SlotTable} {slot other : Nat} {e : Entry} (h : Readied t t' slot)
    (apart : other ≠ slot) (found : t'.find? other = some e) (free : e.free = true)
    (segment : Nat) (span : Span) : Readied t (t'.modify other (·.move segment span)) slot := by
  refine ⟨h.region, fun x => ?_, fun x => ?_, ?_⟩
  · rw [issued?_modify found, ← h.issued]
    split
    · next here =>
      subst here
      rw [if_pos (show (e.move segment span).free = true from free)]
      exact (issued?_of_free found free).symm
    · rfl
  · rw [generationAt_modify found, ← h.generation]
    split
    · next here =>
      subst here
      exact (generationAt_of_find? found).symm
    · rfl
  · obtain ⟨e', found', free'⟩ := h.entry
    exact ⟨e', by rw [find?_modify, if_neg apart, found'], free'⟩

/-- Where an insertion found its slot: on the stack, or past the last one. -/
theorem insert_source (t : SlotTable) (segment : Nat) (span : Span) :
    (t.vacant = (t.insert segment span).1 :: (t.insert segment span).2.vacant ∧
        (t.insert segment span).2.slotCount = t.slotCount) ∨
      (t.vacant = [] ∧ (t.insert segment span).2.vacant = [] ∧
        (t.insert segment span).1 = t.slotCount ∧
        (t.insert segment span).2.slotCount = t.slotCount + 1) := by
  unfold insert
  split
  · next slot rest stack => exact Or.inl ⟨stack, by simp [slotCount, modify]⟩
  · next stack => exact Or.inr ⟨stack, stack, rfl, by simp [slotCount]⟩

theorem find?_insert_of_ne {t : SlotTable} {segment x : Nat} {span : Span}
    (apart : x ≠ (t.insert segment span).1) :
    (t.insert segment span).2.find? x = t.find? x := by
  revert apart
  unfold insert
  split
  · intro apart
    change (t.modify _ _).find? x = t.find? x
    rw [find?_modify, if_neg fun h => apart h.symm]
  · intro apart
    have apart : x ≠ t.entries.size := apart
    simp only [find?, Array.getElem?_push, if_neg apart]

/-- An insertion readies a free entry for its range, at the generation the slot has. -/
theorem insert_readied {t : SlotTable} (free : t.VacantFree) (segment : Nat) (span : Span) :
    Readied t (t.insert segment span).2 (t.insert segment span).1 ∧
      ∃ e, (t.insert segment span).2.find? (t.insert segment span).1 = some e ∧
        e.free = true ∧ e.segment = segment ∧ e.span = span := by
  have entry : ∃ e, (t.insert segment span).2.find? (t.insert segment span).1 = some e ∧
      e.free = true ∧ e.segment = segment ∧ e.span = span ∧
      e.generation = t.generationAt (t.insert segment span).1 ∧
      t.issued? (t.insert segment span).1 = none := by
    unfold insert
    split
    · next slot rest stack =>
      obtain ⟨e, found, hfree⟩ := free slot (by simp [stack])
      refine ⟨e.move segment span, ?_, hfree, rfl, rfl, ?_, issued?_of_free found hfree⟩
      · change (t.modify slot _).find? slot = _
        rw [find?_modify, if_pos rfl, found]
        rfl
      · exact (generationAt_of_find? found).symm
    · have hnone : t.find? t.slotCount = none := find?_eq_none_iff.2 (Nat.le_refl _)
      refine ⟨.vacant segment span, ?_, rfl, rfl, rfl, ?_, ?_⟩
      · simp [find?, slotCount]
      · simp [generationAt, hnone, Entry.vacant]
      · simp [issued?, hnone]
  obtain ⟨e, found, hfree, hsegment, hspan, hgeneration, hnone⟩ := entry
  refine ⟨⟨?_, fun x => ?_, fun x => ?_, e, found, hfree⟩, e, found, hfree, hsegment, hspan⟩
  · unfold insert
    split <;> rfl
  · by_cases here : x = (t.insert segment span).1
    · rw [here, hnone, issued?_of_free found hfree]
    · unfold issued?
      rw [find?_insert_of_ne here]
  · by_cases here : x = (t.insert segment span).1
    · rw [here, generationAt_of_find? found, hgeneration]
    · unfold generationAt
      rw [find?_insert_of_ne here]

theorem mem_vacant_insert {t : SlotTable} {segment x : Nat} {span : Span}
    (distinct : t.vacant.Nodup) (waiting : x ∈ (t.insert segment span).2.vacant) :
    x ∈ t.vacant ∧ x ≠ (t.insert segment span).1 := by
  rcases t.insert_source segment span with ⟨stack, -⟩ | ⟨-, none, -, -⟩
  · rw [stack] at distinct ⊢
    refine ⟨List.mem_cons_of_mem _ waiting, fun heq => ?_⟩
    exact (List.nodup_cons.1 distinct).1 (heq ▸ waiting)
  · rw [none] at waiting
    cases waiting

theorem nodup_vacant_insert {t : SlotTable} (distinct : t.vacant.Nodup) (segment : Nat)
    (span : Span) : (t.insert segment span).2.vacant.Nodup := by
  rcases t.insert_source segment span with ⟨stack, -⟩ | ⟨-, none, -⟩
  · rw [stack] at distinct
    exact (List.nodup_cons.1 distinct).2
  · rw [none]
    exact List.nodup_nil

theorem vacantFree_insert {t : SlotTable} (free : t.VacantFree) (distinct : t.vacant.Nodup)
    (segment : Nat) (span : Span) : (t.insert segment span).2.VacantFree := by
  intro x waiting
  obtain ⟨member, apart⟩ := mem_vacant_insert distinct waiting
  obtain ⟨e, found, hfree⟩ := free x member
  exact ⟨e, by rw [find?_insert_of_ne apart, found], hfree⟩

theorem VacantFree.modify {t : SlotTable} (free : t.VacantFree) {slot : Nat}
    (f : Entry → Entry) (apart : slot ∉ t.vacant) : (t.modify slot f).VacantFree := by
  intro x waiting
  obtain ⟨e, found, hfree⟩ := free x waiting
  have hne : slot ≠ x := fun heq => apart (heq ▸ waiting)
  exact ⟨e, by rw [find?_modify, if_neg hne, found], hfree⟩

/-- All ranges lie in the first segment, which is the only one of a region without pools. -/
def Unsegmented (t : SlotTable) : Prop := ∀ slot e, t.find? slot = some e → e.segment = 0

theorem Unsegmented.modify {t : SlotTable} (h : t.Unsegmented) {slot : Nat} {e : Entry}
    {f : Entry → Entry} (found : t.find? slot = some e) (kept : (f e).segment = e.segment) :
    (t.modify slot f).Unsegmented := by
  intro x e' found'
  rw [find?_modify] at found'
  split at found'
  · next here =>
    rw [← here, found, Option.map_some, Option.some.injEq] at found'
    rw [← found', kept]
    exact h slot e found
  · exact h x e' found'

theorem Unsegmented.reset {t : SlotTable} (h : t.Unsegmented) : t.reset.Unsegmented := by
  intro x e found
  rw [find?_reset] at found
  obtain ⟨old, hold, rfl⟩ := Option.map_eq_some_iff.1 found
  exact h x old hold

theorem unsegmented_insert {t : SlotTable} (h : t.Unsegmented) (free : t.VacantFree)
    (span : Span) : (t.insert 0 span).2.Unsegmented := by
  intro x e found
  by_cases here : x = (t.insert 0 span).1
  · obtain ⟨-, e', found', -, hsegment, -⟩ := insert_readied free 0 span
    rw [here, found'] at found
    cases found
    exact hsegment
  · rw [find?_insert_of_ne here] at found
    exact h x e found

end SlotTable

end RegionStore
