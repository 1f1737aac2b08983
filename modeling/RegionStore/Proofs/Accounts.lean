import RegionStore.Placement
import RegionStore.Proofs.Complement
import RegionStore.Proofs.Pools
import RegionStore.Proofs.Tiling

/-!
What the three ways to find room have in common. Whatever is issued lies inside its segment and
overlaps nothing else; room is found for a free entry, and a range that is released goes back.
-/
namespace RegionStore.Placement

/-- The account is right for a table over segments of the given sizes. -/
def Account (p : Placement) (t : SlotTable) (sizes : List Nat) : Prop :=
  match p with
  | firstFit order => ∃ size, sizes = [size] ∧ FirstFit.Account order t size
  | largestFit free => ∃ size, sizes = [size] ∧ free.Account t size
  | slab pools _ => SlotPool.Account pools t sizes

namespace Account

variable {p p' : Placement} {t t' : SlotTable} {sizes : List Nat}

theorem bounds (h : p.Account t sizes) {slot : Nat} {e : Entry}
    (issued : t.issued? slot = some e) : e.span.start ≤ e.span.last ∧
      ∃ size, sizes[e.segment]? = some size ∧ e.span.last < size := by
  obtain ⟨found, -⟩ := SlotTable.issued?_eq_some_iff.1 issued
  cases p with
  | firstFit order =>
    obtain ⟨size, rfl, account⟩ := h
    have hbounds := account.bounds (account.mem_of_issued? issued) found
    exact ⟨hbounds.1, size, by rw [account.segment slot e found]; rfl, hbounds.2⟩
  | largestFit free =>
    obtain ⟨size, rfl, account⟩ := h
    have hbounds := account.bounds slot e.span (SlotTable.range?_of_issued? issued)
    exact ⟨hbounds.1, size, by rw [account.segment slot e found]; rfl, hbounds.2⟩
  | slab pools fallThrough => exact SlotPool.Account.bounds h found

theorem apart (h : p.Account t sizes) {slot other : Nat} {e e' : Entry}
    (issued : t.issued? slot = some e) (issued' : t.issued? other = some e')
    (distinct : slot ≠ other) (shared : e.segment = e'.segment) : e.span.Apart e'.span := by
  obtain ⟨found, -⟩ := SlotTable.issued?_eq_some_iff.1 issued
  obtain ⟨found', -⟩ := SlotTable.issued?_eq_some_iff.1 issued'
  cases p with
  | firstFit order =>
    obtain ⟨size, rfl, account⟩ := h
    exact account.apart (account.mem_of_issued? issued) (account.mem_of_issued? issued')
      found found' distinct
  | largestFit free =>
    obtain ⟨size, rfl, account⟩ := h
    exact account.apart slot other e.span e'.span (SlotTable.range?_of_issued? issued)
      (SlotTable.range?_of_issued? issued') distinct
  | slab pools fallThrough => exact SlotPool.Account.apart h found found' distinct shared

/-- A new lease for what is issued changes nothing here. -/
theorem modify (h : p.Account t sizes) {slot : Nat} {e : Entry} {f : Entry → Entry}
    (issued : t.issued? slot = some e) (still : (f e).free = false)
    (place : (f e).place = e.place) : p.Account (t.modify slot f) sizes := by
  obtain ⟨found, -⟩ := SlotTable.issued?_eq_some_iff.1 issued
  cases p with
  | firstFit order =>
    obtain ⟨size, rfl, account⟩ := h
    exact ⟨size, rfl, account.modify (account.mem_of_issued? issued) found place⟩
  | largestFit free =>
    obtain ⟨size, rfl, account⟩ := h
    exact ⟨size, rfl, account.modify issued still place⟩
  | slab pools fallThrough => exact SlotPool.Account.modify h issued still place

/-- Room is found in a free entry that is large enough. Issuing it makes the account right. -/
theorem reserve (h : p.Account t sizes) {n slot : Nat} (positive : 1 ≤ n)
    (placed : p.reserve t n = some (slot, t', p')) :
    p'.strategy = p.strategy ∧ t.Readied t' slot ∧
      ∃ e, t'.find? slot = some e ∧ e.free = true ∧ n ≤ e.span.size ∧
        (p.strategy ≠ .slab → e.span.size = n) ∧
        ∀ f : Entry → Entry, (f e).free = false → (f e).place = e.place →
          p'.Account (t'.modify slot f) sizes := by
  cases p with
  | firstFit order =>
    obtain ⟨size, rfl, account⟩ := h
    obtain ⟨⟨slot', order', table⟩, found, heq⟩ := Option.map_eq_some_iff.1 placed
    cases heq
    obtain ⟨ready, member, account', -, e, hfound, hfree, hsize⟩ := account.reserve positive found
    refine ⟨rfl, ready, e, hfound, hfree, Nat.le_of_eq hsize.symm, fun _ => hsize, ?_⟩
    intro f _ place
    exact ⟨size, rfl, account'.modify member hfound place⟩
  | largestFit free =>
    obtain ⟨size, rfl, account⟩ := h
    obtain ⟨⟨span, free'⟩, taken, heq⟩ := Option.map_eq_some_iff.1 placed
    cases heq
    obtain ⟨ready, e, hfound, hfree, hsize, hissue⟩ := account.reserve positive taken
    refine ⟨rfl, ready, e, hfound, hfree, Nat.le_of_eq hsize.symm, fun _ => hsize, ?_⟩
    intro f issued place
    exact ⟨size, rfl, hissue f issued place⟩
  | slab pools fallThrough =>
    obtain ⟨⟨slot', pools'⟩, found, heq⟩ := Option.map_eq_some_iff.1 placed
    cases heq
    obtain ⟨e, hfound, hfree, hsize, hissue⟩ := SlotPool.Account.reserve h found
    exact ⟨rfl, .refl hfound hfree, e, hfound, hfree, hsize, fun hne => absurd rfl hne, hissue⟩

/-- A range that has been released is taken back, and its slot has no holder any more. -/
theorem release (h : p.Account t sizes) {slot : Nat} {e : Entry}
    (issued : t.issued? slot = some e) :
    ∃ t' p', p.release (t.modify slot fun _ => e.invalidate) slot e = .ok (t', p') ∧
      p'.strategy = p.strategy ∧ p'.Account t' sizes ∧ t'.region = t.region ∧
      (∀ x, t'.find? x = (t.modify slot fun _ => e.invalidate).find? x) := by
  obtain ⟨found, -⟩ := SlotTable.issued?_eq_some_iff.1 issued
  cases p with
  | firstFit order =>
    obtain ⟨size, rfl, account⟩ := h
    have account' := account.modify (f := fun _ => e.invalidate)
      (account.mem_of_issued? issued) found rfl
    exact ⟨_, _, rfl, rfl, ⟨size, rfl, account'⟩, rfl, fun _ => rfl⟩
  | largestFit free =>
    obtain ⟨size, rfl, account⟩ := h
    obtain ⟨joined, free', hrelease, account'⟩ := account.release issued
    refine ⟨_, .largestFit free', ?_, rfl, ⟨size, rfl, account'⟩, rfl, fun _ => rfl⟩
    simp only [Placement.release, hrelease]
  | slab pools fallThrough =>
    obtain ⟨pools', hrelease, account'⟩ := SlotPool.Account.release h issued
    refine ⟨_, .slab pools' fallThrough, ?_, rfl, account', rfl, fun _ => rfl⟩
    simp only [Placement.release, hrelease]

/-- After a reset nothing is issued and the account is right again. -/
theorem reset (h : p.Account t sizes) (admissible : ∀ n ∈ sizes, 1 ≤ n ∧ n ≤ Segment.maxSize)
    (size : Nat) (whole : ∀ n, sizes = [n] → size = n) :
    (p.reset t size).2.strategy = p.strategy ∧
      (p.reset t size).2.Account (p.reset t size).1 sizes ∧
      (p.reset t size).1.region = t.region ∧
      (∀ x, (p.reset t size).1.issued? x = none) ∧
      ∀ x, (p.reset t size).1.generationAt x =
        if x < t.slotCount then t.generationAt x + 1 else t.generationAt x := by
  cases p with
  | firstFit order =>
    obtain ⟨n, rfl, account⟩ := h
    obtain rfl := whole n rfl
    have hvacant := t.vacantFree_reset
    have hstack : t.reset.vacant = List.range t.reset.slotCount := by
      rw [SlotTable.slotCount_reset]
      rfl
    have haccount := FirstFit.account_start hstack hvacant account.segment.reset
      (admissible size (by simp)).1
    obtain ⟨ready, -⟩ := SlotTable.insert_readied hvacant 0 (.ofSize 0 size)
    refine ⟨rfl, ⟨size, rfl, haccount⟩, ready.region, fun x => ?_, fun x => ?_⟩
    · exact (ready.issued x).trans (t.issued?_reset x)
    · exact (ready.generation x).trans (t.generationAt_reset x)
  | largestFit free =>
    obtain ⟨n, rfl, account⟩ := h
    obtain rfl := whole n rfl
    obtain ⟨hpositive, hsmall⟩ := admissible size (by simp)
    refine ⟨rfl, ⟨size, rfl, account.reset hpositive ?_⟩, rfl, t.issued?_reset,
      t.generationAt_reset⟩
    unfold Segment.maxSize at hsmall
    omega
  | slab pools fallThrough =>
    exact ⟨rfl, SlotPool.Account.reset h, rfl, t.issued?_invalidateAll, t.generationAt_invalidateAll⟩

end Account

end RegionStore.Placement
