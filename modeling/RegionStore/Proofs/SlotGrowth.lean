import RegionStore.Proofs.Courses

/-!
The slots of a region in the course of its operations. They are never given up, none is made while
one waits on the stack, and with largest fit all that are free wait there.
-/
namespace RegionStore

namespace SlotTable

variable {t t' : SlotTable} {slot segment : Nat} {span : Span} {e : Entry} {f : Entry → Entry}

@[simp] theorem slotCount_invalidateAll (t : SlotTable) :
    t.invalidateAll.slotCount = t.slotCount := by
  simp [slotCount, invalidateAll]

/-- There are as many slots as before, or more of them and none waits on the stack. -/
def Grows (t t' : SlotTable) : Prop :=
  t'.slotCount = t.slotCount ∨ t.slotCount < t'.slotCount ∧ t'.vacant = []

theorem Grows.slotCount_le (h : t.Grows t') : t.slotCount ≤ t'.slotCount := by
  rcases h with same | ⟨more, -⟩
  · exact Nat.le_of_eq same.symm
  · exact Nat.le_of_lt more

theorem grows_insert (t : SlotTable) (segment : Nat) (span : Span) :
    t.Grows (t.insert segment span).2 := by
  rcases t.insert_source segment span with ⟨-, count⟩ | ⟨-, empty, -, count⟩
  · exact Or.inl count
  · exact Or.inr ⟨count ▸ Nat.lt_succ_self _, empty⟩

theorem slotCount_le_insert (t : SlotTable) (segment : Nat) (span : Span) :
    t.slotCount ≤ (t.insert segment span).2.slotCount :=
  (t.grows_insert segment span).slotCount_le

theorem Grows.modify (h : t.Grows t') (slot : Nat) (f : Entry → Entry) :
    t.Grows (t'.modify slot f) := by
  rw [Grows, slotCount_modify]
  exact h

theorem Grows.of_slotCount_eq {t₁ : SlotTable} (h : t₁.Grows t')
    (same : t₁.slotCount = t.slotCount) : t.Grows t' := by
  rw [Grows, ← same]
  exact h

/-- Every free slot waits on the stack. -/
def Parked (t : SlotTable) : Prop :=
  ∀ x e, t.find? x = some e → e.free = true → x ∈ t.vacant

namespace Parked

/-- Nothing that was issued becomes free. -/
theorem modify (h : t.Parked)
    (kept : ∀ e, t.find? slot = some e → (f e).free = true → e.free = true) :
    (t.modify slot f).Parked := by
  intro x e found free
  rw [find?_modify] at found
  split at found
  · next here =>
    subst here
    obtain ⟨e₀, found₀, rfl⟩ := Option.map_eq_some_iff.1 found
    exact h slot e₀ found₀ (kept e₀ found₀ free)
  · exact h x e found free

/-- The slot that is taken off the stack is issued. -/
theorem issue (h : t.Parked) (issued : ∀ e,
      (t.insert segment span).2.find? (t.insert segment span).1 = some e → (f e).free = false) :
    ((t.insert segment span).2.modify (t.insert segment span).1 f).Parked := by
  intro x e found free
  rw [find?_modify] at found
  split at found
  · next here =>
    obtain ⟨e₀, found₀, rfl⟩ := Option.map_eq_some_iff.1 found
    rw [issued e₀ (here ▸ found₀)] at free
    cases free
  · next elsewhere =>
    -- any other free slot has waited before, below the one that was on top
    rw [find?_insert_of_ne (Ne.symm elsewhere)] at found
    have waiting := h x e found free
    rcases t.insert_source segment span with ⟨stack, -⟩ | ⟨stack, -⟩
    · rw [stack] at waiting
      exact (List.mem_cons.1 waiting).resolve_left (Ne.symm elsewhere)
    · rw [stack] at waiting
      cases waiting

theorem retire (h : t.Parked) (slot : Nat) (f : Entry → Entry) :
    ((t.modify slot f).retire slot).Parked := by
  intro x e found free
  rw [find?_retire, find?_modify] at found
  split at found
  · next here => exact here ▸ List.mem_cons_self
  · exact List.mem_cons_of_mem _ (h x e found free)

end Parked

theorem parked_reset (t : SlotTable) : t.reset.Parked := by
  intro x e found _
  have inside := exists_find?_iff.1 ⟨e, found⟩
  rw [slotCount_reset] at inside
  exact List.mem_range.2 inside

end SlotTable

namespace Placement

variable {p p' : Placement} {t t' : SlotTable} {slot n size : Nat} {e : Entry}

/-- Largest fit inserts what it takes. -/
theorem largestFit_reserve {free : FreeSpans}
    (room : (largestFit free).reserve t n = some (slot, t', p')) :
    ∃ span free', free.take n = some (span, free') ∧ slot = (t.insert 0 span).1 ∧
      t' = (t.insert 0 span).2 ∧ p' = largestFit free' := by
  obtain ⟨⟨span, free'⟩, taken, heq⟩ := Option.map_eq_some_iff.1 room
  exact ⟨span, free', taken, (congrArg (·.1) heq).symm, (congrArg (·.2.1) heq).symm,
    (congrArg (·.2.2) heq).symm⟩

theorem grows_reserve (room : p.reserve t n = some (slot, t', p')) : t.Grows t' := by
  cases p with
  | firstFit order =>
    simp only [reserve, FirstFit.reserve] at room
    split at room
    · cases room
    · split at room
      · cases room
      · split at room
        · cases room
          exact Or.inl rfl
        · cases room
          exact (t.grows_insert 0 _).modify _ _
  | largestFit free =>
    obtain ⟨span, free', -, -, rfl, -⟩ := largestFit_reserve room
    exact t.grows_insert 0 span
  | slab pools fallThrough =>
    obtain ⟨⟨slot', pools'⟩, -, heq⟩ := Option.map_eq_some_iff.1 room
    cases heq
    exact Or.inl rfl

theorem slotCount_release (released : p.release t slot e = .ok (t', p')) :
    t'.slotCount = t.slotCount := by
  cases p with
  | firstFit order =>
    cases released
    rfl
  | largestFit free =>
    simp only [release] at released
    split at released <;> cases released
    rfl
  | slab pools fallThrough =>
    simp only [release] at released
    split at released <;> cases released
    rfl

theorem grows_reset (p : Placement) (t : SlotTable) (size : Nat) :
    t.Grows (p.reset t size).1 := by
  cases p with
  | firstFit order => exact (t.reset.grows_insert 0 _).of_slotCount_eq t.slotCount_reset
  | largestFit free => exact Or.inl t.slotCount_reset
  | slab pools fallThrough => exact Or.inl t.slotCount_invalidateAll

namespace Course

theorem grows (course : Course size t p t' p') : t.Grows t' := by
  induction course with
  | done => exact Or.inl rfl
  | renew _ _ ih => exact ih.of_slotCount_eq (SlotTable.slotCount_modify _ _ _)
  | release _ released _ ih =>
    exact ih.of_slotCount_eq ((slotCount_release released).trans (SlotTable.slotCount_modify _ _ _))
  | issue room _ => exact (grows_reserve room).modify _ _
  | @reset t p => exact grows_reset p t size

/-- For largest fit, a slot that is free waits on the stack, whatever happens. -/
theorem parked (course : Course size t p t' p') (strategy : p.strategy = .largestFit)
    (parked : t.Parked) : t'.Parked := by
  induction course with
  | done => exact parked
  | renew kept _ ih =>
    exact ih strategy (parked.modify fun e found free => (kept e found).symm.trans free)
  | @release _ _ _ p _ _ slot e _ released _ ih =>
    cases p with
    | firstFit order => cases strategy
    | slab pools fallThrough => cases strategy
    | largestFit free =>
      simp only [Placement.release] at released
      split at released <;> cases released
      exact ih rfl (parked.retire slot _)
  | @issue _ _ p _ _ _ _ room issued =>
    cases p with
    | firstFit order => cases strategy
    | slab pools fallThrough => cases strategy
    | largestFit free =>
      obtain ⟨span, free', -, rfl, rfl, -⟩ := largestFit_reserve room
      exact parked.issue fun e _ => issued e
  | @reset t p =>
    cases p with
    | firstFit order => cases strategy
    | slab pools fallThrough => cases strategy
    | largestFit free => exact t.parked_reset

end Course

end Placement

namespace Region

variable {r : Region}

/-- The slots of the region are still there. -/
def Extends (r r' : Region) : Prop := r.table.slotCount ≤ r'.table.slotCount

theorem extends_release (k : Handle) : Extends r (r.release k).2 := by
  have course : Placement.Course r.capacity r.table r.placement _ _ := course_release k .done
  exact course.grows.slotCount_le

theorem extends_run (ops : List (Int × Op)) : Extends r (r.run ops) := by
  induction ops generalizing r with
  | nil => exact Nat.le_refl _
  | cons head rest ih =>
    exact Nat.le_trans (course_step head.1 head.2).grows.slotCount_le ih

end Region

end RegionStore
