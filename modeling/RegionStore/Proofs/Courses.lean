import RegionStore.Proofs.Runs

/-!
What an operation comes to for the table of a region and for what is kept beside it. Leases are
renewed and ranges are released one after another, and at the end a range may be issued or
everything be reset.
-/
namespace RegionStore

theorem SlotTable.issued?_of_claim? {t t' : SlotTable} {slot : Nat} {g : UInt32} {e : Entry}
    (claimed : t.claim? slot g = some (e, t')) :
    t.issued? slot = some e ∧ t' = t.modify slot fun _ => e.invalidate := by
  obtain ⟨found, current, table⟩ := claim?_eq_some_iff.1 claimed
  exact ⟨issued?_eq_some_iff.2 ⟨found, (Entry.isCurrent_iff.1 current).1⟩, table⟩

namespace Placement

/-- What an operation comes to for a table and for what is kept beside it, in a region of `size`
bytes. -/
inductive Course (size : Nat) : SlotTable → Placement → SlotTable → Placement → Prop
  | done {t : SlotTable} {p : Placement} : Course size t p t p
  | renew {t t' : SlotTable} {p p' : Placement} {slot : Nat} {f : Entry → Entry}
    (kept : ∀ e, t.find? slot = some e → (f e).free = e.free)
    (rest : Course size (t.modify slot f) p t' p') : Course size t p t' p'
  | release {t t₁ t' : SlotTable} {p p₁ p' : Placement} {slot : Nat} {e : Entry}
    (issued : t.issued? slot = some e)
    (released : p.release (t.modify slot fun _ => e.invalidate) slot e = .ok (t₁, p₁))
    (rest : Course size t₁ p₁ t' p') : Course size t p t' p'
  | issue {t t' : SlotTable} {p p' : Placement} {n slot : Nat} {f : Entry → Entry}
    (room : p.reserve t n = some (slot, t', p')) (issued : ∀ e, (f e).free = false) :
    Course size t p (t'.modify slot f) p'
  | reset {t : SlotTable} {p : Placement} : Course size t p (p.reset t size).1 (p.reset t size).2

end Placement

namespace Region

open Placement (Course)

variable {r : Region} {t : SlotTable} {p : Placement} {size : Nat}

theorem course_view (now : Int) (k : Handle) (f : List UInt8 → α) :
    Course size r.table r.placement (r.view now k f).2.table (r.view now k f).2.placement := by
  unfold view
  split
  · exact .done
  · split
    · exact .done
    · refine .renew ?_ .done
      exact fun _ _ => rfl

theorem course_edit (k : Handle) (f : List UInt8 → List UInt8 × α) :
    Course size r.table r.placement (r.edit k f).2.table (r.edit k f).2.placement := by
  unfold edit
  split
  · exact .done
  · split <;> exact .done

theorem find?_of_locate {k : Handle} {e : Entry} {s : Segment} (located : r.locate k = .ok (e, s)) :
    r.table.find? k.slot = some e := by
  unfold locate at located
  split at located
  · cases located
  · next checked =>
    split at located <;> cases located
    exact (SlotTable.checked_eq_ok_iff.1 checked).2.1

theorem course_overwrite (k : Handle) (bytes : List UInt8) :
    Course size r.table r.placement (r.overwrite k bytes).2.table
      (r.overwrite k bytes).2.placement := by
  unfold overwrite
  split
  · exact .done
  · next e s located =>
    split
    · exact .done
    · next s' e' overwritten =>
      refine .renew ?_ .done
      intro e₀ found
      obtain rfl := Option.some.inj (found.symm.trans (find?_of_locate located))
      unfold Segment.overwrite at overwritten
      split at overwritten <;> cases overwritten
      rfl

theorem course_place (now : Int) (q : Request) :
    Course size r.table r.placement (r.place now q).2.table (r.place now q).2.placement := by
  unfold place
  split
  · exact .done
  · next room =>
    split
    · exact .done
    · split
      · exact .done
      · exact .issue room fun _ => rfl

theorem course_submit (now : Int) (q : Request) :
    Course size r.table r.placement (r.submit now q).2.table (r.submit now q).2.placement := by
  unfold submit
  split
  · exact .done
  · exact course_place now q

/-- For first fit there is nothing to a release beside the entry. -/
theorem course_replace {order : List Nat} (placement : r.placement = .firstFit order) (now : Int)
    (k : Handle) (bytes : List UInt8) :
    Course size r.table r.placement (r.replace now k bytes).2.table
      (r.replace now k bytes).2.placement := by
  unfold replace
  split
  · exact .done
  · next e table claimed =>
    obtain ⟨issued, rfl⟩ := SlotTable.issued?_of_claim? claimed
    have released : r.placement.release (r.table.modify k.slot fun _ => e.invalidate) k.slot e =
        .ok (r.table.modify k.slot fun _ => e.invalidate, r.placement) := by
      rw [placement, Placement.release]
    exact .release issued released (course_place (r := { r with
      table := r.table.modify k.slot fun _ => e.invalidate
      usage := r.usage.subUsed (.ofNat e.span.size) }) now _)

theorem course_update (now : Int) (k : Handle) (bytes : List UInt8) :
    Course size r.table r.placement (r.update now k bytes).2.table
      (r.update now k bytes).2.placement := by
  unfold update
  split
  · exact .done
  · split
    · exact .done
    · split
      · exact .done
      · split
        · next placement => exact course_replace placement now k bytes
        · exact course_overwrite k bytes
        · exact course_overwrite k bytes

/-- Whatever follows on a release. -/
theorem course_release (k : Handle)
    (rest : Course size (r.release k).2.table (r.release k).2.placement t p) :
    Course size r.table r.placement t p := by
  unfold release at rest
  split at rest
  · exact rest
  · split at rest
    · exact rest
    · next e table claimed =>
      split at rest
      · exact rest
      · next released =>
        obtain ⟨issued, rfl⟩ := SlotTable.issued?_of_claim? claimed
        exact .release issued released rest

theorem course_releaseAll (ks : List Handle) :
    Course size r.table r.placement (r.releaseAll ks).2.table (r.releaseAll ks).2.placement := by
  induction ks generalizing r with
  | nil => exact .done
  | cons k rest ih =>
    -- the course of the first release goes on with that of the others, if it is not refused
    refine course_release k ?_
    have others := ih (r := (r.release k).2)
    simp only [releaseAll]
    generalize r.release k = first at others ⊢
    obtain ⟨refusal | freed, r₁⟩ := first
    · exact .done
    · simp only
      generalize r₁.releaseAll rest = last at others ⊢
      obtain ⟨refusal | freed', r₂⟩ := last <;> exact others

theorem course_collectLeastUsed (batch : Nat) (now : Int) :
    Course size r.table r.placement (r.collectLeastUsed batch now).2.table
      (r.collectLeastUsed batch now).2.placement := by
  unfold collectLeastUsed
  split
  · exact .done
  · dsimp only
    split
    · exact .done
    · have released : Course size r.table r.placement _ _ := course_releaseAll
        ((leastUsed r.live now (evictionCount r.live.length batch)).map (·.handle))
      generalize r.releaseAll _ = swept at released ⊢
      obtain ⟨refusal | freed, r'⟩ := swept
      · exact released
      · dsimp only
        split <;> exact released

theorem course_step (now : Int) (op : Op) :
    Course r.capacity r.table r.placement (r.step now op).table (r.step now op).placement := by
  cases op with
  | submit q => exact course_submit now q
  | view k f => exact course_view now k f
  | edit k patch => exact course_edit k patch.run
  | update k bytes => exact course_update now k bytes
  | release k => exact course_release k .done
  | collectExpired batch => exact course_releaseAll _
  | collectLeastUsed batch => exact course_collectLeastUsed batch now
  | setThreshold threshold => exact .done
  | clear => exact .reset

end Region

end RegionStore
