import RegionStore.Proofs.SlotGrowth

/-!
Tables that differ in generations. Where one of the two has slots that the other has yet to make,
these are free and wait at the bottom of its stack, so that both hand out the same slots.
-/
namespace RegionStore

/-- The entry with its generation counted from a later one on. -/
def Entry.since (e : Entry) (age : UInt32) : Entry := { e with generation := e.generation - age }

def Handle.since (k : Handle) (age : UInt32) : Handle := { k with generation := k.generation - age }

def Snapshot.since (x : Snapshot) (age : UInt32) : Snapshot :=
  { x with handle := x.handle.since age }

namespace Entry

theorem since_invalidate (e : Entry) (age : UInt32) :
    e.invalidate.since age = (e.since age).invalidate := by
  have : e.generation + 1 - age = e.generation - age + 1 := by grind
  simp only [since, invalidate, this]

theorem isCurrent_since (e : Entry) (g age : UInt32) :
    (e.since age).isCurrent (g - age) = e.isCurrent g := by
  rw [Bool.eq_iff_iff, isCurrent_iff, isCurrent_iff]
  exact and_congr_right fun _ => UInt32.sub_left_inj age

end Entry

namespace SlotTable

/-- The generations of `t` are ahead of those of `u` by the ages of the slots. -/
structure Aged (age : Nat → UInt32) (t u : SlotTable) : Prop where
  region : u.region = t.region
  count : u.slotCount ≤ t.slotCount
  entries : ∀ x < u.slotCount, u.find? x = (t.find? x).map (·.since (age x))
  spare : ∀ x e, u.slotCount ≤ x → t.find? x = some e → e.free = true ∧ e.lease = .blank
  begun : ∀ x, u.slotCount ≤ x → t.generationAt x = age x

/-- The slots that only `t` has wait below all that were retired, lowest first. -/
def Stacked (t u : SlotTable) : Prop :=
  t.vacant = u.vacant ++ List.range' u.slotCount (t.slotCount - u.slotCount)

variable {t u : SlotTable} {age : Nat → UInt32} {slot : Nat} {e : Entry}

namespace Aged

theorem find? (h : Aged age t u) (inside : slot < u.slotCount) (found : t.find? slot = some e) :
    u.find? slot = some (e.since (age slot)) := by
  rw [h.entries slot inside, found, Option.map_some]

theorem issued? (h : Aged age t u) (x : Nat) :
    u.issued? x = (t.issued? x).map (·.since (age x)) := by
  by_cases inside : x < u.slotCount
  · rw [SlotTable.issued?, SlotTable.issued?, h.entries x inside]
    cases t.find? x with
    | none => rfl
    | some e =>
      have hfree : (e.since (age x)).free = e.free := rfl
      rw [Option.map_some, Option.filter_some, Option.filter_some, hfree]
      split <;> rfl
  · have beyond : u.slotCount ≤ x := Nat.le_of_not_lt inside
    have hu : u.issued? x = none := by
      rw [SlotTable.issued?, find?_eq_none_iff.2 beyond, Option.filter_none]
    have ht : t.issued? x = none :=
      issued?_eq_none_iff.2 fun e found => (h.spare x e beyond found).1
    rw [hu, ht, Option.map_none]

/-- A handle to a slot that both have is good for both or for none. -/
theorem checked (h : Aged age t u) {k : Handle} (inside : k.slot < u.slotCount) :
    u.checked (k.since (age k.slot)) = (t.checked k).map (·.since (age k.slot)) := by
  have hfind : u.find? k.slot = (t.find? k.slot).map (·.since (age k.slot)) :=
    h.entries k.slot inside
  simp only [SlotTable.checked, Handle.since, h.region, hfind]
  split
  · rfl
  · cases t.find? k.slot with
    | none => rfl
    | some e =>
      simp only [Option.map_some, Entry.isCurrent_since]
      split <;> rfl

theorem live (h : Aged age t u) : u.live = t.live.map fun x => x.since (age x.handle.slot) := by
  rw [t.live_eq_filterMap (Nat.le_refl _), u.live_eq_filterMap h.count, List.map_filterMap]
  congr 1
  funext x
  rw [h.issued?, h.region]
  cases t.issued? x <;> rfl

theorem modify (h : Aged age t u) (inside : slot < u.slotCount) {f f' : Entry → Entry}
    (same : ∀ e, t.find? slot = some e → (f e).since (age slot) = f' (e.since (age slot))) :
    Aged age (t.modify slot f) (u.modify slot f') := by
  refine ⟨h.region, by simpa using h.count, fun x hx => ?_, fun x e hx found => ?_,
    fun x hx => ?_⟩
  · rw [slotCount_modify] at hx
    rw [find?_modify, find?_modify, h.entries x hx]
    split
    · next here =>
      subst here
      cases found : t.find? slot with
      | none => rfl
      | some e => exact congrArg some (same e found).symm
    · rfl
  · rw [slotCount_modify] at hx
    rw [find?_modify, if_neg (by omega)] at found
    exact h.spare x e hx found
  · rw [slotCount_modify] at hx
    rw [generationAt, find?_modify, if_neg (by omega)]
    exact h.begun x hx

theorem retire (h : Aged age t u) (slot : Nat) : Aged age (t.retire slot) (u.retire slot) :=
  ⟨h.region, h.count, h.entries, h.spare, h.begun⟩

end Aged

theorem Stacked.modify (h : Stacked t u) (slot : Nat) (f f' : Entry → Entry) :
    Stacked (t.modify slot f) (u.modify slot f') := by
  rw [Stacked, vacant_modify, vacant_modify, slotCount_modify, slotCount_modify]
  exact h

theorem Stacked.retire (h : Stacked t u) (slot : Nat) :
    Stacked (t.retire slot) (u.retire slot) := congrArg (slot :: ·) h

theorem insert_of_vacant {rest : List Nat} (waiting : t.vacant = slot :: rest) (segment : Nat)
    (span : Span) : t.insert segment span =
      (slot, { t.modify slot (·.move segment span) with vacant := rest }) := by
  rw [SlotTable.insert, waiting]

theorem insert_of_full (none : t.vacant = []) (segment : Nat) (span : Span) :
    t.insert segment span =
      (t.slotCount, { t with entries := t.entries.push (.vacant segment span) }) := by
  rw [SlotTable.insert, none]

theorem slotCount_push (t : SlotTable) (e : Entry) :
    slotCount { t with entries := t.entries.push e } = t.slotCount + 1 :=
  Array.size_push e

theorem find?_push (t : SlotTable) (e : Entry) (x : Nat) :
    SlotTable.find? { t with entries := t.entries.push e } x =
      if x = t.slotCount then some e else t.find? x :=
  Array.getElem?_push

/-- The same slot was found in both tables. -/
structure InsertedAlike (age : Nat → UInt32) (x y : Nat × SlotTable) : Prop where
  slot : y.1 = x.1
  aged : Aged age x.2 y.2
  stack : Stacked x.2 y.2
  inside : x.1 < y.2.slotCount

/-- Both take the same retired slot, which `u` has too. -/
theorem Aged.insert_retired (h : Aged age t u) (stack : Stacked t u) {rest : List Nat}
    (waiting : u.vacant = slot :: rest) (inside : slot < u.slotCount) (segment : Nat)
    (span : Span) :
    InsertedAlike age (t.insert segment span) (u.insert segment span) := by
  have waiting' : t.vacant = slot :: (rest ++ List.range' u.slotCount
      (t.slotCount - u.slotCount)) := by
    rw [stack, waiting, List.cons_append]
  have hmoved : Aged age (t.modify slot (·.move segment span))
      (u.modify slot (·.move segment span)) := h.modify inside fun _ _ => rfl
  have hcount := slotCount_modify t slot (·.move segment span)
  have hcount' := slotCount_modify u slot (·.move segment span)
  rw [insert_of_vacant waiting, insert_of_vacant waiting']
  refine ⟨rfl, ⟨hmoved.region, hmoved.count, hmoved.entries, hmoved.spare, hmoved.begun⟩, ?_, ?_⟩
  · change _ = rest ++ List.range' (u.modify slot _).slotCount
      ((t.modify slot _).slotCount - (u.modify slot _).slotCount)
    rw [hcount, hcount']
  · change slot < (u.modify slot _).slotCount
    rw [hcount']
    exact inside

/-- Where `u` makes a slot, `t` takes the one of that number, which has waited. -/
theorem Aged.insert_spare (h : Aged age t u) (stack : Stacked t u) (full : u.vacant = [])
    (more : u.slotCount < t.slotCount) (segment : Nat) (span : Span) :
    InsertedAlike age (t.insert segment span) (u.insert segment span) := by
  have waiting : t.vacant = u.slotCount ::
      List.range' (u.slotCount + 1) (t.slotCount - (u.slotCount + 1)) := by
    rw [stack, full, List.nil_append, ← List.range'_succ]
    congr 1
    omega
  obtain ⟨e, found⟩ := exists_find?_iff.2 more
  obtain ⟨free, blank⟩ := h.spare _ e (Nat.le_refl _) found
  have begun : e.generation = age u.slotCount := by
    rw [← h.begun _ (Nat.le_refl _), generationAt_of_find? found]
  have hnew : (e.move segment span).since (age u.slotCount) = .vacant segment span := by
    simp only [Entry.since, Entry.move, free, blank, begun, UInt32.sub_self, Entry.vacant]
  have hcount := slotCount_modify t u.slotCount (·.move segment span)
  have hcount' := u.slotCount_push (.vacant segment span)
  rw [insert_of_full full, insert_of_vacant waiting]
  refine ⟨rfl, ⟨h.region, ?_, fun x hx => ?_, fun x e' hx found' => ?_, fun x hx => ?_⟩, ?_, ?_⟩
  · rw [hcount']
    change _ ≤ (t.modify _ _).slotCount
    omega
  · rw [hcount'] at hx
    change _ = ((t.modify _ _).find? x).map _
    rw [find?_push, find?_modify]
    by_cases here : x = u.slotCount
    · rw [if_pos here, if_pos here.symm, here, found, Option.map_some, Option.map_some, hnew]
    · rw [if_neg here, if_neg (Ne.symm here)]
      exact h.entries x (by omega)
  · rw [hcount'] at hx
    change (t.modify _ _).find? x = _ at found'
    rw [find?_modify, if_neg (by omega)] at found'
    exact h.spare x e' (by omega) found'
  · rw [hcount'] at hx
    change (((t.modify _ _).find? x).map _).getD 0 = _
    rw [find?_modify, if_neg (by omega)]
    exact h.begun x (by omega)
  · rw [Stacked, hcount']
    change _ = u.vacant ++ List.range' _ ((t.modify _ _).slotCount - _)
    rw [full, hcount, List.nil_append]
  · rw [hcount']
    exact Nat.lt_succ_self _

/-- Where they have the same slots, both make a new one. -/
theorem Aged.insert_new (h : Aged age t u) (full : u.vacant = []) (full' : t.vacant = [])
    (same : u.slotCount = t.slotCount) (segment : Nat) (span : Span) :
    InsertedAlike age (t.insert segment span) (u.insert segment span) := by
  have hcount := t.slotCount_push (.vacant segment span)
  have hcount' := u.slotCount_push (.vacant segment span)
  have begun : age t.slotCount = 0 := by
    rw [← h.begun _ (Nat.le_of_eq same), generationAt, find?_eq_none_iff.2 (Nat.le_refl _)]
    rfl
  rw [insert_of_full full, insert_of_full full']
  refine ⟨same, ⟨h.region, ?_, fun x hx => ?_, fun x e hx found => ?_, fun x hx => ?_⟩, ?_, ?_⟩
  · exact Nat.le_of_eq (by rw [hcount, hcount', same])
  · rw [hcount'] at hx
    rw [find?_push, find?_push, same]
    by_cases here : x = t.slotCount
    · rw [if_pos here, if_pos here, Option.map_some, here, begun]
      simp only [Entry.since, Entry.vacant, UInt32.sub_zero]
    · rw [if_neg here, if_neg here]
      exact h.entries x (by omega)
  · rw [hcount'] at hx
    rw [find?_push, if_neg (by omega)] at found
    exact h.spare x e (by omega) found
  · rw [hcount'] at hx
    rw [generationAt, find?_push, if_neg (by omega)]
    exact h.begun x (by omega)
  · rw [Stacked, hcount, hcount', same, Nat.sub_self]
    change t.vacant = u.vacant ++ _
    rw [full, full']
    rfl
  · rw [hcount', same]
    exact Nat.lt_succ_self _

/-- Both find the same slot for a range. -/
theorem Aged.insert (h : Aged age t u) (stack : Stacked t u) (waiting : u.VacantFree)
    (segment : Nat) (span : Span) :
    InsertedAlike age (t.insert segment span) (u.insert segment span) := by
  cases full : u.vacant with
  | cons slot rest =>
    obtain ⟨e, found, -⟩ := waiting slot (by simp [full])
    exact h.insert_retired stack full (exists_find?_iff.1 ⟨e, found⟩) segment span
  | nil =>
    have count := h.count
    by_cases more : u.slotCount < t.slotCount
    · exact h.insert_spare stack full more segment span
    · have same : u.slotCount = t.slotCount := by omega
      refine h.insert_new full ?_ same segment span
      rw [stack, full, same, Nat.sub_self]
      rfl

/-- Ages after both have been reset: what `t` has more than `u` has moved on by one. -/
def laterAges (age : Nat → UInt32) (t u : SlotTable) (x : Nat) : UInt32 :=
  if x < u.slotCount then age x else t.invalidateAll.generationAt x

theorem laterAges_of_lt {x : Nat} (inside : x < u.slotCount) : laterAges age t u x = age x :=
  if_pos inside

theorem Aged.invalidateAll (h : Aged age t u) :
    Aged (laterAges age t u) t.invalidateAll u.invalidateAll := by
  refine ⟨h.region, by simpa using h.count, fun x hx => ?_, fun x e hx found => ?_, fun x hx => ?_⟩
  · rw [slotCount_invalidateAll] at hx
    rw [find?_invalidateAll, find?_invalidateAll, h.entries x hx, laterAges_of_lt hx]
    cases t.find? x with
    | none => rfl
    | some e => exact congrArg some (e.since_invalidate (age x)).symm
  · rw [find?_invalidateAll] at found
    obtain ⟨e, -, rfl⟩ := Option.map_eq_some_iff.1 found
    exact ⟨rfl, rfl⟩
  · rw [slotCount_invalidateAll] at hx
    exact (if_neg (Nat.not_lt.2 hx)).symm

theorem Aged.reset (h : Aged age t u) : Aged (laterAges age t u) t.reset u.reset := by
  have hinvalid := h.invalidateAll
  exact ⟨hinvalid.region, hinvalid.count, hinvalid.entries, hinvalid.spare, hinvalid.begun⟩

theorem Aged.stacked_reset (h : Aged age t u) : Stacked t.reset u.reset := by
  have happend : List.range' 0 u.slotCount ++
      List.range' (0 + u.slotCount) (t.slotCount - u.slotCount) = _ := List.range'_append_1
  rw [Nat.zero_add, Nat.add_sub_cancel' h.count] at happend
  rw [Stacked, slotCount_reset, slotCount_reset]
  change List.range t.slotCount = List.range u.slotCount ++ _
  rw [List.range_eq_range', List.range_eq_range', happend]

end SlotTable

/-! ### Finding room -/

namespace Placement

/-- The same slot has been set aside in both tables, or none in either. -/
inductive ReservedAlike (age : Nat → UInt32) :
    Option (Nat × SlotTable × Placement) → Option (Nat × SlotTable × Placement) → Prop
  | none : ReservedAlike age none none
  | some {slot : Nat} {t u : SlotTable} {p : Placement} (aged : t.Aged age u)
    (stack : p.strategy ≠ .slab → t.Stacked u) (inside : slot < u.slotCount) :
    ReservedAlike age (some (slot, t, p)) (some (slot, u, p))

variable {p p' : Placement} {t t' u : SlotTable} {age : Nat → UInt32} {slot : Nat} {e : Entry}

theorem fits_aged (h : t.Aged age u) (inside : slot < u.slotCount) (n : Nat) :
    FirstFit.fits u n slot = FirstFit.fits t n slot := by
  rw [FirstFit.fits, FirstFit.fits, h.entries slot inside]
  cases t.find? slot <;> rfl

theorem find?_fits_aged (h : t.Aged age u) {order : List Nat}
    (inside : ∀ slot ∈ order, slot < u.slotCount) (n : Nat) :
    order.find? (FirstFit.fits u n) = order.find? (FirstFit.fits t n) := by
  induction order with
  | nil => rfl
  | cons slot rest ih =>
    rw [List.find?_cons, List.find?_cons, fits_aged h (inside slot (by simp)),
      ih fun x member => inside x (by simp [member])]

theorem reserve_firstFit_aged (h : t.Aged age u) (stack : t.Stacked u) {order : List Nat}
    (inside : ∀ slot ∈ order, slot < u.slotCount) (waiting : u.VacantFree) (n : Nat) :
    ReservedAlike age ((firstFit order).reserve t n) ((firstFit order).reserve u n) := by
  simp only [reserve, FirstFit.reserve, find?_fits_aged h inside]
  cases found : order.find? (FirstFit.fits t n) with
  | none => exact .none
  | some slot =>
    have hslot := inside slot (List.mem_of_find?_eq_some found)
    obtain ⟨e, hfind, -⟩ := FirstFit.fits_iff.1 (List.find?_some found)
    have hsince : (e.since (age slot)).span = e.span := rfl
    simp only [hfind, h.find? hslot hfind, hsince]
    split
    · exact .some h (fun _ => stack) hslot
    · have alike := h.insert stack waiting 0 (.ofSize e.span.start n)
      have hcount := u.slotCount_le_insert 0 (.ofSize e.span.start n)
      rcases hu : u.insert 0 (.ofSize e.span.start n) with ⟨fresh', u'⟩
      rcases ht : t.insert 0 (.ofSize e.span.start n) with ⟨fresh, t'⟩
      rw [ht, hu] at alike
      rw [hu] at hcount
      obtain ⟨same, aged, stack', hfresh⟩ := alike
      cases same
      refine .some (aged.modify (Nat.lt_of_lt_of_le hslot hcount) fun _ _ => rfl)
        (fun _ => stack'.modify slot _ _) ?_
      rw [SlotTable.slotCount_modify]
      exact hfresh

/-- Room is found in the same place, whatever generations the slots have. -/
theorem reserve_aged (h : t.Aged age u) (stack : p.strategy ≠ .slab → t.Stacked u)
    {sizes : List Nat} (account : p.Account u sizes) (n : Nat) :
    ReservedAlike age (p.reserve t n) (p.reserve u n) := by
  cases p with
  | firstFit order =>
    obtain ⟨size, -, account⟩ := account
    exact reserve_firstFit_aged h (stack (by simp [strategy]))
      (fun slot member => SlotTable.exists_find?_iff.1 (account.exists_find? member))
      account.vacant n
  | largestFit free =>
    obtain ⟨size, -, account⟩ := account
    simp only [reserve]
    cases free.take n with
    | none => exact .none
    | some taken =>
      obtain ⟨same, aged, stack', inside⟩ :=
        h.insert (stack (by simp [strategy])) account.vacant 0 taken.1
      simp only [Option.map_some]
      rw [same]
      exact .some aged (fun _ => stack') inside
  | slab pools fallThrough =>
    simp only [reserve]
    cases found : SlotPool.reserve fallThrough n pools with
    | none => exact .none
    | some placed =>
      obtain ⟨e, hfind, -⟩ := SlotPool.Account.reserve account found
      exact .some h (fun other => absurd rfl other) (SlotTable.exists_find?_iff.1 ⟨e, hfind⟩)

theorem release_aged (h : t.Aged age u) (stack : p.strategy ≠ .slab → t.Stacked u)
    (released : p.release t slot e = .ok (t', p')) (a : UInt32) :
    ∃ u', p.release u slot (e.since a) = .ok (u', p') ∧ t'.Aged age u' ∧
      (p'.strategy ≠ .slab → t'.Stacked u') ∧ u'.slotCount = u.slotCount := by
  have hspan : (e.since a).span = e.span := rfl
  have hsegment : (e.since a).segment = e.segment := rfl
  cases p with
  | firstFit order =>
    cases released
    exact ⟨u, rfl, h, stack, rfl⟩
  | largestFit free =>
    simp only [release] at released
    split at released
    · cases released
    · next joined free' hrelease =>
      cases released
      have stack' := stack (by simp [strategy])
      refine ⟨u.retire slot, ?_, h.retire slot, fun _ => stack'.retire slot, rfl⟩
      simp only [release, hspan, hrelease]
  | slab pools fallThrough =>
    simp only [release] at released
    split at released
    · cases released
    · next pools' hrelease =>
      cases released
      refine ⟨u, ?_, h, stack, rfl⟩
      simp only [release, hsegment, hrelease]

theorem reset_aged (h : t.Aged age u) (size : Nat) :
    (p.reset u size).2 = (p.reset t size).2 ∧
      (p.reset t size).1.Aged (SlotTable.laterAges age t u) (p.reset u size).1 ∧
      (p.strategy ≠ .slab → (p.reset t size).1.Stacked (p.reset u size).1) ∧
      u.slotCount ≤ (p.reset u size).1.slotCount := by
  cases p with
  | firstFit order =>
    obtain ⟨same, aged, stack, -⟩ :=
      h.reset.insert h.stacked_reset u.vacantFree_reset 0 (.ofSize 0 size)
    have hcount := u.reset.slotCount_le_insert 0 (.ofSize 0 size)
    rw [SlotTable.slotCount_reset] at hcount
    exact ⟨congrArg (fun slot => firstFit [slot]) same, aged, fun _ => stack, hcount⟩
  | largestFit free =>
    exact ⟨rfl, h.reset, fun _ => h.stacked_reset, Nat.le_of_eq u.slotCount_reset.symm⟩
  | slab pools fallThrough =>
    exact ⟨rfl, h.invalidateAll, fun other => absurd rfl other,
      Nat.le_of_eq u.slotCount_invalidateAll.symm⟩

end Placement

end RegionStore
