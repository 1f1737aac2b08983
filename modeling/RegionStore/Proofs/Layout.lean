import RegionStore.Proofs.Courses

/-!
What a region keeps for good: its strategy, the layout of its pools, and with them how much it can
hold. Only the account of what is free changes, and no more is ever issued than fits.
-/
namespace RegionStore

namespace SlotPool

theorem map_refill_reserve {fallThrough : Bool} {n slot : Nat} {pools pools' : List SlotPool}
    (placed : reserve fallThrough n pools = some (slot, pools')) :
    pools'.map refill = pools.map refill := by
  obtain ⟨lower, p, higher, rest, rfl, -, -, -, rfl⟩ := reserve_cases placed
  rw [List.map_append, List.map_append, List.map_cons, List.map_cons]
  rfl

theorem map_refill_release {segment slot : Nat} {pools pools' : List SlotPool}
    (released : release segment slot pools = some pools') :
    pools'.map refill = pools.map refill := by
  induction pools generalizing pools' with
  | nil => cases released
  | cons p others ih =>
    unfold release at released
    split at released
    · cases released
      rfl
    · obtain ⟨others', hothers, rfl⟩ := Option.map_eq_some_iff.1 released
      rw [List.map_cons, List.map_cons, ih hothers]

@[simp] theorem map_refill_refill (pools : List SlotPool) :
    (pools.map refill).map refill = pools.map refill := by
  rw [List.map_map]
  rfl

theorem flatMap_extents_refill (pools : List SlotPool) :
    (pools.map refill).flatMap (·.extents) = pools.flatMap (·.extents) := by
  rw [List.flatMap_map]
  rfl

theorem flatMap_segments_refill (pools : List SlotPool) :
    (pools.map refill).flatMap (·.segments) = pools.flatMap (·.segments) := by
  rw [List.flatMap_map]
  rfl

/-- Every slot that exists is where the layout has it, and there are no others. -/
theorem Account.map_place {pools : List SlotPool} {t : SlotTable} {sizes : List Nat}
    (h : Account pools t sizes) (slot : Nat) :
    (t.find? slot).map Entry.place = (pools.flatMap (·.extents))[slot]? := by
  cases found : t.find? slot with
  | some e =>
    obtain ⟨p, member, owned⟩ := h.owners slot e found
    have hextent := h.chained.getElem?_extents member owned
    rw [Nat.sub_zero] at hextent
    rw [Option.map_some, hextent, h.place_eq member owned found]
  | none =>
    have beyond : (pools.flatMap (·.extents)).length ≤ slot := by
      by_contra inside
      obtain ⟨p, member, owned⟩ := h.chained.exists_owner (Nat.zero_le slot) (by omega)
      obtain ⟨e, found', -⟩ := h.entries p member slot owned
      rw [found] at found'
      cases found'
    rw [Option.map_none, List.getElem?_eq_none beyond]

/-- Bytes of all slots of a pool. -/
theorem total_extents {p : SlotPool} (positive : 0 < p.slotSize) :
    Span.total (p.extents.map Prod.snd) = p.slotCount * p.slotSize := by
  have each : ∀ places : List (Nat × Span), (∀ place ∈ places, place.2.size = p.slotSize) →
      Span.total (places.map Prod.snd) = places.length * p.slotSize := by
    intro places sizes
    induction places with
    | nil => simp
    | cons place rest ih =>
      have hrest := ih fun other member => sizes other (by simp [member])
      rw [List.map_cons, Span.total_cons, hrest, sizes place (by simp), List.length_cons,
        Nat.succ_mul, Nat.add_comm]
  rw [each, length_extents]
  intro place member
  rw [extents_eq_map] at member
  obtain ⟨i, -, rfl⟩ := List.mem_map.1 member
  exact Span.size_ofSize positive _

theorem foldr_segments (p : SlotPool) (rest : List Nat) :
    (p.segments.map (·.size) ++ rest).foldr (· + ·) 0 =
      p.slotCount * p.slotSize + rest.foldr (· + ·) 0 := by
  rw [segments, List.map_replicate, slotCount, Nat.mul_assoc]
  change (List.replicate p.segmentCount p.segmentSize ++ rest).foldr (· + ·) 0 =
    p.segmentCount * p.segmentSize + _
  induction p.segmentCount with
  | zero => simp
  | succ n ih =>
    rw [List.replicate_succ, List.cons_append, List.foldr_cons, ih, Nat.succ_mul]
    omega

/-- The slots of chained pools take up all of the pools' segments. -/
theorem Chained.total_extents {pools : List SlotPool} {firstSegment firstSlot : Nat}
    (h : Chained firstSegment firstSlot pools) :
    Span.total ((pools.flatMap (·.extents)).map Prod.snd) =
      ((pools.flatMap (·.segments)).map (·.size)).foldr (· + ·) 0 := by
  induction pools generalizing firstSegment firstSlot with
  | nil => rfl
  | cons p rest ih =>
    obtain ⟨-, -, positive, -, hrest⟩ := h
    rw [List.flatMap_cons, List.flatMap_cons, List.map_append, List.map_append, Span.total_append,
      SlotPool.total_extents positive, foldr_segments, ih hrest]

/-- Read in slot order, the entries have the extents of the layout. -/
theorem Account.map_snapshots {pools : List SlotPool} {t : SlotTable} {sizes : List Nat}
    (h : Account pools t sizes) :
    t.snapshots.map (fun s => (s.segment, s.span)) = pools.flatMap (·.extents) := by
  apply List.ext_getElem?
  intro i
  rw [← h.map_place i, SlotTable.find?, List.getElem?_map, SlotTable.snapshots,
    List.getElem?_mapIdx, Option.map_map, Array.getElem?_toList]
  rfl

/-- What is issued is some of what the layout has. -/
theorem Account.issuedBytes_le {pools : List SlotPool} {t : SlotTable} {sizes : List Nat}
    (h : Account pools t sizes) :
    t.issuedBytes ≤ ((pools.flatMap (·.segments)).map (·.size)).foldr (· + ·) 0 := by
  have hspans : t.snapshots.map (·.span) = (pools.flatMap (·.extents)).map Prod.snd := by
    rw [← h.map_snapshots, List.map_map]
    rfl
  rw [← h.chained.total_extents, ← hspans]
  exact Span.total_le_of_sublist (List.filter_sublist.map _)

end SlotPool

namespace Placement

/-- A placement apart from its account of what is free. -/
def outline : Placement → Placement
  | firstFit _ => firstFit []
  | largestFit _ => largestFit .empty
  | slab pools fallThrough => slab (pools.map .refill) fallThrough

variable {p p' : Placement} {t t' : SlotTable} {slot : Nat}

theorem outline_reserve {n : Nat} (placed : p.reserve t n = some (slot, t', p')) :
    p'.outline = p.outline := by
  cases p with
  | firstFit order =>
    obtain ⟨found, -, heq⟩ := Option.map_eq_some_iff.1 placed
    cases heq
    rfl
  | largestFit free =>
    obtain ⟨found, -, heq⟩ := Option.map_eq_some_iff.1 placed
    cases heq
    rfl
  | slab pools fallThrough =>
    obtain ⟨⟨slot', pools'⟩, found, heq⟩ := Option.map_eq_some_iff.1 placed
    cases heq
    rw [outline, outline, SlotPool.map_refill_reserve found]

theorem outline_release {e : Entry} (released : p.release t slot e = .ok (t', p')) :
    p'.outline = p.outline := by
  cases p with
  | firstFit order =>
    cases released
    rfl
  | largestFit free =>
    unfold release at released
    dsimp only at released
    split at released
    · cases released
    · cases released
      rfl
  | slab pools fallThrough =>
    unfold release at released
    dsimp only at released
    split at released
    · cases released
    · next pools' found =>
      cases released
      rw [outline, outline, SlotPool.map_refill_release found]

theorem outline_reset (p : Placement) (t : SlotTable) (size : Nat) :
    (p.reset t size).2.outline = p.outline := by
  cases p with
  | firstFit order => rfl
  | largestFit free => rfl
  | slab pools fallThrough =>
    change slab ((pools.map SlotPool.refill).map SlotPool.refill) fallThrough = _
    rw [SlotPool.map_refill_refill]
    rfl

/-- Whatever an operation comes to, it concerns the account of what is free only. -/
theorem Course.outline {size : Nat} (course : Course size t p t' p') : p'.outline = p.outline := by
  induction course with
  | done => rfl
  | renew _ _ ih => exact ih
  | release _ released _ ih => exact ih.trans (outline_release released)
  | issue room _ => exact outline_reserve room
  | @reset t p => exact outline_reset p t size

/-- Pools that are laid out alike differ in their queues only. -/
theorem eq_slab_of_outline {pools : List SlotPool} {fallThrough : Bool}
    (same : p.outline = (slab pools fallThrough).outline) :
    ∃ pools', p = slab pools' fallThrough ∧
      pools'.map SlotPool.refill = pools.map SlotPool.refill := by
  cases p with
  | firstFit order => cases same
  | largestFit free => cases same
  | slab pools' fallThrough' =>
    injection same with hpools hfall
    exact ⟨pools', by rw [hfall], hpools⟩

end Placement

namespace Region

/-! ### No operation changes the layout -/

/-- What a region is laid out as, whatever has become free in it. -/
def outline (r : Region) : Placement := r.placement.outline

variable {r : Region}

theorem outline_step (now : Int) (op : Op) : (r.step now op).outline = r.outline :=
  (course_step now op).outline

theorem outline_run (ops : List (Int × Op)) : (r.run ops).outline = r.outline := by
  induction ops generalizing r with
  | nil => rfl
  | cons head rest ih => exact ih.trans (outline_step head.1 head.2)

/-! ### What follows from the layout -/

theorem capacity_congr {r' : Region} (sizes : r'.sizes = r.sizes) : r'.capacity = r.capacity := by
  rw [capacity_eq_foldr, capacity_eq_foldr, sizes]

/-- The largest request that could be met is settled by the layout. -/
theorem maxRequest_eq_outline (r : Region) : r.maxRequest =
    match r.outline with
    | .firstFit _ => r.capacity
    | .largestFit _ => r.capacity
    | .slab pools _ => (pools.getLast?.map (·.slotSize)).getD 0 := by
  unfold maxRequest outline
  cases r.placement with
  | firstFit order => rfl
  | largestFit free => rfl
  | slab pools fallThrough =>
    simp only [Placement.outline, List.getLast?_map, Option.map_map]
    rfl

theorem maxRequest_congr {r' : Region} (outline : r'.outline = r.outline)
    (sizes : r'.sizes = r.sizes) : r'.maxRequest = r.maxRequest := by
  rw [maxRequest_eq_outline, maxRequest_eq_outline, outline, capacity_congr sizes]

/-- The segments of a region are those that its pools are laid out in. -/
def Laid (r : Region) : Prop := ∀ pools fallThrough, r.placement = .slab pools fallThrough →
  r.sizes = (pools.flatMap (·.segments)).map (·.size)

theorem New.laid (h : New r) : r.Laid := by
  intro pools fallThrough hplacement
  cases h with
  | firstFit made =>
    have := (sound_firstFit made).2.1
    rw [hplacement] at this
    cases this
  | largestFit made =>
    have := (sound_largestFit made).2.1
    rw [hplacement] at this
    cases this
  | slab made =>
    unfold Region.slab at made
    split at made
    · cases made
    · cases made
      cases hplacement
      rfl

theorem Laid.congr {r' : Region} (h : r.Laid) (outline : r'.outline = r.outline)
    (sizes : r'.sizes = r.sizes) : r'.Laid := by
  intro pools fallThrough hplacement
  rw [Region.outline, hplacement] at outline
  obtain ⟨pools', hplacement', hpools⟩ := Placement.eq_slab_of_outline outline.symm
  rw [sizes, h pools' fallThrough hplacement', ← SlotPool.flatMap_segments_refill pools', hpools,
    SlotPool.flatMap_segments_refill]

/-- No more is issued than the region can hold. -/
theorem Sound.issuedBytes_le (h : r.Sound) (laid : r.Laid) :
    r.table.issuedBytes ≤ r.capacity := by
  have haccount := h.account
  rw [capacity_eq_foldr]
  cases hplacement : r.placement with
  | firstFit order =>
    rw [hplacement] at haccount
    obtain ⟨size, hsizes, account⟩ := haccount
    rw [hsizes]
    exact account.issuedBytes_le
  | largestFit free =>
    rw [hplacement] at haccount
    obtain ⟨size, hsizes, account⟩ := haccount
    rw [hsizes, ← account.bytes]
    exact Nat.le_add_left _ _
  | slab pools fallThrough =>
    rw [hplacement] at haccount
    rw [laid pools fallThrough hplacement]
    exact SlotPool.Account.issuedBytes_le haccount

/-- As long as the capacity is a 64-bit word, so is the byte count, and it is exact. -/
theorem Sound.used_eq (h : r.Sound) (laid : r.Laid) (word : r.capacity < UInt64.size) :
    r.used = r.table.issuedBytes := by
  have hle := h.issuedBytes_le laid
  rw [Region.used, h.used, UInt64.toNat_ofNat']
  exact Nat.mod_eq_of_lt (by simp only [UInt64.size] at word; omega)

end Region

end RegionStore
