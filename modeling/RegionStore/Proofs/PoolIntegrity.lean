import RegionStore.Proofs.Layout

/-!
Regions of slot pools. After any history every slot is where it was made, and is either live or
waits in the queue of its own pool, once. Bytes are counted by the slot.
-/
namespace RegionStore

/-- The slots of what is live, in order. -/
theorem SlotTable.live_slots (t : SlotTable) : t.live.map (·.handle.slot) =
    (List.range t.slotCount).filter fun slot => (t.issued? slot).isSome := by
  rw [live_eq_filterMap t (Nat.le_refl _), List.map_filterMap, ← List.filterMap_eq_filter]
  congr 1
  funext slot
  cases h : t.issued? slot <;> simp [h, Option.guard, Entry.snapshot]

theorem Span.total_map_eq_foldr {live : List Snapshot} {f : Snapshot → Nat}
    (each : ∀ s ∈ live, s.span.size = f s) :
    total (live.map (·.span)) = live.foldr (fun s total => f s + total) 0 := by
  induction live with
  | nil => rfl
  | cons s rest ih =>
    have hrest := ih fun other member => each other (by simp [member])
    rw [List.map_cons, total_cons, List.foldr_cons, hrest, each s (by simp)]

theorem Span.total_le_length_mul {spans : List Span} {most : Nat}
    (small : ∀ s ∈ spans, s.size ≤ most) : total spans ≤ spans.length * most := by
  induction spans with
  | nil => exact Nat.zero_le _
  | cons s rest ih =>
    have hrest := ih fun other member => small other (by simp [member])
    have hfirst := small s (by simp)
    rw [total_cons, List.length_cons, Nat.succ_mul]
    omega

namespace SlotPool

/-- Slot size of the pool that a segment belongs to. -/
def sizeAt (pools : List SlotPool) (segment : Nat) : Nat :=
  ((pools.find? (·.ownsSegment segment)).map (·.slotSize)).getD 0

theorem Chained.find?_ownsSegment {pools : List SlotPool} {firstSegment firstSlot : Nat}
    (h : Chained firstSegment firstSlot pools) {p : SlotPool} (member : p ∈ pools) {segment : Nat}
    (owned : p.ownsSegment segment = true) : pools.find? (·.ownsSegment segment) = some p := by
  obtain ⟨lower, higher, rfl⟩ := List.append_of_mem member
  refine List.find?_eq_some_iff_append.2 ⟨owned, lower, higher, rfl, fun q hq => ?_⟩
  rw [h.foreign hq owned, Bool.not_false]

theorem map_refill_make {size count : Nat} {slotSizes : List Nat} {pools : List SlotPool}
    (made : make size slotSizes count = .ok pools) : pools.map refill = pools := by
  obtain ⟨-, fresh⟩ := chained_make made
  have each : ∀ p ∈ pools, p.refill = id p := fun p hp => by rw [refill, ← (fresh p hp).1, id]
  rw [List.map_congr_left each, List.map_id]

namespace Account

variable {pools : List SlotPool} {p : SlotPool} {t : SlotTable} {sizes : List Nat}

/-- What is issued at a slot of a pool fills a slot of that pool. -/
theorem issued_of_mem (h : Account pools t sizes) (member : p ∈ pools) {slot : Nat} {e : Entry}
    (owned : slot ∈ p.slots) (issued : t.issued? slot = some e) :
    pools.find? (·.ownsSegment e.segment) = some p ∧ e.span.size = p.slotSize := by
  obtain ⟨hsegment, -, -, hsize⟩ :=
    h.inside member owned (SlotTable.issued?_eq_some_iff.1 issued).1
  exact ⟨h.chained.find?_ownsSegment member hsegment, hsize⟩

/-- Each slot of a pool waits in its queue or is issued. -/
theorem free_add_issued (h : Account pools t sizes) (member : p ∈ pools) :
    p.freeCount + ((t.live.map (·.handle.slot)).filter (· ∈ p.slots)).length = p.slotCount := by
  have hslots : p.slots.Nodup := List.nodup_range'
  have hfree : p.free.toList.Perm (p.slots.filter fun slot => !(t.issued? slot).isSome) := by
    refine (List.perm_ext_iff_of_nodup (h.distinct p member) (hslots.filter _)).2 fun slot => ?_
    rw [h.queued p member, List.mem_filter, Bool.not_eq_true', Option.isSome_eq_false_iff,
      Option.isNone_iff_eq_none]
  have hissued : ((t.live.map (·.handle.slot)).filter (· ∈ p.slots)).Perm
      (p.slots.filter fun slot => (t.issued? slot).isSome) := by
    rw [t.live_slots]
    refine (List.perm_ext_iff_of_nodup ((List.nodup_range.filter _).filter _)
      (hslots.filter _)).2 fun slot => ?_
    simp only [List.mem_filter, List.mem_range, decide_eq_true_eq, Option.isSome_iff_exists]
    constructor
    · rintro ⟨⟨-, issued⟩, owned⟩
      exact ⟨owned, issued⟩
    · rintro ⟨owned, e, issued⟩
      exact ⟨⟨SlotTable.lt_slotCount_of_issued? issued, e, issued⟩, owned⟩
  have hall := List.length_eq_length_filter_add (l := p.slots) fun slot => (t.issued? slot).isSome
  rw [← hissued.length_eq, ← hfree.length_eq, Queue.length_toList, slots,
    List.length_range'] at hall
  rw [freeCount, hall, slots]
  omega

/-- Slots are no larger than segments, so so many slots hold so many bytes at most. -/
theorem segments_le (h : Account pools t sizes)
    (small : ∀ p ∈ pools, p.segmentSize ≤ Segment.maxSize) :
    ((pools.flatMap (·.segments)).map (·.size)).foldr (· + ·) 0 ≤
      t.slotCount * Segment.maxSize := by
  have hlength : (pools.flatMap (·.extents)).length ≤ t.slotCount := by
    by_contra more
    have hplace := h.map_place t.slotCount
    rw [SlotTable.find?_eq_none_iff.2 (Nat.le_refl _),
      List.getElem?_eq_getElem (by omega)] at hplace
    cases hplace
  have hsizes : ∀ s ∈ (pools.flatMap (·.extents)).map Prod.snd, s.size ≤ Segment.maxSize := by
    intro s hs
    obtain ⟨place, hplace, rfl⟩ := List.mem_map.1 hs
    obtain ⟨p, member, hplace⟩ := List.mem_flatMap.1 hplace
    rw [extents_eq_map] at hplace
    obtain ⟨i, -, rfl⟩ := List.mem_map.1 hplace
    obtain ⟨-, -, positive, room⟩ := h.chained.mem member
    have hsegment : p.slotSize ≤ p.segmentSize := Nat.le_mul_of_pos_left _ room
    have := small p member
    rw [home, slotSpan, Span.size_ofSize positive]
    omega
  have htotal := Span.total_le_length_mul hsizes
  rw [h.chained.total_extents, List.length_map] at htotal
  exact Nat.le_trans htotal (Nat.mul_le_mul_right _ hlength)

end Account

end SlotPool

namespace Region

/-- What is live in slots of a pool. -/
def liveIn (r : Region) (p : SlotPool) : List Snapshot :=
  r.live.filter fun s => s.handle.slot ∈ p.slots

/-- A region of pools in good order, compared with what it was when it was made. -/
structure Pooled (made : Region) (pools : List SlotPool) (r : Region) : Prop where
  places : ∀ slot, (r.table.find? slot).map Entry.place =
    (made.table.find? slot).map Entry.place
  distinct : ∀ p ∈ pools, p.free.toList.Nodup
  queued : ∀ p ∈ pools, ∀ slot, slot ∈ p.free.toList ↔
    slot ∈ p.slots ∧ ∃ e, r.table.find? slot = some e ∧ e.free = true
  counts : ∀ p ∈ pools, p.freeCount + (r.liveIn p).length = p.slotCount
  leases : ∀ s ∈ r.live, ∃ p ∈ pools, pools.find? (·.ownsSegment s.segment) = some p ∧
    s ∈ r.liveIn p ∧ 1 ≤ s.lease.len ∧ s.lease.len ≤ p.slotSize
  used : r.used = r.live.foldr (fun s total => SlotPool.sizeAt pools s.segment + total) 0
  within : r.used ≤ r.capacity

variable {r₀ r : Region} {pools pools₀ : List SlotPool} {fallThrough : Bool}

theorem slab_eq_ok {id size count : Nat} {slotSizes : List Nat}
    (made : Region.slab id size slotSizes count fallThrough = .ok r) :
    ∃ pools, SlotPool.make size slotSizes count = .ok pools ∧
      r.placement = .slab pools fallThrough := by
  unfold Region.slab at made
  split at made
  · cases made
  · next pools hpools =>
    cases made
    exact ⟨pools, hpools, rfl⟩

/-- What is live fills a slot of the pool that its segment belongs to. -/
theorem Sound.exists_pool (h : r.Sound) (account : SlotPool.Account pools r.table r.sizes)
    {s : Snapshot} (member : s ∈ r.live) :
    ∃ p ∈ pools, s ∈ r.liveIn p ∧ pools.find? (·.ownsSegment s.segment) = some p ∧
      s.span.size = p.slotSize ∧ 1 ≤ s.lease.len ∧ s.lease.len ≤ p.slotSize := by
  obtain ⟨slot, e, issued, rfl⟩ := SlotTable.mem_live_iff.1 member
  obtain ⟨p, hp, owned⟩ := account.owners slot e (SlotTable.issued?_eq_some_iff.1 issued).1
  obtain ⟨hfind, hsize⟩ := account.issued_of_mem hp owned issued
  have hlease := h.leases slot e issued
  rw [hsize] at hlease
  exact ⟨p, hp, List.mem_filter.2 ⟨member, decide_eq_true owned⟩, hfind, hsize, hlease⟩

theorem Sound.pooled (h : r.Sound) (account : SlotPool.Account pools r.table r.sizes)
    (account₀ : SlotPool.Account pools₀ r₀.table r₀.sizes)
    (layout : pools.map SlotPool.refill = pools₀.map SlotPool.refill)
    (counted : r.used = r.table.issuedBytes) (within : r.used ≤ r.capacity) :
    Pooled r₀ pools r := by
  refine ⟨fun slot => ?_, account.distinct, fun p hp slot => ?_, fun p hp => ?_,
    fun s hs => ?_, ?_, within⟩
  · rw [account.map_place, account₀.map_place, ← SlotPool.flatMap_extents_refill pools, layout,
      SlotPool.flatMap_extents_refill]
  · rw [account.queued p hp, SlotTable.issued?_eq_none_iff]
    refine and_congr_right fun owned => ?_
    obtain ⟨e, found, -⟩ := account.entries p hp slot owned
    simp only [found, Option.some.injEq, forall_eq', exists_eq_left']
  · have hcount := account.free_add_issued hp
    rw [List.filter_map, List.length_map] at hcount
    exact hcount
  · obtain ⟨p, member, here, hfind, -, hlease⟩ := h.exists_pool account hs
    exact ⟨p, member, hfind, here, hlease⟩
  · rw [counted]
    refine Span.total_map_eq_foldr fun s hs => ?_
    obtain ⟨p, -, -, hfind, hsize, -⟩ := h.exists_pool account hs
    rw [hsize, SlotPool.sizeAt, hfind]
    rfl

theorem capacity_le_slots (account : SlotPool.Account pools r.table r.sizes) (laid : r.Laid)
    (placement : r.placement = .slab pools fallThrough)
    (small : ∀ p ∈ pools, p.segmentSize ≤ Segment.maxSize) :
    r.capacity ≤ r.table.slotCount * Segment.maxSize := by
  have hle := account.segments_le small
  rwa [← laid pools fallThrough placement, ← capacity_eq_foldr] at hle

/-- As many slots as 32 bits can number hold fewer bytes than 64 bits can count. -/
theorem capacity_lt_of_few (account : SlotPool.Account pools r.table r.sizes) (laid : r.Laid)
    (placement : r.placement = .slab pools fallThrough)
    (small : ∀ p ∈ pools, p.segmentSize ≤ Segment.maxSize)
    (few : r.table.slotCount < UInt32.size) : r.capacity < UInt64.size := by
  have hle := capacity_le_slots account laid placement small
  have hslots := Nat.mul_le_mul_right Segment.maxSize (Nat.le_of_lt few)
  simp only [Segment.maxSize, UInt32.size, UInt64.size] at *
  omega

/-- After any run of a region of slot pools, each pool is as it was made but for its queue, which
holds the pool's free slots, each of them once. What is live lies in a slot of its pool, and the
byte count is the sum of the sizes of those slots. -/
theorem pools_intact {id size count : Nat} {slotSizes : List Nat}
    (made : Region.slab id size slotSizes count fallThrough = .ok r)
    (few : r.table.slotCount < UInt32.size) (ops : List (Int × Op)) :
    ∃ pools, (r.run ops).placement = .slab pools fallThrough ∧
      r.placement = .slab (pools.map .refill) fallThrough ∧ Pooled r pools (r.run ops) := by
  obtain ⟨sound, -⟩ := sound_slab made
  obtain ⟨pools₀, hpools, placement₀⟩ := slab_eq_ok made
  have laid := (New.slab made).laid
  have account₀ := sound.account
  rw [placement₀] at account₀
  have hcapacity := capacity_lt_of_few account₀ laid placement₀
    (fun p hp => ((SlotPool.chained_make hpools).2 p hp).2.2) few
  have keeps := sound.run ops
  have houtline := outline_run (r := r) ops
  have hlaid := laid.congr houtline keeps.sizes
  have hused := keeps.sound.used_eq hlaid (by rwa [capacity_congr keeps.sizes])
  have hwithin := keeps.sound.issuedBytes_le hlaid
  rw [Region.outline, Region.outline, placement₀] at houtline
  obtain ⟨pools, placement, layout⟩ := Placement.eq_slab_of_outline houtline
  have account := keeps.sound.account
  rw [placement] at account
  refine ⟨pools, placement, ?_,
    keeps.sound.pooled account account₀ layout hused (by omega)⟩
  rw [layout, SlotPool.map_refill_make hpools, placement₀]

/-- Two pools: the third payload falls through to the larger slots, and the first one is released
twice, which queues its slot once. -/
theorem pools_intact_fallen : ∃ r ops pools, Region.slab 0 8 [2, 4] 1 true = .ok r ∧
    r.table.slotCount < UInt32.size ∧ Pooled r pools (r.run ops) ∧
    pools.map (·.free.toList) = [[0], []] ∧ (r.run ops).used = 6 := by
  let ops : List (Int × Op) := [(0, .submit ⟨.payload [1], .never, 0⟩),
    (1, .submit ⟨.reserved 2, .never, 0⟩), (2, .submit ⟨.payload [3, 4], .never, 0⟩),
    (3, .release ⟨0, 0, 0⟩), (4, .release ⟨0, 0, 0⟩), (5, .release ⟨0, 1, 7⟩)]
  obtain ⟨pools, placement, -, pooled⟩ :=
    pools_intact (rfl : Region.slab 0 8 [2, 4] 1 true = .ok _) (by decide) ops
  refine ⟨_, ops, pools, rfl, by decide, pooled, ?_, by decide⟩
  cases placement
  rfl

end Region

end RegionStore
