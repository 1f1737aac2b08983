import Mathlib.Algebra.GroupWithZero.Nat
import RegionStore.Proofs.Regular

/-!
How slot pools lie in a region. Pools come one after another, the smallest slots first; so do the
segments of a pool, and in a segment its slots.
-/
namespace RegionStore

namespace SlotPool

variable {pools : List SlotPool} {p : SlotPool} {t : SlotTable} {sizes : List Nat}
  {firstSegment firstSlot segment : Nat}

/-- Numbers of the segments of a pool. -/
def segmentNumbers (p : SlotPool) : List Nat := List.range' p.firstSegment p.segmentCount

theorem mem_segmentNumbers : segment ∈ p.segmentNumbers ↔ p.ownsSegment segment = true := by
  rw [segmentNumbers, List.mem_range'_1, ownsSegment_iff]

theorem tiles_slotSpan (positive : 0 < p.slotSize) (n : Nat) :
    Span.Tiles 0 ((List.range n).map p.slotSpan) (n * p.slotSize) := by
  induction n with
  | zero => exact (Nat.zero_mul _).symm
  | succ n ih =>
    rw [List.range_succ, List.map_append, Nat.succ_mul]
    refine Span.tiles_append.2 ⟨n * p.slotSize, ih, rfl, ?_, ?_⟩
    · dsimp only [slotSpan, Span.ofSize]
      omega
    · change n * p.slotSize + p.slotSize - 1 + 1 = _
      omega

/-- A pool has the same slots in each of its segments, and none in others. -/
theorem ranges_extents (p : SlotPool) (segment : Nat) :
    (p.extents.filter (·.1 = segment)).map Prod.snd =
      if p.ownsSegment segment then (List.range p.slotsPerSegment).map p.slotSpan else [] := by
  have some_segments : ∀ count, (((List.range count).flatMap fun i =>
      (List.range p.slotsPerSegment).map fun position =>
        (p.firstSegment + i, p.slotSpan position)).filter (·.1 = segment)).map Prod.snd =
      if p.firstSegment ≤ segment ∧ segment < p.firstSegment + count then
        (List.range p.slotsPerSegment).map p.slotSpan else [] := by
    intro count
    induction count with
    | zero => rw [if_neg (by omega)]; rfl
    | succ count ih =>
      have hnew : ∀ place ∈ (List.range p.slotsPerSegment).map fun position =>
          (p.firstSegment + count, p.slotSpan position), place.1 = p.firstSegment + count := by
        simp
      rw [List.range_succ, List.flatMap_append, List.filter_append, List.map_append, ih,
        List.flatMap_singleton]
      by_cases here : p.firstSegment + count = segment
      · rw [if_neg (by omega), if_pos (by omega), List.nil_append, List.filter_eq_self.2
          fun place member => decide_eq_true ((hnew place member).trans here), List.map_map]
        rfl
      · rw [List.filter_eq_nil_iff.2 fun place member same =>
          here ((hnew place member).symm.trans (of_decide_eq_true same)), List.map_nil,
          List.append_nil]
        exact if_congr (by omega) rfl rfl
  rw [extents, some_segments]
  exact if_congr ownsSegment_iff.symm rfl rfl

/-- The slots in a segment are those that its pool has there. -/
theorem Chained.ranges_extents (h : Chained firstSegment firstSlot pools) (member : p ∈ pools)
    (owned : p.ownsSegment segment = true) :
    ((pools.flatMap (·.extents)).filter (·.1 = segment)).map Prod.snd =
      (List.range p.slotsPerSegment).map p.slotSpan := by
  induction pools generalizing firstSegment firstSlot with
  | nil => cases member
  | cons head rest ih =>
    obtain ⟨hsegment, -, -, -, hrest⟩ := h
    rw [List.flatMap_cons, List.filter_append, List.map_append, SlotPool.ranges_extents]
    rcases List.mem_cons.1 member with rfl | member
    · have others : ((rest.flatMap (·.extents)).filter (·.1 = segment)).map Prod.snd = [] := by
        rw [List.filter_flatMap, List.map_flatMap]
        refine List.flatMap_eq_nil_iff.2 fun q hq => ?_
        have := (hrest.mem hq).1
        rw [ownsSegment_iff] at owned
        rw [SlotPool.ranges_extents, if_neg]
        rw [ownsSegment_iff]
        omega
      rw [if_pos owned, others, List.append_nil]
    · have := (hrest.mem member).1
      have elsewhere := ownsSegment_iff.1 owned
      rw [if_neg (by rw [ownsSegment_iff]; omega), List.nil_append]
      exact ih hrest member

theorem Chained.flatMap_slots (h : Chained firstSegment firstSlot pools) :
    pools.flatMap (·.slots) = List.range' firstSlot (pools.map (·.slotCount)).sum := by
  induction pools generalizing firstSegment firstSlot with
  | nil => rfl
  | cons p rest ih =>
    obtain ⟨-, hslot, -, -, hrest⟩ := h
    rw [List.flatMap_cons, ih hrest, slots, hslot, List.range'_append_1]
    rfl

theorem Chained.flatMap_segmentNumbers (h : Chained firstSegment firstSlot pools) :
    pools.flatMap (·.segmentNumbers) =
      List.range' firstSegment (pools.map (·.segmentCount)).sum := by
  induction pools generalizing firstSegment firstSlot with
  | nil => rfl
  | cons p rest ih =>
    obtain ⟨hsegment, -, -, -, hrest⟩ := h
    rw [List.flatMap_cons, ih hrest, segmentNumbers, hsegment, List.range'_append_1]
    rfl

theorem foldr_flatMap_segments (pools : List SlotPool) :
    ((pools.flatMap (·.segments)).map (·.size)).foldr (· + ·) 0 =
      (pools.map fun p => p.slotCount * p.slotSize).sum := by
  induction pools with
  | nil => rfl
  | cons p rest ih =>
    rw [List.flatMap_cons, List.map_append, foldr_segments, ih]
    rfl

theorem Account.slotCount_eq (h : Account pools t sizes) :
    t.slotCount = (pools.map (·.slotCount)).sum := by
  have hlength := congrArg List.length h.map_snapshots
  rw [List.length_map, SlotTable.snapshots, List.length_mapIdx, Array.length_toList,
    List.length_flatMap] at hlength
  simp only [length_extents] at hlength
  exact hlength

end SlotPool

namespace Region

/-- Ranges of the slots that lie in a segment, in slot order. -/
def rangesIn (r : Region) (segment : Nat) : List Span :=
  (r.table.snapshots.filter (·.segment = segment)).map (·.span)

/-- The slot sizes have a pool each, in ascending order, over `count` segments of at most `share`
bytes. In every segment the slots tile all of its bytes. Slots and segments are numbered through from
pool to pool. -/
structure LaidOut (slotSizes : List Nat) (count share : Nat) (pools : List SlotPool) (r : Region) :
    Prop where
  ascending : (pools.map (·.slotSize)).Pairwise (· < ·)
  sizes : ∀ n, n ∈ pools.map (·.slotSize) ↔ n ∈ slotSizes
  counts : ∀ p ∈ pools, p.segmentCount = count ∧ p.slotCount = count * (share / p.slotSize) ∧
    count ≤ p.slotCount
  homes : ∀ p ∈ pools, ∀ slot ∈ p.slots, ∃ e, r.table.find? slot = some e ∧
    e.segment ∈ p.segmentNumbers ∧ e.span.size = p.slotSize
  tiled : ∀ p ∈ pools, ∀ segment ∈ p.segmentNumbers, ∃ s, r.segments[segment]? = some s ∧
    s.size = share / p.slotSize * p.slotSize ∧
    (r.rangesIn segment).length = share / p.slotSize ∧
    Span.Tiles 0 (r.rangesIn segment) s.size
  slots : pools.flatMap (·.slots) = List.range r.table.slotCount
  segments : pools.flatMap (·.segmentNumbers) = List.range r.segments.size
  capacity : r.capacity = (pools.map fun p => p.slotCount * p.slotSize).sum

variable {r : Region} {pools : List SlotPool} {fallThrough : Bool} {size count : Nat}
  {slotSizes : List Nat}

theorem rangesIn_eq {sizes : List Nat} (account : SlotPool.Account pools r.table sizes)
    (segment : Nat) : r.rangesIn segment =
      ((pools.flatMap (·.extents)).filter (·.1 = segment)).map Prod.snd := by
  rw [← account.map_snapshots, List.filter_map, List.map_map]
  rfl

theorem laidOut_of_make (hmake : SlotPool.make size slotSizes count = .ok pools)
    (account : SlotPool.Account pools r.table r.sizes)
    (laid : r.sizes = (pools.flatMap (·.segments)).map (·.size)) :
    LaidOut slotSizes count (SlotPool.share size slotSizes count) pools r := by
  obtain ⟨hsizes, hpools⟩ := SlotPool.layOut_pools (SlotPool.make_eq_ok_iff.1 hmake).2
  have chained := account.chained
  refine ⟨?_, fun n => ?_, fun p hp => ?_, fun p hp slot owned => ?_, fun p hp segment owned => ?_,
    ?_, ?_, ?_⟩
  · rw [hsizes]
    exact SlotPool.pairwise_ascending slotSizes
  · rw [hsizes, SlotPool.mem_ascending]
  · obtain ⟨hcount, hslots, -, room, -⟩ := hpools p hp
    rw [SlotPool.slotCount, hcount, ← hslots]
    exact ⟨rfl, rfl, Nat.le_mul_of_pos_right count room⟩
  · obtain ⟨e, found, -⟩ := account.entries p hp slot owned
    obtain ⟨hsegment, -, -, hsize⟩ := account.inside hp owned found
    exact ⟨e, found, SlotPool.mem_segmentNumbers.2 hsegment, hsize⟩
  · rw [SlotPool.mem_segmentNumbers] at owned
    obtain ⟨-, -, positive, -⟩ := chained.mem hp
    obtain ⟨s, found, hsize⟩ : ∃ s, r.segments[segment]? = some s ∧ s.size = p.segmentSize := by
      have := account.sizes p hp segment owned
      rwa [sizes, List.getElem?_map, Option.map_eq_some_iff, Array.getElem?_toList] at this
    have hslots := (hpools p hp).2.1
    rw [SlotPool.segmentSize, hslots] at hsize
    rw [rangesIn_eq account, chained.ranges_extents hp owned, hslots]
    refine ⟨s, found, hsize, by simp, ?_⟩
    rw [hsize]
    exact SlotPool.tiles_slotSpan positive _
  · rw [chained.flatMap_slots, account.slotCount_eq, List.range_eq_range']
  · have hlength := congrArg List.length laid
    rw [sizes, List.length_map, List.length_map, Array.length_toList, List.length_flatMap] at hlength
    rw [chained.flatMap_segmentNumbers, hlength, List.range_eq_range']
    simp [SlotPool.segments]
  · rw [capacity_eq_foldr, laid, SlotPool.foldr_flatMap_segments]

/-- A region of slot pools is refused for want of a size or a segment, or if some slot does not fit in
a segment or some segment is too long for its offsets. Otherwise its pools are laid out, and take up
no more bytes than they were given. -/
theorem slab_layout (id size : Nat) (slotSizes : List Nat) (count : Nat) (fallThrough : Bool) :
    (SlotPool.Unfit size slotSizes count ∧
      ∃ text, Region.slab id size slotSizes count fallThrough = .error (.invalidConfig text)) ∨
    (¬ SlotPool.Unfit size slotSizes count ∧
      ∃ r pools, Region.slab id size slotSizes count fallThrough = .ok r ∧
        r.placement = .slab pools fallThrough ∧
        LaidOut slotSizes count (SlotPool.share size slotSizes count) pools r ∧
        r.capacity ≤ size) := by
  cases hmake : SlotPool.make size slotSizes count with
  | error refusal =>
    obtain ⟨text, rfl⟩ := SlotPool.invalidConfig_of_make hmake
    refine Or.inl ⟨?_, text, by rw [Region.slab, hmake]⟩
    by_contra fit
    obtain ⟨pools, made⟩ := SlotPool.exists_make_iff.2 fit
    rw [hmake] at made
    cases made
  | ok pools =>
    obtain ⟨r, made⟩ : ∃ r, Region.slab id size slotSizes count fallThrough = .ok r :=
      ⟨_, by rw [Region.slab, hmake]⟩
    obtain ⟨pools', hmake', placement⟩ := slab_eq_ok made
    cases hmake.symm.trans hmake'
    have account := (sound_slab made).1.slab_account placement
    have laid := (New.slab made).laid pools fallThrough placement
    refine Or.inr ⟨SlotPool.exists_make_iff.1 ⟨pools, hmake⟩, r, pools, made, placement,
      laidOut_of_make hmake account laid, ?_⟩
    rw [capacity_eq_foldr, laid]
    exact SlotPool.bytes_make hmake

/-- A thousand bytes for each of three pools, and half of them for each segment. -/
example : (SlotPool.make 3000 [256, 64, 128] 2).toOption.map
    (·.map fun p => (p.slotSize, p.slotCount, p.segmentSize)) =
      some [(64, 14, 448), (128, 6, 384), (256, 2, 256)] := by
  decide

end Region

end RegionStore
