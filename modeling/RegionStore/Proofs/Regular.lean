import RegionStore.Proofs.Leases
import RegionStore.Proofs.PoolIntegrity
import RegionStore.Store.Build

/-!
Regions in good order. Regions that settings lay out are, alike in what they can meet, and every
operation keeps them so: they stay sound, count their bytes exactly and hold expiries in normal
form.
-/
namespace RegionStore

namespace SlotPool

/-- Segments that are cut into slots leave no more bytes than there were for them. -/
theorem bytes_layOut {count budget firstSegment firstSlot : Nat} {slotSizes : List Nat}
    {pools : List SlotPool}
    (made : layOut count budget firstSegment firstSlot slotSizes = .ok pools) :
    ((pools.flatMap (·.segments)).map (·.size)).foldr (· + ·) 0 ≤
      slotSizes.length * (count * budget) := by
  induction slotSizes generalizing firstSegment firstSlot pools with
  | nil =>
    cases made
    exact Nat.zero_le _
  | cons n larger ih =>
    obtain ⟨-, -, others, hothers, rfl⟩ := layOut_cons_eq_ok_iff.1 made
    have hrest := ih hothers
    have hpool : count * (budget / n) * n ≤ count * budget := by
      rw [Nat.mul_assoc]
      exact Nat.mul_le_mul_left _ (Nat.div_mul_le_self _ _)
    rw [List.flatMap_cons, List.map_append, foldr_segments, List.length_cons, Nat.succ_mul]
    change count * (budget / n) * n + _ ≤ _
    omega

theorem bytes_make {size count : Nat} {slotSizes : List Nat} {pools : List SlotPool}
    (made : make size slotSizes count = .ok pools) :
    ((pools.flatMap (·.segments)).map (·.size)).foldr (· + ·) 0 ≤ size := by
  have hbytes := bytes_layOut (make_eq_ok_iff.1 made).2
  rw [length_ascending] at hbytes
  have hshare : count * share size slotSizes count ≤ size / slotSizes.dedup.length :=
    Nat.mul_div_le _ _
  exact Nat.le_trans hbytes
    (Nat.le_trans (Nat.mul_le_mul_left _ hshare) (Nat.mul_div_le _ _))

end SlotPool

namespace Region

variable {r : Region} {most : Nat}

/-- A region in good order that can meet requests of so many bytes at most. -/
structure Regular (most : Nat) (r : Region) : Prop where
  sound : r.Sound
  maxRequest : r.maxRequest = most
  laid : r.Laid
  word : r.capacity < UInt64.size
  normal : r.Normal

theorem Regular.step (h : r.Regular most) (now : Int) (op : Op) : (r.step now op).Regular most := by
  have keeps := (h.sound.turn now op).keeps
  have houtline := outline_step (r := r) now op
  refine ⟨keeps.sound, ?_, h.laid.congr houtline keeps.sizes, ?_,
    h.sound.normal_step h.normal now op⟩
  · rw [maxRequest_congr houtline keeps.sizes, h.maxRequest]
  · rw [capacity_congr keeps.sizes]
    exact h.word

theorem Regular.run (h : r.Regular most) (ops : List (Int × Op)) : (r.run ops).Regular most := by
  induction ops generalizing r with
  | nil => exact h
  | cons head rest ih => exact ih (h.step head.1 head.2)

theorem Regular.used_eq (h : r.Regular most) : r.used = r.table.issuedBytes :=
  h.sound.used_eq h.laid h.word

/-- A new region is in good order, if it is small enough. -/
theorem New.regular (h : New r) (word : r.capacity < UInt64.size) : r.Regular r.maxRequest :=
  ⟨h.sound, rfl, h.laid, word, h.normal⟩

/-- Without pools, a request for all of the bytes could be met. -/
theorem New.regular_single (h : New r) {size : Nat} (sizes : r.sizes = [size])
    (strategy : r.placement.strategy ≠ .slab) : r.Regular size := by
  have hcapacity := capacity_of_sizes sizes
  have word : r.capacity < UInt64.size := by
    have := (h.sound.admissible size (by rw [sizes]; simp)).2
    simp only [Segment.maxSize, UInt32.size] at this
    simp only [UInt64.size]
    omega
  have regular := h.regular word
  have hmost : r.maxRequest = size := by
    unfold maxRequest
    cases hplacement : r.placement with
    | firstFit order => exact hcapacity
    | largestFit free => exact hcapacity
    | slab pools fallThrough =>
      rw [hplacement] at strategy
      exact absurd rfl strategy
  rwa [hmost] at regular

end Region

/-- All regions that settings lay out can meet the same requests. -/
theorem MemorySettings.exists_regular {m : MemorySettings} (word : m.regionSize < UInt64.size) :
    ∃ most, ∀ id (r : Region), m.makeRegion id = .ok r → r.Regular most := by
  cases hstrategy : m.strategy with
  | firstFit =>
    refine ⟨m.regionSize, fun id r made => ?_⟩
    simp only [makeRegion, hstrategy] at made
    obtain ⟨-, strategy, -, sizes, -⟩ := Region.sound_firstFit made
    exact (Region.New.firstFit made).regular_single sizes (by simp [strategy])
  | largestFit =>
    refine ⟨m.regionSize, fun id r made => ?_⟩
    simp only [makeRegion, hstrategy] at made
    obtain ⟨-, strategy, -, sizes, -⟩ := Region.sound_largestFit made
    exact (Region.New.largestFit made).regular_single sizes (by simp [strategy])
  | slab =>
    cases hmake : SlotPool.make m.regionSize m.slotSizes m.slabSegments with
    | error refusal =>
      refine ⟨0, fun id r made => ?_⟩
      simp only [makeRegion, hstrategy, Region.slab, hmake] at made
      cases made
    | ok pools =>
      refine ⟨(pools.getLast?.map (·.slotSize)).getD 0, fun id r made => ?_⟩
      simp only [makeRegion, hstrategy] at made
      obtain ⟨pools', hmake', placement⟩ := Region.slab_eq_ok made
      rw [hmake] at hmake'
      cases hmake'
      have hbytes := SlotPool.bytes_make hmake
      rw [← (Region.New.slab made).laid _ _ placement, ← Region.capacity_eq_foldr] at hbytes
      have regular := (Region.New.slab made).regular (by omega)
      rwa [Region.maxRequest, placement] at regular

end RegionStore
