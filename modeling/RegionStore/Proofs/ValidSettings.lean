import Mathlib.Data.List.MinMax
import RegionStore.Proofs.CheckedRuns
import RegionStore.Proofs.Renewal
import RegionStore.Proofs.Retries

/-!
Settings that pass the check can be built. The check divides a region among all slot sizes that are
listed and building among the distinct ones, so what passes the check has more room than it needs.
-/
namespace RegionStore

namespace SlotPool

variable {count budget firstSegment firstSlot : Nat} {slotSizes : List Nat} {pools : List SlotPool}

theorem length_insertAscending_le (size : Nat) (sizes : List Nat) :
    (insertAscending size sizes).length ≤ sizes.length + 1 := by
  induction sizes with
  | nil => exact Nat.le_refl _
  | cons other rest ih =>
    unfold insertAscending
    split
    · exact Nat.le_refl _
    · split
      · exact Nat.le_succ _
      · exact Nat.succ_le_succ ih

theorem length_ascending_le (sizes : List Nat) : (ascending sizes).length ≤ sizes.length := by
  induction sizes with
  | nil => exact Nat.le_refl _
  | cons size rest ih =>
    exact Nat.le_trans (length_insertAscending_le size _) (Nat.succ_le_succ ih)

/-- The pools that are made have the distinct sizes in ascending order. -/
theorem exists_make {size : Nat} (listed : slotSizes ≠ []) (positive : 0 ∉ slotSizes)
    (some : 1 ≤ count) (small : size ≤ Segment.maxSize)
    (fits : ∀ n ∈ slotSizes, n ≤ size / slotSizes.length / count) :
    ∃ pools, make size slotSizes count = .ok pools ∧
      pools.map (·.slotSize) = ascending slotSizes ∧ ∀ p ∈ pools, count ≤ p.slotCount := by
  rw [make_eq_layOut listed positive some]
  obtain ⟨first, hfirst⟩ := List.exists_mem_of_ne_nil slotSizes listed
  have hdistinct : 0 < (ascending slotSizes).length :=
    List.length_pos_of_mem (mem_ascending.2 hfirst)
  have hshare : size / slotSizes.length / count ≤ share size slotSizes count := by
    rw [share, ← length_ascending]
    exact Nat.div_le_div_right (Nat.div_le_div_left (length_ascending_le slotSizes) hdistinct)
  have hsmall : share size slotSizes count ≤ Segment.maxSize :=
    Nat.le_trans (Nat.div_le_self _ _) (Nat.le_trans (Nat.div_le_self _ _) small)
  have hfits : ∀ n ∈ ascending slotSizes, 0 < share size slotSizes count / n ∧
      share size slotSizes count / n * n ≤ Segment.maxSize := by
    intro n hn
    rw [mem_ascending] at hn
    have hpositive : 0 < n := Nat.pos_of_ne_zero fun zero => positive (zero ▸ hn)
    exact ⟨Nat.div_pos (Nat.le_trans (fits n hn) hshare) hpositive,
      Nat.le_trans (Nat.div_mul_le_self _ n) hsmall⟩
  obtain ⟨pools, made⟩ : ∃ pools,
      layOut count (share size slotSizes count) 0 0 (ascending slotSizes) = .ok pools :=
    exists_layOut_iff.2 hfits
  obtain ⟨hsizes, hpools⟩ := layOut_pools made
  refine ⟨pools, made, hsizes, fun p hp => ?_⟩
  obtain ⟨hcount, -, -, room, -⟩ := hpools p hp
  rw [slotCount, hcount]
  exact Nat.le_mul_of_pos_right count room

theorem bytes_pos (chained : Chained firstSegment firstSlot pools) (some : pools ≠ [])
    (slots : ∀ p ∈ pools, 0 < p.slotCount) :
    0 < ((pools.flatMap (·.segments)).map (·.size)).foldr (· + ·) 0 := by
  cases pools with
  | nil => exact absurd rfl some
  | cons p rest =>
    obtain ⟨-, -, positive, -, -⟩ := chained
    rw [List.flatMap_cons, List.map_append, foldr_segments]
    exact Nat.add_pos_left (Nat.mul_pos (slots p List.mem_cons_self) positive) _

end SlotPool

namespace MemorySettings

variable {m : MemorySettings}

theorem le_largestSlot {n : Nat} (listed : n ∈ m.slotSizes) : n ≤ m.largestSlot :=
  List.le_max_of_le' 0 listed (Nat.le_refl n)

theorem largestSlot_le {bound : Nat} (each : ∀ n ∈ m.slotSizes, n ≤ bound) :
    m.largestSlot ≤ bound :=
  List.max_le_of_forall_le m.slotSizes bound each

/-- The last of the ascending sizes is the largest of those that are listed. -/
theorem getLast?_ascending (listed : m.slotSizes ≠ []) :
    (SlotPool.ascending m.slotSizes).getLast? = some m.largestSlot := by
  have hsorted := SlotPool.pairwise_ascending m.slotSizes
  cases hlast : (SlotPool.ascending m.slotSizes).getLast? with
  | none =>
    obtain ⟨n, hn⟩ := List.exists_mem_of_ne_nil m.slotSizes listed
    rw [← SlotPool.mem_ascending, List.getLast?_eq_none_iff.1 hlast] at hn
    cases hn
  | some last =>
    obtain ⟨lower, hlower⟩ := List.getLast?_eq_some_iff.1 hlast
    rw [hlower] at hsorted
    have hmem : last ∈ m.slotSizes := by
      rw [← SlotPool.mem_ascending, hlower]
      exact List.mem_append_right lower List.mem_cons_self
    refine congrArg some (Nat.le_antisymm (le_largestSlot hmem) (largestSlot_le fun n hn => ?_))
    rw [← SlotPool.mem_ascending, hlower] at hn
    rcases List.mem_append.1 hn with earlier | same
    · exact Nat.le_of_lt ((List.pairwise_append.1 hsorted).2.2 n earlier last List.mem_cons_self)
    · exact Nat.le_of_eq (List.mem_singleton.1 same)

/-- A region is what settings ask for. -/
structure Describes (m : MemorySettings) (r : Region) : Prop where
  strategy : r.placement.strategy = m.strategy
  whole : m.strategy ≠ .slab → r.capacity = m.regionSize ∧ r.maxRequest = m.regionSize
  /-- One pool per distinct size, with as many slots as there are to be segments, or more. -/
  pools : m.strategy = .slab → ∃ pools, r.placement = .slab pools m.allowLargerSlab ∧
    (pools.map (·.slotSize)).Nodup ∧ (∀ n, n ∈ pools.map (·.slotSize) ↔ n ∈ m.slotSizes) ∧
    ∀ p ∈ pools, m.slabSegments ≤ p.slotCount
  largest : m.strategy = .slab → r.maxRequest = m.largestSlot
  capacity_pos : 0 < r.capacity
  capacity_le : r.capacity ≤ m.regionSize

theorem Describes.setThreshold {r : Region} (h : m.Describes r) (threshold : UInt64) :
    m.Describes (r.setThreshold threshold) :=
  ⟨h.strategy, h.whole, h.pools, h.largest, h.capacity_pos, h.capacity_le⟩

theorem describes_single {r : Region} (different : m.strategy ≠ .slab) (some : 1 ≤ m.regionSize)
    (strategy : r.placement.strategy = m.strategy) (sizes : r.sizes = [m.regionSize]) :
    m.Describes r := by
  have hcapacity := Region.capacity_of_sizes sizes
  have hrequest : r.maxRequest = m.regionSize := by
    rw [← hcapacity, Region.maxRequest]
    cases hplacement : r.placement with
    | firstFit order => rfl
    | largestFit free => rfl
    | slab pools fallThrough =>
      rw [hplacement] at strategy
      exact absurd strategy.symm different
  exact ⟨strategy, fun _ => ⟨hcapacity, hrequest⟩, fun same => absurd same different,
    fun same => absurd same different, hcapacity ▸ some, Nat.le_of_eq hcapacity⟩

theorem regionSize_of_valid (valid : m.fault? = none) : 1 ≤ m.regions ∧ 1 ≤ m.regionSize ∧
    m.regionSize ≤ Segment.maxSize ∧ (m.strategy = .slab → m.slabFault? = none) := by
  unfold fault? at valid
  split at valid
  · cases valid
  · split at valid
    · cases valid
    · split at valid
      · cases valid
      · refine ⟨by omega, by omega, by omega, fun strategy => ?_⟩
        rwa [strategy] at valid

theorem exists_slab (strategy : m.strategy = .slab) (valid : m.slabFault? = none)
    (small : m.regionSize ≤ Segment.maxSize) (id : Nat) :
    ∃ r, Region.slab id m.regionSize m.slotSizes m.slabSegments m.allowLargerSlab = .ok r ∧
      m.Describes r := by
  obtain ⟨listed, positive, some, fits⟩ := slabFault?_eq_none_iff.1 valid
  obtain ⟨pools, hmake, hsizes, hcount⟩ := SlotPool.exists_make listed positive some small
    fun n hn => Nat.le_trans (le_largestSlot hn) fits
  obtain ⟨r, made⟩ : ∃ r, Region.slab id m.regionSize m.slotSizes m.slabSegments
      m.allowLargerSlab = .ok r := by
    simp only [Region.slab, hmake]
    exact ⟨_, rfl⟩
  obtain ⟨pools', hmake', placement⟩ := Region.slab_eq_ok made
  rw [hmake] at hmake'
  cases hmake'
  have hlast := getLast?_ascending listed
  rw [← hsizes] at hlast
  have hcapacity : r.capacity = ((pools.flatMap (·.segments)).map (·.size)).foldr (· + ·) 0 := by
    rw [Region.capacity_eq_foldr, (Region.New.slab made).laid _ _ placement]
  refine ⟨r, made, ?_, fun different => absurd strategy different,
    fun _ => ⟨pools, placement, ?_, fun n => ?_, hcount⟩, fun _ => ?_, ?_, ?_⟩
  · rw [placement, strategy]
    rfl
  · rw [hsizes]
    exact (SlotPool.pairwise_ascending m.slotSizes).imp Nat.ne_of_lt
  · rw [hsizes, SlotPool.mem_ascending]
  · rw [Region.maxRequest, placement]
    simp only [← List.getLast?_map, hlast, Option.getD_some]
  · rw [hcapacity]
    refine SlotPool.bytes_pos (SlotPool.chained_make hmake).1 (fun none => ?_)
      fun p hp => Nat.lt_of_lt_of_le some (hcount p hp)
    rw [none] at hlast
    cases hlast
  · rw [hcapacity]
    exact SlotPool.bytes_make hmake

/-- Settings of memory that have no fault lay out every region. -/
theorem exists_makeRegion (valid : m.fault? = none) (id : Nat) :
    ∃ r, m.makeRegion id = .ok r ∧ m.Describes r := by
  obtain ⟨-, some, small, slab⟩ := regionSize_of_valid valid
  have hsegment : Segment.make m.regionSize = .ok _ := Segment.make_eq_ok_iff.2 ⟨⟨some, small⟩, rfl⟩
  unfold makeRegion
  cases hstrategy : m.strategy with
  | firstFit =>
    obtain ⟨r, made⟩ : ∃ r, Region.firstFit id m.regionSize = .ok r := by
      simp only [Region.firstFit, hsegment]
      exact ⟨_, rfl⟩
    obtain ⟨-, strategy, -, sizes, -⟩ := Region.sound_firstFit made
    exact ⟨r, made,
      describes_single (by simp [hstrategy]) some (strategy.trans hstrategy.symm) sizes⟩
  | largestFit =>
    obtain ⟨r, made⟩ : ∃ r, Region.largestFit id m.regionSize = .ok r := by
      simp only [Region.largestFit, hsegment]
      exact ⟨_, rfl⟩
    obtain ⟨-, strategy, -, sizes, -⟩ := Region.sound_largestFit made
    exact ⟨r, made,
      describes_single (by simp [hstrategy]) some (strategy.trans hstrategy.symm) sizes⟩
  | slab => exact exists_slab hstrategy (slab hstrategy) small id

theorem exists_makeRegions (valid : m.fault? = none) (threshold : UInt64) (count first : Nat) :
    ∃ regions, m.makeRegions threshold count first = .ok regions := by
  induction count generalizing first with
  | zero => exact ⟨[], rfl⟩
  | succ count ih =>
    obtain ⟨r, hfirst, -⟩ := exists_makeRegion valid first
    obtain ⟨others, hothers⟩ := ih (first + 1)
    unfold makeRegions
    simp only [hfirst, hothers]
    exact ⟨_, rfl⟩

end MemorySettings

namespace Store

variable {s : Store}

/-- A store is what settings ask for. -/
structure Follows (s : Store) (m : MemorySettings) : Prop where
  count : s.regions.length = m.regions
  regions : ∀ (i : Nat) (r : Region), s.regions[i]? = some r → r.id = i ∧ m.Describes r
  whole : m.strategy ≠ .slab → s.capacity = m.regions * m.regionSize ∧
    s.maxRequest = m.regionSize
  largest : m.strategy = .slab → s.maxRequest = m.largestSlot
  capacity_pos : 0 < s.capacity
  capacity_le : s.capacity ≤ m.regions * m.regionSize

variable {settings : Settings}

theorem exists_build (valid : settings.memory.fault? = none)
    (few : settings.memory.regions < UInt32.size) (attempts : settings.routing.maxAllocations ≠ 0) :
    ∃ s, build settings = .ok s ∧ s.regions.length = settings.memory.regions := by
  obtain ⟨some, -⟩ := MemorySettings.regionSize_of_valid valid
  obtain ⟨regions, hregions⟩ := MemorySettings.exists_makeRegions valid
    (.ofNat settings.eviction.shortageThreshold) settings.memory.regions 0
  unfold build buildWith
  simp only [if_neg (Nat.ne_of_gt some), if_neg (Nat.not_le_of_lt few), if_neg attempts, hregions]
  exact ⟨_, rfl, MemorySettings.length_makeRegions hregions⟩

theorem follows_build (valid : settings.memory.fault? = none) (built : build settings = .ok s)
    (count : s.regions.length = settings.memory.regions) : s.Follows settings.memory := by
  obtain ⟨-, hmade⟩ := buildWith_eq_ok built
  obtain ⟨-, hsome, -⟩ := build_eq_ok built
  obtain ⟨-, -, small, -⟩ := MemorySettings.regionSize_of_valid valid
  have word : settings.memory.regionSize < UInt64.size := by
    simp only [Segment.maxSize, UInt32.size, UInt64.size] at *
    omega
  have hregions (i : Nat) (r : Region) (found : s.regions[i]? = some r) :
      r.id = i ∧ settings.memory.Describes r := by
    obtain ⟨r₀, made, rfl⟩ := hmade i r found
    obtain ⟨r₁, made', describes⟩ := MemorySettings.exists_makeRegion valid i
    rw [made] at made'
    cases made'
    exact ⟨(sound_makeRegion made).2.1, describes.setThreshold _⟩
  have hmember (r : Region) (member : r ∈ s.regions) : settings.memory.Describes r := by
    obtain ⟨i, found⟩ := List.getElem?_of_mem member
    exact (hregions i r found).2
  have hfirst := List.getElem?_eq_getElem hsome
  have hrequest := (regular_build built word).maxRequest_eq hfirst
  have hdescribes := (hregions 0 _ hfirst).2
  have hcapacity : s.capacity = (s.regions.map (·.capacity)).sum := foldr_eq_sum _ _
  refine ⟨count, hregions, fun different => ⟨?_, ?_⟩, fun strategy => ?_, ?_, ?_⟩
  · have hsum := List.sum_eq_card_nsmul (s.regions.map (·.capacity)) settings.memory.regionSize
      (List.forall_mem_map.2 fun r member => ((hmember r member).whole different).1)
    rwa [List.length_map, count, smul_eq_mul, ← hcapacity] at hsum
  · rw [hrequest, (hdescribes.whole different).2]
  · rw [hrequest, hdescribes.largest strategy]
  · rw [hcapacity]
    exact Nat.lt_of_lt_of_le hdescribes.capacity_pos
      (List.single_le_sum (fun _ _ => Nat.zero_le _) _
        (List.mem_map_of_mem (List.mem_of_getElem? hfirst)))
  · have hle := List.sum_le_card_nsmul (s.regions.map (·.capacity)) settings.memory.regionSize
      (List.forall_mem_map.2 fun r member => (hmember r member).capacity_le)
    rwa [List.length_map, count, smul_eq_mul, ← hcapacity] at hle

/-- Settings that pass the check can be built, as long as regions can be numbered with 32 bits, and
the store is what they ask for: so many regions, numbered from zero on, of the size that they name
and able to meet a request of that size, or in the case of slots with a pool for each distinct slot
size. Settings that do not pass are refused with the fault that was found. -/
theorem valid_settings_build (settings : Settings) :
    (settings.validate = .ok () → settings.memory.regions < UInt32.size →
      ∃ s, ofSettings settings = .ok s ∧ s.Follows settings.memory) ∧
    (∀ e, settings.validate = .error e →
      ofSettings settings = .error (.invalidConfig e.message)) := by
  refine ⟨fun valid few => ?_, fun e invalid => ?_⟩
  · have hfault := Settings.validate_eq_ok_iff.1 valid
    unfold Settings.fault? at hfault
    obtain ⟨memory, others⟩ := Option.or_eq_none_iff.1 hfault
    have attempts : settings.routing.maxAllocations ≠ 0 := by
      intro none
      rw [if_pos none] at others
      cases others
    obtain ⟨s, built, count⟩ := exists_build memory few attempts
    refine ⟨s, ?_, follows_build memory built count⟩
    unfold ofSettings
    rw [valid]
    exact built
  · unfold ofSettings
    rw [invalid]
    rfl

/-- Slot sizes out of order and listed twice: four that are listed are three pools. With an empty
slot among the sizes nothing is built. -/
theorem valid_settings_build_listed_twice :
    (∃ s, ofSettings ⟨⟨2, 200, .slab, [16, 4, 16, 8], 2, false⟩, .default, .default, .default⟩ =
        .ok s ∧ s.regions.length = 2 ∧ s.maxRequest = 16 ∧ 0 < s.capacity ∧ s.capacity ≤ 2 * 200) ∧
    ofSettings ⟨⟨2, 200, .slab, [16, 0], 2, false⟩, .default, .default, .default⟩ =
      .error (.invalidConfig "invalid config: slot sizes must be greater than 0") := by
  refine ⟨?_, ?_⟩
  · obtain ⟨s, built, follows⟩ := (valid_settings_build
      ⟨⟨2, 200, .slab, [16, 4, 16, 8], 2, false⟩, .default, .default, .default⟩).1 rfl (by decide)
    exact ⟨s, built, follows.count, follows.largest rfl, follows.capacity_pos, follows.capacity_le⟩
  · exact (valid_settings_build
      ⟨⟨2, 200, .slab, [16, 0], 2, false⟩, .default, .default, .default⟩).2
        (.invalid "slot sizes must be greater than 0") rfl

end Store

end RegionStore
