import RegionStore.Proofs.Sessions

/-!
Clearing makes a store as good as new. From then on a cleared store and one that has just been
built answer the same calls alike: they issue the same slots at the same places, in the same order,
and differ in the generations of handles and in bytes that nothing has been written to since.
-/
namespace RegionStore

variable {α : Type}

/-! ### Regions -/

namespace SlotTable

variable {t : SlotTable}

theorem aged_empty (t : SlotTable) : t.reset.Aged t.reset.generationAt (.empty t.region) := by
  refine ⟨rfl, Nat.zero_le _, nofun, fun x e _ found => ?_, fun _ _ => rfl⟩
  rw [find?_reset] at found
  obtain ⟨e, -, rfl⟩ := Option.map_eq_some_iff.1 found
  exact ⟨rfl, rfl⟩

theorem stacked_empty (t : SlotTable) : t.reset.Stacked (.empty t.region) := by
  rw [Stacked, slotCount_reset]
  exact List.range_eq_range'

/-- A slot that has only been freed counts as one that nobody has used. -/
theorem since_invalidateAll {x : Nat} {e : Entry} (found : t.find? x = some e) :
    e.invalidate.since (t.invalidateAll.generationAt x) = .vacant e.segment e.span := by
  have found' : t.invalidateAll.find? x = some e.invalidate := by
    rw [find?_invalidateAll, found, Option.map_some]
  have hzero : e.generation + 1 - (e.generation + 1) = 0 := UInt32.sub_self _
  rw [generationAt_of_find? found', Entry.since, Entry.vacant]
  simp only [Entry.invalidate, hzero]

end SlotTable

namespace Region

variable {old new : Region}

theorem aged_firstFit {id size : Nat} (made : Region.firstFit id size = .ok new)
    (keeps : new.Keeps old) :
    ∃ age, old.clear.table.Aged age new.table ∧ old.clear.table.Stacked new.table ∧
      new.placement = old.clear.placement := by
  obtain ⟨-, strategy, own, sizes, -⟩ := sound_firstFit made
  have hcapacity := capacity_of_sizes (keeps.sizes.trans sizes)
  have hregion : old.table.region = id := keeps.id.trans own
  have hstrategy := keeps.strategy.trans strategy
  obtain ⟨same, aged, stack, -⟩ := old.table.aged_empty.insert old.table.stacked_empty nofun 0
    (.ofSize 0 size)
  unfold Region.firstFit at made
  split at made
  · cases made
  · cases made
    cases placement : old.placement with
    | firstFit order =>
      simp only [Region.clear, placement, hcapacity, Placement.reset, FirstFit.start]
      rw [hregion] at same aged stack
      exact ⟨_, aged, stack, congrArg (fun slot => Placement.firstFit [slot]) same⟩
    | largestFit free =>
      rw [placement] at hstrategy
      cases hstrategy
    | slab pools fallThrough =>
      rw [placement] at hstrategy
      cases hstrategy

theorem aged_largestFit {id size : Nat} (made : Region.largestFit id size = .ok new)
    (keeps : new.Keeps old) :
    ∃ age, old.clear.table.Aged age new.table ∧ old.clear.table.Stacked new.table ∧
      new.placement = old.clear.placement := by
  obtain ⟨-, strategy, own, sizes, -⟩ := sound_largestFit made
  have hcapacity := capacity_of_sizes (keeps.sizes.trans sizes)
  have hregion : old.table.region = id := keeps.id.trans own
  have hstrategy := keeps.strategy.trans strategy
  have aged := old.table.aged_empty
  have stack := old.table.stacked_empty
  unfold Region.largestFit at made
  split at made
  · cases made
  · cases made
    cases placement : old.placement with
    | firstFit order =>
      rw [placement] at hstrategy
      cases hstrategy
    | largestFit free =>
      simp only [Region.clear, placement, hcapacity, Placement.reset]
      rw [hregion] at aged stack
      exact ⟨_, aged, stack, trivial⟩
    | slab pools fallThrough =>
      rw [placement] at hstrategy
      cases hstrategy

/-- Slots of pools have their ranges for good, so that clearing has only to free them. -/
theorem aged_slab {id size count : Nat} {slotSizes : List Nat} {fallThrough : Bool}
    (made : Region.slab id size slotSizes count fallThrough = .ok new) (keeps : new.Keeps old)
    (outline : old.outline = new.outline) :
    ∃ age, old.clear.table.Aged age new.table ∧ new.placement = old.clear.placement := by
  obtain ⟨-, -, own, -⟩ := sound_slab made
  have hregion : old.table.region = id := keeps.id.trans own
  unfold Region.slab at made
  split at made
  · cases made
  · next pools hmake =>
    cases made
    obtain ⟨pools', placement, hpools⟩ := Placement.eq_slab_of_outline outline
    have account := keeps.sound.slab_account placement
    have hfull := SlotPool.map_refill_make hmake
    have hextents : pools'.flatMap (·.extents) = pools.flatMap (·.extents) := by
      rw [← SlotPool.flatMap_extents_refill, hpools, SlotPool.flatMap_extents_refill]
    have hplace (x : Nat) : (old.table.find? x).map Entry.place =
        (pools.flatMap (·.extents))[x]? := by
      rw [← hextents]
      exact SlotPool.Account.map_place account x
    simp only [Region.clear, placement, Placement.reset]
    refine ⟨old.table.invalidateAll.generationAt, ⟨hregion.symm, ?_, fun x inside => ?_,
      fun x e _ found => ?_, fun _ _ => rfl⟩, ?_⟩
    · rw [SlotTable.slotCount_invalidateAll]
      by_contra beyond
      have hnone := hplace old.table.slotCount
      rw [SlotTable.find?_eq_none_iff.2 (Nat.le_refl _), Option.map_none, eq_comm,
        List.getElem?_eq_none_iff] at hnone
      simp [SlotTable.slotCount] at beyond hnone
      omega
    · rw [SlotTable.find?_invalidateAll]
      have hnew : SlotTable.find? ⟨id, ((pools.flatMap (·.extents)).map
          fun place => Entry.vacant place.1 place.2).toArray, []⟩ x =
            ((pools.flatMap (·.extents))[x]?).map fun place => .vacant place.1 place.2 := by
        simp only [SlotTable.find?, List.getElem?_toArray, List.getElem?_map]
      refine hnew.trans ?_
      rw [← hplace, Option.map_map, Option.map_map]
      cases found : old.table.find? x with
      | none => rfl
      | some e => exact congrArg some (SlotTable.since_invalidateAll found).symm
    · rw [SlotTable.find?_invalidateAll] at found
      obtain ⟨e, -, rfl⟩ := Option.map_eq_some_iff.1 found
      exact ⟨rfl, rfl⟩
    · rw [hpools, hfull]

theorem New.aged (h : New new) (keeps : new.Keeps old) (outline : old.outline = new.outline) :
    ∃ age, old.clear.table.Aged age new.table ∧
      (old.clear.placement.strategy ≠ .slab → old.clear.table.Stacked new.table) ∧
      new.placement = old.clear.placement := by
  cases h with
  | firstFit made =>
    obtain ⟨age, aged, stack, placement⟩ := aged_firstFit made keeps
    exact ⟨age, aged, fun _ => stack, placement⟩
  | largestFit made =>
    obtain ⟨age, aged, stack, placement⟩ := aged_largestFit made keeps
    exact ⟨age, aged, fun _ => stack, placement⟩
  | slab made =>
    obtain ⟨age, aged, placement⟩ := aged_slab made keeps outline
    refine ⟨age, aged, fun other => ?_, placement⟩
    rw [← placement, (sound_slab made).2.1] at other
    exact absurd rfl other

end Region

/-! ### Stores -/

namespace Store

variable {s s' fresh : Store}

/-- Any operations on a store or on one of its regions lead from one store to the other. -/
inductive Reaches (s : Store) : Store → Prop
  | refl : Reaches s s
  | perform {α : Type} {s' : Store} (h : Reaches s s') (now : Int) (op : Op α) :
    Reaches s (s'.perform now op).2
  | onRegion {s' : Store} {i : Nat} {r : Region} (h : Reaches s s')
    (found : s'.regions[i]? = some r) (now : Int) (op : Region.Op) :
    Reaches s (s'.setRegion i (r.step now op))

theorem Reaches.evolves (h : Reaches s s') : Evolves s s' := by
  induction h with
  | refl => exact .refl s
  | perform h now op ih => exact ih.trans (evolves_perform _ now op)
  | onRegion h found now op ih => exact ih.trans (evolves_setRegion found [(now, op)])

theorem Reaches.steady (h : Reaches s s') : Steady s s' := by
  induction h with
  | refl => exact .refl s
  | perform h now op ih => exact ih.trans (steady_perform _ now op)
  | onRegion h found now op ih => exact ih.trans (steady_setRegion _ _ _)

end Store

end RegionStore
