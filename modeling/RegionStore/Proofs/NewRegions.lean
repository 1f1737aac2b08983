import RegionStore.Proofs.Operations

/-!
New regions are sound, whatever way they are to find room, and hold nothing.
-/
namespace RegionStore.Region

/-- A region as it is made, in any of the three ways. -/
inductive New : Region → Prop
  | firstFit {id size : Nat} {r : Region} (made : Region.firstFit id size = .ok r) : New r
  | largestFit {id size : Nat} {r : Region} (made : Region.largestFit id size = .ok r) : New r
  | slab {id size : Nat} {slotSizes : List Nat} {count : Nat} {fallThrough : Bool} {r : Region}
      (made : Region.slab id size slotSizes count fallThrough = .ok r) : New r

theorem find?_empty (id slot : Nat) : (SlotTable.empty id).find? slot = none :=
  SlotTable.find?_eq_none_iff.2 (Nat.zero_le _)

theorem issued?_empty (id slot : Nat) : (SlotTable.empty id).issued? slot = none := by
  rw [SlotTable.issued?, find?_empty, Option.filter_none]

variable {id size : Nat} {r : Region}

theorem sound_firstFit (made : Region.firstFit id size = .ok r) :
    r.Sound ∧ r.placement.strategy = .firstFit ∧ r.id = id ∧ r.sizes = [size] ∧
      ∀ x, r.table.issued? x = none := by
  unfold Region.firstFit at made
  split at made
  · cases made
  · next segment hmake =>
    cases made
    obtain ⟨hsize, rfl⟩ := Segment.make_eq_ok_iff.1 hmake
    have hvacant : (SlotTable.empty id).VacantFree := nofun
    have hsegment : (SlotTable.empty id).Unsegmented := by
      intro slot e found
      rw [find?_empty] at found
      cases found
    have haccount := FirstFit.account_start rfl hvacant hsegment hsize.1
    obtain ⟨ready, -⟩ := SlotTable.insert_readied hvacant 0 (.ofSize 0 size)
    have hidle (x : Nat) : (FirstFit.start (.empty id) size).2.issued? x = none :=
      (ready.issued x).trans (issued?_empty id x)
    refine ⟨.of_idle ⟨size, rfl, haccount⟩ ?_ hidle rfl, rfl, ready.region, rfl, hidle⟩
    intro n hn
    rw [List.mem_singleton.1 hn]
    exact hsize

theorem sound_largestFit (made : Region.largestFit id size = .ok r) :
    r.Sound ∧ r.placement.strategy = .largestFit ∧ r.id = id ∧ r.sizes = [size] ∧
      ∀ x, r.table.issued? x = none := by
  unfold Region.largestFit at made
  split at made
  · cases made
  · next segment hmake =>
    cases made
    obtain ⟨hsize, rfl⟩ := Segment.make_eq_ok_iff.1 hmake
    have hsegment : (SlotTable.empty id).Unsegmented := by
      intro slot e found
      rw [find?_empty] at found
      cases found
    have hvacant : (SlotTable.empty id).VacantFree := nofun
    have hsmall : size ≤ UInt32.size := by
      have := hsize.2
      unfold Segment.maxSize at this
      omega
    have haccount : (FreeSpans.spanning size).Account (.empty id) size := by
      apply FreeSpans.account_spanning _ hvacant List.nodup_nil hsegment hsize.1 hsmall
      intro slot
      rw [SlotTable.range?, issued?_empty, Option.map_none]
    refine ⟨.of_idle ⟨size, rfl, haccount⟩ ?_ (issued?_empty id) rfl, rfl, rfl, rfl,
      issued?_empty id⟩
    intro n hn
    rw [List.mem_singleton.1 hn]
    exact hsize

theorem sound_slab {slotSizes : List Nat} {count : Nat} {fallThrough : Bool}
    (made : Region.slab id size slotSizes count fallThrough = .ok r) :
    r.Sound ∧ r.placement.strategy = .slab ∧ r.id = id ∧ ∀ x, r.table.issued? x = none := by
  unfold Region.slab at made
  split at made
  · cases made
  · next pools hmake =>
    cases made
    have haccount := SlotPool.account_make hmake id
    have hidle (x : Nat) : SlotTable.issued? ⟨id, ((pools.flatMap (·.extents)).map
        fun place => Entry.vacant place.1 place.2).toArray, []⟩ x = none := by
      rw [SlotTable.issued?_eq_none_iff]
      intro e found
      simp only [SlotTable.find?, List.getElem?_toArray, List.getElem?_map] at found
      obtain ⟨place, -, rfl⟩ := Option.map_eq_some_iff.1 found
      rfl
    exact ⟨.of_idle haccount (SlotPool.admissible_make hmake) hidle rfl, rfl, rfl, hidle⟩

theorem New.sound (h : New r) : r.Sound := by
  cases h with
  | firstFit made => exact (sound_firstFit made).1
  | largestFit made => exact (sound_largestFit made).1
  | slab made => exact (sound_slab made).1

theorem New.idle (h : New r) (x : Nat) : r.table.issued? x = none := by
  cases h with
  | firstFit made => exact (sound_firstFit made).2.2.2.2 x
  | largestFit made => exact (sound_largestFit made).2.2.2.2 x
  | slab made => exact (sound_slab made).2.2.2 x

theorem New.usage (h : New r) : r.usage = .withThreshold 0 := by
  cases h with
  | firstFit made =>
    unfold Region.firstFit at made
    split at made <;> cases made
    rfl
  | largestFit made =>
    unfold Region.largestFit at made
    split at made <;> cases made
    rfl
  | slab made =>
    unfold Region.slab at made
    split at made <;> cases made
    rfl

end RegionStore.Region
