import RegionStore.Proofs.Placements
import RegionStore.Proofs.Retries

/-!
Which pool meets a request: the one with the smallest slots that are large enough, or, where requests
may fall through, the first from there on that has a slot left. Released slots go back to where they
came from.
-/
namespace RegionStore

namespace SlotPool

variable {pools pools' lower higher : List SlotPool} {p : SlotPool} {fallThrough : Bool} {n : Nat}

@[simp] theorem slots_refill (p : SlotPool) : p.refill.slots = p.slots := rfl

@[simp] theorem slotSize_refill (p : SlotPool) : p.refill.slotSize = p.slotSize := rfl

/-- Slot sizes ascend from pool to pool. -/
def Ascending (pools : List SlotPool) : Prop := pools.Pairwise (·.slotSize < ·.slotSize)

/-- Pools that are laid out alike have the same sizes. -/
theorem Ascending.congr (h : Ascending pools) (layout : pools'.map refill = pools.map refill) :
    Ascending pools' := by
  have hsizes := congrArg (List.map (·.slotSize)) layout
  rw [List.map_map, List.map_map] at hsizes
  have hpairs : (pools'.map (·.slotSize)).Pairwise (· < ·) := by
    rw [show pools'.map (·.slotSize) = pools.map (·.slotSize) from hsizes]
    exact List.pairwise_map.2 h
  exact List.pairwise_map.1 hpairs

/-- Where one of two alike layouts has a pool, the other one has that pool too. -/
theorem exists_counterpart (layout : pools'.map refill = (lower ++ p :: higher).map refill) :
    ∃ lower' p' higher', pools' = lower' ++ p' :: higher' ∧ lower'.length = lower.length ∧
      p'.refill = p.refill := by
  rw [List.map_append, List.map_cons, List.map_eq_append_iff] at layout
  obtain ⟨lower', rest, rfl, hlower, hrest⟩ := layout
  obtain ⟨p', higher', rfl, hp, -⟩ := List.map_eq_cons_iff.1 hrest
  have hlength := congrArg List.length hlower
  rw [List.length_map, List.length_map] at hlength
  exact ⟨lower', p', higher', rfl, hlength, hp⟩

end SlotPool

namespace Region

/-- A handle has been released, and its slot is the last in the queue of the pool at `position`. -/
structure Returned (r : Region) (fallThrough : Bool) (k : Handle) (p : SlotPool) (position : Nat)
    (r' : Region) : Prop where
  answer : r.release k = (.ok p.slotSize, r')
  queue : ∃ lower p' higher, r.placement = .slab (lower ++ p' :: higher) fallThrough ∧
    lower.length = position ∧ p'.refill = p.refill ∧
    r'.placement = .slab (lower ++ { p' with free := p'.free.push k.slot } :: higher) fallThrough
  used : r'.used + p.slotSize = r.used

variable {r r' : Region} {k : Handle} {pools lower higher : List SlotPool} {p : SlotPool}
  {fallThrough : Bool} {most : Nat} {q : Request} {now : Int}

theorem Sound.release_slab (h : r.Sound)
    (placement : r.placement = .slab (lower ++ p :: higher) fallThrough)
    (owned : k.slot ∈ p.slots) (live : r.Live k) : ∃ e r', Released r k e r' ∧
      e.span.size = p.slotSize ∧
      r'.placement = .slab (lower ++ { p with free := p.free.push k.slot } :: higher) fallThrough := by
  obtain ⟨e, checked⟩ := live
  obtain ⟨r', released⟩ := h.release checked
  have issued := (SlotTable.checked_eq_ok_iff_issued?.1 checked).2.1
  have account := h.slab_account placement
  obtain ⟨hsegment, -, -, hsize⟩ :=
    account.inside (by simp) owned (SlotTable.issued?_eq_some_iff.1 issued).1
  have hqueue : SlotPool.release e.segment k.slot (lower ++ p :: higher) = some _ :=
    SlotPool.release_eq_some (fun q hq => account.chained.foreign hq hsegment) hsegment k.slot
  have hplacement : r.placement.release (r.table.modify k.slot fun _ => e.invalidate) k.slot e =
      .ok (r.table.modify k.slot fun _ => e.invalidate,
        .slab (lower ++ { p with free := p.free.push k.slot } :: higher) fallThrough) := by
    simp only [placement, Placement.release, hqueue]
  have hrelease := released.answer.symm.trans (release_eq checked hplacement)
  cases hrelease
  exact ⟨e, _, released, hsize, rfl⟩

/-- However long it takes until a handle to a slot is released, the slot goes back to its pool. -/
theorem Regular.returned (h : r.Regular most)
    (placement : r.placement = .slab (lower ++ p :: higher) fallThrough)
    (owned : k.slot ∈ p.slots) (ops : List (Int × Op)) (live : (r.run ops).Live k) :
    ∃ r', Returned (r.run ops) fallThrough k p lower.length r' := by
  have houtline := outline_run (r := r) ops
  rw [Region.outline, Region.outline, placement] at houtline
  obtain ⟨pools, placement', layout⟩ := Placement.eq_slab_of_outline houtline
  obtain ⟨lower', p', higher', rfl, hlength, hp⟩ := SlotPool.exists_counterpart layout
  have hslots : p'.refill.slots = p.refill.slots := congrArg SlotPool.slots hp
  have hsize : p'.refill.slotSize = p.refill.slotSize := congrArg SlotPool.slotSize hp
  rw [SlotPool.slots_refill, SlotPool.slots_refill] at hslots
  rw [SlotPool.slotSize_refill, SlotPool.slotSize_refill] at hsize
  have regular := h.run ops
  obtain ⟨e, r', released, hspan, hqueue⟩ :=
    regular.sound.release_slab placement' (by rwa [hslots]) live
  rw [hsize] at hspan
  have regular' : r'.Regular most := by
    have := regular.step 0 (.release k)
    rwa [Region.step, released.answer] at this
  refine ⟨r', ?_, ⟨lower', p', higher', placement', hlength, hp, hqueue⟩, ?_⟩
  · rw [← hspan, released.answer]
  · rw [regular.used_eq, regular'.used_eq, ← released.bytes, hspan, Nat.add_comm]

end Region

end RegionStore
