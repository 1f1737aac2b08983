import RegionStore.Proofs.LowestFit
import RegionStore.Proofs.PoolIntegrity
import RegionStore.Proofs.SlotGrowth

/-!
How many slots a region makes. What is free waits on the stack, once, and none is made while one
waits, so there are as many slots as the region has ever had in use at a time.
-/
namespace RegionStore

namespace SlotTable

variable {t : SlotTable}

theorem Parked.mem_vacant_iff (parked : t.Parked) (vacant : t.VacantFree) {slot : Nat} :
    slot ∈ t.vacant ↔ slot < t.slotCount ∧ t.issued? slot = none := by
  constructor
  · intro waiting
    obtain ⟨e, found, free⟩ := vacant slot waiting
    exact ⟨exists_find?_iff.1 ⟨e, found⟩, issued?_of_free found free⟩
  · rintro ⟨inside, idle⟩
    obtain ⟨e, found⟩ := exists_find?_iff.2 inside
    exact parked slot e found (issued?_eq_none_iff.1 idle e found)

/-- Every slot is live or waits. -/
theorem Parked.live_add_vacant (parked : t.Parked) (vacant : t.VacantFree)
    (distinct : t.vacant.Nodup) : t.live.length + t.vacant.length = t.slotCount := by
  have hwaiting : t.vacant.Perm
      ((List.range t.slotCount).filter fun slot => !(t.issued? slot).isSome) := by
    refine (List.perm_ext_iff_of_nodup distinct (List.nodup_range.filter _)).2 fun slot => ?_
    rw [parked.mem_vacant_iff vacant, List.mem_filter, List.mem_range, Bool.not_eq_true',
      Option.isSome_eq_false_iff, Option.isNone_iff_eq_none]
  have hall := List.length_eq_length_filter_add (l := List.range t.slotCount)
    fun slot => (t.issued? slot).isSome
  rw [← t.live_slots, ← hwaiting.length_eq, List.length_map, List.length_range] at hall
  exact hall.symm

end SlotTable

namespace Region

variable {r : Region} {k : Handle} {size : Nat} {count : Region → Nat}

/-- The largest count on the way through a run, its start and its end included. -/
def peak (count : Region → Nat) (r : Region) : List (Int × Op) → Nat
  | [] => count r
  | (now, op) :: rest => max (count r) ((r.step now op).peak count rest)

theorem count_le_peak (count : Region → Nat) (r : Region) (ops : List (Int × Op)) :
    count r ≤ r.peak count ops := by
  cases ops with
  | nil => exact Nat.le_refl _
  | cons head rest => exact Nat.le_max_left _ _

/-- At any time, slots are in use and count, or wait on the stack. -/
def Balanced (count : Region → Nat) (r : Region) : Prop :=
  ∀ ops, count (r.run ops) + (r.run ops).table.vacant.length = (r.run ops).table.slotCount

/-- There are as many slots as at the start, or as many as have ever counted. -/
theorem Balanced.max_peak (h : r.Balanced count) (ops : List (Int × Op)) :
    max r.table.slotCount (r.peak count ops) = (r.run ops).table.slotCount := by
  have hstart : count r + r.table.vacant.length = r.table.slotCount := h []
  induction ops generalizing r with
  | nil => exact Nat.max_eq_left (by rw [peak]; omega)
  | cons head rest ih =>
    obtain ⟨now, op⟩ := head
    have hnext : count (r.step now op) + (r.step now op).table.vacant.length =
        (r.step now op).table.slotCount := h [(now, op)]
    have hrest := ih (fun later => h ((now, op) :: later)) hnext
    have hpeak := (r.step now op).count_le_peak count rest
    rw [run, peak, ← hrest]
    -- after a step that has made slots, none waits, so the count has come up to all of them
    rcases (course_step (r := r) now op).grows with same | ⟨more, empty⟩
    · omega
    · rw [empty, List.length_nil] at hnext
      omega

theorem Balanced.slotCount_run (h : r.Balanced count) (full : r.table.vacant = [])
    (ops : List (Int × Op)) : (r.run ops).table.slotCount = r.peak count ops := by
  have hstart : count r + r.table.vacant.length = r.table.slotCount := h []
  have hpeak := r.count_le_peak count ops
  rw [full, List.length_nil] at hstart
  rw [← h.max_peak, Nat.max_eq_right (by omega)]

/-- The slots that are not live wait on the stack, each of them once. -/
structure Recycling (r : Region) : Prop where
  distinct : r.table.vacant.Nodup
  vacant : ∀ slot, slot ∈ r.table.vacant ↔
    slot < r.table.slotCount ∧ ∀ x ∈ r.live, x.handle.slot ≠ slot

theorem issued?_eq_none_iff_live {slot : Nat} :
    r.table.issued? slot = none ↔ ∀ x ∈ r.live, x.handle.slot ≠ slot := by
  constructor
  · rintro idle x member rfl
    obtain ⟨slot, e, issued, rfl⟩ := SlotTable.mem_live_iff.1 member
    exact Option.some_ne_none e (issued.symm.trans idle)
  · intro none
    refine Option.eq_none_iff_forall_ne_some.2 fun e issued => ?_
    exact none _ (SlotTable.mem_live_iff.2 ⟨slot, e, issued, rfl⟩) rfl

theorem Sound.recycling (h : r.Sound) (strategy : r.placement.strategy = .largestFit)
    (sizes : r.sizes = [size]) (parked : r.table.Parked) :
    r.Recycling ∧ r.live.length + r.table.vacant.length = r.table.slotCount := by
  obtain ⟨free, -, account⟩ := h.exists_largestFit strategy sizes
  refine ⟨⟨account.distinct, fun slot => ?_⟩,
    parked.live_add_vacant account.vacant account.distinct⟩
  rw [parked.mem_vacant_iff account.vacant, issued?_eq_none_iff_live]

theorem Sound.parked_run (h : r.Sound) (strategy : r.placement.strategy = .largestFit)
    (parked : r.table.Parked) (ops : List (Int × Op)) : (r.run ops).table.Parked := by
  induction ops generalizing r with
  | nil => exact parked
  | cons head rest ih =>
    obtain ⟨now, op⟩ := head
    have keeps := (h.turn now op).keeps
    have parked' := (course_step now op).parked strategy parked
    exact ih keeps.sound (keeps.strategy.trans strategy) parked'

/-- On the list of first fit are all slots but those that wait. -/
theorem Sound.rangeCount_add_vacant (h : r.Sound) (strategy : r.placement.strategy = .firstFit)
    (sizes : r.sizes = [size]) :
    r.rangeCount + r.table.vacant.length = r.table.slotCount := by
  obtain ⟨order, placement, account⟩ := h.exists_firstFit strategy sizes
  have hslots := account.slots.length_eq
  rw [List.length_append, List.length_range] at hslots
  simp only [rangeCount, placement]
  exact hslots

/-- The slot of a handle that was issued is still there. -/
theorem Sound.lt_slotCount_run (h : r.Sound) {ops : List (Int × Op)} (member : k ∈ r.handles ops) :
    k.slot < (r.run ops).table.slotCount := by
  obtain ⟨earlier, now, op, later, rfl, issued⟩ := exists_issue member
  obtain ⟨⟨e, good⟩, -⟩ := ((h.run earlier).sound.turn now op).issued k issued
  have inside := SlotTable.lt_slotCount_of_issued? (SlotTable.checked_eq_ok_iff_issued?.1 good).2.1
  rw [run_append, Region.run]
  exact Nat.lt_of_lt_of_le inside (extends_run later)

theorem vacant_largestFit {id : Nat} (made : Region.largestFit id size = .ok r) :
    r.table.vacant = [] ∧ r.table.Parked := by
  unfold Region.largestFit at made
  split at made <;> cases made
  refine ⟨rfl, fun x e found => ?_⟩
  rw [find?_empty] at found
  cases found

theorem vacant_firstFit {id : Nat} (made : Region.firstFit id size = .ok r) :
    r.table.vacant = [] := by
  unfold Region.firstFit at made
  split at made <;> cases made
  rfl

/-- No run leaks a slot. With largest fit, the slots that are not live wait on the stack, each of
them once, and there are as many slots as payloads have ever been live at a time. With first fit
there are as many as ranges have ever been on the list. -/
theorem slots_recycled {id : Nat} (ops : List (Int × Op)) :
    (Region.largestFit id size = .ok r → (r.run ops).Recycling ∧
      (r.run ops).table.slotCount = r.peak (·.live.length) ops ∧
      ∀ k ∈ r.handles ops, k.slot < r.peak (·.live.length) ops) ∧
    (Region.firstFit id size = .ok r →
      (r.run ops).table.slotCount = r.peak rangeCount ops) := by
  constructor
  · intro made
    obtain ⟨sound, strategy, -, sizes, -⟩ := sound_largestFit made
    obtain ⟨full, parked⟩ := vacant_largestFit made
    have recycling (later : List (Int × Op)) := (sound.run later).sound.recycling
      ((sound.run later).strategy.trans strategy) ((sound.run later).sizes.trans sizes)
      (sound.parked_run strategy parked later)
    have balanced : r.Balanced (·.live.length) := fun later => (recycling later).2
    have hcount := balanced.slotCount_run full ops
    refine ⟨(recycling ops).1, hcount, fun k member => ?_⟩
    rw [← hcount]
    exact sound.lt_slotCount_run member
  · intro made
    obtain ⟨sound, strategy, -, sizes, -⟩ := sound_firstFit made
    have balanced : r.Balanced rangeCount := fun later =>
      (sound.run later).sound.rangeCount_add_vacant ((sound.run later).strategy.trans strategy)
        ((sound.run later).sizes.trans sizes)
    exact balanced.slotCount_run (vacant_firstFit made) ops

/-- A slot is released twice and taken once, and after a clear the lowest one is taken again. First
fit has cut its region three times by then. -/
theorem slots_recycled_cleared : ∃ r s ops, Region.largestFit 0 8 = .ok r ∧
    Region.firstFit 0 8 = .ok s ∧ (r.run ops).Recycling ∧ (r.run ops).table.vacant = [1] ∧
    (r.run ops).table.slotCount = r.peak (·.live.length) ops ∧
    r.peak (·.live.length) ops = 2 ∧ r.handles ops = [⟨0, 0, 0⟩, ⟨0, 1, 0⟩, ⟨0, 1, 1⟩, ⟨0, 0, 1⟩] ∧
    (s.run ops).table.slotCount = s.peak rangeCount ops ∧ s.peak rangeCount ops = 4 := by
  let ops : List (Int × Op) := [(0, .submit ⟨.payload [1, 2], .never, 0⟩),
    (1, .submit ⟨.reserved 3, .never, 0⟩), (2, .release ⟨0, 1, 0⟩), (3, .release ⟨0, 1, 0⟩),
    (4, .submit ⟨.payload [3], .never, 0⟩), (5, .update ⟨0, 0, 0⟩ [4]), (6, .clear),
    (7, .submit ⟨.payload [7], .never, 0⟩)]
  have made : Region.largestFit 0 8 = .ok _ := rfl
  have made' : Region.firstFit 0 8 = .ok _ := rfl
  obtain ⟨recycling, slots, -⟩ := (slots_recycled ops).1 made
  have slots' := (slots_recycled ops).2 made'
  exact ⟨_, _, ops, made, made', recycling, by decide +kernel, slots, by decide +kernel,
    by decide +kernel, slots', by decide +kernel⟩

end Region

end RegionStore
