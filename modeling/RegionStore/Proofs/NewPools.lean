import Mathlib.Data.List.Dedup
import RegionStore.Placement.SlotPool
import RegionStore.Proofs.Bytes

/-!
How pools are made: one for each distinct slot size, from the smallest size up. If one of them cannot
be had, none is made.
-/
namespace RegionStore

theorem Segment.invalidConfig_of_make {size : Nat} {refusal : StoreError}
    (refused : make size = .error refusal) : ∃ text, refusal = .invalidConfig text := by
  unfold make at refused
  split at refused
  · cases refused
    exact ⟨_, rfl⟩
  · split at refused
    · cases refused
      exact ⟨_, rfl⟩
    · cases refused

namespace SlotPool

variable {count budget firstSegment firstSlot size n : Nat} {sizes slotSizes : List Nat}
  {pools : List SlotPool} {refusal : StoreError}

/-- A pool with all of its slots free. -/
def fresh (count budget firstSegment firstSlot n : Nat) : SlotPool :=
  refill ⟨n, budget / n, count, firstSegment, firstSlot, .ofList []⟩

/-- Pools are laid out one after another, and each of them needs room for a slot in every segment. -/
theorem layOut_cons_eq_ok_iff :
    layOut count budget firstSegment firstSlot (n :: sizes) = .ok pools ↔
      0 < budget / n ∧ budget / n * n ≤ Segment.maxSize ∧ ∃ others,
        layOut count budget (firstSegment + count) (firstSlot + count * (budget / n)) sizes =
          .ok others ∧ pools = fresh count budget firstSegment firstSlot n :: others := by
  rw [layOut]
  dsimp only [segmentSize, slotCount]
  split
  · next none => exact iff_of_false nofun fun h => absurd none (Nat.ne_of_gt h.1)
  · next room =>
    have room : 0 < budget / n := Nat.pos_of_ne_zero room
    have positive := (Nat.div_pos_iff.1 room).1
    split
    · next refused =>
      refine iff_of_false nofun fun ⟨_, small, _⟩ => ?_
      have made : Segment.make (budget / n * n) = .ok _ :=
        Segment.make_eq_ok_iff.2 ⟨⟨Nat.mul_pos room positive, small⟩, rfl⟩
      rw [made] at refused
      cases refused
    · next made =>
      have small := (Segment.make_eq_ok_iff.1 made).1.2
      split
      · next others =>
        refine iff_of_false nofun fun ⟨_, _, _, hothers, _⟩ => ?_
        rw [hothers] at others
        cases others
      · next others hothers =>
        rw [Except.ok.injEq, eq_comm, hothers]
        constructor
        · exact fun heq => ⟨room, small, others, rfl, heq⟩
        · rintro ⟨-, -, _, ⟨⟩, heq⟩
          exact heq

/-- The pools in their order have the slot sizes in theirs, each of them as many slots in every
segment as there is room for. -/
theorem layOut_pools (made : layOut count budget firstSegment firstSlot sizes = .ok pools) :
    pools.map (·.slotSize) = sizes ∧ ∀ p ∈ pools, p.segmentCount = count ∧
      p.slotsPerSegment = budget / p.slotSize ∧ p.free = .ofList p.slots ∧
      0 < p.slotsPerSegment ∧ 1 ≤ p.segmentSize ∧ p.segmentSize ≤ Segment.maxSize := by
  induction sizes generalizing firstSegment firstSlot pools with
  | nil =>
    cases made
    exact ⟨rfl, nofun⟩
  | cons n larger ih =>
    obtain ⟨room, small, others, hothers, rfl⟩ := layOut_cons_eq_ok_iff.1 made
    obtain ⟨hsizes, hpools⟩ := ih hothers
    refine ⟨by rw [List.map_cons, hsizes]; rfl, fun p hp => ?_⟩
    rcases List.mem_cons.1 hp with rfl | hp
    · exact ⟨rfl, rfl, rfl, room, Nat.mul_pos room (Nat.div_pos_iff.1 room).1, small⟩
    · exact hpools p hp

theorem exists_layOut_iff :
    (∃ pools, layOut count budget firstSegment firstSlot sizes = .ok pools) ↔
      ∀ n ∈ sizes, 0 < budget / n ∧ budget / n * n ≤ Segment.maxSize := by
  induction sizes generalizing firstSegment firstSlot with
  | nil => exact iff_of_true ⟨[], rfl⟩ nofun
  | cons n larger ih =>
    simp only [layOut_cons_eq_ok_iff, List.forall_mem_cons, and_assoc]
    rw [← @ih (firstSegment + count) (firstSlot + count * (budget / n))]
    constructor
    · rintro ⟨pools, room, small, others, hothers, -⟩
      exact ⟨room, small, others, hothers⟩
    · rintro ⟨room, small, others, hothers⟩
      exact ⟨_, room, small, others, hothers, rfl⟩

theorem invalidConfig_of_layOut
    (refused : layOut count budget firstSegment firstSlot sizes = .error refusal) :
    ∃ text, refusal = .invalidConfig text := by
  induction sizes generalizing firstSegment firstSlot with
  | nil => cases refused
  | cons n larger ih =>
    unfold layOut at refused
    dsimp only at refused
    split at refused
    · cases refused
      exact ⟨_, rfl⟩
    · split at refused
      · next segment =>
        cases refused
        exact Segment.invalidConfig_of_make segment
      · split at refused
        · next others =>
          cases refused
          exact ih others
        · cases refused

/-- Duplicates do not count. -/
theorem length_ascending (slotSizes : List Nat) :
    (ascending slotSizes).length = slotSizes.dedup.length := by
  have hnodup : (ascending slotSizes).Nodup :=
    (pairwise_ascending slotSizes).imp fun hlt heq => Nat.ne_of_lt hlt heq
  refine List.Perm.length_eq ((List.perm_ext_iff_of_nodup hnodup slotSizes.nodup_dedup).2 fun n => ?_)
  rw [mem_ascending, List.mem_dedup]

/-- Bytes for each segment: the pools share a region evenly, and so do the segments of a pool. -/
def share (size : Nat) (slotSizes : List Nat) (count : Nat) : Nat :=
  size / slotSizes.dedup.length / count

theorem make_eq_layOut (listed : slotSizes ≠ []) (positive : 0 ∉ slotSizes) (some : 1 ≤ count) :
    make size slotSizes count =
      layOut count (share size slotSizes count) 0 0 (ascending slotSizes) := by
  have hpositive : 0 ∉ ascending slotSizes := fun zero => positive (mem_ascending.1 zero)
  rw [share, ← length_ascending]
  unfold make
  cases hsizes : ascending slotSizes with
  | nil =>
    obtain ⟨n, hn⟩ := List.exists_mem_of_ne_nil slotSizes listed
    rw [← mem_ascending, hsizes] at hn
    cases hn
  | cons smallest larger =>
    rw [hsizes, List.mem_cons, not_or] at hpositive
    simp only [if_neg (Ne.symm hpositive.1), if_neg (Nat.ne_of_gt some)]

/-- Pools are made of some positive sizes, in some segments each, if they can be laid out. -/
theorem make_eq_ok_iff : make size slotSizes count = .ok pools ↔
    (slotSizes ≠ [] ∧ 0 ∉ slotSizes ∧ 1 ≤ count) ∧
      layOut count (share size slotSizes count) 0 0 (ascending slotSizes) = .ok pools := by
  constructor
  · intro made
    have sane : slotSizes ≠ [] ∧ 0 ∉ slotSizes ∧ 1 ≤ count := by
      unfold make at made
      split at made
      · cases made
      · next smallest larger hsizes =>
        split at made
        · cases made
        · next positive =>
          split at made
          · cases made
          · next some =>
            have hsorted := pairwise_ascending slotSizes
            rw [hsizes] at hsorted
            refine ⟨?_, fun zero => ?_, Nat.pos_of_ne_zero some⟩
            · rintro rfl
              cases hsizes
            · rw [← mem_ascending, hsizes] at zero
              rcases List.mem_cons.1 zero with zero | member
              · exact positive zero.symm
              · exact absurd ((List.pairwise_cons.1 hsorted).1 0 member) (Nat.not_lt_zero _)
    rw [make_eq_layOut sane.1 sane.2.1 sane.2.2] at made
    exact ⟨sane, made⟩
  · rintro ⟨⟨listed, positive, some⟩, made⟩
    rwa [make_eq_layOut listed positive some]

/-- What no pools are made of. -/
def Unfit (size : Nat) (slotSizes : List Nat) (count : Nat) : Prop :=
  slotSizes = [] ∨ 0 ∈ slotSizes ∨ count = 0 ∨
    (∃ n ∈ slotSizes, share size slotSizes count < n) ∨
    ∃ n ∈ slotSizes, Segment.maxSize < share size slotSizes count / n * n

theorem exists_make_iff :
    (∃ pools, make size slotSizes count = .ok pools) ↔ ¬ Unfit size slotSizes count := by
  simp only [make_eq_ok_iff, exists_and_left, exists_layOut_iff, mem_ascending, Nat.div_pos_iff,
    Unfit, not_or, not_exists, not_and, Nat.not_lt]
  constructor
  · rintro ⟨⟨listed, positive, some⟩, each⟩
    exact ⟨listed, positive, Nat.ne_of_gt some, fun n hn => (each n hn).1.2,
      fun n hn => (each n hn).2⟩
  · rintro ⟨listed, positive, some, fits, small⟩
    refine ⟨⟨listed, positive, Nat.pos_of_ne_zero some⟩, fun n hn => ⟨⟨?_, fits n hn⟩, small n hn⟩⟩
    exact Nat.pos_of_ne_zero fun zero => positive (zero ▸ hn)

theorem invalidConfig_of_make (refused : make size slotSizes count = .error refusal) :
    ∃ text, refusal = .invalidConfig text := by
  unfold make at refused
  split at refused
  · cases refused
    exact ⟨_, rfl⟩
  · split at refused
    · cases refused
      exact ⟨_, rfl⟩
    · split at refused
      · cases refused
        exact ⟨_, rfl⟩
      · exact invalidConfig_of_layOut refused

end SlotPool

end RegionStore
