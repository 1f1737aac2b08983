import RegionStore.Proofs.Sweeps

/-!
The ranking by use. It is a stable sort: what ranks equal keeps its order, and a shorter pick is the
beginning of a longer one.
-/
namespace RegionStore

variable {live live' : List Snapshot} {now : Int} {limit : Nat}

/-- What nobody has used ranks below all that has been used. -/
theorem Snapshot.rank_lt_of_unused {a b : Snapshot} (unused : a.lease.hits = 0)
    (used : b.lease.hits ≠ 0) : a.rank now < b.rank now := by
  apply lt_of_not_ge
  intro le
  exact hits_of_rank_le le used unused

/-- All payloads, the least used ones first. -/
def ranking (live : List Snapshot) (now : Int) : List Snapshot :=
  live.mergeSort (evictedBefore now)

theorem leastUsed_eq_take : leastUsed live now limit = (ranking live now).take limit := rfl

theorem ranking_perm (live : List Snapshot) (now : Int) : (ranking live now).Perm live :=
  live.mergeSort_perm _

theorem pairwise_ranking (live : List Snapshot) (now : Int) :
    (ranking live now).Pairwise fun a b => a.rank now ≤ b.rank now := by
  have sorted := pairwise_leastUsed live now live.length
  rw [leastUsed, List.take_of_length_le (by simp)] at sorted
  exact sorted.imp evictedBefore_iff.1

/-- Payloads of one rank stay in the order in which they came. -/
theorem filter_ranking (live : List Snapshot) (now : Int) (k : Nat ×ₗ Int ×ₗ Nat) :
    (ranking live now).filter (·.rank now = k) = live.filter (·.rank now = k) := by
  have level : (live.filter (·.rank now = k)).Pairwise fun a b => evictedBefore now a b = true := by
    apply List.pairwise_of_forall_mem_list
    intro a ha b hb
    rw [List.mem_filter, decide_eq_true_eq] at ha hb
    rw [evictedBefore_iff, ha.2, hb.2]
  have kept : (live.filter (·.rank now = k)).Sublist (ranking live now) := by
    apply List.sublist_mergeSort
    · exact fun _ _ _ => evictedBefore_trans
    · exact evictedBefore_total now
    · exact level
    · exact List.filter_sublist
  have inner := kept.filter (·.rank now = k)
  simp only [List.filter_filter, Bool.and_self] at inner
  apply Eq.symm
  apply inner.eq_of_length
  exact ((ranking_perm live now).filter _).length_eq.symm

/-- Where no two payloads rank equal, it does not matter in which order they come. -/
theorem ranking_congr (same : live'.Perm live) (distinct : (live.map (·.rank now)).Nodup) :
    ranking live' now = ranking live now := by
  have perm : (ranking live' now).Perm (ranking live now) :=
    (ranking_perm live' now).trans (same.trans (ranking_perm live now).symm)
  apply perm.eq_of_pairwise _ (pairwise_ranking live' now) (pairwise_ranking live now)
  intro a b ha hb ab ba
  apply List.inj_on_of_nodup_map distinct
  · exact same.subset ((ranking_perm live' now).subset ha)
  · exact (ranking_perm live now).subset hb
  · exact le_antisymm ab ba

/-- The picked payloads are so many of the live ones, in the order of their ranks. None of the
others ranks below a picked one, and none of them is unused if a picked one has been used. -/
structure Ranked (live : List Snapshot) (now : Int) (limit : Nat) (picked : List Snapshot) :
    Prop where
  length : picked.length = min limit live.length
  sorted : picked.Pairwise fun a b => a.rank now ≤ b.rank now
  stable : ∀ k, picked.filter (·.rank now = k) <+: live.filter (·.rank now = k)
  unusedFirst : picked.Pairwise fun a b => a.lease.hits ≠ 0 → b.lease.hits ≠ 0
  split : ∃ others, live.Perm (picked ++ others) ∧ ∀ a ∈ picked, ∀ b ∈ others,
    a.rank now ≤ b.rank now ∧ (a.lease.hits ≠ 0 → b.lease.hits ≠ 0)

theorem ranked_leastUsed (live : List Snapshot) (now : Int) (limit : Nat) :
    Ranked live now limit (leastUsed live now limit) := by
  have sorted := pairwise_ranking live now
  have parts := List.take_append_drop limit (ranking live now)
  rw [← parts, List.pairwise_append] at sorted
  obtain ⟨front, -, across⟩ := sorted
  refine ⟨length_leastUsed live now limit, front, fun k => ?_, ?_, (ranking live now).drop limit, ?_,
    fun a ha b hb => ?_⟩
  · rw [← filter_ranking live now k]
    exact (List.take_prefix limit _).filter _
  · exact front.imp Snapshot.hits_of_rank_le
  · rw [leastUsed_eq_take, parts]
    exact (ranking_perm live now).symm
  · have le := across a ha b hb
    exact ⟨le, Snapshot.hits_of_rank_le le⟩

/-- The least used payloads are the first ones of a stable ranking, by frequency of use, then by
age, then by place. Unused ones come first. One more pick adds to the picks there are, and the
order of the payloads matters for equal ranks only. -/
theorem leastUsed_ranks (live : List Snapshot) (now : Int) (limit : Nat) :
    Ranked live now limit (leastUsed live now limit) ∧
    (∀ a ∈ live, ∀ b ∈ live, a.lease.hits = 0 → b.lease.hits ≠ 0 → a.rank now < b.rank now) ∧
    leastUsed live now limit <+: leastUsed live now (limit + 1) ∧
    ∀ live', live'.Perm live → (live.map (·.rank now)).Nodup →
      leastUsed live' now limit = leastUsed live now limit := by
  refine ⟨ranked_leastUsed live now limit, fun a _ b _ => Snapshot.rank_lt_of_unused, ?_, ?_⟩
  · rw [leastUsed_eq_take, leastUsed_eq_take, List.take_isPrefix_take]
    exact Or.inl (Nat.le_succ limit)
  · intro live' same distinct
    rw [leastUsed_eq_take, leastUsed_eq_take, ranking_congr same distinct]

/-- One payload that nobody has used, one that was used three times, and one that was used as often
as can be counted and comes from the future: in whatever order they are, the first two are the ones
to go. -/
theorem leastUsed_ranks_shuffled : ∃ x y z : Snapshot,
    x.lease.hits = 0 ∧ y.lease.hits = 3 ∧ 50 < z.lease.createdAt ∧ [z, y, x].Perm [x, y, z] ∧
    ([x, y, z].map (·.rank 50)).Nodup ∧ leastUsed [z, y, x] 50 2 = [x, y] := by
  let x : Snapshot := ⟨⟨0, 0, 0⟩, 0, ⟨0, 2⟩, false, ⟨3, 40, .never, 0, 0, 0⟩⟩
  let y : Snapshot := ⟨⟨0, 1, 0⟩, 0, ⟨3, 7⟩, false, ⟨5, 20, .never, 3, 45, 0⟩⟩
  let z : Snapshot := ⟨⟨0, 2, 0⟩, 0, ⟨8, 9⟩, false, ⟨1, 90, .never, 18446744073709551615, 45, 0⟩⟩
  have ascending : [x, y, z].Pairwise fun a b => evictedBefore 50 a b = true := by decide
  have distinct : ([x, y, z].map (·.rank 50)).Nodup := by decide
  have shuffled : [z, y, x].Perm [x, y, z] := List.reverse_perm [x, y, z]
  have picked : leastUsed [x, y, z] 50 2 = [x, y] := by
    rw [leastUsed, List.mergeSort_of_pairwise ascending]
    rfl
  have same := (leastUsed_ranks [x, y, z] 50 2).2.2.2 [z, y, x] shuffled distinct
  exact ⟨x, y, z, rfl, rfl, by decide, shuffled, distinct, same.trans picked⟩

end RegionStore
