import RegionStore.Proofs.Runs

/-!
The free ranges of a region that places by largest fit. After any history they are the maximal
runs of bytes that no live range covers, so they depend on the live ranges alone.
-/
namespace RegionStore.Region

/-- The free ranges, in the order they are kept in. Only largest fit keeps them. -/
def freeRanges (r : Region) : List Span :=
  match r.placement with
  | .largestFit free => free.byOffset
  | .firstFit _ => []
  | .slab _ _ => []

/-- The ranges of what is live. -/
def liveRanges (r : Region) : List Span := r.live.map (·.span)

structure Coalesced (size : Nat) (r : Region) : Prop where
  ordered : r.freeRanges.Pairwise fun a b => a.last < b.start
  runs : ∀ s, s ∈ r.freeRanges ↔
    s.MaximalRun fun offset => offset < size ∧ ∀ live ∈ r.liveRanges, offset ∉ live
  inside : ∀ live ∈ r.liveRanges, live.start ≤ live.last ∧ live.last < size
  apart : r.liveRanges.Pairwise Span.Apart
  used : r.used = Span.total r.liveRanges
  check : r.check = .ok ()

variable {r : Region} {size : Nat}

theorem mem_liveRanges {s : Span} : s ∈ r.liveRanges ↔ ∃ slot, r.table.range? slot = some s := by
  rw [liveRanges, List.mem_map]
  constructor
  · rintro ⟨l, member, rfl⟩
    obtain ⟨slot, e, issued, rfl⟩ := SlotTable.mem_live_iff.1 member
    exact ⟨slot, SlotTable.range?_of_issued? issued⟩
  · rintro ⟨slot, range⟩
    obtain ⟨e, issued, rfl⟩ := SlotTable.range?_eq_some_iff.1 range
    exact ⟨_, SlotTable.mem_live_iff.2 ⟨slot, e, issued, rfl⟩, rfl⟩

/-- What is free are the bytes that no live range covers. -/
theorem covers_iff_not_live {free : FreeSpans} (account : free.Account r.table size) {offset : Nat} :
    free.Covers offset ↔ offset < size ∧ ∀ live ∈ r.liveRanges, offset ∉ live := by
  rw [account.covers]
  refine and_congr_right fun _ => ⟨fun none live hlive => ?_, fun none slot live range => ?_⟩
  · obtain ⟨slot, range⟩ := mem_liveRanges.1 hlive
    exact none slot live range
  · exact none live (mem_liveRanges.2 ⟨slot, range⟩)

theorem Sound.coalesced (h : r.Sound) (strategy : r.placement.strategy = .largestFit)
    (sizes : r.sizes = [size]) : Coalesced size r := by
  obtain ⟨free, placement, account⟩ := h.exists_largestFit strategy sizes
  have hfree : r.freeRanges = free.byOffset := by simp only [freeRanges, placement]
  have hbytes := account.bytes
  have hused := h.used_of_sizes sizes (by omega)
  refine ⟨?_, fun s => ?_, fun s hs => ?_, ?_, hused, ?_⟩
  · rw [hfree]
    exact account.valid.separate.imp fun hlt => by omega
  · rw [hfree, account.valid.mem_iff_maximalRun]
    exact Span.MaximalRun.congr fun offset => covers_iff_not_live account
  · obtain ⟨slot, range⟩ := mem_liveRanges.1 hs
    exact account.bounds slot s range
  · change (r.table.live.map (·.span)).Pairwise Span.Apart
    rw [SlotTable.live_eq_filterMap r.table (Nat.le_refl _), List.map_filterMap,
      List.pairwise_filterMap]
    refine List.nodup_range.imp fun {a b} distinct s hs s' hs' => ?_
    rw [Option.map_map] at hs hs'
    exact account.apart a b s s' hs hs' distinct
  · simp only [Region.check, placement, account.valid.check, hused, capacity_of_sizes sizes, hbytes]
    exact if_neg fun hne => hne rfl

/-- The free ranges follow from the live ones. -/
theorem Coalesced.freeRanges_congr {r' : Region} (h : Coalesced size r) (h' : Coalesced size r')
    (same : ∀ s, s ∈ r.liveRanges ↔ s ∈ r'.liveRanges) : r.freeRanges = r'.freeRanges := by
  have sorted : ∀ {r : Region}, Coalesced size r →
      r.freeRanges.Pairwise fun a b => a.start < b.start := fun hr =>
    hr.ordered.imp_of_mem fun ha _ hlt => by have := ((hr.runs _).1 ha).ordered; omega
  refine Span.eq_of_mem_iff (sorted h) (sorted h') fun s => ?_
  rw [h.runs, h'.runs]
  apply Span.MaximalRun.congr
  simp only [same, implies_true]

theorem Coalesced.freeRanges_of_idle (h : Coalesced size r) (positive : 1 ≤ size)
    (idle : r.live = []) : r.freeRanges = [⟨0, size - 1⟩] := by
  have hlive : r.liveRanges = [] := by rw [liveRanges, idle, List.map_nil]
  have hsorted : r.freeRanges.Pairwise fun a b => a.start < b.start :=
    h.ordered.imp_of_mem fun ha _ hlt => by have := ((h.runs _).1 ha).ordered; omega
  have hordered : ∀ s ∈ [(⟨0, size - 1⟩ : Span)], s.start ≤ s.last := by
    intro s hs
    rw [List.mem_singleton.1 hs]
    exact Nat.zero_le _
  refine Span.eq_of_mem_iff hsorted (List.pairwise_singleton _ _) fun s => ?_
  rw [h.runs, hlive, Span.mem_iff_maximalRun hordered (List.pairwise_singleton _ _)]
  apply Span.MaximalRun.congr
  intro offset
  simp only [List.mem_singleton, exists_eq_left, Span.mem_def]
  constructor
  · rintro ⟨hlt, -⟩
    omega
  · intro hle
    exact ⟨by omega, nofun⟩

/-- After any run the free ranges are the maximal runs of bytes that are not live, the live ranges
lie apart and inside the region, and the counts agree. Two regions of one size with the same live
ranges have the same free ranges, whatever happened in them before. -/
theorem freeRanges_canonical {id : Nat} (made : Region.largestFit id size = .ok r)
    (ops : List (Int × Op)) :
    Coalesced size (r.run ops) ∧
      (∀ id' r' ops', Region.largestFit id' size = .ok r' →
        (∀ s, s ∈ (r.run ops).liveRanges ↔ s ∈ (r'.run ops').liveRanges) →
        (r.run ops).freeRanges = (r'.run ops').freeRanges) ∧
      ((r.run ops).live = [] → (r.run ops).freeRanges = [⟨0, size - 1⟩]) := by
  have reached : ∀ id' r' ops', Region.largestFit id' size = .ok r' →
      Coalesced size (r'.run ops') := by
    intro id' r' ops' made'
    obtain ⟨sound, strategy, -, sizes, -⟩ := sound_largestFit made'
    have keeps := sound.run ops'
    exact keeps.sound.coalesced (keeps.strategy.trans strategy) (keeps.sizes.trans sizes)
  obtain ⟨sound, -, -, sizes, -⟩ := sound_largestFit made
  have hcoalesced := reached id r ops made
  refine ⟨hcoalesced, fun id' r' ops' made' same => ?_, fun idle => ?_⟩
  · exact hcoalesced.freeRanges_congr (reached id' r' ops' made') same
  · exact hcoalesced.freeRanges_of_idle (sound.admissible size (by rw [sizes]; simp)).1 idle

/-- Three ranges of a region, the middle one released: the bytes around it stay live. -/
theorem freeRanges_canonical_hole : ∃ r ops, Region.largestFit 0 8 = .ok r ∧
    Coalesced 8 (r.run ops) ∧ (r.run ops).freeRanges = [⟨2, 3⟩, ⟨6, 7⟩] := by
  refine ⟨_, [(0, .submit ⟨.payload [1, 2], .never, 0⟩), (1, .submit ⟨.reserved 2, .never, 0⟩),
    (2, .submit ⟨.payload [5, 6], .never, 0⟩), (3, .release ⟨0, 1, 0⟩)], rfl, ?_, by decide⟩
  exact (freeRanges_canonical (rfl : Region.largestFit 0 8 = .ok _) _).1

end RegionStore.Region
