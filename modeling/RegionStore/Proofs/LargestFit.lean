import RegionStore.Proofs.FreeRuns
import RegionStore.Proofs.Placements

/-!
Where a region that places by largest fit puts a payload: at the front of the longest run of bytes
that are not live. A single look at that run decides whether there is room anywhere.
-/
namespace RegionStore

namespace FreeSpans.Account

variable {free : FreeSpans} {t t' : SlotTable} {p : Placement} {size n slot : Nat} {e : Entry}

/-- What is set aside is the front of the longest free run. -/
theorem reserve_longest (h : free.Account t size) (positive : 1 ≤ n)
    (room : (Placement.largestFit free).reserve t n = some (slot, t', p))
    (found : t'.find? slot = some e) : ∃ run : Span,
      run.LongestRun free.Covers ∧ n ≤ run.size ∧ e.span = .ofSize run.start n := by
  obtain ⟨⟨span, free'⟩, taken, heq⟩ := Option.map_eq_some_iff.1 room
  obtain ⟨run, largest, large, rfl, -⟩ := h.valid.take positive taken
  cases heq
  obtain ⟨-, e', found', -, -, hspan⟩ := SlotTable.insert_readied h.vacant 0 (.ofSize run.start n)
  obtain rfl : e' = e := Option.some.inj (found'.symm.trans found)
  exact ⟨run, h.valid.largest_eq_some_iff.1 largest, large, hspan⟩

/-- Without room, no stretch of so many offsets is free. -/
theorem not_stretch_of_reserve_eq_none (h : free.Account t size) (positive : 1 ≤ n)
    (full : (Placement.largestFit free).reserve t n = none) (start : Nat) :
    ¬ ∀ offset, start ≤ offset → offset < start + n → free.Covers offset := by
  intro stretch
  have short := h.valid.take_eq_none_iff.1 (Option.map_eq_none_iff.1 full)
  have ordered : (Span.ofSize start n).start ≤ (Span.ofSize start n).last := by
    dsimp only [Span.ofSize]
    omega
  obtain ⟨whole, member, hfirst, hlast⟩ := h.valid.exists_mem_of_covers ordered
    fun offset inside => by
      rw [Span.mem_ofSize positive] at inside
      exact stretch offset inside.1 inside.2
  have hshort := short whole member
  simp only [Span.ofSize] at hfirst hlast
  unfold Span.size at hshort
  omega

end FreeSpans.Account

namespace Region

/-- A byte of a region of `size` bytes that no live range covers. -/
def Spare (r : Region) (size offset : Nat) : Prop :=
  offset < size ∧ ∀ live ∈ r.liveRanges, offset ∉ live

/-- A request gets the front of the longest spare run, if any stretch of spare bytes would do. -/
def LargestFitting (size : Nat) (r : Region) (now : Int) (q : Request) : Prop :=
  Fitting r now q
    (∃ start, ∀ offset, start ≤ offset → offset < start + q.size → r.Spare size offset)
    fun k r' => ∃ run : Span, run.LongestRun (r.Spare size) ∧ q.size ≤ run.size ∧
      Joined r k (.ofSize run.start q.size) r'

/-- The range that a request gets, if it gets one. -/
def landing? (r : Region) (now : Int) (q : Request) : Option Span :=
  match r.submit now q with
  | (.error _, _) => none
  | (.ok k, r') => (r'.info k).toOption.map (·.span)

variable {r r' : Region} {now now' : Int} {q q' : Request} {size : Nat}

/-- The front of a run is a stretch. -/
theorem stretch_of_longestRun {run : Span} (longest : run.LongestRun (r.Spare size)) {n : Nat}
    (large : n ≤ run.size) :
    ∀ offset, run.start ≤ offset → offset < run.start + n → r.Spare size offset := by
  intro offset lower upper
  have := Span.start_add_size longest.run.ordered
  exact longest.run.inside offset (Span.mem_def.2 (by omega))

theorem Regular.largestFitting (h : r.Regular size) (strategy : r.placement.strategy = .largestFit)
    (sizes : r.sizes = [size]) (positive : 1 ≤ q.size) (small : q.size ≤ size) (now : Int) :
    LargestFitting size r now q := by
  obtain ⟨free, placement, account⟩ := h.sound.exists_largestFit strategy sizes
  have covers : free.Covers = r.Spare size :=
    funext fun offset => propext (covers_iff_not_live account)
  refine h.fitting positive small (fun full => ?_) fun k r' placed regular' => ?_
  · rw [placement] at full
    rintro ⟨start, stretch⟩
    rw [← covers] at stretch
    exact account.not_stretch_of_reserve_eq_none positive full start stretch
  · obtain ⟨slot, t, p, e, room, found, -, -, joined⟩ := placed.joined h regular'
    rw [placement] at room
    obtain ⟨run, longest, large, hspan⟩ := account.reserve_longest positive room found
    rw [covers] at longest
    rw [hspan] at joined
    exact ⟨⟨run.start, stretch_of_longestRun longest large⟩, run, longest, large, joined⟩

namespace LargestFitting

theorem landing?_eq_some_iff (h : LargestFitting size r now q) {span : Span} :
    r.landing? now q = some span ↔ ∃ run : Span, run.LongestRun (r.Spare size) ∧
      q.size ≤ run.size ∧ span = .ofSize run.start q.size := by
  have landed : ∀ k r', r.submit now q = (.ok k, r') → ∃ run : Span,
      run.LongestRun (r.Spare size) ∧ q.size ≤ run.size ∧
      r.landing? now q = some (.ofSize run.start q.size) := by
    intro k r' answer
    obtain ⟨run, longest, large, joined⟩ := h.placed k r' answer
    obtain ⟨x, found, hspan, -⟩ := joined.found
    refine ⟨run, longest, large, ?_⟩
    simp only [landing?, answer, found, Except.toOption, Option.map_some, hspan]
  constructor
  · intro landing
    cases answer : r.submit now q with
    | mk outcome r' =>
      cases outcome with
      | error refusal =>
        simp only [landing?, answer] at landing
        cases landing
      | ok k =>
        obtain ⟨run, longest, large, hlanding⟩ := landed k r' answer
        exact ⟨run, longest, large, Option.some.inj (landing.symm.trans hlanding)⟩
  · rintro ⟨run, longest, large, rfl⟩
    obtain ⟨k, hk⟩ := h.succeeds.2 ⟨run.start, stretch_of_longestRun longest large⟩
    obtain ⟨run', longest', -, hlanding⟩ := landed k _ (Prod.ext hk rfl)
    rw [hlanding, longest'.unique longest]

/-- Which range a request gets follows from the live ranges. -/
theorem landing?_congr (h : LargestFitting size r now q) (h' : LargestFitting size r' now' q')
    (length : q'.size = q.size) (same : ∀ s, s ∈ r'.liveRanges ↔ s ∈ r.liveRanges) :
    r'.landing? now' q' = r.landing? now q := by
  have spare : r'.Spare size = r.Spare size := by
    funext offset
    simp only [Spare, same]
  ext span
  rw [h.landing?_eq_some_iff, h'.landing?_eq_some_iff, spare, length]

end LargestFitting

/-- After any run, a request that is no larger than the region gets the front of the longest run of
bytes that no live range covers, of several the lowest, and every other range stays. If no stretch
of such bytes is long enough, the failure is counted and nothing else changes. Two regions of one
size with the same live ranges answer alike, whatever happened in them before. -/
theorem largestFit_exact {id : Nat} (made : Region.largestFit id size = .ok r)
    (ops : List (Int × Op)) (positive : 1 ≤ q.size) (small : q.size ≤ size) (now : Int) :
    LargestFitting size (r.run ops) now q ∧
      ∀ id' r' ops' now' q', Region.largestFit id' size = .ok r' → q'.size = q.size →
        (∀ s, s ∈ (r'.run ops').liveRanges ↔ s ∈ (r.run ops).liveRanges) →
        (r'.run ops').landing? now' q' = (r.run ops).landing? now q := by
  have reached : ∀ id' r' ops' now' (q' : Request), Region.largestFit id' size = .ok r' →
      q'.size = q.size → LargestFitting size (r'.run ops') now' q' := by
    intro id' r' ops' now' q' made' length
    obtain ⟨sound, strategy, -, sizes, -⟩ := sound_largestFit made'
    have regular := (New.largestFit made').regular_single sizes (by simp [strategy])
    have keeps := sound.run ops'
    exact (regular.run ops').largestFitting (keeps.strategy.trans strategy)
      (keeps.sizes.trans sizes) (by omega) (by omega) now'
  have here := reached id r ops now q made rfl
  refine ⟨here, fun id' r' ops' now' q' made' length same => ?_⟩
  exact here.landing?_congr (reached id' r' ops' now' q' made' length) length same

/-- Two holes of one size: the lower one is used, and three bytes fit into neither. A region that
came by the same holes in another way does the same. -/
theorem largestFit_exact_holes : ∃ r ops ops', Region.largestFit 0 8 = .ok r ∧
    (r.run ops).liveRanges = [⟨0, 1⟩, ⟨4, 5⟩] ∧ (r.run ops).freeRanges = [⟨2, 3⟩, ⟨6, 7⟩] ∧
    LargestFitting 8 (r.run ops) 4 ⟨.payload [7, 8], .never, 0⟩ ∧
    (r.run ops).landing? 4 ⟨.payload [7, 8], .never, 0⟩ = some ⟨2, 3⟩ ∧
    (r.run ops).landing? 4 ⟨.reserved 3, .never, 0⟩ = none ∧
    (r.run ops').landing? 6 ⟨.reserved 2, .never, 1⟩ =
      (r.run ops).landing? 4 ⟨.payload [7, 8], .never, 0⟩ := by
  let ops : List (Int × Op) := [(0, .submit ⟨.payload [1, 2], .never, 0⟩),
    (1, .submit ⟨.reserved 2, .never, 0⟩), (2, .submit ⟨.payload [5, 6], .never, 0⟩),
    (3, .release ⟨0, 1, 0⟩)]
  let ops' : List (Int × Op) := [(0, .submit ⟨.reserved 4, .never, 0⟩),
    (1, .submit ⟨.reserved 2, .never, 0⟩), (2, .release ⟨0, 0, 0⟩),
    (3, .submit ⟨.reserved 2, .never, 0⟩)]
  have made : Region.largestFit 0 8 = .ok _ := rfl
  obtain ⟨fitting, alike⟩ := largestFit_exact (q := ⟨.payload [7, 8], .never, 0⟩) made ops
    (by decide) (by decide) 4
  refine ⟨_, ops, ops', made, by decide, by decide, fitting, by decide, by decide,
    alike 0 _ ops' 6 ⟨.reserved 2, .never, 1⟩ made rfl fun s => ?_⟩
  exact iff_of_eq (congrArg (s ∈ ·) (by decide))

end Region

end RegionStore
