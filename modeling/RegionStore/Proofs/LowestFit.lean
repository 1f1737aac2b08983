import RegionStore.Proofs.CutRanges
import RegionStore.Proofs.FreeRuns
import RegionStore.Proofs.Placements

/-!
Where a region that places by first fit puts a payload. Its list has the ranges in address order
whatever happened, so the first range on the list that is large enough is the lowest one.
-/
namespace RegionStore

/-- A range on the list of a region that places by first fit. -/
structure Piece where
  span : Span
  free : Bool
  deriving DecidableEq, Repr

namespace FirstFit

variable {order : List Nat} {t t' : SlotTable} {size n slot : Nat} {e : Entry}

/-- The pieces of the slots on a list, in the order of the list. -/
def pieces (t : SlotTable) (order : List Nat) : List Piece :=
  order.filterMap fun slot => (t.find? slot).map fun e => ⟨e.span, e.free⟩

theorem pieces_append (t : SlotTable) (lower higher : List Nat) :
    pieces t (lower ++ higher) = pieces t lower ++ pieces t higher := List.filterMap_append ..

theorem pieces_cons (found : t.find? slot = some e) (rest : List Nat) :
    pieces t (slot :: rest) = ⟨e.span, e.free⟩ :: pieces t rest := by
  simp [pieces, found]

theorem pieces_congr (same : ∀ slot ∈ order, t'.find? slot = t.find? slot) :
    pieces t' order = pieces t order :=
  List.filterMap_congr fun slot member => by rw [same slot member]

theorem map_span_pieces (t : SlotTable) (order : List Nat) :
    (pieces t order).map (·.span) = spans t order := by
  rw [pieces, List.map_filterMap]
  simp only [Option.map_map]
  rfl

theorem mem_pieces {p : Piece} : p ∈ pieces t order ↔
    ∃ slot ∈ order, ∃ e, t.find? slot = some e ∧ ⟨e.span, e.free⟩ = p := by
  simp only [pieces, List.mem_filterMap, Option.map_eq_some_iff]

/-- No slot on the list fits exactly if every free piece is too small. -/
theorem fits_eq_false_iff : (∀ slot ∈ order, fits t n slot = false) ↔
    ∀ p ∈ pieces t order, p.free = true → p.span.size < n := by
  constructor
  · intro none p member free
    obtain ⟨slot, listed, e, found, rfl⟩ := mem_pieces.1 member
    refine Nat.lt_of_not_le fun large => ?_
    have := none slot listed
    rw [fits_iff.2 ⟨e, found, free, large⟩] at this
    cases this
  · intro small slot listed
    rw [← Bool.not_eq_true, fits_iff]
    rintro ⟨e, found, free, large⟩
    have := small _ (mem_pieces.2 ⟨slot, listed, e, found, rfl⟩) free
    exact absurd large (Nat.not_le_of_lt this)

namespace Account

variable {lower higher : List Nat} {whole : Nat} {f : Entry → Entry}

/-- A range is issued as it is. -/
theorem pieces_issue (h : Account order t size) (listed : order = lower ++ whole :: higher)
    (found : t.find? whole = some e) (issued : ∀ e, (f e).free = false)
    (same : ∀ e, (f e).span = e.span) :
    pieces (t.modify whole f) order = pieces t lower ++ ⟨e.span, false⟩ :: pieces t higher := by
  obtain ⟨hlower, hhigher⟩ := h.not_mem_sides listed
  have hwhole : (t.modify whole f).find? whole = some (f e) := by
    rw [SlotTable.find?_modify, if_pos rfl, found, Option.map_some]
  have hkeep : ∀ list : List Nat, whole ∉ list → pieces (t.modify whole f) list = pieces t list :=
    fun list apart => pieces_congr fun x hx => by
      rw [SlotTable.find?_modify, if_neg (ne_of_mem_of_not_mem hx apart).symm]
  rw [listed, pieces_append, pieces_cons hwhole, hkeep lower hlower, hkeep higher hhigher, issued,
    same]

/-- The front of a range is issued, and the rest follows it on the list. -/
theorem pieces_cutFront (h : Account order t size) (listed : order = lower ++ whole :: higher)
    (found : t.find? whole = some e) (issued : ∀ e, (f e).free = false)
    (same : ∀ e, (f e).span = e.span) :
    pieces ((cutFront t whole e n).modify (t.insert 0 (.ofSize e.span.start n)).1 f)
        (lower ++ (t.insert 0 (.ofSize e.span.start n)).1 :: whole :: higher) =
      pieces t lower ++ ⟨.ofSize e.span.start n, false⟩ ::
        ⟨⟨e.span.start + n, e.span.last⟩, e.free⟩ :: pieces t higher := by
  obtain ⟨hlower, hhigher⟩ := h.not_mem_sides listed
  have member : whole ∈ order := by rw [listed]; simp
  have hfresh := h.insert_fresh 0 (.ofSize e.span.start n)
  obtain ⟨⟨front, hfront, -, hspan⟩, hrest, hothers⟩ := h.find?_cutFront (n := n) member found
  generalize (t.insert 0 (.ofSize e.span.start n)).1 = fresh at *
  have hissued : ((cutFront t whole e n).modify fresh f).find? fresh = some (f front) := by
    rw [SlotTable.find?_modify, if_pos rfl, hfront, Option.map_some]
  have hwhole : ((cutFront t whole e n).modify fresh f).find? whole =
      some (e.move 0 ⟨e.span.start + n, e.span.last⟩) := by
    rw [SlotTable.find?_modify, if_neg (ne_of_mem_of_not_mem member hfresh).symm, hrest]
  have hkeep : ∀ list : List Nat, (∀ x ∈ list, x ∈ order) → whole ∉ list →
      pieces ((cutFront t whole e n).modify fresh f) list = pieces t list := fun list sub apart =>
    pieces_congr fun x hx => by
      rw [SlotTable.find?_modify, if_neg (ne_of_mem_of_not_mem (sub x hx) hfresh).symm,
        hothers x (sub x hx) (ne_of_mem_of_not_mem hx apart)]
  rw [pieces_append, pieces_cons hissued, pieces_cons hwhole,
    hkeep lower (fun x hx => by simp [listed, hx]) hlower,
    hkeep higher (fun x hx => by simp [listed, hx]) hhigher, issued, same, hspan]
  rfl

/-- What is set aside, told by the pieces: the front of the first free one that is large enough. It
is issued whole, or what is left of it follows as a free piece. -/
theorem reserve_pieces (h : Account order t size) {order' : List Nat}
    (placed : FirstFit.reserve order t n = some (slot, order', t')) (found : t'.find? slot = some e)
    (issued : ∀ e, (f e).free = false) (same : ∀ e, (f e).span = e.span) :
    ∃ lower whole higher, pieces t order = lower ++ ⟨whole, true⟩ :: higher ∧
      n ≤ whole.size ∧ (∀ p ∈ lower, p.free = true → p.span.size < n) ∧
      e.span = .ofSize whole.start n ∧
      ((whole.size = n ∧ pieces (t'.modify slot f) order' = lower ++ ⟨whole, false⟩ :: higher) ∨
        (n < whole.size ∧ pieces (t'.modify slot f) order' =
          lower ++ ⟨.ofSize whole.start n, false⟩ ::
            ⟨⟨whole.start + n, whole.last⟩, true⟩ :: higher)) := by
  obtain ⟨lower, whole, higher, e₀, listed, small, found₀, free, hcase⟩ := h.reserve_cases placed
  have member : whole ∈ order := by rw [listed]; simp
  have hpieces : pieces t order = pieces t lower ++ ⟨e₀.span, true⟩ :: pieces t higher := by
    rw [listed, pieces_append, pieces_cons found₀, free]
  rcases hcase with ⟨hsize, hslot, hlist, hkept⟩ | ⟨larger, hslot, hlist, hmoved⟩
  · subst hslot hlist hkept
    obtain rfl : e₀ = e := Option.some.inj (found₀.symm.trans found)
    have hspan : e₀.span = .ofSize e₀.span.start n := by
      rw [← hsize, Span.ofSize_start_size (h.bounds member found).1]
    exact ⟨pieces t' lower, e₀.span, pieces t' higher, hpieces, Nat.le_of_eq hsize.symm,
      fits_eq_false_iff.1 small, hspan, Or.inl ⟨hsize, h.pieces_issue listed found issued same⟩⟩
  · have hcut := h.pieces_cutFront (n := n) listed found₀ issued same
    obtain ⟨⟨front, hfront, -, hspan⟩, -⟩ := h.find?_cutFront (n := n) member found₀
    rw [← hslot, free] at hcut
    rw [← hslot] at hfront
    subst hlist hmoved
    obtain rfl : front = e := Option.some.inj (hfront.symm.trans found)
    exact ⟨pieces t lower, e₀.span, pieces t higher, hpieces, Nat.le_of_lt larger,
      fits_eq_false_iff.1 small, hspan, Or.inr ⟨larger, hcut⟩⟩

end Account

end FirstFit

namespace Region

/-- The pieces of a region, in the order of its list. Only first fit keeps one. -/
def pieces (r : Region) : List Piece :=
  match r.placement with
  | .firstFit order => FirstFit.pieces r.table order
  | .largestFit _ => []
  | .slab _ _ => []

/-- Number of ranges on the list, issued or free. -/
def rangeCount (r : Region) : Nat :=
  match r.placement with
  | .firstFit order => order.length
  | .largestFit _ => 0
  | .slab _ _ => 0

/-- The pieces tile the region in address order, and the ones that are not free are live. -/
structure Pieced (size : Nat) (r : Region) : Prop where
  tiles : Span.Tiles 0 (r.pieces.map (·.span)) size
  counted : r.pieces.length = r.rangeCount
  issued : ∀ s, ⟨s, false⟩ ∈ r.pieces ↔ s ∈ r.liveRanges

/-- The front of the lowest free piece that is large enough has been issued. What is left of it, if
anything is, follows as a free piece, and all other pieces are as they were. -/
structure Carved (r : Region) (n : Nat) (k : Handle) (lower : List Piece) (whole : Span)
    (higher : List Piece) (r' : Region) : Prop where
  listed : r.pieces = lower ++ ⟨whole, true⟩ :: higher
  large : n ≤ whole.size
  lowest : ∀ p ∈ r.pieces, p.free = true → n ≤ p.span.size → whole.start ≤ p.span.start
  joined : Joined r k (.ofSize whole.start n) r'
  exactly : whole.size = n →
    r'.pieces = lower ++ ⟨whole, false⟩ :: higher ∧ r'.rangeCount = r.rangeCount
  cut : n < whole.size →
    r'.pieces = lower ++ ⟨.ofSize whole.start n, false⟩ ::
      ⟨⟨whole.start + n, whole.last⟩, true⟩ :: higher ∧
    r'.rangeCount = r.rangeCount + 1

/-- A request gets the front of the lowest free piece that is large enough, if there is one. -/
def FirstFitting (r : Region) (now : Int) (q : Request) : Prop :=
  Fitting r now q (∃ p ∈ r.pieces, p.free = true ∧ q.size ≤ p.span.size)
    fun k r' => ∃ lower whole higher, Carved r q.size k lower whole higher r'

variable {r r' : Region} {now : Int} {q : Request} {size : Nat} {order : List Nat} {k : Handle}

theorem pieces_eq (placement : r.placement = .firstFit order) :
    r.pieces = FirstFit.pieces r.table order := by
  simp only [pieces, placement]

theorem Sound.pieced (h : r.Sound) (strategy : r.placement.strategy = .firstFit)
    (sizes : r.sizes = [size]) : Pieced size r := by
  obtain ⟨order, placement, account⟩ := h.exists_firstFit strategy sizes
  have hspans := FirstFit.map_span_pieces r.table order
  refine ⟨?_, ?_, fun s => ?_⟩
  · rw [pieces_eq placement, hspans]
    exact account.tiles
  · have hlength := congrArg List.length hspans
    rw [List.length_map, account.length_spans] at hlength
    rw [pieces_eq placement, hlength]
    simp only [rangeCount, placement]
  · rw [pieces_eq placement, FirstFit.mem_pieces, mem_liveRanges]
    simp only [SlotTable.range?_eq_some_iff, SlotTable.issued?_eq_some_iff, Piece.mk.injEq]
    constructor
    · rintro ⟨slot, -, e, found, span, issued⟩
      exact ⟨slot, e, ⟨found, issued⟩, span⟩
    · rintro ⟨slot, e, ⟨found, issued⟩, span⟩
      have listed := account.mem_of_issued? (SlotTable.issued?_eq_some_iff.2 ⟨found, issued⟩)
      exact ⟨slot, listed, e, found, span, issued⟩

/-- A piece that comes first among those that are large enough is the lowest of them. -/
theorem Pieced.lowest (h : Pieced size r) {lower higher : List Piece} {whole : Span} {n : Nat}
    (listed : r.pieces = lower ++ ⟨whole, true⟩ :: higher)
    (small : ∀ p ∈ lower, p.free = true → p.span.size < n) :
    ∀ p ∈ r.pieces, p.free = true → n ≤ p.span.size → whole.start ≤ p.span.start := by
  intro p member free large
  rw [listed] at member
  rcases List.mem_append.1 member with before | rest
  · have := small p before free
    omega
  · rcases List.mem_cons.1 rest with rfl | after
    · exact Nat.le_refl _
    · have hordered := (h.tiles.bounds (s := whole) (by simp [listed])).2.1
      have hpairs := h.tiles.pairwise
      rw [listed, List.pairwise_map] at hpairs
      have hlt := (List.pairwise_cons.1 (List.pairwise_append.1 hpairs).2.1).1 p after
      dsimp only at hlt
      omega

theorem Regular.firstFitting (h : r.Regular size) (strategy : r.placement.strategy = .firstFit)
    (sizes : r.sizes = [size]) (positive : 1 ≤ q.size) (small : q.size ≤ size) (now : Int) :
    FirstFitting r now q := by
  obtain ⟨order, placement, account⟩ := h.sound.exists_firstFit strategy sizes
  have pieced := h.sound.pieced strategy sizes
  refine h.fitting positive small (fun full => ?_) fun k r' placed regular' => ?_
  · rw [placement] at full
    have short := FirstFit.fits_eq_false_iff.1
      (FirstFit.reserve_eq_none_iff.1 (Option.map_eq_none_iff.1 full))
    rintro ⟨p, member, free, large⟩
    rw [pieces_eq placement] at member
    exact absurd large (Nat.not_le_of_lt (short p member free))
  · obtain ⟨slot, t, p, e, room, found, table, placement', joined⟩ := placed.joined h regular'
    rw [placement] at room
    obtain ⟨⟨slot, order', t⟩, reserved, heq⟩ := Option.map_eq_some_iff.1 room
    cases heq
    have pieced' := regular'.sound.pieced (placed.keeps.strategy.trans strategy)
      (placed.keeps.sizes.trans sizes)
    obtain ⟨lower, whole, higher, listed, large, before, hspan, hcase⟩ :=
      account.reserve_pieces (f := (·.issue q.size q.tag q.expiry now)) reserved found
        (fun _ => rfl) fun _ => rfl
    rw [← table, ← pieces_eq placement'] at hcase
    rw [← pieces_eq placement] at listed
    rw [hspan] at joined
    refine ⟨⟨⟨whole, true⟩, by rw [listed]; simp, rfl, large⟩, lower, whole, higher, listed, large,
      pieced.lowest listed before, joined, fun exact_fit => ?_, fun larger => ?_⟩
    · obtain ⟨-, hpieces⟩ := hcase.resolve_right fun other => by omega
      refine ⟨hpieces, ?_⟩
      rw [← pieced.counted, ← pieced'.counted, hpieces, listed]
      simp
    · obtain ⟨-, hpieces⟩ := hcase.resolve_left fun other => by omega
      refine ⟨hpieces, ?_⟩
      rw [← pieced.counted, ← pieced'.counted, hpieces, listed]
      simp
      omega

/-- After any run the list has the ranges in address order, and a request that is no larger than the
region gets the front of the lowest free one that is large enough. The rest of that range stays
free right behind it, and every other range stays as it is. If no free range is large enough, the
failure is counted and nothing else changes. -/
theorem firstFit_exact {id : Nat} (made : Region.firstFit id size = .ok r)
    (ops : List (Int × Op)) (positive : 1 ≤ q.size) (small : q.size ≤ size) (now : Int) :
    Pieced size (r.run ops) ∧ FirstFitting (r.run ops) now q := by
  obtain ⟨sound, strategy, -, sizes, -⟩ := sound_firstFit made
  have keeps := sound.run ops
  have regular := (New.firstFit made).regular_single sizes (by simp [strategy])
  exact ⟨keeps.sound.pieced (keeps.strategy.trans strategy) (keeps.sizes.trans sizes),
    (regular.run ops).firstFitting (keeps.strategy.trans strategy) (keeps.sizes.trans sizes)
      positive small now⟩

/-- Two ranges have come back, the first of which is too small for three bytes. The second one is cut,
and its front goes to a slot of its own. A request for all of what is left finds it whole. -/
theorem firstFit_exact_cut : ∃ r ops, Region.firstFit 0 10 = .ok r ∧
    (r.run ops).pieces = [⟨⟨0, 1⟩, true⟩, ⟨⟨2, 2⟩, false⟩, ⟨⟨3, 6⟩, true⟩, ⟨⟨7, 9⟩, true⟩] ∧
    FirstFitting (r.run ops) 5 ⟨.reserved 3, .never, 0⟩ ∧
    ((r.run ops).step 5 (.submit ⟨.reserved 3, .never, 0⟩)).pieces =
      [⟨⟨0, 1⟩, true⟩, ⟨⟨2, 2⟩, false⟩, ⟨⟨3, 5⟩, false⟩, ⟨⟨6, 6⟩, true⟩, ⟨⟨7, 9⟩, true⟩] ∧
    FirstFitting (r.run ops) 5 ⟨.payload [1, 2, 3, 4], .never, 0⟩ ∧
    ((r.run ops).step 5 (.submit ⟨.payload [1, 2, 3, 4], .never, 0⟩)).pieces =
      [⟨⟨0, 1⟩, true⟩, ⟨⟨2, 2⟩, false⟩, ⟨⟨3, 6⟩, false⟩, ⟨⟨7, 9⟩, true⟩] := by
  let ops : List (Int × Op) := [(0, .submit ⟨.reserved 2, .never, 0⟩),
    (1, .submit ⟨.payload [7], .never, 0⟩), (2, .submit ⟨.reserved 4, .never, 0⟩),
    (3, .release ⟨0, 1, 0⟩), (4, .release ⟨0, 3, 0⟩)]
  have made : Region.firstFit 0 10 = .ok _ := rfl
  refine ⟨_, ops, made, by decide, ?_, by decide, ?_, by decide⟩
  · exact (firstFit_exact made ops (by decide) (by decide) 5).2
  · exact (firstFit_exact made ops (by decide) (by decide) 5).2

end Region

end RegionStore
