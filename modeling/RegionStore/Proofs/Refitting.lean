import RegionStore.Proofs.LowestFit
import RegionStore.Proofs.Staleness

/-!
Updates by first fit. The old range comes free before room is looked for, so there is always room: in
that range, or in a lower one that is large enough.
-/
namespace RegionStore

/-- A piece after one range has come free. -/
def Piece.vacate (s : Span) (p : Piece) : Piece := if p.span = s then ⟨s, true⟩ else p

namespace FirstFit.Account

variable {order : List Nat} {t : SlotTable} {size slot : Nat} {e : Entry}

/-- A release frees one piece and leaves all others as they are. -/
theorem pieces_release (h : Account order t size) (member : slot ∈ order)
    (found : t.find? slot = some e) :
    pieces (t.modify slot fun _ => e.invalidate) order =
      (pieces t order).map (.vacate e.span) := by
  rw [pieces, pieces, List.map_filterMap]
  refine List.filterMap_congr fun x listed => ?_
  rw [SlotTable.find?_modify, Option.map_map]
  by_cases here : slot = x
  · subst here
    rw [if_pos rfl, found]
    simp [Piece.vacate, Entry.invalidate]
  · obtain ⟨e', found'⟩ := h.exists_find? listed
    have apart := h.apart listed member found' found (Ne.symm here)
    have ordered := (h.bounds member found).1
    have different : e'.span ≠ e.span := by
      intro same
      rw [same] at apart
      unfold Span.Apart at apart
      omega
    rw [if_neg here, found']
    simp [Piece.vacate, different]

end FirstFit.Account

namespace Region

/-- The pieces of a region, counting one range as free. -/
def vacated (r : Region) (s : Span) : List Piece := r.pieces.map (.vacate s)

/-- A handle has been given a new payload in a range of its own, which is the front of the lowest one
that is large enough and free once the old range is. Everybody else keeps what they have. -/
structure Refitted (r : Region) (k : Handle) (x : Snapshot) (bytes : List UInt8) (k' : Handle)
    (whole : Span) (r' : Region) : Prop where
  other : k' ≠ k
  stale : r'.Stale k
  fresh : ∃ refusal, r.info k' = .error refusal
  shown : ∀ t, (r'.get t k').1 = .ok bytes
  found : ∃ x', r'.info k' = .ok x' ∧ x'.span.start = whole.start ∧ x'.span.size = bytes.length
  vacant : ⟨whole, true⟩ ∈ r.vacated x.span
  large : bytes.length ≤ whole.size
  lowest : ∀ p ∈ r.vacated x.span, p.free = true → bytes.length ≤ p.span.size →
    whole.start ≤ p.span.start
  downward : whole.start ≤ x.span.start
  used : r'.used + x.span.size = r.used + bytes.length
  failures : r'.usage.failures = r.usage.failures
  others : ∀ j, j ≠ k → j ≠ k' →
    r'.info j = r.info j ∧ ∀ t, (r'.get t j).1 = (r.get t j).1

variable {r r₁ r' : Region} {k k' : Handle} {e : Entry} {bytes : List UInt8} {now : Int}
  {order : List Nat} {size : Nat}

/-- A release by first fit touches the table and the byte count only. -/
theorem Released.eq_firstFit (h : Released r k e r₁) (placement : r.placement = .firstFit order)
    (checked : r.table.checked k = .ok e) : r₁ = { r with
      table := r.table.modify k.slot fun _ => e.invalidate
      usage := r.usage.subUsed (.ofNat e.span.size) } :=
  congrArg Prod.snd (h.answer.symm.trans (release_firstFit placement checked))

theorem Released.pieces (h : Released r k e r₁) (account : FirstFit.Account order r.table size)
    (placement : r.placement = .firstFit order) (checked : r.table.checked k = .ok e) :
    r₁.pieces = r.vacated e.span := by
  obtain ⟨-, issued, -⟩ := SlotTable.checked_eq_ok_iff_issued?.1 checked
  obtain ⟨found, -⟩ := SlotTable.issued?_eq_some_iff.1 issued
  have same := h.eq_firstFit placement checked
  have table : r₁.table = r.table.modify k.slot fun _ => e.invalidate := by rw [same]
  have placement₁ : r₁.placement = .firstFit order := by rw [same, placement]
  rw [vacated, pieces_eq placement, pieces_eq placement₁, table]
  exact account.pieces_release (account.mem_of_issued? issued) found

theorem failures_place {q : Request} (answer : r.place now q = (.ok k, r')) :
    r'.usage.failures = r.usage.failures := by
  obtain ⟨slot, t, p, e, segments, -, -, -, -, rfl⟩ := place_eq_ok answer
  rfl

/-- The range of what is live is free once it is counted so. -/
theorem Pieced.mem_vacated (h : Pieced size r) (issued : r.table.issued? k.slot = some e) :
    (⟨e.span, true⟩ : Piece) ∈ r.vacated e.span := by
  have live : e.span ∈ r.liveRanges := mem_liveRanges.2 ⟨k.slot, SlotTable.range?_of_issued? issued⟩
  exact List.mem_map.2 ⟨_, (h.issued e.span).2 live, if_pos rfl⟩

/-- A handle that is released stays stale when something else is placed. -/
theorem Released.stale_place {q : Request} (released : Released r k e r₁)
    (placed : Placed r₁ now q k' r') (own : k.region = r.id) (other : k' ≠ k) : r'.Stale k := by
  apply stale_of_not_live (own.trans (released.keeps.trans placed.keeps).id.symm)
  obtain ⟨e', bytes', held, -⟩ := placed.held
  rw [live_iff_held, held, Function.update_of_ne (Ne.symm other), released.held,
    Function.update_self]
  exact fun good => good rfl

theorem Placed.get_payload {expiry : Expiry} {tag : UInt32}
    (placed : Placed r now ⟨.payload bytes, expiry, tag⟩ k r') (t : Int) :
    (r'.get t k).1 = .ok bytes := by
  obtain ⟨e, bytes', held, rfl, -⟩ := placed.held
  have here := congrFun held k
  rw [Function.update_self] at here
  exact placed.keeps.sound.get_of_held here t

/-- A payload that fits in the range of its handle is always given one. -/
theorem Regular.refit (h : r.Regular size) (strategy : r.placement.strategy = .firstFit)
    (sizes : r.sizes = [size]) {x : Snapshot} (live : r.info k = .ok x)
    (positive : 1 ≤ bytes.length) (fits : bytes.length ≤ x.span.size) (now : Int) :
    ∃ k' whole r', r.update now k bytes = (.ok k', r') ∧ Refitted r k x bytes k' whole r' := by
  obtain ⟨e, checked, rfl⟩ := info_eq_ok_iff.1 live
  obtain ⟨order, placement, account⟩ := h.sound.exists_firstFit strategy sizes
  have fits : bytes.length ≤ e.span.size := fits
  obtain ⟨-, r₁, k', r', released, answer, placed⟩ :=
    (h.sound.update checked positive fits now).resolve_left fun ⟨_, _, overwritten⟩ =>
      overwritten.inPlace strategy
  have regular₁ : r₁.Regular size := by
    have := h.step now (.release k)
    rwa [Region.step, released.answer] at this
  obtain ⟨own, issued, -⟩ := SlotTable.checked_eq_ok_iff_issued?.1 checked
  -- what is asked for is no larger than the region, since the old range is not
  have small : bytes.length ≤ size := by
    have bounds := account.bounds (account.mem_of_issued? issued)
      (SlotTable.issued?_eq_some_iff.1 issued).1
    have := Span.start_add_size bounds.1
    omega
  have submitted := submit_eq_place (q := ⟨.payload bytes, e.lease.expiry, e.lease.tag⟩) positive
    (Nat.le_trans small (Nat.le_of_eq regular₁.maxRequest.symm)) now
  obtain ⟨lower, whole, higher, carved⟩ :=
    (regular₁.firstFitting (q := ⟨.payload bytes, e.lease.expiry, e.lease.tag⟩)
      (released.keeps.strategy.trans strategy) (released.keeps.sizes.trans sizes) positive small
      now).placed k' r' (submitted.trans placed.answer)
  obtain ⟨-, dead⟩ := (Turn.replace checked released placed).issued k' rfl
  have other : k' ≠ k := by
    rintro rfl
    exact dead ⟨e, checked⟩
  have listed := carved.listed
  have lowest := carved.lowest
  rw [released.pieces account placement checked] at listed lowest
  obtain ⟨x', found, hspan, -⟩ := carved.joined.found
  have hspan : x'.span = .ofSize whole.start bytes.length := hspan
  refine ⟨k', whole, r', answer, other, released.stale_place placed own other, ?_,
    placed.get_payload, ⟨x', found, ?_, ?_⟩, ?_, carved.large, lowest,
    lowest _ ((h.sound.pieced strategy sizes).mem_vacated issued) rfl fits, ?_, ?_, ?_⟩
  · cases hinfo : r.info k' with
    | error refusal => exact ⟨refusal, rfl⟩
    | ok y => exact absurd (live_iff_mem.2 ⟨y, info_eq_ok_iff_mem_live.1 hinfo⟩) dead
  · rw [hspan]
    rfl
  · rw [hspan, Span.size_ofSize positive]
  · change _ ∈ r.vacated e.span
    rw [listed]
    exact List.mem_append_right _ List.mem_cons_self
  · have hused : r'.used = r₁.used + (Span.ofSize whole.start bytes.length).size :=
      carved.joined.used
    have hbytes := released.bytes
    rw [Span.size_ofSize positive, regular₁.used_eq] at hused
    rw [hused, h.used_eq]
    change r₁.table.issuedBytes + bytes.length + e.span.size = _
    omega
  · rw [failures_place placed.answer, released.eq_firstFit placement checked]
    rfl
  · intro j hj hj'
    obtain ⟨hinfo, hget⟩ := h.sound.answers_congr released.keeps
      ((congrFun released.held j).trans (Function.update_of_ne hj _ _))
    obtain ⟨hinfo', hget'⟩ := carved.joined.others j hj'
    exact ⟨hinfo'.trans hinfo, fun t => (hget' t).trans (hget t)⟩

/-- After any run, an update of a live payload by one that fits in its range succeeds. The new handle
names exactly as many bytes as were asked for, in the lowest range that is large enough and free with
the old one released; the old handle is stale, no failure is counted, and nobody else notices. -/
theorem update_refits {id : Nat} (made : Region.firstFit id size = .ok r) (ops : List (Int × Op))
    {x : Snapshot} (live : (r.run ops).info k = .ok x) (positive : 1 ≤ bytes.length)
    (fits : bytes.length ≤ x.span.size) (now : Int) :
    ∃ k' whole r', (r.run ops).update now k bytes = (.ok k', r') ∧
      Refitted (r.run ops) k x bytes k' whole r' := by
  obtain ⟨sound, strategy, -, sizes, -⟩ := sound_firstFit made
  have keeps := sound.run ops
  have regular := (New.firstFit made).regular_single sizes (by simp [strategy])
  exact (regular.run ops).refit (keeps.strategy.trans strategy) (keeps.sizes.trans sizes) live
    positive fits now

/-- Two bytes have come free at the front, and an update from four bytes to two moves down to them. -/
theorem update_refits_lower : ∃ r ops x k' whole r', Region.firstFit 0 10 = .ok r ∧
    (r.run ops).info ⟨0, 3, 0⟩ = .ok x ∧ x.span = ⟨3, 6⟩ ∧
    (r.run ops).update 5 ⟨0, 3, 0⟩ [8, 9] = (.ok k', r') ∧ whole.start = 0 ∧
    Refitted (r.run ops) ⟨0, 3, 0⟩ x [8, 9] k' whole r' := by
  let ops : List (Int × Op) := [(0, .submit ⟨.reserved 2, .never, 0⟩),
    (1, .submit ⟨.payload [7], .never, 0⟩), (2, .submit ⟨.payload [3, 4, 5, 6], .never, 0⟩),
    (3, .release ⟨0, 1, 0⟩)]
  let x : Snapshot := ⟨⟨0, 3, 0⟩, 0, ⟨3, 6⟩, false, .issued 4 0 .never 2⟩
  have made : Region.firstFit 0 10 = .ok _ := rfl
  have live : ∀ r, Region.firstFit 0 10 = .ok r → (r.run ops).info ⟨0, 3, 0⟩ = .ok x := by
    rintro r ⟨⟩
    decide
  have fits : ([8, 9] : List UInt8).length ≤ x.span.size := by decide
  obtain ⟨k', whole, r', answer, refitted⟩ :=
    update_refits made ops (live _ made) (by decide) fits 5
  have lowest := refitted.lowest ⟨⟨0, 1⟩, true⟩ (by decide) rfl (by decide)
  exact ⟨_, ops, x, k', whole, r', made, live _ made, rfl, answer, Nat.eq_zero_of_le_zero lowest,
    refitted⟩

end Region

end RegionStore
