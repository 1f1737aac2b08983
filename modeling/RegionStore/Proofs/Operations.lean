import RegionStore.Proofs.Holdings

/-!
What each operation on a sound region does: to what is held, and to the generations of slots.
Every refusal is listed, and whatever the answer, the region stays sound.
-/
namespace RegionStore

/-- The bytes that a request leads to: its payload, or anything of the length it asks for. -/
def Content.Shows : Content → List UInt8 → Prop
  | payload bytes, shown => shown = bytes
  | reserved n, shown => shown.length = n

namespace Region

/-- The generation that handles to a slot have, while they are good. -/
def generationAt (r : Region) (slot : Nat) : UInt32 := r.table.generationAt slot

variable {r : Region} {k : Handle} {e : Entry}

/-! ### Access through a handle -/

theorem view_of_error {refusal : StoreError} (refused : r.table.checked k = .error refusal)
    (now : Int) (f : List UInt8 → α) : r.view now k f = (.error refusal, r) := by
  simp [view, locate, refused]

theorem edit_of_error {refusal : StoreError} (refused : r.table.checked k = .error refusal)
    (f : List UInt8 → List UInt8 × α) : r.edit k f = (.error refusal, r) := by
  simp [edit, locate, refused]

theorem update_of_error {refusal : StoreError} (refused : r.table.checked k = .error refusal)
    (now : Int) (bytes : List UInt8) :
    r.update now k bytes = (.error (if bytes.isEmpty then .emptyPayload else refusal), r) := by
  unfold update
  split
  · rfl
  · simp only [refused]

theorem release_of_error {refusal : StoreError} (refused : r.table.checked k = .error refusal) :
    r.release k =
      (if k.region = r.id then .ok 0 else .error (.unknownRegion k.region), r) := by
  by_cases own : k.region = r.id
  · rw [if_pos own, release_of_claim?_eq_none own]
    rw [SlotTable.claim?_eq_none_iff]
    intro e found
    rcases SlotTable.checked_eq_error_iff.1 refused with ⟨foreign, -⟩ | ⟨-, -, stale⟩
    · exact absurd own foreign
    · cases hfree : e.free with
      | true => simp [Entry.isCurrent, hfree]
      | false =>
        have := stale e (SlotTable.issued?_eq_some_iff.2 ⟨found, hfree⟩)
        simp [Entry.isCurrent, this]
  · rw [if_neg own, release, if_pos own]

namespace Sound

/-- A new lease or new bytes for what a handle names concern the holders of that handle only. -/
theorem relet (h : r.Sound) (checked : r.table.checked k = .ok e) {f : Entry → Entry}
    {segments : Array Segment} (still : (f e).isCurrent k.generation = true)
    (place : (f e).place = e.place) (fits : 1 ≤ (f e).lease.len ∧ (f e).lease.len ≤ e.span.size)
    (filled : r.placement.strategy = .firstFit → (f e).lease.len = e.span.size)
    (sizes : segments.toList.map (·.size) = r.sizes)
    (others : ∀ x e', x ≠ k.slot → r.table.issued? x = some e' →
      Segment.readAt segments e'.segment e'.span.start e'.lease.len = r.payload e') :
    r.Keeps { r with table := r.table.modify k.slot f, segments } ∧
      ({ r with table := r.table.modify k.slot f, segments } : Region).held =
        Function.update r.held k (some (f e,
          Segment.readAt segments e.segment e.span.start (f e).lease.len)) ∧
      ({ r with table := r.table.modify k.slot f, segments } : Region).generationAt =
        r.generationAt := by
  obtain ⟨own, issued, generation⟩ := SlotTable.checked_eq_ok_iff_issued?.1 checked
  obtain ⟨found, -⟩ := SlotTable.issued?_eq_some_iff.1 issued
  obtain ⟨still, generation'⟩ := Entry.isCurrent_iff.1 still
  have hspan : (f e).span = e.span := congrArg Prod.snd place
  have hsegment : (f e).segment = e.segment := congrArg Prod.fst place
  have hissued (x : Nat) : (r.table.modify k.slot f).issued? x =
      if x = k.slot then some (f e) else r.table.issued? x := by
    rw [SlotTable.issued?_modify found]
    simp [still]
  refine ⟨⟨⟨?_, ?_, ?_, fun hfirst => ?_, ?_⟩, rfl, rfl, sizes⟩, ?_, ?_⟩
  · change r.placement.Account (r.table.modify k.slot f) (segments.toList.map (·.size))
    rw [sizes]
    exact h.account.modify issued still place
  · change ∀ n ∈ segments.toList.map (·.size), _
    rw [sizes]
    exact h.admissible
  · refine SlotTable.forall_issued hissued h.leases ?_
    rintro _ ⟨⟩
    rw [hspan]
    exact fits
  · refine SlotTable.forall_issued hissued (h.filled hfirst) ?_
    rintro _ ⟨⟩
    rw [hspan]
    exact filled hfirst
  · change r.usage.used = .ofNat (r.table.modify k.slot f).issuedBytes
    rw [SlotTable.issuedBytes_congr (SlotTable.range?_modify issued still place)]
    exact h.used
  · refine held_eq_update rfl (fun x hx => (hissued x).trans (if_neg hx)) others
      (owner_of_checked checked) (fun e' he' => ?_) ?_
    · have he' := (hissued k.slot).symm.trans he'
      rw [if_pos rfl] at he'
      cases he'
      exact ⟨own, generation'⟩
    · rw [held_eq_some_iff, SlotTable.checked_eq_ok_iff_issued?, payload, hspan, hsegment]
      exact ⟨⟨own, (hissued k.slot).trans (if_pos rfl), generation'⟩, rfl⟩
  · funext x
    change (r.table.modify k.slot f).generationAt x = r.table.generationAt x
    rw [SlotTable.generationAt_modify found]
    split
    · next here => rw [here, SlotTable.generationAt_of_find? found, generation', generation]
    · rfl

/-- A payload is shown as it is. It counts as a hit, and nothing else changes. -/
theorem view (h : r.Sound) (checked : r.table.checked k = .ok e) (now : Int)
    (f : List UInt8 → α) :
    ∃ r', r.view now k f = (.ok (f (r.payload e)), r') ∧ r.Keeps r' ∧
      r'.held = Function.update r.held k (some (e.hit now, r.payload e)) ∧
      r'.generationAt = r.generationAt := by
  obtain ⟨own, issued, generation⟩ := SlotTable.checked_eq_ok_iff_issued?.1 checked
  obtain ⟨s, hs, located, accessible⟩ := h.locate checked
  have hlease := h.leases k.slot e issued
  have hview : s.view e k.generation = .ok (r.payload e) := by
    rw [Segment.view_eq_ok_iff, payload, Segment.readAt_of_getElem? hs]
    exact ⟨accessible _ hlease.2, rfl⟩
  refine ⟨{ r with table := r.table.modify k.slot (·.hit now) }, ?_,
    h.relet checked (f := (·.hit now)) ?_ rfl hlease
      (fun hfirst => h.filled hfirst k.slot e issued) rfl fun _ _ _ _ => rfl⟩
  · simp only [Region.view, located, hview]
  · exact Entry.isCurrent_iff.2 ⟨(SlotTable.issued?_eq_some_iff.1 issued).2, generation⟩

/-- A change that keeps the length shows in the payload and nowhere else. -/
theorem edit (h : r.Sound) (checked : r.table.checked k = .ok e)
    {f : List UInt8 → List UInt8 × α}
    (keeps : (f (r.payload e)).1.length = (r.payload e).length) :
    ∃ r', r.edit k f = (.ok (f (r.payload e)).2, r') ∧ r.Keeps r' ∧
      r'.held = Function.update r.held k (some (e, (f (r.payload e)).1)) ∧
      r'.generationAt = r.generationAt := by
  obtain ⟨own, issued, generation⟩ := SlotTable.checked_eq_ok_iff_issued?.1 checked
  obtain ⟨s, hs, located, accessible⟩ := h.locate checked
  have hlease := h.leases k.slot e issued
  have hlength := h.length_payload checked
  have hview : s.view e k.generation = .ok (r.payload e) := by
    rw [Segment.view_eq_ok_iff, payload, Segment.readAt_of_getElem? hs]
    exact ⟨accessible _ hlease.2, rfl⟩
  have hedit : s.edit e k.generation f =
      .ok ((f (r.payload e)).2, s.put e.span.start (f (r.payload e)).1) := by
    simp only [Segment.edit, hview, ← keeps, List.take_length]
  have hcurrent : e.isCurrent k.generation = true :=
    Entry.isCurrent_iff.2 ⟨(SlotTable.issued?_eq_some_iff.1 issued).2, generation⟩
  have hread := Segment.readAt_put hs e.span.start (f (r.payload e)).1
  have hrelet := h.relet checked (f := fun e => e) hcurrent rfl hlease
    (fun hfirst => h.filled hfirst k.slot e issued) (Segment.sizes_put hs (f (r.payload e)).1)
    fun x e' hx he' => h.payload_write issued he' hx hs (by omega)
  rw [SlotTable.modify_self, ← hlength, ← keeps, hread] at hrelet
  exact ⟨_, by simp only [Region.edit, located, hedit], hrelet⟩

/-- A payload that fits is replaced in place. -/
theorem overwrite (h : r.Sound) (checked : r.table.checked k = .ok e) {bytes : List UInt8}
    (positive : 1 ≤ bytes.length) (fits : bytes.length ≤ e.span.size)
    (inPlace : r.placement.strategy ≠ .firstFit) :
    ∃ r', r.overwrite k bytes = (.ok k, r') ∧ r.Keeps r' ∧
      r'.held = Function.update r.held k (some (e.resize bytes.length, bytes)) ∧
      r'.generationAt = r.generationAt := by
  obtain ⟨own, issued, generation⟩ := SlotTable.checked_eq_ok_iff_issued?.1 checked
  obtain ⟨s, hs, located, accessible⟩ := h.locate checked
  have hsmall := h.small issued
  have hmod : bytes.length % UInt32.size = bytes.length := Segment.mod_eq_self (by omega)
  have hcurrent : (e.resize bytes.length).isCurrent k.generation = true :=
    Entry.isCurrent_iff.2 ⟨(SlotTable.issued?_eq_some_iff.1 issued).2, generation⟩
  have hread := Segment.readAt_put hs e.span.start bytes
  have hlen : (e.resize bytes.length).lease.len = bytes.length := hmod
  have hrelet := h.relet checked (f := fun _ => e.resize bytes.length) hcurrent rfl
    (by rw [hlen]; exact ⟨positive, fits⟩) (fun hfirst => absurd hfirst inPlace)
    (Segment.sizes_put hs bytes) fun x e' hx he' => h.payload_write issued he' hx hs fits
  rw [hlen, hread] at hrelet
  refine ⟨_, ?_, hrelet⟩
  simp only [Region.overwrite, located, Segment.overwrite, accessible _ fits, if_pos]

end Sound

/-! ### Releasing and placing -/

theorem claim?_of_checked (checked : r.table.checked k = .ok e) :
    r.table.claim? k.slot k.generation =
      some (e, r.table.modify k.slot fun _ => e.invalidate) := by
  obtain ⟨-, found, current⟩ := SlotTable.checked_eq_ok_iff.1 checked
  exact SlotTable.claim?_eq_some_iff.2 ⟨found, current, rfl⟩

/-- Counters other than the byte count may change freely. -/
theorem Sound.retally (h : r.Sound) (usage : Usage) (used : usage.used = r.usage.used) :
    r.Keeps { r with usage } :=
  ⟨⟨h.account, h.admissible, h.leases, h.filled, used.trans h.used⟩, rfl, rfl, rfl⟩

/-- A range has been released: its handle names nothing any more, and its slot has moved on by
one generation. -/
structure Released (r : Region) (k : Handle) (e : Entry) (r' : Region) : Prop where
  answer : r.release k = (.ok e.span.size, r')
  keeps : r.Keeps r'
  held : r'.held = Function.update r.held k none
  issued : ∀ x, r'.table.issued? x = if x = k.slot then none else r.table.issued? x
  generations : r'.generationAt = Function.update r.generationAt k.slot (k.generation + 1)
  segments : r'.segments = r.segments
  bytes : e.span.size + r'.table.issuedBytes = r.table.issuedBytes

theorem Sound.release (h : r.Sound) (checked : r.table.checked k = .ok e) :
    ∃ r', Released r k e r' := by
  obtain ⟨own, issued, generation⟩ := SlotTable.checked_eq_ok_iff_issued?.1 checked
  obtain ⟨found, -⟩ := SlotTable.issued?_eq_some_iff.1 issued
  obtain ⟨t', p', hrelease, hstrategy, account, hregion, hfind⟩ := h.account.release issued
  have hissued (x : Nat) : t'.issued? x = if x = k.slot then none else r.table.issued? x := by
    rw [SlotTable.issued?, hfind]
    exact SlotTable.issued?_release issued x
  have hbytes := SlotTable.issuedBytes_of_released issued hissued
  refine ⟨{ r with table := t', placement := p', usage := r.usage.subUsed (.ofNat e.span.size) },
    ?_, ⟨⟨account, h.admissible, ?_, fun hfirst => ?_, ?_⟩, hregion, hstrategy, rfl⟩, ?_, hissued,
      ?_, rfl, hbytes⟩
  · rw [Region.release, if_neg (show ¬ k.region ≠ r.id from not_not_intro own)]
    simp only [claim?_of_checked checked, hrelease]
  · refine SlotTable.forall_issued hissued h.leases ?_
    rintro _ ⟨⟩
  · refine SlotTable.forall_issued hissued (h.filled (hstrategy ▸ hfirst)) ?_
    rintro _ ⟨⟩
  · change r.usage.used - .ofNat e.span.size = .ofNat t'.issuedBytes
    rw [h.used, ← hbytes, Nat.add_comm, UInt64.ofNat_add, UInt64.add_sub_cancel]
  · refine held_eq_update hregion (fun x hx => (hissued x).trans (if_neg hx))
      (fun _ _ _ _ => rfl) (owner_of_checked checked) (fun e' he' => ?_) ?_
    · have he' := (hissued k.slot).symm.trans he'
      rw [if_pos rfl] at he'
      cases he'
    · rw [held_eq_none_iff]
      refine ⟨.staleHandle, SlotTable.checked_eq_error_iff.2 (Or.inr ⟨?_, rfl, fun e' he' => ?_⟩)⟩
      · exact own.trans hregion.symm
      · have he' := (hissued k.slot).symm.trans he'
        rw [if_pos rfl] at he'
        cases he'
  · funext x
    change t'.generationAt x = _
    rw [SlotTable.generationAt, hfind]
    change (r.table.modify k.slot _).generationAt x = _
    rw [SlotTable.generationAt_modify found]
    split
    · next here => rw [here, Function.update_self, ← generation]; rfl
    · next elsewhere => rw [Function.update_of_ne elsewhere]; rfl

/-- A payload goes to the range of an entry, if that lies inside of its segment. -/
theorem fill_eq_ok {c : Content} {s : Segment} (found : r.segments[e.segment]? = some s)
    (fits : e.span.start + c.size ≤ s.size) :
    ∃ segments, r.fill e c = .ok segments ∧ segments.toList.map (·.size) = r.sizes ∧
      c.Shows (Segment.readAt segments e.segment e.span.start c.size) ∧
      ∀ j other n, (e.segment = j → other + n ≤ e.span.start ∨ e.span.start + c.size ≤ other) →
        Segment.readAt segments j other n = Segment.readAt r.segments j other n := by
  cases c with
  | payload bytes =>
    have hwrite : s.write? e.span.start bytes = some (s.put e.span.start bytes) := if_pos fits
    refine ⟨r.segments.modify e.segment fun _ => s.put e.span.start bytes, ?_,
      Segment.sizes_put found bytes, Segment.readAt_put found e.span.start bytes,
      fun j other n apart => Segment.readAt_put_of_apart found apart⟩
    simp only [fill, found, hwrite]
  | reserved n =>
    refine ⟨r.segments, rfl, rfl, ?_, fun _ _ _ _ => rfl⟩
    change (Segment.readAt r.segments e.segment e.span.start n).length = n
    rw [Segment.readAt_of_getElem? found, Segment.length_read]

/-- A request has been placed: a handle that named nothing now names what was asked for. -/
structure Placed (r : Region) (now : Int) (q : Request) (k : Handle) (r' : Region) : Prop where
  answer : r.place now q = (.ok k, r')
  positive : 1 ≤ q.size
  keeps : r.Keeps r'
  own : k.region = r.id
  idle : r.table.issued? k.slot = none
  generation : k.generation = r.generationAt k.slot
  generations : r'.generationAt = r.generationAt
  held : ∃ e bytes, r'.held = Function.update r.held k (some (e, bytes)) ∧
    q.content.Shows bytes ∧ e.lease = .issued q.size q.tag q.expiry now ∧
    q.size ≤ e.span.size ∧ (r.placement.strategy ≠ .slab → e.span.size = q.size)

theorem Sound.place (h : r.Sound) {q : Request} (positive : 1 ≤ q.size) {slot : Nat}
    {t' : SlotTable} {p' : Placement}
    (room : r.placement.reserve r.table q.size = some (slot, t', p')) (now : Int) :
    ∃ k r', Placed r now q k r' := by
  obtain ⟨hstrategy, ready, e, found, free, large, hexact, hissue⟩ :=
    h.account.reserve positive room
  have hissued := ready.issued?_issue found (f := (·.issue q.size q.tag q.expiry now)) rfl
  have account := hissue (·.issue q.size q.tag q.expiry now) rfl rfl
  have hhere := (hissued slot).trans (if_pos rfl)
  have hother (x : Nat) (hx : x ≠ slot) := (hissued x).trans (if_neg hx)
  -- the range that is issued lies inside of its segment, so the payload can be written there
  obtain ⟨s, hs, member, hlast, hsize⟩ := exists_segment account hhere
  change r.segments[e.segment]? = some s at hs
  change e.span.last < s.size at hlast
  change e.span.start + e.span.size = e.span.last + 1 at hsize
  obtain ⟨segments, hfill, hsizes, hshows, hframe⟩ :=
    fill_eq_ok (c := q.content) hs (by change e.span.start + q.size ≤ _; omega)
  have hsmall := (h.admissible s.size member).2
  have hlease : (e.issue q.size q.tag q.expiry now).lease = .issued q.size q.tag q.expiry now := by
    simp only [Entry.issue, Segment.mod_eq_self (show q.size ≤ Segment.maxSize by omega)]
  have hregion : (t'.modify slot (·.issue q.size q.tag q.expiry now)).region = r.id := ready.region
  refine ⟨⟨r.id, slot, e.generation⟩, {
    table := t'.modify slot (·.issue q.size q.tag q.expiry now), segments, placement := p'
    usage := r.usage.addUsed (.ofNat e.span.size) }, ?_, positive, ⟨⟨?_, ?_, ?_, fun hfirst => ?_,
      ?_⟩, hregion, hstrategy, hsizes⟩, rfl, ready.not_issued, ?_,
      ready.generationAt_issue found rfl, e.issue q.size q.tag q.expiry now,
      Segment.readAt segments e.segment e.span.start q.size, ?_, hshows, hlease, large, hexact⟩
  · simp only [Region.place, room, found, hfill]
  · change p'.Account (t'.modify slot _) (segments.toList.map (·.size))
    rw [hsizes]
    exact account
  · change ∀ n ∈ segments.toList.map (·.size), _
    rw [hsizes]
    exact h.admissible
  · refine SlotTable.forall_issued hissued h.leases ?_
    rintro _ ⟨⟩
    rw [hlease]
    exact ⟨positive, large⟩
  · have hfirst := hstrategy.symm.trans hfirst
    refine SlotTable.forall_issued hissued (h.filled hfirst) ?_
    rintro _ ⟨⟩
    rw [hlease]
    exact (hexact (by rw [hfirst]; decide)).symm
  · change r.usage.used + .ofNat e.span.size = .ofNat (t'.modify slot _).issuedBytes
    rw [h.used, ready.issuedBytes_issue found rfl, UInt64.ofNat_add]
    rfl
  · exact (SlotTable.generationAt_of_find? found).symm.trans (ready.generation slot)
  · refine held_eq_update hregion hother (fun x e' hx he' => hframe _ _ _ fun shared => ?_)
      (fun e' he' => ?_) (fun e' he' => ?_) ?_
    · have apart := account.apart hhere ((hother x hx).trans he') (Ne.symm hx) shared
      have hlease' := h.leases x e' he'
      have hspan' := Span.start_add_size (h.account.bounds he').1
      change e.span.Apart e'.span at apart
      change _ ∨ e.span.start + q.size ≤ _
      unfold Span.Apart at apart
      omega
    · rw [ready.not_issued] at he'
      cases he'
    · have he' := hhere.symm.trans he'
      cases he'
      exact ⟨rfl, rfl⟩
    · rw [held_eq_some_iff, SlotTable.checked_eq_ok_iff_issued?, payload, hlease]
      exact ⟨⟨hregion.symm, hhere, rfl⟩, rfl⟩

theorem Placed.fresh {r' : Region} {now : Int} {q : Request} (h : Placed r now q k r') :
    r.held k = none :=
  held_eq_none_of_not_issued h.idle

/-- A request is refused outright, or counted as a failure, or placed. -/
theorem Sound.submit (h : r.Sound) (now : Int) (q : Request) :
    (∃ refusal, q.refusal? r.maxRequest = some refusal ∧
        r.submit now q = (.error refusal, r)) ∨
      (q.refusal? r.maxRequest = none ∧ r.placement.reserve r.table q.size = none ∧
        r.submit now q =
          (.error (.outOfSpace q.size), { r with usage := r.usage.recordFailure })) ∨
      ∃ k r', r.submit now q = (.ok k, r') ∧ Placed r now q k r' := by
  cases hrefusal : q.refusal? r.maxRequest with
  | some refusal => exact Or.inl ⟨refusal, rfl, by simp only [Region.submit, hrefusal]⟩
  | none =>
    obtain ⟨positive, -⟩ := Request.refusal?_eq_none_iff.1 hrefusal
    have hsubmit : r.submit now q = r.place now q := by simp only [Region.submit, hrefusal]
    rw [hsubmit]
    cases hroom : r.placement.reserve r.table q.size with
    | none => exact Or.inr (Or.inl ⟨rfl, rfl, by simp only [Region.place, hroom]⟩)
    | some found =>
      obtain ⟨k, r', placed⟩ := h.place positive hroom now
      exact Or.inr (Or.inr ⟨k, r', placed.answer, placed⟩)

theorem Sound.placed_of_submit {now : Int} {q : Request} {r' : Region} (h : r.Sound)
    (answer : r.submit now q = (.ok k, r')) : Placed r now q k r' := by
  rcases h.submit now q with ⟨refusal, -, hsubmit⟩ | ⟨-, -, hsubmit⟩ | ⟨k', r'', hsubmit, placed⟩
  all_goals
    rw [hsubmit] at answer
    cases answer
  exact placed

/-- A failure for lack of room concerns the count of failures only. -/
theorem Sound.held_of_submit_error {now : Int} {q : Request} {refusal : StoreError}
    {failed : Region} (h : r.Sound) (answer : r.submit now q = (.error refusal, failed)) :
    failed.Sound ∧ failed.held = r.held := by
  rcases h.submit now q with ⟨refusal, -, hsubmit⟩ | ⟨-, -, hsubmit⟩ | ⟨k', r'', hsubmit, -⟩
  all_goals
    rw [hsubmit] at answer
    cases answer
  · exact ⟨h, rfl⟩
  · exact ⟨(h.retally r.usage.recordFailure rfl).sound, rfl⟩

/-- For first fit, taking a range back is all there is to a release. -/
theorem release_firstFit {order : List Nat} (placement : r.placement = .firstFit order)
    (checked : r.table.checked k = .ok e) : r.release k = (.ok e.span.size, { r with
      table := r.table.modify k.slot fun _ => e.invalidate
      usage := r.usage.subUsed (.ofNat e.span.size) }) := by
  have own : k.region = r.id := (SlotTable.checked_eq_ok_iff.1 checked).1
  rw [Region.release, if_neg (show ¬ k.region ≠ r.id from not_not_intro own)]
  simp only [claim?_of_checked checked, placement, Placement.release]

/-- An update in place: the handle names the new payload, with its lease otherwise as it was. -/
structure Overwritten (r : Region) (k : Handle) (e : Entry) (bytes : List UInt8) (r' : Region) :
    Prop where
  inPlace : r.placement.strategy ≠ .firstFit
  keeps : r.Keeps r'
  held : r'.held = Function.update r.held k (some (e.resize bytes.length, bytes))
  generations : r'.generationAt = r.generationAt

/-- First fit always finds room for a payload once a range that is large enough is released. -/
theorem Sound.replace (h : r.Sound) {order : List Nat} (placement : r.placement = .firstFit order)
    (checked : r.table.checked k = .ok e) {bytes : List UInt8} (positive : 1 ≤ bytes.length)
    (fits : bytes.length ≤ e.span.size) (now : Int) :
    ∃ r₁ k' r', Released r k e r₁ ∧ r.replace now k bytes = (.ok k', r') ∧
      Placed r₁ now ⟨.payload bytes, e.lease.expiry, e.lease.tag⟩ k' r' := by
  obtain ⟨r₁, released⟩ := h.release checked
  have hrelease := released.answer
  rw [release_firstFit placement checked] at hrelease
  cases hrelease
  -- the range that has just been released is on the list and large enough
  obtain ⟨-, issued, -⟩ := SlotTable.checked_eq_ok_iff_issued?.1 checked
  obtain ⟨found, -⟩ := SlotTable.issued?_eq_some_iff.1 issued
  have haccount := h.account
  simp only [placement] at haccount
  obtain ⟨size, -, account⟩ := haccount
  have hfound : (r.table.modify k.slot fun _ => e.invalidate).find? k.slot =
      some e.invalidate := by
    rw [SlotTable.find?_modify, if_pos rfl, found, Option.map_some]
  obtain ⟨⟨slot, order', t'⟩, room⟩ :=
    FirstFit.exists_reserve (account.mem_of_issued? issued) hfound rfl fits
  have hroom : r.placement.reserve (r.table.modify k.slot fun _ => e.invalidate) bytes.length =
      some (slot, t', .firstFit order') := by
    simp only [placement, Placement.reserve, room]
    rfl
  obtain ⟨k', r', placed⟩ := released.keeps.sound.place
    (q := ⟨.payload bytes, e.lease.expiry, e.lease.tag⟩) positive hroom now
  refine ⟨_, k', r', released, ?_, placed⟩
  simp only [Region.replace, claim?_of_checked checked]
  exact placed.answer

/-- A payload that fits can always be given to a handle: in place, or by first fit in a range of
its own once the old one is released. -/
theorem Sound.update (h : r.Sound) (checked : r.table.checked k = .ok e) {bytes : List UInt8}
    (positive : 1 ≤ bytes.length) (fits : bytes.length ≤ e.span.size) (now : Int) :
    (∃ r', r.update now k bytes = (.ok k, r') ∧ Overwritten r k e bytes r') ∨
      (r.placement.strategy = .firstFit ∧ ∃ r₁ k' r', Released r k e r₁ ∧
        r.update now k bytes = (.ok k', r') ∧
        Placed r₁ now ⟨.payload bytes, e.lease.expiry, e.lease.tag⟩ k' r') := by
  have hnonempty : bytes.isEmpty = false := by
    rw [List.isEmpty_eq_false_iff, ← List.length_pos_iff]
    omega
  have hlong : ¬ e.span.size < bytes.length := by omega
  -- only first fit moves a payload that fits where it is
  have hoverwrite : r.placement.strategy ≠ .firstFit →
      r.update now k bytes = r.overwrite k bytes → ∃ r', r.update now k bytes = (.ok k, r') ∧
        Overwritten r k e bytes r' := by
    intro inPlace hupdate
    obtain ⟨r', hoverwrite, keeps, held, generations⟩ := h.overwrite checked positive fits inPlace
    exact ⟨r', hupdate.trans hoverwrite, inPlace, keeps, held, generations⟩
  cases hplacement : r.placement with
  | firstFit order =>
    right
    refine ⟨rfl, ?_⟩
    have hupdate : r.update now k bytes = r.replace now k bytes := by
      simp only [Region.update, hnonempty, checked, if_neg hlong, hplacement]
      rfl
    rw [hupdate]
    exact h.replace hplacement checked positive fits now
  | largestFit free =>
    refine Or.inl (hoverwrite (by simp [hplacement, Placement.strategy]) ?_)
    simp only [Region.update, hnonempty, checked, if_neg hlong, hplacement]
    rfl
  | slab pools fallThrough =>
    refine Or.inl (hoverwrite (by simp [hplacement, Placement.strategy]) ?_)
    simp only [Region.update, hnonempty, checked, if_neg hlong, hplacement]
    rfl

theorem update_of_long (checked : r.table.checked k = .ok e) {bytes : List UInt8}
    (long : e.span.size < bytes.length) (now : Int) : r.update now k bytes =
      (.error (.capacityExceeded bytes.length e.span.size), r) := by
  have hnonempty : bytes.isEmpty = false := by
    rw [List.isEmpty_eq_false_iff, ← List.length_pos_iff]
    omega
  simp only [Region.update, hnonempty, checked, if_pos long]
  rfl

theorem update_of_empty (now : Int) (k : Handle) : r.update now k [] = (.error .emptyPayload, r) :=
  rfl

/-- Every update, whatever its arguments: refused with nothing changed, done in place, or done by a
release and a placement. -/
theorem Sound.update_cases (h : r.Sound) (now : Int) (k : Handle) (bytes : List UInt8) :
    (∃ refusal, r.update now k bytes = (.error refusal, r)) ∨
      ∃ e, r.table.checked k = .ok e ∧
        ((∃ r', r.update now k bytes = (.ok k, r') ∧ Overwritten r k e bytes r') ∨
          (r.placement.strategy = .firstFit ∧ ∃ r₁ k' r', Released r k e r₁ ∧
            r.update now k bytes = (.ok k', r') ∧
            Placed r₁ now ⟨.payload bytes, e.lease.expiry, e.lease.tag⟩ k' r')) := by
  cases checked : r.table.checked k with
  | error refusal => exact Or.inl ⟨_, update_of_error checked now bytes⟩
  | ok e =>
    cases bytes with
    | nil => exact Or.inl ⟨_, update_of_empty now k⟩
    | cons b rest =>
      by_cases fits : (b :: rest).length ≤ e.span.size
      · exact Or.inr ⟨e, rfl, h.update checked (by simp) fits now⟩
      · exact Or.inl ⟨_, update_of_long checked (Nat.lt_of_not_le fits) now⟩

/-- Clearing leaves nothing held, and every slot that exists moves on by one generation. -/
theorem Sound.clear (h : r.Sound) :
    r.Keeps r.clear ∧ (∀ x, r.clear.table.issued? x = none) ∧
      (∀ x, r.clear.generationAt x =
        if x < r.table.slotCount then r.generationAt x + 1 else r.generationAt x) := by
  obtain ⟨hstrategy, account, hregion, hissued, hgeneration⟩ := h.account.reset h.admissible
    r.capacity fun n => capacity_of_sizes
  exact ⟨⟨.of_idle account h.admissible hissued rfl, hregion, hstrategy, rfl⟩, hissued, hgeneration⟩

end Region

end RegionStore
