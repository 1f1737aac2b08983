import RegionStore.Proofs.Attempts
import RegionStore.Proofs.CheckedPlacements
import RegionStore.Proofs.Sweeps

/-!
Regions step by step. In a region in good order, while the clock gives 64-bit readings and not too
many placements fail, no step of an operation fails, and the next operation finds the same.
-/
namespace RegionStore

variable {α β : Type}

/-- A reading of a clock that counts from the epoch on in a signed 64-bit word. -/
def Millis.Reading (now : Int) : Prop := 0 ≤ now ∧ now ≤ latest

instance (now : Int) : Decidable (Millis.Reading now) := inferInstanceAs (Decidable (_ ∧ _))

theorem Millis.reading_zero : Reading 0 := by decide

namespace Usage

variable {u : Usage} {bytes : Nat}

theorem addUsed?_eq (room : u.used.toNat + bytes < UInt64.size) :
    u.addUsed? bytes = some (u.addUsed (.ofNat bytes)) := by
  have hused : UInt64.ofNat (u.used.toNat + bytes) = u.used + .ofNat bytes := by
    rw [UInt64.ofNat_add, UInt64.ofNat_toNat]
  simp only [addUsed?, word64?_of_lt room, Option.bind_eq_bind, Option.bind_some, hused]
  rfl

theorem subUsed?_eq (counted : bytes ≤ u.used.toNat) :
    u.subUsed? bytes = some (u.subUsed (.ofNat bytes)) := by
  have hused : UInt64.ofNat (u.used.toNat - bytes) = u.used - .ofNat bytes := by
    rw [UInt64.ofNat_sub counted, UInt64.ofNat_toNat]
  simp only [subUsed?, minus?_of_le counted, Option.bind_eq_bind, Option.bind_some, hused]
  rfl

theorem recordFailure?_eq (few : u.failures.toNat + 1 < UInt64.size)
    (threshold : u.threshold.toNat + 1 < UInt64.size) :
    u.recordFailure? = some u.recordFailure := by
  have hfailures : UInt64.ofNat (u.failures.toNat + 1) = u.failures + 1 := by
    rw [UInt64.ofNat_add, UInt64.ofNat_toNat]
    rfl
  simp only [recordFailure?, word64?_of_lt few, word64?_of_lt threshold, Option.bind_eq_bind,
    Option.bind_some, hfailures]
  rfl

end Usage

namespace Region

variable {r r' : Region} {k : Handle} {e : Entry} {q : Request} {most n : Nat} {now : Int}

/-- One if the answer is that there is no room. -/
def failed : Except StoreError β → Nat
  | .error refusal => if refusal.isExhaustion then 1 else 0
  | .ok _ => 0

/-- Payloads were placed at readings of the clock. -/
def Timely (r : Region) : Prop :=
  ∀ k e bytes, r.held k = some (e, bytes) → Millis.Reading e.lease.createdAt

theorem Timely.step (timely : r.Timely) (h : r.Regular most) (clock : Millis.Reading now)
    (op : Op) : (r.step now op).Timely := by
  intro k e bytes held
  rcases h.sound.held_step h.normal held with ⟨e₀, bytes₀, held₀, rfl⟩ | granted
  · exact timely k e₀ bytes₀ held₀
  · rw [granted.createdAt]
    exact clock

theorem Timely.aged (timely : r.Timely) (clock : Millis.Reading now) : Aged r.live now := by
  intro x member _
  obtain ⟨slot, e, issued, rfl⟩ := SlotTable.mem_live_iff.1 member
  obtain ⟨bytes, held⟩ := issued?_eq_some_iff_held.1 issued
  obtain ⟨hearly, hlate⟩ := timely _ e bytes held
  obtain ⟨hearly', hlate'⟩ := clock
  change Millis.earliest ≤ now - e.lease.createdAt ∧ now - e.lease.createdAt ≤ Millis.latest
  simp only [Millis.earliest, Millis.latest] at *
  omega

/-- What holds of a region in which at most `n` placements have failed, besides good order. -/
structure Strict (n : Nat) (r : Region) : Prop where
  tidy : r.placement.Tidy r.table
  timely : r.Timely
  threshold : r.usage.threshold.toNat + 1 < UInt64.size
  failures : r.usage.failures.toNat ≤ n

theorem Strict.mono (h : r.Strict n) {m : Nat} (le : n ≤ m) : r.Strict m :=
  ⟨h.tidy, h.timely, h.threshold, Nat.le_trans h.failures le⟩

/-- No step fails, and the region is left fit for the next operation. -/
def Agrees (n : Nat) (checked : Option (Outcome Region β)) (plain : Outcome Region β) : Prop :=
  checked = some plain ∧ plain.2.Strict n

theorem Strict.refused (h : r.Strict n) (refusal : StoreError) :
    Agrees n (some (.error refusal, r)) ((.error refusal, r) : Outcome Region β) := ⟨rfl, h⟩

/-! ### Access through a handle -/

/-- The segment of a good handle is there, with the whole range in reach. -/
theorem Sound.reach? (h : r.Sound) (checked : r.table.checked k = .ok e) :
    ∃ s, r.locate k = .ok (e, s) ∧ (∀ len ≤ e.span.size, r.reach? e len = some s) ∧
      ∀ len ≤ e.span.size, s.accessible e k.generation len = true := by
  obtain ⟨-, issued, -⟩ := SlotTable.checked_eq_ok_iff_issued?.1 checked
  obtain ⟨s, hs, located, accessible⟩ := h.locate checked
  obtain ⟨s', hs', member, hlast, hsize⟩ := exists_segment h.account issued
  have hsmall := (h.admissible s'.size member).2
  refine ⟨s, located, fun len hlen => ?_, accessible⟩
  have hend : e.span.start + len ≤ Segment.maxSize := by omega
  have hpast : e.span.last + 1 ≤ Segment.maxSize := by omega
  simp only [Region.reach?, hs, word64?_of_le hend, word64?_of_le hpast, Option.bind_eq_bind,
    Option.bind_some]

theorem Strict.view (h : r.Strict n) (regular : r.Regular most) (clock : Millis.Reading now)
    (k : Handle) (f : List UInt8 → α) : Agrees n (r.view? now k f) (r.view now k f) := by
  have htimely : (r.view now k f).2.Timely := by
    rw [view_eq_step]
    exact h.timely.step regular clock _
  cases checked : r.table.checked k with
  | error refusal =>
    rw [view_of_error checked]
    simp only [view?, checked]
    exact h.refused refusal
  | ok e =>
    obtain ⟨-, issued, -⟩ := SlotTable.checked_eq_ok_iff_issued?.1 checked
    obtain ⟨s, located, reach, -⟩ := regular.sound.reach? checked
    have hreach := reach _ (regular.sound.leases k.slot e issued).2
    have found := (SlotTable.issued?_eq_some_iff.1 issued).1
    simp only [Region.view, located] at htimely ⊢
    simp only [view?, checked, hreach, Option.bind_eq_bind, Option.bind_some]
    cases hview : s.view e k.generation with
    | error refusal => exact h.refused refusal
    | ok payload =>
      rw [hview] at htimely
      exact ⟨rfl, h.tidy.modify found rfl fun still => still, htimely, h.threshold, h.failures⟩

theorem Strict.edit (h : r.Strict n) (regular : r.Regular most) (k : Handle) (patch : Patch α) :
    Agrees n (r.edit? k patch.run) (r.edit k patch.run) := by
  have htimely : (r.edit k patch.run).2.Timely := by
    rw [r.edit_eq_step 0 k patch]
    exact h.timely.step regular Millis.reading_zero _
  cases checked : r.table.checked k with
  | error refusal =>
    rw [edit_of_error checked]
    simp only [edit?, checked]
    exact h.refused refusal
  | ok e =>
    obtain ⟨-, issued, -⟩ := SlotTable.checked_eq_ok_iff_issued?.1 checked
    obtain ⟨s, located, reach, -⟩ := regular.sound.reach? checked
    have hreach := reach _ (regular.sound.leases k.slot e issued).2
    simp only [Region.edit, located] at htimely ⊢
    simp only [edit?, checked, hreach, Option.bind_eq_bind, Option.bind_some]
    cases hedit : s.edit e k.generation patch.run with
    | error refusal => exact h.refused refusal
    | ok answer =>
      rw [hedit] at htimely
      exact ⟨rfl, h.tidy, htimely, h.threshold, h.failures⟩

/-! ### Releasing -/

theorem Regular.size_le_used (h : r.Regular most) {slot : Nat}
    (issued : r.table.issued? slot = some e) : e.span.size ≤ r.usage.used.toNat := by
  have hbytes := SlotTable.issuedBytes_of_released issued (SlotTable.issued?_release issued)
  have hused := h.used_eq
  rw [Region.used] at hused
  omega

theorem Strict.release (h : r.Strict n) (regular : r.Regular most) (k : Handle) :
    Agrees n (r.release? k) (r.release k) := by
  have htimely := h.timely.step regular Millis.reading_zero (.release k)
  have hsmall : ∀ size ∈ r.sizes, size ≤ Segment.maxSize :=
    fun size member => (regular.sound.admissible size member).2
  by_cases own : k.region = r.id
  · cases found : r.table.find? k.slot with
    | none =>
      have hstale : r.table.claim? k.slot k.generation = none := by
        rw [SlotTable.claim?_eq_none_iff, found]
        nofun
      rw [release_of_claim?_eq_none own hstale]
      simp only [Region.release?, if_neg (not_not_intro own), found]
      exact ⟨rfl, h⟩
    | some e =>
      have hbytes := Placement.Account.bytes? regular.sound.account h.tidy found
      simp only [Region.release?, if_neg (not_not_intro own), found, hbytes, Option.bind_eq_bind,
        Option.bind_some]
      cases claimed : e.claim? k.generation with
      | none =>
        have hstale : r.table.claim? k.slot k.generation = none := by
          simp only [SlotTable.claim?, found, claimed]
        rw [release_of_claim?_eq_none own hstale]
        exact ⟨rfl, h⟩
      | some e' =>
        obtain ⟨current, rfl⟩ := Entry.claim?_eq_some_iff.1 claimed
        have checked := SlotTable.checked_eq_ok_iff.2 ⟨own, found, current⟩
        obtain ⟨-, issued, -⟩ := SlotTable.checked_eq_ok_iff_issued?.1 checked
        obtain ⟨t', p', released, -⟩ := regular.sound.account.release issued
        have hrelease : r.release k = (.ok e.span.size, { r with
            table := t', placement := p', usage := r.usage.subUsed (.ofNat e.span.size) }) := by
          rw [Region.release, if_neg (not_not_intro own)]
          simp only [claim?_of_checked checked, released]
        have hcounted := regular.size_le_used issued
        rw [Region.step, hrelease] at htimely
        rw [hrelease]
        simp only [Placement.Account.release? regular.sound.account h.tidy hsmall issued released,
          Usage.subUsed?_eq hcounted, Option.bind_some]
        exact ⟨rfl, h.tidy.release found released, htimely, h.threshold, h.failures⟩
  · simp only [Region.release?, Region.release, if_pos own]
    exact h.refused _

/-- The bytes that a batch frees are added up to a total that stays in its word. -/
theorem Strict.releaseAll (h : r.Strict n) (regular : r.Regular most) (ks : List Handle)
    {total : Nat} (room : total + r.used < UInt64.size) :
    r.releaseAll? total ks =
        some ((r.releaseAll ks).1.map (total + ·), (r.releaseAll ks).2) ∧
      (r.releaseAll ks).2.Strict n := by
  induction ks generalizing r total with
  | nil => exact ⟨rfl, h⟩
  | cons k rest ih =>
    obtain ⟨hrelease, strict⟩ := h.release regular k
    have regular' := regular.step 0 (.release k)
    have hused := regular.used_release k
    rw [Region.step] at regular'
    simp only [Region.releaseAll?, Region.releaseAll, hrelease, Option.bind_eq_bind,
      Option.bind_some]
    generalize r.release k = first at strict regular' hused
    obtain ⟨refusal | freed, r₁⟩ := first
    · exact ⟨rfl, strict⟩
    · change r₁.used + freed = r.used at hused
      have htotal : total + freed < UInt64.size := by omega
      have hrest : total + freed + r₁.used < UInt64.size := by omega
      obtain ⟨hall, strict'⟩ := ih strict regular' hrest
      simp only [word64?_of_lt htotal, Option.bind_some, hall]
      generalize r₁.releaseAll rest = others at strict'
      obtain ⟨refusal | others, r₂⟩ := others
      · exact ⟨rfl, strict'⟩
      · simp only [Except.map, Nat.add_assoc]
        exact ⟨trivial, strict'⟩

/-- A region's own total starts at zero, so that it stays below the bytes in use. -/
theorem Strict.releaseAll_zero (h : r.Strict n) (regular : r.Regular most) (ks : List Handle) :
    Agrees n (r.releaseAll? 0 ks) (r.releaseAll ks) := by
  obtain ⟨hall, strict⟩ := h.releaseAll regular ks
    (show 0 + r.used < UInt64.size by rw [Nat.zero_add]; exact r.usage.used.toNat_lt_size)
  refine ⟨?_, strict⟩
  rw [hall]
  rcases r.releaseAll ks with ⟨refusal | freed, r'⟩
  · rfl
  · simp only [Except.map, Nat.zero_add]

theorem Strict.collectExpired (h : r.Strict n) (regular : r.Regular most) (batch : Nat)
    (now : Int) : Agrees n (r.collectExpired? batch now) (r.collectExpired batch now) := by
  simp only [Region.collectExpired?, SlotTable.live?_eq h.tidy.few, Option.bind_eq_bind,
    Option.bind_some]
  exact h.releaseAll_zero regular _

theorem Strict.collectLeastUsed (h : r.Strict n) (regular : r.Regular most)
    (clock : Millis.Reading now) (batch : Nat) :
    Agrees n (r.collectLeastUsed? batch now) (r.collectLeastUsed batch now) := by
  obtain ⟨hall, strict⟩ := h.releaseAll_zero regular
    ((leastUsed r.live now (evictionCount r.live.length batch)).map (·.handle))
  unfold Region.collectLeastUsed? Region.collectLeastUsed
  cases shortage : r.inShortage with
  | false => exact ⟨rfl, h⟩
  | true =>
    simp only [SlotTable.live?_eq h.tidy.few, Option.bind_eq_bind, Option.bind_some]
    change Agrees n (if r.live.isEmpty then _ else _) (if r.live.isEmpty then _ else _)
    by_cases empty : r.live.isEmpty = true
    · rw [if_pos empty, if_pos empty]
      exact ⟨rfl, h⟩
    · have haged : (guard (Aged r.table.live now) : Option Unit) = some () :=
        guard_of (h.timely.aged clock)
      rw [if_neg empty, if_neg empty]
      simp only [Region.live] at hall strict ⊢
      simp only [haged, hall, Option.bind_some]
      generalize r.releaseAll _ = swept at strict
      obtain ⟨refusal | freed, r'⟩ := swept
      · exact ⟨rfl, strict⟩
      · refine ⟨rfl, ?_⟩
        dsimp only
        split
        · exact ⟨strict.tidy, strict.timely, strict.threshold, Nat.zero_le _⟩
        · exact strict

/-! ### Placing -/

/-- A payload that fits in its segment is written there, at offsets that stay in their words. -/
theorem fill?_eq {c : Content} {s : Segment} (found : r.segments[e.segment]? = some s)
    (fits : e.span.start + c.size ≤ s.size) (small : s.size ≤ Segment.maxSize) :
    ∃ segments, r.fill e c = .ok segments ∧ r.fill? e c = some segments := by
  cases c with
  | reserved size => exact ⟨r.segments, rfl, rfl⟩
  | payload bytes =>
    have hwrite : s.write? e.span.start bytes = some (s.put e.span.start bytes) := if_pos fits
    have hend : e.span.start + bytes.length ≤ Segment.maxSize := Nat.le_trans fits small
    refine ⟨r.segments.modify e.segment fun _ => s.put e.span.start bytes, ?_, ?_⟩
    · simp only [fill, found, hwrite]
    · simp only [fill?, found, word64?_of_le hend, hwrite, Option.bind_eq_bind, Option.bind_some]

/-- What a region keeps does not depend on how often placements have failed in it. -/
theorem Strict.recordFailure (h : r.Strict n) :
    ({ r with usage := r.usage.recordFailure } : Region).Strict (n + 1) := by
  refine ⟨h.tidy, h.timely, h.threshold, ?_⟩
  have hfailures : r.usage.recordFailure.failures.toNat =
      (r.usage.failures.toNat + 1) % UInt64.size := UInt64.toNat_add _ _
  have hmod := Nat.mod_le (r.usage.failures.toNat + 1) UInt64.size
  have := h.failures
  change r.usage.recordFailure.failures.toNat ≤ n + 1
  omega

/-- Bytes that are issued in addition stay below the capacity, which is a word. -/
theorem Regular.used_add_lt (h : r.Regular most) (h' : r'.Regular most) {bytes : Nat}
    (more : r'.table.issuedBytes = r.table.issuedBytes + bytes) :
    r.usage.used.toNat + bytes < UInt64.size := by
  have hle := h'.sound.issuedBytes_le h'.laid
  have hcapacity := h'.word
  have hused := h.used_eq
  rw [Region.used] at hused
  omega

theorem Strict.place (h : r.Strict n) (regular : r.Regular most) (clock : Millis.Reading now)
    (positive : 1 ≤ q.size) (small : q.size ≤ r.maxRequest)
    (few : n + failed (r.place now q).1 < UInt64.size) :
    Agrees (n + failed (r.place now q).1) (r.place? now q) (r.place now q) := by
  have htimely := h.timely.step regular clock (.submit q)
  have regular' := regular.step now (.submit q)
  rw [Region.step, submit_eq_place positive small] at htimely regular'
  have hsizes : ∀ size ∈ r.sizes, size ≤ Segment.maxSize :=
    fun size member => (regular.sound.admissible size member).2
  have account := regular.sound.account
  cases room : r.placement.reserve r.table q.size with
  | none =>
    have hroom := Placement.Account.reserve?_of_none account h.tidy hsizes positive room
    have hplace : r.place now q =
        (.error (.outOfSpace q.size), { r with usage := r.usage.recordFailure }) := by
      simp only [Region.place, room]
    rw [hplace] at few ⊢
    have hfailures : r.usage.failures.toNat + 1 < UInt64.size := by
      have hone : n + 1 < UInt64.size := few
      have := h.failures
      omega
    simp only [place?, hroom, Usage.recordFailure?_eq hfailures h.threshold, Option.bind_eq_bind,
      Option.bind_some]
    exact ⟨rfl, h.recordFailure⟩
  | some reserved =>
    obtain ⟨slot, t', p'⟩ := reserved
    obtain ⟨-, ready, e, found, free, large, -, hissue⟩ := account.reserve positive room
    have hroom := Placement.Account.reserve?_of_some account h.tidy hsizes positive room found
    have hissued := ready.issued?_issue found (f := (·.issue q.size q.tag q.expiry now)) rfl slot
    obtain ⟨s, hs, member, hlast, hsize⟩ :=
      exists_segment (hissue _ rfl rfl) (hissued.trans (if_pos rfl))
    change r.segments[e.segment]? = some s at hs
    change e.span.last < s.size at hlast
    change e.span.start + e.span.size = e.span.last + 1 at hsize
    have hword := hsizes s.size member
    obtain ⟨segments, hfill, hfill?⟩ := fill?_eq (c := q.content) hs
      (by change e.span.start + q.size ≤ _; omega) hword
    have hplace : r.place now q = (.ok ⟨r.id, slot, e.generation⟩, {
        table := t'.modify slot (·.issue q.size q.tag q.expiry now), segments, placement := p'
        usage := r.usage.addUsed (.ofNat e.span.size) }) := by
      simp only [Region.place, room, found, hfill]
    rw [hplace] at htimely regular' ⊢
    have hused : r.usage.used.toNat + e.span.size < UInt64.size :=
      regular.used_add_lt regular' (ready.issuedBytes_issue found rfl)
    have hq : q.size ≤ Segment.maxSize := by omega
    simp only [place?, hroom, found, hfill?, SlotTable.issue?_eq found free hq now,
      Usage.addUsed?_eq hused, Option.bind_eq_bind, Option.bind_some]
    exact ⟨rfl, h.tidy.reserve account hsizes positive room found rfl rfl, htimely, h.threshold,
      h.failures⟩

theorem Strict.submit (h : r.Strict n) (regular : r.Regular most) (clock : Millis.Reading now)
    (few : n + failed (r.submit now q).1 < UInt64.size) :
    Agrees (n + failed (r.submit now q).1) (r.submit? now q) (r.submit now q) := by
  unfold Region.submit Region.submit? at *
  cases hrefusal : q.refusal? r.maxRequest with
  | some refusal => exact ⟨rfl, h.mono (Nat.le_add_right _ _)⟩
  | none =>
    obtain ⟨positive, small⟩ := Request.refusal?_eq_none_iff.1 hrefusal
    simp only [hrefusal] at few ⊢
    exact h.place regular clock positive small few

/-! ### Updating -/

theorem Strict.overwrite (h : r.Strict n) (regular : r.Regular most)
    (checked : r.table.checked k = .ok e) {bytes : List UInt8} (fits : bytes.length ≤ e.span.size)
    (timely : (r.overwrite k bytes).2.Timely) :
    Agrees n (r.overwrite? k bytes) (r.overwrite k bytes) := by
  obtain ⟨-, issued, -⟩ := SlotTable.checked_eq_ok_iff_issued?.1 checked
  have found := (SlotTable.issued?_eq_some_iff.1 issued).1
  obtain ⟨s, located, reach, accessible⟩ := regular.sound.reach? checked
  have hoverwrite : s.overwrite e k.generation bytes =
      .ok (s.put e.span.start bytes, e.resize bytes.length) := by
    rw [Segment.overwrite, if_pos (accessible _ fits)]
  simp only [Region.overwrite, located, hoverwrite] at timely ⊢
  simp only [overwrite?, checked, reach _ fits, hoverwrite, Option.bind_eq_bind, Option.bind_some]
  exact ⟨rfl, h.tidy.modify found rfl fun still => still, timely, h.threshold, h.failures⟩

/-- First fit takes the old range back first, and then there is room. -/
theorem Strict.replace (h : r.Strict n) (regular : r.Regular most) (clock : Millis.Reading now)
    {order : List Nat} (placement : r.placement = .firstFit order)
    (checked : r.table.checked k = .ok e) {bytes : List UInt8} (positive : 1 ≤ bytes.length)
    (fits : bytes.length ≤ e.span.size) (few : n < UInt64.size) :
    Agrees n (r.replace? now k bytes) (r.replace now k bytes) := by
  obtain ⟨-, issued, -⟩ := SlotTable.checked_eq_ok_iff_issued?.1 checked
  have found := (SlotTable.issued?_eq_some_iff.1 issued).1
  obtain ⟨r₁, k', r', released, hreplace, placed⟩ :=
    regular.sound.replace placement checked positive fits now
  obtain ⟨-, strict⟩ := h.release regular k
  have regular₁ := regular.step 0 (.release k)
  rw [Region.step] at regular₁
  rw [released.answer] at strict regular₁
  have hcapacity : bytes.length ≤ r₁.maxRequest := by
    have hmost : r.maxRequest = r.capacity := by simp only [Region.maxRequest, placement]
    have hle := regular.sound.issuedBytes_le regular.laid
    have hbytes := released.bytes
    rw [regular₁.maxRequest, ← regular.maxRequest, hmost]
    omega
  have hplace := strict.place regular₁ clock
    (q := ⟨.payload bytes, e.lease.expiry, e.lease.tag⟩) positive hcapacity
    (by rw [placed.answer]; exact few)
  rw [placed.answer, ← hreplace] at hplace
  have hreleased := released.answer
  rw [release_firstFit placement checked] at hreleased
  cases hreleased
  have hcounted := regular.size_le_used issued
  simp only [replace?, claim?_of_checked checked, (h.tidy.sane k.slot e found).size?,
    Usage.subUsed?_eq hcounted, Option.bind_eq_bind, Option.bind_some]
  rw [hreplace] at hplace ⊢
  exact hplace

theorem Strict.update (h : r.Strict n) (regular : r.Regular most) (clock : Millis.Reading now)
    (few : n < UInt64.size) (k : Handle) (bytes : List UInt8) :
    Agrees n (r.update? now k bytes) (r.update now k bytes) := by
  have htimely := h.timely.step regular clock (.update k bytes)
  rw [Region.step] at htimely
  unfold Region.update Region.update? at *
  by_cases empty : bytes.isEmpty = true
  · rw [if_pos empty, if_pos empty]
    exact h.refused _
  · rw [if_neg empty] at htimely ⊢
    rw [if_neg empty]
    have positive : 1 ≤ bytes.length := by
      rw [List.isEmpty_iff, ← List.length_eq_zero_iff] at empty
      omega
    cases checked : r.table.checked k with
    | error refusal => exact h.refused refusal
    | ok e =>
      obtain ⟨-, issued, -⟩ := SlotTable.checked_eq_ok_iff_issued?.1 checked
      have found := (SlotTable.issued?_eq_some_iff.1 issued).1
      simp only [checked] at htimely
      simp only [(h.tidy.sane k.slot e found).size?, Option.bind_eq_bind, Option.bind_some]
      by_cases long : e.span.size < bytes.length
      · rw [if_pos long, if_pos long]
        exact h.refused _
      · rw [if_neg long] at htimely ⊢
        rw [if_neg long]
        have fits := Nat.le_of_not_lt long
        cases hplacement : r.placement with
        | firstFit order => exact h.replace regular clock hplacement checked positive fits few
        | largestFit free =>
          simp only [hplacement] at htimely
          exact h.overwrite regular checked fits htimely
        | slab pools fallThrough =>
          simp only [hplacement] at htimely
          exact h.overwrite regular checked fits htimely

/-! ### The region as a whole -/

/-- A region without pools is one segment. -/
theorem Sound.capacity_of_single (h : r.Sound) (pooled : r.placement.strategy ≠ .slab) :
    r.sizes = [r.capacity] ∧ 1 ≤ r.capacity ∧ r.capacity ≤ Segment.maxSize := by
  obtain ⟨size, hsizes⟩ : ∃ size, r.sizes = [size] := by
    have haccount := h.account
    cases hplacement : r.placement with
    | firstFit order =>
      rw [hplacement] at haccount
      obtain ⟨size, hsizes, -⟩ := haccount
      exact ⟨size, hsizes⟩
    | largestFit free =>
      rw [hplacement] at haccount
      obtain ⟨size, hsizes, -⟩ := haccount
      exact ⟨size, hsizes⟩
    | slab pools fallThrough =>
      rw [hplacement] at pooled
      exact absurd rfl pooled
  rw [capacity_of_sizes hsizes]
  exact ⟨hsizes, h.admissible size (by rw [hsizes]; simp)⟩

theorem Strict.clear (h : r.Strict n) (regular : r.Regular most) :
    r.clear? = some r.clear ∧ r.clear.Strict n := by
  have htimely := h.timely.step regular Millis.reading_zero .clear
  obtain ⟨hreset, tidy⟩ := h.tidy.reset fun pooled =>
    (regular.sound.capacity_of_single pooled).2
  refine ⟨?_, tidy, htimely, h.threshold, Nat.zero_le _⟩
  simp only [clear?, hreset, Option.bind_eq_bind, Option.bind_some]
  rfl

/-- The check finds nothing, and adds nothing up that leaves its word. -/
theorem Regular.check (regular : r.Regular most) :
    r.check? = some (.ok ()) ∧ r.check = .ok () := by
  cases hplacement : r.placement with
  | firstFit order => simp only [Region.check?, Region.check, hplacement, and_self]
  | slab pools fallThrough => simp only [Region.check?, Region.check, hplacement, and_self]
  | largestFit free =>
    obtain ⟨hsizes, -, hsmall⟩ :=
      regular.sound.capacity_of_single (by rw [hplacement]; nofun)
    have haccount := regular.sound.account
    rw [hplacement, hsizes] at haccount
    obtain ⟨size, hsize, account⟩ := haccount
    cases hsize
    have hbytes : free.freeBytes + r.used = r.capacity := by
      rw [regular.used_eq]
      exact account.bytes
    have hword : free.freeBytes + r.used ≤ Segment.maxSize := by omega
    have hcheck : r.check = .ok () := by
      simp only [Region.check, hplacement, account.valid.check, hbytes]
      exact if_neg (not_not_intro rfl)
    refine ⟨?_, hcheck⟩
    simp only [Region.check?, hplacement, (account.inside hsmall).sum?, word64?_of_le hword, hcheck,
      Option.bind_eq_bind, Option.bind_some]

/-! ### Any operation -/

/-- Placements that fail in an operation. An update always finds room. -/
def failedPlacements (r : Region) (now : Int) : Op → Nat
  | .submit q => failed (r.submit now q).1
  | _ => 0

/-- A threshold that is set is not the largest word. -/
def Op.bounded : Op → Bool
  | .setThreshold threshold => threshold.toNat + 1 < UInt64.size
  | _ => true

theorem Agrees.answer {checked : Option (Outcome Region β)} {plain : Outcome Region β}
    (h : Agrees n checked plain) (f : β → Answer α) :
    checked.map (·.map (Answer.ofExcept f) fun r => r) =
        some (plain.map (Answer.ofExcept f) fun r => r) ∧
      (plain.map (Answer.ofExcept f) fun r => r).2.Strict n := by
  obtain ⟨hchecked, strict⟩ := h
  rw [hchecked]
  exact ⟨rfl, strict⟩

/-- An operation gets through with every step checked, and so will the next one. -/
theorem Strict.perform (h : r.Strict n) (regular : r.Regular most) (clock : Millis.Reading now)
    (op : Op) (bounded : op.bounded = true) (few : n + r.failedPlacements now op < UInt64.size) :
    r.perform? now op = some (r.perform now op : Answer α × Region) ∧
      (r.perform now op : Answer α × Region).2.Strict (n + r.failedPlacements now op) := by
  cases op with
  | submit q => exact (h.submit regular clock few).answer _
  | view k f => exact (h.view regular clock k f).answer _
  | edit k patch => exact (h.edit regular k patch).answer _
  | update k bytes => exact (h.update regular clock few k bytes).answer _
  | release k => exact (h.release regular k).answer _
  | collectExpired batch => exact (h.collectExpired regular batch now).answer _
  | collectLeastUsed batch => exact (h.collectLeastUsed regular clock batch).answer _
  | setThreshold threshold =>
    exact ⟨rfl, h.tidy, h.timely, of_decide_eq_true bounded, h.failures⟩
  | clear =>
    obtain ⟨hclear, strict⟩ := h.clear regular
    refine ⟨?_, strict⟩
    rw [perform?, hclear]
    rfl

end Region

end RegionStore
