import RegionStore.Proofs.Accounts
import RegionStore.Region

/-!
What a region holds: the entry and the payload that each handle names. A region is sound when its
account is right, payloads fit in their ranges, and the byte count is the sum of the issued ranges.
-/
namespace RegionStore.Region

/-- The bytes of an entry's payload. -/
def payload (r : Region) (e : Entry) : List UInt8 :=
  Segment.readAt r.segments e.segment e.span.start e.lease.len

/-- Entry and payload that a handle names, if it names any. -/
def held (r : Region) (h : Handle) : Option (Entry × List UInt8) :=
  match r.table.checked h with
  | .ok e => some (e, r.payload e)
  | .error _ => none

theorem held_of_checked {r : Region} {h : Handle} {e : Entry}
    (checked : r.table.checked h = .ok e) : r.held h = some (e, r.payload e) := by
  rw [held, checked]

theorem held_eq_some_iff {r : Region} {h : Handle} {e : Entry} {bytes : List UInt8} :
    r.held h = some (e, bytes) ↔ r.table.checked h = .ok e ∧ bytes = r.payload e := by
  unfold held
  cases r.table.checked h with
  | error refusal => simp
  | ok e' => grind

theorem checked_of_held {r : Region} {h : Handle} {e : Entry} {bytes : List UInt8}
    (held : r.held h = some (e, bytes)) : r.table.checked h = .ok e :=
  (held_eq_some_iff.1 held).1

theorem held_eq_none_iff {r : Region} {h : Handle} :
    r.held h = none ↔ ∃ refusal, r.table.checked h = .error refusal := by
  unfold held
  cases r.table.checked h with
  | error refusal => simp
  | ok e => simp

theorem held_eq_none_of_not_issued {r : Region} {h : Handle}
    (idle : r.table.issued? h.slot = none) : r.held h = none := by
  cases held : r.held h with
  | none => rfl
  | some found =>
    obtain ⟨checked, -⟩ := held_eq_some_iff.1 held
    have issued := (SlotTable.checked_eq_ok_iff_issued?.1 checked).2.1
    rw [idle] at issued
    cases issued

/-- What is issued at the slot of a handle is named by no other one. -/
theorem held_eq_none_of_ne {r : Region} {h k : Handle}
    (owner : ∀ e, r.table.issued? h.slot = some e → h.region = r.id ∧ e.generation = h.generation)
    (here : k.slot = h.slot) (other : k ≠ h) : r.held k = none := by
  cases held : r.held k with
  | none => rfl
  | some found =>
    obtain ⟨checked, -⟩ := held_eq_some_iff.1 held
    obtain ⟨hregion, issued, hgeneration⟩ := SlotTable.checked_eq_ok_iff_issued?.1 checked
    rw [here] at issued
    obtain ⟨hregion', hgeneration'⟩ := owner _ issued
    have hsame : k = h := by
      cases k
      cases h
      simp only [Region.id] at *
      rw [hregion, hregion', here, ← hgeneration, hgeneration']
    exact absurd hsame other

theorem held_congr {r r' : Region} {k : Handle} (id : r'.id = r.id)
    (issued : r'.table.issued? k.slot = r.table.issued? k.slot)
    (bytes : ∀ e, r.table.issued? k.slot = some e → r'.payload e = r.payload e) :
    r'.held k = r.held k := by
  have hid : r'.table.region = r.table.region := id
  have hchecked (e : Entry) : r'.table.checked k = .ok e ↔ r.table.checked k = .ok e := by
    rw [SlotTable.checked_eq_ok_iff_issued?, SlotTable.checked_eq_ok_iff_issued?, issued, hid]
  cases held : r.held k with
  | some found =>
    obtain ⟨checked, hbytes⟩ := held_eq_some_iff.1 held
    have hslot := (SlotTable.checked_eq_ok_iff_issued?.1 checked).2.1
    rw [held_of_checked ((hchecked _).2 checked), bytes _ hslot, ← hbytes]
  | none =>
    obtain ⟨refusal, refused⟩ := held_eq_none_iff.1 held
    cases held' : r'.held k with
    | none => rfl
    | some found =>
      have checked := (hchecked _).1 (held_eq_some_iff.1 held').1
      rw [refused] at checked
      cases checked

/-- Where only one slot changes, and only for holders of one handle, so does what is held. -/
theorem held_eq_update {r r' : Region} {h : Handle} {new : Option (Entry × List UInt8)}
    (id : r'.id = r.id)
    (others : ∀ x, x ≠ h.slot → r'.table.issued? x = r.table.issued? x)
    (bytes : ∀ x e, x ≠ h.slot → r.table.issued? x = some e → r'.payload e = r.payload e)
    (before : ∀ e, r.table.issued? h.slot = some e → h.region = r.id ∧ e.generation = h.generation)
    (after : ∀ e, r'.table.issued? h.slot = some e → h.region = r.id ∧ e.generation = h.generation)
    (held : r'.held h = new) : r'.held = Function.update r.held h new := by
  funext k
  by_cases same : k = h
  · rw [same, Function.update_self, held]
  · rw [Function.update_of_ne same]
    by_cases here : k.slot = h.slot
    · have hafter : r'.held k = none :=
        held_eq_none_of_ne (fun e issued => id ▸ after e issued) here same
      rw [hafter, held_eq_none_of_ne before here same]
    · exact held_congr id (others k.slot here) fun e => bytes k.slot e here

def sizes (r : Region) : List Nat := r.segments.toList.map (·.size)

structure Sound (r : Region) : Prop where
  account : r.placement.Account r.table r.sizes
  admissible : ∀ n ∈ r.sizes, 1 ≤ n ∧ n ≤ Segment.maxSize
  leases : ∀ slot e, r.table.issued? slot = some e → 1 ≤ e.lease.len ∧ e.lease.len ≤ e.span.size
  filled : r.placement.strategy = .firstFit →
    ∀ slot e, r.table.issued? slot = some e → e.lease.len = e.span.size
  used : r.usage.used = .ofNat r.table.issuedBytes

/-- With an account and nothing issued, a region is sound. -/
theorem Sound.of_idle {r : Region} (account : r.placement.Account r.table r.sizes)
    (admissible : ∀ n ∈ r.sizes, 1 ≤ n ∧ n ≤ Segment.maxSize)
    (idle : ∀ x, r.table.issued? x = none) (used : r.usage.used = 0) : r.Sound := by
  refine ⟨account, admissible, fun x e issued => ?_, fun _ x e issued => ?_, ?_⟩
  · rw [idle] at issued
    cases issued
  · rw [idle] at issued
    cases issued
  · rw [used, SlotTable.issuedBytes_of_idle idle]
    rfl

/-- What no operation changes. -/
structure Keeps (r r' : Region) : Prop where
  sound : r'.Sound
  id : r'.id = r.id
  strategy : r'.placement.strategy = r.placement.strategy
  sizes : r'.sizes = r.sizes

theorem Sound.keeps {r : Region} (h : r.Sound) : r.Keeps r := ⟨h, rfl, rfl, rfl⟩

theorem Keeps.trans {r r' r'' : Region} (h : r.Keeps r') (h' : r'.Keeps r'') : r.Keeps r'' :=
  ⟨h'.sound, h'.id.trans h.id, h'.strategy.trans h.strategy, h'.sizes.trans h.sizes⟩

theorem capacity_eq_foldr (r : Region) : r.capacity = r.sizes.foldr (· + ·) 0 := by
  rw [capacity, sizes, List.foldr_map]

theorem capacity_of_sizes {r : Region} {size : Nat} (sizes : r.sizes = [size]) :
    r.capacity = size := by
  rw [capacity_eq_foldr, sizes]
  rfl

/-- The count of bytes is exact if what is issued fits into a single segment. -/
theorem Sound.used_of_sizes {r : Region} {size : Nat} (h : r.Sound) (sizes : r.sizes = [size])
    (le : r.table.issuedBytes ≤ size) : r.used = r.table.issuedBytes := by
  have small := (h.admissible size (by rw [sizes]; simp)).2
  simp only [Segment.maxSize, UInt32.size] at small
  rw [Region.used, h.used, UInt64.toNat_ofNat']
  exact Nat.mod_eq_of_lt (by omega)

theorem Sound.exists_firstFit {r : Region} {size : Nat} (h : r.Sound)
    (strategy : r.placement.strategy = .firstFit) (sizes : r.sizes = [size]) :
    ∃ order, r.placement = .firstFit order ∧ FirstFit.Account order r.table size := by
  have haccount := h.account
  cases hplacement : r.placement with
  | firstFit order =>
    rw [hplacement] at haccount
    obtain ⟨n, hsizes, account⟩ := haccount
    obtain rfl : n = size := by simpa using hsizes.symm.trans sizes
    exact ⟨order, rfl, account⟩
  | largestFit free => rw [hplacement] at strategy; cases strategy
  | slab pools fallThrough => rw [hplacement] at strategy; cases strategy

theorem Sound.exists_largestFit {r : Region} {size : Nat} (h : r.Sound)
    (strategy : r.placement.strategy = .largestFit) (sizes : r.sizes = [size]) :
    ∃ free, r.placement = .largestFit free ∧ free.Account r.table size := by
  have haccount := h.account
  cases hplacement : r.placement with
  | largestFit free =>
    rw [hplacement] at haccount
    obtain ⟨n, hsizes, account⟩ := haccount
    obtain rfl : n = size := by simpa using hsizes.symm.trans sizes
    exact ⟨free, rfl, account⟩
  | firstFit order => rw [hplacement] at strategy; cases strategy
  | slab pools fallThrough => rw [hplacement] at strategy; cases strategy

theorem Sound.slab_account {r : Region} {pools : List SlotPool} {fallThrough : Bool} (h : r.Sound)
    (placement : r.placement = .slab pools fallThrough) :
    SlotPool.Account pools r.table r.sizes := by
  have account := h.account
  rwa [placement] at account

/-- The range of what is issued lies inside of a segment. -/
theorem exists_segment {r : Region} {p : Placement} {t : SlotTable}
    (account : p.Account t r.sizes) {slot : Nat} {e : Entry} (issued : t.issued? slot = some e) :
    ∃ s, r.segments[e.segment]? = some s ∧ s.size ∈ r.sizes ∧ e.span.last < s.size ∧
      e.span.start + e.span.size = e.span.last + 1 := by
  obtain ⟨ordered, size, found, hlast⟩ := account.bounds issued
  have member := List.mem_of_getElem? found
  rw [sizes, List.getElem?_map, Array.getElem?_toList, Option.map_eq_some_iff] at found
  obtain ⟨s, hs, rfl⟩ := found
  exact ⟨s, hs, member, hlast, Span.start_add_size ordered⟩

/-- Nothing else is issued at the slot of a good handle. -/
theorem owner_of_checked {r : Region} {k : Handle} {e : Entry}
    (checked : r.table.checked k = .ok e) : ∀ e', r.table.issued? k.slot = some e' →
      k.region = r.id ∧ e'.generation = k.generation := by
  obtain ⟨own, issued, generation⟩ := SlotTable.checked_eq_ok_iff_issued?.1 checked
  intro e' issued'
  rw [issued] at issued'
  cases issued'
  exact ⟨own, generation⟩

namespace Sound

variable {r : Region}

theorem small (h : r.Sound) {slot : Nat} {e : Entry} (issued : r.table.issued? slot = some e) :
    e.span.size ≤ Segment.maxSize := by
  obtain ⟨s, -, member, hlast, hsize⟩ := exists_segment h.account issued
  have := h.admissible s.size member
  omega

/-- What a handle names is found in a segment, with all of its range accessible. -/
theorem locate (h : r.Sound) {k : Handle} {e : Entry} (checked : r.table.checked k = .ok e) :
    ∃ s, r.segments[e.segment]? = some s ∧ r.locate k = .ok (e, s) ∧
      ∀ n ≤ e.span.size, s.accessible e k.generation n = true := by
  obtain ⟨-, issued, generation⟩ := SlotTable.checked_eq_ok_iff_issued?.1 checked
  obtain ⟨s, hs, -, hlast, hsize⟩ := exists_segment h.account issued
  refine ⟨s, hs, by simp only [Region.locate, checked, hs], fun n hn => ?_⟩
  rw [Segment.accessible_iff, Entry.isCurrent_iff]
  exact ⟨⟨(SlotTable.issued?_eq_some_iff.1 issued).2, generation⟩, by omega, by omega⟩

theorem length_payload (h : r.Sound) {k : Handle} {e : Entry}
    (checked : r.table.checked k = .ok e) : (r.payload e).length = e.lease.len := by
  obtain ⟨s, found, -⟩ := h.locate checked
  rw [payload, Segment.readAt_of_getElem? found, Segment.length_read]

theorem length_of_held (h : r.Sound) {k : Handle} {e : Entry} {bytes : List UInt8}
    (held : r.held k = some (e, bytes)) : bytes.length = e.lease.len := by
  obtain ⟨checked, rfl⟩ := held_eq_some_iff.1 held
  exact h.length_payload checked

/-- Bytes written to the range of one entry do not show in the payload of another. -/
theorem payload_write (h : r.Sound) {slot other : Nat} {e e' : Entry} {s : Segment}
    (issued : r.table.issued? slot = some e) (issued' : r.table.issued? other = some e')
    (distinct : other ≠ slot) (found : r.segments[e.segment]? = some s) {bytes : List UInt8}
    (fits : bytes.length ≤ e.span.size) :
    Segment.readAt (r.segments.modify e.segment fun _ => s.put e.span.start bytes)
      e'.segment e'.span.start e'.lease.len = r.payload e' := by
  refine Segment.readAt_put_of_apart found fun shared => ?_
  have apart := h.account.apart issued' issued distinct shared.symm
  have hsize := Span.start_add_size (h.account.bounds issued).1
  have hsize' := Span.start_add_size (h.account.bounds issued').1
  have hlease := h.leases other e' issued'
  unfold Span.Apart at apart
  omega

end Sound

end RegionStore.Region
