import RegionStore.Proofs.Runs

/-!
Operations on a sound region written out, down to single bytes. A payload is written over the
places of its entry, and the bytes of all other places stay.
-/
namespace RegionStore

variable {α : Type}

namespace Segment

/-- The byte at an offset of a segment. -/
def byte? (segments : Array Segment) (place : Nat × Nat) : Option UInt8 :=
  (segments[place.1]?).map (·.byteAt place.2)

/-- Writes a payload over the range of an entry. -/
def overlay (segments : Array Segment) (e : Entry) (bytes : List UInt8) : Array Segment :=
  segments.modify e.segment fun s => s.put e.span.start bytes

theorem getElem?_readAt (segments : Array Segment) (i start n j : Nat) :
    (readAt segments i start n)[j]? = if j < n then byte? segments (i, start + j) else none := by
  rw [readAt, byte?]
  cases segments[i]? with
  | none => simp
  | some s =>
    simp only [Option.map_some, Option.getD_some]
    split
    · next inside =>
      have inside' : j < (s.read start n).length := by simpa using inside
      rw [List.getElem?_eq_getElem inside', getElem_read]
    · next beyond => exact List.getElem?_eq_none (by simpa using beyond)

end Segment

namespace Entry

/-- Where a byte of the entry's payload lies. -/
def byte (e : Entry) (i : Nat) : Nat × Nat := (e.segment, e.span.start + i)

/-- The places of so many bytes from the start of the entry's range on. -/
def Covers (e : Entry) (n : Nat) (place : Nat × Nat) : Prop :=
  place.1 = e.segment ∧ e.span.start ≤ place.2 ∧ place.2 < e.span.start + n

/-- Payloads of one length that are the same at the places that are known. -/
def Agree (e : Entry) (known : Set (Nat × Nat)) (bytes bytes' : List UInt8) : Prop :=
  bytes'.length = bytes.length ∧ ∀ i, e.byte i ∈ known → bytes'[i]? = bytes[i]?

end Entry

namespace Segment

variable {segments : Array Segment} {s : Segment} {e : Entry} {bytes : List UInt8}
  {place : Nat × Nat}

theorem byte?_overlay_of_covers (found : segments[e.segment]? = some s)
    (inside : e.Covers bytes.length place) :
    byte? (overlay segments e bytes) place = bytes[place.2 - e.span.start]? := by
  obtain ⟨hsegment, lower, upper⟩ := inside
  have hindex : place.2 - e.span.start < bytes.length := by omega
  rw [byte?, overlay, Array.getElem?_modify, if_pos hsegment.symm, hsegment, found, Option.map_some,
    Option.map_some, byteAt_put, if_pos lower, List.getElem?_eq_getElem hindex, Option.getD_some]

theorem byte?_overlay_of_not_covers (outside : ¬ e.Covers bytes.length place) :
    byte? (overlay segments e bytes) place = byte? segments place := by
  rw [byte?, overlay, Array.getElem?_modify, byte?]
  split
  · next here =>
    rw [Option.map_map]
    congr 1
    funext s
    rw [Function.comp_apply, byteAt_put]
    split
    · next lower =>
      have upper : ¬ place.2 < e.span.start + bytes.length :=
        fun upper => outside ⟨here.symm, lower, upper⟩
      rw [List.getElem?_eq_none (by omega), Option.getD_none]
    · rfl
  · rfl

end Segment

namespace Region

variable {r : Region} {k : Handle} {e : Entry}

def byte? (r : Region) (place : Nat × Nat) : Option UInt8 := Segment.byte? r.segments place

theorem getElem?_payload (r : Region) (e : Entry) (i : Nat) :
    (r.payload e)[i]? = if i < e.lease.len then r.byte? (e.byte i) else none :=
  Segment.getElem?_readAt r.segments e.segment e.span.start e.lease.len i

/-! ### What operations come to, written out -/

theorem overlay_eq {s : Segment} (found : r.segments[e.segment]? = some s) (bytes : List UInt8) :
    Segment.overlay r.segments e bytes =
      r.segments.modify e.segment fun _ => s.put e.span.start bytes := by
  apply Array.ext_getElem?
  intro i
  rw [Segment.overlay, Array.getElem?_modify, Array.getElem?_modify]
  split
  · next here => rw [← here, found, Option.map_some, Option.map_some]
  · rfl

namespace Sound

theorem locate_view (h : r.Sound) (checked : r.table.checked k = .ok e) :
    ∃ s, r.segments[e.segment]? = some s ∧ r.locate k = .ok (e, s) ∧
      s.view e k.generation = .ok (r.payload e) := by
  obtain ⟨s, hs, located, accessible⟩ := h.locate checked
  have hlease := h.leases k.slot e (SlotTable.checked_eq_ok_iff_issued?.1 checked).2.1
  refine ⟨s, hs, located, ?_⟩
  rw [Segment.view_eq_ok_iff, payload, Segment.readAt_of_getElem? hs]
  exact ⟨accessible _ hlease.2, rfl⟩

theorem view_eq (h : r.Sound) (checked : r.table.checked k = .ok e) (now : Int)
    (f : List UInt8 → α) : r.view now k f =
      (.ok (f (r.payload e)), { r with table := r.table.modify k.slot (·.hit now) }) := by
  obtain ⟨s, -, located, hview⟩ := h.locate_view checked
  simp only [Region.view, located, hview]

theorem edit_eq (h : r.Sound) (checked : r.table.checked k = .ok e) (patch : Patch α) :
    r.edit k patch.run = (.ok (patch.run (r.payload e)).2,
      { r with segments := Segment.overlay r.segments e (patch.run (r.payload e)).1 }) := by
  obtain ⟨s, hs, located, hview⟩ := h.locate_view checked
  have hedit : s.edit e k.generation patch.run = .ok ((patch.run (r.payload e)).2,
      s.put e.span.start (patch.run (r.payload e)).1) := by
    have hlength := Nat.le_of_eq (patch.length_run (r.payload e))
    simp only [Segment.edit, hview, List.take_of_length_le hlength]
  rw [overlay_eq hs]
  simp only [Region.edit, located, hedit]

theorem overwrite_eq (h : r.Sound) (checked : r.table.checked k = .ok e) {bytes : List UInt8}
    (fits : bytes.length ≤ e.span.size) : r.overwrite k bytes =
      (.ok k, { r with
        table := r.table.modify k.slot fun _ => e.resize bytes.length
        segments := Segment.overlay r.segments e bytes }) := by
  obtain ⟨s, hs, located, accessible⟩ := h.locate checked
  rw [overlay_eq hs]
  simp only [Region.overwrite, located, Segment.overwrite, accessible _ fits, if_pos]

end Sound

theorem release_eq (checked : r.table.checked k = .ok e) {t' : SlotTable} {p' : Placement}
    (released : r.placement.release (r.table.modify k.slot fun _ => e.invalidate) k.slot e =
      .ok (t', p')) : r.release k = (.ok e.span.size, {
        r with table := t', placement := p', usage := r.usage.subUsed (.ofNat e.span.size) }) := by
  have own : k.region = r.id := (SlotTable.checked_eq_ok_iff.1 checked).1
  rw [Region.release, if_neg (show ¬ k.region ≠ r.id from not_not_intro own)]
  simp only [claim?_of_checked checked, released]

/-- A payload that has been written where it goes. -/
theorem fill_payload_eq_ok {bytes : List UInt8} {segments : Array Segment}
    (filled : r.fill e (.payload bytes) = .ok segments) :
    (∃ s, r.segments[e.segment]? = some s) ∧ segments = Segment.overlay r.segments e bytes := by
  unfold fill at filled
  dsimp only at filled
  split at filled
  · cases filled
  · next s found =>
    split at filled
    · cases filled
    · next s' hwrite =>
      cases filled
      obtain ⟨-, rfl⟩ := Option.ite_some_none_eq_some.1 hwrite
      exact ⟨⟨s, found⟩, (overlay_eq found bytes).symm⟩

theorem place_eq_ok {now : Int} {q : Request} {r' : Region}
    (placed : r.place now q = (.ok k, r')) : ∃ slot t p e segments,
      r.placement.reserve r.table q.size = some (slot, t, p) ∧ t.find? slot = some e ∧
      r.fill e q.content = .ok segments ∧ k = ⟨r.id, slot, e.generation⟩ ∧
      r' = {
        table := t.modify slot (·.issue q.size q.tag q.expiry now)
        segments
        placement := p
        usage := r.usage.addUsed (.ofNat e.span.size) } := by
  unfold place at placed
  split at placed
  · cases placed
  · next slot t p room =>
    split at placed
    · cases placed
    · next e found =>
      split at placed
      · cases placed
      · next segments filled =>
        cases placed
        exact ⟨slot, t, p, e, segments, room, found, filled, rfl, rfl⟩

theorem Placed.checked {now : Int} {q : Request} {r' : Region} (h : Placed r now q k r') :
    ∃ e, r'.table.checked k = .ok e ∧ e.lease.len = q.size := by
  obtain ⟨e, bytes, held, -, lease, -⟩ := h.held
  have hheld := congrFun held k
  rw [Function.update_self] at hheld
  exact ⟨e, (held_eq_some_iff.1 hheld).1, congrArg Lease.len lease⟩

theorem replace_eq {order : List Nat} (placement : r.placement = .firstFit order)
    (checked : r.table.checked k = .ok e) (now : Int) (bytes : List UInt8) :
    r.replace now k bytes =
      (r.release k).2.place now ⟨.payload bytes, e.lease.expiry, e.lease.tag⟩ := by
  rw [release_firstFit placement checked]
  simp only [Region.replace, claim?_of_checked checked]

end Region

end RegionStore
