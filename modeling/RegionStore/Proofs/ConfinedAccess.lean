import RegionStore.Proofs.Bytes
import RegionStore.Proofs.Spans

/-!
Access to a segment through an entry, whatever the entry says. It is refused, or it stays inside the
range of the entry and inside the segment, so that nobody sees it through an entry whose range is
apart.
-/
namespace RegionStore.Segment

/-- What can be done with the payload of an entry. -/
inductive Access (α : Type) where
  | overwrite (payload : List UInt8)
  | view (f : List UInt8 → α)
  | edit (f : List UInt8 → List UInt8 × α)

namespace Access

variable {α : Type}

/-- Number of bytes in use. -/
def length (e : Entry) : Access α → Nat
  | overwrite payload => payload.length
  | view _ => e.lease.len
  | edit _ => e.lease.len

/-- The bytes in use, from the start of the entry's range on. -/
def shown (a : Access α) (s : Segment) (e : Entry) : List UInt8 :=
  s.read e.span.start (a.length e)

/-- The byte at an offset is in use. -/
def Uses (a : Access α) (e : Entry) (offset : Nat) : Prop :=
  e.span.start ≤ offset ∧ offset < e.span.start + a.length e

/-- The entry is still that of the holder, and its range and the segment reach as far as the bytes
in use. -/
def Fits (a : Access α) (s : Segment) (e : Entry) (g : UInt32) : Prop :=
  e.isCurrent g = true ∧ e.span.start + a.length e ≤ e.span.last + 1 ∧
    e.span.start + a.length e ≤ s.size

/-- What is answered if these are the bytes in use, and what is written over the front of them. -/
def effect (bytes : List UInt8) : Access α → Option α × List UInt8
  | overwrite payload => (none, payload)
  | view f => (some (f bytes), [])
  | edit f => (some (f bytes).2, (f bytes).1.take bytes.length)

/-- What becomes of the bytes in use. -/
def after (bytes : List UInt8) (a : Access α) : List UInt8 :=
  (a.effect bytes).2 ++ bytes.drop (a.effect bytes).2.length

theorem length_effect_le (a : Access α) (s : Segment) (e : Entry) :
    (a.effect (a.shown s e)).2.length ≤ a.length e := by
  cases a with
  | overwrite payload => exact Nat.le_refl _
  | view f => exact Nat.zero_le _
  | edit f =>
    have hlength := s.length_read e.span.start e.lease.len
    exact Nat.le_trans (List.length_take_le _ _) (Nat.le_of_eq hlength)

end Access

variable {α : Type} {s s' : Segment} {e e' other : Entry} {g : UInt32} {a : Access α}
  {start n : Nat} {bytes payload : List UInt8}

/-- What an access answers with, and what it leaves of the segment and of the entry. -/
def access (s : Segment) (e : Entry) (g : UInt32) :
    Access α → Outcome (Segment × Entry) (Option α)
  | .overwrite payload =>
    match s.overwrite e g payload with
    | .error refusal => (.error refusal, s, e)
    | .ok (s', e') => (.ok none, s', e')
  | .view f =>
    match s.view e g with
    | .error refusal => (.error refusal, s, e)
    | .ok payload => (.ok (some (f payload)), s, e)
  | .edit f =>
    match s.edit e g f with
    | .error refusal => (.error refusal, s, e)
    | .ok (answer, s') => (.ok (some answer), s', e)

/-- The bytes in use lie in the range of the entry and in the segment. The answer and what they are
now follow from what they were, and all other bytes are as before. -/
structure Granted (s : Segment) (e : Entry) (a : Access α) (answer : Option α) (s' : Segment)
    (e' : Entry) : Prop where
  within : ∀ offset, a.Uses e offset → offset ∈ e.span ∧ offset < s.size
  answer : answer = (a.effect (a.shown s e)).1
  used : a.shown s' e = a.after (a.shown s e)
  others : ∀ offset, ¬ a.Uses e offset → s'.byteAt offset = s.byteAt offset
  size : s'.size = s.size
  entry : e' = { e with lease := { e.lease with len := a.length e } }

theorem overwrite_eq_ok_iff : s.overwrite e g payload = .ok (s', e') ↔
    s.accessible e g payload.length = true ∧ s' = s.put e.span.start payload ∧
      e' = e.resize payload.length := by
  unfold overwrite
  split
  · next accessible => simp [accessible, eq_comm]
  · next stale => simp [stale]

theorem access_of_not_fits (stale : ¬ a.Fits s e g) :
    s.access e g a = (.error .staleHandle, s, e) := by
  have stale : ¬ s.accessible e g (a.length e) = true := fun h => stale (accessible_iff.1 h)
  cases a with
  | overwrite payload =>
    have hoverwrite : s.overwrite e g payload = .error .staleHandle := if_neg stale
    rw [access, hoverwrite]
  | view f =>
    have hview : s.view e g = .error .staleHandle := if_neg stale
    rw [access, hview]
  | edit f =>
    have hview : s.view e g = .error .staleHandle := if_neg stale
    rw [access, edit, hview]

/-- Whatever is done, something is written over the front of what is used. -/
theorem access_of_fits (small : s.size ≤ maxSize) (fits : a.Fits s e g) :
    s.access e g a = (.ok (a.effect (a.shown s e)).1,
      s.put e.span.start (a.effect (a.shown s e)).2,
      { e with lease := { e.lease with len := a.length e } }) := by
  have accessible := accessible_iff.2 fits
  cases a with
  | overwrite payload =>
    have hroom : e.span.start + payload.length ≤ s.size := fits.2.2
    have hresize : e.resize payload.length =
        { e with lease := { e.lease with len := payload.length } } := by
      rw [Entry.resize, mod_eq_self (by omega)]
    rw [access, overwrite_eq_ok_iff.2 ⟨accessible, rfl, hresize.symm⟩]
    rfl
  | view f =>
    rw [access, view_eq_ok_iff.2 ⟨accessible, rfl⟩]
    rfl
  | edit f =>
    rw [access, edit, view_eq_ok_iff.2 ⟨accessible, rfl⟩]
    rfl

theorem read_put_of_le (short : bytes.length ≤ n) :
    (s.put start bytes).read start n = bytes ++ (s.read start n).drop bytes.length := by
  apply List.ext_getElem
  · simp only [length_read, List.length_append, List.length_drop]
    omega
  · intro i left right
    rw [getElem_read, byteAt_put, if_pos (Nat.le_add_right _ _), Nat.add_sub_cancel_left]
    by_cases written : i < bytes.length
    · rw [List.getElem_append_left written, List.getElem?_eq_getElem written, Option.getD_some]
    · have beyond := Nat.le_of_not_lt written
      have hindex : start + (bytes.length + (i - bytes.length)) = start + i := by omega
      rw [List.getElem_append_right beyond, List.getElem_drop, getElem_read, hindex,
        List.getElem?_eq_none beyond, Option.getD_none]

theorem granted_of_fits (small : s.size ≤ maxSize) (fits : a.Fits s e g) :
    ∃ answer s' e', s.access e g a = (.ok answer, s', e') ∧ Granted s e a answer s' e' := by
  have hinside := fits.2.1
  have hroom := fits.2.2
  have hlength := a.length_effect_le s e
  refine ⟨_, _, _, access_of_fits small fits, fun offset uses => ?_, rfl, read_put_of_le hlength,
    fun offset unused => ?_, size_put _ _ _, rfl⟩
  · obtain ⟨lower, upper⟩ := uses
    exact ⟨Span.mem_def.2 ⟨lower, by omega⟩, by omega⟩
  · rw [byteAt_put]
    split
    · next lower =>
      have upper : ¬ offset < e.span.start + a.length e := fun upper => unused ⟨lower, upper⟩
      rw [List.getElem?_eq_none (by omega), Option.getD_none]
    · rfl

/-- What is written inside of one range is not seen in another. -/
theorem view_put_of_apart (apart : e.span.Apart other.span)
    (inside : e.span.start + bytes.length ≤ e.span.last + 1) (g : UInt32) :
    (s.put e.span.start bytes).view other g = s.view other g := by
  have hsame : (s.put e.span.start bytes).accessible other g other.lease.len =
      s.accessible other g other.lease.len := by
    simp only [accessible, size_put]
  rw [view, view, hsame]
  split
  · next accessible =>
    have inside' := (accessible_iff.1 accessible).2.1
    unfold Span.Apart at apart
    rw [read_put_of_disjoint (by omega)]
  · rfl

theorem view_access (small : s.size ≤ maxSize) (apart : e.span.Apart other.span) (g g' : UInt32)
    (a : Access α) : (s.access e g a).2.1.view other g' = s.view other g' := by
  by_cases fits : a.Fits s e g
  · have hlength := a.length_effect_le s e
    have inside := fits.2.1
    rw [access_of_fits small fits]
    exact view_put_of_apart apart (by omega) g'
  · rw [access_of_not_fits fits]

theorem view_overwrite (small : s.size ≤ maxSize)
    (overwritten : s.overwrite e g payload = .ok (s', e')) : s'.view e' g = .ok payload := by
  obtain ⟨accessible, rfl, rfl⟩ := overwrite_eq_ok_iff.1 overwritten
  obtain ⟨current, inside, room⟩ := accessible_iff.1 accessible
  have hlength : (e.resize payload.length).lease.len = payload.length := mod_eq_self (by omega)
  rw [view_eq_ok_iff, accessible_iff, hlength, size_put]
  exact ⟨⟨current, inside, room⟩, (s.read_put e.span.start payload).symm⟩

/-- Access through an entry that is stale or does not fit is refused and changes nothing. Any other
uses bytes in the range of the entry and in the segment only. What has been written over a payload
is what is shown then, and an entry with a range apart from this one shows what it showed before. -/
theorem access_confined (small : s.size ≤ maxSize) (apart : e.span.Apart other.span) (g : UInt32)
    (a : Access α) :
    (¬ a.Fits s e g ∧ s.access e g a = (.error .staleHandle, s, e) ∨
      a.Fits s e g ∧ ∃ answer s' e', s.access e g a = (.ok answer, s', e') ∧
        Granted s e a answer s' e') ∧
    (∀ payload s' e', s.overwrite e g payload = .ok (s', e') → s'.view e' g = .ok payload) ∧
    ∀ g', (s.access e g a).2.1.view other g' = s.view other g' := by
  refine ⟨?_, fun _ _ _ => view_overwrite small, fun g' => view_access small apart g g' a⟩
  by_cases fits : a.Fits s e g
  · exact Or.inr ⟨fits, granted_of_fits small fits⟩
  · exact Or.inl ⟨fits, access_of_not_fits fits⟩

/-- An entry has kept the length of its last owner and reaches past the segment. It shows nothing
and takes no payload that is too long for the segment. One that is short enough is shown, and the
entry in front of it shows what it showed. -/
theorem access_confined_moved : ∃ (s s' : Segment) (e e' other : Entry),
    s.size ≤ maxSize ∧ e.span.Apart other.span ∧ s.view e 1 = .error .staleHandle ∧
      s.overwrite e 1 [1, 2, 3, 4, 5, 6] = .error .staleHandle ∧
      s.overwrite e 1 [1, 2, 3] = .ok (s', e') ∧ s'.view e' 1 = .ok [1, 2, 3] ∧
      s'.view other 0 = s.view other 0 ∧ s.view other 0 = .ok [0, 0, 0, 0, 0] := by
  let s := zeroed 20
  let e : Entry := ⟨1, false, 0, ⟨15, 30⟩, .issued 90 0 .never 0⟩
  let other : Entry := ⟨0, false, 0, ⟨10, 14⟩, .issued 5 0 .never 0⟩
  have small : s.size ≤ maxSize := by decide
  have apart : e.span.Apart other.span := Or.inr (by decide)
  have confined := access_confined (α := Unit) small apart 1
  have overwritten : s.overwrite e 1 [1, 2, 3] = .ok (_, _) := rfl
  obtain ⟨-, shown, others⟩ := confined (.overwrite [1, 2, 3])
  exact ⟨s, _, e, _, other, small, apart, rfl, rfl, overwritten, shown _ _ _ overwritten,
    others 0, rfl⟩

end RegionStore.Segment
