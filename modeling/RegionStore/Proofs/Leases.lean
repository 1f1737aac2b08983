import RegionStore.Proofs.Runs

/-!
What one operation does to the lease of a handle. As long as the handle is good, the lease changes
by what is done through that handle, and by nothing else. A handle that is issued starts with a
lease of its own.
-/
namespace RegionStore

/-- A lease once its payload has been shown at some readings of the clock, and given some
lengths. -/
def Lease.after (l : Lease) (readings : List Int) (lengths : List Nat) : Lease :=
  { l with
    len := lengths.getLast?.getD l.len
    hits := l.hits + .ofNat readings.length
    lastHitAt := readings.getLast?.getD l.lastHitAt }

@[simp] theorem Lease.after_nil (l : Lease) : l.after [] [] = l := by
  simp [after]

def Entry.after (e : Entry) (readings : List Int) (lengths : List Nat) : Entry :=
  { e with lease := e.lease.after readings lengths }

@[simp] theorem Entry.after_nil (e : Entry) : e.after [] [] = e := by
  simp [after]

theorem Entry.hit_eq_after (e : Entry) (now : Int) : e.hit now = e.after [now] [] := rfl

theorem Entry.resize_eq_after (e : Entry) {len : Nat} (whole : (e.resize len).lease.len = len) :
    e.resize len = e.after [] [len] := by
  have small : len % UInt32.size = len := whole
  simp [resize, after, Lease.after, small]

namespace Region

/-- The reading of the clock at which an operation shows the payload of a handle, be it for a copy
or in place. -/
def shown? (r : Region) (k : Handle) (now : Int) : Op → Option Int
  | .view k' f => if k' = k then (r.view now k' f).1.toOption.map fun _ => now else none
  | _ => none

/-- The length that an operation gives to the payload of a handle. -/
def given? (r : Region) (k : Handle) (now : Int) : Op → Option Nat
  | .submit q => if (r.submit now q).1.toOption = some k then some q.size else none
  | .update k' bytes =>
    if (r.update now k' bytes).1.toOption = some k then some bytes.length else none
  | _ => none

/-- The expiry and the tag that a handle gets from the operation which issues it: those that are
asked for, in normal form, or those of the handle it takes the place of. -/
def terms? (r : Region) : Op → Option (Expiry × UInt32)
  | .submit q => some (q.expiry.normalized, q.tag)
  | .update k _ => (r.info k).toOption.map fun x => (x.lease.expiry, x.lease.tag)
  | _ => none

variable {r r' : Region} {k : Handle} {e e' : Entry} {bytes bytes' : List UInt8}

/-! ### Good handles -/

/-- Where contents change at one handle only, the entry of another one stays. -/
theorem entry_of_update {k' : Handle} {new : Option (Entry × List UInt8)}
    (held : r'.held = Function.update r.held k' new) (before : r.held k = some (e, bytes))
    (after : r'.held k = some (e', bytes')) :
    k' = k ∧ new = some (e', bytes') ∨ k' ≠ k ∧ e' = e := by
  rw [held, Function.update_apply] at after
  split at after
  · next here => exact Or.inl ⟨here.symm, after⟩
  · next elsewhere =>
    rw [before] at after
    cases after
    exact Or.inr ⟨Ne.symm elsewhere, rfl⟩

theorem Shed.entry {ks : List Handle} {freed : Nat} (h : Shed r ks freed r')
    (before : r.held k = some (e, bytes)) (after : r'.held k = some (e', bytes')) : e' = e := by
  rw [h.held] at after
  split at after
  · cases after
  · rw [before] at after
    cases after
    rfl

/-- A new handle is none of those that are good already, which stay as they are. -/
theorem Placed.entry {now : Int} {q : Request} {k' : Handle} (h : Placed r now q k' r')
    (before : r.held k = some (e, bytes)) (after : r'.held k = some (e', bytes')) :
    k' ≠ k ∧ e' = e := by
  have other : k' ≠ k := by
    rintro rfl
    rw [h.fresh] at before
    cases before
  obtain ⟨e₁, bytes₁, held, -⟩ := h.held
  rcases entry_of_update held before after with ⟨here, -⟩ | kept
  · exact absurd here other
  · exact kept

/-- What a handle names changes by what is done through that handle, as long as it is good. -/
theorem Sound.entry_step (h : r.Sound) (now : Int) (op : Op)
    (before : r.held k = some (e, bytes)) (after : (r.step now op).held k = some (e', bytes')) :
    e' = e.after (r.shown? k now op).toList (r.given? k now op).toList := by
  have untouched (shown : r.shown? k now op = none) (given : r.given? k now op = none)
      (kept : e' = e) : e' = e.after (r.shown? k now op).toList (r.given? k now op).toList := by
    rw [shown, given, kept]
    exact e.after_nil.symm
  have hsame {r' : Region} (same : r'.held = r.held) (after : r'.held k = some (e', bytes')) :
      e' = e := by
    rw [same, before] at after
    cases after
    rfl
  cases op with
  | submit q =>
    rw [step] at after
    rcases h.submit now q with ⟨refusal, -, hsubmit⟩ | ⟨-, -, hsubmit⟩ | ⟨k', r', hsubmit, placed⟩
    · rw [hsubmit] at after
      exact untouched rfl (by simp [given?, hsubmit, Except.toOption]) (hsame rfl after)
    · rw [hsubmit] at after
      exact untouched rfl (by simp [given?, hsubmit, Except.toOption]) (hsame rfl after)
    · rw [hsubmit] at after
      obtain ⟨other, kept⟩ := placed.entry before after
      exact untouched rfl (by simp [given?, hsubmit, Except.toOption, other]) kept
  | view k' f =>
    rw [step] at after
    cases checked : r.table.checked k' with
    | error refusal =>
      have hview := view_of_error checked now f
      rw [hview] at after
      exact untouched (by simp [shown?, hview, Except.toOption]) rfl (hsame rfl after)
    | ok e₁ =>
      obtain ⟨r', hview, -, held, -⟩ := h.view checked now f
      rw [hview] at after
      rcases entry_of_update held before after with ⟨rfl, new⟩ | ⟨other, kept⟩
      · rw [checked_of_held before] at checked
        cases checked
        cases new
        simp [shown?, given?, hview, Except.toOption, Entry.hit_eq_after]
      · exact untouched (by simp [shown?, other]) rfl kept
  | edit k' patch =>
    rw [step] at after
    cases checked : r.table.checked k' with
    | error refusal =>
      rw [edit_of_error checked] at after
      exact untouched rfl rfl (hsame rfl after)
    | ok e₁ =>
      obtain ⟨r', hedit, -, held, -⟩ := h.edit checked (patch.length_run _)
      rw [hedit] at after
      rcases entry_of_update held before after with ⟨rfl, new⟩ | ⟨-, kept⟩
      · rw [checked_of_held before] at checked
        cases checked
        cases new
        exact untouched rfl rfl rfl
      · exact untouched rfl rfl kept
  | update k' bytes₁ =>
    rw [step] at after
    rcases h.update_cases now k' bytes₁ with ⟨refusal, hupdate⟩ |
      ⟨e₁, checked, ⟨r', hupdate, overwritten⟩ | ⟨-, r₁, k'', r', released, hupdate, placed⟩⟩
    · rw [hupdate] at after
      exact untouched rfl (by simp [given?, hupdate, Except.toOption]) (hsame rfl after)
    · rw [hupdate] at after
      rcases entry_of_update overwritten.held before after with ⟨rfl, new⟩ | ⟨other, kept⟩
      · rw [checked_of_held before] at checked
        cases checked
        cases new
        have whole := overwritten.keeps.sound.length_of_held after
        simp [shown?, given?, hupdate, Except.toOption, e.resize_eq_after whole.symm]
      · exact untouched rfl (by simp [given?, hupdate, Except.toOption, other]) kept
    · rw [hupdate] at after
      have shed := released.shed checked
      -- the new handle is not one that was good before the old one was released
      have other : k'' ≠ k := by
        rintro rfl
        exact ((Turn.replace checked released placed).issued k'' rfl).2 (live_of_held before)
      obtain ⟨e₂, bytes₂, held, -⟩ := placed.held
      rw [held, Function.update_of_ne (Ne.symm other)] at after
      exact untouched rfl (by simp [given?, hupdate, Except.toOption, other])
        (shed.entry before after)
  | release k' =>
    rw [step] at after
    cases checked : r.table.checked k' with
    | error refusal =>
      rw [release_of_error checked] at after
      exact untouched rfl rfl (hsame rfl after)
    | ok e₁ =>
      obtain ⟨r', released⟩ := h.release checked
      rw [released.answer] at after
      exact untouched rfl rfl ((released.shed checked).entry before after)
  | collectExpired batch =>
    rw [step] at after
    obtain ⟨freed, r', hcollect, shed⟩ := h.collectExpired batch now
    rw [hcollect] at after
    exact untouched rfl rfl (shed.entry before after)
  | collectLeastUsed batch =>
    rw [step] at after
    obtain ⟨freed, r', hcollect, shed⟩ := h.collectLeastUsed batch now
    rw [hcollect] at after
    exact untouched rfl rfl (shed.entry before after)
  | setThreshold threshold => exact untouched rfl rfl (hsame rfl after)
  | clear =>
    have idle := held_eq_none_of_not_issued (h.clear.2.1 k.slot)
    rw [step, idle] at after
    cases after

theorem live_of_shown? {now t : Int} {op : Op} (shown : r.shown? k now op = some t) :
    r.Live k := by
  cases op with
  | view k' f =>
    cases checked : r.table.checked k' with
    | error refusal => simp [shown?, view_of_error checked, Except.toOption] at shown
    | ok e =>
      rw [shown?] at shown
      split at shown
      · next here => exact here ▸ ⟨e, checked⟩
      · cases shown
  | _ => cases shown

/-- Only what is good, or issued by the same operation, is given a length. -/
theorem Sound.live_or_issued_of_given? (h : r.Sound) {now : Int} {op : Op} {n : Nat}
    (given : r.given? k now op = some n) : r.Live k ∨ r.issues now op = some k := by
  cases op with
  | submit q =>
    rw [given?] at given
    split at given
    · next answered => exact Or.inr answered
    · cases given
  | update k' bytes =>
    rw [given?] at given
    split at given
    · next answered =>
      rcases h.update_cases now k' bytes with ⟨refusal, hupdate⟩ |
        ⟨e, checked, ⟨r', hupdate, -⟩ | ⟨first, r₁, k'', r', -, hupdate, -⟩⟩
      · rw [hupdate] at answered
        cases answered
      · rw [hupdate] at answered
        cases answered
        exact Or.inl ⟨e, checked⟩
      · exact Or.inr ((if_pos first).trans answered)
    · cases given
  | _ => cases given

/-! ### New handles -/

/-- Expiries are held in normal form. -/
def Normal (r : Region) : Prop :=
  ∀ k e bytes, r.held k = some (e, bytes) → e.lease.expiry.normalized = e.lease.expiry

/-- A handle has been issued, with an entry of its own. -/
structure Granted (r : Region) (now : Int) (op : Op) (k : Handle) (e : Entry) : Prop where
  held : ∃ bytes, (r.step now op).held k = some (e, bytes)
  terms : r.terms? op = some (e.lease.expiry, e.lease.tag)
  normal : e.lease.expiry.normalized = e.lease.expiry
  createdAt : e.lease.createdAt = now
  unused : e.lease.hits = 0 ∧ e.lease.lastHitAt = 0
  unread : r.shown? k now op = none
  given : r.given? k now op = some e.lease.len
  whole : r.placement.strategy ≠ .slab → e.span.size = e.lease.len

theorem Placed.granted {r₁ : Region} {now : Int} {q : Request} {op : Op}
    (h : Placed r₁ now q k r') (strategy : r₁.placement.strategy = r.placement.strategy)
    (stepped : r.step now op = r') (terms : r.terms? op = some (q.expiry.normalized, q.tag))
    (unread : r.shown? k now op = none) (given : r.given? k now op = some q.size) :
    ∃ e, Granted r now op k e := by
  obtain ⟨e, bytes, held, -, lease, -, whole⟩ := h.held
  rw [strategy] at whole
  refine ⟨e, ⟨bytes, ?_⟩, ?_, ?_, ?_, ?_, unread, ?_, ?_⟩
  · rw [stepped, held, Function.update_self]
  · rw [lease]
    exact terms
  · rw [lease]
    exact Expiry.normalized_normalized q.expiry
  · rw [lease]
    rfl
  · rw [lease]
    exact ⟨rfl, rfl⟩
  · rw [lease]
    exact given
  · rw [lease]
    exact whole

theorem Sound.granted (h : r.Sound) (normal : r.Normal) {now : Int} {op : Op}
    (issued : r.issues now op = some k) : ∃ e, Granted r now op k e := by
  cases op with
  | submit q =>
    have given : r.given? k now (.submit q) = some q.size := if_pos issued
    rw [issues] at issued
    rcases h.submit now q with ⟨refusal, -, hsubmit⟩ | ⟨-, -, hsubmit⟩ | ⟨k', r', hsubmit, placed⟩
    · rw [hsubmit] at issued
      cases issued
    · rw [hsubmit] at issued
      cases issued
    · rw [hsubmit] at issued
      cases issued
      exact placed.granted rfl (congrArg Prod.snd hsubmit) rfl rfl given
  | update k' bytes =>
    rw [issues] at issued
    split at issued
    · next first =>
      have given : r.given? k now (.update k' bytes) = some bytes.length := if_pos issued
      rcases h.update_cases now k' bytes with ⟨refusal, hupdate⟩ |
        ⟨e, checked, ⟨r', -, overwritten⟩ | ⟨-, r₁, k'', r', released, hupdate, placed⟩⟩
      · rw [hupdate] at issued
        cases issued
      · exact absurd first overwritten.inPlace
      · rw [hupdate] at issued
        cases issued
        have hnormal := normal k' e _ (held_of_checked checked)
        refine placed.granted released.keeps.strategy (congrArg Prod.snd hupdate) ?_ rfl given
        rw [terms?, info, checked, hnormal]
        rfl
    · cases issued
  | _ => cases issued

/-- What is held after an operation was held before, or has just been issued. -/
theorem Sound.held_step (h : r.Sound) (normal : r.Normal) {now : Int} {op : Op}
    (held : (r.step now op).held k = some (e, bytes)) :
    (∃ e₀ bytes₀, r.held k = some (e₀, bytes₀) ∧
      e = e₀.after (r.shown? k now op).toList (r.given? k now op).toList) ∨
    Granted r now op k e := by
  rcases (h.turn now op).fresh k (live_of_held held) with before | issued
  · obtain ⟨⟨e₀, bytes₀⟩, held₀⟩ := Option.ne_none_iff_exists'.1 (live_iff_held.1 before)
    exact Or.inl ⟨e₀, bytes₀, held₀, h.entry_step now op held₀ held⟩
  · obtain ⟨e₀, granted⟩ := h.granted normal issued
    obtain ⟨bytes₀, held₀⟩ := granted.held
    rw [held] at held₀
    cases held₀
    exact Or.inr granted

theorem Sound.normal_step (h : r.Sound) (normal : r.Normal) (now : Int) (op : Op) :
    (r.step now op).Normal := by
  intro k e bytes held
  rcases h.held_step normal held with ⟨e₀, bytes₀, held₀, rfl⟩ | granted
  · exact normal k e₀ bytes₀ held₀
  · exact granted.normal

theorem New.normal (h : New r) : r.Normal := by
  intro k e bytes held
  exact absurd (live_of_held held) (h.not_live k)

end Region

end RegionStore
