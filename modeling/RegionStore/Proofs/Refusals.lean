import RegionStore.Proofs.Contents
import RegionStore.Proofs.Moves

/-!
Operations that fail. A refusal leaves the store as it was, and a lack of room leaves its mark on
counts of failures and on the routing only.
-/
namespace RegionStore

variable {α β : Type}

/-- The answer is that there is no room. -/
def Answer.IsExhaustion : Answer α → Prop
  | .refused refusal => refusal.isExhaustion = true
  | .noRoom => True
  | _ => False

/-- The answer is that the operation was not done. -/
def Answer.Failed : Answer α → Prop
  | .refused _ => True
  | .noRoom => True
  | _ => False

theorem Answer.IsExhaustion.failed {answer : Answer α} (h : answer.IsExhaustion) :
    answer.Failed := by
  cases answer with
  | refused refusal => trivial
  | noRoom => trivial
  | _ => exact h

def Store.Op.Releases : Op α → Prop
  | release _ => True
  | _ => False

/-- A refusal of what was asked for, neither for a lack of room nor for bookkeeping that contradicts
itself. -/
def StoreError.Outright : StoreError → Prop
  | outOfSpace _ => False
  | invariantViolation _ => False
  | _ => True

theorem StoreError.Outright.isExhaustion {refusal : StoreError} (h : refusal.Outright) :
    refusal.isExhaustion = false := by
  cases refusal with
  | outOfSpace requested => exact h.elim
  | _ => rfl

theorem Request.outright_of_refusal? {q : Request} {limit : Nat} {refusal : StoreError}
    (h : q.refusal? limit = some refusal) : refusal.Outright := by
  unfold Request.refusal? at h
  split at h
  · cases h
    trivial
  · split at h
    · cases h
      trivial
    · cases h

theorem SlotTable.outright_of_checked {t : SlotTable} {k : Handle} {refusal : StoreError}
    (h : t.checked k = .error refusal) : refusal.Outright := by
  rcases SlotTable.checked_eq_error_iff.1 h with ⟨-, rfl⟩ | ⟨-, rfl, -⟩
  · trivial
  · trivial

namespace Region

variable {r : Region} {k : Handle}

theorem Sound.update_refused (h : r.Sound) {now : Int} {bytes : List UInt8} {refusal : StoreError}
    (refused : (r.update now k bytes).1 = .error refusal) : refusal.Outright := by
  cases checked : r.table.checked k with
  | error other =>
    rw [update_of_error checked] at refused
    split at refused
    · cases refused
      trivial
    · cases refused
      exact SlotTable.outright_of_checked checked
  | ok e =>
    by_cases long : e.span.size < bytes.length
    · rw [update_of_long checked long] at refused
      cases refused
      trivial
    · cases bytes with
      | nil =>
        rw [update_of_empty] at refused
        cases refused
        trivial
      | cons b rest =>
        have positive : 1 ≤ (b :: rest).length := by simp
        rcases h.update checked positive (Nat.le_of_not_lt long) now with
          ⟨r', hupdate, -⟩ | ⟨-, r₁, k', r', -, hupdate, -⟩
        · rw [hupdate] at refused
          cases refused
        · rw [hupdate] at refused
          cases refused

end Region

namespace Store

variable {s s' : Store} {k : Handle} {now : Int}

theorem outright_missing (regions : Nat) (k : Handle) : (missing regions k).Outright := by
  unfold missing
  split <;> trivial

theorem Sound.update_refused (h : s.Sound) (now : Int) (k : Handle) (bytes : List UInt8)
    (refusal : StoreError) (refused : (s.update now k bytes).1 = .error refusal) :
    refusal.Outright := by
  cases found : s.regions[k.region]? with
  | none =>
    rw [Store.update, onRegion_of_getElem?_eq_none found] at refused
    cases refused
    trivial
  | some r =>
    rw [Store.update, onRegion_of_getElem? found] at refused
    exact (h k.region r found).1.update_refused refused

/-- A refusal is not for lack of room and leaves no mark. -/
def Clean (s : Store) (o : Outcome Store β) : Prop :=
  ∀ refusal, o.1 = .error refusal → refusal.isExhaustion = false ∧ o.2 = s

theorem Clean.of_ok {value : β} : Clean s (.ok value, s') := nofun

theorem Clean.of_error {refusal : StoreError} (other : refusal.isExhaustion = false) :
    Clean s ((.error refusal, s) : Outcome Store β) := by
  rintro _ ⟨⟩
  exact ⟨other, rfl⟩

theorem Sound.clean_view (h : s.Sound) (now : Int) (k : Handle) (f : List UInt8 → β) :
    Clean s (s.view now k f) := by
  rcases h.view now k f with ⟨e, bytes, s', -, hview, -⟩ | ⟨-, hview⟩
  · rw [hview]
    exact .of_ok
  · rw [hview]
    exact .of_error (outright_missing _ k).isExhaustion

theorem Sound.clean_edit (h : s.Sound) (k : Handle) (patch : Patch β) :
    Clean s (s.edit k patch.run) := by
  rcases h.edit k patch with ⟨e, bytes, s', -, hedit, -⟩ | ⟨-, hedit⟩
  · rw [hedit]
    exact .of_ok
  · rw [hedit]
    exact .of_error (outright_missing _ k).isExhaustion

theorem Sound.clean_update (h : s.Sound) (now : Int) (k : Handle) (bytes : List UInt8) :
    Clean s (s.update now k bytes) := by
  intro refusal refused
  rcases h.update now k bytes with ⟨other, hupdate⟩ | ⟨k', s', hupdate, -⟩
  · exact ⟨(h.update_refused now k bytes refusal refused).isExhaustion, by rw [hupdate]⟩
  · rw [hupdate] at refused
    cases refused

/-- What an operation may leave behind when it fails. -/
structure Harmless (s : Store) (op : Op α) (o : Answer α × Store) : Prop where
  refused : ∀ refusal, o.1 = .refused refusal → refusal.isExhaustion = false → o.2 = s
  stale : op.Releases → o.1 = .count 0 → o.2 = s
  exhausted : o.1.IsExhaustion →
    op.SeeksRoom ∧ o.2 = s.outOfRoom ∧ (o.1 = .noRoom ↔ s.onExhaustion = .returnNone)

variable {op : Op α}

theorem Harmless.of_answer {answer : Answer α} (answered : ¬ answer.Failed)
    (stale : op.Releases → answer = .count 0 → s' = s) : Harmless s op (answer, s') := by
  refine ⟨?_, stale, fun exhausted => absurd exhausted.failed answered⟩
  rintro refusal rfl
  exact absurd trivial answered

theorem Harmless.of_refused {refusal : StoreError} (other : refusal.isExhaustion = false) :
    Harmless s op (.refused refusal, s) := by
  refine ⟨fun _ _ _ => rfl, fun _ _ => rfl, fun exhausted => ?_⟩
  rw [Answer.IsExhaustion, other] at exhausted
  cases exhausted

theorem Clean.harmless {o : Outcome Store β} (h : Clean s o) {f : β → Answer α}
    (answered : ∀ value, ¬ (f value).Failed) (elsewhere : ¬ op.Releases) :
    Harmless s op (o.map (.ofExcept f) id) := by
  rcases o with ⟨refusal | value, s'⟩
  · obtain ⟨other, rfl⟩ := h refusal rfl
    exact .of_refused other
  · exact .of_answer (answered value) fun releases => absurd releases elsewhere

/-- What seeks room is refused outright, or finds none, or gets it. -/
theorem harmless_of_seeksRoom {o : Outcome Store (Option Handle)}
    (h : (∃ refusal, refusal.Outright ∧ o = (.error refusal, s)) ∨
      (∃ q, o = (s.noRoom q, s.outOfRoom)) ∨ ∃ k s', o = (.ok (some k), s'))
    (seeks : op.SeeksRoom) (elsewhere : ¬ op.Releases) :
    Harmless s op (o.map (.ofExcept .ofPlace) id) := by
  rcases h with ⟨refusal, outright, rfl⟩ | ⟨q, rfl⟩ | ⟨k, s', rfl⟩
  · exact .of_refused outright.isExhaustion
  · unfold noRoom
    cases honExhaustion : s.onExhaustion with
    | returnNone =>
      refine ⟨?_, fun releases => absurd releases elsewhere,
        fun _ => ⟨seeks, rfl, iff_of_true rfl honExhaustion⟩⟩
      rintro _ ⟨⟩
    | error =>
      refine ⟨?_, fun releases => absurd releases elsewhere,
        fun _ => ⟨seeks, rfl, iff_of_false nofun (by rw [honExhaustion]; nofun)⟩⟩
      rintro _ ⟨⟩ other
      cases other
  · exact .of_answer id fun releases => absurd releases elsewhere

theorem Regular.submit_seeksRoom (h : s.Regular) (now : Int) (q : Request) :
    (∃ refusal, refusal.Outright ∧ s.submit now q = (.error refusal, s)) ∨
      (∃ q', s.submit now q = (s.noRoom q', s.outOfRoom)) ∨
      ∃ k s', s.submit now q = (.ok (some k), s') := by
  rcases h.submit_cases now q with ⟨refusal, hrefusal, hsubmit⟩ | hsubmit | ⟨k, s', hsubmit, -⟩
  · exact Or.inl ⟨refusal, Request.outright_of_refusal? hrefusal, hsubmit⟩
  · exact Or.inr (Or.inl ⟨q, hsubmit⟩)
  · exact Or.inr (Or.inr ⟨k, s', hsubmit⟩)

theorem Regular.move_seeksRoom (h : s.Regular) (now : Int) (k : Handle) (bytes : List UInt8) :
    (∃ refusal, refusal.Outright ∧ s.move now k bytes = (.error refusal, s)) ∨
      (∃ q, s.move now k bytes = (s.noRoom q, s.outOfRoom)) ∨
      ∃ k' s', s.move now k bytes = (.ok (some k'), s') := by
  cases held : s.held k with
  | none =>
    have hinfo := h.sound.info_of_not_held held
    have hmove : s.move now k bytes = (.error (missing s.regions.length k), s) := by
      simp only [Store.move, hinfo]
    exact Or.inl ⟨_, outright_missing _ k, hmove⟩
  | some found =>
    rcases h.move_cases held now bytes with ⟨refusal, hrefusal, hmove⟩ | hmove |
      ⟨k', s', hmove, -⟩
    · exact Or.inl ⟨refusal, Request.outright_of_refusal? hrefusal, hmove⟩
    · exact Or.inr (Or.inl ⟨_, hmove⟩)
    · exact Or.inr (Or.inr ⟨k', s', hmove⟩)

theorem Regular.updateOrMove_seeksRoom (h : s.Regular) (now : Int) (k : Handle)
    (bytes : List UInt8) :
    (∃ refusal, refusal.Outright ∧ s.updateOrMove now k bytes = (.error refusal, s)) ∨
      (∃ q, s.updateOrMove now k bytes = (s.noRoom q, s.outOfRoom)) ∨
      ∃ k' s', s.updateOrMove now k bytes = (.ok (some k'), s') := by
  have hclean := h.sound.clean_update now k bytes
  have hrefused := h.sound.update_refused now k bytes
  unfold updateOrMove
  generalize s.update now k bytes = answer at hclean hrefused
  rcases answer with ⟨refusal | k', s'⟩
  · obtain ⟨-, rfl⟩ := hclean refusal rfl
    cases refusal with
    | capacityExceeded requested capacity => exact h.move_seeksRoom now k bytes
    | _ => exact Or.inl ⟨_, hrefused _ rfl, rfl⟩
  · exact Or.inr (Or.inr ⟨k', s', rfl⟩)

theorem Sound.harmless_release (h : s.Sound) (k : Handle) :
    Harmless s op ((s.release k).map (.ofExcept .count) id) := by
  rcases h.release k with ⟨e, bytes, s', -, hrelease, -⟩ | ⟨-, hrelease⟩
  · rw [hrelease]
    refine .of_answer id fun _ zero => ?_
    injection zero with zero
    exact absurd zero (Nat.ne_of_gt e.span.size_pos)
  · rw [hrelease]
    split
    · exact .of_answer id fun _ _ => rfl
    · exact .of_refused rfl

theorem Regular.harmless_perform (h : s.Regular) (now : Int) (op : Op α) :
    Harmless s op (s.perform now op) := by
  cases op with
  | put bytes expiry tag => exact harmless_of_seeksRoom (h.submit_seeksRoom now _) trivial id
  | reserve size expiry tag => exact harmless_of_seeksRoom (h.submit_seeksRoom now _) trivial id
  | get k =>
    exact (h.sound.clean_view now k fun payload => payload).harmless (fun _ => id) id
  | view k f => exact (h.sound.clean_view now k f).harmless (fun _ => id) id
  | edit k patch => exact (h.sound.clean_edit k patch).harmless (fun _ => id) id
  | update k bytes =>
    exact (h.sound.clean_update now k bytes).harmless (fun _ => id) id
  | updateOrMove k bytes =>
    exact harmless_of_seeksRoom (h.updateOrMove_seeksRoom now k bytes) trivial id
  | release k => exact h.sound.harmless_release k
  | info k =>
    simp only [Store.perform]
    rcases h.sound.info k with ⟨e, bytes, -, hinfo, -⟩ | ⟨-, hinfo⟩
    · rw [hinfo]
      exact .of_answer id False.elim
    · rw [hinfo]
      exact .of_refused (outright_missing _ k).isExhaustion
  | collectExpired =>
    obtain ⟨freed, s', hcollect, -⟩ := h.sound.collectExpired now
    simp only [Store.perform, hcollect]
    exact .of_answer id False.elim
  | collectLeastUsed =>
    obtain ⟨freed, s', hcollect, -⟩ := h.sound.collectLeastUsed now
    simp only [Store.perform, hcollect]
    exact .of_answer id False.elim
  | clear => exact .of_answer id False.elim

/-- An operation that is refused, and a release of nothing, leave a store exactly as it was. A lack
of room, told in the way the store is set up for, adds to counts of failures and moves the routing
on, and under every handle all is found as before. -/
theorem failures_change_nothing (h : s.Reachable) (now : Int) (op : Op α) :
    Harmless s op (s.perform now op) ∧ Untouched s now s.outOfRoom :=
  ⟨h.regular.harmless_perform now op, h.regular.sound.untouched_outOfRoom now⟩

/-- Two regions with two bytes and one byte left, one of which was too full before: a payload of two
bytes cannot grow to four, and stays where it is. -/
theorem failures_change_nothing_full : ∃ s : Store, ∃ op : Op Unit, s.Reachable ∧
    op = .updateOrMove ⟨0, 1, 0⟩ [4, 5, 6, 7] ∧ (s.perform 30 op).1 = .noRoom ∧
    (s.perform 30 op).2 = s.outOfRoom ∧
    (s.perform 30 op).2.regions.map (·.usage.failures) = [2, 1] ∧
    ((s.perform 30 op).2.get 30 ⟨0, 1, 0⟩).1 = .ok [1, 2] := by
  let settings : Settings := ⟨⟨2, 4, .firstFit, [], 1, false⟩, .default, .default, .default⟩
  have reachable := ((Reachable.build (rfl : build settings = .ok _) (by decide)).perform 10
    (.put [1, 2] .never 7 : Op Unit)).perform 20 (.put [3, 4, 5] .never 8 : Op Unit)
  generalize hs : Prod.snd _ = s at reachable
  obtain ⟨op, hop⟩ : ∃ op : Op Unit, op = .updateOrMove ⟨0, 1, 0⟩ [4, 5, 6, 7] := ⟨_, rfl⟩
  obtain ⟨answer, failures, bytes⟩ : (s.perform 30 op).1 = .noRoom ∧
      (s.perform 30 op).2.regions.map (·.usage.failures) = [2, 1] ∧
      (s.get 30 ⟨0, 1, 0⟩).1 = .ok [1, 2] := by
    subst hs hop
    decide
  obtain ⟨harmless, untouched⟩ := failures_change_nothing reachable 30 op
  obtain ⟨-, room, -⟩ := harmless.exhausted (by rw [answer]; trivial)
  obtain ⟨-, hget⟩ := untouched.found ⟨0, 1, 0⟩
  refine ⟨s, op, reachable, hop, answer, room, failures, ?_⟩
  rw [room, hget, bytes]

end Store

end RegionStore
