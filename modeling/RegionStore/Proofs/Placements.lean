import RegionStore.Proofs.Overlays
import RegionStore.Proofs.Sweeps

/-!
What a placement does as seen from outside: one payload more is live, and whatever else there is
stays as it was. Where the new range lies is up to the strategy.
-/
namespace RegionStore.Region

variable {r r' : Region} {k : Handle} {now : Int} {q : Request} {most : Nat}

/-- What a handle answers with follows from what it names. -/
theorem Sound.answers_congr (h : r.Sound) (keeps : r.Keeps r') (same : r'.held k = r.held k) :
    r'.info k = r.info k ∧ ∀ t, (r'.get t k).1 = (r.get t k).1 := by
  cases checked : r.table.checked k with
  | ok e =>
    have before := held_of_checked checked
    have after := same.trans before
    refine ⟨?_, fun t => ?_⟩
    · rw [info, info, checked, checked_of_held after]
      exact congrArg (fun id => Except.ok (e.snapshot id k.slot)) keeps.id
    · rw [h.get_of_held before, keeps.sound.get_of_held after]
  | error refusal =>
    have before : r.held k = none := held_eq_none_iff.2 ⟨refusal, checked⟩
    obtain ⟨refusal', checked'⟩ := held_eq_none_iff.1 (same.trans before)
    have id : r'.table.region = r.table.region := keeps.id
    obtain rfl : refusal' = refusal := by
      rw [SlotTable.checked_eq_error_iff] at checked checked'
      rw [id] at checked'
      rcases checked with ⟨foreign, rfl⟩ | ⟨own, rfl, -⟩
      · rcases checked' with ⟨-, rfl⟩ | ⟨own, -⟩
        · rfl
        · exact absurd own foreign
      · rcases checked' with ⟨foreign, -⟩ | ⟨-, rfl, -⟩
        · exact absurd own foreign
        · rfl
    refine ⟨?_, fun t => ?_⟩
    · rw [info, info, checked, checked']
      rfl
    · rw [get, get, view_of_error checked, view_of_error checked']

/-- One payload more is live, in a range of its own. Nobody else notices. -/
structure Joined (r : Region) (k : Handle) (span : Span) (r' : Region) : Prop where
  fresh : ∃ refusal, r.info k = .error refusal
  found : ∃ x, r'.info k = .ok x ∧ x.span = span ∧ r'.live.Perm (x :: r.live)
  others : ∀ j, j ≠ k → r'.info j = r.info j ∧ ∀ t, (r'.get t j).1 = (r.get t j).1
  used : r'.used = r.used + span.size

theorem Placed.others (h : Placed r now q k r') (sound : r.Sound) {j : Handle} (other : j ≠ k) :
    r'.info j = r.info j ∧ ∀ t, (r'.get t j).1 = (r.get t j).1 := by
  obtain ⟨e, bytes, held, -⟩ := h.held
  exact sound.answers_congr h.keeps ((congrFun held j).trans (Function.update_of_ne other _ _))

/-- What is live after a placement was live before, but for the new payload. -/
theorem Placed.live_perm (h : Placed r now q k r') (sound : r.Sound) {x : Snapshot}
    (found : r'.info k = .ok x) (fresh : ∀ y ∈ r.live, y.handle ≠ k) :
    r'.live.Perm (x :: r.live) := by
  have named : x.handle = k := (info_eq_ok_iff_mem_live.1 found).2
  have distinct : (x :: r.live).Nodup :=
    List.nodup_cons.2 ⟨fun member => fresh x member named, r.table.nodup_live⟩
  refine (List.perm_ext_iff_of_nodup r'.table.nodup_live distinct).2 fun y => ?_
  rw [List.mem_cons]
  by_cases same : y.handle = k
  · refine ⟨fun live => Or.inl ?_, ?_⟩
    · have := info_of_mem_live live
      rw [same, found] at this
      exact (Except.ok.inj this).symm
    · rintro (rfl | live)
      · exact (info_eq_ok_iff_mem_live.1 found).1
      · exact absurd same (fresh y live)
  · have hinfo := (h.others sound same).1
    have : y ≠ x := fun eq => same (eq ▸ named)
    rw [or_iff_right this]
    refine ⟨fun live => ?_, fun live => ?_⟩
    · exact (info_eq_ok_iff_mem_live.1 (hinfo.symm.trans (info_of_mem_live live))).1
    · exact (info_eq_ok_iff_mem_live.1 (hinfo.trans (info_of_mem_live live))).1

/-- The range that a new payload gets is that of the entry that was set aside for it. -/
theorem Placed.joined (h : Placed r now q k r') (regular : r.Regular most)
    (regular' : r'.Regular most) : ∃ slot t p e,
      r.placement.reserve r.table q.size = some (slot, t, p) ∧ t.find? slot = some e ∧
      r'.table = t.modify slot (·.issue q.size q.tag q.expiry now) ∧ r'.placement = p ∧
      Joined r k e.span r' := by
  obtain ⟨slot, t, p, e, segments, room, found, -, hk, hr'⟩ := place_eq_ok h.answer
  have table : r'.table = t.modify slot (·.issue q.size q.tag q.expiry now) := by rw [hr']
  refine ⟨slot, t, p, e, room, found, table, by rw [hr'], ?_⟩
  obtain ⟨issued, checked, -⟩ := h.checked
  have span : issued.span = e.span := by
    have := (SlotTable.checked_eq_ok_iff.1 checked).2.1
    rw [table, hk, SlotTable.find?_modify, if_pos rfl, found] at this
    cases this
    rfl
  have stale : ¬ r.Live k := by
    rintro ⟨old, good⟩
    have := (SlotTable.checked_eq_ok_iff_issued?.1 good).2.1
    rw [h.idle] at this
    cases this
  have now_found : r'.info k = .ok (issued.snapshot r'.id k.slot) :=
    info_eq_ok_iff.2 ⟨issued, checked, rfl⟩
  have perm := h.live_perm regular.sound now_found fun y live same =>
    stale (live_iff_mem.2 ⟨y, live, same⟩)
  refine ⟨?_, ⟨_, now_found, span, perm⟩, fun j => h.others regular.sound, ?_⟩
  · cases hinfo : r.info k with
    | error refusal => exact ⟨refusal, rfl⟩
    | ok y => exact absurd (live_iff_mem.2 ⟨y, info_eq_ok_iff_mem_live.1 hinfo⟩) stale
  · have htotal := Span.total_perm (perm.map (·.span))
    rw [List.map_cons, Span.total_cons] at htotal
    rw [regular.used_eq, regular'.used_eq, ← span]
    exact htotal.trans (Nat.add_comm _ _)

theorem Regular.submitted (h : r.Regular most) (answer : r.submit now q = (.ok k, r')) :
    r'.Regular most := by
  have := h.step now (.submit q)
  rwa [Region.step, answer] at this

/-- What becomes of a request that the region could meet. With room it is placed where the strategy
lands it, without room the failure is counted and nothing else changes. -/
structure Fitting (r : Region) (now : Int) (q : Request) (room : Prop)
    (lands : Handle → Region → Prop) : Prop where
  succeeds : (∃ k, (r.submit now q).1 = .ok k) ↔ room
  placed : ∀ k r', r.submit now q = (.ok k, r') → lands k r'
  refused : ∀ refusal r', r.submit now q = (.error refusal, r') →
    refusal = .outOfSpace q.size ∧ r' = { r with usage := r.usage.recordFailure }

/-- It is enough to look at what the strategy sets aside. -/
theorem Regular.fitting (h : r.Regular most) (positive : 1 ≤ q.size) (small : q.size ≤ most)
    {room : Prop} {lands : Handle → Region → Prop}
    (full : r.placement.reserve r.table q.size = none → ¬ room)
    (fits : ∀ k r', Placed r now q k r' → r'.Regular most → room ∧ lands k r') :
    Fitting r now q room lands := by
  rcases h.sound.submit now q with ⟨refusal, refused, -⟩ | ⟨-, none, hsubmit⟩ |
    ⟨k, r', hsubmit, placed⟩
  · rw [h.maxRequest, Request.refusal?_eq_none_iff.2 ⟨positive, small⟩] at refused
    cases refused
  · refine ⟨?_, fun k r' answer => ?_, fun refusal r' answer => ?_⟩
    · rw [hsubmit]
      exact iff_of_false nofun (full none)
    · rw [hsubmit] at answer
      cases answer
    · rw [hsubmit] at answer
      cases answer
      exact ⟨rfl, rfl⟩
  · obtain ⟨hroom, hlands⟩ := fits k r' placed (h.submitted hsubmit)
    refine ⟨?_, fun k' r'' answer => ?_, fun refusal r'' answer => ?_⟩
    · rw [hsubmit]
      exact iff_of_true ⟨k, rfl⟩ hroom
    · rw [hsubmit] at answer
      cases answer
      exact hlands
    · rw [hsubmit] at answer
      cases answer

end RegionStore.Region
