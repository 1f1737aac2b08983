import RegionStore.Proofs.Operations
import RegionStore.Region.Evict

/-!
What releasing a batch of handles does, and with it both kinds of eviction: the handles of the
batch name nothing any more, and every slot is as it was or has been released once.
-/
namespace RegionStore.Region

structure Shed (r : Region) (ks : List Handle) (freed : Nat) (r' : Region) : Prop where
  keeps : r.Keeps r'
  held : ∀ k, r'.held k = if k ∈ ks then none else r.held k
  slots : ∀ x, (r'.table.issued? x = r.table.issued? x ∧ r'.generationAt x = r.generationAt x) ∨
    (r.table.issued? x ≠ none ∧ r'.table.issued? x = none ∧
      r'.generationAt x = r.generationAt x + 1)
  segments : r'.segments = r.segments
  bytes : freed + r'.table.issuedBytes = r.table.issuedBytes

variable {r r' r'' : Region} {k : Handle} {ks : List Handle} {freed freed' : Nat}

theorem Sound.shed_nil (h : r.Sound) : Shed r [] 0 r :=
  ⟨h.keeps, by simp, fun _ => Or.inl ⟨rfl, rfl⟩, rfl, Nat.zero_add _⟩

theorem Released.shed {e : Entry} (h : Released r k e r') (checked : r.table.checked k = .ok e) :
    Shed r [k] e.span.size r' := by
  obtain ⟨-, issued, generation⟩ := SlotTable.checked_eq_ok_iff_issued?.1 checked
  refine ⟨h.keeps, fun k' => ?_, fun x => ?_, h.segments, h.bytes⟩
  · rw [h.held, Function.update_apply]
    simp only [List.mem_singleton]
  · rw [h.issued, h.generations]
    by_cases here : x = k.slot
    · refine Or.inr ⟨by rw [here, issued]; nofun, if_pos here, ?_⟩
      rw [here, Function.update_self, ← generation]
      congr 1
      exact (SlotTable.generationAt_of_find? (SlotTable.issued?_eq_some_iff.1 issued).1).symm
    · exact Or.inl ⟨if_neg here, Function.update_of_ne here _ _⟩

/-- A handle that names nothing may stand in a batch. -/
theorem Sound.shed_stale (h : r.Sound) (stale : r.held k = none) : Shed r [k] 0 r := by
  refine ⟨h.keeps, fun k' => ?_, fun _ => Or.inl ⟨rfl, rfl⟩, rfl, Nat.zero_add _⟩
  split
  · next same => rw [List.mem_singleton.1 same, stale]
  · rfl

theorem Shed.trans {ks' : List Handle} (h : Shed r ks freed r') (h' : Shed r' ks' freed' r'') :
    Shed r (ks ++ ks') (freed + freed') r'' := by
  refine ⟨h.keeps.trans h'.keeps, fun k => ?_, fun x => ?_, h'.segments.trans h.segments, ?_⟩
  · rw [h'.held, h.held]
    simp only [List.mem_append]
    grind
  · rcases h.slots x with ⟨hissued, hgeneration⟩ | ⟨htaken, hissued, hgeneration⟩
    · rcases h'.slots x with ⟨hissued', hgeneration'⟩ | ⟨htaken', hissued', hgeneration'⟩
      · exact Or.inl ⟨hissued'.trans hissued, hgeneration'.trans hgeneration⟩
      · exact Or.inr ⟨hissued ▸ htaken', hissued', by rw [hgeneration', hgeneration]⟩
    · rcases h'.slots x with ⟨hissued', hgeneration'⟩ | ⟨htaken', -, -⟩
      · exact Or.inr ⟨htaken, hissued'.trans hissued, hgeneration'.trans hgeneration⟩
      · exact absurd hissued htaken'
  · have := h.bytes
    have := h'.bytes
    omega

/-- A batch of handles to the region is released without a refusal. -/
theorem Sound.releaseAll (h : r.Sound) (own : ∀ k ∈ ks, k.region = r.id) :
    ∃ freed r', r.releaseAll ks = (.ok freed, r') ∧ Shed r ks freed r' := by
  induction ks generalizing r with
  | nil => exact ⟨0, r, rfl, h.shed_nil⟩
  | cons k rest ih =>
    have hfirst : ∃ freed r', r.release k = (.ok freed, r') ∧ Shed r [k] freed r' := by
      cases checked : r.table.checked k with
      | ok e =>
        obtain ⟨r', released⟩ := h.release checked
        exact ⟨_, r', released.answer, released.shed checked⟩
      | error refusal =>
        refine ⟨0, r, ?_, h.shed_stale (held_eq_none_iff.2 ⟨refusal, checked⟩)⟩
        rw [release_of_error checked, if_pos (own k (by simp))]
    obtain ⟨freed, r₁, hrelease, shed⟩ := hfirst
    obtain ⟨others, r', hothers, shed'⟩ := ih shed.keeps.sound fun k' member => by
      rw [shed.keeps.id]
      exact own k' (by simp [member])
    refine ⟨freed + others, r', ?_, shed.trans shed'⟩
    simp only [Region.releaseAll, hrelease, hothers]

/-- What is picked from the live payloads is released. -/
theorem Sound.releaseLive (h : r.Sound) (picked : List Snapshot) (live : ∀ s ∈ picked, s ∈ r.live) :
    ∃ freed r', r.releaseAll (picked.map (·.handle)) = (.ok freed, r') ∧
      Shed r (picked.map (·.handle)) freed r' := by
  apply h.releaseAll
  intro k member
  obtain ⟨s, hs, rfl⟩ := List.mem_map.1 member
  obtain ⟨slot, e, -, rfl⟩ := SlotTable.mem_live_iff.1 (live s hs)
  rfl

theorem Sound.collectExpired (h : r.Sound) (batch : Nat) (now : Int) :
    ∃ freed r', r.collectExpired batch now = (.ok freed, r') ∧
      Shed r ((expiredBatch r.live batch now).map (·.handle)) freed r' := by
  apply h.releaseLive
  exact fun s picked => mem_of_mem_expiredBatch picked

/-- The payloads that a sweep for room evicts. -/
def victims (r : Region) (batch : Nat) (now : Int) : List Snapshot :=
  leastUsed r.live now (evictionCount r.live.length batch)

theorem Sound.collectLeastUsed (h : r.Sound) (batch : Nat) (now : Int) :
    ∃ freed r', r.collectLeastUsed batch now = (.ok freed, r') ∧
      Shed r (if r.inShortage then (r.victims batch now).map (·.handle) else []) freed r' := by
  unfold Region.collectLeastUsed
  cases r.inShortage with
  | false => exact ⟨0, r, rfl, h.shed_nil⟩
  | true =>
    obtain ⟨freed, r', hrelease, shed⟩ := h.releaseLive (r.victims batch now)
      fun s picked => mem_of_mem_leastUsed picked
    cases live : r.live with
    | nil =>
      refine ⟨0, r, rfl, ?_⟩
      simpa [victims, live, leastUsed] using h.shed_nil
    | cons s rest =>
      rw [victims, live] at hrelease
      simp only [hrelease, Bool.not_true, Bool.false_eq_true, if_false, if_true,
        List.isEmpty_cons]
      refine ⟨freed, _, rfl, ?_⟩
      split
      · have hkeeps := shed.keeps.sound.retally r'.usage.resetFailures rfl
        exact ⟨shed.keeps.trans hkeeps, shed.held, shed.slots, shed.segments, shed.bytes⟩
      · exact shed

end RegionStore.Region
