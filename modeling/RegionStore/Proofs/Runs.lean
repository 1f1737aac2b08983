import RegionStore.Proofs.Evictions
import RegionStore.Proofs.NewRegions

/-!
Runs of a region: any operations in any order, each at some reading of the clock. A region stays
sound along every run.
-/
namespace RegionStore

/-- A change of a payload in place, with what it answers. The number of bytes stays. -/
structure Patch (α : Type) where
  run : List UInt8 → List UInt8 × α
  length_run : ∀ bytes, (run bytes).1.length = bytes.length

/-- The change of a payload without what it answers. -/
def Patch.silent {α : Type} (patch : Patch α) : Patch Unit :=
  ⟨fun bytes => ((patch.run bytes).1, ()), patch.length_run⟩

namespace Region

inductive Op where
  | submit (q : Request)
  | view (k : Handle) (f : List UInt8 → List UInt8)
  | edit (k : Handle) (patch : Patch Unit)
  | update (k : Handle) (bytes : List UInt8)
  | release (k : Handle)
  | collectExpired (batch : Nat)
  | collectLeastUsed (batch : Nat)
  | setThreshold (threshold : UInt64)
  | clear

def step (r : Region) (now : Int) : Op → Region
  | .submit q => (r.submit now q).2
  | .view k f => (r.view now k f).2
  | .edit k patch => (r.edit k patch.run).2
  | .update k bytes => (r.update now k bytes).2
  | .release k => (r.release k).2
  | .collectExpired batch => (r.collectExpired batch now).2
  | .collectLeastUsed batch => (r.collectLeastUsed batch now).2
  | .setThreshold threshold => r.setThreshold threshold
  | .clear => r.clear

/-- The handle that an operation issues. In place, an update answers with the handle it was given,
which is not a new one. -/
def issues (r : Region) (now : Int) : Op → Option Handle
  | .submit q => (r.submit now q).1.toOption
  | .update k bytes =>
    if r.placement.strategy = .firstFit then (r.update now k bytes).1.toOption else none
  | _ => none

/-- The handles that an operation puts an end to: the one that is released, those a sweep picks, the
one an update issues a new handle for, and all live ones together. -/
def ends (r : Region) (now : Int) : Op → List Handle
  | .release k => [k]
  | .collectExpired batch => (expiredBatch r.live batch now).map (·.handle)
  | .collectLeastUsed batch =>
    if r.inShortage then (r.victims batch now).map (·.handle) else []
  | .update k bytes => (r.issues now (.update k bytes)).toList.map fun _ => k
  | .clear => r.live.map (·.handle)
  | .submit _ => []
  | .view _ _ => []
  | .edit _ _ => []
  | .setThreshold _ => []

def run (r : Region) : List (Int × Op) → Region
  | [] => r
  | (now, op) :: rest => (r.step now op).run rest

theorem run_append (r : Region) (ops ops' : List (Int × Op)) :
    r.run (ops ++ ops') = (r.run ops).run ops' := by
  induction ops generalizing r with
  | nil => rfl
  | cons head rest ih => exact ih (r.step head.1 head.2)

/-- The state after a view depends on the handle only, not on what is shown. -/
theorem view_eq_step {α : Type} (r : Region) (now : Int) (k : Handle) (f : List UInt8 → α) :
    (r.view now k f).2 = r.step now (.view k fun bytes => bytes) := by
  change (r.view now k f).2 = (r.view now k fun bytes => bytes).2
  unfold view
  split
  · rfl
  · split <;> rfl

theorem run_view {α : Type} (r : Region) (now : Int) (k : Handle) (f : List UInt8 → α) :
    ∃ ops, (r.view now k f).2 = r.run ops :=
  ⟨[(now, .view k fun bytes => bytes)], r.view_eq_step now k f⟩

/-- The state after a change of a payload does not depend on what the change answers. -/
theorem edit_eq_step {α : Type} (r : Region) (now : Int) (k : Handle) (patch : Patch α) :
    (r.edit k patch.run).2 = r.step now (.edit k patch.silent) := by
  change (r.edit k patch.run).2 = (r.edit k patch.silent.run).2
  unfold edit Segment.edit
  split
  · rfl
  · next e segment located =>
    cases segment.view e k.generation <;> rfl

theorem run_edit {α : Type} (r : Region) (now : Int) (k : Handle) (patch : Patch α) :
    ∃ ops, (r.edit k patch.run).2 = r.run ops :=
  ⟨[(now, .edit k patch.silent)], r.edit_eq_step now k patch⟩

/-- The handles issued along a run, in order. -/
def handles (r : Region) : List (Int × Op) → List Handle
  | [] => []
  | (now, op) :: rest => (r.issues now op).toList ++ (r.step now op).handles rest

/-- The handle names something. -/
def Live (r : Region) (k : Handle) : Prop := ∃ e, r.table.checked k = .ok e

variable {r r' : Region} {k : Handle}

theorem live_iff_mem : r.Live k ↔ ∃ s ∈ r.live, s.handle = k := by
  constructor
  · rintro ⟨e, checked⟩
    obtain ⟨own, issued, generation⟩ := SlotTable.checked_eq_ok_iff_issued?.1 checked
    refine ⟨_, SlotTable.mem_live_iff.2 ⟨k.slot, e, issued, rfl⟩, ?_⟩
    simp only [Entry.snapshot, generation, ← own]
  · rintro ⟨s, member, rfl⟩
    obtain ⟨slot, e, issued, rfl⟩ := SlotTable.mem_live_iff.1 member
    exact ⟨e, SlotTable.checked_eq_ok_iff_issued?.2 ⟨rfl, issued, rfl⟩⟩

theorem live_iff_held : r.Live k ↔ r.held k ≠ none := by
  rw [ne_eq, held_eq_none_iff, Live]
  cases r.table.checked k <;> simp

theorem live_of_held {x : Entry × List UInt8} (held : r.held k = some x) : r.Live k :=
  live_iff_held.2 (held ▸ Option.some_ne_none x)

theorem New.not_live (h : New r) (k : Handle) : ¬ r.Live k := fun good =>
  live_iff_held.1 good (held_eq_none_of_not_issued (h.idle k.slot))

theorem exists_issue {ops : List (Int × Op)} (member : k ∈ r.handles ops) :
    ∃ earlier now op later, ops = earlier ++ (now, op) :: later ∧
      (r.run earlier).issues now op = some k := by
  induction ops generalizing r with
  | nil => cases member
  | cons head rest ih =>
    obtain ⟨now, op⟩ := head
    rw [handles, List.mem_append, Option.mem_toList] at member
    rcases member with issued | later
    · exact ⟨[], now, op, rest, rfl, issued⟩
    · obtain ⟨earlier, now', op', rest', rfl, issued⟩ := ih later
      exact ⟨(now, op) :: earlier, now', op', rest', rfl, issued⟩

theorem Live.own (h : r.Live k) : k.region = r.id := by
  obtain ⟨e, checked⟩ := h
  exact (SlotTable.checked_eq_ok_iff_issued?.1 checked).1

theorem Live.generation (h : r.Live k) : r.generationAt k.slot = k.generation := by
  obtain ⟨e, checked⟩ := h
  obtain ⟨-, issued, generation⟩ := SlotTable.checked_eq_ok_iff_issued?.1 checked
  have found := (SlotTable.issued?_eq_some_iff.1 issued).1
  exact (SlotTable.generationAt_of_find? found).trans generation

private theorem succ_ne (g : UInt32) : g + 1 ≠ g := by
  intro h
  have := congrArg UInt32.toNat h
  simp only [UInt32.toNat_add, UInt32.reduceToNat] at this
  omega

/-- What one operation does to handles. Those that it puts an end to fall behind the generations of
their slots, the others stay good, and none becomes good but the one that is issued. -/
structure Turn (r : Region) (issued : Option Handle) (ended : List Handle) (r' : Region) :
    Prop where
  keeps : r.Keeps r'
  live_iff : ∀ k, r'.Live k ↔ (r.Live k ∧ k ∉ ended) ∨ issued = some k
  new : ∀ k, issued = some k → ¬ r.Live k
  behind : ∀ k ∈ ended, r.Live k → r'.generationAt k.slot ≠ r.generationAt k.slot
  moved : ∀ x, r'.generationAt x = r.generationAt x ∨ r'.generationAt x = r.generationAt x + 1

namespace Turn

variable {fresh? : Option Handle} {ended : List Handle}

theorem kept (h : Turn r fresh? ended r') (k : Handle) (good : r.Live k) :
    r'.Live k ∨ r'.generationAt k.slot ≠ r.generationAt k.slot := by
  by_cases member : k ∈ ended
  · exact Or.inr (h.behind k member good)
  · exact Or.inl ((h.live_iff k).2 (Or.inl ⟨good, member⟩))

theorem fresh (h : Turn r fresh? ended r') (k : Handle) (good : r'.Live k) :
    r.Live k ∨ fresh? = some k :=
  ((h.live_iff k).1 good).imp_left And.left

theorem issued (h : Turn r fresh? ended r') (k : Handle) (member : fresh? = some k) :
    r'.Live k ∧ ¬ r.Live k :=
  ⟨(h.live_iff k).2 (Or.inr member), h.new k member⟩

theorem of_live_iff (keeps : r.Keeps r') (live : ∀ k, r'.Live k ↔ r.Live k)
    (generations : r'.generationAt = r.generationAt) : Turn r none [] r' :=
  ⟨keeps, fun k => by simp [live], nofun, nofun, fun x => Or.inl (congrFun generations x)⟩

/-- New contents for a good handle make no handle good or bad. -/
theorem of_update (keeps : r.Keeps r') {e : Entry} (checked : r.table.checked k = .ok e)
    {found : Entry × List UInt8} (held : r'.held = Function.update r.held k (some found))
    (generations : r'.generationAt = r.generationAt) : Turn r none [] r' := by
  refine of_live_iff keeps (fun k' => ?_) generations
  rw [live_iff_held, live_iff_held, held, Function.update_apply]
  split
  · next here => simp [here, held_of_checked checked]
  · rfl

end Turn

theorem Sound.turn_refl (h : r.Sound) : Turn r none [] r :=
  .of_live_iff h.keeps (fun _ => Iff.rfl) rfl

theorem Placed.turn {now : Int} {q : Request} (h : Placed r now q k r') :
    Turn r (some k) [] r' := by
  obtain ⟨e, bytes, held, -⟩ := h.held
  refine ⟨h.keeps, fun k' => ?_, ?_, nofun, fun x => Or.inl (congrFun h.generations x)⟩
  · rw [live_iff_held, live_iff_held, held, Function.update_apply]
    split
    · next here => simp [here]
    · next other => simp [Ne.symm other]
  · rintro _ ⟨⟩ ⟨e', checked⟩
    have := (SlotTable.checked_eq_ok_iff_issued?.1 checked).2.1
    rw [h.idle] at this
    cases this

theorem Shed.live_iff {ks : List Handle} {freed : Nat} (h : Shed r ks freed r') :
    r'.Live k ↔ r.Live k ∧ k ∉ ks := by
  rw [live_iff_held, live_iff_held, h.held]
  split
  · next released => exact iff_of_false (fun none => none rfl) fun left => left.2 released
  · next kept => exact (and_iff_left kept).symm

theorem Shed.turn {ks : List Handle} {freed : Nat} (h : Shed r ks freed r') :
    Turn r none ks r' := by
  refine ⟨h.keeps, fun k => ?_, nofun, fun k member good => ?_,
    fun x => (h.slots x).imp (·.2) (·.2.2)⟩
  · rw [h.live_iff, or_iff_left nofun]
  · rcases h.slots k.slot with ⟨issued, -⟩ | ⟨-, -, generation⟩
    · obtain ⟨e, checked⟩ := good
      have still : r'.Live k := by
        refine ⟨e, ?_⟩
        rw [SlotTable.checked_eq_ok_iff_issued?] at checked ⊢
        rw [issued]
        exact ⟨checked.1.trans h.keeps.id.symm, checked.2⟩
      exact absurd member (h.live_iff.1 still).2
    · exact fun same => succ_ne _ (generation.symm.trans same)

theorem Sound.turn_clear (h : r.Sound) : Turn r none (r.live.map (·.handle)) r.clear := by
  obtain ⟨keeps, idle, generation⟩ := h.clear
  refine ⟨keeps, fun k => ?_, nofun, fun k _ good => ?_, fun x => ?_⟩
  · refine iff_of_false (fun good => ?_) ?_
    · exact live_iff_held.1 good (held_eq_none_of_not_issued (idle k.slot))
    · rintro (⟨good, kept⟩ | none)
      · obtain ⟨s, member, same⟩ := live_iff_mem.1 good
        exact kept (List.mem_map.2 ⟨s, member, same⟩)
      · cases none
  · obtain ⟨e, checked⟩ := good
    have := (SlotTable.checked_eq_ok_iff_issued?.1 checked).2.1
    rw [generation, if_pos (SlotTable.lt_slotCount_of_issued? this)]
    exact succ_ne _
  · rw [generation]
    split
    · exact Or.inr rfl
    · exact Or.inl rfl

/-- A release followed by a placement, which may reuse the slot but not its generation. -/
theorem Turn.replace {r₁ : Region} {k' : Handle} {e : Entry} {now : Int} {q : Request}
    (checked : r.table.checked k = .ok e) (released : Released r k e r₁)
    (placed : Placed r₁ now q k' r') : Turn r (some k') [k] r' := by
  have before := (released.shed checked).turn
  have after := placed.turn
  refine ⟨before.keeps.trans after.keeps, fun j => ?_, fun j hj good => ?_, ?_, ?_⟩
  · rw [after.live_iff, before.live_iff]
    simp
  · obtain ⟨good', bad₁⟩ := after.issued j hj
    rcases before.kept j good with good₁ | moved
    · exact bad₁ good₁
    · have hgeneration := congrFun placed.generations j.slot
      rw [good'.generation, ← good.generation] at hgeneration
      exact moved hgeneration.symm
  · rw [placed.generations]
    exact before.behind
  · rw [placed.generations]
    exact before.moved

theorem Sound.turn (h : r.Sound) (now : Int) (op : Op) :
    Turn r (r.issues now op) (r.ends now op) (r.step now op) := by
  cases op with
  | submit q =>
    simp only [issues, ends, step]
    rcases h.submit now q with ⟨refusal, -, hsubmit⟩ | ⟨-, -, hsubmit⟩ | ⟨k, r', hsubmit, placed⟩
    · rw [hsubmit]
      exact h.turn_refl
    · rw [hsubmit]
      exact .of_live_iff (h.retally _ rfl) (fun _ => Iff.rfl) rfl
    · rw [hsubmit]
      exact placed.turn
  | view k f =>
    simp only [issues, ends, step]
    cases checked : r.table.checked k with
    | ok e =>
      obtain ⟨r', hview, keeps, held, generations⟩ := h.view checked now f
      rw [hview]
      exact .of_update keeps checked held generations
    | error refusal =>
      rw [view_of_error checked]
      exact h.turn_refl
  | edit k patch =>
    simp only [issues, ends, step]
    cases checked : r.table.checked k with
    | ok e =>
      obtain ⟨r', hedit, keeps, held, generations⟩ := h.edit checked (patch.length_run _)
      rw [hedit]
      exact .of_update keeps checked held generations
    | error refusal =>
      rw [edit_of_error checked]
      exact h.turn_refl
  | update k bytes =>
    simp only [issues, ends, step]
    rcases h.update_cases now k bytes with ⟨refusal, hupdate⟩ |
      ⟨e, checked, ⟨r', hupdate, overwritten⟩ | ⟨first, r₁, k', r', released, hupdate, placed⟩⟩
    · rw [hupdate]
      split <;> exact h.turn_refl
    · rw [hupdate, if_neg overwritten.inPlace]
      exact .of_update overwritten.keeps checked overwritten.held overwritten.generations
    · rw [hupdate, if_pos first]
      exact .replace checked released placed
  | release k =>
    simp only [issues, ends, step]
    cases checked : r.table.checked k with
    | ok e =>
      obtain ⟨r', released⟩ := h.release checked
      rw [released.answer]
      exact (released.shed checked).turn
    | error refusal =>
      rw [release_of_error checked]
      exact (h.shed_stale (held_eq_none_iff.2 ⟨refusal, checked⟩)).turn
  | collectExpired batch =>
    simp only [issues, ends, step]
    obtain ⟨freed, r', hcollect, shed⟩ := h.collectExpired batch now
    rw [hcollect]
    exact shed.turn
  | collectLeastUsed batch =>
    simp only [issues, ends, step]
    obtain ⟨freed, r', hcollect, shed⟩ := h.collectLeastUsed batch now
    rw [hcollect]
    exact shed.turn
  | setThreshold threshold => exact .of_live_iff (h.retally _ rfl) (fun _ => Iff.rfl) rfl
  | clear => exact h.turn_clear

/-- A region stays sound along every run. -/
theorem Sound.run (h : r.Sound) (ops : List (Int × Op)) : r.Keeps (r.run ops) := by
  induction ops generalizing r with
  | nil => exact h.keeps
  | cons head rest ih =>
    have keeps := (h.turn head.1 head.2).keeps
    exact keeps.trans (ih keeps.sound)

end Region

end RegionStore
