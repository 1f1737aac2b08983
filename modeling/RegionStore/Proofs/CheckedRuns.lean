import Mathlib.Algebra.BigOperators.Ring.List
import Mathlib.Algebra.Order.BigOperators.Group.List
import RegionStore.Proofs.CheckedStores
import RegionStore.Proofs.Refusals
import RegionStore.Proofs.Steady

/-!
Runs step by step. From the day a store is built, no operation comes to a step that fails, none
answers that bookkeeping contradicts itself, and the check of a region never finds anything.
-/
namespace RegionStore

variable {α β : Type}

namespace Region

variable {r r' : Region} {ks : List Handle} {most n freed : Nat}

/-- What a batch frees was issued, and that is no more than the region holds. -/
theorem Shed.freed_le (shed : Shed r ks freed r') (regular : r.Regular most) :
    freed ≤ r.capacity := by
  have hle := regular.sound.issuedBytes_le regular.laid
  have := shed.bytes
  omega

/-- The number of slots that pools have cut out, from the start. -/
def slabSlots (r : Region) : Nat :=
  match r.placement with
  | .slab _ _ => r.table.slotCount
  | .firstFit _ => 0
  | .largestFit _ => 0

/-- A new region is tidy: without pools it has one slot at most. -/
theorem New.tidy (h : New r) (few : r.slabSlots ≤ UInt32.size) : r.placement.Tidy r.table := by
  have hempty (id : Nat) : (SlotTable.empty id).Sane := by
    intro slot e found
    rw [find?_empty] at found
    cases found
  cases h with
  | @firstFit id size r made =>
    unfold Region.firstFit at made
    split at made
    · cases made
    · next segment hmake =>
      cases made
      obtain ⟨⟨hpositive, hsmall⟩, rfl⟩ := Segment.make_eq_ok_iff.1 hmake
      have hspan : (Span.ofSize 0 size).Sane := by
        constructor <;> dsimp only [Span.ofSize] <;> omega
      have hvacant : (SlotTable.empty id).VacantFree := nofun
      refine ⟨(hempty id).insert hvacant hspan 0, ?_, nofun⟩
      exact SlotTable.slotCount_insert_le (t := .empty id) (Nat.zero_le _) (fun _ => Nat.zero_le _)
        0 _
  | @largestFit id size r made =>
    unfold Region.largestFit at made
    split at made
    · cases made
    · cases made
      refine ⟨hempty id, Nat.zero_le _, fun _ slot e found => ?_⟩
      rw [find?_empty] at found
      cases found
  | @slab id size slotSizes count fallThrough r made =>
    obtain ⟨sound, -⟩ := sound_slab made
    obtain ⟨pools, -, placement⟩ := slab_eq_ok made
    have account := sound.slab_account placement
    simp only [slabSlots, placement] at few
    rw [placement]
    refine ⟨fun slot e found => ?_, few, nofun⟩
    obtain ⟨ordered, m, hsize, hlast⟩ := SlotPool.Account.bounds account found
    have := (sound.admissible m (List.mem_of_getElem? hsize)).2
    exact ⟨ordered, by omega⟩

/-- A new region is one of a size that 32 bits can count, or made of slots of such sizes. -/
theorem New.capacity_le (h : New r) :
    r.capacity ≤ (if r.placement.strategy = .slab then r.slabSlots else 1) * Segment.maxSize := by
  by_cases pooled : r.placement.strategy = .slab
  · rw [if_pos pooled]
    cases h with
    | firstFit made =>
      rw [(sound_firstFit made).2.1] at pooled
      cases pooled
    | largestFit made =>
      rw [(sound_largestFit made).2.1] at pooled
      cases pooled
    | slab made =>
      obtain ⟨sound, -⟩ := sound_slab made
      obtain ⟨pools, hmake, placement⟩ := slab_eq_ok made
      have account := sound.slab_account placement
      have hle := capacity_le_slots account (New.slab made).laid placement
        fun p hp => ((SlotPool.chained_make hmake).2 p hp).2.2
      simpa only [slabSlots, placement] using hle
  · rw [if_neg pooled, Nat.one_mul]
    exact (h.sound.capacity_of_single pooled).2.2

theorem New.strict (h : New r) (idle : ∀ x, r.table.issued? x = none)
    (few : r.slabSlots ≤ UInt32.size) {threshold : UInt64}
    (bound : threshold.toNat + 1 < UInt64.size) : (r.setThreshold threshold).Strict 0 := by
  refine ⟨h.tidy few, fun k e bytes held => ?_, bound, ?_⟩
  · have hnone : (r.setThreshold threshold).held k = none :=
      held_eq_none_of_not_issued (idle k.slot)
    rw [hnone] at held
    cases held
  · change r.usage.failures.toNat ≤ 0
    rw [h.usage]
    exact Nat.le_refl 0

end Region

/-! ### Answers -/

namespace Answer

/-- The answer is that bookkeeping contradicts itself. -/
def Internal : Answer α → Prop
  | .refused (.invariantViolation _) => True
  | _ => False

theorem not_internal_refused {refusal : StoreError} (h : refusal.Outright) :
    ¬ (refused refusal : Answer α).Internal := by
  cases refusal with
  | invariantViolation detail => exact h.elim
  | _ => exact id

theorem not_internal_ofExcept {answer : Except StoreError β}
    (h : ∀ refusal, answer = .error refusal → refusal.Outright) {f : β → Answer α}
    (answered : ∀ value, ¬ (f value).Internal) : ¬ (ofExcept f answer).Internal := by
  cases answer with
  | error refusal => exact not_internal_refused (h refusal rfl)
  | ok value => exact answered value

end Answer

namespace Region

variable {r : Region}

theorem Sound.view_refused (h : r.Sound) (now : Int) (k : Handle) (f : List UInt8 → β)
    (refusal : StoreError) (refused : (r.view now k f).1 = .error refusal) :
    refusal.Outright := by
  cases checked : r.table.checked k with
  | error other =>
    rw [view_of_error checked] at refused
    cases refused
    exact SlotTable.outright_of_checked checked
  | ok e =>
    obtain ⟨r', hview, -⟩ := h.view checked now f
    rw [hview] at refused
    cases refused

theorem Sound.edit_refused (h : r.Sound) (k : Handle) (patch : Patch β)
    (refusal : StoreError) (refused : (r.edit k patch.run).1 = .error refusal) :
    refusal.Outright := by
  cases checked : r.table.checked k with
  | error other =>
    rw [edit_of_error checked] at refused
    cases refused
    exact SlotTable.outright_of_checked checked
  | ok e =>
    obtain ⟨r', hedit, -⟩ := h.edit checked (patch.length_run _)
    rw [hedit] at refused
    cases refused

theorem Sound.release_refused (h : r.Sound) (k : Handle) (refusal : StoreError)
    (refused : (r.release k).1 = .error refusal) : refusal.Outright := by
  cases checked : r.table.checked k with
  | error other =>
    rw [release_of_error checked] at refused
    split at refused
    · cases refused
    · cases refused
      trivial
  | ok e =>
    obtain ⟨r', released⟩ := h.release checked
    rw [released.answer] at refused
    cases refused

theorem Sound.not_internal_perform (h : r.Sound) (now : Int) (op : Op) :
    ¬ (r.perform now op : Answer α × Region).1.Internal := by
  cases op with
  | submit q =>
    rw [Region.perform]
    rcases h.submit now q with ⟨refusal, hrefusal, hsubmit⟩ | ⟨-, -, hsubmit⟩ | ⟨k, r', hsubmit, -⟩
    · rw [hsubmit]
      exact Answer.not_internal_refused (Request.outright_of_refusal? hrefusal)
    · rw [hsubmit]
      exact fun internal => internal
    · rw [hsubmit]
      exact fun internal => internal
  | view k f =>
    exact Answer.not_internal_ofExcept (h.view_refused now k f) fun _ internal => internal
  | edit k patch =>
    exact Answer.not_internal_ofExcept (h.edit_refused k patch) fun _ internal => internal
  | update k bytes =>
    exact Answer.not_internal_ofExcept (fun _ refused => h.update_refused refused)
      fun _ internal => internal
  | release k =>
    exact Answer.not_internal_ofExcept (h.release_refused k) fun _ internal => internal
  | collectExpired batch =>
    obtain ⟨freed, r', hcollect, -⟩ := h.collectExpired batch now
    rw [Region.perform, hcollect]
    exact fun internal => internal
  | collectLeastUsed batch =>
    obtain ⟨freed, r', hcollect, -⟩ := h.collectLeastUsed batch now
    rw [Region.perform, hcollect]
    exact fun internal => internal
  | setThreshold threshold => exact fun internal => internal
  | clear => exact fun internal => internal

end Region

namespace Store

variable {s : Store} {r : Region} {n : Nat} {now : Int}

theorem not_internal_of_seeksRoom {o : Outcome Store (Option Handle)}
    (h : (∃ refusal, refusal.Outright ∧ o = (.error refusal, s)) ∨
      (∃ q, o = (s.noRoom q, s.outOfRoom)) ∨ ∃ k s', o = (.ok (some k), s')) :
    ¬ (Answer.ofExcept .ofPlace o.1 : Answer α).Internal := by
  rcases h with ⟨refusal, outright, rfl⟩ | ⟨q, rfl⟩ | ⟨k, s', rfl⟩
  · exact Answer.not_internal_refused outright
  · unfold noRoom
    cases s.onExhaustion <;> exact id
  · exact id

/-- What every region refuses outright, the store refuses outright. -/
theorem Sound.onRegion_refused (h : s.Sound) {op : Region → Outcome Region β}
    (each : ∀ r : Region, r.Sound → ∀ refusal, (op r).1 = .error refusal → refusal.Outright)
    (i : Nat) (refusal : StoreError) (refused : (s.onRegion i op).1 = .error refusal) :
    refusal.Outright := by
  cases found : s.regions[i]? with
  | none =>
    rw [onRegion_of_getElem?_eq_none found] at refused
    cases refused
    trivial
  | some r =>
    rw [onRegion_of_getElem? found] at refused
    exact each r (h i r found).1 refusal refused

/-- Operations are refused for what was asked or for lack of room only. -/
theorem Regular.not_internal_perform (h : s.Regular) (now : Int) (op : Op α) :
    ¬ (s.perform now op).1.Internal := by
  have hview {β : Type} (k : Handle) (f : List UInt8 → β) := h.sound.onRegion_refused
    (fun _ sound => sound.view_refused now k f) k.region
  cases op with
  | put bytes expiry tag => exact not_internal_of_seeksRoom (h.submit_seeksRoom now _)
  | reserve size expiry tag => exact not_internal_of_seeksRoom (h.submit_seeksRoom now _)
  | get k => exact Answer.not_internal_ofExcept (hview k fun payload => payload) fun _ => id
  | view k f => exact Answer.not_internal_ofExcept (hview k f) fun _ => id
  | edit k patch =>
    exact Answer.not_internal_ofExcept (h.sound.onRegion_refused
      (fun _ sound => sound.edit_refused k patch) k.region) fun _ => id
  | update k bytes =>
    exact Answer.not_internal_ofExcept (h.sound.update_refused now k bytes) fun _ => id
  | updateOrMove k bytes =>
    exact not_internal_of_seeksRoom (h.updateOrMove_seeksRoom now k bytes)
  | release k =>
    simp only [Store.perform]
    rcases h.sound.release k with ⟨e, bytes, s', -, hrelease, -⟩ | ⟨-, hrelease⟩
    · rw [hrelease]
      exact id
    · rw [hrelease]
      split <;> exact id
  | info k =>
    simp only [Store.perform]
    rcases h.sound.info k with ⟨e, bytes, -, hinfo, -⟩ | ⟨-, hinfo⟩
    · rw [hinfo]
      exact id
    · rw [hinfo]
      exact Answer.not_internal_refused (outright_missing _ k)
  | collectExpired =>
    obtain ⟨freed, s', hcollect, -⟩ := h.sound.collectExpired now
    simp only [Store.perform, hcollect]
    exact id
  | collectLeastUsed =>
    obtain ⟨freed, s', hcollect, -⟩ := h.sound.collectLeastUsed now
    simp only [Store.perform, hcollect]
    exact id
  | clear => exact id

/-! ### Operations -/

/-- A sweep over all regions gets through if each region's own sweep does. -/
theorem Strict.sweep (h : s.Strict n) {sweep? : Region → Option (Outcome Region Nat)}
    {sweep : Region → Outcome Region Nat}
    (each : ∀ (r : Region) most, r.Regular most → r.Strict n →
      Region.Agrees n (sweep? r) (sweep r) ∧
        ∃ ks freed r', sweep r = (.ok freed, r') ∧ Region.Shed r ks freed r') :
    sweepRegions? sweep? 0 s.regions = some (sweepRegions sweep s.regions) ∧
      ∀ r ∈ (sweepRegions sweep s.regions).2, r.Strict n := by
  have room : 0 + s.regions.foldr (fun r total => r.capacity + total) 0 < UInt64.size := by
    rw [Nat.zero_add]
    exact h.capacity
  have hregion : ∀ r ∈ s.regions, r.Strict n ∧ Region.Agrees n (sweep? r) (sweep r) ∧
      (sweep r).1.toOption.getD 0 ≤ r.capacity := by
    intro r member
    obtain ⟨most, regular⟩ := h.exists_regular member
    obtain ⟨agrees, ks, freed, r', hsweep, shed⟩ := each r most regular (h.regions r member)
    refine ⟨h.regions r member, agrees, ?_⟩
    rw [hsweep]
    exact shed.freed_le regular
  obtain ⟨hswept, strict⟩ := sweepRegions?_eq hregion room
  refine ⟨?_, strict⟩
  rw [hswept]
  rcases sweepRegions sweep s.regions with ⟨refusal | freed, regions⟩
  · rfl
  · simp only [Except.map, Nat.zero_add]

theorem Strict.collectExpired (h : s.Strict n) (now : Int) :
    Agrees n (s.collectExpired? now) (s.collectExpired now) := by
  obtain ⟨hswept, strict⟩ := h.sweep fun r most regular strict =>
    ⟨strict.collectExpired regular s.expireBatch now,
      _, regular.sound.collectExpired s.expireBatch now⟩
  simp only [Store.collectExpired?, Store.collectExpired, hswept, Option.bind_eq_bind,
    Option.bind_some]
  generalize sweepRegions (·.collectExpired s.expireBatch now) s.regions = swept at strict
  obtain ⟨refusal | freed, regions⟩ := swept
  · exact ⟨rfl, strict⟩
  · exact ⟨rfl, strict⟩

theorem Strict.collectLeastUsed (h : s.Strict n) (clock : Millis.Reading now) :
    Agrees n (s.collectLeastUsed? now) (s.collectLeastUsed now) := by
  obtain ⟨hswept, strict⟩ := h.sweep fun r most regular strict =>
    ⟨strict.collectLeastUsed regular clock s.leastUsedBatch,
      _, regular.sound.collectLeastUsed s.leastUsedBatch now⟩
  simp only [Store.collectLeastUsed?, Store.collectLeastUsed, hswept, Option.bind_eq_bind,
    Option.bind_some]
  generalize sweepRegions (·.collectLeastUsed s.leastUsedBatch now) s.regions = swept at strict
  obtain ⟨refusal | freed, regions⟩ := swept
  · exact ⟨rfl, strict⟩
  · exact ⟨rfl, strict⟩

theorem mapM_clear? {regions : List Region}
    (each : ∀ r ∈ regions, r.clear? = some r.clear) :
    regions.mapM (·.clear?) = some (regions.map (·.clear)) := by
  induction regions with
  | nil => rfl
  | cons r rest ih =>
    have hrest := ih fun x member => each x (by simp [member])
    simp only [List.mapM_cons, each r (by simp), hrest, Option.bind_eq_bind, Option.bind_some]
    rfl

theorem Strict.clear (h : s.Strict n) :
    s.clear? = some s.clear ∧ ∀ r ∈ s.clear.regions, r.Strict n := by
  have each : ∀ r ∈ s.regions, r.clear? = some r.clear ∧ r.clear.Strict n := by
    intro r member
    obtain ⟨most, regular⟩ := h.exists_regular member
    exact (h.regions r member).clear regular
  constructor
  · simp only [Store.clear?, mapM_clear? fun r member => (each r member).1, Option.bind_eq_bind,
      Option.bind_some]
    rfl
  · intro r' cleared
    obtain ⟨r, member, rfl⟩ := List.mem_map.1 cleared
    exact (each r member).2

theorem Agrees.answer {checked : Option (Outcome Store β)} {plain : Outcome Store β}
    (h : Agrees n checked plain) (f : β → Answer α) :
    checked.map (·.map (Answer.ofExcept f) id) = some (plain.map (Answer.ofExcept f) id) ∧
      ∀ r ∈ (plain.map (Answer.ofExcept f) id).2.regions, r.Strict n := by
  obtain ⟨hchecked, strict⟩ := h
  rw [hchecked]
  exact ⟨rfl, strict⟩

/-- An operation gets through with every step checked, and so will the next one. -/
theorem Strict.perform (h : s.Strict n) (clock : Millis.Reading now) (op : Op α)
    (few : n + s.failedPlacements now op < UInt64.size) :
    s.perform? now op = some (s.perform now op) ∧
      (s.perform now op).2.Strict (n + s.failedPlacements now op) := by
  suffices s.perform? now op = some (s.perform now op) ∧
      ∀ r ∈ (s.perform now op).2.regions, r.Strict (n + s.failedPlacements now op) from
    ⟨this.1, h.evolves (evolves_perform s now op) this.2⟩
  cases op with
  | put bytes expiry tag => exact (h.submit clock few).answer _
  | reserve size expiry tag => exact (h.submit clock few).answer _
  | get k => exact (h.view clock k fun payload => payload).answer _
  | view k f => exact (h.view clock k f).answer _
  | edit k patch => exact (h.edit k patch).answer _
  | update k bytes => exact (h.update clock few k bytes).answer _
  | updateOrMove k bytes => exact (h.updateOrMove clock k bytes few).answer _
  | release k => exact (h.release k).answer _
  | info k => exact ⟨rfl, h.regions⟩
  | collectExpired => exact (h.collectExpired now).answer _
  | collectLeastUsed => exact (h.collectLeastUsed clock).answer _
  | clear =>
    obtain ⟨hclear, strict⟩ := h.clear
    refine ⟨?_, strict⟩
    rw [perform?, hclear]
    rfl

/-! ### Runs -/

/-- Placements that fail in a step. -/
def failedIn (s : Store) (now : Int) : Command α → Nat
  | .ask op => s.failedPlacements now op
  | .inRegion i op =>
    match s.regions[i]? with
    | none => 0
    | some r => r.failedPlacements now op

def failedAlong (s : Store) : List (Int × Command α) → Nat
  | [] => 0
  | (now, step) :: rest => s.failedIn now step + (s.take now step).2.failedAlong rest

def Command.bounded : Command α → Bool
  | .ask _ => true
  | .inRegion _ op => op.bounded

theorem Regular.not_internal_take (h : s.Regular) (now : Int) (step : Command α) :
    ¬ (s.take now step).1.Internal := by
  cases step with
  | ask op => exact h.not_internal_perform now op
  | inRegion i op =>
    cases found : s.regions[i]? with
    | none =>
      simp only [take, found]
      exact id
    | some r =>
      simp only [take, found]
      exact (h.sound i r found).1.not_internal_perform now op

/-- A step gets through with every step of its own checked, and so will the next one. -/
theorem Strict.take (h : s.Strict n) (clock : Millis.Reading now) (step : Command α)
    (bounded : step.bounded = true) (few : n + s.failedIn now step < UInt64.size) :
    s.take? now step = some (s.take now step) ∧
      (s.take now step).2.Strict (n + s.failedIn now step) := by
  cases step with
  | ask op => exact h.perform clock op few
  | inRegion i op =>
    have evolves := evolves_take s now (.inRegion i op : Command α)
    cases found : s.regions[i]? with
    | none =>
      simp only [failedIn, Store.take?, Store.take, found]
      exact ⟨trivial, h⟩
    | some r =>
      have member := List.mem_of_getElem? found
      obtain ⟨most, regular⟩ := h.exists_regular member
      simp only [failedIn, found] at few
      simp only [Store.take, found] at evolves
      obtain ⟨(hperform : r.perform? now op = some (r.perform now op : Answer α × Region)), strict⟩ :=
        (h.regions r member).perform regular clock op bounded few
      simp only [failedIn, Store.take?, Store.take, found, hperform, Option.bind_eq_bind,
        Option.bind_some]
      exact ⟨trivial, h.evolves evolves
        (strict_setRegion h.regions (Nat.le_add_right n _) strict)⟩

theorem Strict.run (h : s.Strict n) {steps : List (Int × Command α)}
    (clock : ∀ step ∈ steps, Millis.Reading step.1)
    (bounded : ∀ step ∈ steps, step.2.bounded = true)
    (few : n + s.failedAlong steps < UInt64.size) :
    s.run? steps = some (s.run steps) ∧ (s.run steps).2.Strict (n + s.failedAlong steps) := by
  induction steps generalizing s n with
  | nil => exact ⟨rfl, h⟩
  | cons head rest ih =>
    obtain ⟨now, step⟩ := head
    rw [failedAlong, ← Nat.add_assoc] at few ⊢
    have hclock : Millis.Reading now := clock (now, step) (by simp)
    obtain ⟨htake, strict⟩ := h.take hclock step (bounded (now, step) (by simp)) (by omega)
    obtain ⟨hrest, strict'⟩ := ih strict (fun x member => clock x (by simp [member]))
      (fun x member => bounded x (by simp [member])) few
    refine ⟨?_, strict'⟩
    simp only [run?, htake, hrest, Option.bind_eq_bind, Option.bind_some]
    rfl

theorem Regular.not_internal_run (h : s.Regular) (steps : List (Int × Command α)) :
    ∀ answer ∈ (s.run steps).1, ¬ answer.Internal := by
  induction steps generalizing s with
  | nil => exact fun _ member => absurd member List.not_mem_nil
  | cons head rest ih =>
    obtain ⟨now, step⟩ := head
    intro answer member
    rcases List.mem_cons.1 member with rfl | member
    · exact h.not_internal_take now step
    · exact ih (h.evolves (evolves_take s now step)) answer member

/-! ### New stores -/

/-- The number of slots in the pools of all regions. -/
def slabSlots (s : Store) : Nat := s.regions.foldr (fun r total => r.slabSlots + total) 0

theorem foldr_eq_sum (f : Region → Nat) (regions : List Region) :
    regions.foldr (fun r total => f r + total) 0 = (regions.map f).sum := by
  rw [List.sum_eq_foldr, List.foldr_map]

theorem slabSlots_le (member : r ∈ s.regions) : r.slabSlots ≤ s.slabSlots := by
  rw [slabSlots, foldr_eq_sum]
  exact List.single_le_sum (fun _ _ => Nat.zero_le _) _ (List.mem_map_of_mem member)

/-- What is known of each region of a store that has just been built. -/
theorem built_region {settings : Settings} (built : build settings = .ok s)
    (member : r ∈ s.regions) : ∃ r₀ : Region, r₀.New ∧ (∀ x, r₀.table.issued? x = none) ∧
      r₀.placement.strategy = settings.memory.strategy ∧
      r = r₀.setThreshold (.ofNat settings.eviction.shortageThreshold) := by
  obtain ⟨-, hmade⟩ := buildWith_eq_ok built
  obtain ⟨i, found⟩ := List.getElem?_of_mem member
  obtain ⟨r₀, made, rfl⟩ := hmade i r found
  refine ⟨r₀, new_makeRegion made, (sound_makeRegion made).2.2, ?_, rfl⟩
  unfold MemorySettings.makeRegion at made
  split at made
  · next strategy => rw [(Region.sound_firstFit made).2.1, strategy]
  · next strategy => rw [(Region.sound_largestFit made).2.1, strategy]
  · next strategy => rw [(Region.sound_slab made).2.1, strategy]

/-- Fewer regions, or fewer slots, than 32 bits can number hold fewer bytes than 64 bits can
count. -/
theorem capacity_lt_of_built {settings : Settings} (built : build settings = .ok s)
    (slots : s.slabSlots < UInt32.size) : s.capacity < UInt64.size := by
  have hword (count : Nat) (few : count < UInt32.size) :
      count * Segment.maxSize < UInt64.size := by
    have := Nat.mul_le_mul_right Segment.maxSize (Nat.le_of_lt few)
    simp only [Segment.maxSize, UInt32.size, UInt64.size] at *
    omega
  have each (r : Region) (member : r ∈ s.regions) : r.capacity ≤
      (if settings.memory.strategy = .slab then r.slabSlots else 1) * Segment.maxSize := by
    obtain ⟨r₀, new, -, strategy, rfl⟩ := built_region built member
    have hle := new.capacity_le
    rwa [strategy] at hle
  rw [Store.capacity, foldr_eq_sum]
  by_cases pooled : settings.memory.strategy = .slab
  · refine Nat.lt_of_le_of_lt ?_ (hword s.slabSlots slots)
    calc (s.regions.map (·.capacity)).sum
        ≤ (s.regions.map (·.slabSlots * Segment.maxSize)).sum :=
          List.sum_le_sum fun r member => by simpa only [if_pos pooled] using each r member
      _ = s.slabSlots * Segment.maxSize := by
          rw [List.sum_map_mul_right, slabSlots, foldr_eq_sum]
  · obtain ⟨-, -, few⟩ := build_eq_ok built
    refine Nat.lt_of_le_of_lt ?_ (hword s.regions.length few)
    have hle := List.sum_le_card_nsmul (s.regions.map (·.capacity)) Segment.maxSize
      (List.forall_mem_map.2 fun r member => by
        simpa only [if_neg pooled, Nat.one_mul] using each r member)
    rwa [List.length_map, smul_eq_mul] at hle

theorem strict_build {settings : Settings} (built : build settings = .ok s)
    (word : settings.memory.regionSize < UInt64.size) (slots : s.slabSlots < UInt32.size)
    (threshold : settings.eviction.shortageThreshold + 1 < UInt64.size) : s.Strict 0 := by
  refine ⟨regular_build built word, fun r member => ?_, capacity_lt_of_built built slots⟩
  obtain ⟨r₀, new, idle, -, rfl⟩ := built_region built member
  have hslots := slabSlots_le member
  change r₀.slabSlots ≤ s.slabSlots at hslots
  refine new.strict idle (by omega) ?_
  rw [UInt64.toNat_ofNat']
  exact Nat.lt_of_le_of_lt (Nat.succ_le_succ (Nat.mod_le _ _)) threshold

/-- In a store of fewer slots, with lower thresholds and fewer failed placements than words can
count, no step of any run fails: the checked run is the run itself. No answer is that bookkeeping
contradicts itself, and the check of each region passes wherever the run has got to. -/
theorem runs_unfailing {settings : Settings} (built : build settings = .ok s)
    (word : settings.memory.regionSize < UInt64.size) (slots : s.slabSlots < UInt32.size)
    (threshold : settings.eviction.shortageThreshold + 1 < UInt64.size)
    (steps : List (Int × Command α)) (clock : ∀ step ∈ steps, Millis.Reading step.1)
    (bounded : ∀ step ∈ steps, step.2.bounded = true)
    (few : s.failedAlong steps < UInt64.size) :
    s.run? steps = some (s.run steps) ∧ (∀ answer ∈ (s.run steps).1, ¬ answer.Internal) ∧
      ∀ r ∈ (s.run steps).2.regions, r.check? = some (.ok ()) ∧ r.check = .ok () := by
  have strict := strict_build built word slots threshold
  obtain ⟨hrun, strict'⟩ := strict.run clock bounded (by rwa [Nat.zero_add])
  refine ⟨hrun, strict.regular.not_internal_run steps, fun r member => ?_⟩
  obtain ⟨most, regular⟩ := strict'.exists_regular member
  exact regular.check

/-- Two regions of the largest size, one of them filled to its last byte: a payload goes on to the
other one, a request fits in neither, and the range in front comes back. -/
theorem runs_unfailing_brim : ∃ (s : Store) (steps : List (Int × Command Unit)),
    s.regions.map (·.capacity) = [4294967295, 4294967295] ∧ s.failedAlong steps = 3 ∧
    s.run? steps = some ([.handle ⟨0, 0, 0⟩, .handle ⟨0, 1, 0⟩, .handle ⟨1, 0, 0⟩, .noRoom, .done,
      .count 4294967290, .bytes [1, 2, 3, 4, 5], .count 0, .refused (.unknownRegion 7)],
      (s.run steps).2) ∧
    (∀ answer ∈ (s.run steps).1, ¬ answer.Internal) ∧
    ∀ r ∈ (s.run steps).2.regions, r.check? = some (.ok ()) := by
  let settings : Settings := ⟨⟨2, 4294967295, .largestFit, [], 1, false⟩, .default, .default,
    .default⟩
  let steps : List (Int × Command Unit) := [(0, .ask (.reserve 4294967290 .never 0)),
    (1, .ask (.put [1, 2, 3, 4, 5] .never 0)), (2, .ask (.put [6] .never 0)),
    (3, .ask (.reserve 4294967295 .never 0)), (4, .inRegion 1 (.setThreshold 5)),
    (5, .inRegion 0 (.release ⟨0, 0, 0⟩)), (6, .ask (.get ⟨0, 1, 0⟩)),
    (9223372036854775807, .ask .collectExpired), (7, .ask (.view ⟨7, 0, 0⟩ fun _ => ()))]
  obtain ⟨s, built⟩ : ∃ s, build settings = .ok s := ⟨_, rfl⟩
  obtain ⟨capacity, slots, failures, answers⟩ :
      s.regions.map (·.capacity) = [4294967295, 4294967295] ∧ s.slabSlots < UInt32.size ∧
      s.failedAlong steps = 3 ∧ (s.run steps).1 = [.handle ⟨0, 0, 0⟩, .handle ⟨0, 1, 0⟩,
        .handle ⟨1, 0, 0⟩, .noRoom, .done, .count 4294967290, .bytes [1, 2, 3, 4, 5], .count 0,
        .refused (.unknownRegion 7)] := by
    cases built
    decide
  obtain ⟨hrun, internal, checks⟩ := runs_unfailing built (by decide) slots (by decide) steps
    (by decide) (by decide) (by rw [failures]; decide)
  refine ⟨s, steps, capacity, failures, ?_, internal, fun r member => (checks r member).1⟩
  rw [hrun, ← answers]

end Store

end RegionStore
