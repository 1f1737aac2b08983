import Mathlib.Data.List.Forall2
import RegionStore.Proofs.Runs
import RegionStore.Store

/-!
What each operation on a store does to what is held in its regions. A store is sound when its
regions are, and each of them carries its place in the list as its number.
-/
namespace RegionStore.Store

def Sound (s : Store) : Prop :=
  ∀ i (r : Region), s.regions[i]? = some r → r.Sound ∧ r.id = i

/-- Entry and payload that a handle names in its region. -/
def held (s : Store) (k : Handle) : Option (Entry × List UInt8) :=
  (s.regions[k.region]?).bind (·.held k)

structure Keeps (s s' : Store) : Prop where
  sound : s'.Sound
  length : s'.regions.length = s.regions.length

variable {s s' : Store} {k : Handle} {i : Nat} {r r' : Region}

theorem Sound.keeps (h : s.Sound) : s.Keeps s := ⟨h, rfl⟩

theorem Keeps.trans {s'' : Store} (h : s.Keeps s') (h' : s'.Keeps s'') : s.Keeps s'' :=
  ⟨h'.sound, h'.length.trans h.length⟩

theorem held_of_getElem? (found : s.regions[k.region]? = some r) : s.held k = r.held k := by
  rw [held, found, Option.bind_some]

theorem held_of_getElem?_eq_none (unknown : s.regions[k.region]? = none) : s.held k = none := by
  rw [held, unknown, Option.bind_none]

theorem setRegion_self (found : s.regions[i]? = some r) : s.setRegion i r = s := by
  have : s.regions.set i r = s.regions := by
    apply List.ext_getElem?
    intro j
    rw [List.getElem?_set]
    split
    · next here =>
      subst here
      have := (List.getElem?_eq_some_iff.1 found).1
      rw [if_pos this, found]
    · rfl
  rw [setRegion, this]

theorem Sound.setRegion (h : s.Sound) (found : s.regions[i]? = some r) (keeps : r.Keeps r') :
    s.Keeps (s.setRegion i r') := by
  refine ⟨fun j r'' found' => ?_, length_regions_setRegion s i r'⟩
  by_cases here : i = j
  · subst here
    have hbound := (List.getElem?_eq_some_iff.1 found).1
    rw [Store.setRegion, List.getElem?_set_self hbound] at found'
    cases found'
    exact ⟨keeps.sound, keeps.id.trans (h i r found).2⟩
  · rw [regions_setRegion_of_ne here] at found'
    exact h j r'' found'

theorem held_setRegion (found : s.regions[i]? = some r) (k : Handle) :
    (s.setRegion i r').held k = if k.region = i then r'.held k else s.held k := by
  split
  · next here =>
    have hbound := (List.getElem?_eq_some_iff.1 found).1
    rw [held, here, setRegion, List.getElem?_set_self hbound, Option.bind_some]
  · next elsewhere => rw [held, held, regions_setRegion_of_ne (Ne.symm elsewhere)]

theorem held_setRegion_same (found : s.regions[i]? = some r) (same : r'.held = r.held) :
    (s.setRegion i r').held = s.held := by
  funext k
  rw [held_setRegion found]
  split
  · next here => rw [same, held_of_getElem? (here ▸ found)]
  · rfl

theorem held_setRegion_update (found : s.regions[k.region]? = some r)
    {new : Option (Entry × List UInt8)} (held : r'.held = Function.update r.held k new) :
    (s.setRegion k.region r').held = Function.update s.held k new := by
  funext j
  rw [held_setRegion found, held, Function.update_apply, Function.update_apply]
  split
  · next here =>
    split
    · rfl
    · rw [held_of_getElem? (here ▸ found)]
  · next elsewhere =>
    rw [if_neg fun same => elsewhere (congrArg Handle.region same)]

/-- A handle is good, or stale in a region that exists, or names a region that does not. -/
theorem Sound.resolve (h : s.Sound) (k : Handle) :
    (∃ r e, s.regions[k.region]? = some r ∧ r.Sound ∧ r.id = k.region ∧
        r.table.checked k = .ok e ∧ s.held k = some (e, r.payload e)) ∨
      (s.held k = none ∧ ∃ r, s.regions[k.region]? = some r ∧ r.id = k.region ∧
        r.table.checked k = .error .staleHandle) ∨
      (s.held k = none ∧ s.regions[k.region]? = none) := by
  cases found : s.regions[k.region]? with
  | none => exact Or.inr (Or.inr ⟨held_of_getElem?_eq_none found, rfl⟩)
  | some r =>
    obtain ⟨sound, own⟩ := h k.region r found
    cases checked : r.table.checked k with
    | ok e =>
      refine Or.inl ⟨r, e, rfl, sound, own, checked, ?_⟩
      rw [held_of_getElem? found, Region.held_of_checked checked]
    | error refusal =>
      have hstale : refusal = .staleHandle := by
        rcases SlotTable.checked_eq_error_iff.1 checked with ⟨foreign, -⟩ | ⟨-, stale, -⟩
        · exact absurd own.symm foreign
        · exact stale
      rw [hstale] at checked
      refine Or.inr (Or.inl ⟨?_, r, rfl, own, checked⟩)
      rw [held_of_getElem? found, Region.held_eq_none_iff.2 ⟨_, checked⟩]

theorem onRegion_of_getElem? (found : s.regions[i]? = some r) (op : Region → Outcome Region α) :
    s.onRegion i op = ((op r).1, s.setRegion i (op r).2) := by
  rw [onRegion, region_eq_ok_iff.2 found]

theorem onRegion_of_getElem?_eq_none (unknown : s.regions[i]? = none)
    (op : Region → Outcome Region α) : s.onRegion i op = (.error (.unknownRegion i), s) := by
  simp only [onRegion, region, unknown]

/-- The refusal for a handle that is not good, in a store of so many regions. -/
def missing (regions : Nat) (k : Handle) : StoreError :=
  if k.region < regions then .staleHandle else .unknownRegion k.region

theorem missing_of_getElem? (found : s.regions[k.region]? = some r) :
    missing s.regions.length k = .staleHandle :=
  if_pos (List.getElem?_eq_some_iff.1 found).1

theorem missing_of_getElem?_eq_none (unknown : s.regions[k.region]? = none) :
    missing s.regions.length k = .unknownRegion k.region :=
  if_neg (Nat.not_lt.2 (List.getElem?_eq_none_iff.1 unknown))

theorem Sound.lease (h : s.Sound) {e : Entry} {bytes : List UInt8}
    (held : s.held k = some (e, bytes)) :
    bytes.length = e.lease.len ∧ 1 ≤ e.lease.len ∧ e.lease.len ≤ e.span.size := by
  rcases h.resolve k with ⟨r, e', -, sound, -, checked, held'⟩ | ⟨held', -⟩ | ⟨held', -⟩
  · rw [held] at held'
    cases held'
    have issued := (SlotTable.checked_eq_ok_iff_issued?.1 checked).2.1
    exact ⟨sound.length_payload checked, sound.leases k.slot e issued⟩
  · rw [held] at held'
    cases held'
  · rw [held] at held'
    cases held'

/-! ### Access through a handle -/

/-- Access through a handle that its region checks. Through a good one, the answer and what is
held afterwards are told by what was held. -/
theorem Sound.access (h : s.Sound) {op : Region → Outcome Region α} {answer : List UInt8 → α}
    {new : Entry → List UInt8 → Entry × List UInt8}
    (refused : ∀ (r : Region) refusal, r.table.checked k = .error refusal →
      op r = (.error refusal, r))
    (done : ∀ (r : Region) e, r.Sound → r.table.checked k = .ok e → ∃ r',
      op r = (.ok (answer (r.payload e)), r') ∧ r.Keeps r' ∧
        r'.held = Function.update r.held k (some (new e (r.payload e)))) :
    (∃ e bytes s', s.held k = some (e, bytes) ∧
        s.onRegion k.region op = (.ok (answer bytes), s') ∧ s.Keeps s' ∧
        s'.held = Function.update s.held k (some (new e bytes))) ∨
      (s.held k = none ∧
        s.onRegion k.region op = (.error (missing s.regions.length k), s)) := by
  rcases h.resolve k with ⟨r, e, found, sound, -, checked, held⟩ |
    ⟨held, r, found, -, stale⟩ | ⟨held, unknown⟩
  · obtain ⟨r', hop, keeps, held'⟩ := done r e sound checked
    refine Or.inl ⟨e, r.payload e, s.setRegion k.region r', held, ?_, h.setRegion found keeps,
      held_setRegion_update found held'⟩
    rw [onRegion_of_getElem? found, hop]
  · refine Or.inr ⟨held, ?_⟩
    rw [onRegion_of_getElem? found, refused r _ stale, setRegion_self found,
      missing_of_getElem? found]
  · refine Or.inr ⟨held, ?_⟩
    rw [onRegion_of_getElem?_eq_none unknown, missing_of_getElem?_eq_none unknown]

theorem Sound.view (h : s.Sound) (now : Int) (k : Handle) (f : List UInt8 → α) :
    (∃ e bytes s', s.held k = some (e, bytes) ∧ s.view now k f = (.ok (f bytes), s') ∧
        s.Keeps s' ∧ s'.held = Function.update s.held k (some (e.hit now, bytes))) ∨
      (s.held k = none ∧ s.view now k f = (.error (missing s.regions.length k), s)) := by
  refine h.access (fun r refusal refused => Region.view_of_error refused now f)
    fun r e sound checked => ?_
  obtain ⟨r', hview, keeps, held, -⟩ := sound.view checked now f
  exact ⟨r', hview, keeps, held⟩

theorem Sound.edit (h : s.Sound) (k : Handle) (patch : Patch α) :
    (∃ e bytes s', s.held k = some (e, bytes) ∧
        s.edit k patch.run = (.ok (patch.run bytes).2, s') ∧ s.Keeps s' ∧
        s'.held = Function.update s.held k (some (e, (patch.run bytes).1))) ∨
      (s.held k = none ∧ s.edit k patch.run = (.error (missing s.regions.length k), s)) := by
  refine h.access (fun r refusal refused => Region.edit_of_error refused patch.run)
    fun r e sound checked => ?_
  obtain ⟨r', hedit, keeps, held, -⟩ := sound.edit checked (patch.length_run _)
  exact ⟨r', hedit, keeps, held⟩

theorem Sound.info (h : s.Sound) (k : Handle) :
    (∃ e bytes, s.held k = some (e, bytes) ∧ s.info k = .ok (e.snapshot k.region k.slot) ∧
        e.generation = k.generation) ∨
      (s.held k = none ∧ s.info k = .error (missing s.regions.length k)) := by
  rcases h.resolve k with ⟨r, e, found, -, own, checked, held⟩ |
    ⟨held, r, found, -, stale⟩ | ⟨held, unknown⟩
  · refine Or.inl ⟨e, r.payload e, held, ?_,
      (SlotTable.checked_eq_ok_iff_issued?.1 checked).2.2⟩
    simp only [Store.info, region_eq_ok_iff.2 found]
    rw [Region.info_eq_ok_iff]
    exact ⟨e, checked, by rw [own]⟩
  · refine Or.inr ⟨held, ?_⟩
    simp only [Store.info, region_eq_ok_iff.2 found, Region.info, stale, missing_of_getElem? found]
    rfl
  · refine Or.inr ⟨held, ?_⟩
    simp only [Store.info, region, unknown, missing_of_getElem?_eq_none unknown]

theorem Sound.info_of_held (h : s.Sound) {e : Entry} {bytes : List UInt8}
    (held : s.held k = some (e, bytes)) : s.info k = .ok (e.snapshot k.region k.slot) := by
  rcases h.info k with ⟨e', bytes', held', hinfo, -⟩ | ⟨held', -⟩
  · rw [held] at held'
    cases held'
    exact hinfo
  · rw [held] at held'
    cases held'

theorem Sound.info_of_not_held (h : s.Sound) (held : s.held k = none) :
    s.info k = .error (missing s.regions.length k) := by
  rcases h.info k with ⟨e, bytes, held', -⟩ | ⟨-, hinfo⟩
  · rw [held] at held'
    cases held'
  · exact hinfo

theorem Sound.get_of_held (h : s.Sound) {e : Entry} {bytes : List UInt8}
    (held : s.held k = some (e, bytes)) (now : Int) : (s.get now k).1 = .ok bytes := by
  rcases h.view now k fun payload => payload with ⟨e', bytes', _, held', hget, -⟩ | ⟨held', -⟩
  · rw [held] at held'
    cases held'
    exact congrArg Prod.fst hget
  · rw [held] at held'
    cases held'

theorem Sound.get_of_not_held (h : s.Sound) (held : s.held k = none) (now : Int) :
    (s.get now k).1 = .error (missing s.regions.length k) := by
  rcases h.view now k fun payload => payload with ⟨e, bytes, _, held', -⟩ | ⟨-, hget⟩
  · rw [held] at held'
    cases held'
  · exact congrArg Prod.fst hget

/-- What a handle answers with depends on what it names, and on how many regions there are. -/
theorem Sound.info_congr (h : s.Sound) (keeps : s.Keeps s') (same : s'.held k = s.held k) :
    s'.info k = s.info k := by
  cases held : s.held k with
  | none =>
    rw [held] at same
    rw [h.info_of_not_held held, keeps.sound.info_of_not_held same, keeps.length]
  | some found =>
    rw [held] at same
    rw [h.info_of_held held, keeps.sound.info_of_held same]

theorem Sound.get_congr (h : s.Sound) (keeps : s.Keeps s') (same : s'.held k = s.held k)
    (now : Int) : (s'.get now k).1 = (s.get now k).1 := by
  cases held : s.held k with
  | none =>
    rw [held] at same
    rw [h.get_of_not_held held, keeps.sound.get_of_not_held same, keeps.length]
  | some found =>
    rw [held] at same
    rw [h.get_of_held held, keeps.sound.get_of_held same]

theorem Sound.held_of_info (h : s.Sound) {x : Snapshot} (good : s.info k = .ok x) :
    ∃ e bytes, s.held k = some (e, bytes) ∧ x = e.snapshot k.region k.slot := by
  rcases h.info k with ⟨e, bytes, held, hinfo, -⟩ | ⟨-, hinfo⟩
  · rw [good] at hinfo
    cases hinfo
    exact ⟨e, bytes, held, rfl⟩
  · rw [good] at hinfo
    cases hinfo

theorem Sound.release (h : s.Sound) (k : Handle) :
    (∃ e bytes s', s.held k = some (e, bytes) ∧ s.release k = (.ok e.span.size, s') ∧
        s.Keeps s' ∧ s'.held = Function.update s.held k none) ∨
      (s.held k = none ∧ s.release k =
        (if k.region < s.regions.length then .ok 0 else .error (.unknownRegion k.region), s)) := by
  rcases h.resolve k with ⟨r, e, found, sound, -, checked, held⟩ |
    ⟨held, r, found, own, stale⟩ | ⟨held, unknown⟩
  · obtain ⟨r', released⟩ := sound.release checked
    have hset := h.setRegion found released.keeps
    refine Or.inl ⟨e, r.payload e, { s.setRegion k.region r' with
      tally := { s.tally with frees := s.tally.frees + 1 } }, held, ?_,
      ⟨hset.sound, hset.length⟩, held_setRegion_update found released.held⟩
    simp only [Store.release, onRegion_of_getElem? found, released.answer,
      if_pos e.span.size_pos]
    rfl
  · refine Or.inr ⟨held, ?_⟩
    rw [if_pos (List.getElem?_eq_some_iff.1 found).1]
    simp only [Store.release, onRegion_of_getElem? found, Region.release_of_error stale,
      if_pos own.symm, setRegion_self found]
    rfl
  · refine Or.inr ⟨held, ?_⟩
    rw [if_neg (Nat.not_lt.2 (List.getElem?_eq_none_iff.1 unknown))]
    simp only [Store.release, onRegion_of_getElem?_eq_none unknown]

/-- A handle has a new payload, under its own name or under one that named nothing. -/
structure Rebound (s : Store) (k : Handle) (bytes : List UInt8) (k' : Handle) (s' : Store) :
    Prop where
  keeps : s.Keeps s'
  good : s.held k ≠ none
  fresh : k' = k ∨ s.held k' = none
  held : ∃ e, s'.held = Function.update (Function.update s.held k none) k' (some (e, bytes))

theorem Sound.update (h : s.Sound) (now : Int) (k : Handle) (bytes : List UInt8) :
    (∃ refusal, s.update now k bytes = (.error refusal, s)) ∨
      ∃ k' s', s.update now k bytes = (.ok k', s') ∧ Rebound s k bytes k' s' := by
  cases found : s.regions[k.region]? with
  | none => exact Or.inl ⟨_, by rw [Store.update, onRegion_of_getElem?_eq_none found]⟩
  | some r =>
    obtain ⟨sound, own⟩ := h k.region r found
    have hupdate := onRegion_of_getElem? found (·.update now k bytes)
    rcases sound.update_cases now k bytes with ⟨refusal, refused⟩ |
      ⟨e, checked, ⟨r', done, overwritten⟩ | ⟨-, r₁, k', r', released, done, placed⟩⟩
    · rw [refused, setRegion_self found] at hupdate
      exact Or.inl ⟨refusal, hupdate⟩
    · rw [done] at hupdate
      refine Or.inr ⟨k, _, hupdate, h.setRegion found overwritten.keeps, ?_, Or.inl rfl,
        e.resize bytes.length, ?_⟩
      · rw [held_of_getElem? found, Region.held_of_checked checked]
        nofun
      · rw [Function.update_idem]
        exact held_setRegion_update found overwritten.held
    · rw [done] at hupdate
      obtain ⟨e', bytes', held', rfl, -⟩ := placed.held
      have hhere : k'.region = k.region := placed.own.trans (released.keeps.id.trans own)
      have hbound := (List.getElem?_eq_some_iff.1 found).1
      have found₁ : (s.setRegion k.region r₁).regions[k'.region]? = some r₁ := by
        rw [hhere, Store.setRegion, List.getElem?_set_self hbound]
      have hreleased := held_setRegion_update found released.held
      have hfresh : (s.setRegion k.region r₁).held k' = none :=
        (held_of_getElem? found₁).trans placed.fresh
      refine Or.inr ⟨k', _, hupdate, h.setRegion found (released.keeps.trans placed.keeps), ?_,
        ?_, e', ?_⟩
      · rw [held_of_getElem? found, Region.held_of_checked checked]
        nofun
      · rw [hreleased, Function.update_apply] at hfresh
        split at hfresh
        · next same => exact Or.inl same
        · exact Or.inr hfresh
      · have hplaced := held_setRegion_update found₁ held'
        rw [hreleased, hhere, Store.setRegion, Store.setRegion, List.set_set] at hplaced
        exact hplaced

/-- Nothing that is held has changed. -/
structure Same (s s' : Store) : Prop where
  keeps : s.Keeps s'
  held : s'.held = s.held

theorem Sound.same (h : s.Sound) (regions : s'.regions = s.regions) : s.Same s' := by
  refine ⟨⟨?_, by rw [regions]⟩, by funext k; rw [Store.held, Store.held, regions]⟩
  rw [Sound, regions]
  exact h

theorem Same.trans {s'' : Store} (h : s.Same s') (h' : s'.Same s'') : s.Same s'' :=
  ⟨h.keeps.trans h'.keeps, h'.held.trans h.held⟩

/-- An attempt to place something, which comes to nothing or succeeds as told by `P`. -/
inductive Attempt (s : Store) (P : Handle → Store → Prop) : Outcome Store (Option Handle) → Prop
  | placed {k : Handle} {s' : Store} (done : P k s') : Attempt s P (.ok (some k), s')
  | noRoom {s' : Store} (same : s.Same s') : Attempt s P (.ok none, s')
  | refused {s' : Store} (refusal : StoreError) (same : s.Same s') :
    Attempt s P (.error refusal, s')

/-- What was asked for is held, under a handle that named nothing. -/
structure Stored (s : Store) (c : Content) (k : Handle) (s' : Store) : Prop where
  keeps : s.Keeps s'
  fresh : s.held k = none
  held : ∃ e bytes, s'.held = Function.update s.held k (some (e, bytes)) ∧ c.Shows bytes

variable {c : Content} {o : Outcome Store (Option Handle)}

theorem Same.stored (same : s.Same s') (h : Attempt s' (Stored s' c) o) :
    Attempt s (Stored s c) o := by
  cases h with
  | placed done =>
    obtain ⟨keeps, fresh, held⟩ := done
    rw [same.held] at fresh held
    exact .placed ⟨same.keeps.trans keeps, fresh, held⟩
  | noRoom same' => exact .noRoom (same.trans same')
  | refused refusal same' => exact .refused refusal (same.trans same')

theorem Sound.exhausted (h : s.Sound) (q : Request) : Attempt s (Stored s c) (s.exhausted q) := by
  unfold Store.exhausted
  cases s.onExhaustion with
  | returnNone => exact .noRoom (h.same rfl)
  | error => exact .refused _ (h.same rfl)

/-- A region that refuses may count the failure, and holds what it held. -/
theorem Sound.submit_region (h : s.Sound) (found : s.regions[i]? = some r) (now : Int)
    (q : Request) (routing : Routing) :
    (∃ refusal r', r.submit now q = (.error refusal, r') ∧
        s.Same { s.setRegion i r' with routing }) ∨
      ∃ k r', r.submit now q = (.ok k, r') ∧
        ∀ tally, Stored s q.content k { s.setRegion i r' with routing, tally } := by
  obtain ⟨sound, own⟩ := h i r found
  rcases sound.submit now q with ⟨refusal, -, hsubmit⟩ | ⟨-, -, hsubmit⟩ |
    ⟨k, r', hsubmit, placed⟩
  · have hset := h.setRegion found sound.keeps
    exact Or.inl ⟨refusal, r, hsubmit, ⟨hset.sound, hset.length⟩, held_setRegion_same found rfl⟩
  · have hset := h.setRegion found (sound.retally r.usage.recordFailure rfl)
    exact Or.inl ⟨_, _, hsubmit, ⟨hset.sound, hset.length⟩, held_setRegion_same found rfl⟩
  · have hset := h.setRegion found placed.keeps
    obtain ⟨e, bytes, held, shows, -⟩ := placed.held
    have hhere : k.region = i := placed.own.trans own
    subst hhere
    exact Or.inr ⟨k, r', hsubmit, fun _ => ⟨⟨hset.sound, hset.length⟩,
      (held_of_getElem? found).trans placed.fresh, e, bytes, held_setRegion_update found held,
      shows⟩⟩

theorem Sound.tryRegions (h : s.Sound) (now : Int) (q : Request) (budget attempt : Nat)
    (previous : Option Nat) :
    Attempt s (Stored s q.content) (tryRegions now q budget attempt previous s) := by
  induction budget generalizing s attempt previous with
  | zero => exact h.exhausted q
  | succ budget ih =>
    rw [Store.tryRegions]
    rcases s.routing.next previous attempt s.regions.length with ⟨_ | i, routing⟩
    · have same : s.Same { s with routing } := h.same rfl
      exact same.stored (same.keeps.sound.exhausted q)
    · cases found : s.regions[i]? with
      | none =>
        simp only [found]
        exact .refused _ (h.same rfl)
      | some r =>
        rcases h.submit_region found now q routing with ⟨refusal, r', hsubmit, same⟩ |
          ⟨k, r', hsubmit, stored⟩
        · simp only [found, hsubmit]
          split
          · exact same.stored (ih same.keeps.sound (attempt + 1) (some i))
          · exact .refused refusal same
        · simp only [found, hsubmit]
          exact .placed (stored _)

theorem Sound.submit (h : s.Sound) (now : Int) (q : Request) :
    Attempt s (Stored s q.content) (s.submit now q) := by
  unfold Store.submit
  split
  · exact .refused _ (h.same rfl)
  · exact h.tryRegions now q _ 1 none

theorem Sound.move (h : s.Sound) (now : Int) (k : Handle) (bytes : List UInt8) :
    Attempt s (Rebound s k bytes) (s.move now k bytes) := by
  rcases h.info k with ⟨e, old, held, hinfo, -⟩ | ⟨-, hinfo⟩
  · have hput := h.submit now ⟨.payload bytes,
      remainingExpiry (e.snapshot k.region k.slot).lease now,
      (e.snapshot k.region k.slot).lease.tag⟩
    simp only [Store.move, hinfo, Store.put]
    generalize s.submit now _ = answer at hput
    cases hput with
    | @placed k' s₁ stored =>
      obtain ⟨keeps, fresh, e', bytes', held₁, rfl⟩ := stored
      have hdistinct : k ≠ k' := by
        rintro rfl
        rw [held] at fresh
        cases fresh
      -- the old payload is where it was, so the release finds it
      have hold : s₁.held k = some (e, old) := by
        rw [held₁, Function.update_of_ne hdistinct, held]
      rcases keeps.sound.release k with ⟨e₂, old₂, s', -, hrelease, keeps', held'⟩ | ⟨hnone, -⟩
      · simp only [hrelease]
        refine .placed ⟨keeps.trans keeps', by rw [held]; nofun, Or.inr fresh, e', ?_⟩
        rw [held', held₁, Function.update_comm hdistinct.symm]
      · rw [hold] at hnone
        cases hnone
    | noRoom same => exact .noRoom same
    | refused refusal same => exact .refused refusal same
  · simp only [Store.move, hinfo]
    exact .refused _ (h.same rfl)

theorem Sound.updateOrMove (h : s.Sound) (now : Int) (k : Handle) (bytes : List UInt8) :
    Attempt s (Rebound s k bytes) (s.updateOrMove now k bytes) := by
  unfold Store.updateOrMove
  rcases h.update now k bytes with ⟨refusal, hupdate⟩ | ⟨k', s', hupdate, rebound⟩
  · rw [hupdate]
    split
    · next heq => cases heq
    · next heq =>
      cases heq
      exact h.move now k bytes
    · next heq =>
      cases heq
      exact .refused _ (h.same rfl)
  · rw [hupdate]
    exact .placed rebound

/-! ### Sweeps -/

/-- Some handles name nothing any more, and the others what they did. -/
structure Thinned (s s' : Store) : Prop where
  keeps : s.Keeps s'
  held : ∀ k, s'.held k = s.held k ∨ s'.held k = none

theorem Sound.thinned (h : s.Sound)
    (each : List.Forall₂ (fun (r r' : Region) =>
      r.Keeps r' ∧ ∀ k, r'.held k = r.held k ∨ r'.held k = none) s.regions s'.regions) :
    s.Thinned s' := by
  obtain ⟨hlength, hget⟩ := List.forall₂_iff_get.1 each
  have hregion : ∀ (i : Nat) (r' : Region), s'.regions[i]? = some r' →
      ∃ r : Region, s.regions[i]? = some r ∧ r.Keeps r' ∧
        ∀ k, r'.held k = r.held k ∨ r'.held k = none := by
    intro i r' found'
    obtain ⟨hi', rfl⟩ := List.getElem?_eq_some_iff.1 found'
    have hi : i < s.regions.length := hlength ▸ hi'
    exact ⟨s.regions[i], List.getElem?_eq_getElem hi, hget i hi hi'⟩
  refine ⟨⟨fun i r' found' => ?_, hlength.symm⟩, fun k => ?_⟩
  · obtain ⟨r, found, keeps, -⟩ := hregion i r' found'
    exact ⟨keeps.sound, keeps.id.trans (h i r found).2⟩
  · cases found' : s'.regions[k.region]? with
    | none => exact Or.inr (held_of_getElem?_eq_none found')
    | some r' =>
      obtain ⟨r, found, -, held⟩ := hregion k.region r' found'
      rw [held_of_getElem? found, held_of_getElem? found']
      exact held k

/-- A sweep that no sound region refuses goes through all of them. -/
theorem sweepRegions_eq_ok {sweep : Region → Outcome Region Nat}
    (shed : ∀ r : Region, r.Sound → ∃ ks freed r', sweep r = (.ok freed, r') ∧
      Region.Shed r ks freed r') {regions : List Region} (sound : ∀ r ∈ regions, r.Sound) :
    ∃ freed regions', sweepRegions sweep regions = (.ok freed, regions') ∧
      List.Forall₂ (fun r r' => ∃ ks freed, Region.Shed r ks freed r') regions regions' := by
  induction regions with
  | nil => exact ⟨0, [], rfl, .nil⟩
  | cons r rest ih =>
    obtain ⟨ks, freed, r', hsweep, hshed⟩ := shed r (sound r (by simp))
    obtain ⟨others, rest', hrest, each⟩ := ih fun r'' member => sound r'' (by simp [member])
    refine ⟨freed + others, r' :: rest', ?_, .cons ⟨ks, freed, hshed⟩ each⟩
    simp only [sweepRegions, hsweep, hrest]

theorem Sound.sweep (h : s.Sound) (sweep : Region → Outcome Region Nat)
    (shed : ∀ r : Region, r.Sound → ∃ ks freed r', sweep r = (.ok freed, r') ∧
      Region.Shed r ks freed r') :
    ∃ freed regions, sweepRegions sweep s.regions = (.ok freed, regions) ∧
      ∀ tally, s.Thinned { s with regions, tally } := by
  obtain ⟨freed, regions, hsweep, each⟩ := sweepRegions_eq_ok shed fun r member => by
    obtain ⟨i, found⟩ := List.getElem?_of_mem member
    exact (h i r found).1
  refine ⟨freed, regions, hsweep, fun _ => h.thinned (each.imp ?_)⟩
  rintro r r' ⟨ks, freed, hshed⟩
  refine ⟨hshed.keeps, fun k => ?_⟩
  rw [hshed.held]
  split
  · exact Or.inr rfl
  · exact Or.inl rfl

theorem Sound.collectExpired (h : s.Sound) (now : Int) :
    ∃ freed s', s.collectExpired now = (.ok freed, s') ∧ s.Thinned s' := by
  obtain ⟨freed, regions, hsweep, thinned⟩ :=
    h.sweep (·.collectExpired s.expireBatch now) fun _ sound =>
      ⟨_, sound.collectExpired s.expireBatch now⟩
  have hcollect : s.collectExpired now = (.ok freed, { s with
      regions, tally := { s.tally with expiredBytes := s.tally.expiredBytes + freed } }) := by
    simp only [Store.collectExpired, hsweep]
  exact ⟨freed, _, hcollect, thinned _⟩

theorem Sound.collectLeastUsed (h : s.Sound) (now : Int) :
    ∃ freed s', s.collectLeastUsed now = (.ok freed, s') ∧ s.Thinned s' := by
  obtain ⟨freed, regions, hsweep, thinned⟩ :=
    h.sweep (·.collectLeastUsed s.leastUsedBatch now) fun _ sound =>
      ⟨_, sound.collectLeastUsed s.leastUsedBatch now⟩
  have hcollect : s.collectLeastUsed now = (.ok freed, { s with
      regions, tally := { s.tally with leastUsedBytes := s.tally.leastUsedBytes + freed } }) := by
    simp only [Store.collectLeastUsed, hsweep]
  exact ⟨freed, _, hcollect, thinned _⟩

theorem Sound.clear (h : s.Sound) : s.Keeps s.clear ∧ ∀ k, s.clear.held k = none := by
  have hclear : ∀ (i : Nat) (r' : Region), s.clear.regions[i]? = some r' →
      ∃ r : Region, s.regions[i]? = some r ∧ r.Sound ∧ r.id = i ∧ r' = r.clear := by
    intro i r' found'
    rw [Store.clear, List.getElem?_map, Option.map_eq_some_iff] at found'
    obtain ⟨r, found, rfl⟩ := found'
    exact ⟨r, found, (h i r found).1, (h i r found).2, rfl⟩
  refine ⟨⟨fun i r' found' => ?_, List.length_map _⟩, fun k => ?_⟩
  · obtain ⟨r, -, sound, own, rfl⟩ := hclear i r' found'
    exact ⟨sound.clear.1.sound, sound.clear.1.id.trans own⟩
  · cases found' : s.clear.regions[k.region]? with
    | none => exact held_of_getElem?_eq_none found'
    | some r' =>
      obtain ⟨r, -, sound, -, rfl⟩ := hclear k.region r' found'
      rw [held_of_getElem? found', Region.held_eq_none_of_not_issued (sound.clear.2.1 k.slot)]

end RegionStore.Store
