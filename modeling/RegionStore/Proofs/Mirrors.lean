import RegionStore.Proofs.AgedTables
import RegionStore.Proofs.Overlays
import RegionStore.Proofs.Sweeps

/-!
A region beside a newer one that is to behave like it. The two differ in the generations of their
slots and in bytes that are not known to be the same, and every operation keeps it so: its answers
are the same but for generations and for what is read from such bytes.
-/
namespace RegionStore

variable {α : Type}

/-! ### What sweeps pick -/

theorem expiredBatch_map {f : Snapshot → Snapshot} (lease : ∀ x, (f x).lease = x.lease)
    (live : List Snapshot) (batch : Nat) (now : Int) :
    expiredBatch (live.map f) batch now = (expiredBatch live batch now).map f := by
  have lifetime : ((·.lease.lifetimeOver now) ∘ f : Snapshot → Bool) =
      (·.lease.lifetimeOver now) := by
    funext x
    rw [Function.comp_apply, lease]
  have deadline : ((fun x => !x.lease.lifetimeOver now && x.lease.deadlineOver now) ∘ f :
      Snapshot → Bool) = fun x => !x.lease.lifetimeOver now && x.lease.deadlineOver now := by
    funext x
    rw [Function.comp_apply, lease]
  rw [expiredBatch, List.filter_map, List.filter_map, lifetime, deadline, expiredBatch,
    List.map_append, List.map_take, List.map_take]

theorem leastUsed_map {f : Snapshot → Snapshot}
    (same : ∀ x, (f x).lease = x.lease ∧ (f x).span = x.span) (live : List Snapshot) (now : Int)
    (limit : Nat) : leastUsed (live.map f) now limit = (leastUsed live now limit).map f := by
  have hsorted : (live.mergeSort (evictedBefore now)).map f =
      (live.map f).mergeSort (evictedBefore now) := by
    apply List.map_mergeSort
    intro a _ b _
    simp only [evictedBefore, (same a).1, (same a).2, (same b).1, (same b).2]
  rw [leastUsed, ← hsorted, leastUsed, List.map_take]

/-! ### What is kept apart -/

/-- Outcomes with the same refusal, or with answers that go together. -/
inductive Outcome.Alike {σ α : Type} (refused : σ → σ → Prop) (answered : α → σ → α → σ → Prop) :
    Outcome σ α → Outcome σ α → Prop
  | refused (refusal : StoreError) {s s' : σ} (h : refused s s') :
    Alike refused answered (.error refusal, s) (.error refusal, s')
  | answered {a a' : α} {s s' : σ} (h : answered a s a' s') :
    Alike refused answered (.ok a, s) (.ok a', s')

/-- Payload bytes are given. -/
def Content.Written : Content → Prop
  | payload _ => True
  | reserved _ => False

/-- What the patch leaves at an offset depends on bytes at known places only. -/
def Patch.Settles (patch : Patch α) (e : Entry) (known : Set (Nat × Nat)) (i : Nat) : Prop :=
  ∀ bytes bytes', bytes.length = e.lease.len → e.Agree known bytes bytes' →
    (patch.run bytes').1[i]? = (patch.run bytes).1[i]?

namespace Region

/-- The places of the payload that a handle names. -/
def footprint (r : Region) (k : Handle) : Set (Nat × Nat) :=
  {p | ∃ e, r.table.checked k = .ok e ∧ e.Covers e.lease.len p}

/-- The places that are known after a patch, if these were before. -/
def patched (r : Region) (known : Set (Nat × Nat)) (k : Handle) (patch : Patch α) :
    Set (Nat × Nat) :=
  match r.table.checked k with
  | .error _ => known
  | .ok e => {p | (e.Covers e.lease.len p → patch.Settles e known (p.2 - e.span.start)) ∧
      (¬ e.Covers e.lease.len p → p ∈ known)}

/-- The answers show payloads that are the same at known places. -/
def ReadAlike (known : Set (Nat × Nat)) (old new : Region) (k k' : Handle) (f : List UInt8 → α)
    (a a' : α) : Prop :=
  ∃ e e' bytes bytes', old.held k = some (e, bytes) ∧ new.held k' = some (e', bytes') ∧
    e'.Agree known bytes bytes' ∧ a = f bytes ∧ a' = f bytes'

/-- Two regions of one number differ in generations and in bytes at places that are not known. -/
structure Mirrors (i : Nat) (age : Nat → UInt32) (known : Set (Nat × Nat)) (old new : Region) :
    Prop where
  sound : old.Sound
  sound' : new.Sound
  own : old.id = i
  table : old.table.Aged age new.table
  stack : old.placement.strategy ≠ .slab → old.table.Stacked new.table
  placement : new.placement = old.placement
  usage : new.usage = old.usage
  sizes : new.sizes = old.sizes
  bytes : ∀ p ∈ known, new.byte? p = old.byte? p

/-- The same place has been issued in both regions. -/
structure IssuedAlike (i : Nat) (age : Nat → UInt32) (known : Set (Nat × Nat)) (c : Content)
    (k : Handle) (old : Region) (k' : Handle) (new : Region) : Prop where
  handle : k' = k.since (age k.slot)
  own : k.region = i
  inside : k.slot < new.table.slotCount
  mirrors : Mirrors i age (known ∪ {p | c.Written ∧ p ∈ new.footprint k'}) old new

/-- The same number, say of bytes, is answered. -/
def CountedAlike (i : Nat) (age : Nat → UInt32) (known : Set (Nat × Nat)) (n : Nat) (old : Region)
    (n' : Nat) (new : Region) : Prop :=
  n' = n ∧ Mirrors i age known old new

/-- Writing payloads of one length at one place keeps bytes the same, where these are. -/
theorem byte?_overlay_alike {segments segments' : Array Segment} {e : Entry}
    {bytes bytes' : List UInt8} {s s' : Segment} {place : Nat × Nat}
    (found : segments[e.segment]? = some s) (found' : segments'[e.segment]? = some s')
    (length : bytes'.length = bytes.length)
    (covered : e.Covers bytes.length place →
      bytes'[place.2 - e.span.start]? = bytes[place.2 - e.span.start]?)
    (other : ¬ e.Covers bytes.length place →
      Segment.byte? segments' place = Segment.byte? segments place) :
    Segment.byte? (Segment.overlay segments' e bytes') place =
      Segment.byte? (Segment.overlay segments e bytes) place := by
  by_cases covers : e.Covers bytes.length place
  · rw [Segment.byte?_overlay_of_covers found covers,
      Segment.byte?_overlay_of_covers found' (length.symm ▸ covers), covered covers]
  · rw [Segment.byte?_overlay_of_not_covers covers,
      Segment.byte?_overlay_of_not_covers (length.symm ▸ covers), other covers]

namespace Mirrors

variable {i : Nat} {age age' : Nat → UInt32} {known known' : Set (Nat × Nat)}
  {old old' new new' : Region} {k : Handle} {e : Entry}

theorem id (h : Mirrors i age known old new) : new.id = old.id := h.table.region

theorem mono (h : Mirrors i age known old new) (less : known' ⊆ known) :
    Mirrors i age known' old new :=
  { h with bytes := fun p member => h.bytes p (less member) }

theorem capacity (h : Mirrors i age known old new) : new.capacity = old.capacity :=
  capacity_congr h.sizes

theorem maxRequest (h : Mirrors i age known old new) : new.maxRequest = old.maxRequest := by
  unfold Region.maxRequest
  rw [h.placement, h.capacity]

/-- A handle is good in both regions or stale in both. -/
theorem checked_cases (h : Mirrors i age known old new) (inside : k.slot < new.table.slotCount) :
    (∃ refusal, old.table.checked k = .error refusal ∧
        new.table.checked (k.since (age k.slot)) = .error refusal) ∨
      ∃ e, old.table.checked k = .ok e ∧
        new.table.checked (k.since (age k.slot)) = .ok (e.since (age k.slot)) := by
  have hchecked := h.table.checked inside
  cases checked : old.table.checked k with
  | error refusal =>
    rw [checked] at hchecked
    exact Or.inl ⟨refusal, rfl, hchecked⟩
  | ok e =>
    rw [checked] at hchecked
    exact Or.inr ⟨e, rfl, hchecked⟩

theorem agree (h : Mirrors i age known old new) {k k' : Handle} {a : UInt32}
    (checked : old.table.checked k = .ok e) (checked' : new.table.checked k' = .ok (e.since a)) :
    (e.since a).Agree known (old.payload e) (new.payload (e.since a)) := by
  refine ⟨?_, fun i member => ?_⟩
  · rw [h.sound.length_payload checked, h.sound'.length_payload checked']
    rfl
  · rw [getElem?_payload, getElem?_payload, h.bytes _ member]
    rfl

theorem readAlike (h : Mirrors i age known old new) {k k' : Handle} {a : UInt32}
    (checked : old.table.checked k = .ok e) (checked' : new.table.checked k' = .ok (e.since a))
    (f : List UInt8 → α) :
    ReadAlike known old new k k' f (f (old.payload e)) (f (new.payload (e.since a))) :=
  ⟨e, e.since a, _, _, held_of_checked checked, held_of_checked checked', h.agree checked checked',
    rfl, rfl⟩

theorem info (h : Mirrors i age known old new) (inside : k.slot < new.table.slotCount) :
    new.info (k.since (age k.slot)) = (old.info k).map (·.since (age k.slot)) := by
  rcases h.checked_cases inside with ⟨refusal, refused, refused'⟩ | ⟨e, checked, checked'⟩
  · rw [Region.info, Region.info, refused, refused']
    rfl
  · rw [Region.info, Region.info, checked, checked', h.id]
    rfl

/-- What has to be shown after a step that both regions take. -/
theorem step (h : Mirrors i age known old new) (keeps : old.Keeps old') (keeps' : new.Keeps new')
    (table : old'.table.Aged age' new'.table)
    (stack : old'.placement.strategy ≠ .slab → old'.table.Stacked new'.table)
    (placement : new'.placement = old'.placement) (usage : new'.usage = old'.usage)
    (bytes : ∀ p ∈ known', new'.byte? p = old'.byte? p) : Mirrors i age' known' old' new' :=
  ⟨keeps.sound, keeps'.sound, keeps.id.trans h.own, table, stack, placement, usage,
    by rw [keeps'.sizes, h.sizes, keeps.sizes], bytes⟩

theorem retally (h : Mirrors i age known old new) (f : Usage → Usage)
    (used : (f old.usage).used = old.usage.used) :
    Mirrors i age known { old with usage := f old.usage } { new with usage := f new.usage } := by
  have used' : (f new.usage).used = new.usage.used := by rw [h.usage, used]
  exact h.step (h.sound.retally _ used) (h.sound'.retally _ used') h.table h.stack h.placement
    (congrArg f h.usage) h.bytes

/-- A payload is shown in both, and both count a hit. -/
theorem view (h : Mirrors i age known old new) (inside : k.slot < new.table.slotCount) (now : Int)
    (f : List UInt8 → α) :
    Outcome.Alike (Mirrors i age known)
      (fun a old' a' new' => ReadAlike known old new k (k.since (age k.slot)) f a a' ∧
        Mirrors i age known old' new')
      (old.view now k f) (new.view now (k.since (age k.slot)) f) := by
  rcases h.checked_cases inside with ⟨refusal, refused, refused'⟩ | ⟨e, checked, checked'⟩
  · rw [view_of_error refused, view_of_error refused']
    exact .refused refusal h
  · obtain ⟨_, hview, keeps, -⟩ := h.sound.view checked now f
    obtain ⟨_, hview', keeps', -⟩ := h.sound'.view checked' now f
    rw [hview, hview']
    rw [h.sound.view_eq checked] at hview
    rw [h.sound'.view_eq checked'] at hview'
    cases hview
    cases hview'
    exact .answered ⟨h.readAlike checked checked' f, h.step keeps keeps'
      (h.table.modify inside fun _ _ => rfl) (fun other => (h.stack other).modify _ _ _)
      h.placement h.usage h.bytes⟩

theorem edit (h : Mirrors i age known old new) (inside : k.slot < new.table.slotCount)
    (patch : Patch α) :
    Outcome.Alike (Mirrors i age (new.patched known (k.since (age k.slot)) patch))
      (fun a old' a' new' =>
        ReadAlike known old new k (k.since (age k.slot)) (fun bytes => (patch.run bytes).2) a a' ∧
          Mirrors i age (new.patched known (k.since (age k.slot)) patch) old' new')
      (old.edit k patch.run) (new.edit (k.since (age k.slot)) patch.run) := by
  rcases h.checked_cases inside with ⟨refusal, refused, refused'⟩ | ⟨e, checked, checked'⟩
  · rw [edit_of_error refused, edit_of_error refused']
    simp only [patched, refused']
    exact .refused refusal h
  · obtain ⟨_, hedit, keeps, -⟩ := h.sound.edit checked (patch.length_run _)
    obtain ⟨_, hedit', keeps', -⟩ := h.sound'.edit checked' (patch.length_run _)
    obtain ⟨s, found, -⟩ := h.sound.locate checked
    obtain ⟨s', found', -⟩ := h.sound'.locate checked'
    have agree := h.agree checked checked'
    have hlength := h.sound.length_payload checked
    have hrun := patch.length_run (old.payload e)
    rw [hedit, hedit']
    rw [h.sound.edit_eq checked] at hedit
    rw [h.sound'.edit_eq checked'] at hedit'
    cases hedit
    cases hedit'
    refine .answered ⟨h.readAlike checked checked' _, h.step keeps keeps' h.table h.stack
      h.placement h.usage fun p member => byte?_overlay_alike found found' ?_ ?_ ?_⟩
    · rw [patch.length_run, hrun, agree.1]
    · rw [hrun, hlength]
      simp only [patched, checked'] at member
      exact fun covers => member.1 covers _ _ hlength agree
    · rw [hrun, hlength]
      simp only [patched, checked'] at member
      exact fun other => h.bytes p (member.2 other)

theorem byte?_fill (h : Mirrors i age known old new) {c : Content} {a : UInt32}
    {segments segments' : Array Segment} (filled : old.fill e c = .ok segments)
    (filled' : new.fill (e.since a) c = .ok segments') {p : Nat × Nat}
    (member : p ∈ known ∨ c.Written ∧ e.Covers c.size p) :
    Segment.byte? segments' p = Segment.byte? segments p := by
  cases c with
  | payload bytes =>
    obtain ⟨⟨s, found⟩, rfl⟩ := fill_payload_eq_ok filled
    obtain ⟨⟨s', found'⟩, rfl⟩ := fill_payload_eq_ok filled'
    refine byte?_overlay_alike found found' rfl (fun _ => rfl) fun other => ?_
    exact h.bytes p (member.resolve_right fun written => other written.2)
  | reserved n =>
    cases filled
    cases filled'
    exact h.bytes p (member.resolve_right fun written => written.1)

/-- Room is found at the same place, or in neither region. -/
theorem place (h : Mirrors i age known old new) (now : Int) {q : Request} (positive : 1 ≤ q.size) :
    Outcome.Alike (Mirrors i age known) (IssuedAlike i age known q.content)
      (old.place now q) (new.place now q) := by
  have reserved : Placement.ReservedAlike age (old.placement.reserve old.table q.size)
      (new.placement.reserve new.table q.size) := by
    have account := h.sound'.account
    rw [h.placement] at account ⊢
    exact Placement.reserve_aged h.table h.stack account q.size
  generalize room : old.placement.reserve old.table q.size = found at reserved
  generalize room' : new.placement.reserve new.table q.size = found' at reserved
  cases reserved with
  | none =>
    simp only [Region.place, room, room']
    exact .refused _ (h.retally Usage.recordFailure rfl)
  | @some slot t u p aged stack inside =>
    obtain ⟨k, r, placed⟩ := h.sound.place positive room now
    obtain ⟨k', r', placed'⟩ := h.sound'.place positive room' now
    obtain ⟨issued, checked, hlen⟩ := placed'.checked
    rw [placed.answer, placed'.answer]
    obtain ⟨_, _, _, e, segments, hroom, found, filled, rfl, rfl⟩ := place_eq_ok placed.answer
    obtain ⟨_, _, _, _, segments', hroom', found', filled', rfl, rfl⟩ :=
      place_eq_ok placed'.answer
    cases room.symm.trans hroom
    cases room'.symm.trans hroom'
    cases found'.symm.trans (aged.find? inside found)
    -- the payload covers the start of the entry that has been found, and nothing else
    have covers : ∀ place, issued.Covers issued.lease.len place → e.Covers q.size place := by
      have hissued := (SlotTable.checked_eq_ok_iff.1 checked).2.1
      rw [SlotTable.find?_modify, if_pos rfl, found'] at hissued
      cases hissued
      rw [hlen]
      exact fun _ inside => inside
    refine .answered ⟨?_, placed.own.trans h.own, ?_, h.step placed.keeps placed'.keeps
      (aged.modify inside fun _ _ => rfl) (fun other => (stack other).modify _ _ _) rfl
      (congrArg (Usage.addUsed · _) h.usage) fun place member => h.byte?_fill filled filled' ?_⟩
    · rw [h.id]
      rfl
    · rw [SlotTable.slotCount_modify]
      exact inside
    · refine member.imp_right ?_
      rintro ⟨written, e', checked', inside'⟩
      cases checked.symm.trans checked'
      exact ⟨written, covers place inside'⟩

theorem submit (h : Mirrors i age known old new) (now : Int) (q : Request) :
    Outcome.Alike (Mirrors i age known) (IssuedAlike i age known q.content)
      (old.submit now q) (new.submit now q) := by
  simp only [Region.submit, h.maxRequest]
  cases hrefusal : q.refusal? old.maxRequest with
  | some refusal => exact .refused refusal h
  | none => exact h.place now (Request.refusal?_eq_none_iff.1 hrefusal).1

theorem release (h : Mirrors i age known old new) (inside : k.slot < new.table.slotCount) :
    Outcome.Alike (Mirrors i age known) (CountedAlike i age known)
      (old.release k) (new.release (k.since (age k.slot))) := by
  rcases h.checked_cases inside with ⟨refusal, refused, refused'⟩ | ⟨e, checked, checked'⟩
  · have own : (k.since (age k.slot)).region = new.id ↔ k.region = old.id := by
      rw [h.id]
      rfl
    rw [release_of_error refused, release_of_error refused']
    simp only [own]
    split
    · exact .answered ⟨rfl, h⟩
    · exact .refused _ h
  · obtain ⟨r, released⟩ := h.sound.release checked
    obtain ⟨r', released'⟩ := h.sound'.release checked'
    obtain ⟨-, issued, -⟩ := SlotTable.checked_eq_ok_iff_issued?.1 checked
    obtain ⟨t, p, hrelease, hstrategy, -⟩ := h.sound.account.release issued
    have hmodify : (old.table.modify k.slot fun _ => e.invalidate).Aged age
        (new.table.modify k.slot fun _ => (e.since (age k.slot)).invalidate) :=
      h.table.modify inside fun _ _ => e.since_invalidate (age k.slot)
    obtain ⟨u, hrelease', aged, stack, -⟩ := Placement.release_aged hmodify
      (fun other => (h.stack other).modify _ _ _) hrelease (age k.slot)
    rw [← h.placement] at hrelease'
    have answer := released.answer
    have answer' := released'.answer
    rw [release_eq checked hrelease] at answer
    rw [release_eq checked' hrelease'] at answer'
    rw [released.answer, released'.answer]
    cases answer
    cases answer'
    exact .answered ⟨rfl, h.step released.keeps released'.keeps aged stack rfl
      (congrArg (Usage.subUsed · _) h.usage) h.bytes⟩

/-- By first fit, an update is a release and a placement. -/
theorem replace (h : Mirrors i age known old new) (inside : k.slot < new.table.slotCount)
    {order : List Nat} (placement : old.placement = .firstFit order)
    (checked : old.table.checked k = .ok e)
    (checked' : new.table.checked (k.since (age k.slot)) = .ok (e.since (age k.slot))) (now : Int)
    {bytes : List UInt8} (positive : 1 ≤ bytes.length) :
    Outcome.Alike (Mirrors i age known) (IssuedAlike i age known (.payload bytes))
      (old.replace now k bytes) (new.replace now (k.since (age k.slot)) bytes) := by
  have released := h.release inside
  have placement' := h.placement.trans placement
  rw [replace_eq placement checked, replace_eq placement' checked']
  rw [release_firstFit placement checked, release_firstFit placement' checked'] at released ⊢
  cases released with
  | answered alike =>
    exact alike.2.place now (q := ⟨.payload bytes, e.lease.expiry, e.lease.tag⟩) positive

theorem overwrite (h : Mirrors i age known old new) (inside : k.slot < new.table.slotCount)
    (inPlace : old.placement.strategy ≠ .firstFit) (checked : old.table.checked k = .ok e)
    (checked' : new.table.checked (k.since (age k.slot)) = .ok (e.since (age k.slot)))
    {bytes : List UInt8} (positive : 1 ≤ bytes.length) (fits : bytes.length ≤ e.span.size) :
    Outcome.Alike (Mirrors i age known) (IssuedAlike i age known (.payload bytes))
      (old.overwrite k bytes) (new.overwrite (k.since (age k.slot)) bytes) := by
  obtain ⟨_, hwrite, keeps, -⟩ := h.sound.overwrite checked positive fits inPlace
  obtain ⟨_, hwrite', keeps', held, -⟩ :=
    h.sound'.overwrite checked' positive fits (h.placement.symm ▸ inPlace)
  obtain ⟨s, found, -⟩ := h.sound.locate checked
  obtain ⟨s', found', -⟩ := h.sound'.locate checked'
  have own := (SlotTable.checked_eq_ok_iff.1 checked).1
  rw [hwrite, hwrite']
  rw [h.sound.overwrite_eq checked fits] at hwrite
  rw [h.sound'.overwrite_eq checked' fits] at hwrite'
  cases hwrite
  cases hwrite'
  refine .answered ⟨rfl, own.trans h.own, ?_, h.step keeps keeps'
    (h.table.modify inside fun _ _ => rfl) (fun other => (h.stack other).modify _ _ _) h.placement
    h.usage fun p member => byte?_overlay_alike found found' rfl (fun _ => rfl) fun other => ?_⟩
  · rw [SlotTable.slotCount_modify]
    exact inside
  · refine h.bytes p (member.resolve_right ?_)
    rintro ⟨-, e', hissued, covers⟩
    have hheld := congrFun held (k.since (age k.slot))
    rw [Function.update_self] at hheld
    obtain ⟨hchecked, hpayload⟩ := held_eq_some_iff.1 hheld
    cases hissued.symm.trans hchecked
    have hlength := keeps'.sound.length_payload hchecked
    rw [← hpayload] at hlength
    rw [← hlength] at covers
    exact other covers

theorem update (h : Mirrors i age known old new) (inside : k.slot < new.table.slotCount) (now : Int)
    (bytes : List UInt8) :
    Outcome.Alike (Mirrors i age known) (IssuedAlike i age known (.payload bytes))
      (old.update now k bytes) (new.update now (k.since (age k.slot)) bytes) := by
  rcases h.checked_cases inside with ⟨refusal, refused, refused'⟩ | ⟨e, checked, checked'⟩
  · rw [update_of_error refused, update_of_error refused']
    exact .refused _ h
  · have hspan : (e.since (age k.slot)).span = e.span := rfl
    simp only [Region.update, checked, checked', hspan, h.placement]
    split
    · exact .refused _ h
    · next some =>
      have positive : 1 ≤ bytes.length := by
        rw [List.isEmpty_iff, ← List.length_eq_zero_iff] at some
        omega
      split
      · exact .refused _ h
      · next fits =>
        have fits : bytes.length ≤ e.span.size := Nat.le_of_not_lt fits
        cases placement : old.placement with
        | firstFit order => exact h.replace inside placement checked checked' now positive
        | largestFit free =>
          exact h.overwrite inside (by simp [placement, Placement.strategy]) checked checked'
            positive fits
        | slab pools fallThrough =>
          exact h.overwrite inside (by simp [placement, Placement.strategy]) checked checked'
            positive fits

/-! ### Sweeps -/

theorem releaseAll (h : Mirrors i age known old new) {ks : List Handle}
    (inside : ∀ k ∈ ks, k.slot < new.table.slotCount) :
    Outcome.Alike (Mirrors i age known) (CountedAlike i age known)
      (old.releaseAll ks) (new.releaseAll (ks.map fun k => k.since (age k.slot))) := by
  induction ks generalizing old new with
  | nil => exact .answered ⟨rfl, h⟩
  | cons k rest ih =>
    have first := h.release (inside k (by simp))
    have extends' := extends_release (r := new) (k.since (age k.slot))
    simp only [Region.releaseAll, List.map_cons]
    generalize old.release k = outcome at first ⊢
    generalize new.release (k.since (age k.slot)) = outcome' at first extends' ⊢
    cases first with
    | refused refusal alike => exact .refused refusal alike
    | answered alike =>
      have others := ih alike.2 fun k' member =>
        Nat.lt_of_lt_of_le (inside k' (by simp [member])) extends'
      simp only [alike.1]
      generalize Region.releaseAll _ rest = outcome at others ⊢
      generalize Region.releaseAll _ (rest.map _) = outcome' at others ⊢
      cases others with
      | refused refusal alike => exact .refused refusal alike
      | answered alike => exact .answered ⟨congrArg _ alike.1, alike.2⟩

/-- What is live in both is picked alike. -/
theorem releaseLive (h : Mirrors i age known old new) (picked : List Snapshot)
    (live : ∀ x ∈ picked, x ∈ old.live) :
    Outcome.Alike (Mirrors i age known) (CountedAlike i age known)
      (old.releaseAll (picked.map (·.handle)))
      (new.releaseAll ((picked.map fun x => x.since (age x.handle.slot)).map (·.handle))) := by
  have inside : ∀ k ∈ picked.map (·.handle), k.slot < new.table.slotCount := by
    intro k member
    obtain ⟨x, hx, rfl⟩ := List.mem_map.1 member
    obtain ⟨slot, e, issued, rfl⟩ := SlotTable.mem_live_iff.1 (live x hx)
    have issued' := h.table.issued? slot
    rw [issued] at issued'
    exact SlotTable.lt_slotCount_of_issued? issued'
  have released := h.releaseAll inside
  rw [List.map_map] at released ⊢
  exact released

theorem collectExpired (h : Mirrors i age known old new) (batch : Nat) (now : Int) :
    Outcome.Alike (Mirrors i age known) (CountedAlike i age known)
      (old.collectExpired batch now) (new.collectExpired batch now) := by
  have hlive : new.live = old.live.map fun x => x.since (age x.handle.slot) := h.table.live
  rw [Region.collectExpired, Region.collectExpired, hlive,
    expiredBatch_map (f := fun x => x.since (age x.handle.slot)) fun _ => rfl]
  exact h.releaseLive _ fun x member => mem_of_mem_expiredBatch member

theorem collectLeastUsed (h : Mirrors i age known old new) (batch : Nat) (now : Int) :
    Outcome.Alike (Mirrors i age known) (CountedAlike i age known)
      (old.collectLeastUsed batch now) (new.collectLeastUsed batch now) := by
  have hlive : new.live = old.live.map fun x => x.since (age x.handle.slot) := h.table.live
  have hshort : new.inShortage = old.inShortage := congrArg Usage.inShortage h.usage
  have released := h.releaseLive (leastUsed old.live now (evictionCount old.live.length batch))
    fun x member => mem_of_mem_leastUsed member
  rw [← leastUsed_map (f := fun x => x.since (age x.handle.slot)) fun _ => ⟨rfl, rfl⟩] at released
  simp only [Region.collectLeastUsed, hlive, hshort, List.isEmpty_map, List.length_map]
  split
  · exact .answered ⟨rfl, h⟩
  · split
    · exact .answered ⟨rfl, h⟩
    · generalize old.releaseAll _ = outcome at released ⊢
      generalize new.releaseAll _ = outcome' at released ⊢
      cases released with
      | refused refusal alike => exact .refused refusal alike
      | answered alike =>
        obtain ⟨rfl, alike⟩ := alike
        refine .answered ⟨rfl, ?_⟩
        split
        · exact alike.retally Usage.resetFailures rfl
        · exact alike

theorem setThreshold (h : Mirrors i age known old new) (threshold : UInt64) :
    Mirrors i age known (old.setThreshold threshold) (new.setThreshold threshold) :=
  h.retally (fun usage => { usage with threshold }) rfl

/-- Clearing both leaves ages as they are, but for slots that only one of the regions has. -/
theorem clear (h : Mirrors i age known old new) :
    Mirrors i (SlotTable.laterAges age old.table new.table) known old.clear new.clear := by
  have keeps := h.sound.clear.1
  have keeps' := h.sound'.clear.1
  obtain ⟨same, aged, stack, -⟩ := Placement.reset_aged (p := old.placement) h.table old.capacity
  have hnew : new.clear = { new with
      table := (old.placement.reset new.table old.capacity).1
      placement := (old.placement.reset new.table old.capacity).2
      usage := new.usage.reset } := by
    simp only [Region.clear, h.placement, h.capacity]
  rw [hnew] at keeps' ⊢
  refine h.step keeps keeps' aged (fun other => stack ?_) same (congrArg Usage.reset h.usage)
    h.bytes
  rwa [keeps.strategy] at other

end Mirrors

end Region

end RegionStore
