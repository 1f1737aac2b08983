import RegionStore.Proofs.MirroredStores

/-!
Sessions with a store. Calls name handles by the order in which they were answered, so that the
same calls can be made to two stores that issue different ones.
-/
namespace RegionStore

variable {α : Type}

/-- What can be done through a handle, in a store or in one of its regions. -/
inductive Access (α : Type) where
  | get
  | view (f : List UInt8 → α)
  | edit (patch : Patch α)
  | update (bytes : List UInt8)
  | release
  | info

namespace Access

def op (k : Handle) : Access α → Store.Op α
  | get => .get k
  | view f => .view k f
  | edit patch => .edit k patch
  | update bytes => .update k bytes
  | release => .release k
  | info => .info k

/-- How the answer comes from the payload, if it does. -/
def shows? : Access α → Option (List UInt8 → Answer α)
  | get => some .bytes
  | view f => some fun bytes => .shown (f bytes)
  | edit patch => some fun bytes => .shown (patch.run bytes).2
  | _ => none

/-- How a region answers that the handle names another. -/
def refusal (other : Nat) : Access α → StoreError
  | update bytes => if bytes.isEmpty then .emptyPayload else .unknownRegion other
  | _ => .unknownRegion other

/-- The access gives a payload as a whole to the handle that it answers. -/
def Writes : Access α → Prop
  | update _ => True
  | _ => False

end Access

/-- One call to a region. Handles are numbered in the order in which a session has answered them. -/
inductive Region.Call (α : Type) where
  | submit (q : Request)
  | through (n : Nat) (access : Access α)
  | collectExpired (batch : Nat)
  | collectLeastUsed (batch : Nat)
  | setThreshold (threshold : UInt64)
  | clear

/-- One call of a session, to the store or to the region of a number. -/
inductive Call (α : Type) where
  | submit (q : Request)
  | through (n : Nat) (access : Access α)
  | updateOrMove (n : Nat) (bytes : List UInt8)
  | collectExpired
  | collectLeastUsed
  | clear
  | inRegion (i : Nat) (c : Region.Call α)

/-- The outcome with another form of the answer, unless it is refused. -/
def Outcome.answering {σ β : Type} (f : β → Answer α) (o : Outcome σ β) : Outcome σ (Answer α) :=
  (o.1.map f, o.2)

namespace Region

def access (r : Region) (now : Int) (k : Handle) : Access α → Outcome Region (Answer α)
  | .get => (r.get now k).answering .bytes
  | .view f => (r.view now k f).answering .shown
  | .edit patch => (r.edit k patch.run).answering .shown
  | .update bytes => (r.update now k bytes).answering .handle
  | .release => (r.release k).answering .count
  | .info => ((r.info k).map .snapshot, r)

/-- Another region than the one that the handle names refuses it. -/
theorem access_foreign {r : Region} {k : Handle} (other : k.region ≠ r.id) (now : Int)
    (access : Access α) : r.access now k access = (.error (access.refusal k.region), r) := by
  have refused : r.table.checked k = .error (.unknownRegion k.region) :=
    SlotTable.checked_eq_error_iff.2 (Or.inl ⟨other, rfl⟩)
  cases access with
  | get =>
    rw [access, get, view_of_error refused]
    rfl
  | view f =>
    rw [access, view_of_error refused]
    rfl
  | edit patch =>
    rw [access, edit_of_error refused]
    rfl
  | update bytes =>
    rw [access, update_of_error refused]
    rfl
  | release =>
    rw [access, release_of_error refused, if_neg other]
    rfl
  | info =>
    rw [access, info, refused]
    rfl

/-- A call through a number that no handle has does nothing. -/
def call (r : Region) (handles : List Handle) (now : Int) : Call α → Outcome Region (Answer α)
  | .submit q => (r.submit now q).answering .handle
  | .through n access =>
    match handles[n]? with
    | none => (.ok .done, r)
    | some k => r.access now k access
  | .collectExpired batch => (r.collectExpired batch now).answering .count
  | .collectLeastUsed batch => (r.collectLeastUsed batch now).answering .count
  | .setThreshold threshold => (.ok .done, r.setThreshold threshold)
  | .clear => (.ok .done, r.clear)

theorem run_access (r : Region) (now : Int) (k : Handle) (access : Access α) :
    ∃ ops, (r.access now k access).2 = r.run ops := by
  cases access with
  | get => exact r.run_view now k fun payload => payload
  | view f => exact r.run_view now k f
  | edit patch => exact r.run_edit now k patch
  | update bytes => exact ⟨[(now, .update k bytes)], rfl⟩
  | release => exact ⟨[(now, .release k)], rfl⟩
  | info => exact ⟨[], rfl⟩

theorem run_call (r : Region) (handles : List Handle) (now : Int) (c : Call α) :
    ∃ ops, (r.call handles now c).2 = r.run ops := by
  cases c with
  | submit q => exact ⟨[(now, .submit q)], rfl⟩
  | through n access =>
    simp only [call]
    split
    · exact ⟨[], rfl⟩
    · exact r.run_access now _ access
  | collectExpired batch => exact ⟨[(now, .collectExpired batch)], rfl⟩
  | collectLeastUsed batch => exact ⟨[(now, .collectLeastUsed batch)], rfl⟩
  | setThreshold threshold => exact ⟨[(now, .setThreshold threshold)], rfl⟩
  | clear => exact ⟨[(now, .clear)], rfl⟩

end Region

namespace Call

/-- The call gives a payload as a whole to the handle that it answers. -/
def Writes : Call α → Prop
  | submit q => q.content.Written
  | through _ access => access.Writes
  | updateOrMove _ _ => True
  | inRegion _ (.submit q) => q.content.Written
  | inRegion _ (.through _ access) => access.Writes
  | _ => False

/-- What is done through the handle of which number, if anything is. -/
def access? : Call α → Option (Nat × Access α)
  | through n access => some (n, access)
  | inRegion _ (.through n access) => some (n, access)
  | _ => none

end Call

/-- The handle apart from its generation. -/
def Handle.anonymous (k : Handle) : Handle := { k with generation := 0 }

def Snapshot.anonymous (x : Snapshot) : Snapshot := { x with handle := x.handle.anonymous }

namespace Answer

def handles : Answer α → List Handle
  | handle k => [k]
  | _ => []

/-- The answer apart from generations. -/
def anonymous : Answer α → Answer α
  | handle k => handle k.anonymous
  | snapshot x => snapshot x.anonymous
  | other => other

end Answer

/-- A call through a number that no handle has does nothing. -/
def Store.call (s : Store) (handles : List Handle) (now : Int) : Call α → Answer α × Store
  | .submit q => (s.submit now q).map (.ofExcept .ofPlace) id
  | .through n access =>
    match handles[n]? with
    | none => (.done, s)
    | some k => s.perform now (access.op k)
  | .updateOrMove n bytes =>
    match handles[n]? with
    | none => (.done, s)
    | some k => s.perform now (.updateOrMove k bytes)
  | .collectExpired => s.perform now .collectExpired
  | .collectLeastUsed => s.perform now .collectLeastUsed
  | .clear => s.perform now .clear
  | .inRegion i c => (s.onRegion i (·.call handles now c)).map (.ofExcept id) id

structure Session where
  store : Store
  /-- The handles that have been answered, in order. -/
  handles : List Handle

namespace Session

def call (x : Session) (now : Int) (c : Call α) : Answer α × Session :=
  let (answer, store) := x.store.call x.handles now c
  (answer, ⟨store, x.handles ++ answer.handles⟩)

/-- The places that are known after a call that may be a patch, if these were before. A region
patches nothing through handles of others. -/
def patched (x : Session) (known : Set (Nat × Nat × Nat)) : Call α → Set (Nat × Nat × Nat)
  | .through n (.edit patch) =>
    match x.handles[n]? with
    | none => known
    | some k => x.store.patched known k patch
  | .inRegion i (.through n (.edit patch)) =>
    match x.handles[n]? with
    | none => known
    | some k => if k.region = i then x.store.patched known k patch else known
  | _ => known

/-- The places that are known after a call, if these were before. Payloads that are given as a whole
are known then, and what a patch leaves is where it depends on known places only. -/
def settled (x : Session) (known : Set (Nat × Nat × Nat)) (now : Int) (c : Call α) :
    Set (Nat × Nat × Nat) :=
  x.patched known c ∪ {p | c.Writes ∧ ∃ k ∈ (x.call now c).1.handles,
    p ∈ (x.call now c).2.store.footprint k}

/-- The answers are the same apart from generations, or show payloads of one length that are the
same at known places. -/
inductive AnswersAlike (known : Set (Nat × Nat × Nat)) (old new : Session) (c : Call α)
    (a a' : Answer α) : Prop
  | same (anonymous : a'.anonymous = a.anonymous)
  | read {n : Nat} {access : Access α} {f : List UInt8 → Answer α} {k k' : Handle}
    (call : c.access? = some (n, access)) (shows : access.shows? = some f)
    (handle : old.handles[n]? = some k) (handle' : new.handles[n]? = some k')
    (alike : Store.ReadAlike known old.store new.store k k' f a a')

end Session

namespace Store

variable {age : Nat → Nat → UInt32} {known : Set (Nat × Nat × Nat)} {old new : Store} {k : Handle}

/-- The handles that are answered go together, and so do the stores. The handles may have been given
payloads as a whole. -/
structure Matched (age : Nat → Nat → UInt32) (known : Set (Nat × Nat × Nat)) (written : Prop)
    (x x' : Answer α × Store) : Prop where
  stores : Mirrors age (known ∪ {p | written ∧ ∃ k ∈ x'.1.handles, p ∈ x'.2.footprint k}) x.2 x'.2
  handles : x'.1.handles = x.1.handles.map (·.renewed age)
  inside : ∀ k ∈ x.1.handles, x'.2.HasSlot k

theorem Mirrors.matched {a a' : Answer α} (h : Mirrors age known old new) (none : a.handles = [])
    (none' : a'.handles = []) (written : Prop) :
    Matched age known written (a, old) (a', new) := by
  refine ⟨h.mono ?_, ?_, ?_⟩
  · rintro p (member | ⟨-, k, member, -⟩)
    · exact member
    · rw [none'] at member
      cases member
  · rw [none, none']
    rfl
  · rw [none]
    nofun

theorem IssuedAlike.matched {c : Content} {o o' : Option Handle}
    (h : IssuedAlike age known c o old o' new) :
    Matched age known c.Written (.ofPlace o, old) ((.ofPlace o', new) : Answer α × Store) := by
  cases h with
  | none alike => exact alike.matched rfl rfl _
  | @some k k' _ _ handle inside alike =>
    refine ⟨alike.mono ?_, congrArg (fun k => [k]) handle, ?_⟩
    · rintro p (member | ⟨written, k, member, covered⟩)
      · exact Or.inl member
      · rw [List.mem_singleton.1 member] at covered
        exact Or.inr ⟨written, covered⟩
    · intro k member
      rw [List.mem_singleton.1 member]
      exact inside

theorem IssuedAlike.anonymous {c : Content} {o o' : Option Handle}
    (h : IssuedAlike age known c o old o' new) :
    (Answer.ofPlace o' : Answer α).anonymous = (Answer.ofPlace o).anonymous := by
  cases h with
  | none => rfl
  | some handle =>
    rw [handle]
    rfl

theorem ReadAlike.map {β : Type} {k' : Handle} {f : List UInt8 → β} {a a' : β}
    (h : ReadAlike known old new k k' f a a') (g : β → α) :
    ReadAlike known old new k k' (fun bytes => g (f bytes)) (g a) (g a') := by
  obtain ⟨e, e', bytes, bytes', held, held', alike, rfl, rfl⟩ := h
  exact ⟨e, e', bytes, bytes', held, held', alike, rfl, rfl⟩

/-- What holds of alike outcomes holds of their answers. -/
theorem answered {β : Type} {x x' : Outcome Store β} {f : β → Answer α}
    {P : Answer α × Store → Answer α × Store → Prop} {R : Store → Store → Prop}
    {Q : β → Store → β → Store → Prop} (h : Outcome.Alike R Q x x')
    (refused : ∀ refusal s s', R s s' → P (.refused refusal, s) (.refused refusal, s'))
    (answered : ∀ b s b' s', Q b s b' s' → P (f b, s) (f b', s')) :
    P (x.map (.ofExcept f) id) (x'.map (.ofExcept f) id) := by
  cases h with
  | refused refusal h => exact refused refusal _ _ h
  | answered h => exact answered _ _ _ _ h

end Store

namespace Session

variable {age : Nat → Nat → UInt32} {known : Set (Nat × Nat × Nat)} {old new : Session}
  {k : Handle} {c : Call α}

/-- One call to both stores, with handles that go together. -/
structure CalledAlike (age : Nat → Nat → UInt32) (known known' : Set (Nat × Nat × Nat))
    (old new : Session) (c : Call α) (x x' : Answer α × Store) : Prop where
  matched : Store.Matched age known' c.Writes x x'
  answers : AnswersAlike known old new c x.1 x'.1

theorem calledAlike_refused {known' : Set (Nat × Nat × Nat)} {s s' : Store}
    (alike : s.Mirrors age known' s') (refusal : StoreError) :
    CalledAlike age known known' old new c (.refused refusal, s) (.refused refusal, s') :=
  ⟨alike.matched rfl rfl _, .same rfl⟩

theorem calledAlike_counted {x x' : Outcome Store Nat}
    (h : Outcome.Alike (Store.Mirrors age known) (Store.CountedAlike age known) x x') :
    CalledAlike age known known old new c (x.map (.ofExcept .count) id)
      (x'.map (.ofExcept .count) id) := by
  refine Store.answered h (fun refusal s s' alike => calledAlike_refused alike refusal) ?_
  rintro n s n' s' ⟨rfl, alike⟩
  exact ⟨alike.matched rfl rfl _, .same rfl⟩

theorem calledAlike_issued {x x' : Outcome Store (Option Handle)} {content : Content}
    (written : c.Writes = content.Written)
    (h : Outcome.Alike (Store.Mirrors age known) (Store.IssuedAlike age known content) x x') :
    CalledAlike age known known old new c (x.map (.ofExcept .ofPlace) id)
      (x'.map (.ofExcept .ofPlace) id) := by
  refine Store.answered h (fun refusal s s' alike => calledAlike_refused alike refusal)
    fun o s o' s' issued => ⟨?_, .same issued.anonymous⟩
  rw [written]
  exact issued.matched

theorem calledAlike_done (h : old.store.Mirrors age known new.store) :
    CalledAlike age known known old new c (.done, old.store) (.done, new.store) :=
  ⟨h.matched rfl rfl _, .same rfl⟩

theorem calledAlike_read {β : Type} {known' : Set (Nat × Nat × Nat)} {x x' : Outcome Store β}
    {n : Nat} {access : Access α} {k k' : Handle} {f : List UInt8 → β} {g : β → Answer α}
    (noHandle : ∀ b, (g b).handles = []) (call : c.access? = some (n, access))
    (shows : access.shows? = some fun bytes => g (f bytes))
    (handle : old.handles[n]? = some k) (handle' : new.handles[n]? = some k')
    (h : Outcome.Alike (Store.Mirrors age known')
      (fun b s b' s' => Store.ReadAlike known old.store new.store k k' f b b' ∧
        s.Mirrors age known' s') x x') :
    CalledAlike age known known' old new c (x.map (.ofExcept g) id) (x'.map (.ofExcept g) id) := by
  refine Store.answered h (fun refusal s s' alike => calledAlike_refused alike refusal) ?_
  rintro b s b' s' ⟨read, alike⟩
  exact ⟨alike.matched (noHandle b) (noHandle b') _,
    .read call shows handle handle' (read.map g)⟩

theorem calledAlike_placed {x x' : Outcome Store Handle} {content : Content}
    (written : c.Writes = content.Written)
    (h : Outcome.Alike (Store.Mirrors age known)
      (fun k s k' s' => Store.IssuedAlike age known content (some k) s (some k') s') x x') :
    CalledAlike age known known old new c (x.map (.ofExcept .handle) id)
      (x'.map (.ofExcept .handle) id) := by
  refine Store.answered h (fun refusal s s' alike => calledAlike_refused alike refusal)
    fun k s k' s' issued => ⟨?_, .same issued.anonymous⟩
  rw [written]
  exact issued.matched

/-! ### Calls through handles -/

theorem calledAlike_through (h : old.store.Mirrors age known new.store) {n : Nat}
    (handle : old.handles[n]? = some k) (handle' : new.handles[n]? = some (k.renewed age))
    (inside : new.store.HasSlot k) (now : Int) (access : Access α) :
    CalledAlike age known (new.patched known (.through n access)) old new
      (.through n access) (old.store.perform now (access.op k))
      (new.store.perform now (access.op (k.renewed age))) := by
  cases access with
  | get =>
    exact calledAlike_read (fun _ => rfl) rfl rfl handle handle'
      (h.view inside now fun payload => payload)
  | view f => exact calledAlike_read (fun _ => rfl) rfl rfl handle handle' (h.view inside now f)
  | edit patch =>
    simp only [patched, handle']
    exact calledAlike_read (fun _ => rfl) rfl rfl handle handle' (h.edit inside patch)
  | update bytes => exact calledAlike_placed rfl (h.update inside now bytes)
  | release => exact calledAlike_counted (h.release inside)
  | info =>
    simp only [Access.op, Store.perform, h.info inside]
    cases old.store.info k with
    | error refusal => exact calledAlike_refused h refusal
    | ok x => exact ⟨h.matched rfl rfl _, .same rfl⟩

/-- What a region answers is answered by the store. -/
theorem onRegion_answering {β : Type} (s : Store) (i : Nat) (op : Region → Outcome Region β)
    (f : β → Answer α) :
    Prod.map (Answer.ofExcept id) id (s.onRegion i fun r => (op r).answering f) =
      Prod.map (Answer.ofExcept f) id (s.onRegion i op) := by
  cases found : s.regions[i]? with
  | none =>
    rw [Store.onRegion_of_getElem?_eq_none found, Store.onRegion_of_getElem?_eq_none found]
    rfl
  | some r =>
    rw [Store.onRegion_of_getElem? found, Store.onRegion_of_getElem? found]
    rcases op r with ⟨answer, r'⟩
    cases answer <;> rfl

/-- The region that a handle names takes a call through it as the store does. -/
theorem calledAlike_access (h : old.store.Mirrors age known new.store) {n : Nat}
    (handle : old.handles[n]? = some k) (handle' : new.handles[n]? = some (k.renewed age))
    (inside : new.store.HasSlot k) (now : Int) (access : Access α) :
    CalledAlike age known (new.patched known (.inRegion k.region (.through n access))) old new
      (.inRegion k.region (.through n access))
      ((old.store.onRegion k.region (·.access now k access)).map (.ofExcept id) id)
      ((new.store.onRegion k.region (·.access now (k.renewed age) access)).map
        (.ofExcept id) id) := by
  cases access with
  | get =>
    simp only [Region.access, onRegion_answering]
    exact calledAlike_read (fun _ => rfl) rfl rfl handle handle'
      (h.view inside now fun payload => payload)
  | view f =>
    simp only [Region.access, onRegion_answering]
    exact calledAlike_read (fun _ => rfl) rfl rfl handle handle' (h.view inside now f)
  | edit patch =>
    have own : (k.renewed age).region = k.region := rfl
    simp only [Region.access, onRegion_answering, patched, handle', if_pos own]
    exact calledAlike_read (fun _ => rfl) rfl rfl handle handle' (h.edit inside patch)
  | update bytes =>
    simp only [Region.access, onRegion_answering]
    exact calledAlike_placed rfl (h.update inside now bytes)
  | release =>
    simp only [Region.access, onRegion_answering]
    exact calledAlike_counted (h.onRegion_release inside)
  | info =>
    obtain ⟨r₀, found₀, inside⟩ := inside
    rcases h.region_cases k.region with ⟨-, none⟩ | ⟨r, r', found, found', alike⟩
    · rw [found₀] at none
      cases none
    · cases found'.symm.trans found₀
      rw [Store.onRegion_of_getElem? found, Store.onRegion_of_getElem? found']
      have hinfo : r₀.info (k.renewed age) = (r.info k).map (·.since (age k.region k.slot)) :=
        alike.info inside
      have mirrors := h.setRegion alike (fun _ _ => rfl) fun _ _ => subset_rfl
      simp only [Region.access, hinfo]
      cases r.info k with
      | error refusal => exact calledAlike_refused mirrors refusal
      | ok x => exact ⟨mirrors.matched rfl rfl _, .same rfl⟩

theorem calledAlike_inRegion_through (h : old.store.Mirrors age known new.store) {n : Nat}
    (handle : old.handles[n]? = some k) (handle' : new.handles[n]? = some (k.renewed age))
    (inside : new.store.HasSlot k) (now : Int) (i : Nat) (access : Access α) :
    CalledAlike age known (new.patched known (.inRegion i (.through n access))) old new
      (.inRegion i (.through n access))
      ((old.store.onRegion i (·.access now k access)).map (.ofExcept id) id)
      ((new.store.onRegion i (·.access now (k.renewed age) access)).map
        (.ofExcept id) id) := by
  by_cases here : k.region = i
  · subst here
    exact calledAlike_access h handle handle' inside now access
  · have elsewhere : (k.renewed age).region ≠ i := here
    have hpatched : new.patched known (.inRegion i (.through n access)) = known := by
      cases access <;> simp only [patched, handle', if_neg elsewhere]
    rw [hpatched]
    rcases h.region_cases i with ⟨found, found'⟩ | ⟨r, r', found, found', alike⟩
    · rw [Store.onRegion_of_getElem?_eq_none found, Store.onRegion_of_getElem?_eq_none found']
      exact calledAlike_refused h _
    · have own' : r'.id = i := alike.id.trans alike.own
      rw [Store.onRegion_of_getElem? found, Store.onRegion_of_getElem? found',
        Region.access_foreign (alike.own ▸ here), Region.access_foreign (own' ▸ elsewhere)]
      exact calledAlike_refused (h.setRegion alike (fun _ _ => rfl) fun _ _ => subset_rfl) _

/-! ### Calls to one region -/

theorem calledAlike_inRegion_counted (h : old.store.Mirrors age known new.store) {i : Nat}
    {called : Region.Call α} {op op' : Region → Outcome Region Nat}
    (counted : ∀ r r', r.Mirrors i (age i) (placesIn known i) r' →
      Outcome.Alike (Region.Mirrors i (age i) (placesIn known i))
        (Region.CountedAlike i (age i) (placesIn known i)) (op r) (op' r')) :
    CalledAlike age known known old new (.inRegion i called)
      (Prod.map (Answer.ofExcept id) id
        (old.store.onRegion i fun r => (op r).answering .count))
      (Prod.map (Answer.ofExcept id) id
        (new.store.onRegion i fun r => (op' r).answering .count)) := by
  rw [onRegion_answering, onRegion_answering]
  refine calledAlike_counted (h.onRegion (fun r r' _ _ alike => counted r r' alike)
    (fun _ _ => subset_rfl) fun r r' _ _ a r₁ a' r₁' answered => ?_)
  exact ⟨answered.1, h.setRegion answered.2 (fun _ _ => rfl) fun _ _ => subset_rfl⟩

theorem calledAlike_inRegion_done (h : old.store.Mirrors age known new.store) {i : Nat}
    {called : Region.Call α} {f : Region → Region}
    (each : ∀ r r', r.Mirrors i (age i) (placesIn known i) r' →
      (f r).Mirrors i (age i) (placesIn known i) (f r')) :
    CalledAlike age known known old new (.inRegion i called)
      (Prod.map (Answer.ofExcept id) id
        (old.store.onRegion i fun r => (.ok .done, f r)))
      (Prod.map (Answer.ofExcept id) id
        (new.store.onRegion i fun r => (.ok .done, f r))) := by
  rcases h.region_cases i with ⟨found, found'⟩ | ⟨r, r', found, found', alike⟩
  · rw [Store.onRegion_of_getElem?_eq_none found, Store.onRegion_of_getElem?_eq_none found']
    exact calledAlike_refused h _
  · rw [Store.onRegion_of_getElem? found, Store.onRegion_of_getElem? found']
    have mirrors := h.setRegion (each r r' alike) (fun _ _ => rfl) fun _ _ => subset_rfl
    exact ⟨mirrors.matched rfl rfl _, .same rfl⟩

/-- Handles of one number go together, if there are any. -/
theorem handle_cases (handles : new.handles = old.handles.map (·.renewed age)) (n : Nat) :
    (old.handles[n]? = none ∧ new.handles[n]? = none) ∨
      ∃ k ∈ old.handles, old.handles[n]? = some k ∧ new.handles[n]? = some (k.renewed age) := by
  rw [handles, List.getElem?_map]
  cases found : old.handles[n]? with
  | none => exact Or.inl ⟨rfl, rfl⟩
  | some k => exact Or.inr ⟨k, List.mem_of_getElem? found, rfl, rfl⟩

/-- Calls to one region. Clearing it leaves the slots be that both stores have. -/
theorem calledAlike_inRegion (h : old.store.Mirrors age known new.store)
    (inside : ∀ k ∈ old.handles, new.store.HasSlot k)
    (handles : new.handles = old.handles.map (·.renewed age)) (now : Int) (i : Nat)
    (called : Region.Call α) :
    ∃ age', (∀ k, new.store.HasSlot k → k.renewed age' = k.renewed age) ∧
      CalledAlike age' known (new.patched known (.inRegion i called)) old new (.inRegion i called)
        (old.store.call old.handles now (.inRegion i called))
        (new.store.call new.handles now (.inRegion i called)) := by
  cases called with
  | submit q =>
    refine ⟨age, fun _ _ => rfl, ?_⟩
    simp only [Store.call, Region.call]
    rw [onRegion_answering, onRegion_answering]
    exact calledAlike_placed rfl (h.onRegion (fun r r' _ _ alike => alike.submit now q)
      (fun _ _ => subset_rfl) fun r r' _ found' _ _ _ _ issued => h.lift_issued found' issued)
  | through n access =>
    refine ⟨age, fun _ _ => rfl, ?_⟩
    rcases handle_cases handles n with ⟨found, found'⟩ | ⟨k, member, found, found'⟩
    · have hpatched : new.patched known (.inRegion i (.through n access)) = known := by
        cases access <;> simp only [patched, found']
      simp only [Store.call, Region.call, found, found', hpatched]
      exact calledAlike_inRegion_done h fun r r' alike => alike
    · simp only [Store.call, Region.call, found, found']
      exact calledAlike_inRegion_through h found found' (inside k member) now i access
  | collectExpired batch =>
    exact ⟨age, fun _ _ => rfl, calledAlike_inRegion_counted h fun r r' alike =>
      alike.collectExpired batch now⟩
  | collectLeastUsed batch =>
    exact ⟨age, fun _ _ => rfl, calledAlike_inRegion_counted h fun r r' alike =>
      alike.collectLeastUsed batch now⟩
  | setThreshold threshold =>
    exact ⟨age, fun _ _ => rfl, calledAlike_inRegion_done h fun r r' alike =>
      alike.setThreshold threshold⟩
  | clear =>
    simp only [Store.call, Region.call]
    rcases h.region_cases i with ⟨found, found'⟩ | ⟨r, r', found, found', -⟩
    · rw [Store.onRegion_of_getElem?_eq_none found, Store.onRegion_of_getElem?_eq_none found']
      exact ⟨age, fun _ _ => rfl, calledAlike_refused h _⟩
    · rw [Store.onRegion_of_getElem? found, Store.onRegion_of_getElem? found']
      obtain ⟨age', mirrors, ages⟩ := h.clearRegion found found'
      exact ⟨age', ages, mirrors.matched rfl rfl _, .same rfl⟩

/-- Sessions whose stores differ in generations and in bytes at places that are not known, with
handles that go together. -/
def Mirrors (known : Set (Nat × Nat × Nat)) (old new : Session) : Prop :=
  ∃ age, old.store.Mirrors age known new.store ∧ (∀ k ∈ old.handles, new.store.HasSlot k) ∧
    new.handles = old.handles.map (·.renewed age)

theorem evolves_call (s : Store) (handles : List Handle) (now : Int) (c : Call α) :
    s.Evolves (s.call handles now c).2 := by
  cases c with
  | submit q => exact Store.evolves_submit s now q
  | through n access =>
    simp only [Store.call]
    split
    · exact .refl s
    · exact Store.evolves_perform s now _
  | updateOrMove n bytes =>
    simp only [Store.call]
    split
    · exact .refl s
    · exact Store.evolves_updateOrMove s now _ bytes
  | collectExpired => exact Store.evolves_collectExpired s now
  | collectLeastUsed => exact Store.evolves_collectLeastUsed s now
  | clear => exact Store.evolves_clear s
  | inRegion i c => exact Store.evolves_onRegion (fun r => r.run_call handles now c) s i

theorem calledAlike (h : old.store.Mirrors age known new.store)
    (inside : ∀ k ∈ old.handles, new.store.HasSlot k)
    (handles : new.handles = old.handles.map (·.renewed age)) (now : Int) (c : Call α) :
    ∃ age', (∀ k, new.store.HasSlot k → k.renewed age' = k.renewed age) ∧
      CalledAlike age' known (new.patched known c) old new c
        (old.store.call old.handles now c) (new.store.call new.handles now c) := by
  cases c with
  | submit q => exact ⟨age, fun _ _ => rfl, calledAlike_issued rfl (h.submit now q)⟩
  | through n access =>
    refine ⟨age, fun _ _ => rfl, ?_⟩
    rcases handle_cases handles n with ⟨found, found'⟩ | ⟨k, member, found, found'⟩
    · have hpatched : new.patched known (.through n access) = known := by
        cases access <;> simp only [patched, found']
      simp only [Store.call, found, found', hpatched]
      exact calledAlike_done h
    · simp only [Store.call, found, found']
      exact calledAlike_through h found found' (inside k member) now access
  | updateOrMove n bytes =>
    refine ⟨age, fun _ _ => rfl, ?_⟩
    rcases handle_cases handles n with ⟨found, found'⟩ | ⟨k, member, found, found'⟩
    · simp only [Store.call, found, found']
      exact calledAlike_done h
    · simp only [Store.call, found, found']
      exact calledAlike_issued rfl (h.updateOrMove (inside k member) now bytes)
  | collectExpired => exact ⟨age, fun _ _ => rfl, calledAlike_counted (h.collectExpired now)⟩
  | collectLeastUsed => exact ⟨age, fun _ _ => rfl, calledAlike_counted (h.collectLeastUsed now)⟩
  | clear =>
    obtain ⟨age', alike, ages⟩ := h.clear
    refine ⟨age', ages, ?_, .same rfl⟩
    exact alike.matched rfl rfl _
  | inRegion i called => exact calledAlike_inRegion h inside handles now i called

/-- Both sessions take a call alike. -/
theorem Mirrors.call (h : Mirrors known old new) (now : Int) (c : Call α) :
    AnswersAlike known old new c (old.call now c).1 (new.call now c).1 ∧
      Mirrors (new.settled known now c) (old.call now c).2 (new.call now c).2 := by
  obtain ⟨age, alike, inside, handles⟩ := h
  obtain ⟨age', ages, called⟩ := calledAlike alike inside handles now c
  have evolves := evolves_call new.store new.handles now c
  -- a call gives another age only to slots that the newer store lacks, and no handle names these
  have hrenewed : new.handles = old.handles.map (·.renewed age') := by
    rw [handles]
    exact List.map_congr_left fun k member => (ages k (inside k member)).symm
  refine ⟨called.answers, age', called.matched.stores, fun k member => ?_, ?_⟩
  · rcases List.mem_append.1 member with member | member
    · exact (inside k member).evolves evolves
    · exact called.matched.inside k member
  · change new.handles ++ _ = (old.handles ++ _).map _
    rw [List.map_append, ← hrenewed]
    exact congrArg (new.handles ++ ·) called.matched.handles

/-! ### Runs -/

end Session

end RegionStore
