import RegionStore.Proofs.StoreOperations
import RegionStore.Store.Build

/-!
Runs of a store: any operations in any order with any arguments, each with the answer it gets. A
store as it is built is sound and holds nothing.
-/
namespace RegionStore

variable {α β : Type}

/-- What can be asked of a store. What is shown to the caller becomes a value of type `α`. -/
inductive Store.Op (α : Type) where
  | put (bytes : List UInt8) (expiry : Expiry) (tag : UInt32)
  | reserve (size : Nat) (expiry : Expiry) (tag : UInt32)
  | get (k : Handle)
  | view (k : Handle) (f : List UInt8 → α)
  | edit (k : Handle) (patch : Patch α)
  | update (k : Handle) (bytes : List UInt8)
  | updateOrMove (k : Handle) (bytes : List UInt8)
  | release (k : Handle)
  | info (k : Handle)
  | collectExpired
  | collectLeastUsed
  | clear

inductive Answer (α : Type) where
  | refused (refusal : StoreError)
  | noRoom
  | handle (k : Handle)
  | bytes (bytes : List UInt8)
  | shown (value : α)
  | count (n : Nat)
  | snapshot (x : Snapshot)
  | done
  deriving DecidableEq

namespace Answer

def ofExcept (f : β → Answer α) : Except StoreError β → Answer α
  | .ok value => f value
  | .error refusal => .refused refusal

def ofPlace : Option Handle → Answer α
  | some k => handle k
  | none => noRoom

end Answer

namespace Store

def perform (s : Store) (now : Int) : Op α → Answer α × Store
  | .put bytes expiry tag => (s.put now bytes expiry tag).map (.ofExcept .ofPlace) id
  | .reserve size expiry tag => (s.reserve now size expiry tag).map (.ofExcept .ofPlace) id
  | .get k => (s.get now k).map (.ofExcept .bytes) id
  | .view k f => (s.view now k f).map (.ofExcept .shown) id
  | .edit k patch => (s.edit k patch.run).map (.ofExcept .shown) id
  | .update k bytes => (s.update now k bytes).map (.ofExcept .handle) id
  | .updateOrMove k bytes => (s.updateOrMove now k bytes).map (.ofExcept .ofPlace) id
  | .release k => (s.release k).map (.ofExcept .count) id
  | .info k => (.ofExcept .snapshot (s.info k), s)
  | .collectExpired => (s.collectExpired now).map (.ofExcept .count) id
  | .collectLeastUsed => (s.collectLeastUsed now).map (.ofExcept .count) id
  | .clear => (.done, s.clear)

/-- The operations of a run, each with its answer. -/
def trace (s : Store) : List (Int × Op α) → List (Op α × Answer α)
  | [] => []
  | (now, op) :: rest => (op, (s.perform now op).1) :: (s.perform now op).2.trace rest

def after (s : Store) : List (Int × Op α) → Store
  | [] => s
  | (now, op) :: rest => (s.perform now op).2.after rest

end Store

/-- An operation on a region with its answer. What is shown of a payload is a string of bytes. -/
def Region.perform (r : Region) (now : Int) : Region.Op → Answer α × Region
  | .submit q => (r.submit now q).map (.ofExcept .handle) fun r => r
  | .view k f => (r.view now k f).map (.ofExcept .bytes) fun r => r
  | .edit k patch => (r.edit k patch.run).map (.ofExcept fun _ => .done) fun r => r
  | .update k bytes => (r.update now k bytes).map (.ofExcept .handle) fun r => r
  | .release k => (r.release k).map (.ofExcept .count) fun r => r
  | .collectExpired batch => (r.collectExpired batch now).map (.ofExcept .count) fun r => r
  | .collectLeastUsed batch => (r.collectLeastUsed batch now).map (.ofExcept .count) fun r => r
  | .setThreshold threshold => (.done, r.setThreshold threshold)
  | .clear => (.done, r.clear)

theorem Region.perform_snd (r : Region) (now : Int) (op : Region.Op) :
    (r.perform now op : Answer α × Region).2 = r.step now op := by
  cases op <;> rfl

namespace Store

/-- One command of a run: an operation on the store, or past it on one of its regions. -/
inductive Command (α : Type) where
  | ask (op : Op α)
  | inRegion (i : Nat) (op : Region.Op)

def take (s : Store) (now : Int) : Command α → Answer α × Store
  | .ask op => s.perform now op
  | .inRegion i op =>
    match s.regions[i]? with
    | none => (.refused (.unknownRegion i), s)
    | some r =>
      let (answer, r) := r.perform now op
      (answer, s.setRegion i r)

/-- The answers of a run, and the store after it. -/
def run (s : Store) : List (Int × Command α) → List (Answer α) × Store
  | [] => ([], s)
  | (now, step) :: rest =>
    let (answer, s) := s.take now step
    let (answers, s) := s.run rest
    (answer :: answers, s)

/-! ### Stores as they are built -/

variable {s : Store}

theorem new_makeRegion {m : MemorySettings} {id : Nat} {r : Region}
    (made : m.makeRegion id = .ok r) : r.New := by
  unfold MemorySettings.makeRegion at made
  split at made
  · exact .firstFit made
  · exact .largestFit made
  · exact .slab made

theorem sound_makeRegion {m : MemorySettings} {id : Nat} {r : Region}
    (made : m.makeRegion id = .ok r) :
    r.Sound ∧ r.id = id ∧ ∀ x, r.table.issued? x = none := by
  unfold MemorySettings.makeRegion at made
  split at made
  · obtain ⟨sound, -, own, -, idle⟩ := Region.sound_firstFit made
    exact ⟨sound, own, idle⟩
  · obtain ⟨sound, -, own, -, idle⟩ := Region.sound_largestFit made
    exact ⟨sound, own, idle⟩
  · obtain ⟨sound, -, own, idle⟩ := Region.sound_slab made
    exact ⟨sound, own, idle⟩

/-- Each region is made by itself, and its threshold is set after that. -/
theorem makeRegions_eq_ok {m : MemorySettings} {threshold : UInt64} {count first : Nat}
    {regions : List Region} (made : m.makeRegions threshold count first = .ok regions)
    {i : Nat} {r : Region} (found : regions[i]? = some r) :
    ∃ r₀, m.makeRegion (first + i) = .ok r₀ ∧ r = r₀.setThreshold threshold := by
  induction count generalizing first regions i with
  | zero =>
    cases made
    cases found
  | succ count ih =>
    unfold MemorySettings.makeRegions at made
    split at made
    · cases made
    · next r₀ hfirst =>
      split at made
      · cases made
      · next others hothers =>
        cases made
        cases i with
        | zero =>
          cases found
          exact ⟨r₀, hfirst, rfl⟩
        | succ i =>
          obtain ⟨r₁, hmade, hr⟩ := ih hothers found
          exact ⟨r₁, by rw [← hmade]; congr 1; omega, hr⟩

theorem buildWith_eq_ok {routing : Routing} {settings : Settings}
    (built : buildWith routing settings = .ok s) : s.routing = routing ∧
      ∀ (i : Nat) (r : Region), s.regions[i]? = some r → ∃ r₀,
        settings.memory.makeRegion i = .ok r₀ ∧
          r = r₀.setThreshold (.ofNat settings.eviction.shortageThreshold) := by
  unfold buildWith at built
  split at built
  · cases built
  · split at built
    · cases built
    · split at built
      · cases built
      · split at built
        · cases built
        · next hregions =>
          cases built
          refine ⟨rfl, fun i r found => ?_⟩
          obtain ⟨r₀, hmade, hr⟩ := makeRegions_eq_ok hregions found
          rw [Nat.zero_add] at hmade
          exact ⟨r₀, hmade, hr⟩

theorem sound_buildWith {routing : Routing} {settings : Settings}
    (built : buildWith routing settings = .ok s) : s.Sound ∧ ∀ k, s.held k = none := by
  obtain ⟨-, hmade⟩ := buildWith_eq_ok built
  have hregion : ∀ (i : Nat) (r : Region), s.regions[i]? = some r →
      (r.Sound ∧ r.id = i) ∧ ∀ x, r.table.issued? x = none := by
    intro i r found
    obtain ⟨r₀, hmade, rfl⟩ := hmade i r found
    obtain ⟨sound, own, idle⟩ := sound_makeRegion hmade
    have keeps := sound.retally
      { r₀.usage with threshold := .ofNat settings.eviction.shortageThreshold } rfl
    exact ⟨⟨keeps.sound, keeps.id.trans own⟩, idle⟩
  refine ⟨fun i r found => (hregion i r found).1, fun k => ?_⟩
  cases found : s.regions[k.region]? with
  | none => exact held_of_getElem?_eq_none found
  | some r =>
    rw [held_of_getElem? found]
    exact Region.held_eq_none_of_not_issued ((hregion _ r found).2 k.slot)

end Store

end RegionStore
