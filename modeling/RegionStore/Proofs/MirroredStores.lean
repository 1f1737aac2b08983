import RegionStore.Proofs.Mirrors
import RegionStore.Proofs.Steady

/-!
A store beside a newer one that is to behave like it. Each region mirrors the one of its number,
and the routing is the same, so that every operation takes the two the same way.
-/
namespace RegionStore

variable {α : Type}

/-- The handle with its generation counted from the age of its slot on. -/
def Handle.renewed (age : Nat → Nat → UInt32) (k : Handle) : Handle :=
  k.since (age k.region k.slot)

/-- The places of one region. -/
def placesIn (known : Set (Nat × Nat × Nat)) (i : Nat) : Set (Nat × Nat) := {p | (i, p) ∈ known}

namespace Store

/-- The places of the payload that a handle names, each with the number of its region. -/
def footprint (s : Store) (k : Handle) : Set (Nat × Nat × Nat) :=
  {p | p.1 = k.region ∧ ∃ e bytes, s.held k = some (e, bytes) ∧ e.Covers e.lease.len p.2}

/-- The slot of the handle has been made. -/
def HasSlot (s : Store) (k : Handle) : Prop :=
  ∃ r, s.regions[k.region]? = some r ∧ k.slot < r.table.slotCount

structure Mirrors (age : Nat → Nat → UInt32) (known : Set (Nat × Nat × Nat)) (old new : Store) :
    Prop where
  regions : ∀ i, Option.Rel (Region.Mirrors i (age i) (placesIn known i))
    old.regions[i]? new.regions[i]?
  routing : new.routing = old.routing
  onExhaustion : new.onExhaustion = old.onExhaustion
  expireBatch : new.expireBatch = old.expireBatch
  leastUsedBatch : new.leastUsedBatch = old.leastUsedBatch

/-- The same place has been issued in both stores, or neither has room. -/
inductive IssuedAlike (age : Nat → Nat → UInt32) (known : Set (Nat × Nat × Nat)) (c : Content) :
    Option Handle → Store → Option Handle → Store → Prop
  | none {old new : Store} (alike : Mirrors age known old new) :
    IssuedAlike age known c none old none new
  | some {k k' : Handle} {old new : Store} (handle : k' = k.renewed age)
    (inside : new.HasSlot k)
    (alike : Mirrors age (known ∪ {p | c.Written ∧ p ∈ new.footprint k'}) old new) :
    IssuedAlike age known c (some k) old (some k') new

/-- The answers show payloads that are the same at known places. -/
def ReadAlike (known : Set (Nat × Nat × Nat)) (old new : Store) (k k' : Handle)
    (f : List UInt8 → α) (a a' : α) : Prop :=
  ∃ e e' bytes bytes', old.held k = some (e, bytes) ∧ new.held k' = some (e', bytes') ∧
    e'.Agree (placesIn known k.region) bytes bytes' ∧ a = f bytes ∧ a' = f bytes'

/-- The places that are known after a patch, if these were before. -/
def patched (s : Store) (known : Set (Nat × Nat × Nat)) (k : Handle) (patch : Patch α) :
    Set (Nat × Nat × Nat) :=
  {p | (p.1 = k.region →
      ∃ r, s.regions[k.region]? = some r ∧ p.2 ∈ r.patched (placesIn known k.region) k patch) ∧
    (p.1 ≠ k.region → p ∈ known)}

/-- The same number, say of bytes, is answered. -/
def CountedAlike (age : Nat → Nat → UInt32) (known : Set (Nat × Nat × Nat)) (n : Nat)
    (old : Store) (n' : Nat) (new : Store) : Prop :=
  n' = n ∧ Mirrors age known old new

theorem placesIn_patched {s : Store} {known : Set (Nat × Nat × Nat)} {k : Handle} {r : Region}
    (found : s.regions[k.region]? = some r) (patch : Patch α) :
    placesIn (s.patched known k patch) k.region =
      r.patched (placesIn known k.region) k patch := by
  ext p
  constructor
  · rintro ⟨here, -⟩
    obtain ⟨r₁, found₁, member⟩ := here rfl
    cases found.symm.trans found₁
    exact member
  · exact fun member => ⟨fun _ => ⟨r, found, member⟩, fun other => absurd rfl other⟩

theorem placesIn_patched_of_ne {s : Store} {known : Set (Nat × Nat × Nat)} {k : Handle} {i : Nat}
    (other : i ≠ k.region) (patch : Patch α) :
    placesIn (s.patched known k patch) i ⊆ placesIn known i := fun _ member => member.2 other

theorem HasSlot.evolves {s s' : Store} {k : Handle} (h : s.HasSlot k) (evolves : Evolves s s') :
    s'.HasSlot k := by
  obtain ⟨r, found, inside⟩ := h
  obtain ⟨ops, found'⟩ := evolves.regions k.region r found
  exact ⟨_, found', Nat.lt_of_lt_of_le inside (Region.extends_run ops)⟩

namespace Mirrors

variable {age age' : Nat → Nat → UInt32} {known known' : Set (Nat × Nat × Nat)} {old new : Store}
  {i : Nat} {r r' : Region} {k : Handle}

theorem region_cases (h : Mirrors age known old new) (i : Nat) :
    (old.regions[i]? = none ∧ new.regions[i]? = none) ∨
      ∃ r r', old.regions[i]? = some r ∧ new.regions[i]? = some r' ∧
        r.Mirrors i (age i) (placesIn known i) r' := by
  have hregion := h.regions i
  cases found : old.regions[i]? with
  | none =>
    rw [found] at hregion
    cases found' : new.regions[i]? with
    | none => exact Or.inl ⟨rfl, rfl⟩
    | some r' =>
      rw [found'] at hregion
      cases hregion
  | some r =>
    rw [found] at hregion
    cases found' : new.regions[i]? with
    | none =>
      rw [found'] at hregion
      cases hregion
    | some r' =>
      rw [found'] at hregion
      cases hregion with
      | some alike => exact Or.inr ⟨r, r', rfl, rfl, alike⟩

/-- What is the same for regions is so for all of them in order. -/
theorem map_eq {β : Type} (h : Mirrors age known old new) {f : Region → β}
    (each : ∀ i r r', r.Mirrors i (age i) (placesIn known i) r' → f r' = f r) :
    new.regions.map f = old.regions.map f := by
  apply List.ext_getElem?
  intro i
  rw [List.getElem?_map, List.getElem?_map]
  rcases h.region_cases i with ⟨found, found'⟩ | ⟨r, r', found, found', alike⟩
  · rw [found, found']
  · rw [found, found', Option.map_some, Option.map_some, each i r r' alike]

theorem length (h : Mirrors age known old new) : new.regions.length = old.regions.length := by
  have hmap := congrArg List.length (h.map_eq (f := fun _ => ()) fun _ _ _ _ => rfl)
  rwa [List.length_map, List.length_map] at hmap

theorem maxRequest (h : Mirrors age known old new) : new.maxRequest = old.maxRequest := by
  have hmap := h.map_eq fun _ _ _ alike => alike.maxRequest
  have hfold (s : Store) : s.maxRequest = (s.regions.map (·.maxRequest)).foldr max 0 :=
    List.foldr_map.symm
  rw [hfold, hfold, hmap]

theorem narrow (h : Mirrors age known old new)
    (less : ∀ i r, old.regions[i]? = some r → placesIn known' i ⊆ placesIn known i) :
    Mirrors age known' old new := by
  refine { h with regions := fun i => ?_ }
  rcases h.region_cases i with ⟨found, found'⟩ | ⟨r, r', found, found', alike⟩
  · rw [found, found']
    exact .none
  · rw [found, found']
    exact .some (alike.mono (less i r found))

theorem mono (h : Mirrors age known old new) (less : known' ⊆ known) :
    Mirrors age known' old new := h.narrow fun _ _ _ _ member => less member

theorem retally (h : Mirrors age known old new) (tally tally' : Tally) :
    Mirrors age known { old with tally } { new with tally := tally' } :=
  ⟨h.regions, h.routing, h.onExhaustion, h.expireBatch, h.leastUsedBatch⟩

theorem reroute (h : Mirrors age known old new) (routing : Routing) :
    Mirrors age known { old with routing } { new with routing } :=
  ⟨h.regions, rfl, h.onExhaustion, h.expireBatch, h.leastUsedBatch⟩

theorem setRegion (h : Mirrors age known old new)
    (alike : r.Mirrors i (age' i) (placesIn known' i) r')
    (ages : ∀ j, j ≠ i → age' j = age j)
    (others : ∀ j, j ≠ i → placesIn known' j ⊆ placesIn known j) :
    Mirrors age' known' (old.setRegion i r) (new.setRegion i r') := by
  refine ⟨fun j => ?_, h.routing, h.onExhaustion, h.expireBatch, h.leastUsedBatch⟩
  by_cases here : j = i
  · subst here
    rw [Store.setRegion, Store.setRegion, List.getElem?_set, List.getElem?_set, if_pos rfl,
      if_pos rfl, h.length]
    split
    · exact .some alike
    · exact .none
  · rw [regions_setRegion_of_ne (Ne.symm here), regions_setRegion_of_ne (Ne.symm here), ages j here]
    rcases h.region_cases j with ⟨found, found'⟩ | ⟨r, r', found, found', alike⟩
    · rw [found, found']
      exact .none
    · rw [found, found']
      exact .some (alike.mono (others j here))

/-! ### Operations on one region -/

/-- What both regions answer alike, both stores do. -/
theorem onRegion (h : Mirrors age known old new) {op op' : Region → Outcome Region α}
    {P : Region → Region → α → Region → α → Region → Prop} {Q : α → Store → α → Store → Prop}
    (each : ∀ r r', old.regions[i]? = some r → new.regions[i]? = some r' →
      r.Mirrors i (age i) (placesIn known i) r' →
      Outcome.Alike (Region.Mirrors i (age i) (placesIn known' i)) (P r r') (op r) (op' r'))
    (others : ∀ j, j ≠ i → placesIn known' j ⊆ placesIn known j)
    (lift : ∀ r r', old.regions[i]? = some r → new.regions[i]? = some r' → ∀ a r₁ a' r₁',
      P r r' a r₁ a' r₁' → Q a (old.setRegion i r₁) a' (new.setRegion i r₁')) :
    Outcome.Alike (Mirrors age known') Q (old.onRegion i op) (new.onRegion i op') := by
  rcases h.region_cases i with ⟨found, found'⟩ | ⟨r, r', found, found', alike⟩
  · rw [onRegion_of_getElem?_eq_none found, onRegion_of_getElem?_eq_none found']
    refine .refused _ (h.narrow fun j r found₁ => others j ?_)
    rintro rfl
    rw [found] at found₁
    cases found₁
  · have outcome := each r r' found found' alike
    rw [onRegion_of_getElem? found, onRegion_of_getElem? found']
    generalize op r = x at outcome ⊢
    generalize op' r' = x' at outcome ⊢
    cases outcome with
    | refused refusal alike => exact .refused refusal (h.setRegion alike (fun _ _ => rfl) others)
    | answered answer => exact .answered (lift r r' found found' _ _ _ _ answer)

/-- A handle that is answered by a region is answered by the store. -/
theorem lift_issued (h : Mirrors age known old new) {c : Content} {a a' : Handle}
    (found' : new.regions[i]? = some r₀)
    (issued : Region.IssuedAlike i (age i) (placesIn known i) c a r a' r') :
    IssuedAlike age known c (some a) (old.setRegion i r) (some a') (new.setRegion i r') := by
  have own' : a'.region = i := by
    rw [issued.handle]
    exact issued.own
  have hset : (new.setRegion i r').regions[i]? = some r' :=
    List.getElem?_set_self (List.getElem?_eq_some_iff.1 found').1
  have hfootprint : ∀ j p, (j, p) ∈ (new.setRegion i r').footprint a' →
      j = i ∧ p ∈ r'.footprint a' := by
    rintro j p ⟨hj, e, bytes, held, covers⟩
    have hheld : (new.setRegion i r').held a' = r'.held a' := by
      apply held_of_getElem?
      rw [own']
      exact hset
    rw [hheld, Region.held_eq_some_iff] at held
    exact ⟨hj.trans own', e, held.1, covers⟩
  have handle : a' = a.renewed age := by
    rw [Handle.renewed, issued.own]
    exact issued.handle
  refine .some handle ⟨r', ?_, issued.inside⟩
    (h.setRegion (issued.mirrors.mono ?_) (fun _ _ => rfl) ?_)
  · rw [issued.own]
    exact hset
  · exact fun p member => member.imp_right fun ⟨written, inside⟩ =>
      ⟨written, (hfootprint i p inside).2⟩
  · intro j other p member
    exact member.resolve_right fun ⟨_, inside⟩ => other (hfootprint j p inside).1

theorem sound' (h : Mirrors age known old new) : new.Sound := by
  intro i r' found'
  rcases h.region_cases i with ⟨-, none⟩ | ⟨r, r₁, -, found₁, alike⟩
  · rw [found'] at none
    cases none
  · cases found'.symm.trans found₁
    exact ⟨alike.sound', alike.id.trans alike.own⟩

theorem info (h : Mirrors age known old new) (inside : new.HasSlot k) :
    new.info (k.renewed age) = (old.info k).map (·.since (age k.region k.slot)) := by
  obtain ⟨r₀, found₀, inside⟩ := inside
  rcases h.region_cases k.region with ⟨-, none⟩ | ⟨r, r', found, found', alike⟩
  · rw [found₀] at none
    cases none
  · cases found'.symm.trans found₀
    have hregion : new.region (k.renewed age).region = .ok r₀ := region_eq_ok_iff.2 found₀
    simp only [Store.info, hregion, region_eq_ok_iff.2 found]
    exact alike.info inside

theorem view (h : Mirrors age known old new) (inside : new.HasSlot k) (now : Int)
    (f : List UInt8 → α) :
    Outcome.Alike (Mirrors age known)
      (fun a old' a' new' => ReadAlike known old new k (k.renewed age) f a a' ∧
        Mirrors age known old' new')
      (old.view now k f) (new.view now (k.renewed age) f) := by
  obtain ⟨r₀, found₀, inside⟩ := inside
  refine h.onRegion (fun r r' found found' alike => alike.view ?_ now f) (fun _ _ => subset_rfl)
    fun r r' found found' a r₁ a' r₁' => ?_
  · cases found'.symm.trans found₀
    exact inside
  · rintro ⟨⟨e, e', bytes, bytes', held, held', alike⟩, mirrors⟩
    refine ⟨⟨e, e', bytes, bytes', ?_, ?_, alike⟩, h.setRegion mirrors (fun _ _ => rfl)
      fun _ _ => subset_rfl⟩
    · rw [held_of_getElem? found, held]
    · rw [← held']
      exact held_of_getElem? found'

theorem edit (h : Mirrors age known old new) (inside : new.HasSlot k) (patch : Patch α) :
    Outcome.Alike (Mirrors age (new.patched known (k.renewed age) patch))
      (fun a old' a' new' =>
        ReadAlike known old new k (k.renewed age) (fun bytes => (patch.run bytes).2)
          a a' ∧ Mirrors age (new.patched known (k.renewed age) patch) old' new')
      (old.edit k patch.run) (new.edit (k.renewed age) patch.run) := by
  obtain ⟨r₀, found₀, inside⟩ := inside
  have others : ∀ j, j ≠ k.region →
      placesIn (new.patched known (k.renewed age) patch) j ⊆ placesIn known j :=
    fun j other => placesIn_patched_of_ne (k := k.renewed age) other patch
  have here : placesIn (new.patched known (k.renewed age) patch) k.region = _ :=
    placesIn_patched (k := k.renewed age) found₀ patch
  have each : ∀ r r', old.regions[k.region]? = some r → new.regions[k.region]? = some r' →
      r.Mirrors k.region (age k.region) (placesIn known k.region) r' → Outcome.Alike
        (Region.Mirrors k.region (age k.region)
          (placesIn (new.patched known (k.renewed age) patch) k.region))
        (fun a r₁ a' r₁' => Region.ReadAlike (placesIn known k.region) r r' k
            (k.renewed age) (fun bytes => (patch.run bytes).2) a a' ∧
          r₁.Mirrors k.region (age k.region)
            (placesIn (new.patched known (k.renewed age) patch) k.region) r₁')
        (r.edit k patch.run) (r'.edit (k.renewed age) patch.run) := by
    intro r r' found found' alike
    cases found'.symm.trans found₀
    rw [here]
    exact alike.edit inside patch
  refine h.onRegion each others fun r r' found found' a r₁ a' r₁' answer => ?_
  obtain ⟨⟨e, e', bytes, bytes', held, held', alike⟩, mirrors⟩ := answer
  refine ⟨⟨e, e', bytes, bytes', ?_, ?_, alike⟩, h.setRegion mirrors (fun _ _ => rfl) others⟩
  · rw [held_of_getElem? found, held]
  · rw [← held']
    exact held_of_getElem? found'

theorem update (h : Mirrors age known old new) (inside : new.HasSlot k) (now : Int)
    (bytes : List UInt8) :
    Outcome.Alike (Mirrors age known)
      (fun k old k' new => IssuedAlike age known (.payload bytes) (some k) old (some k') new)
      (old.update now k bytes) (new.update now (k.renewed age) bytes) := by
  obtain ⟨r₀, found₀, inside⟩ := inside
  refine h.onRegion (fun r r' found found' alike => alike.update ?_ now bytes)
    (fun _ _ => subset_rfl) fun r r' found found' _ _ _ _ issued => h.lift_issued found' issued
  cases found'.symm.trans found₀
  exact inside

theorem onRegion_release (h : Mirrors age known old new) (inside : new.HasSlot k) :
    Outcome.Alike (Mirrors age known) (CountedAlike age known)
      (old.onRegion k.region (·.release k))
      (new.onRegion k.region (·.release (k.renewed age))) := by
  obtain ⟨r₀, found₀, inside⟩ := inside
  refine h.onRegion (fun r r' found found' alike => alike.release ?_) (fun _ _ => subset_rfl)
    fun r r' found found' _ _ _ _ counted =>
      ⟨counted.1, h.setRegion counted.2 (fun _ _ => rfl) fun _ _ => subset_rfl⟩
  cases found'.symm.trans found₀
  exact inside

theorem release (h : Mirrors age known old new) (inside : new.HasSlot k) :
    Outcome.Alike (Mirrors age known) (CountedAlike age known)
      (old.release k) (new.release (k.renewed age)) := by
  have own : (k.renewed age).region = k.region := rfl
  have released := h.onRegion_release inside
  unfold Store.release
  rw [own]
  generalize old.onRegion _ _ = outcome at released ⊢
  generalize new.onRegion _ _ = outcome' at released ⊢
  cases released with
  | refused refusal alike => exact .refused refusal alike
  | answered counted =>
    obtain ⟨rfl, alike⟩ := counted
    dsimp only
    split
    · exact .answered ⟨rfl, alike.retally _ _⟩
    · exact .answered ⟨rfl, alike⟩

/-! ### Placing requests -/

theorem exhausted (h : Mirrors age known old new) (q : Request) :
    Outcome.Alike (Mirrors age known) (IssuedAlike age known q.content)
      (old.exhausted q) (new.exhausted q) := by
  have alike : Mirrors age known (old.exhausted q).2 (new.exhausted q).2 := h.retally _ _
  have answers : (new.exhausted q).1 = (old.exhausted q).1 := by
    simp only [Store.exhausted, h.onExhaustion]
  have noHandle : ∀ k, (old.exhausted q).1 ≠ .ok (some k) := by
    intro k
    unfold Store.exhausted
    split <;> nofun
  generalize old.exhausted q = outcome at alike answers noHandle ⊢
  generalize new.exhausted q = outcome' at alike answers ⊢
  obtain ⟨answer, s⟩ := outcome
  obtain ⟨_, s'⟩ := outcome'
  cases answers
  cases answer with
  | error refusal => exact .refused refusal alike
  | ok issued =>
    cases issued with
    | none => exact .answered (.none alike)
    | some k => exact absurd rfl (noHandle k)

theorem tryRegions (h : Mirrors age known old new) (now : Int) (q : Request)
    (budget attempt : Nat) (previous : Option Nat) :
    Outcome.Alike (Mirrors age known) (IssuedAlike age known q.content)
      (tryRegions now q budget attempt previous old)
      (tryRegions now q budget attempt previous new) := by
  induction budget generalizing old new attempt previous with
  | zero => exact h.exhausted q
  | succ budget ih =>
    rw [Store.tryRegions, Store.tryRegions, h.routing, h.length]
    rcases old.routing.next previous attempt old.regions.length with ⟨target, routing⟩
    have routed := h.reroute routing
    cases target with
    | none => exact routed.exhausted q
    | some i =>
      rcases h.region_cases i with ⟨found, found'⟩ | ⟨r, r', found, found', alike⟩
      · simp only [found, found']
        exact .refused _ routed
      · have submitted := alike.submit now q
        simp only [found, found']
        generalize r.submit now q = outcome at submitted ⊢
        generalize r'.submit now q = outcome' at submitted ⊢
        cases submitted with
        | refused refusal alike =>
          have passed := routed.setRegion alike (fun _ _ => rfl) fun _ _ => subset_rfl
          dsimp only
          split
          · exact ih passed (attempt + 1) (some i)
          · exact .refused refusal passed
        | answered issued =>
          cases routed.lift_issued found' issued with
          | some handle inside alike =>
            exact .answered (.some handle inside (alike.retally _ _))

theorem submit (h : Mirrors age known old new) (now : Int) (q : Request) :
    Outcome.Alike (Mirrors age known) (IssuedAlike age known q.content)
      (old.submit now q) (new.submit now q) := by
  unfold Store.submit
  rw [h.maxRequest, h.routing, h.length]
  cases q.refusal? old.maxRequest with
  | some refusal => exact .refused refusal h
  | none => exact h.tryRegions now q _ 1 none

/-- Nothing shows in a payload that did not before. -/
theorem footprint_release (h : Mirrors age known old new) (k j : Handle) :
    (new.release k).2.footprint j ⊆ new.footprint j := by
  rcases h.sound'.release k with ⟨e, bytes, s', -, released, -, held⟩ | ⟨-, released⟩
  · rw [released]
    rintro p ⟨hregion, e, bytes, held', covers⟩
    rw [held, Function.update_apply] at held'
    split at held'
    · cases held'
    · exact ⟨hregion, e, bytes, held', covers⟩
  · rw [released]

theorem move (h : Mirrors age known old new) (inside : new.HasSlot k) (now : Int)
    (bytes : List UInt8) :
    Outcome.Alike (Mirrors age known) (IssuedAlike age known (.payload bytes))
      (old.move now k bytes) (new.move now (k.renewed age) bytes) := by
  unfold Store.move
  rw [h.info inside]
  cases old.info k with
  | error refusal => exact .refused refusal h
  | ok x =>
    have hlease : (x.since (age k.region k.slot)).lease = x.lease := rfl
    have placed := h.submit now ⟨.payload bytes, remainingExpiry x.lease now, x.lease.tag⟩
    have evolves :=
      evolves_submit new now ⟨.payload bytes, remainingExpiry x.lease now, x.lease.tag⟩
    simp only [Except.map, hlease, Store.put]
    generalize old.submit now _ = outcome at placed ⊢
    generalize new.submit now _ = outcome' at placed evolves ⊢
    cases placed with
    | refused refusal alike => exact .refused refusal alike
    | @answered _ _ old₁ new₁ issued =>
      cases issued with
      | none alike => exact .answered (.none alike)
      | @some moved moved' _ _ handle found alike =>
        have released := alike.release (inside.evolves evolves)
        have less := alike.footprint_release (k.renewed age) moved'
        have evolves' := evolves_release new₁ (k.renewed age)
        dsimp only
        generalize old₁.release k = outcome at released ⊢
        generalize new₁.release (k.renewed age) = outcome' at released less evolves' ⊢
        cases released with
        | refused refusal alike => exact .refused refusal (alike.mono Set.subset_union_left)
        | answered counted =>
          refine .answered (.some handle (found.evolves evolves') (counted.2.mono ?_))
          exact Set.union_subset_union_right known fun p member => ⟨member.1, less member.2⟩

theorem updateOrMove (h : Mirrors age known old new) (inside : new.HasSlot k) (now : Int)
    (bytes : List UInt8) :
    Outcome.Alike (Mirrors age known) (IssuedAlike age known (.payload bytes))
      (old.updateOrMove now k bytes) (new.updateOrMove now (k.renewed age) bytes) := by
  have updated := h.update inside now bytes
  have evolves := evolves_update new now (k.renewed age) bytes
  unfold Store.updateOrMove
  generalize old.update now k bytes = outcome at updated ⊢
  generalize new.update now (k.renewed age) bytes = outcome' at updated evolves ⊢
  cases updated with
  | answered issued => exact .answered issued
  | refused refusal alike =>
    cases refusal with
    | capacityExceeded requested capacity => exact alike.move (inside.evolves evolves) now bytes
    | _ => exact .refused _ alike

/-! ### Sweeps and clearing -/

theorem sweepRegions_alike {P : Nat → Region → Region → Prop}
    {sweep : Region → Outcome Region Nat}
    (each : ∀ i r r', P i r r' →
      Outcome.Alike (P i) (fun n r n' r' => n' = n ∧ P i r r') (sweep r) (sweep r'))
    {rs rs' : List Region} (h : ∀ i, Option.Rel (P i) rs[i]? rs'[i]?) :
    (sweepRegions sweep rs').1 = (sweepRegions sweep rs).1 ∧
      ∀ i, Option.Rel (P i) (sweepRegions sweep rs).2[i]? (sweepRegions sweep rs').2[i]? := by
  induction rs generalizing rs' P with
  | nil =>
    cases rs' with
    | nil => exact ⟨rfl, h⟩
    | cons r' rest' => cases h 0
  | cons r rest ih =>
    cases rs' with
    | nil => cases h 0
    | cons r' rest' =>
      have hcons : ∀ {r r' : Region} {rest rest' : List Region}, P 0 r r' →
          (∀ i, Option.Rel (P (i + 1)) rest[i]? rest'[i]?) →
          ∀ i, Option.Rel (P i) (r :: rest)[i]? (r' :: rest')[i]? := by
        rintro r r' rest rest' first others (_ | i)
        · exact .some first
        · exact others i
      have hrest : ∀ i, Option.Rel (P (i + 1)) rest[i]? rest'[i]? := fun i => h (i + 1)
      have first : P 0 r r' := by
        cases h 0 with
        | some alike => exact alike
      have swept := each 0 r r' first
      obtain ⟨answers, others⟩ := ih (fun i => each (i + 1)) hrest
      simp only [sweepRegions]
      generalize sweep r = outcome at swept ⊢
      generalize sweep r' = outcome' at swept ⊢
      cases swept with
      | refused refusal alike => exact ⟨rfl, hcons alike hrest⟩
      | answered counted =>
        obtain ⟨rfl, alike⟩ := counted
        generalize sweepRegions sweep rest = swept at answers others ⊢
        generalize sweepRegions sweep rest' = swept' at answers others ⊢
        obtain ⟨answer, rest⟩ := swept
        obtain ⟨_, rest'⟩ := swept'
        cases answers
        cases answer with
        | error refusal => exact ⟨rfl, hcons alike others⟩
        | ok n => exact ⟨rfl, hcons alike others⟩

theorem collectExpired (h : Mirrors age known old new) (now : Int) :
    Outcome.Alike (Mirrors age known) (CountedAlike age known)
      (old.collectExpired now) (new.collectExpired now) := by
  obtain ⟨answers, alike⟩ := sweepRegions_alike
    (fun _ _ _ alike => alike.collectExpired old.expireBatch now) h.regions
  simp only [Store.collectExpired, h.expireBatch]
  generalize sweepRegions _ old.regions = swept at answers alike ⊢
  generalize sweepRegions _ new.regions = swept' at answers alike ⊢
  obtain ⟨answer, regions⟩ := swept
  obtain ⟨_, regions'⟩ := swept'
  cases answers
  cases answer with
  | error refusal =>
    exact .refused _ ⟨alike, h.routing, h.onExhaustion, rfl, h.leastUsedBatch⟩
  | ok n =>
    exact .answered ⟨rfl, alike, h.routing, h.onExhaustion, rfl, h.leastUsedBatch⟩

theorem collectLeastUsed (h : Mirrors age known old new) (now : Int) :
    Outcome.Alike (Mirrors age known) (CountedAlike age known)
      (old.collectLeastUsed now) (new.collectLeastUsed now) := by
  obtain ⟨answers, alike⟩ := sweepRegions_alike
    (fun _ _ _ alike => alike.collectLeastUsed old.leastUsedBatch now) h.regions
  simp only [Store.collectLeastUsed, h.leastUsedBatch]
  generalize sweepRegions _ old.regions = swept at answers alike ⊢
  generalize sweepRegions _ new.regions = swept' at answers alike ⊢
  obtain ⟨answer, regions⟩ := swept
  obtain ⟨_, regions'⟩ := swept'
  cases answers
  cases answer with
  | error refusal =>
    exact .refused _ ⟨alike, h.routing, h.onExhaustion, h.expireBatch, rfl⟩
  | ok n =>
    exact .answered ⟨rfl, alike, h.routing, h.onExhaustion, h.expireBatch, rfl⟩

/-- Clearing a region moves no slot on that both stores have. -/
theorem clearRegion (h : Mirrors age known old new) (found : old.regions[i]? = some r)
    (found' : new.regions[i]? = some r') :
    ∃ age', Mirrors age' known (old.setRegion i r.clear) (new.setRegion i r'.clear) ∧
      ∀ k, new.HasSlot k → k.renewed age' = k.renewed age := by
  rcases h.region_cases i with ⟨none, -⟩ | ⟨r₁, r₁', found₁, found₁', alike⟩
  · rw [found] at none
    cases none
  · cases found.symm.trans found₁
    cases found'.symm.trans found₁'
    refine ⟨Function.update age i (SlotTable.laterAges (age i) r.table r'.table),
      h.setRegion ?_ (fun j other => Function.update_of_ne other _ _) fun _ _ => subset_rfl, ?_⟩
    · rw [Function.update_self]
      exact alike.clear
    · rintro k ⟨r₁, found₁, inside⟩
      by_cases here : k.region = i
      · rw [here, found'] at found₁
        cases found₁
        rw [Handle.renewed, Handle.renewed, here, Function.update_self,
          SlotTable.laterAges_of_lt inside]
      · rw [Handle.renewed, Handle.renewed, Function.update_of_ne here]

/-- Clearing moves no slot on that both stores have. -/
theorem clear (h : Mirrors age known old new) : ∃ age', Mirrors age' known old.clear new.clear ∧
    ∀ k, new.HasSlot k → k.renewed age' = k.renewed age := by
  refine ⟨fun i => ((old.regions[i]?).bind fun r => (new.regions[i]?).map fun r' =>
      SlotTable.laterAges (age i) r.table r'.table).getD (age i),
    ⟨fun i => ?_, congrArg Routing.reset h.routing, h.onExhaustion, h.expireBatch,
      h.leastUsedBatch⟩, ?_⟩
  · rw [Store.clear, Store.clear, List.getElem?_map, List.getElem?_map]
    rcases h.region_cases i with ⟨found, found'⟩ | ⟨r, r', found, found', alike⟩
    · rw [found, found']
      exact .none
    · simp only [found, found', Option.bind_some, Option.map_some, Option.getD_some]
      exact .some alike.clear
  · rintro k ⟨r', found', inside⟩
    rcases h.region_cases k.region with ⟨-, none⟩ | ⟨r, r₁, found, found₁, -⟩
    · rw [found'] at none
      cases none
    · cases found'.symm.trans found₁
      simp only [Handle.renewed, found, found', Option.bind_some, Option.map_some,
        Option.getD_some, SlotTable.laterAges_of_lt inside]

end Mirrors

end Store

end RegionStore
