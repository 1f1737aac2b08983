import RegionStore.Proofs.Reachable

/-!
What a request goes through. The routing names region after region; those without room count a
failure each and are otherwise as they were, until one of them places the request or none is left.
-/
namespace RegionStore

/-- The regions that are named to a request while each of them fails, for at most `budget` more
attempts, and the routing after that. -/
def Routing.offers (regions : Nat) :
    (budget attempt : Nat) → (previous : Option Nat) → Routing → List Nat × Routing
  | 0, _, _, p => ([], p)
  | budget + 1, attempt, previous, p =>
    match p.next previous attempt regions with
    | (none, p) => ([], p)
    | (some i, p) =>
      let (rest, p) := offers regions budget (attempt + 1) (some i) p
      (i :: rest, p)

theorem Routing.Stock.lt_of_next {p p' : Routing} (h : p.Stock) {previous : Option Nat}
    {attempt regions i : Nat} (hnext : p.next previous attempt regions = (some i, p')) :
    i < regions := by
  cases p with
  | sequential active =>
    unfold Routing.next at hnext
    dsimp only at hnext
    split at hnext
    · cases hnext
    · have hpos : 0 < regions := by omega
      split at hnext
      · cases hnext
        exact Nat.mod_lt _ hpos
      · cases hnext
        exact Nat.mod_lt _ hpos
  | roundRobin cursor attempts =>
    unfold Routing.next at hnext
    dsimp only at hnext
    split at hnext
    · cases hnext
    · cases hnext
      exact Nat.mod_lt _ (by omega)
  | fixed choices => exact h.elim

namespace Region

/-- The region after so many more placements failed in it. -/
def countFailures (r : Region) (n : Nat) : Region :=
  { r with usage := { r.usage with failures := r.usage.failures + .ofNat n } }

variable {r : Region}

@[simp] theorem countFailures_zero (r : Region) : r.countFailures 0 = r := by
  change { r with usage := { r.usage with failures := r.usage.failures + 0 } } = r
  rw [UInt64.add_zero]

theorem countFailures_countFailures (r : Region) (n m : Nat) :
    (r.countFailures n).countFailures m = r.countFailures (n + m) := by
  simp only [countFailures, UInt64.ofNat_add, UInt64.add_assoc]

theorem recordFailure_eq (r : Region) :
    { r with usage := r.usage.recordFailure } = r.countFailures 1 := rfl

theorem issued?_eq_some_iff_held {slot : Nat} {e : Entry} : r.table.issued? slot = some e ↔
    ∃ bytes, r.held ⟨r.id, slot, e.generation⟩ = some (e, bytes) := by
  constructor
  · intro issued
    exact ⟨_, held_of_checked (SlotTable.checked_eq_ok_iff_issued?.2 ⟨rfl, issued, rfl⟩)⟩
  · rintro ⟨bytes, held⟩
    exact (SlotTable.checked_eq_ok_iff_issued?.1 (held_eq_some_iff.1 held).1).2.1

/-- What a slot that was idle comes to hold adds its range to the issued bytes. -/
theorem issuedBytes_of_held_update {r' : Region} {k : Handle} {e : Entry} {bytes : List UInt8}
    (id : r'.id = r.id) (idle : r.table.issued? k.slot = none)
    (held : r'.held = Function.update r.held k (some (e, bytes))) :
    r'.table.issuedBytes = r.table.issuedBytes + e.span.size := by
  have hhere : r'.table.range? k.slot = some e.span := by
    have hk : r'.held k = some (e, bytes) := by rw [held, Function.update_self]
    exact SlotTable.range?_of_issued?
      (SlotTable.checked_eq_ok_iff_issued?.1 (held_eq_some_iff.1 hk).1).2.1
  have hothers (x : Nat) (hx : x ≠ k.slot) : r'.table.issued? x = r.table.issued? x := by
    refine Option.ext fun e' => ?_
    have hne : (⟨r.id, x, e'.generation⟩ : Handle) ≠ k := fun same =>
      hx (congrArg Handle.slot same)
    rw [issued?_eq_some_iff_held, issued?_eq_some_iff_held, id, held, Function.update_of_ne hne]
  have hbytes : r'.table.issuedBytes + r.table.bytesAt k.slot =
      r.table.issuedBytes + r'.table.bytesAt k.slot :=
    SlotTable.issuedBytes_of_eq_off k.slot fun x hx => by
      rw [SlotTable.range?, SlotTable.range?, hothers x hx]
  have hnone : r.table.bytesAt k.slot = 0 := by
    rw [SlotTable.bytesAt, SlotTable.range?, idle]
    rfl
  have hsome : r'.table.bytesAt k.slot = e.span.size := by
    rw [SlotTable.bytesAt, hhere]
    rfl
  omega

end Region

namespace Store

/-- The store after attempts at these regions failed. -/
def passOver (s : Store) (tried : List Nat) (routing : Routing) : Store :=
  { s with regions := s.regions.mapIdx fun i r => r.countFailures (tried.count i), routing }

variable {s s' : Store} {tried : List Nat} {routing : Routing} {i : Nat} {r : Region}

theorem getElem?_passOver (s : Store) (tried : List Nat) (routing : Routing) (i : Nat) :
    (s.passOver tried routing).regions[i]? =
      (s.regions[i]?).map (·.countFailures (tried.count i)) :=
  List.getElem?_mapIdx

@[simp] theorem length_passOver (s : Store) (tried : List Nat) (routing : Routing) :
    (s.passOver tried routing).regions.length = s.regions.length :=
  List.length_mapIdx

/-- What counting a failure does not change, passing over does not change. -/
theorem map_passOver {f : Region → β} (s : Store) (same : ∀ r n, f (r.countFailures n) = f r)
    (tried : List Nat) (routing : Routing) :
    (s.passOver tried routing).regions.map f = s.regions.map f := by
  apply List.ext_getElem?
  intro i
  rw [List.getElem?_map, getElem?_passOver, Option.map_map, List.getElem?_map]
  congr 1
  funext r
  exact same r _

theorem foldr_passOver {f : Region → Nat} (s : Store)
    (same : ∀ r n, f (r.countFailures n) = f r) (tried : List Nat) (routing : Routing) :
    (s.passOver tried routing).regions.foldr (fun r total => f r + total) 0 =
      s.regions.foldr (fun r total => f r + total) 0 := by
  have hfold := congrArg (List.foldr (· + ·) 0) (s.map_passOver same tried routing)
  rw [List.foldr_map, List.foldr_map] at hfold
  exact hfold

theorem eq_passOver {regions : List Region}
    (each : ∀ i : Nat, regions[i]? = (s.regions[i]?).map (·.countFailures (tried.count i))) :
    { s with regions, routing } = s.passOver tried routing := by
  have hregions : regions = s.regions.mapIdx fun i r => r.countFailures (tried.count i) :=
    List.ext_getElem? fun i => by rw [each, List.getElem?_mapIdx]
  rw [hregions]
  rfl

theorem passOver_nil (s : Store) (routing : Routing) :
    { s with routing } = s.passOver [] routing := by
  refine eq_passOver fun i => ?_
  rw [List.count_nil]
  cases s.regions[i]? <;> simp

theorem passOver_singleton (found : s.regions[i]? = some r) (routing : Routing) :
    { s.setRegion i (r.countFailures 1) with routing } = s.passOver [i] routing := by
  change { s with regions := s.regions.set i (r.countFailures 1), routing } = _
  refine eq_passOver fun j => ?_
  rw [List.getElem?_set, List.count_singleton]
  by_cases here : i = j
  · subst here
    rw [if_pos rfl, if_pos (List.getElem?_eq_some_iff.1 found).1, found, beq_self_eq_true,
      if_pos rfl, Option.map_some]
  · cases s.regions[j]? <;> simp [here]

theorem passOver_passOver (s : Store) (tried tried' : List Nat) (routing routing' : Routing) :
    (s.passOver tried routing).passOver tried' routing' =
      s.passOver (tried ++ tried') routing' := by
  refine eq_passOver (s := s) fun i => ?_
  rw [List.getElem?_mapIdx, getElem?_passOver, Option.map_map, List.count_append]
  congr 1
  funext r
  exact r.countFailures_countFailures _ _

/-- The region has no room for the request. -/
def Full (s : Store) (q : Request) (i : Nat) : Prop :=
  ∀ r, s.regions[i]? = some r → r.placement.reserve r.table q.size = none

theorem full_passOver {q : Request} : (s.passOver tried routing).Full q i ↔ s.Full q i := by
  unfold Full
  rw [getElem?_passOver]
  cases s.regions[i]? with
  | none => simp
  | some r => simp [Region.countFailures]

/-- What comes of a request that is offered the regions of a list: every one of them is full, or the
first that is not places it. -/
inductive Offered (s : Store) (now : Int) (q : Request) (offers : List Nat) (last : Routing) :
    Outcome Store (Option Handle) → Prop
  | exhausted (full : ∀ i ∈ offers, s.Full q i) :
    Offered s now q offers last ((s.passOver offers last).exhausted q)
  | landed {tried rest : List Nat} {i : Nat} {routing : Routing} {r r' : Region} {k : Handle}
    (split : offers = tried ++ i :: rest) (full : ∀ j ∈ tried, s.Full q j)
    (found : s.regions[i]? = some r) (placed : r.Placed now q k r') :
    Offered s now q offers last (.ok (some k), { (s.passOver tried routing).setRegion i r' with
      tally := { s.tally with stores := s.tally.stores + 1 } })

theorem Sound.passOver (h : s.Sound) (tried : List Nat) (routing : Routing) :
    s.Same (s.passOver tried routing) := by
  refine ⟨⟨fun i r' found' => ?_, length_passOver s tried routing⟩, ?_⟩
  · rw [getElem?_passOver] at found'
    obtain ⟨r, found, rfl⟩ := Option.map_eq_some_iff.1 found'
    obtain ⟨sound, own⟩ := h i r found
    have keeps := sound.retally (r.countFailures (tried.count i)).usage rfl
    exact ⟨keeps.sound, keeps.id.trans own⟩
  · funext k
    rw [held, getElem?_passOver, held]
    cases s.regions[k.region]? <;> rfl

/-- There is nothing more to offer. -/
theorem offered_nil (s : Store) (now : Int) (q : Request) (routing : Routing) :
    Offered s now q [] routing ({ s with routing }.exhausted q) := by
  rw [passOver_nil]
  exact .exhausted fun i member => absurd member List.not_mem_nil

/-- One region more in front of the list, which is full. -/
theorem Offered.cons {now : Int} {q : Request} {offers : List Nat} {last : Routing}
    {o : Outcome Store (Option Handle)} (h : Offered (s.passOver [i] routing) now q offers last o)
    (full : s.Full q i) : Offered s now q (i :: offers) last o := by
  cases h with
  | exhausted others =>
    rw [passOver_passOver]
    refine .exhausted fun j member => ?_
    rcases List.mem_cons.1 member with rfl | member
    · exact full
    · exact full_passOver.1 (others j member)
  | @landed tried rest j routing' r r' k split others found placed =>
    rw [getElem?_passOver] at found
    obtain ⟨r₀, found₀, rfl⟩ := Option.map_eq_some_iff.1 found
    -- the region that places the request has room, so it is not the one passed over
    have hdistinct : i ≠ j := by
      rintro rfl
      have hanswer := placed.answer
      have hfull : (r₀.countFailures ([i].count i)).placement.reserve
          (r₀.countFailures ([i].count i)).table q.size = none := full r₀ found₀
      rw [Region.place, hfull] at hanswer
      cases hanswer
    rw [List.count_singleton, beq_false_of_ne hdistinct, if_neg Bool.false_ne_true,
      Region.countFailures_zero] at placed
    rw [passOver_passOver]
    have hsplit : i :: offers = (i :: tried) ++ j :: rest := by rw [split]; rfl
    refine .landed hsplit (fun x member => ?_) found₀ placed
    rcases List.mem_cons.1 member with rfl | member
    · exact full
    · exact full_passOver.1 (others x member)

/-- A request that no region would refuse outright is offered the regions that the routing names. -/
theorem Sound.offered (h : s.Sound) (stock : s.routing.Stock) {q : Request}
    (admissible : ∀ (i : Nat) (r : Region), s.regions[i]? = some r → q.refusal? r.maxRequest = none)
    (now : Int) (budget attempt : Nat) (previous : Option Nat) :
    Offered s now q (s.routing.offers s.regions.length budget attempt previous).1
      (s.routing.offers s.regions.length budget attempt previous).2
      (Store.tryRegions now q budget attempt previous s) := by
  induction budget generalizing s attempt previous with
  | zero => exact s.offered_nil now q s.routing
  | succ budget ih =>
    rw [Store.tryRegions, Routing.offers]
    rcases hnext : s.routing.next previous attempt s.regions.length with ⟨target, routing⟩
    have hstock : routing.Stock := by
      have := stock.next previous attempt s.regions.length
      rwa [hnext] at this
    cases target with
    | none => exact s.offered_nil now q routing
    | some i =>
      obtain ⟨r, found⟩ : ∃ r : Region, s.regions[i]? = some r :=
        ⟨_, List.getElem?_eq_getElem (stock.lt_of_next hnext)⟩
      obtain ⟨sound, own⟩ := h i r found
      simp only [found]
      rcases sound.submit now q with ⟨refusal, hrefusal, -⟩ | ⟨-, hfull, hsubmit⟩ |
        ⟨k, r', hsubmit, placed⟩
      · rw [admissible i r found] at hrefusal
        cases hrefusal
      · have hpassed := passOver_singleton found routing
        simp only [hsubmit, Region.recordFailure_eq, hpassed]
        have here : s.Full q i := by
          intro r₀ found₀
          rw [found] at found₀
          cases found₀
          exact hfull
        have hadmissible : ∀ (j : Nat) (r₁ : Region),
            (s.passOver [i] routing).regions[j]? = some r₁ → q.refusal? r₁.maxRequest = none := by
          intro j r₁ found₁
          rw [getElem?_passOver] at found₁
          obtain ⟨r₀, found₀, rfl⟩ := Option.map_eq_some_iff.1 found₁
          exact admissible j r₀ found₀
        have hrest := ih (h.passOver [i] routing).keeps.sound hstock hadmissible (attempt + 1)
          (some i)
        rw [length_passOver] at hrest
        exact hrest.cons here
      · rcases routing.offers s.regions.length budget (attempt + 1) (some i) with ⟨rest, last⟩
        have hlanded : Offered s now q (i :: rest) last
            (.ok (some k), { (s.passOver [] routing).setRegion i r' with
              tally := { s.tally with stores := s.tally.stores + 1 } }) :=
          .landed rfl (fun j member => absurd member List.not_mem_nil) found placed
        rw [← passOver_nil] at hlanded
        simp only [hsubmit]
        exact hlanded

/-- Bytes of all issued ranges of all regions. -/
def issuedBytes (s : Store) : Nat :=
  s.regions.foldr (fun r total => r.table.issuedBytes + total) 0

/-- The count of used bytes is exact. -/
theorem Regular.used_eq (h : s.Regular) :
    s.used = s.issuedBytes := by
  obtain ⟨most, hregions⟩ := h.regions
  have hall : ∀ r ∈ s.regions, r.used = r.table.issuedBytes := by
    intro r member
    obtain ⟨i, found⟩ := List.getElem?_of_mem member
    exact (hregions i r found).2.used_eq
  unfold used issuedBytes
  generalize s.regions = regions at hall
  induction regions with
  | nil => rfl
  | cons r rest ih =>
    rw [List.foldr_cons, List.foldr_cons, hall r (by simp),
      ih fun r' member => hall r' (by simp [member])]

theorem issuedBytes_passOver (s : Store) (tried : List Nat) (routing : Routing) :
    (s.passOver tried routing).issuedBytes = s.issuedBytes :=
  s.foldr_passOver (f := (·.table.issuedBytes)) (fun _ _ => rfl) tried routing

theorem issuedBytes_setRegion (found : s.regions[i]? = some r) (r' : Region) :
    (s.setRegion i r').issuedBytes + r.table.issuedBytes =
      s.issuedBytes + r'.table.issuedBytes := by
  unfold issuedBytes setRegion
  dsimp only
  generalize s.regions = regions at found
  induction regions generalizing i with
  | nil => cases found
  | cons r₀ rest ih =>
    cases i with
    | zero =>
      cases found
      rw [List.set_cons_zero, List.foldr_cons, List.foldr_cons]
      omega
    | succ i =>
      have := ih found
      rw [List.set_cons_succ, List.foldr_cons, List.foldr_cons]
      omega

/-- The regions that are named to a request from its first attempt on, while each of them fails,
and the routing after that. -/
def offers (s : Store) : List Nat × Routing :=
  s.routing.offers s.regions.length (s.routing.attemptLimit s.regions.length) 1 none

/-- The store after a request found no room. Each region that was tried has counted a failure for
each attempt, the routing has moved on, and one failure is added to the counts of the store. -/
def outOfRoom (s : Store) : Store :=
  { s.passOver s.offers.1 s.offers.2 with
    tally := { s.tally with failures := s.tally.failures + 1 } }

/-- A request has been placed in one of the regions, which is told by the handle. -/
structure Landed (s : Store) (now : Int) (q : Request) (k : Handle) (s' : Store) : Prop where
  keeps : s.Keeps s'
  fresh : s.held k = none
  held : ∃ e bytes, s'.held = Function.update s.held k (some (e, bytes)) ∧
    q.content.Shows bytes ∧ e.lease = .issued q.size q.tag q.expiry now ∧
    s'.issuedBytes = s.issuedBytes + e.span.size

theorem Sound.landed (h : s.Sound) {now : Int} {q : Request} {k : Handle} {r' : Region}
    (found : s.regions[i]? = some r) (placed : r.Placed now q k r') (tried : List Nat)
    (routing : Routing) (tally : Tally) :
    Landed s now q k { (s.passOver tried routing).setRegion i r' with tally } := by
  obtain ⟨e, bytes, held, shows, lease, -⟩ := placed.held
  have hsame := h.passOver tried routing
  have hhere : k.region = i := placed.own.trans (h i r found).2
  subst hhere
  have found' : (s.passOver tried routing).regions[k.region]? =
      some (r.countFailures (tried.count k.region)) := by
    rw [getElem?_passOver, found, Option.map_some]
  have hkeeps : (r.countFailures (tried.count k.region)).Keeps r' :=
    ⟨placed.keeps.sound, placed.keeps.id, placed.keeps.strategy, placed.keeps.sizes⟩
  have hset := hsame.keeps.sound.setRegion found' hkeeps
  have hheld := held_setRegion_update found' held
  have hbytes := issuedBytes_setRegion found' r'
  rw [hsame.held] at hheld
  rw [issuedBytes_passOver, Region.issuedBytes_of_held_update placed.keeps.id placed.idle held]
    at hbytes
  refine ⟨hsame.keeps.trans ⟨hset.sound, hset.length⟩, (held_of_getElem? found).trans placed.fresh,
    e, bytes, hheld, shows, lease, ?_⟩
  change ((s.passOver tried routing).setRegion k.region r').issuedBytes + r.table.issuedBytes =
    _ at hbytes
  change ((s.passOver tried routing).setRegion k.region r').issuedBytes = _
  omega

/-- The answer to a request that found no room. -/
def noRoom (s : Store) (q : Request) : Except StoreError (Option Handle) :=
  match s.onExhaustion with
  | .returnNone => .ok none
  | .error => .error (.outOfSpace q.size)

/-- Every request is refused outright with nothing changed, or finds no room, or is placed. -/
theorem Regular.submit_cases (h : s.Regular) (now : Int) (q : Request) :
    (∃ refusal, q.refusal? s.maxRequest = some refusal ∧ s.submit now q = (.error refusal, s)) ∨
      s.submit now q = (s.noRoom q, s.outOfRoom) ∨
      ∃ k s', s.submit now q = (.ok (some k), s') ∧ Landed s now q k s' := by
  cases hrefusal : q.refusal? s.maxRequest with
  | some refusal => exact Or.inl ⟨refusal, rfl, by simp only [Store.submit, hrefusal]⟩
  | none =>
    have hoffered := h.sound.offered h.stock (q := q) (fun i r found => by
      rw [← h.maxRequest_eq found, hrefusal]) now (s.routing.attemptLimit s.regions.length) 1 none
    simp only [Store.submit, hrefusal]
    generalize tryRegions now q _ 1 none s = answer at hoffered
    cases hoffered with
    | exhausted full => exact Or.inr (Or.inl rfl)
    | landed split full found placed =>
      exact Or.inr (Or.inr ⟨_, _, rfl, h.sound.landed found placed _ _ _⟩)

end Store

end RegionStore
