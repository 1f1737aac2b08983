import Mathlib.Data.List.Nodup
import Mathlib.Data.Nat.Find
import Mathlib.Data.Nat.ModEq
import RegionStore.Proofs.Attempts
import RegionStore.Proofs.Steady

/-!
Where a request lands. The stock routings name the regions in cyclic order, so a request is placed
exactly if some region accepts it, and then in the first that does.
-/
namespace RegionStore

namespace Routing

/-- So many regions in cyclic order. -/
def cycle (regions first count : Nat) : List Nat :=
  (List.range count).map fun d => (first + d) % regions

variable {regions first count i : Nat}

theorem cycle_succ (regions first count : Nat) :
    cycle regions first (count + 1) = first % regions :: cycle regions (first + 1) count := by
  rw [cycle, List.range_succ_eq_map, List.map_cons, List.map_map, cycle]
  simp only [Function.comp_def, Nat.add_zero, Nat.succ_eq_add_one, Nat.add_assoc, Nat.add_comm 1]

theorem cycle_succ_last (regions first count : Nat) :
    cycle regions first (count + 1) = cycle regions first count ++ [(first + count) % regions] := by
  rw [cycle, List.range_succ, List.map_append]
  rfl

theorem cycle_mod_add (regions first k count : Nat) :
    cycle regions (first % regions + k) count = cycle regions (first + k) count := by
  simp only [cycle, Nat.add_assoc, Nat.mod_add_mod]

@[simp] theorem length_cycle (regions first count : Nat) :
    (cycle regions first count).length = count := by
  simp [cycle]

theorem mem_cycle_iff : i ∈ cycle regions first count ↔ ∃ d < count, (first + d) % regions = i := by
  simp [cycle]

theorem add_mod_injective {d d' : Nat} (h : (first + d) % regions = (first + d') % regions)
    (inside : d < regions) (inside' : d' < regions) : d = d' :=
  (Nat.ModEq.add_left_cancel' first h).eq_of_lt_of_lt inside inside'

/-- No region comes twice in one cycle. -/
theorem nodup_cycle (first : Nat) (once : count ≤ regions) : (cycle regions first count).Nodup := by
  refine List.Nodup.map_on (fun d hd d' hd' same => ?_) List.nodup_range
  rw [List.mem_range] at hd hd'
  exact add_mod_injective same (by omega) (by omega)

/-- Every region has its place in the order. -/
theorem exists_distance (first : Nat) (inside : i < regions) :
    ∃ d < regions, (first + d) % regions = i := by
  have hpos : 0 < regions := Nat.zero_lt_of_lt inside
  have hfirst : first % regions < regions := Nat.mod_lt first hpos
  refine ⟨(i + (regions - first % regions)) % regions, Nat.mod_lt _ hpos, ?_⟩
  calc (first + (i + (regions - first % regions)) % regions) % regions
      = (first % regions + (i + (regions - first % regions))) % regions := by
        rw [Nat.add_mod_mod, Nat.mod_add_mod]
    _ = (i + regions) % regions := by congr 1; omega
    _ = i := by rw [Nat.add_mod_right, Nat.mod_eq_of_lt inside]

/-- Sequential routing names every region that follows the one that failed, in order. -/
theorem offers_sequential_after {failed : Nat} (inside : failed < regions) {budget attempt : Nat}
    (fits : attempt + budget ≤ regions + 1) :
    (sequential failed).offers regions budget attempt (some failed) =
      (cycle regions (failed + 1) budget, sequential ((failed + budget) % regions)) := by
  induction budget generalizing failed attempt with
  | zero => simp [offers, cycle, Nat.mod_eq_of_lt inside]
  | succ budget ih =>
    have hnext : (sequential failed).next (some failed) attempt regions =
        (some ((failed + 1) % regions), sequential ((failed + 1) % regions)) := by
      simp only [next, if_neg (show ¬ (regions = 0 ∨ regions < attempt) by omega), if_pos]
    have hlater : attempt + 1 + budget ≤ regions + 1 := by omega
    have hrest := ih (Nat.mod_lt (failed + 1) (Nat.zero_lt_of_lt inside)) hlater
    rw [cycle_mod_add, Nat.mod_add_mod, show failed + 1 + budget = failed + (budget + 1) by omega]
      at hrest
    rw [offers, hnext]
    simp only [hrest, cycle_succ]

theorem offers_sequential {active budget : Nat} (inside : active < regions)
    (fits : budget + 1 ≤ regions) :
    (sequential active).offers regions (budget + 1) 1 none =
      (cycle regions active (budget + 1), sequential ((active + budget) % regions)) := by
  have hnext : (sequential active).next none 1 regions = (some active, sequential active) := by
    simp only [next, if_neg (show ¬ (regions = 0 ∨ regions < 1) by omega),
      Nat.mod_eq_of_lt inside]
  rw [offers, hnext]
  simp only [offers_sequential_after inside (show 2 + budget ≤ regions + 1 by omega), cycle_succ,
    Nat.mod_eq_of_lt inside]

/-- Round robin names the regions in order, as often as it may and the cursor does not wrap. -/
theorem offers_roundRobin (some : 0 < regions) {attempts budget attempt : Nat} {cursor : UInt64}
    (fits : attempt + budget ≤ attempts + 1) (word : cursor.toNat + budget < UInt64.size)
    (previous : Option Nat) :
    ((roundRobin cursor attempts).offers regions budget attempt previous).1 =
      cycle regions cursor.toNat budget := by
  induction budget generalizing cursor attempt previous with
  | zero => rfl
  | succ budget ih =>
    have hnext : (roundRobin cursor attempts).next previous attempt regions =
        (.some (cursor.toNat % regions), roundRobin (cursor + 1) attempts) := by
      simp only [next, if_neg (show ¬ (regions = 0 ∨ attempts < attempt) by omega)]
    have hcursor : (cursor + 1).toNat = cursor.toNat + 1 := by
      rw [UInt64.toNat_add]
      exact Nat.mod_eq_of_lt (by simp only [UInt64.size] at word; simp; omega)
    have hlater : attempt + 1 + budget ≤ attempts + 1 := by omega
    have hword : (cursor + 1).toNat + budget < UInt64.size := by omega
    have hrest := ih hlater hword (.some (cursor.toNat % regions))
    rw [hcursor] at hrest
    rw [offers, hnext]
    simp only [hrest, cycle_succ]

end Routing

namespace Store

variable {s : Store} {now : Int} {q : Request} {first active i : Nat}

/-- The region would place the request if it were asked by itself. -/
def Accepts (s : Store) (now : Int) (q : Request) (i : Nat) : Prop :=
  ∃ r k, s.regions[i]? = some r ∧ (r.submit now q).1 = .ok k

/-- The first region that accepts the request stands at a distance in cyclic order. -/
structure FirstAccepting (s : Store) (now : Int) (q : Request) (first distance : Nat) : Prop where
  inside : distance < s.regions.length
  accepts : s.Accepts now q ((first + distance) % s.regions.length)
  before : ∀ d < distance, ¬ s.Accepts now q ((first + d) % s.regions.length)

theorem exists_firstAccepting (first : Nat) (accepts : s.Accepts now q i) :
    ∃ d, s.FirstAccepting now q first d := by
  classical
  have inside : i < s.regions.length := by
    obtain ⟨r, -, found, -⟩ := accepts
    exact (List.getElem?_eq_some_iff.1 found).1
  obtain ⟨d, hd, rfl⟩ := Routing.exists_distance first inside
  let P (d : Nat) := s.Accepts now q ((first + d) % s.regions.length)
  have some : ∃ d, P d := ⟨d, accepts⟩
  exact ⟨Nat.find some, Nat.lt_of_le_of_lt (Nat.find_min' some accepts) hd, Nat.find_spec some,
    fun d' hd' => Nat.find_min some hd'⟩

/-- No region would refuse the request outright. -/
def Admits (s : Store) (q : Request) : Prop :=
  ∀ (i : Nat) (r : Region), s.regions[i]? = some r → q.refusal? r.maxRequest = none

theorem Admits.passOver (h : s.Admits q) (tried : List Nat) (routing : Routing) :
    (s.passOver tried routing).Admits q := by
  intro i r found
  rw [getElem?_passOver] at found
  obtain ⟨r₀, found₀, rfl⟩ := Option.map_eq_some_iff.1 found
  exact h i r₀ found₀

theorem Regular.admits (h : s.Regular) (positive : 1 ≤ q.size) (small : q.size ≤ s.maxRequest) :
    s.Admits q := by
  intro i r found
  rw [← h.maxRequest_eq found]
  exact Request.refusal?_eq_none_iff.2 ⟨positive, small⟩

/-- A region that is asked either places the request or has no room for it. -/
theorem Sound.accepts_or_full (h : s.Sound) (admits : s.Admits q) (now : Int) {r : Region}
    (found : s.regions[i]? = some r) :
    (∃ k r', r.submit now q = (.ok k, r') ∧ r.Placed now q k r') ∨
      (s.Full q i ∧ ¬ s.Accepts now q i ∧
        r.submit now q = (.error (.outOfSpace q.size), r.countFailures 1)) := by
  rcases (h i r found).1.submit now q with ⟨refusal, hrefusal, -⟩ | ⟨-, hfull, hsubmit⟩ |
    ⟨k, r', hsubmit, placed⟩
  · rw [admits i r found] at hrefusal
    cases hrefusal
  · refine Or.inr ⟨fun r₀ found₀ => ?_, ?_, hsubmit⟩
    · rw [found] at found₀
      cases found₀
      exact hfull
    · rintro ⟨r₀, k, found₀, hk⟩
      rw [found] at found₀
      cases found₀
      rw [hsubmit] at hk
      cases hk
  · exact Or.inl ⟨k, r', hsubmit, placed⟩

theorem Sound.full_of_not_accepts (h : s.Sound) (admits : s.Admits q)
    (refuses : ¬ s.Accepts now q i) : s.Full q i := by
  cases found : s.regions[i]? with
  | none =>
    intro r found'
    rw [found] at found'
    cases found'
  | some r =>
    rcases h.accepts_or_full admits now found with ⟨k, r', hsubmit, -⟩ | ⟨full, -⟩
    · exact absurd ⟨r, k, found, by rw [hsubmit]⟩ refuses
    · exact full

theorem not_accepts_of_full (full : s.Full q i) (admits : s.Admits q) : ¬ s.Accepts now q i := by
  rintro ⟨r, k, found, hk⟩
  obtain ⟨positive, small⟩ := Request.refusal?_eq_none_iff.1 (admits i r found)
  rw [Region.submit_eq_place positive small, Region.place, full r found] at hk
  cases hk

/-- When the routing comes to a region that accepts the request, after regions that are full, the
request is placed there and the full ones have counted a failure each. -/
theorem Sound.tryRegions_lands (h : s.Sound) (stock : s.routing.Stock) (admits : s.Admits q)
    {budget attempt : Nat} {previous : Option Nat} {tried : List Nat} {routing : Routing}
    (named : s.routing.offers s.regions.length (tried.length + 1) attempt previous =
      (tried ++ [i], routing))
    (enough : tried.length < budget) (full : ∀ j ∈ tried, s.Full q j) (distinct : i ∉ tried)
    {r r' : Region} {k : Handle} (found : s.regions[i]? = some r)
    (placed : r.submit now q = (.ok k, r')) :
    Store.tryRegions now q budget attempt previous s = (.ok (some k),
      { (s.passOver tried routing).setRegion i r' with
        tally := { s.tally with stores := s.tally.stores + 1 } }) := by
  induction tried generalizing s budget attempt previous with
  | nil =>
    cases budget with
    | zero => exact absurd enough (Nat.lt_irrefl 0)
    | succ budget =>
      rw [List.length_nil, Nat.zero_add, Routing.offers] at named
      rw [Store.tryRegions, ← passOver_nil]
      rcases hnext : s.routing.next previous attempt s.regions.length with ⟨target, routing'⟩
      rw [hnext] at named
      cases target with
      | none => cases named
      | some j =>
        cases named
        simp only [found, placed]
        rfl
  | cons j tried ih =>
    cases budget with
    | zero => exact absurd enough (Nat.not_lt_zero _)
    | succ budget =>
      rw [List.length_cons, Routing.offers] at named
      rw [Store.tryRegions]
      rcases hnext : s.routing.next previous attempt s.regions.length with ⟨target, routing'⟩
      rw [hnext] at named
      cases target with
      | none => cases named
      | some j' =>
        rcases hrest : routing'.offers s.regions.length (tried.length + 1) (attempt + 1) (some j')
          with ⟨rest, last⟩
        simp only [hrest, Prod.mk.injEq, List.cons_append, List.cons.injEq] at named
        obtain ⟨⟨rfl, rfl⟩, rfl⟩ := named
        obtain ⟨r₁, found₁⟩ : ∃ r₁ : Region, s.regions[j']? = some r₁ :=
          ⟨_, List.getElem?_eq_getElem (stock.lt_of_next hnext)⟩
        have hstock : routing'.Stock := by
          have := stock.next previous attempt s.regions.length
          rwa [hnext] at this
        have hne : i ≠ j' := fun same => distinct (by simp [same])
        rcases h.accepts_or_full admits now found₁ with ⟨k₁, r₂, hsubmit, -⟩ | ⟨-, -, hsubmit⟩
        · have accepts : s.Accepts now q j' := ⟨r₁, k₁, found₁, by rw [hsubmit]⟩
          exact absurd accepts (not_accepts_of_full (full j' (by simp)) admits)
        · rw [← length_passOver s [j'] routing'] at hrest
          have hagain := ih (s := s.passOver [j'] routing') (h.passOver [j'] routing').keeps.sound
            hstock (admits.passOver [j'] routing') hrest (Nat.lt_of_succ_lt_succ enough)
            (fun x member => full_passOver.2 (full x (by simp [member])))
            (fun member => distinct (by simp [member])) (by
              rw [getElem?_passOver, found, List.count_singleton, beq_false_of_ne hne.symm]
              exact congrArg some r.countFailures_zero)
          rw [passOver_passOver] at hagain
          simp only [found₁, hsubmit, passOver_singleton found₁]
          exact hagain

/-- With an accepting region among those that the routing names, the first of them is the one that
places the request. -/
theorem Regular.submit_lands (h : s.Regular) (positive : 1 ≤ q.size) (small : q.size ≤ s.maxRequest)
    {distance : Nat} (accepting : s.FirstAccepting now q first distance) {routing : Routing}
    (named : s.routing.offers s.regions.length (distance + 1) 1 none =
      (Routing.cycle s.regions.length first (distance + 1), routing))
    (enough : distance < s.routing.attemptLimit s.regions.length) :
    ∃ r r' k, s.regions[(first + distance) % s.regions.length]? = some r ∧
      r.submit now q = (.ok k, r') ∧ k.region = (first + distance) % s.regions.length ∧
      s.submit now q = (.ok (some k), {
        (s.passOver (Routing.cycle s.regions.length first distance) routing).setRegion
          ((first + distance) % s.regions.length) r' with
        tally := { s.tally with stores := s.tally.stores + 1 } }) := by
  have admits := h.admits positive small
  obtain ⟨r, k, found, -⟩ := accepting.accepts
  rcases h.sound.accepts_or_full admits now found with ⟨k, r', hsubmit, placed⟩ | ⟨-, refuses, -⟩
  · have full : ∀ j ∈ Routing.cycle s.regions.length first distance, s.Full q j := by
      intro j member
      obtain ⟨d, hd, rfl⟩ := Routing.mem_cycle_iff.1 member
      exact h.sound.full_of_not_accepts admits (accepting.before d hd)
    have distinct : (first + distance) % s.regions.length ∉
        Routing.cycle s.regions.length first distance :=
      fun member => not_accepts_of_full (full _ member) admits accepting.accepts
    rw [Routing.cycle_succ_last] at named
    have hlength := Routing.length_cycle s.regions.length first distance
    have named' : s.routing.offers s.regions.length
        ((Routing.cycle s.regions.length first distance).length + 1) 1 none =
          (Routing.cycle s.regions.length first distance ++ [(first + distance) % s.regions.length],
            routing) := by
      rw [hlength]
      exact named
    have hlands := h.sound.tryRegions_lands h.stock admits named' (by rwa [hlength]) full distinct
      found hsubmit
    refine ⟨r, r', k, found, hsubmit, placed.own.trans (h.sound _ r found).2, ?_⟩
    rw [Store.submit, Request.refusal?_eq_none_iff.2 ⟨positive, small⟩]
    exact hlands
  · exact absurd accepting.accepts refuses

theorem Regular.submit_exhausted (h : s.Regular) (positive : 1 ≤ q.size)
    (small : q.size ≤ s.maxRequest) (refuse : ¬ ∃ i, s.Accepts now q i) :
    s.submit now q = (s.noRoom q, s.outOfRoom) := by
  have admits := h.admits positive small
  have hoffered := h.sound.offered h.stock admits now (s.routing.attemptLimit s.regions.length) 1
    none
  rw [Store.submit, Request.refusal?_eq_none_iff.2 ⟨positive, small⟩]
  dsimp only
  generalize tryRegions now q _ 1 none s = answer at hoffered
  cases hoffered with
  | exhausted full => rfl
  | @landed tried rest i routing r r' k split full found placed =>
    refine absurd ⟨i, r, k, found, ?_⟩ refuse
    obtain ⟨-, small⟩ := Request.refusal?_eq_none_iff.1 (admits i r found)
    rw [Region.submit_eq_place positive small, placed.answer]

/-- A request goes to the first region in cyclic order whose own account has room for it, and is
told of a lack of room only if there is no such region. -/
structure Sought (s : Store) (now : Int) (q : Request) (first : Nat)
    (o : Outcome Store (Option Handle)) : Prop where
  succeeds : (∃ k, o.1 = .ok (some k)) ↔ ∃ i, s.Accepts now q i
  lands : ∀ k, o.1 = .ok (some k) →
    ∃ d, s.FirstAccepting now q first d ∧ k.region = (first + d) % s.regions.length
  noRoom : (¬ ∃ i, s.Accepts now q i) → o.1 = s.noRoom q

theorem Regular.sought (h : s.Regular) (positive : 1 ≤ q.size) (small : q.size ≤ s.maxRequest)
    (named : ∀ d < s.regions.length, (s.routing.offers s.regions.length (d + 1) 1 none).1 =
      Routing.cycle s.regions.length first (d + 1))
    (enough : s.regions.length ≤ s.routing.attemptLimit s.regions.length) :
    Sought s now q first (s.submit now q) := by
  have hlands (i : Nat) (accepts : s.Accepts now q i) : ∃ d k, s.FirstAccepting now q first d ∧
      k.region = (first + d) % s.regions.length ∧ (s.submit now q).1 = .ok (some k) := by
    obtain ⟨d, accepting⟩ := exists_firstAccepting first accepts
    obtain ⟨_, _, k, -, -, hk, hsubmit⟩ := h.submit_lands positive small accepting
      (Prod.ext (named d accepting.inside) rfl) (Nat.lt_of_lt_of_le accepting.inside enough)
    exact ⟨d, k, accepting, hk, congrArg Prod.fst hsubmit⟩
  have hnone (refuse : ¬ ∃ i, s.Accepts now q i) : (s.submit now q).1 = s.noRoom q :=
    congrArg Prod.fst (h.submit_exhausted positive small refuse)
  have hsome {k : Handle} (answer : (s.submit now q).1 = .ok (some k)) :
      ∃ i, s.Accepts now q i := by
    by_contra refuse
    rw [hnone refuse, Store.noRoom] at answer
    split at answer <;> cases answer
  refine ⟨⟨fun ⟨k, answer⟩ => hsome answer, fun ⟨i, accepts⟩ => ?_⟩, fun k answer => ?_, hnone⟩
  · obtain ⟨d, k, -, -, answer⟩ := hlands i accepts
    exact ⟨k, answer⟩
  · obtain ⟨i, accepts⟩ := hsome answer
    obtain ⟨d, k', accepting, hk, answer'⟩ := hlands i accepts
    rw [answer] at answer'
    cases answer'
    exact ⟨d, accepting, hk⟩

/-- What sequential routing leaves behind: regions in front of the one that accepts have counted one
failure each, those behind it are as they were, and it is the active one now. -/
structure Advanced (s : Store) (now : Int) (q : Request) (active distance : Nat) (s' : Store) :
    Prop where
  routing : s'.routing = .sequential ((active + distance) % s.regions.length)
  before : ∀ d < distance, s'.regions[(active + d) % s.regions.length]? =
    (s.regions[(active + d) % s.regions.length]?).map (·.countFailures 1)
  here : s'.regions[(active + distance) % s.regions.length]? =
    (s.regions[(active + distance) % s.regions.length]?).map fun r => (r.submit now q).2
  behind : ∀ d, distance < d → d < s.regions.length →
    s'.regions[(active + d) % s.regions.length]? = s.regions[(active + d) % s.regions.length]?

theorem Regular.advanced (h : s.Regular) (positive : 1 ≤ q.size) (small : q.size ≤ s.maxRequest)
    (routing : s.routing = .sequential active) (within : active < s.regions.length)
    {distance : Nat} (accepting : s.FirstAccepting now q active distance) :
    Advanced s now q active distance (s.submit now q).2 := by
  have inside := accepting.inside
  have named : s.routing.offers s.regions.length (distance + 1) 1 none =
      (Routing.cycle s.regions.length active (distance + 1),
        .sequential ((active + distance) % s.regions.length)) := by
    rw [routing]
    exact Routing.offers_sequential within inside
  obtain ⟨r, r', k, found, placed, -, hsubmit⟩ :=
    h.submit_lands positive small accepting named (by rw [routing]; exact inside)
  rw [hsubmit]
  have helsewhere (d : Nat) (other : d ≠ distance) (hd : d < s.regions.length) :
      ((s.passOver (Routing.cycle s.regions.length active distance)
        (.sequential ((active + distance) % s.regions.length))).setRegion
          ((active + distance) % s.regions.length) r').regions[
            (active + d) % s.regions.length]? =
        (s.regions[(active + d) % s.regions.length]?).map (·.countFailures
          ((Routing.cycle s.regions.length active distance).count
            ((active + d) % s.regions.length))) := by
    rw [regions_setRegion_of_ne fun same =>
      other (Routing.add_mod_injective same inside hd).symm, getElem?_passOver]
  refine ⟨rfl, fun d hd => ?_, ?_, fun d behind hd => ?_⟩
  · have hcount := List.count_eq_one_of_mem
      (Routing.nodup_cycle active (Nat.le_of_lt inside)) (Routing.mem_cycle_iff.2 ⟨d, hd, rfl⟩)
    have := helsewhere d (Nat.ne_of_lt hd) (Nat.lt_trans hd inside)
    rwa [hcount] at this
  · rw [found, Option.map_some, placed]
    exact List.getElem?_set_self (by
      rw [length_passOver]
      exact (List.getElem?_eq_some_iff.1 found).1)
  · have absent : (active + d) % s.regions.length ∉
        Routing.cycle s.regions.length active distance := by
      intro member
      obtain ⟨d', hd', same⟩ := Routing.mem_cycle_iff.1 member
      have := Routing.add_mod_injective same (Nat.lt_trans hd' inside) hd
      omega
    have := helsewhere d (Nat.ne_of_gt behind) hd
    rw [List.count_eq_zero_of_not_mem absent] at this
    rw [this]
    cases s.regions[(active + d) % s.regions.length]? with
    | none => rfl
    | some r => exact congrArg some r.countFailures_zero

theorem Regular.counted (h : s.Regular) (positive : 1 ≤ q.size) (small : q.size ≤ s.maxRequest)
    (routing : s.routing = .sequential active) (within : active < s.regions.length)
    (refuse : ¬ ∃ i, s.Accepts now q i) :
    (s.submit now q).2.regions = s.regions.map (·.countFailures 1) := by
  have named : s.offers.1 = Routing.cycle s.regions.length active s.regions.length := by
    obtain ⟨n, hn⟩ := Nat.exists_eq_add_of_lt (Nat.zero_lt_of_lt within)
    rw [Nat.zero_add] at hn
    rw [Store.offers, routing, Routing.attemptLimit, hn, Routing.offers_sequential] <;> omega
  rw [h.submit_exhausted positive small refuse, outOfRoom, named]
  apply List.ext_getElem?
  intro i
  rw [getElem?_passOver, List.getElem?_map]
  cases found : s.regions[i]? with
  | none => rfl
  | some r =>
    have hcount := List.count_eq_one_of_mem (Routing.nodup_cycle active (Nat.le_refl _))
      (Routing.mem_cycle_iff.2 (Routing.exists_distance active
        (List.getElem?_eq_some_iff.1 found).1))
    rw [hcount]

/-- Placement among the regions is complete. A request that could be met at all succeeds exactly if
some region by itself would accept it, and lands in the first such region in cyclic order. Under
sequential routing the order starts at the active region, every region in front of the one that
accepts is tried once, and when none accepts each has counted one failure. Round robin starts where
its cursor stands, if it may try as many times as there are regions. -/
theorem placement_complete (h : s.Reachable) (positive : 1 ≤ q.size)
    (small : q.size ≤ s.maxRequest) (now : Int) :
    (∀ active, s.routing = .sequential active → Sought s now q active (s.submit now q) ∧
      (∀ d, s.FirstAccepting now q active d → Advanced s now q active d (s.submit now q).2) ∧
      ((¬ ∃ i, s.Accepts now q i) →
        (s.submit now q).2.regions = s.regions.map (·.countFailures 1))) ∧
    (∀ cursor attempts, s.routing = .roundRobin cursor attempts → s.regions.length ≤ attempts →
      cursor.toNat < UInt64.size - attempts →
      Sought s now q (cursor.toNat % s.regions.length) (s.submit now q)) := by
  have regular := h.regular
  have within := h.within
  refine ⟨fun active routing => ?_, fun cursor attempts routing enough word => ?_⟩
  · rw [routing] at within
    refine ⟨regular.sought positive small (fun d hd => ?_) ?_,
      fun d accepting => regular.advanced positive small routing within accepting,
      regular.counted positive small routing within⟩
    · rw [routing, Routing.offers_sequential within hd]
    · rw [routing]
      exact Nat.le_refl _
  · rw [routing] at within
    refine regular.sought positive small (fun d hd => ?_) ?_
    · rw [routing, Routing.offers_roundRobin within (by omega) (by omega)]
      exact (Routing.cycle_mod_add s.regions.length cursor.toNat 0 (d + 1)).symm
    · rw [routing]
      exact enough

/-- With one, two and one bytes left in three regions, two bytes land two regions behind the active
one. With one byte left in each of two regions that take turns, no region accepts them. -/
theorem placement_complete_wraps :
    (∃ (s : Store) (q : Request), s.Reachable ∧ s.routing = .sequential 2 ∧
      (s.submit 40 q).1 = .ok (some ⟨1, 0, 0⟩) ∧ s.FirstAccepting 40 q 2 2 ∧
      (s.submit 40 q).2.routing = .sequential 1 ∧
      (s.submit 40 q).2.regions.map (·.usage.failures) = [2, 1, 1]) ∧
    ∃ (s : Store) (q : Request), s.Reachable ∧ s.routing = .roundRobin 2 2 ∧
      (s.submit 40 q).1 = .error (.outOfSpace 2) ∧ ¬ ∃ i, s.Accepts 40 q i := by
  let q : Request := ⟨.payload [7, 7], .never, 0⟩
  refine ⟨?_, ?_⟩
  · let settings : Settings := ⟨⟨3, 4, .firstFit, [], 1, false⟩, .default, .default, .default⟩
    have reachable := (((Reachable.build (rfl : build settings = .ok _) (by decide)).perform 10
      (.put [1, 2, 3] .never 0 : Op Unit)).perform 20 (.put [4, 5] .never 0 : Op Unit)).perform 30
        (.put [6, 7, 8] .never 0 : Op Unit)
    generalize hs : Prod.snd _ = s at reachable
    obtain ⟨routing, regions, small, answer, failures⟩ : s.routing = .sequential 2 ∧
        s.regions.length = 3 ∧ q.size ≤ s.maxRequest ∧
        (s.submit 40 q).1 = .ok (some ⟨1, 0, 0⟩) ∧
        (s.submit 40 q).2.regions.map (·.usage.failures) = [2, 1, 1] := by
      subst hs
      decide
    obtain ⟨sought, advanced, -⟩ :=
      (placement_complete reachable (by decide) small 40).1 2 routing
    obtain ⟨d, accepting, hd⟩ := sought.lands _ answer
    have inside := accepting.inside
    rw [regions] at inside hd
    have hdistance : d = 2 := by
      change 1 = (2 + d) % 3 at hd
      omega
    subst hdistance
    have hrouting := (advanced 2 accepting).routing
    rw [regions] at hrouting
    exact ⟨s, q, reachable, routing, answer, accepting, hrouting, failures⟩
  · let settings : Settings :=
      ⟨⟨2, 4, .firstFit, [], 1, false⟩, ⟨.roundRobin, 2, .error⟩, .default, .default⟩
    have reachable := ((Reachable.build (rfl : build settings = .ok _) (by decide)).perform 10
      (.put [1, 2, 3] .never 0 : Op Unit)).perform 20 (.put [4, 5, 6] .never 0 : Op Unit)
    generalize hs : Prod.snd _ = s at reachable
    obtain ⟨routing, regions, small, answer⟩ : s.routing = .roundRobin 2 2 ∧
        s.regions.length ≤ 2 ∧ q.size ≤ s.maxRequest ∧
        (s.submit 40 q).1 = .error (.outOfSpace 2) := by
      subst hs
      decide
    have sought := (placement_complete reachable (by decide) small 40).2 2 2 routing regions
      (by decide)
    refine ⟨s, q, reachable, routing, answer, fun accepts => ?_⟩
    obtain ⟨k, success⟩ := sought.succeeds.2 accepts
    rw [answer] at success
    cases success

end Store

end RegionStore
