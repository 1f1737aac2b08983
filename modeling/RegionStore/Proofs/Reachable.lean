import RegionStore.Proofs.Regular
import RegionStore.Proofs.StoreRuns

/-!
Stores that come about from settings, by operations on the store or on one of its regions. Every
operation takes each region through operations of its own, so that stores keep what regions keep.
-/
namespace RegionStore

variable {α : Type}

namespace Routing

/-- The routing is one of those that settings name. -/
def Stock : Routing → Prop
  | sequential _ => True
  | roundRobin _ _ => True
  | fixed _ => False

theorem Stock.next {p : Routing} (h : p.Stock) (previous : Option Nat) (attempt regions : Nat) :
    (p.next previous attempt regions).2.Stock := by
  cases p with
  | sequential active =>
    simp only [Routing.next]
    split
    · trivial
    · split <;> trivial
  | roundRobin cursor attempts =>
    simp only [Routing.next]
    split <;> trivial
  | fixed choices => exact h

theorem Stock.reset {p : Routing} (h : p.Stock) : p.reset.Stock := by
  cases p <;> exact h

theorem stock_make (p : RoutingSettings) : p.make.Stock := by
  unfold RoutingSettings.make
  split <;> trivial

end Routing

namespace Store

/-- Each region has gone through operations of its own. -/
structure Evolves (s s' : Store) : Prop where
  regions : ∀ (i : Nat) (r : Region), s.regions[i]? = some r →
    ∃ ops, s'.regions[i]? = some (r.run ops)
  length : s'.regions.length = s.regions.length
  stock : s.routing.Stock → s'.routing.Stock

variable {s s' : Store} {i : Nat} {r r' : Region}

theorem Evolves.refl (s : Store) : Evolves s s := ⟨fun _ _ found => ⟨[], found⟩, rfl, id⟩

/-- Counts and settings play no part, and the routing only as a stock one. -/
theorem Evolves.congr {s'' : Store} (h : Evolves s s') (regions : s''.regions = s'.regions)
    (stock : s.routing.Stock → s''.routing.Stock) : Evolves s s'' := by
  refine ⟨?_, by rw [regions, h.length], stock⟩
  rw [regions]
  exact h.regions

theorem Evolves.trans {s'' : Store} (h : Evolves s s') (h' : Evolves s' s'') : Evolves s s'' := by
  refine ⟨fun i r found => ?_, h'.length.trans h.length, h'.stock ∘ h.stock⟩
  obtain ⟨ops, found'⟩ := h.regions i r found
  obtain ⟨ops', found''⟩ := h'.regions i _ found'
  exact ⟨ops ++ ops', by rw [found'', Region.run_append]⟩

theorem evolves_setRegion (found : s.regions[i]? = some r) (ops : List (Int × Region.Op)) :
    Evolves s (s.setRegion i (r.run ops)) := by
  refine ⟨fun j r' found' => ?_, length_regions_setRegion s i _, fun h => h⟩
  by_cases here : i = j
  · subst here
    rw [found] at found'
    cases found'
    exact ⟨ops, List.getElem?_set_self (List.getElem?_eq_some_iff.1 found).1⟩
  · exact ⟨[], by rw [regions_setRegion_of_ne here]; exact found'⟩

theorem evolves_onRegion {op : Region → Outcome Region α}
    (each : ∀ r : Region, ∃ ops, (op r).2 = r.run ops) (s : Store) (i : Nat) :
    Evolves s (s.onRegion i op).2 := by
  cases found : s.regions[i]? with
  | none =>
    rw [onRegion_of_getElem?_eq_none found]
    exact .refl s
  | some r =>
    obtain ⟨ops, hops⟩ := each r
    rw [onRegion_of_getElem? found, hops]
    exact evolves_setRegion found ops

theorem evolves_exhausted (s : Store) (q : Request) : Evolves s (s.exhausted q).2 :=
  (Evolves.refl s).congr rfl id

theorem evolves_tryRegions (now : Int) (q : Request) (budget attempt : Nat)
    (previous : Option Nat) (s : Store) :
    Evolves s (tryRegions now q budget attempt previous s).2 := by
  induction budget generalizing s attempt previous with
  | zero => exact evolves_exhausted s q
  | succ budget ih =>
    rw [tryRegions]
    rcases hnext : s.routing.next previous attempt s.regions.length with ⟨target, routing⟩
    have hstock : s.routing.Stock → routing.Stock := by
      intro stock
      have := stock.next previous attempt s.regions.length
      rwa [hnext] at this
    have hrouted : Evolves s { s with routing } := (Evolves.refl s).congr rfl hstock
    cases target with
    | none => exact hrouted.trans (evolves_exhausted _ q)
    | some i =>
      cases found : s.regions[i]? with
      | none =>
        simp only [found]
        exact hrouted
      | some r =>
        have hset := evolves_setRegion found [(now, .submit q)]
        change Evolves s (s.setRegion i (r.submit now q).2) at hset
        rcases hsubmit : r.submit now q with ⟨refusal | k, r'⟩
        · rw [hsubmit] at hset
          have hpassed : Evolves s { s.setRegion i r' with routing } := hset.congr rfl hstock
          simp only [found, hsubmit]
          split
          · exact hpassed.trans (ih (attempt + 1) (some i) _)
          · exact hpassed
        · rw [hsubmit] at hset
          simp only [found, hsubmit]
          exact hset.congr rfl hstock

theorem evolves_submit (s : Store) (now : Int) (q : Request) : Evolves s (s.submit now q).2 := by
  unfold submit
  split
  · exact .refl s
  · exact evolves_tryRegions now q _ 1 none s

theorem evolves_view (s : Store) (now : Int) (k : Handle) (f : List UInt8 → α) :
    Evolves s (s.view now k f).2 :=
  evolves_onRegion (fun r => r.run_view now k f) s k.region

theorem evolves_edit (s : Store) (now : Int) (k : Handle) (patch : Patch α) :
    Evolves s (s.edit k patch.run).2 :=
  evolves_onRegion (fun r => r.run_edit now k patch) s k.region

theorem evolves_update (s : Store) (now : Int) (k : Handle) (bytes : List UInt8) :
    Evolves s (s.update now k bytes).2 :=
  evolves_onRegion (fun _ => ⟨[(now, .update k bytes)], rfl⟩) s k.region

theorem evolves_release (s : Store) (k : Handle) : Evolves s (s.release k).2 := by
  have hrelease : Evolves s (s.onRegion k.region (·.release k)).2 :=
    evolves_onRegion (fun _ => ⟨[(0, .release k)], rfl⟩) s k.region
  unfold release
  split
  · next heq =>
    rw [heq] at hrelease
    exact hrelease
  · next heq =>
    rw [heq] at hrelease
    dsimp only
    split
    · exact hrelease.congr rfl hrelease.stock
    · exact hrelease

theorem evolves_move (s : Store) (now : Int) (k : Handle) (bytes : List UInt8) :
    Evolves s (s.move now k bytes).2 := by
  unfold move
  split
  · exact .refl s
  · next old _ =>
    have hput := evolves_submit s now
      ⟨.payload bytes, remainingExpiry old.lease now, old.lease.tag⟩
    unfold put
    split
    · next heq =>
      rw [heq] at hput
      exact hput
    · next heq =>
      rw [heq] at hput
      exact hput
    · next moved s₁ heq =>
      rw [heq] at hput
      have hboth := hput.trans (evolves_release s₁ k)
      split
      · next heq' =>
        rw [heq'] at hboth
        exact hboth
      · next heq' =>
        rw [heq'] at hboth
        exact hboth

theorem evolves_updateOrMove (s : Store) (now : Int) (k : Handle) (bytes : List UInt8) :
    Evolves s (s.updateOrMove now k bytes).2 := by
  have hupdate := evolves_update s now k bytes
  unfold updateOrMove
  split
  · next heq =>
    rw [heq] at hupdate
    exact hupdate
  · next heq =>
    rw [heq] at hupdate
    exact hupdate.trans (evolves_move _ now k bytes)
  · next heq =>
    rw [heq] at hupdate
    exact hupdate

theorem evolves_sweepRegions {sweep : Region → Outcome Region Nat}
    (each : ∀ r : Region, ∃ ops, (sweep r).2 = r.run ops) (regions : List Region) :
    (∀ (i : Nat) (r : Region), regions[i]? = some r →
      ∃ ops, (sweepRegions sweep regions).2[i]? = some (r.run ops)) ∧
    (sweepRegions sweep regions).2.length = regions.length := by
  induction regions with
  | nil => exact ⟨nofun, rfl⟩
  | cons r rest ih =>
    obtain ⟨hrest, hlength⟩ := ih
    obtain ⟨ops, hops⟩ := each r
    have hcons : ∀ {r' : Region} {rest' : List Region}, r' = r.run ops →
        (∀ (i : Nat) (r : Region), rest[i]? = some r →
          ∃ ops, rest'[i]? = some (r.run ops)) → ∀ (i : Nat) (r'' : Region),
        (r :: rest)[i]? = some r'' → ∃ ops, (r' :: rest')[i]? = some (r''.run ops) := by
      rintro r' rest' rfl hothers (_ | i) r'' found
      · cases found
        exact ⟨ops, rfl⟩
      · exact hothers i r'' found
    unfold sweepRegions
    split
    · next refusal r' hsweep =>
      rw [hsweep] at hops
      exact ⟨hcons hops fun i r found => ⟨[], found⟩, rfl⟩
    · next freed r' hsweep =>
      rw [hsweep] at hops
      split
      · next hothers =>
        rw [hothers] at hrest hlength
        exact ⟨hcons hops hrest, by simp [← hlength]⟩
      · next hothers =>
        rw [hothers] at hrest hlength
        exact ⟨hcons hops hrest, by simp [← hlength]⟩

theorem evolves_sweep {sweep : Region → Outcome Region Nat}
    (each : ∀ r : Region, ∃ ops, (sweep r).2 = r.run ops) {answer : Except StoreError Nat}
    {regions : List Region} (swept : sweepRegions sweep s.regions = (answer, regions))
    (tally : Tally) : Evolves s { s with regions, tally } := by
  obtain ⟨hregions, hlength⟩ := evolves_sweepRegions each s.regions
  rw [swept] at hregions hlength
  exact ⟨hregions, hlength, id⟩

theorem evolves_collectExpired (s : Store) (now : Int) : Evolves s (s.collectExpired now).2 := by
  have each (r : Region) : ∃ ops, (r.collectExpired s.expireBatch now).2 = r.run ops :=
    ⟨[(now, .collectExpired s.expireBatch)], rfl⟩
  unfold collectExpired
  split
  · next swept => exact evolves_sweep each swept s.tally
  · next swept => exact evolves_sweep each swept _

theorem evolves_collectLeastUsed (s : Store) (now : Int) :
    Evolves s (s.collectLeastUsed now).2 := by
  have each (r : Region) : ∃ ops, (r.collectLeastUsed s.leastUsedBatch now).2 = r.run ops :=
    ⟨[(now, .collectLeastUsed s.leastUsedBatch)], rfl⟩
  unfold collectLeastUsed
  split
  · next swept => exact evolves_sweep each swept s.tally
  · next swept => exact evolves_sweep each swept _

theorem evolves_clear (s : Store) : Evolves s s.clear := by
  refine ⟨fun i r found => ⟨[(0, .clear)], ?_⟩, List.length_map _, fun h => h.reset⟩
  rw [clear, List.getElem?_map, found]
  rfl

/-- Whatever is asked of a store, its regions go through operations of their own. -/
theorem evolves_perform (s : Store) (now : Int) (op : Op α) :
    Evolves s (s.perform now op).2 := by
  cases op with
  | put bytes expiry tag => exact evolves_submit s now _
  | reserve size expiry tag => exact evolves_submit s now _
  | get k => exact evolves_view s now k fun payload => payload
  | view k f => exact evolves_view s now k f
  | edit k patch => exact evolves_edit s now k patch
  | update k bytes => exact evolves_update s now k bytes
  | updateOrMove k bytes => exact evolves_updateOrMove s now k bytes
  | release k => exact evolves_release s k
  | info k => exact .refl s
  | collectExpired => exact evolves_collectExpired s now
  | collectLeastUsed => exact evolves_collectLeastUsed s now
  | clear => exact evolves_clear s

theorem evolves_take (s : Store) (now : Int) (step : Command α) :
    Evolves s (s.take now step).2 := by
  cases step with
  | ask op => exact evolves_perform s now op
  | inRegion i op =>
    cases found : s.regions[i]? with
    | none =>
      simp only [take, found]
      exact .refl s
    | some r =>
      have evolves := evolves_setRegion found [(now, op)]
      change Evolves s (s.setRegion i (r.step now op)) at evolves
      simp only [take, found, Region.perform_snd]
      exact evolves

/-- Stores with a stock routing, after any operations on them or on one of their regions. The size
of a region is a 64-bit word. -/
inductive Reachable : Store → Prop
  | build {settings : Settings} {s : Store} (built : build settings = .ok s)
    (word : settings.memory.regionSize < UInt64.size) : Reachable s
  | perform {α : Type} {s : Store} (h : Reachable s) (now : Int) (op : Op α) :
    Reachable (s.perform now op).2
  | onRegion {s : Store} {i : Nat} {r : Region} (h : Reachable s)
    (found : s.regions[i]? = some r) (now : Int) (op : Region.Op) :
    Reachable (s.setRegion i (r.step now op))

/-- A store in good order, with regions that are all alike in what they can meet. -/
structure Regular (s : Store) : Prop where
  regions : ∃ most, ∀ (i : Nat) (r : Region), s.regions[i]? = some r → r.id = i ∧ r.Regular most
  stock : s.routing.Stock

theorem Regular.evolves (h : s.Regular) (evolves : Evolves s s') : s'.Regular := by
  obtain ⟨most, hregions⟩ := h.regions
  refine ⟨⟨most, fun i r' found' => ?_⟩, evolves.stock h.stock⟩
  have hbound : i < s.regions.length := by
    rw [← evolves.length]
    exact (List.getElem?_eq_some_iff.1 found').1
  have found := List.getElem?_eq_getElem hbound
  obtain ⟨ops, hops⟩ := evolves.regions i _ found
  rw [found'] at hops
  cases hops
  obtain ⟨own, regular⟩ := hregions i _ found
  exact ⟨(regular.sound.run ops).id.trans own, regular.run ops⟩

theorem regular_build {settings : Settings} (built : build settings = .ok s)
    (word : settings.memory.regionSize < UInt64.size) : s.Regular := by
  obtain ⟨hrouting, hmade⟩ := buildWith_eq_ok built
  obtain ⟨most, hregular⟩ := MemorySettings.exists_regular word
  refine ⟨⟨most, fun i r found => ?_⟩, hrouting ▸ Routing.stock_make settings.routing⟩
  obtain ⟨r₀, hr₀, rfl⟩ := hmade i r found
  exact ⟨(sound_makeRegion hr₀).2.1, (hregular i r₀ hr₀).step 0 (.setThreshold _)⟩

theorem Reachable.regular (h : s.Reachable) : s.Regular := by
  induction h with
  | build built word => exact regular_build built word
  | perform h now op ih => exact ih.evolves (evolves_perform _ now op)
  | onRegion h found now op ih => exact ih.evolves (evolves_setRegion found [(now, op)])

theorem Regular.sound (h : s.Regular) : s.Sound := by
  obtain ⟨most, hregions⟩ := h.regions
  exact fun i r found => ⟨(hregions i r found).2.sound, (hregions i r found).1⟩

theorem Regular.normal (h : s.Regular) {k : Handle} {e : Entry} {bytes : List UInt8}
    (held : s.held k = some (e, bytes)) : e.lease.expiry.normalized = e.lease.expiry := by
  obtain ⟨most, hregions⟩ := h.regions
  cases found : s.regions[k.region]? with
  | none =>
    rw [held_of_getElem?_eq_none found] at held
    cases held
  | some r =>
    rw [held_of_getElem? found] at held
    exact (hregions k.region r found).2.normal k e bytes held

/-- The store refuses just what its regions would refuse. -/
theorem Regular.maxRequest_eq (h : s.Regular) (found : s.regions[i]? = some r) :
    s.maxRequest = r.maxRequest := by
  obtain ⟨most, hregions⟩ := h.regions
  have hall : ∀ r' ∈ s.regions, r'.maxRequest = most := by
    intro r' member
    obtain ⟨j, found'⟩ := List.getElem?_of_mem member
    exact (hregions j r' found').2.maxRequest
  have hfold : ∀ regions : List Region, (∀ r' ∈ regions, r'.maxRequest = most) → regions ≠ [] →
      regions.foldr (fun r most => max r.maxRequest most) 0 = most := by
    intro regions each nonempty
    induction regions with
    | nil => exact absurd rfl nonempty
    | cons r' rest ih =>
      rw [List.foldr_cons, each r' (by simp)]
      cases rest with
      | nil => exact Nat.max_zero most
      | cons r'' rest =>
        rw [ih (fun x member => each x (by simp [member])) (by simp), Nat.max_self]
  rw [(hregions i r found).2.maxRequest]
  exact hfold s.regions hall (List.ne_nil_of_mem (List.mem_of_getElem? found))

end Store

end RegionStore
