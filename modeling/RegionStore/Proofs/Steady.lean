import Mathlib.Logic.Relation
import RegionStore.Proofs.Reachable

/-!
What a store keeps from the day it is built: the number of its regions, what it does when they are
exhausted, and the batches of its sweeps. The routing is taken on turn by turn.
-/
namespace RegionStore

variable {α β : Type}

namespace Routing

variable {p p' : Routing} {regions : Nat}

/-- One turn among so many regions: on to another region, or back to the first. -/
inductive Turn (regions : Nat) (p : Routing) : Routing → Prop
  | next (previous : Option Nat) (attempt : Nat) :
    Turn regions p (p.next previous attempt regions).2
  | reset : Turn regions p p.reset

def Turns (regions : Nat) : Routing → Routing → Prop := Relation.ReflTransGen (Turn regions)

/-- A region that is active is one of so many. -/
def Within (regions : Nat) : Routing → Prop
  | sequential active => active < regions
  | roundRobin _ _ => 0 < regions
  | fixed _ => True

theorem Within.next (h : p.Within regions) (previous : Option Nat) (attempt : Nat) :
    (p.next previous attempt regions).2.Within regions := by
  cases p with
  | sequential active =>
    have hpos : 0 < regions := Nat.zero_lt_of_lt h
    simp only [Routing.next]
    split
    · exact h
    · split
      · exact h
      · dsimp only [Within]
        split
        · exact Nat.mod_lt _ hpos
        · exact h
  | roundRobin cursor attempts =>
    simp only [Routing.next]
    split <;> exact h
  | fixed choices => exact h

theorem Within.reset (h : p.Within regions) : p.reset.Within regions := by
  cases p with
  | sequential active => exact Nat.zero_lt_of_lt h
  | roundRobin cursor attempts => exact h
  | fixed choices => exact h

theorem Within.turns (h : p.Within regions) (turns : Turns regions p p') : p'.Within regions := by
  induction turns with
  | refl => exact h
  | tail _ turn ih =>
    cases turn with
    | next previous attempt => exact ih.next previous attempt
    | reset => exact ih.reset

end Routing

namespace Store

structure Steady (s s' : Store) : Prop where
  onExhaustion : s'.onExhaustion = s.onExhaustion
  expireBatch : s'.expireBatch = s.expireBatch
  leastUsedBatch : s'.leastUsedBatch = s.leastUsedBatch
  length : s'.regions.length = s.regions.length
  routing : Routing.Turns s.regions.length s.routing s'.routing

variable {s s' : Store}

theorem Steady.of_regions {regions : List Region} (length : regions.length = s.regions.length)
    (tally : Tally) : Steady s { s with regions, tally } :=
  ⟨rfl, rfl, rfl, length, .refl⟩

theorem Steady.refl (s : Store) : Steady s s := .of_regions rfl s.tally

theorem Steady.trans {s'' : Store} (h : Steady s s') (h' : Steady s' s'') : Steady s s'' := by
  refine ⟨h'.onExhaustion.trans h.onExhaustion, h'.expireBatch.trans h.expireBatch,
    h'.leastUsedBatch.trans h.leastUsedBatch, h'.length.trans h.length, h.routing.trans ?_⟩
  rw [← h.length]
  exact h'.routing

theorem steady_setRegion (s : Store) (i : Nat) (r : Region) : Steady s (s.setRegion i r) :=
  .of_regions (length_regions_setRegion s i r) s.tally

theorem steady_onRegion (s : Store) (i : Nat) (op : Region → Outcome Region α) :
    Steady s (s.onRegion i op).2 := by
  cases found : s.regions[i]? with
  | none =>
    rw [onRegion_of_getElem?_eq_none found]
    exact .refl s
  | some r =>
    rw [onRegion_of_getElem? found]
    exact steady_setRegion s i _

theorem steady_tryRegions (now : Int) (q : Request) (budget attempt : Nat)
    (previous : Option Nat) (s : Store) :
    Steady s (tryRegions now q budget attempt previous s).2 := by
  have hexhausted (s : Store) : Steady s (s.exhausted q).2 := .of_regions rfl _
  induction budget generalizing s attempt previous with
  | zero => exact hexhausted s
  | succ budget ih =>
    rw [tryRegions]
    have hturn : Routing.Turn s.regions.length s.routing _ := .next previous attempt
    rcases hnext : s.routing.next previous attempt s.regions.length with ⟨target, routing⟩
    rw [hnext] at hturn
    have hrouted : Steady s { s with routing } := ⟨rfl, rfl, rfl, rfl, .single hturn⟩
    cases target with
    | none => exact hrouted.trans (hexhausted _)
    | some i =>
      cases found : s.regions[i]? with
      | none =>
        simp only [found]
        exact hrouted
      | some r =>
        rcases hsubmit : r.submit now q with ⟨refusal | k, r'⟩
        · have hpassed := hrouted.trans (steady_setRegion { s with routing } i r')
          simp only [found, hsubmit]
          split
          · exact hpassed.trans (ih (attempt + 1) (some i) _)
          · exact hpassed
        · simp only [found, hsubmit]
          exact hrouted.trans (.of_regions (s := { s with routing })
            (length_regions_setRegion s i r') _)

theorem steady_submit (s : Store) (now : Int) (q : Request) : Steady s (s.submit now q).2 := by
  unfold submit
  split
  · exact .refl s
  · exact steady_tryRegions now q _ 1 none s

theorem steady_release (s : Store) (k : Handle) : Steady s (s.release k).2 := by
  have hrelease := steady_onRegion s k.region (·.release k)
  unfold release
  split
  · next heq =>
    rw [heq] at hrelease
    exact hrelease
  · next heq =>
    rw [heq] at hrelease
    dsimp only
    split
    · exact hrelease.trans (.of_regions rfl _)
    · exact hrelease

theorem steady_move (s : Store) (now : Int) (k : Handle) (bytes : List UInt8) :
    Steady s (s.move now k bytes).2 := by
  unfold move
  split
  · exact .refl s
  · next old _ =>
    have hput := steady_submit s now
      ⟨.payload bytes, remainingExpiry old.lease now, old.lease.tag⟩
    unfold put
    split
    · next heq =>
      rw [heq] at hput
      exact hput
    · next heq =>
      rw [heq] at hput
      exact hput
    · next moved s₁ heq =>
      rw [heq] at hput
      have hboth := hput.trans (steady_release s₁ k)
      split
      · next heq' =>
        rw [heq'] at hboth
        exact hboth
      · next heq' =>
        rw [heq'] at hboth
        exact hboth

theorem steady_updateOrMove (s : Store) (now : Int) (k : Handle) (bytes : List UInt8) :
    Steady s (s.updateOrMove now k bytes).2 := by
  have hupdate := steady_onRegion s k.region (·.update now k bytes)
  unfold updateOrMove update
  split
  · next heq =>
    rw [heq] at hupdate
    exact hupdate
  · next heq =>
    rw [heq] at hupdate
    exact hupdate.trans (steady_move _ now k bytes)
  · next heq =>
    rw [heq] at hupdate
    exact hupdate

theorem steady_collectExpired (s : Store) (now : Int) : Steady s (s.collectExpired now).2 := by
  have hlength := (evolves_collectExpired s now).length
  unfold collectExpired at hlength ⊢
  split at hlength
  · next swept => exact .of_regions hlength s.tally
  · next swept => exact .of_regions hlength _

theorem steady_collectLeastUsed (s : Store) (now : Int) :
    Steady s (s.collectLeastUsed now).2 := by
  have hlength := (evolves_collectLeastUsed s now).length
  unfold collectLeastUsed at hlength ⊢
  split at hlength
  · next swept => exact .of_regions hlength s.tally
  · next swept => exact .of_regions hlength _

theorem steady_clear (s : Store) : Steady s s.clear :=
  ⟨rfl, rfl, rfl, List.length_map _, .single .reset⟩

theorem steady_perform (s : Store) (now : Int) (op : Op α) : Steady s (s.perform now op).2 := by
  cases op with
  | put bytes expiry tag => exact steady_submit s now _
  | reserve size expiry tag => exact steady_submit s now _
  | get k => exact steady_onRegion s k.region _
  | view k f => exact steady_onRegion s k.region _
  | edit k patch => exact steady_onRegion s k.region _
  | update k bytes => exact steady_onRegion s k.region _
  | updateOrMove k bytes => exact steady_updateOrMove s now k bytes
  | release k => exact steady_release s k
  | info k => exact .refl s
  | collectExpired => exact steady_collectExpired s now
  | collectLeastUsed => exact steady_collectLeastUsed s now
  | clear => exact steady_clear s

end Store

theorem MemorySettings.length_makeRegions {m : MemorySettings} {threshold : UInt64}
    {count first : Nat} {regions : List Region}
    (made : m.makeRegions threshold count first = .ok regions) : regions.length = count := by
  induction count generalizing first regions with
  | zero =>
    cases made
    rfl
  | succ count ih =>
    unfold makeRegions at made
    split at made
    · cases made
    · split at made
      · cases made
      · next others hothers =>
        cases made
        rw [List.length_cons, ih hothers]

namespace Store

variable {s : Store}

theorem build_eq_ok {settings : Settings} (built : build settings = .ok s) :
    s.routing = settings.routing.make ∧ 0 < s.regions.length ∧
      s.regions.length < UInt32.size := by
  unfold build buildWith at built
  split at built
  · cases built
  · next some =>
    split at built
    · cases built
    · next few =>
      split at built
      · cases built
      · split at built
        · cases built
        · next hregions =>
          cases built
          refine ⟨rfl, ?_⟩
          rw [MemorySettings.length_makeRegions hregions]
          exact ⟨Nat.pos_of_ne_zero some, Nat.lt_of_not_le few⟩

/-- The active region of a store that can come about is one of its regions. -/
theorem Reachable.within (h : s.Reachable) : s.routing.Within s.regions.length := by
  induction h with
  | build built word =>
    obtain ⟨hrouting, hpos, -⟩ := build_eq_ok built
    rw [hrouting, RoutingSettings.make]
    split <;> exact hpos
  | @perform α s h now op ih =>
    have steady := steady_perform s now op
    rw [steady.length]
    exact ih.turns steady.routing
  | onRegion h found now op ih =>
    rw [length_regions_setRegion]
    exact ih

end Store

end RegionStore
