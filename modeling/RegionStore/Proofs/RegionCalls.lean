import Mathlib.Data.List.Nodup
import RegionStore.Proofs.SweepRounds

/-!
Which operations reach which region. Whatever is asked of a store comes down to calls to its
regions, and each region is what the calls that reach it make of it.
-/
namespace RegionStore

variable {α : Type}

/-- An operation on one region, with the number of the region and a reading of the clock. -/
structure RegionCall where
  region : Nat
  now : Int
  op : Region.Op

namespace RegionCall

/-- The operations among calls that reach one region. -/
def reaching (i : Nat) (calls : List RegionCall) : List (Int × Region.Op) :=
  (calls.filter (·.region = i)).map fun c => (c.now, c.op)

variable {i : Nat} {c : RegionCall} {calls : List RegionCall}

theorem reaching_cons_self (here : c.region = i) :
    reaching i (c :: calls) = (c.now, c.op) :: reaching i calls := by
  simp [reaching, here]

theorem reaching_cons_of_ne (elsewhere : c.region ≠ i) :
    reaching i (c :: calls) = reaching i calls := by
  simp [reaching, elsewhere]

theorem reaching_append (i : Nat) (calls others : List RegionCall) :
    reaching i (calls ++ others) = reaching i calls ++ reaching i others := by
  rw [reaching, List.filter_append, List.map_append]
  rfl

/-- The same call to each of so many regions. -/
def toAll (regions : Nat) (now : Int) (op : Region.Op) : List RegionCall :=
  (List.range regions).map fun i => ⟨i, now, op⟩

theorem reaching_toAll {regions : Nat} (inside : i < regions) (now : Int) (op : Region.Op) :
    reaching i (toAll regions now op) = [(now, op)] := by
  have hrange : (List.range regions).filter (· = i) = [i] := by
    rw [List.filter_eq, List.count_eq_one_of_mem List.nodup_range (List.mem_range.2 inside)]
    rfl
  rw [reaching, toAll, List.filter_map, List.map_map]
  change ((List.range regions).filter (· = i)).map _ = _
  rw [hrange]
  rfl

end RegionCall

namespace Store

/-! ### What is called for an operation -/

/-- The regions that are asked for room, one after another, until one of them places the request or
refuses it for good. -/
def tried (now : Int) (q : Request) :
    (budget attempt : Nat) → (previous : Option Nat) → Store → List Nat
  | 0, _, _, _ => []
  | budget + 1, attempt, previous, s =>
    match s.routing.next previous attempt s.regions.length with
    | (none, _) => []
    | (some id, routing) =>
      match s.regions[id]? with
      | none => []
      | some r =>
        match r.submit now q with
        | (.ok _, _) => [id]
        | (.error refusal, r) =>
          if refusal.isRetryable then
            id :: tried now q budget (attempt + 1) (some id) { s.setRegion id r with routing }
          else [id]

/-- A request that could never be met is refused before any region is asked. -/
def callsOfSubmit (s : Store) (now : Int) (q : Request) : List RegionCall :=
  match q.refusal? s.maxRequest with
  | some _ => []
  | none => (tried now q (s.routing.attemptLimit s.regions.length) 1 none s).map
      fun i => ⟨i, now, .submit q⟩

def callsOfMove (s : Store) (now : Int) (k : Handle) (bytes : List UInt8) : List RegionCall :=
  match s.info k with
  | .error _ => []
  | .ok old =>
    let q : Request := ⟨.payload bytes, remainingExpiry old.lease now, old.lease.tag⟩
    s.callsOfSubmit now q ++
      match (s.submit now q).1 with
      | .ok (some _) => [⟨k.region, now, .release k⟩]
      | _ => []

def callsOfOp (s : Store) (now : Int) : Op α → List RegionCall
  | .put bytes expiry tag => s.callsOfSubmit now ⟨.payload bytes, expiry, tag⟩
  | .reserve size expiry tag => s.callsOfSubmit now ⟨.reserved size, expiry, tag⟩
  | .get k => [⟨k.region, now, .view k fun bytes => bytes⟩]
  | .view k _ => [⟨k.region, now, .view k fun bytes => bytes⟩]
  | .edit k patch => [⟨k.region, now, .edit k patch.silent⟩]
  | .update k bytes => [⟨k.region, now, .update k bytes⟩]
  | .updateOrMove k bytes => ⟨k.region, now, .update k bytes⟩ ::
      match s.update now k bytes with
      | (.error (.capacityExceeded _ _), s) => s.callsOfMove now k bytes
      | _ => []
  | .release k => [⟨k.region, now, .release k⟩]
  | .info _ => []
  | .collectExpired => RegionCall.toAll s.regions.length now (.collectExpired s.expireBatch)
  | .collectLeastUsed => RegionCall.toAll s.regions.length now (.collectLeastUsed s.leastUsedBatch)
  | .clear => RegionCall.toAll s.regions.length now .clear

def callsOf (s : Store) (now : Int) : Command α → List RegionCall
  | .ask op => s.callsOfOp now op
  | .inRegion i op => [⟨i, now, op⟩]

def callsAlong (s : Store) : List (Int × Command α) → List RegionCall
  | [] => []
  | (now, step) :: rest => s.callsOf now step ++ (s.take now step).2.callsAlong rest

/-- The operations that reach a region along a run. -/
def callsTo (i : Nat) (s : Store) (steps : List (Int × Command α)) : List (Int × Region.Op) :=
  RegionCall.reaching i (s.callsAlong steps)

/-! ### Regions are what calls make of them -/

/-- Each region has gone through the calls that reach it, and through nothing else. -/
def Served (s : Store) (calls : List RegionCall) (s' : Store) : Prop :=
  ∀ i : Nat, s'.regions[i]? = (s.regions[i]?).map (·.run (RegionCall.reaching i calls))

variable {s s' s'' : Store} {calls others : List RegionCall} {i : Nat} {r r' : Region} {now : Int}

theorem served_of_same (same : s'.regions = s.regions) : Served s [] s' := by
  intro i
  rw [same]
  exact Option.map_id_apply.symm

theorem Served.congr (h : Served s calls s') (same : s''.regions = s'.regions) :
    Served s calls s'' := by
  intro i
  rw [same]
  exact h i

theorem Served.trans (h : Served s calls s') (h' : Served s' others s'') :
    Served s (calls ++ others) s'' := by
  intro i
  rw [h' i, h i, Option.map_map, RegionCall.reaching_append]
  refine congrArg (Option.map · s.regions[i]?) (funext fun r => ?_)
  exact (Region.run_append r _ _).symm

theorem served_setRegion (found : s.regions[i]? = some r) (now : Int) (op : Region.Op) :
    Served s [⟨i, now, op⟩] (s.setRegion i (r.step now op)) := by
  intro j
  by_cases here : i = j
  · subst here
    have hcall : RegionCall.reaching i [⟨i, now, op⟩] = [(now, op)] :=
      RegionCall.reaching_cons_self rfl
    rw [hcall, found]
    exact List.getElem?_set_self (List.getElem?_eq_some_iff.1 found).1
  · rw [RegionCall.reaching_cons_of_ne here, regions_setRegion_of_ne here]
    exact Option.map_id_apply.symm

theorem served_missing (missing : s.regions[i]? = none) (now : Int) (op : Region.Op) :
    Served s [⟨i, now, op⟩] s := by
  intro j
  by_cases here : i = j
  · subst here
    rw [missing]
    rfl
  · rw [RegionCall.reaching_cons_of_ne here]
    exact Option.map_id_apply.symm

theorem served_onRegion {op : Region → Outcome Region α} {call : Region.Op}
    (each : ∀ r : Region, (op r).2 = r.step now call) (s : Store) (i : Nat) :
    Served s [⟨i, now, call⟩] (s.onRegion i op).2 := by
  cases found : s.regions[i]? with
  | none =>
    rw [onRegion_of_getElem?_eq_none found]
    exact served_missing found now call
  | some r =>
    rw [onRegion_of_getElem? found, each]
    exact served_setRegion found now call

theorem served_toAll {op : Region.Op} (each : s'.regions = s.regions.map (·.step now op)) :
    Served s (RegionCall.toAll s.regions.length now op) s' := by
  intro i
  rw [each, List.getElem?_map]
  cases found : s.regions[i]? with
  | none => rfl
  | some r =>
    rw [RegionCall.reaching_toAll (List.getElem?_eq_some_iff.1 found).1]
    rfl

/-! ### Requests -/

theorem served_tryRegions (now : Int) (q : Request) (budget attempt : Nat)
    (previous : Option Nat) (s : Store) :
    Served s ((tried now q budget attempt previous s).map fun i => ⟨i, now, .submit q⟩)
      (tryRegions now q budget attempt previous s).2 := by
  induction budget generalizing s attempt previous with
  | zero => exact served_of_same rfl
  | succ budget ih =>
    rw [tryRegions, tried]
    rcases s.routing.next previous attempt s.regions.length with ⟨target, routing⟩
    cases target with
    | none => exact served_of_same rfl
    | some i =>
      cases found : s.regions[i]? with
      | none =>
        simp only [found]
        exact served_of_same rfl
      | some r =>
        have served := served_setRegion found now (.submit q)
        change Served s _ (s.setRegion i (r.submit now q).2) at served
        rcases hsubmit : r.submit now q with ⟨refusal | k, r'⟩
        · rw [hsubmit] at served
          have passed : Served s _ { s.setRegion i r' with routing } := served.congr rfl
          simp only [found, hsubmit]
          split
          · exact passed.trans (ih (attempt + 1) (some i) _)
          · exact passed
        · rw [hsubmit] at served
          simp only [found, hsubmit]
          exact served.congr rfl

theorem served_submit (s : Store) (now : Int) (q : Request) :
    Served s (s.callsOfSubmit now q) (s.submit now q).2 := by
  unfold submit callsOfSubmit
  cases q.refusal? s.maxRequest with
  | some refusal => exact served_of_same rfl
  | none => exact served_tryRegions now q _ 1 none s

theorem served_release (s : Store) (now : Int) (k : Handle) :
    Served s [⟨k.region, now, .release k⟩] (s.release k).2 := by
  have served : Served s [⟨k.region, now, .release k⟩] (s.onRegion k.region (·.release k)).2 :=
    served_onRegion (fun _ => rfl) s k.region
  unfold release
  split
  · next heq =>
    rw [heq] at served
    exact served
  · next heq =>
    rw [heq] at served
    dsimp only
    split
    · exact served.congr rfl
    · exact served

theorem served_move (s : Store) (now : Int) (k : Handle) (bytes : List UInt8) :
    Served s (s.callsOfMove now k bytes) (s.move now k bytes).2 := by
  unfold move callsOfMove
  cases s.info k with
  | error refusal => exact served_of_same rfl
  | ok old =>
    have served := served_submit s now
      ⟨.payload bytes, remainingExpiry old.lease now, old.lease.tag⟩
    simp only [put]
    generalize s.submit now _ = answer at served
    obtain ⟨refusal | placed, s₁⟩ := answer
    · rw [List.append_nil]
      exact served
    · cases placed with
      | none =>
        rw [List.append_nil]
        exact served
      | some moved =>
        have both := served.trans (served_release s₁ now k)
        dsimp only
        split
        · next heq =>
          rw [heq] at both
          exact both
        · next heq =>
          rw [heq] at both
          exact both

theorem served_updateOrMove (s : Store) (now : Int) (k : Handle) (bytes : List UInt8) :
    Served s (s.callsOfOp now (.updateOrMove k bytes : Op α)) (s.updateOrMove now k bytes).2 := by
  have served : Served s [⟨k.region, now, .update k bytes⟩] (s.update now k bytes).2 :=
    served_onRegion (fun _ => rfl) s k.region
  unfold updateOrMove
  simp only [callsOfOp]
  generalize s.update now k bytes = answer at served
  obtain ⟨refusal | k', s₁⟩ := answer
  · cases refusal with
    | capacityExceeded requested room => exact served.trans (served_move s₁ now k bytes)
    | _ => exact served
  · exact served

/-! ### Sweeps -/

/-- No sweep is refused, so that every region has its turn. -/
theorem Regular.served_sweep (h : s.Regular) {sweep : Region → Outcome Region Nat}
    {call : Region.Op} (same : ∀ r : Region, (sweep r).2 = r.step now call)
    (each : ∀ r : Region, r.Sound → ∃ freed, (sweep r).1 = .ok freed)
    (swept : s'.regions = (sweepRegions sweep s.regions).2) :
    Served s (RegionCall.toAll s.regions.length now call) s' := by
  have hsweep : ∀ r ∈ s.regions,
      sweep r = (.ok ((sweep r).1.toOption.getD 0), r.step now call) := by
    intro r member
    obtain ⟨i, found⟩ := List.getElem?_of_mem member
    obtain ⟨freed, hfreed⟩ := each r (h.sound i r found).1
    exact Prod.ext (by rw [hfreed]; rfl) (same r)
  apply served_toAll
  rw [swept, sweepRegions_eq_map hsweep]

theorem Regular.served_collectExpired (h : s.Regular) (now : Int) :
    Served s (RegionCall.toAll s.regions.length now (.collectExpired s.expireBatch))
      (s.collectExpired now).2 := by
  refine h.served_sweep (fun _ => rfl) (fun r sound => ?_)
    (show _ = (sweepRegions (·.collectExpired s.expireBatch now) s.regions).2 from ?_)
  · obtain ⟨freed, r', hcollect, -⟩ := sound.collectExpired s.expireBatch now
    exact ⟨freed, congrArg Prod.fst hcollect⟩
  · unfold collectExpired
    split
    · next swept => rw [swept]
    · next swept => rw [swept]

theorem Regular.served_collectLeastUsed (h : s.Regular) (now : Int) :
    Served s (RegionCall.toAll s.regions.length now (.collectLeastUsed s.leastUsedBatch))
      (s.collectLeastUsed now).2 := by
  refine h.served_sweep (fun _ => rfl) (fun r sound => ?_)
    (show _ = (sweepRegions (·.collectLeastUsed s.leastUsedBatch now) s.regions).2 from ?_)
  · obtain ⟨freed, r', hcollect, -⟩ := sound.collectLeastUsed s.leastUsedBatch now
    exact ⟨freed, congrArg Prod.fst hcollect⟩
  · unfold collectLeastUsed
    split
    · next swept => rw [swept]
    · next swept => rw [swept]

/-! ### Runs -/

theorem Regular.served_perform (h : s.Regular) (now : Int) (op : Op α) :
    Served s (s.callsOfOp now op) (s.perform now op).2 := by
  cases op with
  | put bytes expiry tag => exact served_submit s now _
  | reserve size expiry tag => exact served_submit s now _
  | get k => exact served_onRegion (fun r => r.view_eq_step now k _) s k.region
  | view k f => exact served_onRegion (fun r => r.view_eq_step now k f) s k.region
  | edit k patch => exact served_onRegion (fun r => r.edit_eq_step now k patch) s k.region
  | update k bytes => exact served_onRegion (fun _ => rfl) s k.region
  | updateOrMove k bytes => exact served_updateOrMove s now k bytes
  | release k => exact served_release s now k
  | info k => exact served_of_same rfl
  | collectExpired => exact h.served_collectExpired now
  | collectLeastUsed => exact h.served_collectLeastUsed now
  | clear => exact served_toAll rfl

theorem Regular.served_take (h : s.Regular) (now : Int) (step : Command α) :
    Served s (s.callsOf now step) (s.take now step).2 := by
  cases step with
  | ask op => exact h.served_perform now op
  | inRegion i op =>
    cases found : s.regions[i]? with
    | none =>
      simp only [take, found]
      exact served_missing found now op
    | some r =>
      simp only [take, found, Region.perform_snd]
      exact served_setRegion found now op

/-- After any run of a store each region is what the calls that reached it have made of it. -/
theorem Regular.served_run (h : s.Regular) (steps : List (Int × Command α)) :
    Served s (s.callsAlong steps) (s.run steps).2 := by
  induction steps generalizing s with
  | nil => exact served_of_same rfl
  | cons head rest ih =>
    obtain ⟨now, step⟩ := head
    exact (h.served_take now step).trans (ih (h.evolves (evolves_take s now step)))

end Store

end RegionStore
