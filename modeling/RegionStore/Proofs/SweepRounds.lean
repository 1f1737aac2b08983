import Mathlib.Logic.Function.Iterate
import RegionStore.Proofs.Reachable
import RegionStore.Proofs.Staleness
import RegionStore.Proofs.Steady
import RegionStore.Proofs.Sweeps
import RegionStore.Store.Sweep

/-!
Rounds of sweeps while the clock stands still. A round takes what has expired from every region and
then, from a region in shortage, a batch of what is used least. Any region needs that once at most,
and every round but the last frees something, so that the rounds come to rest.
-/
namespace RegionStore

namespace Region

variable {r r' r'' : Region} {picked picked' : List Snapshot} {freed freed' most : Nat}

theorem swept_nil (r : Region) : Swept r [] 0 r :=
  ⟨.refl _, .refl _, rfl, rfl, nofun,
    fun _ hx => ⟨info_of_mem_live hx, info_of_mem_live hx, fun _ => rfl⟩⟩

theorem Swept.trans (h : Swept r picked freed r') (h' : Swept r' picked' freed' r'')
    (same : r''.id = r'.id) : Swept r (picked ++ picked') (freed + freed') r'' := by
  refine ⟨?_, h'.order.trans h.order, ?_, ?_, fun x hx => ?_, fun x hx => ?_⟩
  · rw [List.append_assoc]
    exact h.split.trans (h'.split.append_left picked)
  · rw [List.map_append, Span.total_append, h.total, h'.total]
  · have := h.used
    have := h'.used
    omega
  · rcases List.mem_append.1 hx with hx | hx
    · -- what the first sweep has released stays stale
      have hgone := h.gone x hx
      have own : x.handle.region = r'.id := by
        by_contra foreign
        rw [Region.info, SlotTable.checked_eq_error_iff.2 (Or.inl ⟨foreign, rfl⟩)] at hgone
        cases hgone
      refine (stale_of_not_live (own.trans same.symm) fun alive => ?_).info
      obtain ⟨y, hy, hhandle⟩ := live_iff_mem.1 alive
      have hinfo := info_of_mem_live (h'.order.subset hy)
      rw [hhandle, hgone] at hinfo
      cases hinfo
    · exact h'.gone x hx
  · obtain ⟨hafter, hbetween, hbytes'⟩ := h'.kept x hx
    obtain ⟨-, hbefore, hbytes⟩ := h.kept x (h'.order.subset hx)
    exact ⟨hafter, hbefore, fun t => (hbytes' t).trans (hbytes t)⟩

/-- The order in which payloads are picked does not matter. -/
theorem Swept.perm (h : Swept r picked freed r') (perm : picked.Perm picked') :
    Swept r picked' freed r' :=
  ⟨h.split.trans (perm.append_right _), h.order,
    h.total.trans (Span.total_perm (perm.map (·.span))), h.used,
    fun x hx => h.gone x (perm.mem_iff.2 hx), h.kept⟩

theorem Swept.picked_eq_nil (h : Swept r picked 0 r') : picked = [] := by
  cases picked with
  | nil => rfl
  | cons x rest =>
    have htotal := h.total
    rw [List.map_cons, Span.total_cons] at htotal
    have := x.span.size_pos
    omega

/-! ### One round in a region -/

section Rounds

variable (expireBatch leastUsedBatch : Nat) (now : Int)

/-- What a round of sweeps leaves of a region. -/
def round (r : Region) : Region :=
  ((r.collectExpired expireBatch now).2.collectLeastUsed leastUsedBatch now).2

def afterRounds (r : Region) (n : Nat) : Region := (round expireBatch leastUsedBatch now)^[n] r

/-- The region in the middle of a round, after so many whole ones. -/
def midRound (r : Region) (n : Nat) : Region :=
  ((r.afterRounds expireBatch leastUsedBatch now n).collectExpired expireBatch now).2

/-- The payloads that an expiration sweep takes. -/
def expired (r : Region) : List Snapshot :=
  (r.lapsed now).take expireBatch ++ (r.overdue now).take expireBatch

/-- A sweep for room finds nothing to do. -/
def AtEase (r : Region) : Prop := r.collectLeastUsed leastUsedBatch now = (.ok 0, r)

/-- What has been evicted for room over so many rounds: nothing, or one batch in one of them, which
has ended the shortage for good. -/
def EvictedOnce (r : Region) (n : Nat) (evicted : List Snapshot) : Prop :=
  (evicted = [] ∧
    ∀ k < n, (r.midRound expireBatch leastUsedBatch now k).AtEase leastUsedBatch now) ∨
  ∃ j < n, evicted = (r.midRound expireBatch leastUsedBatch now j).victims leastUsedBatch now ∧
    (∀ k < n, k ≠ j →
      (r.midRound expireBatch leastUsedBatch now k).AtEase leastUsedBatch now) ∧
    (r.afterRounds expireBatch leastUsedBatch now n).inShortage = false

variable {expireBatch leastUsedBatch now}

theorem isExpired_of_mem_expired {x : Snapshot} (h : x ∈ r.expired expireBatch now) :
    x.lease.isExpired now = true := by
  rw [Lease.isExpired, Bool.or_eq_true]
  rcases List.mem_append.1 h with h | h
  · exact Or.inl (List.mem_filter.1 (List.mem_of_mem_take h)).2
  · exact Or.inr (List.mem_filter.1 (List.mem_of_mem_take h)).2

theorem not_isExpired_of_expired_eq_nil (h : r.expired expireBatch now = [])
    (positive : 1 ≤ expireBatch) {x : Snapshot} (live : x ∈ r.live) :
    x.lease.isExpired now = false := by
  obtain ⟨hlapsed, hoverdue⟩ := List.append_eq_nil_iff.1 h
  have hempty (xs : List Snapshot) (taken : xs.take expireBatch = []) : xs = [] :=
    (List.take_eq_nil_iff.1 taken).resolve_left (by omega)
  rw [Lease.isExpired, Bool.or_eq_false_iff]
  exact ⟨eq_false_of_ne_true (List.filter_eq_nil_iff.1 (hempty _ hlapsed) x live),
    eq_false_of_ne_true (List.filter_eq_nil_iff.1 (hempty _ hoverdue) x live)⟩

theorem Regular.collectExpired_of_nil (h : r.Regular most)
    (none : r.expired expireBatch now = []) : r.collectExpired expireBatch now = (.ok 0, r) := by
  rw [Region.collectExpired, h.expiredBatch_eq, ← expired, none]
  rfl

theorem Regular.round (h : r.Regular most) :
    (r.round expireBatch leastUsedBatch now).Regular most :=
  h.run [(now, .collectExpired expireBatch), (now, .collectLeastUsed leastUsedBatch)]

theorem Regular.round_id (h : r.Regular most) :
    (r.round expireBatch leastUsedBatch now).id = r.id :=
  (h.sound.run [(now, .collectExpired expireBatch), (now, .collectLeastUsed leastUsedBatch)]).id

variable (expireBatch leastUsedBatch now)

theorem Regular.sweptExpired (h : r.Regular most) :
    ∃ freed r', r.collectExpired expireBatch now = (.ok freed, r') ∧ r'.Regular most ∧
      Swept r (r.expired expireBatch now) freed r' ∧ r'.inShortage = r.inShortage := by
  obtain ⟨freed, r', hcollect, regular', shed, used, husage⟩ := h.collectExpired expireBatch now
  refine ⟨freed, r', hcollect, regular', shed.swept h regular'
    (fun x hx => Regular.mem_live_of_mem_expired hx) (h.nodup_expired expireBatch now), ?_⟩
  rw [Region.inShortage, husage]
  rfl

/-- A sweep for room either has nothing to do or ends a shortage. -/
theorem Regular.sweptLeastUsed (h : r.Regular most) :
    (r.AtEase leastUsedBatch now ∧ (r.inShortage = false ∨ r.live = [])) ∨
    ∃ freed r', r.collectLeastUsed leastUsedBatch now = (.ok freed, r') ∧
      Swept r (r.victims leastUsedBatch now) freed r' ∧ 0 < freed ∧ r'.inShortage = false := by
  cases short : r.inShortage with
  | false =>
    refine Or.inl ⟨?_, Or.inl rfl⟩
    rw [AtEase, Region.collectLeastUsed, short]
    rfl
  | true =>
    by_cases none : r.live = []
    · refine Or.inl ⟨?_, Or.inr none⟩
      rw [AtEase, Region.collectLeastUsed, short, none]
      rfl
    · obtain ⟨freed, r', hcollect, swept, hpos, hfailures⟩ :=
        h.collectLeastUsed short none leastUsedBatch now
      refine Or.inr ⟨freed, r', hcollect, swept, hpos, ?_⟩
      rw [Region.inShortage, Usage.inShortage, hfailures]
      exact decide_eq_false UInt64.not_lt_zero

theorem Regular.freesExpired (h : r.Regular most) :
    ∃ freed r', r.collectExpired expireBatch now = (.ok freed, r') ∧ r'.used + freed = r.used := by
  obtain ⟨freed, r', hcollect, -, swept, -⟩ := h.sweptExpired expireBatch now
  exact ⟨freed, r', hcollect, swept.used⟩

theorem Regular.freesLeastUsed (h : r.Regular most) :
    ∃ freed r', r.collectLeastUsed leastUsedBatch now = (.ok freed, r') ∧
      r'.used + freed = r.used := by
  rcases h.sweptLeastUsed leastUsedBatch now with ⟨ease, -⟩ | ⟨freed, r', hcollect, swept, -⟩
  · exact ⟨0, r, ease, rfl⟩
  · exact ⟨freed, r', hcollect, swept.used⟩

theorem afterRounds_succ (r : Region) (n : Nat) :
    r.afterRounds expireBatch leastUsedBatch now (n + 1) =
      (r.afterRounds expireBatch leastUsedBatch now n).round expireBatch leastUsedBatch now :=
  Function.iterate_succ_apply' _ n r

theorem Regular.afterRounds (h : r.Regular most) (n : Nat) :
    (r.afterRounds expireBatch leastUsedBatch now n).Regular most := by
  induction n with
  | zero => exact h
  | succ n ih =>
    rw [afterRounds_succ]
    exact ih.round

/-- What a round takes: expired payloads first, and then a batch if the region is in shortage. -/
theorem Regular.sweptRound (h : r.Regular most) : ∃ evicted freed,
    Swept r (r.expired expireBatch now ++ evicted) freed
      (r.round expireBatch leastUsedBatch now) ∧
    ((evicted = [] ∧ (r.collectExpired expireBatch now).2.AtEase leastUsedBatch now ∧
        (r.round expireBatch leastUsedBatch now).inShortage = r.inShortage) ∨
      (evicted = (r.collectExpired expireBatch now).2.victims leastUsedBatch now ∧
        r.inShortage = true ∧ (r.round expireBatch leastUsedBatch now).inShortage = false)) := by
  obtain ⟨freed, r₁, hexpired, regular₁, swept, hshort⟩ :=
    h.sweptExpired expireBatch now
  have hround : r.round expireBatch leastUsedBatch now =
      (r₁.collectLeastUsed leastUsedBatch now).2 := by
    rw [Region.round, hexpired]
  rw [hexpired, hround]
  rcases regular₁.sweptLeastUsed leastUsedBatch now with
    ⟨hidle, -⟩ | ⟨freed', r₂, hcollect, swept', hpos, hcalm⟩
  · refine ⟨[], freed, ?_, Or.inl ⟨rfl, hidle, ?_⟩⟩
    · rw [List.append_nil, show _ = _ from hidle]
      exact swept
    · rw [show _ = _ from hidle]
      exact hshort
  · have same : r₂.id = r₁.id := by
      have := (regular₁.sound.turn now (.collectLeastUsed leastUsedBatch)).keeps.id
      rwa [Region.step, hcollect] at this
    refine ⟨_, freed + freed', ?_, Or.inr ⟨rfl, ?_, ?_⟩⟩
    · rw [hcollect]
      exact swept.trans swept' same
    · rw [← hshort]
      cases short : r₁.inShortage with
      | true => rfl
      | false =>
        rw [Region.collectLeastUsed, short] at hcollect
        cases hcollect
        exact absurd hpos (Nat.lt_irrefl 0)
    · rw [hcollect]
      exact hcalm

/-- What so many rounds take from a region: payloads that have expired, and one batch at most. -/
theorem Regular.sweptRounds (h : r.Regular most) (n : Nat) : ∃ expired evicted freed,
    Swept r (expired ++ evicted) freed (r.afterRounds expireBatch leastUsedBatch now n) ∧
    (∀ x ∈ expired, x.lease.isExpired now = true) ∧
    r.EvictedOnce expireBatch leastUsedBatch now n evicted := by
  induction n with
  | zero => exact ⟨[], [], 0, r.swept_nil, nofun, Or.inl ⟨rfl, nofun⟩⟩
  | succ n ih =>
    obtain ⟨expired, evicted, freed, swept, hexpired, once⟩ := ih
    have regular := h.afterRounds expireBatch leastUsedBatch now n
    obtain ⟨evicted', freed', swept', hround⟩ :=
      regular.sweptRound expireBatch leastUsedBatch now
    have hnext := r.afterRounds_succ expireBatch leastUsedBatch now n
    have hboth := swept.trans swept' regular.round_id
    rw [← hnext] at hboth hround
    refine ⟨expired ++ (r.afterRounds expireBatch leastUsedBatch now n).expired expireBatch now,
      evicted ++ evicted', freed + freed', hboth.perm ?_, ?_, ?_⟩
    · rw [List.append_assoc, List.append_assoc]
      refine List.Perm.append_left expired ?_
      rw [← List.append_assoc, ← List.append_assoc]
      exact List.perm_append_comm.append_right evicted'
    · intro x hx
      exact (List.mem_append.1 hx).elim (hexpired x) isExpired_of_mem_expired
    · have hlast {k : Nat} (bound : k < n + 1) : k < n ∨ k = n := by omega
      rcases hround with ⟨rfl, ease, hshort⟩ | ⟨rfl, short, calm⟩
      · rw [List.append_nil]
        rcases once with ⟨rfl, each⟩ | ⟨j, hj, hevicted, each, calm⟩
        · refine Or.inl ⟨rfl, fun k bound => ?_⟩
          rcases hlast bound with bound | rfl
          · exact each k bound
          · exact ease
        · refine Or.inr ⟨j, by omega, hevicted, fun k bound other => ?_, hshort.trans calm⟩
          rcases hlast bound with bound | rfl
          · exact each k bound other
          · exact ease
      · rcases once with ⟨rfl, each⟩ | ⟨j, hj, hevicted, each, calm'⟩
        · refine Or.inr ⟨n, by omega, rfl, fun k bound other => ?_, calm⟩
          exact each k (by omega)
        · rw [calm'] at short
          cases short

variable {expireBatch leastUsedBatch now} in
/-- A round that frees nothing changes nothing, and there is nothing left for it to do. -/
theorem Regular.eq_of_round (h : r.Regular most)
    (idle : r.used - (r.round expireBatch leastUsedBatch now).used = 0) :
    r.round expireBatch leastUsedBatch now = r ∧
      (1 ≤ expireBatch → ∀ x ∈ r.live, x.lease.isExpired now = false) ∧
      (r.inShortage = false ∨ r.live = []) := by
  obtain ⟨freed, r₁, hexpired, regular₁, swept, hshort⟩ :=
    h.sweptExpired expireBatch now
  have hround : r.round expireBatch leastUsedBatch now =
      (r₁.collectLeastUsed leastUsedBatch now).2 := by
    rw [Region.round, hexpired]
  have hused := swept.used
  rw [hround] at idle ⊢
  rcases regular₁.sweptLeastUsed leastUsedBatch now with
    ⟨ease, none⟩ | ⟨freed', r₂, hcollect, swept', hpos, -⟩
  · rw [show _ = _ from ease] at idle ⊢
    obtain rfl : freed = 0 := by dsimp only at idle; omega
    have hnil := swept.picked_eq_nil
    rw [h.collectExpired_of_nil hnil] at hexpired
    cases hexpired
    exact ⟨rfl, fun positive x live => not_isExpired_of_expired_eq_nil hnil positive live, none⟩
  · have := swept'.used
    rw [hcollect] at idle
    dsimp only at idle
    omega

end Rounds

end Region

namespace Store

variable {s s' : Store} {now : Int}

/-- The regions of a store in good order. -/
theorem Regular.of_mem (h : s.Regular) {r : Region} (member : r ∈ s.regions) :
    ∃ most, r.Regular most := by
  obtain ⟨most, hregions⟩ := h.regions
  obtain ⟨i, found⟩ := List.getElem?_of_mem member
  exact ⟨most, (hregions i r found).2⟩

/-- Sweeping each region by itself, as long as none of them refuses. -/
theorem sweepRegions_eq_map {sweep : Region → Outcome Region Nat} {bytes : Region → Nat}
    {next : Region → Region} {regions : List Region}
    (each : ∀ r ∈ regions, sweep r = (.ok (bytes r), next r)) :
    sweepRegions sweep regions = (.ok (regions.map bytes).sum, regions.map next) := by
  induction regions with
  | nil => rfl
  | cons r rest ih =>
    have hrest := ih fun r' member => each r' (List.mem_cons_of_mem r member)
    simp only [sweepRegions, each r List.mem_cons_self, hrest, List.map_cons, List.sum_cons]

/-- What the regions free adds up to what the store loses. -/
theorem sweepRegions_of_frees {sweep : Region → Outcome Region Nat} {regions : List Region}
    (each : ∀ r ∈ regions, ∃ freed r', sweep r = (.ok freed, r') ∧ r'.used + freed = r.used) :
    ∃ freed, sweepRegions sweep regions = (.ok freed, regions.map fun r => (sweep r).2) ∧
      (regions.map fun r => (sweep r).2).foldr (fun r total => r.used + total) 0 + freed =
        regions.foldr (fun r total => r.used + total) 0 := by
  induction regions with
  | nil => exact ⟨0, rfl, rfl⟩
  | cons r rest ih =>
    obtain ⟨others, hrest, hothers⟩ := ih fun r' member => each r' (List.mem_cons_of_mem r member)
    obtain ⟨freed, r', hsweep, hused⟩ := each r List.mem_cons_self
    refine ⟨freed + others, ?_, ?_⟩
    · simp only [sweepRegions, hsweep, hrest, List.map_cons]
    · simp only [List.map_cons, List.foldr_cons, hsweep]
      omega

/-- What the regions lose adds up to what the store loses. -/
theorem sum_used_sub (regions : List Region) (next : Region → Region)
    (less : ∀ r ∈ regions, (next r).used ≤ r.used) :
    (regions.map fun r => r.used - (next r).used).sum +
        (regions.map next).foldr (fun r total => r.used + total) 0 =
      regions.foldr (fun r total => r.used + total) 0 := by
  induction regions with
  | nil => rfl
  | cons r rest ih =>
    have hrest := ih fun r' member => less r' (List.mem_cons_of_mem r member)
    have := less r List.mem_cons_self
    simp only [List.map_cons, List.sum_cons, List.foldr_cons]
    omega

/-- The bytes in use are those of the live ranges. -/
theorem Regular.used_eq_total (h : s.Regular) : s.used = Span.total (s.live.map (·.span)) := by
  have hall : ∀ regions : List Region, (∀ r ∈ regions, ∃ most, r.Regular most) →
      regions.foldr (fun r total => r.used + total) 0 =
        Span.total ((regions.flatMap (·.live)).map (·.span)) := by
    intro regions regular
    induction regions with
    | nil => rfl
    | cons r rest ih =>
      obtain ⟨most, hr⟩ := regular r List.mem_cons_self
      rw [List.foldr_cons, List.flatMap_cons, List.map_append, Span.total_append, hr.used_eq,
        ih fun r' member => regular r' (List.mem_cons_of_mem r member)]
      rfl
  exact hall s.regions fun r member => h.of_mem member

/-! ### One sweep -/

/-- No region refuses a sweep of what has expired, which counts the bytes that come free. -/
theorem Regular.collectsExpired (h : s.Regular) (now : Int) : ∃ freed s',
    s.collectExpired now = (.ok freed, s') ∧ s'.used + freed = s.used ∧
    s' = { s with
      regions := s.regions.map fun r => (r.collectExpired s.expireBatch now).2
      tally := { s.tally with expiredBytes := s.tally.expiredBytes + freed } } := by
  have each : ∀ r ∈ s.regions, ∃ freed r', r.collectExpired s.expireBatch now = (.ok freed, r') ∧
      r'.used + freed = r.used := fun r member => by
    obtain ⟨most, regular⟩ := h.of_mem member
    exact regular.freesExpired s.expireBatch now
  obtain ⟨freed, hswept, hused⟩ := sweepRegions_of_frees each
  refine ⟨freed, _, ?_, ?_, rfl⟩
  · simp only [Store.collectExpired, hswept]
  · exact hused

theorem Regular.collectsLeastUsed (h : s.Regular) (now : Int) : ∃ freed s',
    s.collectLeastUsed now = (.ok freed, s') ∧ s'.used + freed = s.used ∧
    s' = { s with
      regions := s.regions.map fun r => (r.collectLeastUsed s.leastUsedBatch now).2
      tally := { s.tally with leastUsedBytes := s.tally.leastUsedBytes + freed } } := by
  have each : ∀ r ∈ s.regions, ∃ freed r', r.collectLeastUsed s.leastUsedBatch now = (.ok freed, r') ∧
      r'.used + freed = r.used := fun r member => by
    obtain ⟨most, regular⟩ := h.of_mem member
    exact regular.freesLeastUsed s.leastUsedBatch now
  obtain ⟨freed, hswept, hused⟩ := sweepRegions_of_frees each
  refine ⟨freed, _, ?_, ?_, rfl⟩
  · simp only [Store.collectLeastUsed, hswept]
  · exact hused

/-! ### One round -/

/-- The store after so many rounds while the clock stands still. -/
def afterRounds (s : Store) (now : Int) (n : Nat) : Store := (fun s => (s.sweepRound now).2)^[n] s

/-- What the two sweeps of a round free, each of which is done by every region. -/
structure Round (s : Store) (now : Int) (expired leastUsed : Nat) (s₁ s₂ : Store) : Prop where
  collectExpired : s.collectExpired now = (.ok expired, s₁)
  collectLeastUsed : s₁.collectLeastUsed now = (.ok leastUsed, s₂)

theorem Round.sweepRound {expired leastUsed : Nat} {s₁ s₂ : Store}
    (h : Round s now expired leastUsed s₁ s₂) :
    s.sweepRound now = (expired + leastUsed, s₂) := by
  simp only [Store.sweepRound, h.collectExpired, h.collectLeastUsed]
  rfl

/-- No region refuses a round. -/
theorem Regular.round (h : s.Regular) (now : Int) : ∃ expired leastUsed s₁ s₂,
    Round s now expired leastUsed s₁ s₂ ∧
    s₂.regions = s.regions.map (Region.round s.expireBatch s.leastUsedBatch now) ∧
    s₂.used + (expired + leastUsed) = s.used ∧
    (s₂.regions = s.regions → expired + leastUsed = 0 → s₂ = s) := by
  obtain ⟨expired, s₁, hexpired, hused₁, hs₁⟩ := h.collectsExpired now
  have regular₁ : s₁.Regular := by
    have := h.evolves (evolves_collectExpired s now)
    rwa [hexpired] at this
  obtain ⟨leastUsed, s₂, hleastUsed, hused₂, hs₂⟩ := regular₁.collectsLeastUsed now
  refine ⟨expired, leastUsed, s₁, s₂, ⟨hexpired, hleastUsed⟩, ?_, by omega, fun same none => ?_⟩
  · rw [hs₂, hs₁]
    exact List.map_map
  · obtain ⟨rfl, rfl⟩ := Nat.add_eq_zero_iff.1 none
    subst hs₁ hs₂
    dsimp only at same ⊢
    rw [same]
    rfl

theorem evolves_sweepRound (s : Store) (now : Int) : Evolves s (s.sweepRound now).2 :=
  (evolves_collectExpired s now).trans (evolves_collectLeastUsed _ now)

theorem steady_sweepRound (s : Store) (now : Int) : Steady s (s.sweepRound now).2 :=
  (steady_collectExpired s now).trans (steady_collectLeastUsed _ now)

theorem Regular.regions_sweepRound (h : s.Regular) (now : Int) :
    (s.sweepRound now).2.regions =
        s.regions.map (Region.round s.expireBatch s.leastUsedBatch now) ∧
      (s.sweepRound now).2.used + (s.sweepRound now).1 = s.used := by
  obtain ⟨expired, leastUsed, s₁, s₂, round, hregions, hused, -⟩ := h.round now
  rw [round.sweepRound]
  exact ⟨hregions, hused⟩

/-- A round that frees nothing changes nothing, and there is nothing left to do. -/
theorem Regular.eq_of_idle (h : s.Regular) (idle : (s.sweepRound now).1 = 0) :
    s.sweepRound now = (0, s) ∧
      (1 ≤ s.expireBatch → ∀ x ∈ s.live, x.lease.isExpired now = false) ∧
      ∀ r ∈ s.regions, r.inShortage = false ∨ r.live = [] := by
  obtain ⟨expired, leastUsed, s₁, s₂, round, hregions, hused, same⟩ := h.round now
  rw [round.sweepRound] at idle ⊢
  dsimp only at idle
  have hless : ∀ r ∈ s.regions,
      (r.round s.expireBatch s.leastUsedBatch now).used ≤ r.used := by
    intro r member
    obtain ⟨most, regular⟩ := h.of_mem member
    obtain ⟨evicted, freed, swept, -⟩ := regular.sweptRound s.expireBatch s.leastUsedBatch now
    have := swept.used
    omega
  have hsum := sum_used_sub s.regions _ hless
  rw [← hregions] at hsum
  have hzero : (s.regions.map fun r =>
      r.used - (r.round s.expireBatch s.leastUsedBatch now).used).sum = 0 := by
    unfold used at hused
    omega
  have heach : ∀ r ∈ s.regions, r.round s.expireBatch s.leastUsedBatch now = r ∧
      (1 ≤ s.expireBatch → ∀ x ∈ r.live, x.lease.isExpired now = false) ∧
      (r.inShortage = false ∨ r.live = []) := by
    intro r member
    obtain ⟨most, regular⟩ := h.of_mem member
    exact regular.eq_of_round
      (List.sum_eq_zero_iff_forall_eq_nat.1 hzero _ (List.mem_map_of_mem member))
  refine ⟨?_, fun positive x live => ?_, fun r member => (heach r member).2.2⟩
  · rw [idle, same (hregions.trans ?_) idle]
    exact (List.map_congr_left fun r member => (heach r member).1).trans (List.map_id _)
  · obtain ⟨r, member, live⟩ := List.mem_flatMap.1 live
    exact (heach r member).2.1 positive x live

theorem Regular.live_sweepRound (h : s.Regular) (now : Int) :
    (s.sweepRound now).2.live.Sublist s.live := by
  have hall : ∀ regions : List Region, (∀ r ∈ regions, ∃ most, r.Regular most) →
      ((regions.map (Region.round s.expireBatch s.leastUsedBatch now)).flatMap (·.live)).Sublist
        (regions.flatMap (·.live)) := by
    intro regions regular
    induction regions with
    | nil => exact .refl _
    | cons r rest ih =>
      obtain ⟨most, hr⟩ := regular r List.mem_cons_self
      obtain ⟨evicted, freed, swept, -⟩ := hr.sweptRound s.expireBatch s.leastUsedBatch now
      exact swept.order.append (ih fun r' member => regular r' (List.mem_cons_of_mem r member))
  rw [Store.live, (h.regions_sweepRound now).1]
  exact hall s.regions fun r member => h.of_mem member

/-- A round that frees something leaves fewer payloads. -/
theorem Regular.length_live_lt (h : s.Regular) (busy : (s.sweepRound now).1 ≠ 0) :
    (s.sweepRound now).2.live.length < s.live.length := by
  by_contra many
  have hlive := (h.live_sweepRound now).eq_of_length_le (Nat.le_of_not_lt many)
  have hused := (h.regions_sweepRound now).2
  have regular := h.evolves (evolves_sweepRound s now)
  rw [regular.used_eq_total, hlive, ← h.used_eq_total] at hused
  omega

/-! ### Rounds until nothing is left to do -/

theorem afterRounds_succ (s : Store) (now : Int) (n : Nat) :
    s.afterRounds now (n + 1) = ((s.afterRounds now n).sweepRound now).2 :=
  Function.iterate_succ_apply' _ n s

theorem Regular.afterRounds (h : s.Regular) (now : Int) (n : Nat) :
    (s.afterRounds now n).Regular ∧ Steady s (s.afterRounds now n) ∧
      (s.afterRounds now n).regions =
        s.regions.map (·.afterRounds s.expireBatch s.leastUsedBatch now n) := by
  induction n with
  | zero => exact ⟨h, .refl s, (List.map_id _).symm⟩
  | succ n ih =>
    obtain ⟨regular, steady, hregions⟩ := ih
    rw [afterRounds_succ]
    refine ⟨regular.evolves (evolves_sweepRound _ now), steady.trans (steady_sweepRound _ now), ?_⟩
    rw [(regular.regions_sweepRound now).1, hregions, steady.expireBatch, steady.leastUsedBatch,
      List.map_map]
    exact List.map_congr_left fun r _ => (r.afterRounds_succ _ _ now n).symm

/-- The rounds come to rest before each payload could have been released by one of its own. -/
theorem Regular.exists_idle (h : s.Regular) (now : Int) : ∃ n ≤ s.live.length,
    (∀ j < n, ((s.afterRounds now j).sweepRound now).1 ≠ 0) ∧
      ((s.afterRounds now n).sweepRound now).1 = 0 := by
  induction count : s.live.length using Nat.strong_induction_on generalizing s with
  | _ count' ih =>
    subst count
    by_cases idle : (s.sweepRound now).1 = 0
    · exact ⟨0, Nat.zero_le _, nofun, idle⟩
    · have fewer := h.length_live_lt idle
      obtain ⟨n, bound, busy, rest⟩ := ih _ fewer (h.evolves (evolves_sweepRound s now)) rfl
      refine ⟨n + 1, by omega, fun j hj => ?_, rest⟩
      cases j with
      | zero => exact idle
      | succ j => exact busy j (by omega)

theorem Regular.used_afterRounds (h : s.Regular) (now : Int) (n : Nat) :
    ((List.range n).map fun j => ((s.afterRounds now j).sweepRound now).1).sum +
      (s.afterRounds now n).used = s.used := by
  induction n with
  | zero => exact Nat.zero_add _
  | succ n ih =>
    have hused := ((h.afterRounds now n).1.regions_sweepRound now).2
    rw [List.range_succ, List.map_append, List.sum_append, afterRounds_succ]
    simp only [List.map_cons, List.map_nil, List.sum_singleton]
    omega

theorem Regular.live_afterRounds (h : s.Regular) (now : Int) (n : Nat) :
    (s.afterRounds now n).live.Sublist s.live := by
  induction n with
  | zero => exact .refl _
  | succ n ih =>
    rw [afterRounds_succ]
    exact ((h.afterRounds now n).1.live_sweepRound now).trans ih

/-- Once the rounds have come to rest, the periodic sweep ends. -/
theorem sweepRounds_eq {n fuel : Nat} (busy : ∀ j < n, ((s.afterRounds now j).sweepRound now).1 ≠ 0)
    (idle : ((s.afterRounds now n).sweepRound now).1 = 0) (enough : n < fuel) :
    sweepRounds now fuel s = ((s.afterRounds now n).sweepRound now).2 := by
  induction n generalizing s fuel with
  | zero =>
    obtain ⟨fuel, rfl⟩ := Nat.exists_eq_add_of_lt enough
    rw [Nat.zero_add]
    exact sweepRounds_of_idle idle fuel
  | succ n ih =>
    obtain ⟨fuel, rfl⟩ := Nat.exists_eq_add_of_lt enough
    have hrest : sweepRounds now (n + 1 + fuel) (s.sweepRound now).2 = _ := ih
      (fun j hj => busy (j + 1) (by omega)) idle (by omega)
    have hfirst : (s.sweepRound now).1 ≠ 0 := busy 0 (by omega)
    rw [sweepRounds]
    dsimp only
    rw [if_neg hfirst, hrest]
    rfl

theorem Regular.swept_afterRounds (h : s.Regular) (now : Int) (n : Nat) {i : Nat} {r : Region}
    (found : s.regions[i]? = some r) : ∃ r' expired evicted freed,
    (s.afterRounds now n).regions[i]? = some r' ∧ Region.Swept r (expired ++ evicted) freed r' ∧
    (∀ x ∈ expired, x.lease.isExpired now = true) ∧
    r.EvictedOnce s.expireBatch s.leastUsedBatch now n evicted := by
  obtain ⟨most, regular⟩ := h.of_mem (List.mem_of_getElem? found)
  obtain ⟨expired, evicted, freed, swept, hexpired, once⟩ :=
    regular.sweptRounds s.expireBatch s.leastUsedBatch now n
  refine ⟨_, expired, evicted, freed, ?_, swept, hexpired, once⟩
  rw [(h.afterRounds now n).2.2, List.getElem?_map, found]
  rfl

/-- What stays live through the rounds stays as it was. -/
theorem Regular.kept_afterRounds (h : s.Regular) (n : Nat) {x : Snapshot}
    (live : x ∈ (s.afterRounds now n).live) :
    (s.afterRounds now n).info x.handle = .ok x ∧ s.info x.handle = .ok x ∧
      ∀ t, ((s.afterRounds now n).get t x.handle).1 = (s.get t x.handle).1 := by
  obtain ⟨regular, -, hregions⟩ := h.afterRounds now n
  obtain ⟨r', member, live⟩ := List.mem_flatMap.1 live
  obtain ⟨i, found'⟩ := List.getElem?_of_mem member
  have own := (regular.sound i r' found').2
  obtain ⟨slot, e, -, rfl⟩ := SlotTable.mem_live_iff.1 live
  obtain ⟨r, found, -⟩ : ∃ r, s.regions[i]? = some r ∧ _ = r' := by
    rw [hregions, List.getElem?_map, Option.map_eq_some_iff] at found'
    exact found'
  obtain ⟨r'', expired, evicted, freed, found'', swept, -⟩ := h.swept_afterRounds now n found
  rw [found'] at found''
  cases found''
  obtain ⟨hinfo', hinfo, hget⟩ := swept.kept _ live
  have hregion : r'.table.region = i := own
  simp only [Entry.snapshot, hregion] at hinfo' hinfo hget ⊢
  refine ⟨?_, ?_, fun t => ?_⟩
  · rw [Store.info, region_eq_ok_iff.2 found']
    exact hinfo'
  · rw [Store.info, region_eq_ok_iff.2 found]
    exact hinfo
  · rw [Store.get, Store.get, onRegion_of_getElem? found', onRegion_of_getElem? found]
    exact hget t

/-- Rounds have nothing left to do: nothing is expired, and no region is both in shortage and in
use. -/
structure AtRest (s : Store) (now : Int) : Prop where
  idle : s.sweepRound now = (0, s)
  fresh : ∀ x ∈ s.live, x.lease.isExpired now = false
  calm : ∀ r ∈ s.regions, r.inShortage = false ∨ r.live = []

/-- Rounds that have come to rest after `n` of them. -/
structure Settles (s : Store) (now : Int) (n : Nat) : Prop where
  rest : (s.afterRounds now n).AtRest now
  stays : ∀ m ≥ n, s.afterRounds now m = s.afterRounds now n
  /-- The periodic sweep goes on until then. -/
  sweep : s.sweep now = s.afterRounds now n
  busy : ∀ j < n, 0 < ((s.afterRounds now j).sweepRound now).1
  /-- No region refuses a sweep. -/
  rounds : ∀ j, ∃ expired leastUsed s₁,
    Round (s.afterRounds now j) now expired leastUsed s₁ (s.afterRounds now (j + 1))
  used : ((List.range n).map fun j => ((s.afterRounds now j).sweepRound now).1).sum +
    (s.afterRounds now n).used = s.used
  /-- A region loses payloads that have expired, and one batch of the least used at most. -/
  swept : ∀ (i : Nat) (r : Region), s.regions[i]? = some r → ∃ r' expired evicted freed,
    (s.afterRounds now n).regions[i]? = some r' ∧ Region.Swept r (expired ++ evicted) freed r' ∧
    (∀ x ∈ expired, x.lease.isExpired now = true) ∧
    r.EvictedOnce s.expireBatch s.leastUsedBatch now n evicted
  order : (s.afterRounds now n).live.Sublist s.live
  kept : ∀ x ∈ (s.afterRounds now n).live, (s.afterRounds now n).info x.handle = .ok x ∧
    s.info x.handle = .ok x ∧
    ∀ t, ((s.afterRounds now n).get t x.handle).1 = (s.get t x.handle).1

/-- While the clock stands still, rounds of sweeps come to rest before there have been more of them
than live payloads, and each of them frees something until then. -/
theorem sweepRounds_settle (h : s.Reachable) (positive : 1 ≤ s.expireBatch) (now : Int) :
    ∃ n ≤ s.live.length, s.Settles now n := by
  have regular := h.regular
  obtain ⟨n, bound, busy, idle⟩ := regular.exists_idle now
  obtain ⟨regular', steady, -⟩ := regular.afterRounds now n
  obtain ⟨rest, fresh, calm⟩ := regular'.eq_of_idle idle
  rw [steady.expireBatch] at fresh
  refine ⟨n, bound, ⟨rest, fresh positive, calm⟩, fun m later => ?_, ?_,
    fun j hj => Nat.pos_of_ne_zero (busy j hj), fun j => ?_, regular.used_afterRounds now n,
    fun i r found => regular.swept_afterRounds now n found, regular.live_afterRounds now n,
    fun x live => regular.kept_afterRounds n live⟩
  · obtain ⟨d, rfl⟩ := Nat.exists_eq_add_of_le later
    rw [Nat.add_comm, afterRounds, Function.iterate_add_apply]
    exact Function.iterate_fixed (congrArg Prod.snd rest) d
  · rw [Store.sweep, sweepRounds_eq busy idle (Nat.lt_succ_of_le bound), rest]
  · obtain ⟨expired, leastUsed, s₁, s₂, round, -⟩ := (regular.afterRounds now j).1.round now
    rw [afterRounds_succ, round.sweepRound]
    exact ⟨expired, leastUsed, s₁, round⟩

/-- Three payloads have expired in a region that is in shortage as well, with batches of one. -/
theorem sweepRounds_settle_shortage : ∃ (s : Store) (n : Nat), s.Reachable ∧ 1 ≤ s.expireBatch ∧
    s.regions.map (·.inShortage) = [true, false] ∧
    s.live.map (fun x => (x.handle, x.lease.isExpired 100)) = [(⟨0, 0, 0⟩, true),
      (⟨0, 1, 0⟩, true), (⟨0, 2, 0⟩, true), (⟨0, 3, 0⟩, false), (⟨1, 0, 0⟩, false)] ∧
    n ≤ 5 ∧ s.Settles 100 n := by
  let settings : Settings :=
    ⟨⟨2, 8, .largestFit, [], 1, false⟩, .default, ⟨1, 1, 0, 1000⟩, .default⟩
  have reachable := (((((Reachable.build (rfl : build settings = .ok _) (by decide)).perform 10
    (.put [1] (.inMillis 50) 0 : Op Unit)).perform 20
      (.put [2] (.inMillis 50) 0 : Op Unit)).perform 30
        (.put [3] (.inMillis 50) 0 : Op Unit)).perform 40
          (.put [4, 5, 6, 7] .never 0 : Op Unit)).perform 50 (.put [8, 9] .never 0 : Op Unit)
  generalize hs : Prod.snd _ = s at reachable
  obtain ⟨positive, short, live⟩ : 1 ≤ s.expireBatch ∧
      s.regions.map (·.inShortage) = [true, false] ∧
      s.live.map (fun x => (x.handle, x.lease.isExpired 100)) = [(⟨0, 0, 0⟩, true),
        (⟨0, 1, 0⟩, true), (⟨0, 2, 0⟩, true), (⟨0, 3, 0⟩, false), (⟨1, 0, 0⟩, false)] := by
    subst hs
    decide
  obtain ⟨n, bound, settles⟩ := sweepRounds_settle reachable positive 100
  have hlength := congrArg List.length live
  rw [List.length_map] at hlength
  rw [hlength] at bound
  exact ⟨s, n, reachable, positive, short, live, bound, settles⟩

end Store

end RegionStore
