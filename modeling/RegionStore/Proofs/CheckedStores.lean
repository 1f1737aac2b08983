import RegionStore.Proofs.CheckedRegions

/-!
Stores step by step. Every operation goes to regions in good order and adds up what they free, so
that it gets through as long as its regions do.
-/
namespace RegionStore.Store

variable {α β : Type} {s s' : Store} {r : Region} {n : Nat} {now : Int} {q : Request}

/-- How many regions turn out to have no room, one after another, while a request is tried. -/
def failedAttempts (now : Int) (q : Request) :
    (budget attempt : Nat) → (previous : Option Nat) → Store → Nat
  | 0, _, _, _ => 0
  | budget + 1, attempt, previous, s =>
    match s.routing.next previous attempt s.regions.length with
    | (none, _) => 0
    | (some id, routing) =>
      match s.regions[id]? with
      | none => 0
      | some r =>
        match r.submit now q with
        | (.ok _, _) => 0
        | (.error refusal, r) =>
          Region.failed (.error refusal : Except StoreError Handle) +
            if refusal.isRetryable then
              failedAttempts now q budget (attempt + 1) (some id) { s.setRegion id r with routing }
            else 0

/-- Placements that fail, region by region, for one request. -/
def failuresOf (s : Store) (now : Int) (q : Request) : Nat :=
  match q.refusal? s.maxRequest with
  | some _ => 0
  | none => failedAttempts now q (s.routing.attemptLimit s.regions.length) 1 none s

def failuresOfMove (s : Store) (now : Int) (h : Handle) (payload : List UInt8) : Nat :=
  match s.info h with
  | .error _ => 0
  | .ok old =>
    s.failuresOf now ⟨.payload payload, remainingExpiry old.lease now, old.lease.tag⟩

/-- Placements that fail in an operation. -/
def failedPlacements (s : Store) (now : Int) : Op α → Nat
  | .put bytes expiry tag => s.failuresOf now ⟨.payload bytes, expiry, tag⟩
  | .reserve size expiry tag => s.failuresOf now ⟨.reserved size, expiry, tag⟩
  | .updateOrMove k bytes =>
    match s.update now k bytes with
    | (.error (.capacityExceeded _ _), s) => s.failuresOfMove now k bytes
    | _ => 0
  | _ => 0

/-- Operations of a store leave its regions the size they are. -/
theorem Evolves.capacity_eq (evolves : Evolves s s') (h : s.Regular) :
    s'.capacity = s.capacity := by
  obtain ⟨most, hregions⟩ := h.regions
  have hsame : s'.regions.map (·.capacity) = s.regions.map (·.capacity) := by
    apply List.ext_getElem?
    intro i
    rw [List.getElem?_map, List.getElem?_map]
    cases found : s.regions[i]? with
    | none =>
      have missing : s'.regions[i]? = none := by
        rw [List.getElem?_eq_none_iff, evolves.length]
        exact List.getElem?_eq_none_iff.1 found
      rw [missing]
    | some r =>
      obtain ⟨ops, found'⟩ := evolves.regions i r found
      have hsizes := ((hregions i r found).2.sound.run ops).sizes
      rw [found', Option.map_some, Option.map_some, Region.capacity_congr hsizes]
  have hfold := congrArg (List.foldr (· + ·) 0) hsame
  rw [List.foldr_map, List.foldr_map] at hfold
  exact hfold

/-- A store in good order, in whose regions at most `n` placements have failed, with fewer bytes
than 64 bits can count. -/
structure Strict (n : Nat) (s : Store) : Prop where
  regular : s.Regular
  regions : ∀ r ∈ s.regions, r.Strict n
  capacity : s.capacity < UInt64.size

theorem Strict.evolves (h : s.Strict n) (evolves : Evolves s s') {m : Nat}
    (regions : ∀ r ∈ s'.regions, r.Strict m) : s'.Strict m := by
  refine ⟨h.regular.evolves evolves, regions, ?_⟩
  rw [evolves.capacity_eq h.regular]
  exact h.capacity

theorem Strict.exists_regular (h : s.Strict n) (member : r ∈ s.regions) :
    ∃ most, r.Regular most := by
  obtain ⟨most, hregions⟩ := h.regular.regions
  obtain ⟨i, found⟩ := List.getElem?_of_mem member
  exact ⟨most, (hregions i r found).2⟩

theorem strict_setRegion {m : Nat} (regions : ∀ r ∈ s.regions, r.Strict n) (le : n ≤ m) {i : Nat}
    {r' : Region} (strict : r'.Strict m) : ∀ r ∈ (s.setRegion i r').regions, r.Strict m := by
  intro r member
  rcases List.mem_or_eq_of_mem_set member with member | rfl
  · exact (regions r member).mono le
  · exact strict

/-- No step fails, and the regions are left fit for the next operation. -/
def Agrees (n : Nat) (checked : Option (Outcome Store β)) (plain : Outcome Store β) : Prop :=
  checked = some plain ∧ ∀ r ∈ plain.2.regions, r.Strict n

theorem Strict.onRegion (h : s.Strict n) {op? : Region → Option (Outcome Region β)}
    {op : Region → Outcome Region β}
    (each : ∀ r most, r.Regular most → r.Strict n → Region.Agrees n (op? r) (op r)) (i : Nat) :
    Agrees n (s.onRegion? i op?) (s.onRegion i op) := by
  cases found : s.regions[i]? with
  | none =>
    simp only [Store.onRegion?, Store.onRegion, region, found]
    exact ⟨rfl, h.regions⟩
  | some r =>
    have member := List.mem_of_getElem? found
    obtain ⟨most, regular⟩ := h.exists_regular member
    obtain ⟨hop, strict⟩ := each r most regular (h.regions r member)
    simp only [Store.onRegion?, Store.onRegion, region, found, hop, Option.bind_eq_bind,
      Option.bind_some]
    exact ⟨rfl, strict_setRegion h.regions (Nat.le_refl n) strict⟩

theorem Strict.view (h : s.Strict n) (clock : Millis.Reading now) (k : Handle)
    (f : List UInt8 → β) : Agrees n (s.view? now k f) (s.view now k f) :=
  h.onRegion (fun _ _ regular strict => strict.view regular clock k f) k.region

theorem Strict.edit (h : s.Strict n) (k : Handle) (patch : Patch β) :
    Agrees n (s.edit? k patch.run) (s.edit k patch.run) :=
  h.onRegion (fun _ _ regular strict => strict.edit regular k patch) k.region

theorem Strict.update (h : s.Strict n) (clock : Millis.Reading now) (few : n < UInt64.size)
    (k : Handle) (bytes : List UInt8) :
    Agrees n (s.update? now k bytes) (s.update now k bytes) :=
  h.onRegion (fun _ _ regular strict => strict.update regular clock few k bytes) k.region

theorem Strict.release (h : s.Strict n) (k : Handle) :
    Agrees n (s.release? k) (s.release k) := by
  obtain ⟨hrelease, strict⟩ :=
    h.onRegion (fun _ _ regular strict => strict.release regular k) k.region
  simp only [Store.release?, Store.release, hrelease, Option.bind_eq_bind, Option.bind_some]
  generalize s.onRegion k.region (·.release k) = released at strict
  obtain ⟨refusal | freed, s'⟩ := released
  · exact ⟨rfl, strict⟩
  · refine ⟨rfl, ?_⟩
    dsimp only
    split
    · exact strict
    · exact strict

/-! ### Requests -/

/-- Each region that is tried gets through, and counts a failure if it has no room. -/
theorem Strict.tryRegions (h : s.Strict n) (clock : Millis.Reading now) (budget attempt : Nat)
    (previous : Option Nat)
    (few : n + failedAttempts now q budget attempt previous s < UInt64.size) :
    Agrees (n + failedAttempts now q budget attempt previous s)
      (tryRegions? now q budget attempt previous s)
      (tryRegions now q budget attempt previous s) := by
  induction budget generalizing s n attempt previous with
  | zero => exact ⟨rfl, h.regions⟩
  | succ budget ih =>
    rw [Store.tryRegions, tryRegions?]
    rw [failedAttempts] at few ⊢
    rcases hnext : s.routing.next previous attempt s.regions.length with ⟨target, routing⟩
    rw [hnext] at few
    have hstock : s.routing.Stock → routing.Stock := by
      intro stock
      have := stock.next previous attempt s.regions.length
      rwa [hnext] at this
    cases target with
    | none => exact ⟨rfl, h.regions⟩
    | some i =>
      obtain ⟨r, found⟩ : ∃ r, s.regions[i]? = some r :=
        ⟨_, List.getElem?_eq_getElem (h.regular.stock.lt_of_next hnext)⟩
      have member := List.mem_of_getElem? found
      obtain ⟨most, regular⟩ := h.exists_regular member
      have evolves := evolves_setRegion found [(now, .submit q)]
      change Evolves s (s.setRegion i (r.submit now q).2) at evolves
      simp only [found] at few ⊢
      have hsubmit (few : n + Region.failed (r.submit now q).1 < UInt64.size) :=
        (h.regions r member).submit regular clock few
      generalize r.submit now q = answer at hsubmit evolves few
      obtain ⟨refusal | k, r'⟩ := answer
      · dsimp only at few hsubmit evolves ⊢
        obtain ⟨hsubmit, strict⟩ := hsubmit (by omega)
        simp only [hsubmit, Option.bind_eq_bind, Option.bind_some]
        have evolves' : Evolves s { s.setRegion i r' with routing } := evolves.congr rfl hstock
        have hpassed := h.evolves evolves'
          (strict_setRegion h.regions (Nat.le_add_right n _) strict)
        rw [← Nat.add_assoc] at few ⊢
        by_cases retry : refusal.isRetryable = true
        · simp only [if_pos retry] at few ⊢
          exact ih hpassed (attempt + 1) (some i) few
        · simp only [if_neg retry]
          exact ⟨rfl, hpassed.regions⟩
      · obtain ⟨hsubmit, strict⟩ := hsubmit few
        simp only [hsubmit, Option.bind_eq_bind, Option.bind_some]
        exact ⟨rfl, strict_setRegion h.regions (Nat.le_refl n) strict⟩

theorem Strict.submit (h : s.Strict n) (clock : Millis.Reading now)
    (few : n + s.failuresOf now q < UInt64.size) :
    Agrees (n + s.failuresOf now q) (s.submit? now q) (s.submit now q) := by
  unfold Store.submit Store.submit? failuresOf at *
  cases hrefusal : q.refusal? s.maxRequest with
  | some refusal => exact ⟨rfl, h.regions⟩
  | none =>
    simp only [hrefusal] at few
    exact h.tryRegions clock _ 1 none few

theorem Strict.move (h : s.Strict n) (clock : Millis.Reading now) (k : Handle)
    (bytes : List UInt8) (few : n + s.failuresOfMove now k bytes < UInt64.size) :
    Agrees (n + s.failuresOfMove now k bytes) (s.move? now k bytes) (s.move now k bytes) := by
  unfold Store.move Store.move? failuresOfMove at *
  cases hinfo : s.info k with
  | error refusal => exact ⟨rfl, h.regions⟩
  | ok old =>
    simp only [hinfo] at few
    obtain ⟨hsubmit, strict⟩ := h.submit clock few
    have evolves := evolves_submit s now
      ⟨.payload bytes, remainingExpiry old.lease now, old.lease.tag⟩
    simp only [hsubmit, put, Option.bind_eq_bind, Option.bind_some]
    generalize s.submit now _ = answer at strict evolves
    obtain ⟨refusal | placed, s₁⟩ := answer
    · exact ⟨rfl, strict⟩
    · cases placed with
      | none => exact ⟨rfl, strict⟩
      | some moved =>
        obtain ⟨hrelease, strict'⟩ := (h.evolves evolves strict).release k
        simp only [hrelease, Option.bind_some]
        generalize s₁.release k = released at strict'
        obtain ⟨refusal | freed, s₂⟩ := released
        · exact ⟨rfl, strict'⟩
        · exact ⟨rfl, strict'⟩

theorem Strict.updateOrMove (h : s.Strict n) (clock : Millis.Reading now) (k : Handle)
    (bytes : List UInt8)
    (few : n + s.failedPlacements now (.updateOrMove k bytes : Op α) < UInt64.size) :
    Agrees (n + s.failedPlacements now (.updateOrMove k bytes : Op α))
      (s.updateOrMove? now k bytes) (s.updateOrMove now k bytes) := by
  have hword : n < UInt64.size := by omega
  obtain ⟨hupdate, strict⟩ := h.update clock hword k bytes
  have evolves := evolves_update s now k bytes
  simp only [failedPlacements] at few ⊢
  simp only [Store.updateOrMove, Store.updateOrMove?, hupdate, Option.bind_eq_bind,
    Option.bind_some]
  generalize s.update now k bytes = answer at strict evolves few
  obtain ⟨refusal | k', s₁⟩ := answer
  · cases refusal with
    | capacityExceeded requested room => exact (h.evolves evolves strict).move clock k bytes few
    | _ => exact ⟨rfl, strict⟩
  · exact ⟨rfl, strict⟩

/-! ### Sweeps -/

/-- The bytes that regions free are added up to a total that stays in its word. -/
theorem sweepRegions?_eq {sweep? : Region → Option (Outcome Region Nat)}
    {sweep : Region → Outcome Region Nat} {regions : List Region} {total : Nat}
    (each : ∀ r ∈ regions, r.Strict n ∧ Region.Agrees n (sweep? r) (sweep r) ∧
      (sweep r).1.toOption.getD 0 ≤ r.capacity)
    (room : total + regions.foldr (fun r total => r.capacity + total) 0 < UInt64.size) :
    sweepRegions? sweep? total regions =
        some ((sweepRegions sweep regions).1.map (total + ·), (sweepRegions sweep regions).2) ∧
      ∀ r ∈ (sweepRegions sweep regions).2, r.Strict n := by
  induction regions generalizing total with
  | nil => exact ⟨rfl, nofun⟩
  | cons r rest ih =>
    obtain ⟨-, ⟨hsweep, strict⟩, hfreed⟩ := each r (by simp)
    have hothers : ∀ r ∈ rest, r.Strict n := fun r member => (each r (by simp [member])).1
    rw [List.foldr_cons] at room
    simp only [sweepRegions?, sweepRegions, hsweep, Option.bind_eq_bind, Option.bind_some]
    generalize sweep r = swept at strict hfreed
    obtain ⟨refusal | freed, r'⟩ := swept
    · refine ⟨rfl, fun x member => ?_⟩
      rcases List.mem_cons.1 member with rfl | member
      · exact strict
      · exact hothers x member
    · change freed ≤ r.capacity at hfreed
      have htotal : total + freed < UInt64.size := by omega
      obtain ⟨hrest, strict'⟩ := ih (fun r member => each r (by simp [member]))
        (show total + freed + _ < UInt64.size by omega)
      simp only [word64?_of_lt htotal, Option.bind_some, hrest]
      generalize sweepRegions sweep rest = others at strict'
      obtain ⟨refusal | others, regions⟩ := others
      · refine ⟨rfl, fun x member => ?_⟩
        rcases List.mem_cons.1 member with rfl | member
        · exact strict
        · exact strict' x member
      · refine ⟨by simp only [Except.map, Nat.add_assoc], fun x member => ?_⟩
        rcases List.mem_cons.1 member with rfl | member
        · exact strict
        · exact strict' x member

end RegionStore.Store
