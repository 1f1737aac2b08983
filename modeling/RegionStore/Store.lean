import RegionStore.Region.Evict
import RegionStore.Routing

/-!
The store: several regions and the routing of requests among them. A handle carries the number
of its region, so every operation through a handle goes straight there.
-/
namespace RegionStore

/-- What a request answers when no region has room. -/
inductive OnExhaustion where
  | returnNone
  | error
  deriving DecidableEq, Repr

/-- Counts over the life of a store. -/
structure Tally where
  /-- Requests that were placed. -/
  stores : Nat
  /-- Requests that found no room anywhere. -/
  failures : Nat
  /-- Handles released one by one. -/
  frees : Nat
  expiredBytes : Nat
  leastUsedBytes : Nat
  deriving DecidableEq, Repr

def Tally.zero : Tally := ⟨0, 0, 0, 0, 0⟩

def Tally.add (a b : Tally) : Tally :=
  ⟨a.stores + b.stores, a.failures + b.failures, a.frees + b.frees,
    a.expiredBytes + b.expiredBytes, a.leastUsedBytes + b.leastUsedBytes⟩

@[simp] theorem Tally.add_zero (a : Tally) : a.add .zero = a := rfl

structure Store where
  /-- In order of their numbers. -/
  regions : List Region
  routing : Routing
  onExhaustion : OnExhaustion
  expireBatch : Nat
  /-- Zero for a tenth of what is stored. -/
  leastUsedBatch : Nat
  tally : Tally

namespace Store

/-- Largest request that any region could ever meet. -/
def maxRequest (s : Store) : Nat := s.regions.foldr (fun r most => max r.maxRequest most) 0

def used (s : Store) : Nat := s.regions.foldr (fun r total => r.used + total) 0

def capacity (s : Store) : Nat := s.regions.foldr (fun r total => r.capacity + total) 0

/-- Snapshots of all that is stored, by region and then by slot. -/
def live (s : Store) : List Snapshot := s.regions.flatMap (·.live)

def region (s : Store) (id : Nat) : Except StoreError Region :=
  match s.regions[id]? with
  | none => .error (.unknownRegion id)
  | some r => .ok r

theorem region_eq_ok_iff {s : Store} {id : Nat} {r : Region} :
    s.region id = .ok r ↔ s.regions[id]? = some r := by
  unfold region
  cases s.regions[id]? <;> simp

def setRegion (s : Store) (id : Nat) (r : Region) : Store :=
  { s with regions := s.regions.set id r }

@[simp] theorem length_regions_setRegion (s : Store) (id : Nat) (r : Region) :
    (s.setRegion id r).regions.length = s.regions.length := by
  simp [setRegion]

theorem regions_setRegion_of_ne {s : Store} {id other : Nat} (apart : id ≠ other) (r : Region) :
    (s.setRegion id r).regions[other]? = s.regions[other]? := by
  simp [setRegion, apart]

/-- Runs an operation on one region. -/
def onRegion (s : Store) (id : Nat) (op : Region → Outcome Region α) : Outcome Store α :=
  match s.region id with
  | .error refusal => (.error refusal, s)
  | .ok r =>
    let (answer, r) := op r
    (answer, s.setRegion id r)

/-- No region has room. -/
def exhausted (s : Store) (q : Request) : Outcome Store (Option Handle) :=
  (match s.onExhaustion with
    | .returnNone => .ok none
    | .error => .error (.outOfSpace q.size),
    { s with tally := { s.tally with failures := s.tally.failures + 1 } })

/-- Tries regions as the routing says until one places the request, for at most `budget` more
attempts. -/
def tryRegions (now : Int) (q : Request) :
    (budget attempt : Nat) → (previous : Option Nat) → Store → Outcome Store (Option Handle)
  | 0, _, _, s => s.exhausted q
  | budget + 1, attempt, previous, s =>
    match s.routing.next previous attempt s.regions.length with
    | (none, routing) => { s with routing }.exhausted q
    | (some id, routing) =>
      match s.regions[id]? with
      | none =>
        (.error (.invariantViolation s!"policy chose region {id} of {s.regions.length}"),
          { s with routing })
      | some r =>
        match r.submit now q with
        | (.ok h, r) =>
          (.ok (some h), { s.setRegion id r with
            routing, tally := { s.tally with stores := s.tally.stores + 1 } })
        | (.error refusal, r) =>
          let s := { s.setRegion id r with routing }
          if refusal.isRetryable then tryRegions now q budget (attempt + 1) (some id) s
          else (.error refusal, s)

/-- Once the budget goes past the last attempt that the routing gives a region to, it no longer
matters: only the routing puts an end to the attempts. -/
theorem tryRegions_of_attemptLimit_lt {s : Store} {budget attempt : Nat}
    (enough : s.routing.attemptLimit s.regions.length < attempt + budget) (now : Int) (q : Request)
    (previous : Option Nat) (more : Nat) :
    tryRegions now q (budget + more) attempt previous s =
      tryRegions now q budget attempt previous s := by
  induction budget generalizing s attempt previous with
  | zero =>
    have given := Routing.next_of_attemptLimit_lt enough previous
    rw [Nat.add_zero] at given
    cases more with
    | zero => rfl
    | succ more => rw [Nat.zero_add, tryRegions, tryRegions, given]
  | succ budget ih =>
    have limit := s.routing.attemptLimit_next previous attempt s.regions.length s.regions.length
    rw [Nat.succ_add, tryRegions, tryRegions]
    split
    · rfl
    · next routing given =>
      rw [given] at limit
      split
      · rfl
      · split
        · rfl
        · split
          · apply ih
            rw [length_regions_setRegion, limit]
            omega
          · rfl

/-- Places a request in some region. Without room anywhere the answer is `none` or a refusal, as
the store is set up. -/
def submit (s : Store) (now : Int) (q : Request) : Outcome Store (Option Handle) :=
  match q.refusal? s.maxRequest with
  | some refusal => (.error refusal, s)
  | none => tryRegions now q (s.routing.attemptLimit s.regions.length) 1 none s

/-- A request that could fit in some region is tried for as long as the routing names regions. -/
theorem submit_eq_tryRegions {s : Store} {q : Request} (accepted : q.refusal? s.maxRequest = none)
    {budget : Nat} (enough : s.routing.attemptLimit s.regions.length ≤ budget) (now : Int) :
    s.submit now q = tryRegions now q budget 1 none s := by
  obtain ⟨more, rfl⟩ := Nat.exists_eq_add_of_le enough
  rw [submit, accepted]
  exact (tryRegions_of_attemptLimit_lt (by omega) now q none more).symm

/-- Stores a copy of a payload. -/
def put (s : Store) (now : Int) (payload : List UInt8) (expiry : Expiry) (tag : UInt32) :
    Outcome Store (Option Handle) :=
  s.submit now ⟨.payload payload, expiry, tag⟩

/-- Sets space aside that is to be filled later. -/
def reserve (s : Store) (now : Int) (size : Nat) (expiry : Expiry) (tag : UInt32) :
    Outcome Store (Option Handle) :=
  s.submit now ⟨.reserved size, expiry, tag⟩

def view (s : Store) (now : Int) (h : Handle) (f : List UInt8 → α) : Outcome Store α :=
  s.onRegion h.region (·.view now h f)

def get (s : Store) (now : Int) (h : Handle) : Outcome Store (List UInt8) :=
  s.onRegion h.region (·.get now h)

def edit (s : Store) (h : Handle) (f : List UInt8 → List UInt8 × α) : Outcome Store α :=
  s.onRegion h.region (·.edit h f)

def update (s : Store) (now : Int) (h : Handle) (payload : List UInt8) : Outcome Store Handle :=
  s.onRegion h.region (·.update now h payload)

/-- Releases a range and answers with its size, or with zero if the handle is stale already. -/
def release (s : Store) (h : Handle) : Outcome Store Nat :=
  match s.onRegion h.region (·.release h) with
  | (.error refusal, s) => (.error refusal, s)
  | (.ok freed, s) =>
    (.ok freed,
      if 0 < freed then { s with tally := { s.tally with frees := s.tally.frees + 1 } } else s)

def info (s : Store) (h : Handle) : Except StoreError Snapshot :=
  match s.region h.region with
  | .error refusal => .error refusal
  | .ok r => r.info h

/-- The expiry that a payload needs at `now` to keep the deadline it has. What is over already
gets one more millisecond, since a lifetime of zero would mean "never". -/
def remainingExpiry (l : Lease) (now : Int) : Expiry :=
  if 0 < l.expiry.lifetime then
    .inMillis (max 1 (Millis.sub (Millis.add l.createdAt l.expiry.lifetime) now))
  else .atMillis l.expiry.deadline

/-- Stores the new payload of a handle elsewhere and releases the old range after that. -/
def move (s : Store) (now : Int) (h : Handle) (payload : List UInt8) :
    Outcome Store (Option Handle) :=
  match s.info h with
  | .error refusal => (.error refusal, s)
  | .ok old =>
    match s.put now payload (remainingExpiry old.lease now) old.lease.tag with
    | (.error refusal, s) => (.error refusal, s)
    | (.ok none, s) => (.ok none, s)
    | (.ok (some moved), s) =>
      match s.release h with
      | (.error refusal, s) => (.error refusal, s)
      | (.ok _, s) => (.ok (some moved), s)

/-- Gives a handle a new payload, in its range if it fits there and elsewhere if not. Tag and
deadline stay. Without room the old handle stays good. -/
def updateOrMove (s : Store) (now : Int) (h : Handle) (payload : List UInt8) :
    Outcome Store (Option Handle) :=
  match s.update now h payload with
  | (.ok h, s) => (.ok (some h), s)
  | (.error (.capacityExceeded _ _), s) => s.move now h payload
  | (.error refusal, s) => (.error refusal, s)

/-- Releases everything and starts the routing over. -/
def clear (s : Store) : Store :=
  { s with regions := s.regions.map (·.clear), routing := s.routing.reset }

/-- Sweeps region after region and adds up the bytes. -/
def sweepRegions (sweep : Region → Outcome Region Nat) :
    List Region → Except StoreError Nat × List Region
  | [] => (.ok 0, [])
  | r :: rest =>
    match sweep r with
    | (.error refusal, r) => (.error refusal, r :: rest)
    | (.ok freed, r) =>
      match sweepRegions sweep rest with
      | (.error refusal, rest) => (.error refusal, r :: rest)
      | (.ok others, rest) => (.ok (freed + others), r :: rest)

def collectExpired (s : Store) (now : Int) : Outcome Store Nat :=
  match sweepRegions (·.collectExpired s.expireBatch now) s.regions with
  | (.error refusal, regions) => (.error refusal, { s with regions })
  | (.ok freed, regions) =>
    (.ok freed, { s with
      regions, tally := { s.tally with expiredBytes := s.tally.expiredBytes + freed } })

def collectLeastUsed (s : Store) (now : Int) : Outcome Store Nat :=
  match sweepRegions (·.collectLeastUsed s.leastUsedBatch now) s.regions with
  | (.error refusal, regions) => (.error refusal, { s with regions })
  | (.ok freed, regions) =>
    (.ok freed, { s with
      regions, tally := { s.tally with leastUsedBytes := s.tally.leastUsedBytes + freed } })

end Store

end RegionStore
