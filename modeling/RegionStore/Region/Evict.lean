import RegionStore.Region

/-!
Eviction from one region: of what has expired, and of what is used least once the region is in
shortage. A sweep picks a batch from a snapshot and releases it handle by handle; a handle that
has gone stale meanwhile releases nothing.
-/
namespace RegionStore

/-- What an expiration sweep picks: up to `batch` payloads whose lifetime is over, and up to
`batch` others whose deadline is. -/
def expiredBatch (live : List Snapshot) (batch : Nat) (now : Int) : List Snapshot :=
  (live.filter fun s => s.lease.lifetimeOver now).take batch ++
    (live.filter fun s => !s.lease.lifetimeOver now && s.lease.deadlineOver now).take batch

theorem mem_of_mem_expiredBatch {x : Snapshot} {live : List Snapshot} {batch : Nat} {now : Int}
    (picked : x ∈ expiredBatch live batch now) : x ∈ live := by
  rcases List.mem_append.1 picked with picked | picked
  · exact (List.mem_filter.1 (List.mem_of_mem_take picked)).1
  · exact (List.mem_filter.1 (List.mem_of_mem_take picked)).1

/-- Order of eviction: less frequently used first, then older, then lower in the region. -/
def evictedBefore (now : Int) (a b : Snapshot) : Bool :=
  let x := a.lease.frequency now
  let y := b.lease.frequency now
  x < y || (x == y && (a.lease.createdAt < b.lease.createdAt ||
    (a.lease.createdAt == b.lease.createdAt && a.span.start ≤ b.span.start)))

theorem evictedBefore_total (now : Int) (a b : Snapshot) :
    (evictedBefore now a b || evictedBefore now b a) = true := by
  simp only [evictedBefore, Bool.or_eq_true, Bool.and_eq_true, decide_eq_true_eq, beq_iff_eq]
  omega

theorem evictedBefore_trans {now : Int} {a b c : Snapshot}
    (ab : evictedBefore now a b = true) (bc : evictedBefore now b c = true) :
    evictedBefore now a c = true := by
  simp only [evictedBefore, Bool.or_eq_true, Bool.and_eq_true, decide_eq_true_eq,
    beq_iff_eq] at *
  omega

/-- The `limit` least frequently used payloads; what ranks equal keeps its order. -/
def leastUsed (live : List Snapshot) (now : Int) (limit : Nat) : List Snapshot :=
  (live.mergeSort (evictedBefore now)).take limit

theorem mem_of_mem_leastUsed {x : Snapshot} {live : List Snapshot} {now : Int} {limit : Nat}
    (picked : x ∈ leastUsed live now limit) : x ∈ live :=
  List.mem_mergeSort.1 (List.mem_of_mem_take picked)

theorem length_leastUsed (live : List Snapshot) (now : Int) (limit : Nat) :
    (leastUsed live now limit).length = min limit live.length := by
  simp [leastUsed]

theorem pairwise_leastUsed (live : List Snapshot) (now : Int) (limit : Nat) :
    (leastUsed live now limit).Pairwise fun a b => evictedBefore now a b = true := by
  have sorted : (live.mergeSort (evictedBefore now)).Pairwise
      fun a b => evictedBefore now a b = true := by
    apply List.pairwise_mergeSort
    · exact fun _ _ _ => evictedBefore_trans
    · exact evictedBefore_total now
  exact sorted.sublist (List.take_sublist _ _)

/-- How many payloads a sweep for room evicts: the batch that was set, or else a tenth of them
and at least one. -/
def evictionCount (live batch : Nat) : Nat :=
  if 0 < batch then batch else max 1 (live / 10)

namespace Region

/-- Releases handles one after another and answers with the number of bytes. -/
def releaseAll (r : Region) : List Handle → Outcome Region Nat
  | [] => (.ok 0, r)
  | h :: rest =>
    match r.release h with
    | (.error refusal, r) => (.error refusal, r)
    | (.ok freed, r) =>
      match r.releaseAll rest with
      | (.error refusal, r) => (.error refusal, r)
      | (.ok others, r) => (.ok (freed + others), r)

/-- An expiration sweep. It leaves the failure count alone. -/
def collectExpired (r : Region) (batch : Nat) (now : Int) : Outcome Region Nat :=
  r.releaseAll ((expiredBatch r.live batch now).map (·.handle))

/-- Makes room if the region is in shortage. Freeing any byte ends the shortage. -/
def collectLeastUsed (r : Region) (batch : Nat) (now : Int) : Outcome Region Nat :=
  if !r.inShortage then (.ok 0, r)
  else
    let live := r.live
    if live.isEmpty then (.ok 0, r)
    else match r.releaseAll
        ((leastUsed live now (evictionCount live.length batch)).map (·.handle)) with
      | (.error refusal, r) => (.error refusal, r)
      | (.ok freed, r) =>
        (.ok freed, if 0 < freed then { r with usage := r.usage.resetFailures } else r)

end Region

end RegionStore
