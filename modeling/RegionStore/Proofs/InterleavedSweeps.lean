import RegionStore.Proofs.LeaseHistory

/-!
Sweeps that others interfere with. A sweep picks payloads at one point in time and releases them
one by one, while any other operations run before and between these releases. The handles it has
kept tell what is still the same payload from what has taken its slot or its bytes since.
-/
namespace RegionStore

/-- What stays as it is for as long as a range is issued: the range itself, and the lease but for
its length and its hits. -/
structure Origin where
  segment : Nat
  span : Span
  createdAt : Int
  expiry : Expiry
  tag : UInt32
  deriving DecidableEq, Repr

def Entry.origin (e : Entry) : Origin :=
  ⟨e.segment, e.span, e.lease.createdAt, e.lease.expiry, e.lease.tag⟩

def Snapshot.origin (x : Snapshot) : Origin :=
  ⟨x.segment, x.span, x.lease.createdAt, x.lease.expiry, x.lease.tag⟩

namespace Region

variable {r r' : Region} {k : Handle} {e e' : Entry} {bytes bytes' : List UInt8}

/-- The releases of a sweep, each with the operations that others get in before it. -/
abbrev Schedule := List (List (Int × Op) × Snapshot)

namespace Schedule

/-- All that happens, one operation after another. -/
def ops : Schedule → List (Int × Op)
  | [] => []
  | (others, x) :: rest => others ++ (0, .release x.handle) :: ops rest

/-- The bytes that the releases of the sweep answer with. -/
def freed (r : Region) : Schedule → Nat
  | [] => 0
  | (others, x) :: rest =>
    ((r.run others).release x.handle).1.toOption.getD 0 +
      freed ((r.run others).release x.handle).2 rest

end Schedule

/-- What a sweep releases at last is what it picked, or nothing at all. -/
inductive Collected (r : Region) (x : Snapshot) : Outcome Region Nat → Prop
  | picked {y : Snapshot} {r' : Region} (live : y ∈ r.live) (handle : y.handle = x.handle)
    (origin : y.origin = x.origin) (swept : Swept r [y] x.span.size r') :
    Collected r x (.ok x.span.size, r')
  | gone (none : ∀ y ∈ r.live, y.handle ≠ x.handle) : Collected r x (.ok 0, r)

variable {most : Nat} {x : Snapshot}

theorem Regular.collected (h : r.Regular most) (own : x.handle.region = r.id)
    (origin : ∀ y ∈ r.live, y.handle = x.handle → y.origin = x.origin) :
    Collected r x (r.release x.handle) := by
  cases checked : r.table.checked x.handle with
  | error refusal =>
    rw [release_of_error checked, if_pos own]
    refine .gone fun y live same => ?_
    obtain ⟨e, hchecked⟩ := live_iff_mem.2 ⟨y, live, same⟩
    rw [checked] at hchecked
    cases hchecked
  | ok e =>
    obtain ⟨r', released⟩ := h.sound.release checked
    obtain ⟨-, issued, generation⟩ := SlotTable.checked_eq_ok_iff_issued?.1 checked
    have live : e.snapshot r.id x.handle.slot ∈ r.live :=
      SlotTable.mem_live_iff.2 ⟨x.handle.slot, e, issued, rfl⟩
    have handle : (e.snapshot r.id x.handle.slot).handle = x.handle := by
      simp only [Entry.snapshot, generation, ← own]
    have hspan : e.span = x.span := congrArg Origin.span (origin _ live handle)
    have regular' := h.step 0 (.release x.handle)
    rw [Region.step, released.answer] at regular'
    have shed : Shed r ([e.snapshot r.id x.handle.slot].map (·.handle)) x.span.size r' := by
      rw [List.map_singleton, handle, ← hspan]
      exact released.shed checked
    rw [released.answer, hspan]
    exact .picked live handle (origin _ live handle)
      (shed.swept h regular' (by simpa using live) (List.nodup_singleton _))

/-- What is released is what has been picked, so that everything else stays. -/
theorem Collected.kept {answer : Outcome Region Nat} (h : Collected r x answer) {z : Snapshot}
    (live : z ∈ r.live) (other : z.handle ≠ x.handle) : z ∈ answer.2.live := by
  cases h with
  | picked _ handle _ swept =>
    rcases List.mem_cons.1 (swept.split.subset live) with rfl | stays
    · exact absurd handle other
    · exact stays
  | gone none => exact live

end Region

end RegionStore
