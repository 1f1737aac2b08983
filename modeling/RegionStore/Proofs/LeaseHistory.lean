import RegionStore.Proofs.Staleness
import RegionStore.Proofs.Sweeps

/-!
Leases told from history. All that is known of a live payload follows from what has been done to
its region: from the call that issued the handle, from the times at which the payload has been
shown, and from the lengths it has been given. Nothing is left of whoever had the slot before.
-/
namespace RegionStore.Region

/-- When the payload of a handle is shown along a run. -/
def reads (r : Region) (k : Handle) : List (Int × Op) → List Int
  | [] => []
  | (now, op) :: rest => (r.shown? k now op).toList ++ (r.step now op).reads k rest

/-- The lengths that the payload of a handle is given along a run. -/
def lengths (r : Region) (k : Handle) : List (Int × Op) → List Nat
  | [] => []
  | (now, op) :: rest => (r.given? k now op).toList ++ (r.step now op).lengths k rest

variable {r : Region} {k : Handle} {e e' : Entry} {bytes bytes' : List UInt8}

/-- Before a handle is issued nothing can be done through it. -/
theorem Sound.untouched {ops : List (Int × Op)} (h : r.Sound) (dead : ¬ r.Live k)
    (fresh : k ∉ r.handles ops) : r.reads k ops = [] ∧ r.lengths k ops = [] := by
  induction ops generalizing r with
  | nil => exact ⟨rfl, rfl⟩
  | cons head rest ih =>
    obtain ⟨now, op⟩ := head
    have turn := h.turn now op
    rw [handles, List.mem_append, Option.mem_toList, not_or] at fresh
    have dead' : ¬ (r.step now op).Live k := fun good =>
      (turn.fresh k good).elim dead fresh.1
    obtain ⟨hreads, hlengths⟩ := ih turn.keeps.sound dead' fresh.2
    have shown : r.shown? k now op = none :=
      Option.eq_none_iff_forall_ne_some.2 fun t shown => dead (live_of_shown? shown)
    have given : r.given? k now op = none :=
      Option.eq_none_iff_forall_ne_some.2 fun n given =>
        (h.live_or_issued_of_given? given).elim dead fresh.1
    rw [reads, lengths, shown, given, hreads, hlengths]
    exact ⟨rfl, rfl⟩

end RegionStore.Region
