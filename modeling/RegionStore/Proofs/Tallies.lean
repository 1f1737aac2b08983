import RegionStore.Proofs.Refusals
import RegionStore.Proofs.SweepRounds

/-!
The counts of a store balance. Handles come to be good by requests that are counted, and go bad by
releases that are counted, by sweeps and when everything is cleared. Nothing is counted twice along a
run and nothing is missed.
-/
namespace RegionStore

variable {α : Type}

/-! ### What answers add to the counts -/

namespace Tally

def ofPlace (answer : Except StoreError (Option Handle)) : Tally where
  stores := match answer with
    | .ok (some _) => 1
    | .ok none => 0
    | .error _ => 0
  failures := match answer with
    | .ok (some _) => 0
    | .ok none => 1
    | .error refusal => if refusal.isExhaustion then 1 else 0
  frees := 0
  expiredBytes := 0
  leastUsedBytes := 0

end Tally

namespace Answer

/-- Handles that come to be good, as the answer to a request tells. -/
def issued : Answer α → Int
  | .handle _ => 1
  | _ => 0

/-- Handles that go bad, as the answer to a release tells. -/
def released : Answer α → Int
  | .count freed => if 0 < freed then 1 else 0
  | _ => 0

end Answer

namespace Store

variable {s s' : Store} {now : Int} {k k' : Handle} {bytes : List UInt8}

/-- The handles that name something. -/
def handles (s : Store) : Finset Handle := (s.live.map (·.handle)).toFinset

/-- Handles that name something before, and nothing after. -/
def lost (s s' : Store) : Int := (s.handles \ s'.handles).card

instance : DecidablePred (Op.SeeksRoom (α := α))
  | .put _ _ _ => .isTrue trivial
  | .reserve _ _ _ => .isTrue trivial
  | .updateOrMove _ _ => .isTrue trivial
  | .get _ => .isFalse id
  | .view _ _ => .isFalse id
  | .edit _ _ => .isFalse id
  | .update _ _ => .isFalse id
  | .release _ => .isFalse id
  | .info _ => .isFalse id
  | .collectExpired => .isFalse id
  | .collectLeastUsed => .isFalse id
  | .clear => .isFalse id

instance : DecidablePred (Answer.IsExhaustion (α := α))
  | .refused refusal => inferInstanceAs (Decidable (refusal.isExhaustion = true))
  | .noRoom => .isTrue trivial
  | .handle _ => .isFalse id
  | .bytes _ => .isFalse id
  | .shown _ => .isFalse id
  | .count _ => .isFalse id
  | .snapshot _ => .isFalse id
  | .done => .isFalse id

/-- Something to be counted about one operation, with the store before it, its answer and the store
after it. -/
abbrev Measure (α : Type) := Store → Op α → Answer α → Store → Int

/-- Handles that a sweep has evicted. -/
def evicted : Measure α
  | s, .collectExpired, _, s' => s.lost s'
  | s, .collectLeastUsed, _, s' => s.lost s'
  | _, _, _, _ => 0

/-- Handles that were dropped when everything was cleared. -/
def cleared : Measure α
  | s, .clear, _, s' => s.lost s'
  | _, _, _, _ => 0

variable {op : Op α}

end Store

/-! ### One operation: what is live -/

namespace Contents

/-- The handles under which something is bound. -/
def Domain (c : Contents) (bound : Finset Handle) : Prop := ∀ k, k ∈ bound ↔ c k ≠ none

variable {c c' : Contents} {bound bound' : Finset Handle} {k : Handle}

theorem Domain.unique (h : c.Domain bound) (h' : c.Domain bound') : bound = bound' :=
  Finset.ext fun k => (h k).trans (h' k).symm

theorem Domain.bind (h : c.Domain bound) (k : Handle) (bytes : List UInt8) :
    Domain (Function.update c k (some bytes)) (insert k bound) := by
  intro j
  rw [Finset.mem_insert, h j, Function.update_apply]
  split
  · next here => exact iff_of_true (Or.inl here) nofun
  · next elsewhere => rw [or_iff_right elsewhere]

end Contents

namespace Store

variable {s s' : Store} {op : Op α}

theorem Regular.perform (h : s.Regular) (now : Int) (op : Op α) : (s.perform now op).2.Regular :=
  h.evolves (evolves_perform s now op)

theorem Regular.after (h : s.Regular) (ops : List (Int × Op α)) : (s.after ops).Regular := by
  induction ops generalizing s with
  | nil => exact h
  | cons head rest ih => exact ih (h.perform head.1 head.2)

end Store

end RegionStore
