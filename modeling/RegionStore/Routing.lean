/-!
Which region to try for a request. A request asks for a first region, and after each failure for
another one, until the answer is to give up.
-/
namespace RegionStore

inductive Routing where
  /-- Stays with the active region until it fails, and then makes the next one active. -/
  | sequential (active : Nat)
  /-- Every attempt moves on to the next region, up to `attempts` of them for one request. -/
  | roundRobin (cursor : UInt64) (attempts : Nat)
  /-- A fixed choice for each attempt. It may name regions that do not exist. -/
  | fixed (choices : List (Option Nat))
  deriving DecidableEq, Repr

namespace Routing

/-- The region for an attempt, which are numbered from one on, after the failure of `previous`. -/
def next (p : Routing) (previous : Option Nat) (attempt regions : Nat) : Option Nat × Routing :=
  match p with
  | sequential active =>
    if regions = 0 ∨ regions < attempt then (none, sequential active)
    else match previous with
      | none => (some (active % regions), sequential active)
      | some failed =>
        let following := (failed + 1) % regions
        (some following, sequential (if active = failed then following else active))
  | roundRobin cursor attempts =>
    if regions = 0 ∨ attempts < attempt then (none, roundRobin cursor attempts)
    else (some (cursor.toNat % regions), roundRobin (cursor + 1) attempts)
  | fixed choices => ((choices[attempt - 1]?).join, fixed choices)

/-- No attempt after this one is given a region. -/
def attemptLimit (p : Routing) (regions : Nat) : Nat :=
  match p with
  | sequential _ => regions
  | roundRobin _ attempts => attempts
  | fixed choices => choices.length

/-- Back to the first region. -/
def reset : Routing → Routing
  | sequential _ => sequential 0
  | roundRobin _ attempts => roundRobin 0 attempts
  | fixed choices => fixed choices

theorem next_of_attemptLimit_lt {p : Routing} {attempt regions : Nat}
    (h : p.attemptLimit regions < attempt) (previous : Option Nat) :
    p.next previous attempt regions = (none, p) := by
  cases p with
  | sequential active => simp only [attemptLimit] at h; simp [next, h]
  | roundRobin cursor attempts => simp only [attemptLimit] at h; simp [next, h]
  | fixed choices =>
    simp only [attemptLimit] at h
    simp [next, List.getElem?_eq_none (show choices.length ≤ attempt - 1 by omega)]

@[simp] theorem attemptLimit_next (p : Routing) (previous : Option Nat)
    (attempt regions count : Nat) :
    (p.next previous attempt regions).2.attemptLimit count = p.attemptLimit count := by
  cases p with
  | sequential active =>
    simp only [next]
    split
    · rfl
    · split <;> rfl
  | roundRobin cursor attempts =>
    simp only [next]
    split <;> rfl
  | fixed choices => rfl

end Routing

end RegionStore
