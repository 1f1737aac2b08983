import RegionStore.Proofs.FreeRuns
import RegionStore.Proofs.Sweeps

/-!
Requests that are tried again after a sweep for room. Failures add up to a shortage, in a shortage a
sweep releases something, and a region that holds nothing has room for whatever it admits, unless it
places by first fit.
-/
namespace RegionStore

namespace SlotPool

variable {pools : List SlotPool} {n : Nat}

/-- As long as no queue is empty, any request that some pool is made for finds a slot. -/
theorem exists_reserve (full : ∀ p ∈ pools, p.free.toList ≠ [])
    (large : ∃ p ∈ pools, n ≤ p.slotSize) (fallThrough : Bool) :
    ∃ found, reserve fallThrough n pools = some found := by
  induction pools with
  | nil =>
    obtain ⟨p, hp, -⟩ := large
    cases hp
  | cons p rest ih =>
    unfold reserve
    by_cases small : p.slotSize < n
    · obtain ⟨q, hq, fits⟩ := large
      have hq' : q ∈ rest := (List.mem_cons.1 hq).resolve_left fun same => by
        rw [same] at fits
        omega
      obtain ⟨found, hfound⟩ := ih (fun q hq => full q (List.mem_cons_of_mem p hq)) ⟨q, hq', fits⟩
      simp only [small, if_true, decide_true, Bool.true_or, hfound]
      exact ⟨_, rfl⟩
    · cases popped : p.free.pop? with
      | none => exact absurd (Queue.pop?_eq_none_iff.1 popped) (full p List.mem_cons_self)
      | some found =>
        simp only [small, if_false]
        exact ⟨_, rfl⟩

end SlotPool

namespace Region

variable {r : Region} {q : Request}

/-- Tries to place a request for as often as there are readings of the clock: one for the attempt,
and one for the sweep that follows if there is no room. -/
def retry (r : Region) (q : Request) (batch : Nat) : List (Int × Int) → Outcome Region Handle
  | [] => (.error (.outOfSpace q.size), r)
  | (now, later) :: readings =>
    match r.submit now q with
    | (.error (.outOfSpace _), r) =>
      match r.collectLeastUsed batch later with
      | (.error refusal, r) => (.error refusal, r)
      | (.ok _, r) => r.retry q batch readings
    | outcome => outcome

/-- A course of attempts: so many that fail for lack of room, each followed by a sweep for room, and
then one that succeeds. -/
inductive Retried (q : Request) (batch : Nat) :
    Nat → Region → List (Int × Int) → Handle → Region → Prop where
  | met {r r' : Region} {k : Handle} {now later : Int} {readings : List (Int × Int)}
      (submitted : r.submit now q = (.ok k, r')) :
      Retried q batch 0 r ((now, later) :: readings) k r'
  | again {n size freed : Nat} {r failed swept r' : Region} {k : Handle} {now later : Int}
      {readings : List (Int × Int)}
      (full : r.submit now q = (.error (.outOfSpace size), failed))
      (collected : failed.collectLeastUsed batch later = (.ok freed, swept))
      (rest : Retried q batch n swept readings k r') :
      Retried q batch (n + 1) r ((now, later) :: readings) k r'

/-- In the end the handle names what was asked for, as of the reading of the last attempt. All that
has happened to other payloads is that some have been evicted. -/
theorem Retried.held {batch n : Nat} {readings : List (Int × Int)} {k : Handle} {r' : Region}
    (course : Retried q batch n r readings k r') (sound : r.Sound) :
    (∃ now later e bytes, readings[n]? = some (now, later) ∧ r'.held k = some (e, bytes) ∧
      q.content.Shows bytes ∧ e.lease = .issued q.size q.tag q.expiry now) ∧
    ∀ j, j ≠ k → r'.held j = none ∨ r'.held j = r.held j := by
  induction course with
  | @met r r' k now later readings submitted =>
    obtain ⟨e, bytes, held, shows, lease, -⟩ := (sound.placed_of_submit submitted).held
    refine ⟨⟨now, later, e, bytes, rfl, ?_, shows, lease⟩, fun j other => Or.inr ?_⟩
    · rw [held, Function.update_self]
    · rw [held, Function.update_of_ne other]
  | @again n size freed r failed swept r' k now later readings full collected rest ih =>
    obtain ⟨hfailed, same⟩ := sound.held_of_submit_error full
    obtain ⟨freed', swept', hcollect, shed⟩ := hfailed.collectLeastUsed batch later
    rw [hcollect] at collected
    cases collected
    obtain ⟨last, others⟩ := ih shed.keeps.sound
    refine ⟨last, fun j other => ?_⟩
    rcases others j other with gone | kept
    · exact Or.inl gone
    · rw [kept, shed.held, same]
      exact ite_eq_or_eq _ _ _

/-- Attempts up to and with the one whose failure brings a sweep to release something. The count of
failures starts over when it has been through all 64-bit words. -/
def patience (r : Region) : Nat :=
  if r.usage.failures.toNat + 1 = UInt64.size then r.usage.threshold.toNat + 2
  else max 1 (r.usage.threshold.toNat + 1 - r.usage.failures.toNat)

/-- Attempts that are enough, whatever the sweeps release. -/
def attempts (r : Region) : Nat :=
  if r.live = [] then 1
  else (r.usage.threshold.toNat + 1) * (r.live.length - 1) + r.patience + 1

theorem inShortage_iff {r : Region} :
    r.inShortage = true ↔ r.usage.threshold.toNat < r.usage.failures.toNat := by
  rw [inShortage, Usage.inShortage, decide_eq_true_eq, UInt64.lt_iff_toNat_lt]

end Region

end RegionStore
