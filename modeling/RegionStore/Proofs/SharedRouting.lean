import RegionStore.Proofs.CyclicOrder

/-!
A routing that callers share. Each of them begins requests and asks again whenever the region that
it was given fails; in between the others do the same, and anyone may start the routing over.
-/
namespace RegionStore.Routing

inductive Call (ι : Type) where
  /-- A caller begins a request. -/
  | start (caller : ι)
  /-- The region that a caller was given last has failed. -/
  | retry (caller : ι)
  | reset
  deriving DecidableEq

structure Shared (ι : Type) where
  routing : Routing
  /-- What each caller has been answered in its latest request. -/
  answers : ι → List (Option Nat)
  /-- The regions that callers were given since the routing was last started over. -/
  handed : List Nat

namespace Shared

variable {ι : Type} [DecidableEq ι]

def fresh (p : Routing) : Shared ι := ⟨p, fun _ => [], []⟩

/-- A caller asks once more, after the answers it has had. -/
def ask (regions : Nat) (s : Shared ι) (caller : ι) (had : List (Option Nat))
    (previous : Option Nat) : Shared ι :=
  let (answer, routing) := s.routing.next previous (had.length + 1) regions
  ⟨routing, Function.update s.answers caller (had ++ [answer]), s.handed ++ answer.toList⟩

/-- Only a caller that was given a region can have it fail. -/
def step (regions : Nat) (s : Shared ι) : Call ι → Shared ι
  | .start caller => s.ask regions caller [] none
  | .retry caller =>
    match (s.answers caller).getLast? with
    | some (some failed) => s.ask regions caller (s.answers caller) (some failed)
    | _ => s
  | .reset => { s with routing := s.routing.reset, handed := [] }

def run (regions : Nat) (s : Shared ι) (calls : List (Call ι)) : Shared ι :=
  calls.foldl (step regions) s

variable {s : Shared ι} {regions attempts first i : Nat} {caller other : ι}

theorem answers_ask_of_ne (h : other ≠ caller) (had : List (Option Nat)) (previous : Option Nat) :
    (s.ask regions caller had previous).answers other = s.answers other :=
  Function.update_of_ne h _ _

/-- No caller is answered but the one that asks. -/
theorem answers_step_of_ne (s : Shared ι) (regions : Nat) {call : Call ι}
    (started : call ≠ .start caller) (retried : call ≠ .retry caller) :
    (s.step regions call).answers caller = s.answers caller := by
  cases call with
  | start c =>
    simp only [step]
    exact answers_ask_of_ne (fun same => started (congrArg Call.start same.symm)) _ _
  | retry c =>
    simp only [step]
    split
    · exact answers_ask_of_ne (fun same => retried (congrArg Call.retry same.symm)) _ _
    · rfl
  | reset => rfl

/-- Whatever callers do takes the routing on turn by turn. -/
theorem turns_step (s : Shared ι) (regions : Nat) (call : Call ι) :
    Turns regions s.routing (s.step regions call).routing := by
  cases call with
  | start c => exact .single (.next none 1)
  | retry c =>
    simp only [step]
    split
    · next failed _ => exact .single (.next (some failed) ((s.answers c).length + 1))
    · exact .refl
  | reset => exact .single .reset

theorem turns_run (s : Shared ι) (regions : Nat) (calls : List (Call ι)) :
    Turns regions s.routing (s.run regions calls).routing := by
  induction calls generalizing s with
  | nil => exact .refl
  | cons call rest ih => exact (s.turns_step regions call).trans (ih _)

end Shared

/-! ### Sequential routing -/

section Sequential

variable {p : Routing} {regions active first i : Nat}

theorem Turns.sequential (turns : Turns regions (.sequential active) p) :
    ∃ active, p = .sequential active := by
  induction turns with
  | refl => exact ⟨active, rfl⟩
  | tail _ turn ih =>
    obtain ⟨active, rfl⟩ := ih
    cases turn with
    | next previous attempt =>
      simp only [next]
      split
      · exact ⟨_, rfl⟩
      · split <;> exact ⟨_, rfl⟩
    | reset => exact ⟨0, rfl⟩

/-- What a request is answered that fails everywhere: every region in cyclic order, then none. -/
def course (regions first : Nat) : List (Option Nat) :=
  (cycle regions first regions).map some ++ [none]

theorem length_course (regions first : Nat) : (course regions first).length = regions + 1 := by
  rw [course, List.length_append, List.length_map, length_cycle]
  rfl

theorem getElem?_course_of_lt (inside : i < regions) :
    (course regions first)[i]? = some (some ((first + i) % regions)) := by
  have hlength : i < ((cycle regions first regions).map some).length := by simpa using inside
  rw [course, List.getElem?_append_left hlength]
  simp [cycle, inside]

theorem getElem?_course_self (regions first : Nat) :
    (course regions first)[regions]? = some none := by
  rw [course, List.getElem?_append_right (by simp)]
  simp

/-- The answer to an attempt depends on the region that failed before it, whichever is active. -/
theorem next_sequential_course (active first : Nat) (inside : i < regions) :
    ((sequential active).next (some ((first + i) % regions)) (i + 2) regions).1 =
      ((course regions first)[i + 1]?).join := by
  rcases Nat.lt_or_eq_of_le (Nat.succ_le_of_lt inside) with more | last
  · simp only [next, if_neg (show ¬ (regions = 0 ∨ regions < i + 2) by omega), Nat.mod_add_mod]
    rw [getElem?_course_of_lt more, Nat.add_assoc]
    rfl
  · subst last
    simp only [next, if_pos (show i.succ = 0 ∨ i.succ < i + 2 by omega)]
    rw [getElem?_course_self]
    rfl

namespace Shared

variable {ι : Type} [DecidableEq ι] {s : Shared ι} {caller : ι} {n : Nat}

/-- A request begins at the active region. -/
theorem answers_start (caller : ι) (sequential : s.routing = .sequential active)
    (inside : active < regions) :
    (s.step regions (.start caller)).answers caller = (course regions active).take 1 := by
  have hpos : 0 < regions := Nat.zero_lt_of_lt inside
  have hnext : (s.routing.next none 1 regions).1 = some (active % regions) := by
    rw [sequential]
    simp only [next, if_neg (show ¬ (regions = 0 ∨ regions < 1) by omega)]
  change Function.update s.answers caller [(s.routing.next none 1 regions).1] caller = _
  rw [Function.update_self, hnext, List.take_add_one, getElem?_course_of_lt hpos]
  rfl

/-- Asking again gets the next answer of the course, up to its end. -/
theorem answers_retry (sequential : s.routing = .sequential active)
    (had : s.answers caller = (course regions first).take (n + 1)) :
    (s.step regions (.retry caller)).answers caller = (course regions first).take (n + 2) := by
  have hlength := length_course regions first
  rcases Nat.lt_or_ge n regions with inside | beyond
  · have hcount : (s.answers caller).length = n + 1 := by
      rw [had, List.length_take]
      omega
    have hlast : (s.answers caller).getLast? = some (some ((first + n) % regions)) := by
      rw [List.getLast?_eq_getElem?, hcount, had, Nat.add_sub_cancel,
        List.getElem?_take_of_lt (Nat.lt_succ_self n), getElem?_course_of_lt inside]
    have hnext := next_sequential_course active first inside
    obtain ⟨answer, hanswer⟩ : ∃ answer, (course regions first)[n + 1]? = some answer :=
      ⟨_, List.getElem?_eq_getElem (by omega)⟩
    rw [hanswer, Option.join_some] at hnext
    simp only [step, hlast, ask, hcount, sequential]
    rw [Function.update_self, hnext, had, List.take_add_one (i := n + 1), hanswer]
    rfl
  · have hall : (course regions first).take (n + 1) = course regions first :=
      List.take_of_length_le (by omega)
    have hlast : (s.answers caller).getLast? = some none := by
      rw [had, hall, course, List.getLast?_concat]
    simp only [step, hlast]
    rw [had, hall, List.take_of_length_le (by omega)]

/-- As often as a caller has asked again, so far it has come on the course, whatever others do. -/
theorem answers_run (sequential : s.routing = .sequential active)
    (had : s.answers caller = (course regions first).take (n + 1)) {later : List (Call ι)}
    (same : .start caller ∉ later) : (s.run regions later).answers caller =
      (course regions first).take (later.count (.retry caller) + n + 1) := by
  induction later generalizing s active n with
  | nil => rw [List.count_nil, Nat.zero_add]; exact had
  | cons call rest ih =>
    simp only [List.mem_cons, not_or] at same
    obtain ⟨started, same⟩ := same
    have hturns := s.turns_step regions call
    rw [sequential] at hturns
    obtain ⟨active', sequential'⟩ := hturns.sequential
    by_cases retried : call = .retry caller
    · subst retried
      have hrest := ih sequential' (answers_retry sequential had) same
      rw [List.count_cons_self, show rest.count (.retry caller) + 1 + n =
        rest.count (.retry caller) + (n + 1) by omega]
      exact hrest
    · have hkept := s.answers_step_of_ne regions (Ne.symm started) retried
      rw [List.count_cons_of_ne retried]
      exact ih sequential' (hkept.trans had) same

end Shared

end Sequential

/-! ### Taking turns -/

namespace Shared

variable {ι : Type} {s : Shared ι} {regions attempts : Nat} {caller : ι}

/-- The regions that a caller was given in its latest request. -/
def offered (s : Shared ι) (caller : ι) : List Nat := (s.answers caller).filterMap id

/-- The cursor counts what was handed out, and no request was given too many regions. -/
structure InTurn (regions attempts : Nat) (s : Shared ι) : Prop where
  routing : s.routing = .roundRobin (.ofNat s.handed.length) attempts
  handed : s.handed = (List.range s.handed.length).map fun j => (UInt64.ofNat j).toNat % regions
  limited : ∀ caller, (s.offered caller).length ≤ attempts

theorem InTurn.fresh (regions attempts : Nat) :
    (fresh (roundRobin 0 attempts) : Shared ι).InTurn regions attempts :=
  ⟨rfl, rfl, fun _ => Nat.zero_le _⟩

/-- Before the cursor wraps, regions are handed out in cyclic order. -/
theorem InTurn.handed_eq_cycle (h : s.InTurn regions attempts)
    (word : s.handed.length < UInt64.size) : s.handed = cycle regions 0 s.handed.length := by
  rw [h.handed, List.length_map, List.length_range, cycle]
  refine List.map_congr_left fun j member => ?_
  rw [List.mem_range] at member
  rw [UInt64.toNat_ofNat_of_lt' (Nat.lt_trans member word), Nat.zero_add]

variable [DecidableEq ι]

theorem offered_ask (s : Shared ι) (regions : Nat) (caller other : ι) (had : List (Option Nat))
    (previous : Option Nat) : (s.ask regions caller had previous).offered other =
      if other = caller then
        had.filterMap id ++ (s.routing.next previous (had.length + 1) regions).1.toList
      else s.offered other := by
  simp only [offered, ask, Function.update_apply]
  split
  · rw [List.filterMap_append]
    cases (s.routing.next previous (had.length + 1) regions).1 <;> rfl
  · rfl

/-- An answer takes the next region in turn, unless the request has had all that it may. -/
theorem InTurn.ask (h : s.InTurn regions attempts) {had : List (Option Nat)}
    (limited : (had.filterMap id).length ≤ attempts) (previous : Option Nat) :
    (s.ask regions caller had previous).InTurn regions attempts := by
  have hoffered := fun other => s.offered_ask regions caller other had previous
  by_cases spent : regions = 0 ∨ attempts < had.length + 1
  · have hnext : s.routing.next previous (had.length + 1) regions = (none, s.routing) := by
      rw [h.routing]
      simp only [next, if_pos spent]
    have hask : s.ask regions caller had previous =
        { s with answers := Function.update s.answers caller (had ++ [none]) } := by
      simp only [Shared.ask, hnext, Option.toList_none, List.append_nil]
    refine ⟨?_, ?_, fun other => ?_⟩
    · rw [hask]
      exact h.routing
    · rw [hask]
      exact h.handed
    · rw [hoffered other, hnext]
      split
      · rwa [Option.toList_none, List.append_nil]
      · exact h.limited other
  · have hnext : s.routing.next previous (had.length + 1) regions =
        (some ((UInt64.ofNat s.handed.length).toNat % regions),
          roundRobin (.ofNat (s.handed.length + 1)) attempts) := by
      rw [h.routing, UInt64.ofNat_add]
      simp only [next, if_neg spent]
      rfl
    have hhanded : (s.ask regions caller had previous).handed =
        s.handed ++ [(UInt64.ofNat s.handed.length).toNat % regions] := by
      simp only [Shared.ask, hnext, Option.toList_some]
    have hlength : (s.ask regions caller had previous).handed.length = s.handed.length + 1 := by
      rw [hhanded, List.length_append, List.length_singleton]
    refine ⟨?_, ?_, fun other => ?_⟩
    · rw [hlength]
      exact congrArg Prod.snd hnext
    · rw [hlength, hhanded, List.range_succ, List.map_append, ← h.handed]
      rfl
    · have hfew := List.length_filterMap_le id had
      rw [hoffered other, hnext]
      split
      · rw [List.length_append, Option.toList_some, List.length_singleton]
        omega
      · exact h.limited other

theorem InTurn.step (h : s.InTurn regions attempts) (call : Call ι) :
    (s.step regions call).InTurn regions attempts := by
  cases call with
  | start c => exact h.ask (Nat.zero_le _) none
  | retry c =>
    simp only [Shared.step]
    split
    · next failed _ => exact h.ask (h.limited c) (some failed)
    · exact h
  | reset =>
    refine ⟨?_, rfl, h.limited⟩
    change s.routing.reset = _
    rw [h.routing]
    rfl

theorem InTurn.run (h : s.InTurn regions attempts) (calls : List (Call ι)) :
    (s.run regions calls).InTurn regions attempts := by
  induction calls generalizing s with
  | nil => exact h
  | cons call rest ih => exact ih (h.step call)

/-- Callers that share a routing do not disturb each other's requests. Under sequential routing a
request that fails everywhere is given each region once, in cyclic order from the one that was
active when it began, and then none, whatever other callers do in between. Under round robin no
request is given more regions than it may, and since the last reset the regions were handed out to
all callers together in cyclic order from the first. -/
theorem requests_interleave (n : Nat) :
    (∀ active < n, ∀ calls : List (Call ι), ∃ first < n,
      ((fresh (sequential active)).run n calls).routing = sequential first ∧
      (cycle n first n).Nodup ∧
      ∀ (caller : ι) (later : List (Call ι)), .start caller ∉ later →
        (((fresh (sequential active)).run n calls).run n (.start caller :: later)).answers caller =
          (course n first).take (later.count (.retry caller) + 1)) ∧
    (∀ (attempts : Nat) (calls : List (Call ι)),
      let s := (fresh (roundRobin 0 attempts)).run n calls
      (∀ caller, (s.offered caller).length ≤ attempts) ∧
      (s.handed.length < UInt64.size → s.handed = cycle n 0 s.handed.length)) := by
  refine ⟨fun active inside calls => ?_, fun attempts calls => ?_⟩
  · have hturns := turns_run (fresh (sequential active)) n calls
    obtain ⟨first, hrouting⟩ := hturns.sequential
    have hwithin : (sequential first).Within n := by
      rw [← hrouting]
      exact Within.turns (p := sequential active) inside hturns
    refine ⟨first, hwithin, hrouting, nodup_cycle first (Nat.le_refl n), ?_⟩
    intro caller later same
    have hstart := answers_start caller hrouting hwithin
    obtain ⟨active', hactive'⟩ : ∃ active', (((fresh (sequential active)).run n calls).step n
        (.start caller)).routing = sequential active' := by
      have hturn := turns_step ((fresh (sequential active)).run n calls) n
        (.start caller)
      rw [hrouting] at hturn
      exact hturn.sequential
    exact answers_run hactive' hstart same
  · have hinTurn := (InTurn.fresh n attempts).run calls
    exact ⟨hinTurn.limited, hinTurn.handed_eq_cycle⟩

/-- While one caller tries the three regions from the second on, another one asks again, starts the
routing over and begins a new request. By turns, two callers take two regions each. -/
theorem requests_interleave_three :
    (((fresh (sequential 0)).run 3 [.start false, .retry false]).run 3 [.start true, .retry false,
      .reset, .retry true, .start false, .retry true, .retry true] : Shared Bool).answers true =
        [some 1, some 2, some 0, none] ∧
    ((fresh (roundRobin 0 2)).run 3 [.start false, .reset, .start true, .start false, .retry true,
      .retry true, .retry false] : Shared Bool).handed = [0, 1, 2, 0] := by
  refine ⟨?_, ?_⟩
  · obtain ⟨first, -, hrouting, -, hanswers⟩ :=
      (@requests_interleave Bool _ 3).1 0 (by decide) [.start false, .retry false]
    cases (show sequential 1 = sequential first from hrouting)
    exact hanswers true [.retry false, .reset, .retry true, .start false, .retry true,
      .retry true] (by decide)
  · obtain ⟨-, hhanded⟩ := (@requests_interleave Bool _ 3).2 2
      [.start false, .reset, .start true, .start false, .retry true, .retry true, .retry false]
    exact hhanded (by decide)

end Shared

end RegionStore.Routing
