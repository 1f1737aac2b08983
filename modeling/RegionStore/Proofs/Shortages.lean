import RegionStore.Proofs.CheckedRuns
import RegionStore.Proofs.RegionCalls
import RegionStore.Proofs.Retries

/-!
Shortages. The failure count of a region tells how many placements it has rejected since the count
last started over, so that what a region was asked for settles when it is in shortage.
-/
namespace RegionStore

variable {α β : Type}

/-- What an operation means for the failure count of a region. -/
inductive Mark where
  /-- A placement was rejected for lack of room. -/
  | rejection
  /-- The count starts over. -/
  | renewal
  | other
  deriving DecidableEq

namespace Mark

def ofAnswer : Except StoreError β → Mark
  | .error refusal => if refusal.isExhaustion then rejection else other
  | .ok _ => other

/-- A sweep for room that frees something. -/
def ofSweep : Except StoreError Nat → Mark
  | .error _ => other
  | .ok freed => if 0 < freed then renewal else other

def count (failures : UInt64) : Mark → UInt64
  | rejection => failures + 1
  | renewal => 0
  | other => failures

theorem ofAnswer_of_error {refusal : StoreError} (h : refusal.isExhaustion = false) :
    ofAnswer (.error refusal : Except StoreError β) = other := by
  rw [ofAnswer, h]
  rfl

/-- How many rejections there are behind the last renewal. -/
def recent (marks : List Mark) : Nat :=
  (marks.reverse.takeWhile (· ≠ renewal)).count rejection

theorem recent_concat (marks : List Mark) (m : Mark) :
    recent (marks ++ [m]) = match m with
      | rejection => recent marks + 1
      | renewal => 0
      | other => recent marks := by
  rw [recent, List.reverse_concat]
  cases m with
  | rejection => exact List.count_cons_self
  | renewal => rfl
  | other => exact List.count_cons_of_ne (show other ≠ rejection by decide)

theorem recent_le (marks : List Mark) : recent marks ≤ marks.count rejection := by
  rw [← List.count_reverse]
  exact (List.takeWhile_sublist _).count_le rejection

/-- Counting in a word agrees with counting, as long as the number fits. -/
theorem count_recent (marks : List Mark) (m : Mark) :
    m.count (.ofNat (recent marks)) = .ofNat (recent (marks ++ [m])) := by
  rw [recent_concat]
  cases m with
  | rejection => exact (UInt64.ofNat_add _ _).symm
  | renewal => rfl
  | other => rfl

end Mark

namespace Region

/-- A count starts over when the region is cleared, and when a sweep for room frees something. -/
def mark (r : Region) (now : Int) : Op → Mark
  | .submit q => .ofAnswer (r.submit now q).1
  | .view _ _ => .other
  | .edit _ _ => .other
  | .update k bytes => .ofAnswer (r.update now k bytes).1
  | .release _ => .other
  | .collectExpired _ => .other
  | .collectLeastUsed batch => .ofSweep (r.collectLeastUsed batch now).1
  | .setThreshold _ => .other
  | .clear => .renewal

def marks (r : Region) : List (Int × Op) → List Mark
  | [] => []
  | (now, op) :: rest => r.mark now op :: (r.step now op).marks rest

theorem marks_append (r : Region) (ops others : List (Int × Op)) :
    r.marks (ops ++ others) = r.marks ops ++ (r.run ops).marks others := by
  induction ops generalizing r with
  | nil => rfl
  | cons head rest ih => exact congrArg (_ :: ·) (ih _)

/-- Placements that a region has rejected for lack of room, since its count last started over. -/
def rejections (r : Region) (ops : List (Int × Op)) : Nat := Mark.recent (r.marks ops)

def Op.threshold? : Op → Option UInt64
  | setThreshold threshold => some threshold
  | _ => none

/-- The threshold that was set last. -/
def lastThreshold (first : UInt64) (ops : List (Int × Op)) : UInt64 :=
  ((ops.filterMap fun op => op.2.threshold?).getLast?).getD first

theorem lastThreshold_concat (first : UInt64) (ops : List (Int × Op)) (op : Int × Op) :
    lastThreshold first (ops ++ [op]) = op.2.threshold?.getD (lastThreshold first ops) := by
  rw [lastThreshold, List.filterMap_append]
  cases hop : op.2.threshold? with
  | none => simp [hop, lastThreshold]
  | some threshold => simp [hop]

/-! ### What one operation counts -/

/-- The failure count is as the mark says, and the threshold stays. -/
structure Counted (r : Region) (m : Mark) (r' : Region) : Prop where
  failures : r'.usage.failures = m.count r.usage.failures
  threshold : r'.usage.threshold = r.usage.threshold

variable {r r' : Region} {now : Int} {k : Handle} {e : Entry}

theorem Counted.of_usage (same : r'.usage = r.usage) : Counted r .other r' :=
  ⟨congrArg Usage.failures same, congrArg Usage.threshold same⟩

/-- Bytes in use play no part. -/
theorem Counted.of_used (same : ∃ used, r'.usage = { r.usage with used }) :
    Counted r .other r' := by
  obtain ⟨used, husage⟩ := same
  have hfailures := congrArg Usage.failures husage
  have hthreshold := congrArg Usage.threshold husage
  exact ⟨hfailures, hthreshold⟩

theorem fill_refusal {c : Content} {refusal : StoreError} (refused : r.fill e c = .error refusal) :
    refusal.isExhaustion = false := by
  cases c with
  | reserved n => cases refused
  | payload bytes =>
    simp only [fill] at refused
    split at refused
    · cases refused
      rfl
    · split at refused
      · cases refused
        rfl
      · cases refused

theorem counted_place (r : Region) (now : Int) (q : Request) :
    Counted r (.ofAnswer (r.place now q).1) (r.place now q).2 := by
  unfold place
  split
  · exact ⟨rfl, rfl⟩
  · split
    · exact ⟨rfl, rfl⟩
    · split
      · next refusal hfill =>
        rw [Mark.ofAnswer_of_error (fill_refusal hfill)]
        exact .of_usage rfl
      · exact ⟨rfl, rfl⟩

theorem counted_submit (r : Region) (now : Int) (q : Request) :
    Counted r (.ofAnswer (r.submit now q).1) (r.submit now q).2 := by
  unfold submit
  split
  · next refusal refused =>
    rw [Mark.ofAnswer_of_error (Request.outright_of_refusal? refused).isExhaustion]
    exact .of_usage rfl
  · exact counted_place r now q

theorem usage_view (r : Region) (now : Int) (k : Handle) (f : List UInt8 → α) :
    (r.view now k f).2.usage = r.usage := by
  unfold view
  split
  · rfl
  · split <;> rfl

theorem usage_edit (r : Region) (k : Handle) (f : List UInt8 → List UInt8 × α) :
    (r.edit k f).2.usage = r.usage := by
  unfold edit
  split
  · rfl
  · split <;> rfl

theorem usage_overwrite (r : Region) (k : Handle) (bytes : List UInt8) :
    (r.overwrite k bytes).2.usage = r.usage := by
  unfold overwrite
  split
  · rfl
  · split <;> rfl

theorem usage_update_inPlace (inPlace : r.placement.strategy ≠ .firstFit) (now : Int) (k : Handle)
    (bytes : List UInt8) : (r.update now k bytes).2.usage = r.usage := by
  unfold update
  split
  · rfl
  · split
    · rfl
    · split
      · rfl
      · split
        · next order placement =>
          rw [placement] at inPlace
          exact absurd rfl inPlace
        · exact r.usage_overwrite k bytes
        · exact r.usage_overwrite k bytes

/-- An update is never rejected for lack of room. -/
theorem Sound.mark_update (h : r.Sound) (now : Int) (k : Handle) (bytes : List UInt8) :
    r.mark now (.update k bytes) = .other := by
  rw [mark]
  cases answer : (r.update now k bytes).1 with
  | ok k' => rfl
  | error refusal => exact Mark.ofAnswer_of_error (h.update_refused answer).isExhaustion

theorem Sound.counted_update (h : r.Sound) (now : Int) (k : Handle) (bytes : List UInt8) :
    Counted r .other (r.update now k bytes).2 := by
  rcases h.update_cases now k bytes with ⟨refusal, hupdate⟩ |
    ⟨e, -, ⟨r', -, overwritten⟩ | ⟨-, r₁, k', r', released, hupdate, placed⟩⟩
  · rw [hupdate]
    exact .of_usage rfl
  · exact .of_usage (usage_update_inPlace overwritten.inPlace now k bytes)
  · have hreleased : Counted r .other r₁ := by
      have husage := r.usage_release k
      rw [released.answer] at husage
      exact .of_used husage
    have hplaced := r₁.counted_place now ⟨.payload bytes, e.lease.expiry, e.lease.tag⟩
    rw [placed.answer] at hplaced
    rw [hupdate]
    exact ⟨hplaced.failures.trans hreleased.failures, hplaced.threshold.trans hreleased.threshold⟩

theorem counted_collectLeastUsed (r : Region) (batch : Nat) (now : Int) :
    Counted r (r.mark now (.collectLeastUsed batch)) (r.collectLeastUsed batch now).2 := by
  have hreleased := Counted.of_used (r.usage_releaseAll
    ((leastUsed r.live now (evictionCount r.live.length batch)).map (·.handle)))
  unfold mark collectLeastUsed
  dsimp only
  split
  · exact .of_usage rfl
  · split
    · exact .of_usage rfl
    · split
      · next hrelease =>
        rw [hrelease] at hreleased
        exact hreleased
      · next freed r₁ hrelease =>
        rw [hrelease] at hreleased
        dsimp only [Mark.ofSweep]
        split
        · exact ⟨rfl, hreleased.threshold⟩
        · exact hreleased

/-- Any operation counts as its mark says, and sets the threshold if it is there for that. -/
theorem Sound.counted_step (h : r.Sound) (now : Int) (op : Op) :
    (r.step now op).usage.failures = (r.mark now op).count r.usage.failures ∧
      (r.step now op).usage.threshold = op.threshold?.getD r.usage.threshold := by
  suffices op.threshold? = none → Counted r (r.mark now op) (r.step now op) by
    cases op with
    | setThreshold threshold => exact ⟨rfl, rfl⟩
    | _ => exact ⟨(this rfl).failures, (this rfl).threshold⟩
  intro unset
  cases op with
  | submit q => exact r.counted_submit now q
  | view k f => exact .of_usage (r.usage_view now k f)
  | edit k patch => exact .of_usage (r.usage_edit k patch.run)
  | update k bytes =>
    rw [h.mark_update]
    exact h.counted_update now k bytes
  | release k => exact .of_used (r.usage_release k)
  | collectExpired batch => exact .of_used (r.usage_releaseAll _)
  | collectLeastUsed batch => exact r.counted_collectLeastUsed batch now
  | setThreshold threshold => cases unset
  | clear => exact ⟨rfl, rfl⟩

/-- After any run the failure count is that of the rejections since it last started over. -/
theorem Sound.counted_run (h : r.Sound) (fresh : r.usage.failures = 0) (ops : List (Int × Op)) :
    (r.run ops).usage.failures = .ofNat (r.rejections ops) ∧
      (r.run ops).usage.threshold = lastThreshold r.usage.threshold ops := by
  induction ops using List.reverseRecOn with
  | nil => exact ⟨fresh, rfl⟩
  | append_singleton ops op ih =>
    obtain ⟨hfailures, hthreshold⟩ := ih
    have hstep := (h.run ops).sound.counted_step op.1 op.2
    rw [hfailures, hthreshold] at hstep
    rw [run_append, rejections, marks_append, lastThreshold_concat]
    exact ⟨hstep.1.trans (Mark.count_recent _ _), hstep.2⟩

/-! ### Shortages along a run -/

theorem threshold?_of_rejection {op : Op} (marked : r.mark now op = .rejection) :
    op.threshold? = none := by
  cases op with
  | setThreshold threshold => cases marked
  | _ => rfl

theorem lastThreshold_bounded {first : UInt64} {ops : List (Int × Op)}
    (word : first.toNat + 1 < UInt64.size) (bounded : ∀ op ∈ ops, op.2.bounded = true) :
    (lastThreshold first ops).toNat + 1 < UInt64.size := by
  unfold lastThreshold
  cases hlast : (ops.filterMap fun op => op.2.threshold?).getLast? with
  | none => exact word
  | some threshold =>
    obtain ⟨⟨now, op⟩, member, hop⟩ := List.mem_filterMap.1 (List.mem_of_getLast? hlast)
    have hbounded := bounded (now, op) member
    cases op with
    | setThreshold threshold' =>
      cases hop
      exact of_decide_eq_true hbounded
    | _ => cases hop

theorem rejections_le {ops earlier : List (Int × Op)} (before : earlier <+: ops) :
    r.rejections earlier ≤ (r.marks ops).count .rejection := by
  obtain ⟨later, rfl⟩ := before
  rw [marks_append, List.count_append]
  exact Nat.le_trans (Mark.recent_le _) (Nat.le_add_right _ _)

/-- What the failure count and the shortage of a region go by, wherever a run of operations has got
to. -/
structure ShortageFollows (made : Region) (ops : List (Int × Op)) : Prop where
  failures : ∀ earlier, earlier <+: ops →
    (made.run earlier).usage.failures.toNat = made.rejections earlier
  threshold : ∀ earlier, earlier <+: ops →
    (made.run earlier).usage.threshold = lastThreshold made.usage.threshold earlier
  short : ∀ earlier, earlier <+: ops → ((made.run earlier).inShortage = true ↔
    (made.run earlier).usage.threshold.toNat < made.rejections earlier)
  /-- Nothing changes the count but rejections and renewals, -/
  kept : ∀ earlier now op, earlier ++ [(now, op)] <+: ops →
    (made.run earlier).mark now op = .other →
      ((made.run earlier).step now op).usage.failures = (made.run earlier).usage.failures
  /-- and an update is neither. -/
  updates : ∀ earlier now k bytes, earlier <+: ops →
    (made.run earlier).mark now (.update k bytes) = .other
  starts : ∀ earlier now op, earlier ++ [(now, op)] <+: ops →
    (made.run earlier).mark now op = .rejection →
      ((made.run earlier).usage.failureStartsShortage = true ↔
        (made.run earlier).inShortage = false ∧
          ((made.run earlier).step now op).inShortage = true)

theorem Sound.shortageFollows (h : r.Sound) (fresh : r.usage.failures = 0)
    (word : r.usage.threshold.toNat + 1 < UInt64.size) {ops : List (Int × Op)}
    (bounded : ∀ op ∈ ops, op.2.bounded = true)
    (few : (r.marks ops).count .rejection < UInt64.size) : ShortageFollows r ops := by
  have hfailures (earlier : List (Int × Op)) (before : earlier <+: ops) :
      (r.run earlier).usage.failures.toNat = r.rejections earlier := by
    rw [(h.counted_run fresh earlier).1]
    exact UInt64.toNat_ofNat_of_lt' (Nat.lt_of_le_of_lt (rejections_le before) few)
  refine ⟨hfailures, fun earlier _ => (h.counted_run fresh earlier).2, fun earlier before => ?_,
    fun earlier now op _ marked => ?_,
    fun earlier now k bytes _ => (h.run earlier).sound.mark_update now k bytes,
    fun earlier now op before marked => ?_⟩
  · rw [inShortage_iff, hfailures earlier before]
  · have hstep := ((h.run earlier).sound.counted_step now op).1
    rwa [marked] at hstep
  · have hearlier : earlier <+: ops := (List.prefix_append _ _).trans before
    have hstep := (h.run earlier).sound.counted_step now op
    rw [marked, threshold?_of_rejection marked] at hstep
    have hthreshold : (r.run earlier).usage.threshold.toNat + 1 < UInt64.size := by
      rw [(h.counted_run fresh earlier).2]
      exact lastThreshold_bounded word fun op member => bounded op (hearlier.subset member)
    have hroom : (r.run earlier).usage.failures.toNat + 1 < UInt64.size := by
      have hmore := rejections_le (r := r) before
      rw [rejections, marks_append, marks, marked, marks, Mark.recent_concat] at hmore
      rw [hfailures earlier hearlier]
      exact Nat.lt_of_le_of_lt hmore few
    have hshort : ((r.run earlier).step now op).inShortage =
        (r.run earlier).usage.recordFailure.inShortage := by
      change decide (_ < _) = decide (_ < _)
      rw [hstep.1, hstep.2]
      rfl
    rw [hshort]
    exact Usage.failureStartsShortage_iff hthreshold hroom

end Region

namespace Store

variable {s : Store}

theorem bounded_callsOfSubmit (s : Store) (now : Int) (q : Request) :
    ∀ c ∈ s.callsOfSubmit now q, c.op.bounded = true := by
  unfold callsOfSubmit
  split
  · exact List.forall_mem_nil _
  · exact List.forall_mem_map.2 fun i _ => rfl

theorem bounded_callsOfMove (s : Store) (now : Int) (k : Handle) (bytes : List UInt8) :
    ∀ c ∈ s.callsOfMove now k bytes, c.op.bounded = true := by
  unfold callsOfMove
  split
  · exact List.forall_mem_nil _
  · refine List.forall_mem_append.2 ⟨s.bounded_callsOfSubmit now _, ?_⟩
    split
    · exact List.forall_mem_singleton.2 rfl
    · exact List.forall_mem_nil _

/-- Only a threshold that is set past the store needs a bound. -/
theorem bounded_callsOf (s : Store) (now : Int) {step : Command α} (bounded : step.bounded = true) :
    ∀ c ∈ s.callsOf now step, c.op.bounded = true := by
  cases step with
  | inRegion i op => exact List.forall_mem_singleton.2 bounded
  | ask op =>
    cases op with
    | put bytes expiry tag => exact s.bounded_callsOfSubmit now _
    | reserve size expiry tag => exact s.bounded_callsOfSubmit now _
    | updateOrMove k bytes =>
      unfold callsOf callsOfOp
      refine List.forall_mem_cons.2 ⟨rfl, ?_⟩
      split
      · exact bounded_callsOfMove _ now k bytes
      · exact List.forall_mem_nil _
    | info k => exact List.forall_mem_nil _
    | collectExpired => exact List.forall_mem_map.2 fun i _ => rfl
    | collectLeastUsed => exact List.forall_mem_map.2 fun i _ => rfl
    | clear => exact List.forall_mem_map.2 fun i _ => rfl
    | _ => exact List.forall_mem_singleton.2 rfl

theorem bounded_callsTo (i : Nat) (s : Store) {steps : List (Int × Command α)}
    (bounded : ∀ step ∈ steps, step.2.bounded = true) :
    ∀ op ∈ s.callsTo i steps, op.2.bounded = true := by
  suffices ∀ c ∈ s.callsAlong steps, c.op.bounded = true from
    List.forall_mem_map.2 fun c member => this c (List.mem_of_mem_filter member)
  induction steps generalizing s with
  | nil => exact List.forall_mem_nil _
  | cons head rest ih =>
    obtain ⟨hfirst, hrest⟩ := List.forall_mem_cons.1 bounded
    exact List.forall_mem_append.2 ⟨s.bounded_callsOf head.1 hfirst, ih _ hrest⟩

/-- Shortage follows history. After any run of a store each region is what the calls that reached it
have made of it, and all along them its failure count is the number of placements that it rejected
for lack of room since it was made, cleared, or swept for room with some effect. The region is in
shortage while that number exceeds the threshold that was set last, and a rejection is told to have
started a shortage exactly if it has. -/
theorem shortage_follows_history {settings : Settings} (built : build settings = .ok s)
    (word : settings.memory.regionSize < UInt64.size)
    (threshold : settings.eviction.shortageThreshold + 1 < UInt64.size)
    (steps : List (Int × Command α)) (bounded : ∀ step ∈ steps, step.2.bounded = true) {i : Nat}
    {made : Region} (found : s.regions[i]? = some made)
    (few : (made.marks (s.callsTo i steps)).count .rejection < UInt64.size) :
    (s.run steps).2.regions[i]? = some (made.run (s.callsTo i steps)) ∧
      made.ShortageFollows (s.callsTo i steps) := by
  have regular := regular_build built word
  constructor
  · have hserved := regular.served_run steps i
    rwa [found] at hserved
  · obtain ⟨r₀, new, -, -, hmade⟩ := built_region built (List.mem_of_getElem? found)
    have husage : made.usage = ⟨0, 0, .ofNat settings.eviction.shortageThreshold⟩ := by
      rw [hmade, Region.setThreshold, new.usage]
      rfl
    apply (regular.sound i made found).1.shortageFollows
    · rw [husage]
    · rw [husage, UInt64.toNat_ofNat']
      exact Nat.lt_of_le_of_lt (Nat.succ_le_succ (Nat.mod_le _ _)) threshold
    · exact s.bounded_callsTo i bounded
    · exact few

/-- A region that tolerates one failure rejects two requests and is in shortage. What is refused as
empty or as too long is no rejection, and clearing starts the count over. -/
theorem shortage_follows_history_renewed :
    ∃ (s : Store) (steps : List (Int × Command Unit)) (made : Region),
      s.regions[0]? = some made ∧
      made.marks (s.callsTo 0 steps) = [.other, .rejection, .rejection, .other, .renewal] ∧
      (s.run steps).2.regions[0]? = some (made.run (s.callsTo 0 steps)) ∧
      (made.run (s.callsTo 0 steps)).usage.failures.toNat = 0 ∧
      (made.run ((s.callsTo 0 steps).take 2)).usage.failureStartsShortage = true ∧
      (made.run ((s.callsTo 0 steps).take 3)).inShortage = true := by
  let settings : Settings :=
    ⟨⟨2, 4, .largestFit, [], 1, false⟩, .default, ⟨50, 0, 1, 1000⟩, .default⟩
  let steps : List (Int × Command Unit) := [(10, .ask (.put [1, 2, 3, 4] .never 0)),
    (20, .ask (.put [5, 6, 7] .never 0)), (30, .ask (.put [8, 9] .never 0)),
    (40, .ask (.put [] .never 0)), (50, .ask (.updateOrMove ⟨0, 0, 0⟩ [1, 2, 3, 4, 5])),
    (60, .ask .clear)]
  obtain ⟨s, built⟩ : ∃ s, build settings = .ok s := ⟨_, rfl⟩
  obtain ⟨made, found⟩ : ∃ made, s.regions[0]? = some made := by
    cases built
    exact ⟨_, rfl⟩
  obtain ⟨hmarks, hthird, hcalm, hshort⟩ :
      made.marks (s.callsTo 0 steps) = [.other, .rejection, .rejection, .other, .renewal] ∧
      ((s.callsTo 0 steps)[2]?).map (fun op =>
        (made.run ((s.callsTo 0 steps).take 2)).mark op.1 op.2) = some .rejection ∧
      (made.run ((s.callsTo 0 steps).take 2)).inShortage = false ∧
      (made.run ((s.callsTo 0 steps).take 3)).inShortage = true := by
    cases built
    cases found
    decide
  obtain ⟨hregion, follows⟩ := shortage_follows_history built (by decide) (by decide) steps
    (by decide) found (by rw [hmarks]; decide)
  refine ⟨s, steps, made, found, hmarks, hregion, ?_, ?_, hshort⟩
  · rw [follows.failures _ (List.prefix_refl _), Region.rejections, hmarks]
    rfl
  · obtain ⟨⟨now, op⟩, hop, marked⟩ := Option.map_eq_some_iff.1 hthird
    have htake : (s.callsTo 0 steps).take 3 = (s.callsTo 0 steps).take 2 ++ [(now, op)] := by
      rw [List.take_add_one, hop]
      rfl
    have hbefore := List.take_prefix 3 (s.callsTo 0 steps)
    rw [htake] at hbefore hshort
    rw [Region.run_append] at hshort
    exact (follows.starts _ now op hbefore marked).2 ⟨hcalm, hshort⟩

end Store

end RegionStore
