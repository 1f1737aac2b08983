import RegionStore.Proofs.Leases
import RegionStore.Proofs.SweepRounds

/-!
When payloads are over. A lifetime counts in whole milliseconds from the time of issue on, so that
no payload is over before its lifetime has passed, and each one is over soon after. A deadline is
kept as a clock reading: one that is further away than the clock counts loses its high bits, and
one that reads as zero is none at all.
-/
namespace RegionStore

variable {l : Lease} {e : Expiry} {d : Duration} {m : Moment} {created now : Int}

/-! ### Moments and durations -/

/-- The milliseconds since the epoch, however many they are. -/
def Moment.millis (m : Moment) : Int := m.nanos / 1000000

theorem Moment.epochMillis_of_millis_le (past : 0 ≤ m.nanos) (counted : m.millis ≤ Millis.latest) :
    m.epochMillis = m.millis :=
  epochMillis_of_le past counted

theorem Moment.epochMillis_le_latest (m : Moment) : m.epochMillis ≤ Millis.latest := by
  unfold epochMillis
  split
  · decide
  · have := Int.bmod_le (x := m.nanos / 1000000) (show 0 < UInt64.size by decide)
    simp only [UInt64.size, Millis.latest] at this ⊢
    omega

/-- A moment that the clock can count to reads as a positive number from the first whole
millisecond on. -/
theorem Moment.epochMillis_pos_iff (counted : m.millis ≤ Millis.latest) :
    0 < m.epochMillis ↔ 1000000 ≤ m.nanos := by
  by_cases before : m.nanos < 0
  · rw [epochMillis_of_neg before]
    omega
  · rw [epochMillis_of_millis_le (by omega) counted, millis]
    omega

/-- Milliseconds, where a part of one counts as a whole one. -/
def Duration.millisUp (d : Duration) : Nat := (d.totalNanos + 999999) / 1000000

/-- From the epoch on, sums with a lifetime saturate at the late end only. -/
theorem Millis.add_min_latest (start : 0 ≤ created) (n : Nat) :
    Millis.add created (min (n : Int) Millis.latest) = min Millis.latest (created + n) := by
  unfold Millis.add Millis.clamp Millis.earliest Millis.latest
  omega

namespace Expiry

theorem isNever_after_iff : (after d).isNever = true ↔ d.totalNanos < 1000000 := by
  rw [isNever_iff, after, inMillis, Duration.millis, Millis.latest]
  dsimp only
  omega

theorem isNever_atMoment_iff (counted : m.millis ≤ Millis.latest) :
    (atMoment m).isNever = true ↔ m.nanos < 1000000 := by
  have := Moment.epochMillis_pos_iff counted
  rw [isNever_iff, atMoment, atMillis]
  dsimp only
  omega

end Expiry

/-! ### Leases -/

namespace Lease

/-- The lease was issued at this reading of the clock and with this expiry, whatever has become of
it since. -/
structure Dates (l : Lease) (e : Expiry) (created : Int) : Prop where
  createdAt : l.createdAt = created
  expiry : l.expiry = e.normalized

theorem dates_issued (len : Nat) (tag : UInt32) (e : Expiry) (created : Int) :
    (issued len tag e created).Dates e created :=
  ⟨rfl, rfl⟩

theorem Dates.after (h : l.Dates e created) (readings : List Int) (lengths : List Nat) :
    (l.after readings lengths).Dates e created :=
  ⟨h.createdAt, h.expiry⟩

/-- The lifetime decides where one is given, and the deadline otherwise. -/
theorem Dates.isExpired_iff (h : l.Dates e created) : l.isExpired now = true ↔
    (0 < e.lifetime ∧ Millis.add created e.lifetime ≤ now) ∨
      (e.lifetime ≤ 0 ∧ 0 < e.deadline ∧ e.deadline ≤ now) := by
  rw [isExpired, Bool.or_eq_true, lifetimeOver, deadlineOver, decide_eq_true_eq,
    decide_eq_true_eq, h.createdAt, h.expiry, Expiry.normalized]
  split
  · next limited => simp [limited, Int.not_le.2 limited]
  · next unlimited =>
    split
    · next dated => simp [dated, unlimited, Int.not_lt.1 unlimited]
    · next undated => simp [undated, unlimited, Expiry.never]

/-- A lifetime below one millisecond is none. -/
theorem Dates.isExpired_after (h : l.Dates (.after d) created) (start : 0 ≤ created) :
    l.isExpired now = true ↔ 1 ≤ d.millis ∧ min Millis.latest (created + d.millis) ≤ now := by
  rw [h.isExpired_iff, Expiry.after, Expiry.inMillis, Millis.add_min_latest start]
  simp only [Millis.latest]
  omega

theorem Dates.isExpired_atMoment (h : l.Dates (.atMoment m) created) :
    l.isExpired now = true ↔ 0 < m.epochMillis ∧ m.epochMillis ≤ now := by
  rw [h.isExpired_iff, Expiry.atMoment, Expiry.atMillis]
  simp

theorem Dates.not_isExpired_after (h : l.Dates (.after d) created) (start : 0 ≤ created)
    (counted : now < Millis.latest) (early : now - created < d.millis) :
    l.isExpired now = false := by
  rw [Bool.eq_false_iff, ne_eq, h.isExpired_after start]
  omega

end Lease

namespace Region

variable {r : Region} {x : Snapshot}

/-- What is issued bears the time of issue and the expiry that was asked for. -/
theorem Sound.dates_submit (h : r.Sound) {q : Request} {k : Handle} {r' : Region}
    (answer : r.submit created q = (.ok k, r')) :
    ∃ x ∈ r'.live, x.handle = k ∧ x.lease.Dates q.expiry created := by
  rcases h.submit created q with ⟨refusal, -, hsubmit⟩ | ⟨-, -, hsubmit⟩ | ⟨k', r₁, hsubmit, placed⟩
  · rw [hsubmit] at answer
    cases answer
  · rw [hsubmit] at answer
    cases answer
  · rw [hsubmit] at answer
    cases answer
    obtain ⟨e, bytes, held, -, lease, -⟩ := placed.held
    have here := congrFun held k
    rw [Function.update_self] at here
    have found : r'.info k = .ok (e.snapshot r'.id k.slot) :=
      info_eq_ok_iff.2 ⟨e, (held_eq_some_iff.1 here).1, rfl⟩
    obtain ⟨live, named⟩ := info_eq_ok_iff_mem_live.1 found
    refine ⟨_, live, named, ?_⟩
    rw [Entry.snapshot, lease]
    exact Lease.dates_issued q.size q.tag q.expiry created

/-- The dates of a payload stay as long as its handle is good. -/
theorem Sound.dates_step (h : r.Sound) {y : Snapshot} {op : Op} (live : x ∈ r.live)
    (live' : y ∈ (r.step now op).live) (same : y.handle = x.handle)
    (dates : x.lease.Dates e created) : y.lease.Dates e created := by
  obtain ⟨before, bytes, held, hlease, -⟩ := held_of_mem_live live
  obtain ⟨after, bytes', held', hlease', -⟩ := held_of_mem_live live'
  rw [same] at held'
  rw [← hlease', h.entry_step now op held held']
  rw [← hlease] at dates
  exact dates.after _ _

/-- A sweep leaves what has not expired. -/
theorem Reachable.kept_collectExpired (h : r.Reachable) (live : x ∈ r.live)
    (lasting : x.lease.isExpired now = false) (batch : Nat) :
    x ∈ (r.collectExpired batch now).2.live := by
  obtain ⟨freed, r', hcollect, -, shed, -⟩ := h.regular.collectExpired batch now
  have hlive := shed.live_eq fun y hy => Regular.mem_live_of_mem_expired hy
  rw [hcollect, hlive, List.mem_filter, decide_eq_true_eq]
  refine ⟨live, fun picked => ?_⟩
  rw [isExpired_of_mem_expired picked] at lasting
  cases lasting

/-- There is a region with two payloads that were issued at 0, of any two expiries. -/
theorem exists_pair (e e' : Expiry) : ∃ (r : Region) (x y : Snapshot), r.Reachable ∧
    r.live = [x, y] ∧ x.lease.Dates e 0 ∧ y.lease.Dates e' 0 := by
  let ops : List (Int × Op) :=
    [(0, .submit ⟨.payload [1, 2], e, 0⟩), (0, .submit ⟨.payload [3], e', 0⟩)]
  have reachable : Reachable _ := ⟨_, ops, @New.largestFit 0 8 _ rfl, by decide, rfl⟩
  exact ⟨_, _, _, reachable, rfl, ⟨rfl, rfl⟩, ⟨rfl, rfl⟩⟩

/-- What is issued bears its time of issue and its expiry for as long as its handle is good. Before
its lifetime has passed it is not over, and sweeps leave it. The same holds until its deadline,
unless the deadline is too far away for the clock and its low bits alone are a reading that comes
earlier. -/
theorem never_over_early (h : r.Reachable) (start : 0 ≤ created) :
    (∀ q k r', r.submit created q = (.ok k, r') →
      ∃ x ∈ r'.live, x.handle = k ∧ x.lease.Dates q.expiry created) ∧
    (∀ x ∈ r.live, ∀ e, x.lease.Dates e created → ∀ now op, ∀ y ∈ (r.step now op).live,
      y.handle = x.handle → y.lease.Dates e created) ∧
    (∀ x ∈ r.live, ∀ d : Duration, x.lease.Dates (.after d) created →
      ∀ now < Millis.latest, now - created < d.millis →
        x.lease.isExpired now = false ∧ ∀ batch, x ∈ (r.collectExpired batch now).2.live) ∧
    (∀ x ∈ r.live, ∀ m : Moment, 0 ≤ m.nanos → x.lease.Dates (.atMoment m) created →
      ((∀ now < Millis.latest, now < m.millis →
          x.lease.isExpired now = false ∧ ∀ batch, x ∈ (r.collectExpired batch now).2.live) ↔
        m.millis ≤ Millis.latest ∨ m.epochMillis ≤ 0 ∨ m.epochMillis = Millis.latest)) := by
  have sound := h.regular.sound
  refine ⟨fun q k r' => sound.dates_submit, ?_, ?_, ?_⟩
  · intro x live e dates now op y live' same
    exact sound.dates_step live live' same dates
  · intro x live d dates now counted early
    have lasting := dates.not_isExpired_after start counted early
    exact ⟨lasting, h.kept_collectExpired live lasting⟩
  · intro x live m past dates
    constructor
    · intro lasting
      by_contra wraps
      have := m.epochMillis_le_latest
      -- the low bits are a reading of their own, and that is when the payload is over
      have ended := (lasting m.epochMillis (by omega) (by omega)).1
      rw [Bool.eq_false_iff, ne_eq, dates.isExpired_atMoment] at ended
      omega
    · intro kept now counted early
      have lasting : x.lease.isExpired now = false := by
        rw [Bool.eq_false_iff, ne_eq, dates.isExpired_atMoment]
        rcases kept with near | far
        · rw [Moment.epochMillis_of_millis_le past near]
          omega
        · omega
      exact ⟨lasting, h.kept_collectExpired live lasting⟩

/-- The longest duration there is and the last deadline that the clock counts to: one millisecond
before the end of the clock neither payload is over. -/
theorem never_over_early_longest : ∃ (r : Region) (x y : Snapshot) (d : Duration) (m : Moment),
    r.Reachable ∧ r.live = [x, y] ∧ d = ⟨18446744073709551615, 999999999⟩ ∧
    m.millis = Millis.latest ∧ x.lease.Dates (.after d) 0 ∧ y.lease.Dates (.atMoment m) 0 ∧
    (∀ z ∈ [x, y], z.lease.isExpired 9223372036854775806 = false ∧
      ∀ batch, z ∈ (r.collectExpired batch 9223372036854775806).2.live) := by
  let d : Duration := ⟨18446744073709551615, 999999999⟩
  let m : Moment := .afterEpoch ⟨9223372036854775, 807000000⟩
  obtain ⟨r, x, y, reachable, hlive, hx, hy⟩ := exists_pair (.after d) (.atMoment m)
  have last : m.millis = Millis.latest := by decide
  obtain ⟨-, -, hafter, hat⟩ := never_over_early reachable (Int.le_refl 0)
  have hx' := hafter x (by simp [hlive]) d hx 9223372036854775806 (by decide) (by decide)
  have hy' := (hat y (by simp [hlive]) m (by decide) hy).2 (Or.inl (by omega))
    9223372036854775806 (by decide) (by rw [last]; decide)
  refine ⟨r, x, y, d, m, reachable, hlive, rfl, last, hx, hy, fun z member => ?_⟩
  rcases List.mem_pair.1 member with rfl | rfl
  · exact hx'
  · exact hy'

/-- Of a deadline 2 ^ 64 + 1000 milliseconds after the epoch the clock keeps the last 1000, and a
sweep at that time releases the payload. -/
theorem far_deadline_over_early : ∃ (r r' : Region) (x : Snapshot) (m : Moment), r.Reachable ∧
    r.live = [x] ∧ x.lease.Dates (.atMoment m) 0 ∧ m.millis = 18446744073709552616 ∧
    x.lease.isExpired 1000 = true ∧ r.collectExpired 1 1000 = (.ok 2, r') ∧ r'.live = [] := by
  let m : Moment := .afterEpoch ⟨18446744073709552, 616000000⟩
  have reachable : Reachable _ := ⟨_, [(0, .submit ⟨.payload [1, 2], .atMoment m, 0⟩)],
    @New.largestFit 0 8 _ rfl, by decide, rfl⟩
  exact ⟨_, _, _, m, reachable, rfl, ⟨rfl, rfl⟩, by decide, by decide, rfl, by decide⟩

end Region

namespace Lease

/-- Once its lifetime, rounded up to whole milliseconds, has passed, a payload is over, unless the
lifetime is below one millisecond. Once its deadline has come it is over, unless the deadline lies
before the first whole millisecond after the epoch. These are the lifetimes and deadlines that mean
"never". -/
theorem over_in_time (start : 0 ≤ created) :
    (∀ d : Duration, l.Dates (.after d) created →
      ∀ now, d.millisUp ≤ now - created → (l.isExpired now = true ↔ 1000000 ≤ d.totalNanos)) ∧
    (∀ m : Moment, m.millis ≤ Millis.latest → l.Dates (.atMoment m) created →
      ∀ now, 1 ≤ now → m.nanos ≤ now * 1000000 →
        (l.isExpired now = true ↔ 1000000 ≤ m.nanos)) ∧
    (∀ d, (Expiry.after d).isNever = true ↔ d.totalNanos < 1000000) ∧
    (∀ m : Moment, m.millis ≤ Millis.latest →
      ((Expiry.atMoment m).isNever = true ↔ m.nanos < 1000000)) := by
  refine ⟨?_, ?_, fun d => Expiry.isNever_after_iff, fun m => Expiry.isNever_atMoment_iff⟩
  · intro d dates now passed
    rw [Duration.millisUp] at passed
    rw [dates.isExpired_after start, Duration.millis]
    omega
  · intro m counted dates now first passed
    rw [dates.isExpired_atMoment, Moment.epochMillis_pos_iff counted]
    constructor
    · exact And.left
    · intro whole
      refine ⟨whole, ?_⟩
      rw [Moment.epochMillis_of_millis_le (by omega) counted, Moment.millis]
      omega

/-- A lifetime of a millisecond and a half is over after two, and so is a deadline that comes a
millisecond and a half after the epoch. -/
theorem over_in_time_half : ∃ (l l' : Lease) (d : Duration) (m : Moment), d.totalNanos = 1500000 ∧
    m.nanos = 1500000 ∧ l.Dates (.after d) 10 ∧ l'.Dates (.atMoment m) 10 ∧
    l.isExpired 12 = true ∧ l'.isExpired 2 = true := by
  let d : Duration := ⟨0, 1500000⟩
  let m : Moment := ⟨1500000⟩
  have hd := dates_issued 3 7 (.after d) 10
  have hm := dates_issued 3 7 (.atMoment m) 10
  have start : (0 : Int) ≤ 10 := by decide
  have counted : m.millis ≤ Millis.latest := by decide
  exact ⟨_, _, d, m, by decide, rfl, hd, hm,
    ((over_in_time start).1 d hd 12 (by decide)).2 (by decide),
    ((over_in_time start).2.1 m counted hm 2 (by decide) (by decide)).2 (by decide)⟩

end Lease

/-- A lifetime just short of a millisecond, and a deadline one second before the epoch: neither
payload is ever over, and no sweep releases it. -/
theorem Region.short_lifetime_never_over : ∃ (r : Region) (x y : Snapshot) (d : Duration)
    (m : Moment), r.Reachable ∧ r.live = [x, y] ∧ d.totalNanos = 999999 ∧ m.nanos = -1000000000 ∧
    x.lease.Dates (.after d) 0 ∧ y.lease.Dates (.atMoment m) 0 ∧
    ∀ now, ∀ z ∈ [x, y], z.lease.isExpired now = false ∧
      ∀ batch, z ∈ (r.collectExpired batch now).2.live := by
  let d : Duration := ⟨0, 999999⟩
  let m : Moment := .beforeEpoch ⟨1, 0⟩
  obtain ⟨r, x, y, reachable, hlive, hx, hy⟩ := exists_pair (.after d) (.atMoment m)
  have lasting (now : Int) : ∀ z ∈ [x, y], z.lease.isExpired now = false := by
    intro z member
    rw [Bool.eq_false_iff, ne_eq]
    rcases List.mem_pair.1 member with rfl | rfl
    · rw [hx.isExpired_after (Int.le_refl 0)]
      exact fun ended => absurd ended.1 (by decide)
    · rw [hy.isExpired_atMoment]
      exact fun ended => absurd ended.1 (by decide)
  refine ⟨r, x, y, d, m, reachable, hlive, by decide, by decide, hx, hy, fun now z member => ?_⟩
  exact ⟨lasting now z member,
    reachable.kept_collectExpired (hlive ▸ member) (lasting now z member)⟩

end RegionStore
