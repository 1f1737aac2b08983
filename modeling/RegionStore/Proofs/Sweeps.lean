import Mathlib.Algebra.Order.Floor.Div
import Mathlib.Data.Prod.Lex
import RegionStore.Proofs.Regular

/-!
Sweeps of a region. What a sweep picks is released, each range once, and nothing else: all other
payloads stay where they are, under the handles they have.
-/
namespace RegionStore

namespace SlotTable

/-- The live payloads come in slot order. -/
theorem pairwise_live (t : SlotTable) :
    t.live.Pairwise fun a b => a.handle.slot < b.handle.slot := by
  rw [live_eq_filterMap t (Nat.le_refl _), List.pairwise_filterMap]
  apply List.pairwise_lt_range.imp
  intro x y below a ha b hb
  obtain ⟨e, -, rfl⟩ := Option.map_eq_some_iff.1 ha
  obtain ⟨e', -, rfl⟩ := Option.map_eq_some_iff.1 hb
  exact below

theorem nodup_live (t : SlotTable) : t.live.Nodup := by
  apply t.pairwise_live.imp
  rintro a b below rfl
  exact Nat.lt_irrefl _ below

/-- A handle names one payload at most. -/
theorem eq_of_handle {t : SlotTable} {a b : Snapshot} (ha : a ∈ t.live) (hb : b ∈ t.live)
    (same : a.handle = b.handle) : a = b := by
  obtain ⟨x, e, issued, rfl⟩ := mem_live_iff.1 ha
  obtain ⟨y, e', issued', rfl⟩ := mem_live_iff.1 hb
  have hslot : x = y := congrArg Handle.slot same
  subst hslot
  rw [issued] at issued'
  cases issued'
  rfl

end SlotTable

theorem filter_not_mem_take [DecidableEq α] {xs : List α} (once : xs.Nodup) (n : Nat) :
    xs.filter (· ∉ xs.take n) = xs.drop n := by
  have hparts : xs.filter (· ∉ xs.take n) =
      (xs.take n).filter (· ∉ xs.take n) ++ (xs.drop n).filter (· ∉ xs.take n) := by
    rw [← List.filter_append, List.take_append_drop]
  have hfront : (xs.take n).filter (· ∉ xs.take n) = [] := by
    rw [List.filter_eq_nil_iff]
    intro x hx
    simp [hx]
  have hback : (xs.drop n).filter (· ∉ xs.take n) = xs.drop n := by
    rw [List.filter_eq_self]
    intro x hx
    rw [decide_eq_true_eq]
    exact fun taken => List.disjoint_take_drop once (Nat.le_refl n) taken hx
  rw [hparts, hfront, hback, List.nil_append]

/-- An expiry in normal form passes in one way only. -/
theorem Lease.deadlineOver_eq_false {l : Lease} (normal : l.expiry.normalized = l.expiry)
    {now : Int} (ended : l.lifetimeOver now = true) : l.deadlineOver now = false := by
  have limited : 0 < l.expiry.lifetime := by
    rw [lifetimeOver, decide_eq_true_eq] at ended
    exact ended.1
  have hzero : l.expiry.deadline = 0 := by rw [← normal, Expiry.normalized, if_pos limited]
  rw [deadlineOver, hzero]
  rfl

/-- What is evicted first ranks lowest: by frequency of use, then by age, then by place. -/
def Snapshot.rank (x : Snapshot) (now : Int) : Nat ×ₗ Int ×ₗ Nat :=
  toLex (x.lease.frequency now, toLex (x.lease.createdAt, x.span.start))

theorem evictedBefore_iff {a b : Snapshot} {now : Int} :
    evictedBefore now a b = true ↔ a.rank now ≤ b.rank now := by
  simp only [evictedBefore, Snapshot.rank, Prod.Lex.toLex_le_toLex, Bool.or_eq_true,
    Bool.and_eq_true, decide_eq_true_eq, beq_iff_eq]

/-- What ranks above a payload that has been used has been used too. -/
theorem Snapshot.hits_of_rank_le {a b : Snapshot} {now : Int} (le : a.rank now ≤ b.rank now)
    (used : a.lease.hits ≠ 0) : b.lease.hits ≠ 0 := by
  intro unused
  have hpos := Lease.frequency_pos used now
  have hzero := Lease.frequency_of_unused unused now
  rw [rank, rank, Prod.Lex.toLex_le_toLex] at le
  dsimp only at le
  omega

section LeastUsed

variable {live : List Snapshot} {limit : Nat} {now : Int} {x y : Snapshot}

theorem nodup_leastUsed (once : live.Nodup) : (leastUsed live now limit).Nodup :=
  ((List.mergeSort_perm live _).nodup_iff.2 once).sublist (List.take_sublist _ _)

/-- What is not among the least used ones ranks no lower than any of them. -/
theorem rank_leastUsed (picked : x ∈ leastUsed live now limit) (other : y ∈ live)
    (spared : y ∉ leastUsed live now limit) : x.rank now ≤ y.rank now := by
  have sorted := pairwise_leastUsed live now live.length
  rw [leastUsed, List.take_of_length_le (by simp)] at sorted
  rw [← List.take_append_drop limit (live.mergeSort _), List.pairwise_append] at sorted
  have member : y ∈ live.mergeSort (evictedBefore now) := List.mem_mergeSort.2 other
  rw [← List.take_append_drop limit (live.mergeSort _), List.mem_append] at member
  exact evictedBefore_iff.1 (sorted.2.2 x picked y (member.resolve_left spared))

/-- How many of so many live payloads are evicted. -/
theorem length_leastUsed_evictionCount (some : live ≠ []) (batch : Nat) :
    (leastUsed live now (evictionCount live.length batch)).length =
      if 0 < batch then min live.length batch else max 1 (live.length / 10) := by
  have := List.length_pos_iff.2 some
  rw [length_leastUsed, evictionCount]
  split <;> omega

end LeastUsed

namespace Region

variable {r r' : Region} {ks : List Handle} {picked : List Snapshot} {freed most : Nat}

/-- What a batch of releases leaves issued at a slot. -/
theorem Shed.issued (h : Shed r ks freed r') (x : Nat) :
    r'.table.issued? x = (r.table.issued? x).filter fun e => ⟨r.id, x, e.generation⟩ ∉ ks := by
  cases issued : r.table.issued? x with
  | none =>
    rcases h.slots x with ⟨same, -⟩ | ⟨taken, -⟩
    · rw [same, issued]
      rfl
    · exact absurd issued taken
  | some e =>
    have held := h.held ⟨r.id, x, e.generation⟩
    have before := held_of_checked
      (SlotTable.checked_eq_ok_iff_issued?.2 ⟨rfl, issued, rfl⟩ :
        r.table.checked ⟨r.id, x, e.generation⟩ = .ok e)
    by_cases released : ⟨r.id, x, e.generation⟩ ∈ ks
    · rw [if_pos released] at held
      rw [Option.filter_some, if_neg (by simp [released])]
      rcases h.slots x with ⟨same, -⟩ | ⟨-, gone, -⟩
      · have after := held_of_checked
          (SlotTable.checked_eq_ok_iff_issued?.2 ⟨h.keeps.id.symm, same.trans issued, rfl⟩ :
            r'.table.checked ⟨r.id, x, e.generation⟩ = .ok e)
        rw [held] at after
        cases after
      · exact gone
    · rw [if_neg released, before] at held
      rw [Option.filter_some, if_pos (by simp [released])]
      rcases h.slots x with ⟨same, -⟩ | ⟨-, gone, -⟩
      · exact same.trans issued
      · have after : r'.held ⟨r.id, x, e.generation⟩ = none := held_eq_none_of_not_issued gone
        rw [held] at after
        cases after

/-- What is not in the batch stays live, as it was and in the same order. -/
theorem Shed.live (h : Shed r ks freed r') : r'.live = r.live.filter (·.handle ∉ ks) := by
  have hid : r'.table.region = r.table.region := h.keeps.id
  let n := max r.table.slotCount r'.table.slotCount
  rw [Region.live, Region.live, r'.table.live_eq_filterMap (show _ ≤ n by omega),
    r.table.live_eq_filterMap (show _ ≤ n by omega), List.filter_filterMap, hid]
  congr 1
  funext x
  rw [h.issued]
  cases r.table.issued? x with
  | none => rfl
  | some e =>
    by_cases released : ⟨r.id, x, e.generation⟩ ∈ ks <;>
      simp_all [Region.id, Entry.snapshot, Option.filter_some]

/-! ### Releasing what has been picked -/

/-- Releasing touches no counter but the one of used bytes. -/
theorem usage_release (r : Region) (k : Handle) :
    ∃ used, (r.release k).2.usage = { r.usage with used } := by
  unfold Region.release
  split
  · exact ⟨_, rfl⟩
  · split
    · exact ⟨_, rfl⟩
    · split
      · exact ⟨_, rfl⟩
      · exact ⟨_, rfl⟩

theorem usage_releaseAll (r : Region) (ks : List Handle) :
    ∃ used, (r.releaseAll ks).2.usage = { r.usage with used } := by
  induction ks generalizing r with
  | nil => exact ⟨_, rfl⟩
  | cons k rest ih =>
    obtain ⟨used, hfirst⟩ := r.usage_release k
    unfold Region.releaseAll
    split
    · next hrelease =>
      rw [hrelease] at hfirst
      exact ⟨used, hfirst⟩
    · next r₁ hrelease =>
      rw [hrelease] at hfirst
      obtain ⟨used', hrest⟩ := ih r₁
      rw [hfirst] at hrest
      split
      · next hothers =>
        rw [hothers] at hrest
        exact ⟨used', hrest⟩
      · next hothers =>
        rw [hothers] at hrest
        exact ⟨used', hrest⟩

/-- Just the picked payloads are released, each once: their ranges are what is freed, and what is
not picked keeps its handle, all that is known of it, and its bytes. -/
structure Swept (r : Region) (picked : List Snapshot) (freed : Nat) (r' : Region) : Prop where
  split : r.live.Perm (picked ++ r'.live)
  order : r'.live.Sublist r.live
  total : freed = Span.total (picked.map (·.span))
  used : r'.used + freed = r.used
  gone : ∀ x ∈ picked, r'.info x.handle = .error .staleHandle
  kept : ∀ x ∈ r'.live, r'.info x.handle = .ok x ∧ r.info x.handle = .ok x ∧
    ∀ t, (r'.get t x.handle).1 = (r.get t x.handle).1

theorem info_of_mem_live {x : Snapshot} (h : x ∈ r.live) : r.info x.handle = .ok x := by
  obtain ⟨slot, e, issued, rfl⟩ := SlotTable.mem_live_iff.1 h
  rw [info_eq_ok_iff]
  exact ⟨e, SlotTable.checked_eq_ok_iff_issued?.2 ⟨rfl, issued, rfl⟩, rfl⟩

/-- What is live is just what can be asked for. -/
theorem info_eq_ok_iff_mem_live {k : Handle} {x : Snapshot} :
    r.info k = .ok x ↔ x ∈ r.live ∧ x.handle = k := by
  constructor
  · intro h
    obtain ⟨e, checked, rfl⟩ := info_eq_ok_iff.1 h
    obtain ⟨own, issued, generation⟩ := SlotTable.checked_eq_ok_iff_issued?.1 checked
    refine ⟨SlotTable.mem_live_iff.2 ⟨k.slot, e, issued, rfl⟩, ?_⟩
    simp only [Entry.snapshot, generation, Region.id, ← own]
  · rintro ⟨live, rfl⟩
    exact info_of_mem_live live

theorem held_of_mem_live {x : Snapshot} (h : x ∈ r.live) : ∃ e bytes,
    r.held x.handle = some (e, bytes) ∧ e.lease = x.lease ∧ e.span = x.span := by
  obtain ⟨slot, e, issued, rfl⟩ := SlotTable.mem_live_iff.1 h
  exact ⟨e, _, held_of_checked (SlotTable.checked_eq_ok_iff_issued?.2 ⟨rfl, issued, rfl⟩), rfl, rfl⟩

theorem Sound.get_of_held (h : r.Sound) {k : Handle} {e : Entry} {bytes : List UInt8}
    (held : r.held k = some (e, bytes)) (now : Int) : (r.get now k).1 = .ok bytes := by
  obtain ⟨checked, rfl⟩ := held_eq_some_iff.1 held
  obtain ⟨r', hview, -⟩ := h.view checked now fun payload => payload
  exact congrArg Prod.fst hview

theorem mem_picked_iff (live : ∀ x ∈ picked, x ∈ r.live) {x : Snapshot} (hx : x ∈ r.live) :
    x.handle ∈ picked.map (·.handle) ↔ x ∈ picked := by
  constructor
  · intro member
    obtain ⟨y, hy, same⟩ := List.mem_map.1 member
    rw [← SlotTable.eq_of_handle (live y hy) hx same]
    exact hy
  · exact List.mem_map_of_mem

theorem Shed.live_eq (h : Shed r (picked.map (·.handle)) freed r')
    (live : ∀ x ∈ picked, x ∈ r.live) : r'.live = r.live.filter (· ∉ picked) := by
  rw [h.live]
  apply List.filter_congr
  intro x hx
  rw [decide_eq_decide, mem_picked_iff live hx]

theorem Shed.split (h : Shed r (picked.map (·.handle)) freed r')
    (live : ∀ x ∈ picked, x ∈ r.live) (once : picked.Nodup) :
    r.live.Perm (picked ++ r'.live) := by
  have hpicked : (r.live.filter (· ∈ picked)).Perm picked := by
    have hlive : r.live.Nodup := r.table.nodup_live
    rw [List.perm_ext_iff_of_nodup (hlive.filter _) once]
    intro x
    rw [List.mem_filter, decide_eq_true_eq]
    exact ⟨And.right, fun member => ⟨live x member, member⟩⟩
  have hparts := List.filter_append_perm (· ∈ picked) r.live
  simp only [← decide_not] at hparts
  rw [← h.live_eq live] at hparts
  exact hparts.symm.trans (hpicked.append_right _)

/-- The bytes that are answered are those of the picked ranges. -/
theorem Shed.total (h : Shed r (picked.map (·.handle)) freed r')
    (live : ∀ x ∈ picked, x ∈ r.live) (once : picked.Nodup) :
    freed = Span.total (picked.map (·.span)) := by
  have htotal := Span.total_perm ((h.split live once).map (·.span))
  rw [List.map_append, Span.total_append] at htotal
  change r.table.issuedBytes = _ + r'.table.issuedBytes at htotal
  have := h.bytes
  omega

theorem Shed.swept (h : Shed r (picked.map (·.handle)) freed r') (regular : r.Regular most)
    (regular' : r'.Regular most) (live : ∀ x ∈ picked, x ∈ r.live) (once : picked.Nodup) :
    Swept r picked freed r' := by
  have hlive := h.live_eq live
  have hbytes := h.bytes
  refine ⟨h.split live once, ?_, h.total live once, ?_, fun x hx => ?_, fun x hx => ?_⟩
  · rw [hlive]
    exact List.filter_sublist
  · rw [regular.used_eq, regular'.used_eq]
    omega
  · have held := h.held x.handle
    rw [if_pos (List.mem_map_of_mem hx), held_eq_none_iff] at held
    obtain ⟨refusal, refused⟩ := held
    rw [Region.info, refused]
    rcases SlotTable.checked_eq_error_iff.1 refused with ⟨foreign, -⟩ | ⟨-, rfl, -⟩
    · obtain ⟨slot, e, issued, rfl⟩ := SlotTable.mem_live_iff.1 (live x hx)
      exact absurd h.keeps.id.symm foreign
    · rfl
  · have hx' := hx
    rw [hlive, List.mem_filter, decide_eq_true_eq] at hx'
    obtain ⟨e, bytes, held, -⟩ := held_of_mem_live hx'.1
    have held' := h.held x.handle
    rw [if_neg (fun member => hx'.2 ((mem_picked_iff live hx'.1).1 member)), held] at held'
    refine ⟨info_of_mem_live hx, info_of_mem_live hx'.1, fun t => ?_⟩
    rw [regular.sound.get_of_held held, regular'.sound.get_of_held held']

theorem Regular.used_release (h : r.Regular most) (k : Handle) :
    (r.release k).2.used + (r.release k).1.toOption.getD 0 = r.used := by
  cases checked : r.table.checked k with
  | error refusal =>
    rw [release_of_error checked]
    split <;> rfl
  | ok e =>
    obtain ⟨r', released⟩ := h.sound.release checked
    have regular' := h.step 0 (.release k)
    rw [Region.step, released.answer] at regular'
    have := released.bytes
    rw [released.answer, regular'.used_eq, h.used_eq]
    change r'.table.issuedBytes + e.span.size = r.table.issuedBytes
    omega

/-! ### Regions that can come about -/

/-- The region is one that was made new, with a size that is a 64-bit word, after any operations. -/
def Reachable (r : Region) : Prop :=
  ∃ r₀ ops, New r₀ ∧ r₀.capacity < UInt64.size ∧ r = r₀.run ops

theorem Reachable.regular (h : r.Reachable) : r.Regular r.maxRequest := by
  obtain ⟨r₀, ops, new, word, rfl⟩ := h
  have regular := (new.regular word).run ops
  rwa [regular.maxRequest]

theorem Reachable.step (h : r.Reachable) (now : Int) (op : Op) : (r.step now op).Reachable := by
  obtain ⟨r₀, ops, new, word, rfl⟩ := h
  exact ⟨r₀, ops ++ [(now, op)], new, word, by rw [run_append]; rfl⟩

/-! ### Expiry -/

/-- The live payloads whose lifetime is over, in slot order. -/
def lapsed (r : Region) (now : Int) : List Snapshot := r.live.filter (·.lease.lifetimeOver now)

/-- The live payloads whose deadline has passed, in slot order. -/
def overdue (r : Region) (now : Int) : List Snapshot := r.live.filter (·.lease.deadlineOver now)

theorem Regular.deadlineOver_eq_false (h : r.Regular most) {x : Snapshot} (live : x ∈ r.live)
    {now : Int} (ended : x.lease.lifetimeOver now = true) : x.lease.deadlineOver now = false := by
  obtain ⟨e, bytes, held, hlease, -⟩ := held_of_mem_live live
  have normal := h.normal _ e bytes held
  rw [hlease] at normal
  exact Lease.deadlineOver_eq_false normal ended

theorem Regular.not_mem_overdue (h : r.Regular most) {x : Snapshot} {now : Int}
    (lapsed : x ∈ r.lapsed now) : x ∉ r.overdue now := by
  intro overdue
  obtain ⟨live, ended⟩ := List.mem_filter.1 lapsed
  have := (List.mem_filter.1 overdue).2
  rw [h.deadlineOver_eq_false live ended] at this
  cases this

theorem Regular.expiredBatch_eq (h : r.Regular most) (batch : Nat) (now : Int) :
    expiredBatch r.live batch now = (r.lapsed now).take batch ++ (r.overdue now).take batch := by
  have : r.live.filter (fun x => !x.lease.lifetimeOver now && x.lease.deadlineOver now) =
      r.overdue now := by
    apply List.filter_congr
    intro x hx
    cases ended : x.lease.lifetimeOver now with
    | false => rfl
    | true => rw [h.deadlineOver_eq_false hx ended]; rfl
  rw [expiredBatch, this]
  rfl

theorem Regular.mem_live_of_mem_expired {x : Snapshot} {batch : Nat} {now : Int}
    (member : x ∈ (r.lapsed now).take batch ++ (r.overdue now).take batch) : x ∈ r.live := by
  rcases List.mem_append.1 member with member | member
  · exact (List.mem_filter.1 (List.mem_of_mem_take member)).1
  · exact (List.mem_filter.1 (List.mem_of_mem_take member)).1

theorem Regular.nodup_expired (h : r.Regular most) (batch : Nat) (now : Int) :
    ((r.lapsed now).take batch ++ (r.overdue now).take batch).Nodup := by
  have hlive : r.live.Nodup := r.table.nodup_live
  rw [List.nodup_append]
  refine ⟨(hlive.filter _).sublist (List.take_sublist _ _),
    (hlive.filter _).sublist (List.take_sublist _ _), ?_⟩
  rintro x hx _ hx' rfl
  exact h.not_mem_overdue (List.mem_of_mem_take hx) (List.mem_of_mem_take hx')

theorem Regular.collectExpired (h : r.Regular most) (batch : Nat) (now : Int) :
    ∃ freed r', r.collectExpired batch now = (.ok freed, r') ∧ r'.Regular most ∧
      Shed r (((r.lapsed now).take batch ++ (r.overdue now).take batch).map (·.handle)) freed r' ∧
      ∃ used, r'.usage = { r.usage with used } := by
  obtain ⟨freed, r', hcollect, shed⟩ := h.sound.collectExpired batch now
  have regular' := h.step now (.collectExpired batch)
  have husage := r.usage_releaseAll ((expiredBatch r.live batch now).map (·.handle))
  rw [Region.step, hcollect] at regular'
  rw [h.expiredBatch_eq] at shed
  change ∃ used, (r.collectExpired batch now).2.usage = _ at husage
  rw [hcollect] at husage
  exact ⟨freed, r', hcollect, regular', shed, husage⟩

/-- A sweep takes the first ones off both lists of what has expired. -/
theorem Regular.expired_collectExpired (h : r.Regular most) (batch : Nat) (now : Int) :
    (r.collectExpired batch now).2.lapsed now = (r.lapsed now).drop batch ∧
      (r.collectExpired batch now).2.overdue now = (r.overdue now).drop batch := by
  obtain ⟨freed, r', hcollect, -, shed, -⟩ := h.collectExpired batch now
  have hlive := shed.live_eq fun x hx => Regular.mem_live_of_mem_expired hx
  have hlapsed : (r.lapsed now).Nodup := r.table.nodup_live.filter _
  have hoverdue : (r.overdue now).Nodup := r.table.nodup_live.filter _
  rw [hcollect, ← filter_not_mem_take hlapsed, ← filter_not_mem_take hoverdue]
  constructor
  · rw [lapsed, hlive, List.filter_comm]
    apply List.filter_congr
    intro x hx
    rw [decide_eq_decide, List.mem_append, or_iff_left]
    exact fun taken => h.not_mem_overdue hx (List.mem_of_mem_take taken)
  · rw [overdue, hlive, List.filter_comm]
    apply List.filter_congr
    intro x hx
    rw [decide_eq_decide, List.mem_append, or_iff_right]
    exact fun taken => h.not_mem_overdue (List.mem_of_mem_take taken) hx

theorem Regular.expired_sweeps (h : r.Regular most) (batch n : Nat) (now : Int) :
    (r.run (List.replicate n (now, .collectExpired batch))).lapsed now =
        (r.lapsed now).drop (batch * n) ∧
      (r.run (List.replicate n (now, .collectExpired batch))).overdue now =
        (r.overdue now).drop (batch * n) := by
  induction n generalizing r with
  | zero => exact ⟨rfl, rfl⟩
  | succ n ih =>
    obtain ⟨hlapsed, hoverdue⟩ := h.expired_collectExpired batch now
    obtain ⟨hlapsed', hoverdue'⟩ := ih (h.step now (.collectExpired batch))
    have hbatches : batch * (n + 1) = batch + batch * n := by
      rw [Nat.mul_succ, Nat.add_comm]
    rw [List.replicate_succ, Region.run, hlapsed', hoverdue', hbatches, ← List.drop_drop,
      ← List.drop_drop, Region.step, hlapsed, hoverdue]
    exact ⟨rfl, rfl⟩

/-- An expiration sweep never fails. It releases the first ones of the payloads whose lifetime is
over and the first ones of those whose deadline has passed, and nothing else, and answers with the
bytes that are free again; failures and shortage stay. Sweeps with a batch of at least one leave
nothing expired once each of the two lists is used up. -/
theorem collectExpired_exact (h : r.Reachable) (batch : Nat) (now : Int) :
    (∃ freed r', r.collectExpired batch now = (.ok freed, r') ∧
      Swept r ((r.lapsed now).take batch ++ (r.overdue now).take batch) freed r' ∧
      r'.usage.failures = r.usage.failures ∧ r'.inShortage = r.inShortage) ∧
    (1 ≤ batch → ∀ n, max ((r.lapsed now).length ⌈/⌉ batch) ((r.overdue now).length ⌈/⌉ batch) ≤ n →
      ∀ x ∈ (r.run (List.replicate n (now, .collectExpired batch))).live,
        x.lease.isExpired now = false) := by
  have regular := h.regular
  constructor
  · obtain ⟨freed, r', hcollect, regular', shed, used, husage⟩ := regular.collectExpired batch now
    refine ⟨freed, r', hcollect, shed.swept regular regular'
      (fun x hx => Regular.mem_live_of_mem_expired hx) (regular.nodup_expired batch now), ?_, ?_⟩
    · rw [husage]
    · rw [Region.inShortage, husage]
      rfl
  · intro positive n enough x live
    obtain ⟨hlapsed, hoverdue⟩ := regular.expired_sweeps batch n now
    obtain ⟨enough, enough'⟩ := Nat.max_le.1 enough
    rw [ceilDiv_le_iff_le_smul positive, smul_eq_mul] at enough enough'
    rw [List.drop_of_length_le enough, lapsed, List.filter_eq_nil_iff] at hlapsed
    rw [List.drop_of_length_le enough', overdue, List.filter_eq_nil_iff] at hoverdue
    rw [Lease.isExpired, Bool.or_eq_false_iff]
    exact ⟨eq_false_of_ne_true (hlapsed x live), eq_false_of_ne_true (hoverdue x live)⟩

/-- Two lifetimes are over and one deadline has passed. A sweep that takes one of each releases five
bytes, and the second one takes what is left. -/
theorem collectExpired_exact_twice : ∃ r r' : Region, r.Reachable ∧
    (r.lapsed 100).map (·.handle.slot) = [0, 2] ∧ (r.overdue 100).map (·.handle.slot) = [1] ∧
    r.collectExpired 1 100 = (.ok 5, r') ∧
    Swept r ((r.lapsed 100).take 1 ++ (r.overdue 100).take 1) 5 r' ∧
    (r.run (List.replicate 2 (100, .collectExpired 1))).live.map (·.handle.slot) = [3] ∧
    ∀ x ∈ (r.run (List.replicate 2 (100, .collectExpired 1))).live,
      x.lease.isExpired 100 = false := by
  let ops : List (Int × Op) := [(0, .submit ⟨.payload [1, 2], .inMillis 50, 0⟩),
    (0, .submit ⟨.payload [3, 4, 5], .atMillis 80, 0⟩),
    (0, .submit ⟨.payload [6], .inMillis 60, 0⟩), (0, .submit ⟨.payload [7], .never, 0⟩)]
  have reachable : Reachable _ := ⟨_, ops, @New.largestFit 0 16 _ rfl, by decide, rfl⟩
  generalize hr : Region.run _ _ = r at reachable
  obtain ⟨lapsed, overdue, answer, left, enough⟩ :
      (r.lapsed 100).map (·.handle.slot) = [0, 2] ∧ (r.overdue 100).map (·.handle.slot) = [1] ∧
      (r.collectExpired 1 100).1 = .ok 5 ∧
      (r.run (List.replicate 2 (100, .collectExpired 1))).live.map (·.handle.slot) = [3] ∧
      max ((r.lapsed 100).length ⌈/⌉ 1) ((r.overdue 100).length ⌈/⌉ 1) ≤ 2 := by
    subst hr
    decide
  obtain ⟨⟨freed, r', hcollect, swept, -⟩, none⟩ := collectExpired_exact reachable 1 100
  rw [hcollect] at answer
  cases answer
  exact ⟨r, r', reachable, lapsed, overdue, hcollect, swept, left,
    none (Nat.le_refl 1) 2 enough⟩

/-! ### Making room -/

theorem Regular.collectLeastUsed (h : r.Regular most) (short : r.inShortage = true)
    (some : r.live ≠ []) (batch : Nat) (now : Int) :
    ∃ freed r', r.collectLeastUsed batch now = (.ok freed, r') ∧
      Swept r (r.victims batch now) freed r' ∧ 0 < freed ∧ r'.usage.failures = 0 := by
  have hlive : ∀ x ∈ r.victims batch now, x ∈ r.live := fun x hx => mem_of_mem_leastUsed hx
  obtain ⟨freed, r₁, hrelease, shed⟩ := h.sound.releaseLive (r.victims batch now) hlive
  have honce : (r.victims batch now).Nodup := nodup_leastUsed r.table.nodup_live
  have hpos : 0 < freed := by
    obtain ⟨x, hx⟩ : ∃ x, x ∈ r.victims batch now := by
      apply List.exists_mem_of_length_pos
      rw [victims, length_leastUsed_evictionCount some]
      have := List.length_pos_iff.2 some
      split <;> omega
    have hsome := Span.total_le_of_sublist
      (List.singleton_sublist.2 (List.mem_map_of_mem (f := (·.span)) hx))
    rw [← shed.total hlive honce, Span.total_cons] at hsome
    have := x.span.size_pos
    omega
  have hcollect : r.collectLeastUsed batch now =
      (.ok freed, { r₁ with usage := r₁.usage.resetFailures }) := by
    have hempty : r.live.isEmpty = false := List.isEmpty_eq_false_iff.2 some
    simp only [Region.collectLeastUsed, short, hempty, Bool.not_true, Bool.false_eq_true,
      if_false]
    rw [victims] at hrelease
    simp only [hrelease, if_pos hpos]
  have hkeeps := shed.keeps.sound.retally r₁.usage.resetFailures rfl
  have shed' : Shed r ((r.victims batch now).map (·.handle)) freed
      { r₁ with usage := r₁.usage.resetFailures } :=
    ⟨shed.keeps.trans hkeeps, shed.held, shed.slots, shed.segments, shed.bytes⟩
  have regular' := h.step now (.collectLeastUsed batch)
  rw [Region.step, hcollect] at regular'
  exact ⟨freed, _, hcollect, shed'.swept h regular' hlive honce, hpos, rfl⟩

/-- A sweep for room leaves a region alone that is not in shortage or holds nothing. Otherwise it
releases as many payloads as it is set to, or a tenth, and none of them ranks above one that stays:
none is used while an unused one stays. It answers with the bytes that are free again, of which
there are some, and the shortage is over. -/
theorem collectLeastUsed_exact (h : r.Reachable) (batch : Nat) (now : Int) :
    (r.inShortage = false ∨ r.live = [] → r.collectLeastUsed batch now = (.ok 0, r)) ∧
    (r.inShortage = true → r.live ≠ [] → ∃ victims freed r',
      r.collectLeastUsed batch now = (.ok freed, r') ∧ Swept r victims freed r' ∧
      victims.length = (if 0 < batch then min r.live.length batch else max 1 (r.live.length / 10)) ∧
      (∀ x ∈ victims, ∀ y ∈ r'.live, x.rank now ≤ y.rank now) ∧
      (∀ x ∈ victims, ∀ y ∈ r'.live, x.lease.hits ≠ 0 → y.lease.hits ≠ 0) ∧
      0 < freed ∧ r'.usage.failures = 0 ∧ r'.inShortage = false) := by
  constructor
  · rintro (calm | none)
    · rw [Region.collectLeastUsed, calm]
      rfl
    · rw [Region.collectLeastUsed, none]
      split <;> rfl
  · intro short some
    obtain ⟨freed, r', hcollect, swept, hpos, hfailures⟩ :=
      h.regular.collectLeastUsed short some batch now
    have hrank : ∀ x ∈ r.victims batch now, ∀ y ∈ r'.live, x.rank now ≤ y.rank now := by
      intro x hx y hy
      refine rank_leastUsed hx (swept.order.subset hy) fun picked => ?_
      have hgone := swept.gone y picked
      rw [(swept.kept y hy).1] at hgone
      cases hgone
    refine ⟨r.victims batch now, freed, r', hcollect, swept,
      length_leastUsed_evictionCount some batch, hrank,
      fun x hx y hy => Snapshot.hits_of_rank_le (hrank x hx y hy), hpos, hfailures, ?_⟩
    rw [Region.inShortage, Usage.inShortage, hfailures]
    exact decide_eq_false (UInt64.not_lt_zero)

/-- Of two payloads the one that nobody has read is evicted when a request fails. -/
theorem collectLeastUsed_exact_unread : ∃ (r r' : Region) (x : Snapshot), r.Reachable ∧
    r.inShortage = true ∧ r.live.map (fun y => (y.lease.hits, y.span.size)) = [(1, 3), (0, 2)] ∧
    r.collectLeastUsed 1 50 = (.ok 2, r') ∧ Swept r [x] 2 r' ∧ x.lease.hits = 0 ∧
    r'.inShortage = false := by
  let ops : List (Int × Op) := [(0, .submit ⟨.payload [1, 2, 3], .never, 0⟩),
    (0, .submit ⟨.payload [4, 5], .never, 0⟩), (10, .view ⟨0, 0, 0⟩ fun bytes => bytes),
    (20, .submit ⟨.payload [6, 7, 8, 9], .never, 0⟩)]
  have reachable : Reachable _ := ⟨_, ops, @New.largestFit 0 8 _ rfl, by decide, rfl⟩
  generalize hr : Region.run _ _ = r at reachable
  obtain ⟨short, some, hlive⟩ : r.inShortage = true ∧ r.live ≠ [] ∧
      r.live.map (fun y => (y.lease.hits, y.span.size)) = [(1, 3), (0, 2)] := by
    subst hr
    decide
  obtain ⟨victims, freed, r', hcollect, swept, hlength, -, hhits, -, -, calm⟩ :=
    (collectLeastUsed_exact reachable 1 50).2 short some
  have htwo : r.live.length = 2 := by
    rw [← List.length_map fun y => (y.lease.hits, y.span.size), hlive]
    rfl
  rw [if_pos Nat.one_pos, htwo] at hlength
  obtain ⟨x, rfl⟩ := List.length_eq_one_iff.1 hlength
  have unread : x.lease.hits = 0 := by
    by_contra read
    -- the unread payload is one of those that stay, which all have been read then
    have member : (0, 2) ∈ r.live.map fun y => (y.lease.hits, y.span.size) := by simp [hlive]
    obtain ⟨y, hy, hzero⟩ := List.mem_map.1 member
    rcases List.mem_cons.1 (swept.split.subset hy) with rfl | stays
    · exact read (congrArg Prod.fst hzero)
    · exact hhits x (by simp) y stays read (congrArg Prod.fst hzero)
  have hfreed : freed = 2 := by
    have member := List.mem_map_of_mem (f := fun y => (y.lease.hits, y.span.size))
      (swept.split.symm.subset (List.mem_cons_self : x ∈ [x] ++ r'.live))
    rw [hlive, unread] at member
    rw [swept.total]
    simpa using member
  subst hfreed
  exact ⟨r, r', x, reachable, short, hlive, hcollect, swept, unread, calm⟩

end Region

end RegionStore
