import Mathlib.Data.Option.Basic
import RegionStore.Proofs.CheckedRanges
import RegionStore.Proofs.PoolIntegrity
import RegionStore.Proofs.SlotGrowth

/-!
Finding room and giving it back, step by step. The entries of a region name ranges inside of it
whether they are issued or not, and no more slots are made than there are bytes, so that every
lookup finds something and every number stays in its word.
-/
namespace RegionStore

theorem findIdx?_append_cons {α : Type} {p : α → Bool} {lower higher : List α} {x : α}
    (before : ∀ y ∈ lower, p y = false) (here : p x = true) :
    (lower ++ x :: higher).findIdx? p = some lower.length := by
  rw [List.findIdx?_append, List.findIdx?_eq_none_iff.2 before, List.findIdx?_cons, if_pos here]
  simp

theorem Span.length_le_total (spans : List Span) : spans.length ≤ total spans := by
  induction spans with
  | nil => exact Nat.le_refl _
  | cons s rest ih =>
    have := s.size_pos
    rw [List.length_cons, total_cons]
    omega

namespace SlotTable

variable {t : SlotTable} {slot segment : Nat} {e : Entry} {span : Span}

theorem move?_eq (found : t.find? slot = some e) (free : e.free = true)
    (ordered : span.start ≤ span.last) :
    t.move? slot segment span = some (t.modify slot (·.move segment span)) := by
  simp only [move?, found, Option.bind_eq_bind, Option.bind_some, guard_of free, guard_of ordered]

theorem insert?_eq (vacant : t.VacantFree) (ordered : span.start ≤ span.last)
    (few : t.vacant = [] → t.slotCount ≤ Segment.maxSize) :
    t.insert? segment span = some (t.insert segment span) := by
  cases stack : t.vacant with
  | nil =>
    simp only [insert?, insert, stack, word32?_of_le (few stack), Option.bind_eq_bind,
      Option.bind_some]
  | cons slot rest =>
    obtain ⟨e, found, free⟩ := vacant slot (by simp [stack])
    simp only [insert?, insert, stack, move?_eq found free ordered, Option.bind_eq_bind,
      Option.bind_some]

theorem issue?_eq {q : Request} (found : t.find? slot = some e) (free : e.free = true)
    (small : q.size ≤ Segment.maxSize) (now : Int) :
    t.issue? slot q now = some (t.modify slot (·.issue q.size q.tag q.expiry now)) := by
  simp only [issue?, found, Option.bind_eq_bind, Option.bind_some, guard_of free,
    word32?_of_le small]

theorem live?_eq (few : t.slotCount ≤ UInt32.size) : t.live? = some t.live := by
  simp only [live?, guard_of few, Option.bind_eq_bind, Option.bind_some]

theorem reset?_eq (few : t.slotCount ≤ UInt32.size) : t.reset? = some t.reset := by
  simp only [reset?, guard_of few, Option.bind_eq_bind, Option.bind_some]

/-- Whether they are issued or not, entries name ranges inside of a region. -/
def Sane (t : SlotTable) : Prop := ∀ slot e, t.find? slot = some e → e.span.Sane

theorem Sane.modify (h : t.Sane) {f : Entry → Entry} (found : t.find? slot = some e)
    (sane : (f e).span.Sane) : (t.modify slot f).Sane := by
  intro x e' found'
  rw [find?_modify] at found'
  split at found'
  · next here =>
    rw [← here, found, Option.map_some, Option.some.injEq] at found'
    rw [← found']
    exact sane
  · exact h x e' found'

theorem Sane.insert (h : t.Sane) (vacant : t.VacantFree) (sane : span.Sane) (segment : Nat) :
    (t.insert segment span).2.Sane := by
  intro x e' found'
  by_cases here : x = (t.insert segment span).1
  · obtain ⟨-, e, found, -, -, hspan⟩ := insert_readied vacant segment span
    rw [here, found] at found'
    cases found'
    rwa [hspan]
  · rw [find?_insert_of_ne here] at found'
    exact h x e' found'

theorem Sane.invalidateAll (h : t.Sane) : t.invalidateAll.Sane := by
  intro x e found
  rw [find?_invalidateAll] at found
  obtain ⟨old, hold, rfl⟩ := Option.map_eq_some_iff.1 found
  exact h x old hold

/-- A slot is made only while there are few, so there are never more than words to number them. -/
theorem slotCount_insert_le (few : t.slotCount ≤ UInt32.size)
    (fresh : t.vacant = [] → t.slotCount ≤ Segment.maxSize) (segment : Nat) (span : Span) :
    (t.insert segment span).2.slotCount ≤ UInt32.size := by
  rcases t.insert_source segment span with ⟨-, count⟩ | ⟨stack, -, -, count⟩
  · rwa [count]
  · have := fresh stack
    rw [count]
    simp only [Segment.maxSize, UInt32.size] at this ⊢
    omega

/-- Where no slot is free, there is a byte for each of them. -/
theorem slotCount_le_issuedBytes (all : ∀ x e, t.find? x = some e → e.free = false) :
    t.slotCount ≤ t.issuedBytes := by
  have hslots := congrArg List.length t.live_slots
  rw [List.filter_eq_self.2, List.length_map, List.length_range] at hslots
  · have := Span.length_le_total (t.live.map (·.span))
    rw [List.length_map, hslots] at this
    exact this
  · intro x inside
    obtain ⟨e, found⟩ := exists_find?_iff.2 (List.mem_range.1 inside)
    rw [issued?_eq_some_iff.2 ⟨found, all x e found⟩]
    rfl

end SlotTable

namespace FirstFit

variable {order : List Nat} {t : SlotTable} {size n : Nat}

theorem fits?_eq (sane : t.Sane) (n slot : Nat) : fits? t n slot = some (fits t n slot) := by
  cases found : t.find? slot with
  | none => simp only [fits?, fits, found]
  | some e =>
    simp only [fits?, fits, found, (sane slot e found).size?, Option.map_some]
    cases e.free <;> rfl

theorem position?_eq (sane : t.Sane) (n : Nat) (order : List Nat) :
    position? t n order = some (order.findIdx? (fits t n)) := by
  induction order with
  | nil => rfl
  | cons slot rest ih =>
    simp only [position?, fits?_eq sane, ih, Option.bind_eq_bind, Option.bind_some,
      Option.map_some, List.findIdx?_cons]
    split <;> rfl

theorem insertIdx_length {α : Type} (lower higher : List α) (x : α) :
    (lower ++ higher).insertIdx lower.length x = lower ++ x :: higher := by
  induction lower with
  | nil => rfl
  | cons head rest ih => simp [ih]

namespace Account

/-- While nothing waits on the stack, every slot has a range on the list. -/
theorem slotCount_le (h : Account order t size) (stack : t.vacant = []) : t.slotCount ≤ size := by
  have hlength := h.slots.length_eq
  rw [stack, List.append_nil, List.length_range] at hlength
  have htiles := h.tiles.length_le
  rw [h.length_spans] at htiles
  omega

theorem find?_insert_listed (h : Account order t size) {whole : Nat} {e : Entry} {span : Span}
    (member : whole ∈ order) (found : t.find? whole = some e) :
    (t.insert 0 span).2.find? whole = some e := by
  rw [SlotTable.find?_insert_of_ne fun heq => h.insert_fresh 0 span (heq ▸ member), found]

/-- Both pieces of a range that is cut are in order. -/
theorem sane_cutFront (h : Account order t size) (sane : t.Sane) {whole : Nat} {e : Entry}
    (member : whole ∈ order) (found : t.find? whole = some e) (positive : 1 ≤ n)
    (larger : n < e.span.size) : (cutFront t whole e n).Sane := by
  have hsane := sane whole e found
  have hinsert := sane.insert h.vacant (hsane.front positive (Nat.le_of_lt larger)) 0
  exact hinsert.modify (h.find?_insert_listed member found) (hsane.rest larger)

theorem reserve? (h : Account order t size) (sane : t.Sane) (small : size ≤ Segment.maxSize)
    (positive : 1 ≤ n) : FirstFit.reserve? order t n = some (FirstFit.reserve order t n) := by
  cases first : order.find? (fits t n) with
  | none =>
    have hposition : order.findIdx? (fits t n) = none := by
      rw [List.findIdx?_eq_none_iff]
      simpa using first
    simp only [FirstFit.reserve?, FirstFit.reserve, position?_eq sane, first, hposition,
      Option.bind_eq_bind, Option.bind_some]
  | some whole =>
    obtain ⟨fit, lower, higher, listed, earlier⟩ := List.find?_eq_some_iff_append.1 first
    obtain ⟨e, found, free, large⟩ := fits_iff.1 fit
    have hmember : whole ∈ order := by simp [listed]
    have hsane := sane whole e found
    have hposition : order.findIdx? (fits t n) = some lower.length := by
      rw [listed]
      exact findIdx?_append_cons (by simpa using earlier) fit
    have hlookup : order[lower.length]? = some whole := by simp [listed]
    simp only [FirstFit.reserve?, FirstFit.reserve, position?_eq sane, first, hposition, hlookup,
      found, hsane.size?, Option.bind_eq_bind, Option.bind_some]
    by_cases exact_fit : e.span.size = n
    · rw [if_pos exact_fit, if_pos exact_fit]
    · -- the front goes to a fresh slot, and the rest stays where the whole was
      have hsize := Span.start_add_size hsane.1
      have hlast := hsane.2
      have hn : n ≤ Segment.maxSize := by omega
      have hsplit : e.span.start + n ≤ Segment.maxSize := by omega
      have larger : n < e.span.size := by omega
      have hinsert : t.insert? 0 (.ofSize e.span.start n) =
          some (t.insert 0 (.ofSize e.span.start n)) :=
        SlotTable.insert?_eq h.vacant (hsane.front positive large).1
          fun stack => Nat.le_trans (h.slotCount_le stack) small
      have hmove : (t.insert 0 (.ofSize e.span.start n)).2.move? whole 0
          ⟨e.span.start + n, e.span.last⟩ = some (cutFront t whole e n) :=
        SlotTable.move?_eq (h.find?_insert_listed hmember found) free (hsane.rest larger).1
      have hlist : insertBefore (t.insert 0 (.ofSize e.span.start n)).1 whole order =
          order.insertIdx lower.length (t.insert 0 (.ofSize e.span.start n)).1 := by
        have habsent : whole ∉ lower := by
          intro member
          have := earlier whole member
          rw [fit] at this
          cases this
        rw [listed, insertBefore_append habsent, insertIdx_length]
      simp only [Span.ofSize] at hinsert hmove hlist
      simp only [if_neg exact_fit, word32?_of_le hn, word32?_of_le hsplit,
        minus?_of_le (show 1 ≤ e.span.start + n by omega), Option.bind_some, hinsert, hmove,
        Span.ofSize, hlist]
      rfl

end Account

end FirstFit

namespace SlotPool

variable {pools : List SlotPool} {t : SlotTable} {sizes : List Nat}

/-- The walk over the positions of `upper` and a request that is offered to `upper` come to the
same: nothing, or a slot of one of its pools. -/
def WalksAlike (fallThrough : Bool) (n : Nat) (lower upper : List SlotPool) : Prop :=
  (reserve fallThrough n upper = none ∧
    pop? fallThrough (lower ++ upper) (candidates upper n lower.length) = some none) ∨
  ∃ slot below p free above, upper = below ++ p :: above ∧ p.free.toList = slot :: free.toList ∧
    reserve fallThrough n upper = some (slot, below ++ { p with free } :: above) ∧
    pop? fallThrough (lower ++ upper) (candidates upper n lower.length) =
      some (some (slot, (lower ++ below).length, (lower ++ below) ++ { p with free } :: above))

/-- A pool that is passed over leaves it to the larger ones. -/
theorem WalksAlike.pass {fallThrough : Bool} {n : Nat} {lower larger : List SlotPool}
    {p : SlotPool} (h : WalksAlike fallThrough n (lower ++ [p]) larger)
    (passed : p.slotSize < n ∨ fallThrough = true)
    (empty : (if p.slotSize < n then none else p.free.pop?) = none)
    (walk : pop? fallThrough (lower ++ p :: larger) (candidates (p :: larger) n lower.length) =
      pop? fallThrough ((lower ++ [p]) ++ larger) (candidates larger n (lower ++ [p]).length)) :
    WalksAlike fallThrough n lower (p :: larger) := by
  have hpassed : (decide (p.slotSize < n) || fallThrough) = true := by simpa using passed
  unfold WalksAlike at h ⊢
  rw [walk, reserve, empty]
  simp only [hpassed, if_true]
  rcases h with ⟨none, hpop⟩ | ⟨slot, below, q, free, above, hsplit, hqueue, hreserve, hpop⟩
  · exact Or.inl ⟨by rw [none, Option.map_none], hpop⟩
  · refine Or.inr ⟨slot, p :: below, q, free, above, by rw [hsplit]; rfl, hqueue, ?_, ?_⟩
    · rw [hreserve]
      rfl
    · rw [hpop, List.append_assoc]
      rfl

theorem walksAlike (fallThrough : Bool) (n : Nat) (lower upper : List SlotPool) :
    WalksAlike fallThrough n lower upper := by
  induction upper generalizing lower with
  | nil => exact Or.inl ⟨rfl, rfl⟩
  | cons p larger ih =>
    have hlater := (ih (lower ++ [p])).pass
    by_cases small : p.slotSize < n
    · refine hlater (Or.inl small) (if_pos small) ?_
      have hcandidates : candidates (p :: larger) n lower.length =
          candidates larger n (lower ++ [p]).length := by
        rw [candidates, List.zipIdx_cons, List.filter_cons_of_neg (by simpa using small)]
        simp [candidates]
      rw [hcandidates, List.append_assoc]
      rfl
    · have hcandidates : candidates (p :: larger) n lower.length =
          lower.length :: candidates larger n (lower ++ [p]).length := by
        have large : n ≤ p.slotSize := by omega
        rw [candidates, List.zipIdx_cons, List.filter_cons_of_pos (by simpa using large)]
        simp [candidates]
      have hlookup : (lower ++ p :: larger)[lower.length]? = some p := by simp
      cases popped : p.free.pop? with
      | some found =>
        obtain ⟨slot, free⟩ := found
        refine Or.inr ⟨slot, [], p, free, larger, rfl, Queue.toList_of_pop? popped, ?_, ?_⟩
        · rw [reserve, if_neg small, popped]
          rfl
        · rw [hcandidates, pop?]
          simp only [hlookup, popped, Option.bind_eq_bind, Option.bind_some, List.append_nil]
          simp
      | none =>
        cases hfall : fallThrough with
        | true =>
          rw [hfall] at hlater
          refine hlater (Or.inr rfl) (by rw [if_neg small, popped]) ?_
          rw [hcandidates, pop?]
          simp only [hlookup, popped, Option.bind_eq_bind, Option.bind_some, if_true]
          rw [List.append_assoc]
          rfl
        | false =>
          refine Or.inl ⟨?_, ?_⟩
          · rw [reserve, if_neg small, popped]
            simp [small]
          · rw [hcandidates, pop?]
            simp only [hlookup, popped, Option.bind_eq_bind, Option.bind_some]
            rfl

/-- The pool that a release goes to is found by the segment of the entry. -/
theorem Account.exists_owner (h : Account pools t sizes) {slot : Nat} {e : Entry}
    (found : t.find? slot = some e) : ∃ lower p higher, pools = lower ++ p :: higher ∧
      pools.findIdx? (·.ownsSegment e.segment) = some lower.length ∧
      (∀ q ∈ lower, q.ownsSegment e.segment = false) ∧ p.ownsSegment e.segment = true ∧
      e.span.size = p.slotSize := by
  obtain ⟨p, member, owned⟩ := h.owners slot e found
  obtain ⟨lower, higher, rfl⟩ := List.append_of_mem member
  have hplace := h.place_eq member owned found
  obtain ⟨-, -, positive, room⟩ := h.chained.mem member
  obtain ⟨hsegment, -, -, hsize⟩ := home_inside positive room owned
  rw [← hplace] at hsegment hsize
  have foreign : ∀ q ∈ lower, q.ownsSegment e.segment = false :=
    fun q hq => h.chained.foreign hq hsegment
  exact ⟨lower, p, higher, rfl, findIdx?_append_cons foreign hsegment, foreign, hsegment, hsize⟩

end SlotPool

namespace Placement

/-- What holds of the entries that are not issued as well: they name ranges inside of the region,
32 bits number them, and for largest fit they all wait on the stack. -/
structure Tidy (p : Placement) (t : SlotTable) : Prop where
  sane : t.Sane
  few : t.slotCount ≤ UInt32.size
  parked : p.strategy = .largestFit →
    ∀ slot e, t.find? slot = some e → e.free = true → slot ∈ t.vacant

variable {p p' : Placement} {t t' : SlotTable} {sizes : List Nat} {slot n : Nat} {e : Entry}

theorem Tidy.modify (h : p.Tidy t) {f : Entry → Entry} (found : t.find? slot = some e)
    (place : (f e).place = e.place) (still : (f e).free = true → e.free = true) :
    p.Tidy (t.modify slot f) := by
  have hspan : (f e).span = e.span := congrArg Prod.snd place
  refine ⟨h.sane.modify found (by rw [hspan]; exact h.sane slot e found), ?_, fun largest => ?_⟩
  · rw [SlotTable.slotCount_modify]
    exact h.few
  · refine SlotTable.Parked.modify (h.parked largest) fun e' found' => ?_
    obtain rfl := Option.some.inj (found.symm.trans found')
    exact still

/-- The stack is empty only while there are no more slots than bytes. -/
theorem Tidy.slotCount_le (h : p.Tidy t) (account : p.Account t sizes)
    (small : ∀ n ∈ sizes, n ≤ Segment.maxSize) (pooled : p.strategy ≠ .slab)
    (stack : t.vacant = []) : t.slotCount ≤ Segment.maxSize := by
  cases p with
  | firstFit order =>
    obtain ⟨size, rfl, account⟩ := account
    exact Nat.le_trans (account.slotCount_le stack) (small size (by simp))
  | largestFit free =>
    obtain ⟨size, rfl, account⟩ := account
    have hissued := SlotTable.slotCount_le_issuedBytes fun x e found => by
      by_contra free
      have := h.parked rfl x e found (by simpa using free)
      rw [stack] at this
      cases this
    have := account.bytes
    have := small size (by simp)
    omega
  | slab pools fallThrough => exact absurd rfl pooled

theorem Account.reserve?_of_none (account : p.Account t sizes) (tidy : p.Tidy t)
    (small : ∀ n ∈ sizes, n ≤ Segment.maxSize) (positive : 1 ≤ n)
    (room : p.reserve t n = none) : p.reserve? t n = some none := by
  cases p with
  | firstFit order =>
    obtain ⟨size, rfl, account⟩ := account
    have hnone : FirstFit.reserve order t n = none := Option.map_eq_none_iff.1 room
    simp only [Placement.reserve?, account.reserve? tidy.sane (small size (by simp)) positive,
      hnone, Option.bind_eq_bind, Option.bind_some]
  | largestFit free =>
    obtain ⟨size, rfl, account⟩ := account
    have hnone : free.take n = none := Option.map_eq_none_iff.1 room
    simp only [Placement.reserve?, (account.inside (small size (by simp))).take? positive,
      hnone, Option.bind_eq_bind, Option.bind_some]
  | slab pools fallThrough =>
    have hnone : SlotPool.reserve fallThrough n pools = none := Option.map_eq_none_iff.1 room
    rcases SlotPool.walksAlike fallThrough n [] pools with ⟨-, hpop⟩ |
      ⟨slot, below, q, free, above, -, -, hreserve, -⟩
    · simp only [List.nil_append, List.length_nil] at hpop
      simp only [Placement.reserve?, hpop, Option.bind_eq_bind, Option.bind_some]
    · rw [hnone] at hreserve
      cases hreserve

/-- Room is found without a step that fails, and counts for the bytes of the range. -/
theorem Account.reserve?_of_some (account : p.Account t sizes) (tidy : p.Tidy t)
    (small : ∀ n ∈ sizes, n ≤ Segment.maxSize) (positive : 1 ≤ n)
    (room : p.reserve t n = some (slot, t', p')) (found : t'.find? slot = some e) :
    p.reserve? t n = some (some (slot, t', p', e.span.size)) := by
  have hexact : p.strategy ≠ .slab → e.span.size = n := by
    obtain ⟨-, -, e', found', -, -, hexact, -⟩ := account.reserve positive room
    rw [found] at found'
    cases found'
    exact hexact
  cases p with
  | firstFit order =>
    rw [hexact nofun]
    obtain ⟨size, rfl, account⟩ := account
    obtain ⟨⟨slot', order', table⟩, reserved, heq⟩ := Option.map_eq_some_iff.1 room
    cases heq
    simp only [Placement.reserve?, account.reserve? tidy.sane (small size (by simp)) positive,
      reserved, Option.bind_eq_bind, Option.bind_some]
  | largestFit free =>
    rw [hexact nofun]
    have hfew := tidy.slotCount_le account small nofun
    obtain ⟨size, rfl, account⟩ := account
    obtain ⟨span, free', taken, rfl, rfl, rfl⟩ := largestFit_reserve room
    obtain ⟨whole, -, -, rfl, -⟩ := account.valid.take positive taken
    have hordered : (Span.ofSize whole.start n).start ≤ (Span.ofSize whole.start n).last := by
      dsimp only [Span.ofSize]
      omega
    simp only [Placement.reserve?, (account.inside (small size (by simp))).take? positive,
      taken, SlotTable.insert?_eq account.vacant hordered hfew, Option.bind_eq_bind,
      Option.bind_some]
  | slab pools fallThrough =>
    obtain ⟨⟨slot', pools'⟩, reserved, heq⟩ := Option.map_eq_some_iff.1 room
    cases heq
    rcases SlotPool.walksAlike fallThrough n [] pools with ⟨none, -⟩ |
      ⟨slot', below, q, free, above, rfl, hqueue, hreserve, hpop⟩
    · rw [reserved] at none
      cases none
    · rw [reserved] at hreserve
      cases hreserve
      have hmember : q ∈ below ++ q :: above := by simp
      obtain ⟨owned, -⟩ := (SlotPool.Account.queued account q hmember slot).1 (by simp [hqueue])
      have hplace := SlotPool.Account.place_eq account hmember owned found
      obtain ⟨-, -, hpositive, hroom⟩ := (SlotPool.Account.chained account).mem hmember
      have hsize := (SlotPool.home_inside hpositive hroom owned).2.2.2
      rw [← hplace] at hsize
      change e.span.size = q.slotSize at hsize
      simp only [List.nil_append, List.length_nil] at hpop
      have hlookup : (below ++ { q with free } :: above)[below.length]? =
          some { q with free } := by simp
      simp only [Placement.reserve?, hpop, hlookup, hsize, Option.bind_eq_bind,
        Option.bind_some]

/-- What a release counts for is the range of the entry, whether it is issued or not. -/
theorem Account.bytes? (account : p.Account t sizes) (tidy : p.Tidy t)
    (found : t.find? slot = some e) : p.bytes? e = some e.span.size := by
  cases p with
  | firstFit order => exact (tidy.sane slot e found).size?
  | largestFit free => exact (tidy.sane slot e found).size?
  | slab pools fallThrough =>
    obtain ⟨lower, q, higher, rfl, hindex, -, -, hsize⟩ :=
      SlotPool.Account.exists_owner account found
    simp [Placement.bytes?, hindex, hsize]

theorem Account.release? (account : p.Account t sizes) (tidy : p.Tidy t)
    (small : ∀ n ∈ sizes, n ≤ Segment.maxSize) (issued : t.issued? slot = some e)
    (released : p.release (t.modify slot fun _ => e.invalidate) slot e = .ok (t', p')) :
    p.release? (t.modify slot fun _ => e.invalidate) slot e = some (t', p') := by
  have found := (SlotTable.issued?_eq_some_iff.1 issued).1
  cases p with
  | firstFit order =>
    cases released
    rfl
  | largestFit free =>
    obtain ⟨size, rfl, account⟩ := account
    have hrange := SlotTable.range?_of_issued? issued
    have hdisjoint : ∀ offset ∈ e.span, ¬ free.Covers offset := fun offset hmem covered =>
      ((account.covers offset).1 covered).2 slot e.span hrange hmem
    have hroom : free.freeBytes + e.span.size ≤ Segment.maxSize := by
      have hbytes := SlotTable.issuedBytes_of_released issued (SlotTable.issued?_release issued)
      have := account.bytes
      have := small size (by simp)
      omega
    obtain ⟨joined, free', hrelease, hrelease'⟩ :=
      (account.inside (small size (by simp))).release? (tidy.sane slot e found) hdisjoint hroom
    simp only [Placement.release, hrelease, Except.ok.injEq, Prod.mk.injEq] at released
    obtain ⟨rfl, rfl⟩ := released
    simp only [Placement.release?, hrelease', Option.bind_eq_bind, Option.bind_some]
  | slab pools fallThrough =>
    obtain ⟨lower, q, higher, rfl, hindex, foreign, owned, -⟩ :=
      SlotPool.Account.exists_owner account found
    simp only [Placement.release, SlotPool.release_eq_some foreign owned, Except.ok.injEq,
      Prod.mk.injEq] at released
    obtain ⟨rfl, rfl⟩ := released
    simp [Placement.release?, hindex]

/-- What was reserved is issued. -/
theorem Tidy.reserve (tidy : p.Tidy t) (account : p.Account t sizes)
    (small : ∀ n ∈ sizes, n ≤ Segment.maxSize) (positive : 1 ≤ n)
    (room : p.reserve t n = some (slot, t', p')) (found : t'.find? slot = some e)
    {f : Entry → Entry} (issued : (f e).free = false) (place : (f e).place = e.place) :
    p'.Tidy (t'.modify slot f) := by
  have hcount := tidy.slotCount_le account small
  have hissue (sane : t'.Sane) : (t'.modify slot f).Sane := by
    refine sane.modify found ?_
    rw [show (f e).span = e.span from congrArg Prod.snd place]
    exact sane slot e found
  cases p with
  | firstFit order =>
    obtain ⟨size, rfl, account⟩ := account
    obtain ⟨⟨slot', order', table⟩, reserved, heq⟩ := Option.map_eq_some_iff.1 room
    cases heq
    obtain ⟨lower, whole, higher, e', listed, -, hwhole, -, hcase⟩ :=
      account.reserve_cases reserved
    rcases hcase with ⟨-, rfl, rfl, rfl⟩ | ⟨larger, -, -, rfl⟩
    · refine ⟨hissue tidy.sane, ?_, nofun⟩
      rw [SlotTable.slotCount_modify]
      exact tidy.few
    · have hcut := account.sane_cutFront tidy.sane (by simp [listed]) hwhole positive larger
      refine ⟨hissue hcut, ?_, nofun⟩
      rw [SlotTable.slotCount_modify, SlotTable.slotCount_modify]
      exact SlotTable.slotCount_insert_le tidy.few (hcount nofun) 0 _
  | largestFit free =>
    obtain ⟨size, rfl, account⟩ := account
    obtain ⟨span, free', taken, rfl, rfl, rfl⟩ := largestFit_reserve room
    obtain ⟨whole, largest, large, rfl, -⟩ := account.valid.take positive taken
    obtain ⟨member, -⟩ := account.valid.largest_eq_some largest
    have hspan := ((account.inside (small size (by simp))).sane member).front positive (by omega)
    refine ⟨hissue (tidy.sane.insert account.vacant hspan 0), ?_, fun _ => ?_⟩
    · rw [SlotTable.slotCount_modify]
      exact SlotTable.slotCount_insert_le tidy.few (hcount nofun) 0 _
    · refine SlotTable.Parked.issue (tidy.parked rfl) fun e' found' => ?_
      obtain rfl := Option.some.inj (found.symm.trans found')
      exact issued
  | slab pools fallThrough =>
    obtain ⟨⟨slot', pools'⟩, reserved, heq⟩ := Option.map_eq_some_iff.1 room
    cases heq
    refine ⟨hissue tidy.sane, ?_, nofun⟩
    rw [SlotTable.slotCount_modify]
    exact tidy.few

theorem Tidy.release (tidy : p.Tidy t) (found : t.find? slot = some e)
    (released : p.release (t.modify slot fun _ => e.invalidate) slot e = .ok (t', p')) :
    p'.Tidy t' := by
  have hsane : (t.modify slot fun _ => e.invalidate).Sane :=
    tidy.sane.modify found (tidy.sane slot e found)
  have hfew : (t.modify slot fun _ => e.invalidate).slotCount ≤ UInt32.size := by
    rw [SlotTable.slotCount_modify]
    exact tidy.few
  cases p with
  | firstFit order =>
    cases released
    exact ⟨hsane, hfew, fun impossible => by cases impossible⟩
  | largestFit free =>
    simp only [Placement.release] at released
    split at released <;> cases released
    exact ⟨hsane, hfew, fun _ => SlotTable.Parked.retire (tidy.parked rfl) slot _⟩
  | slab pools fallThrough =>
    simp only [Placement.release] at released
    split at released <;> cases released
    exact ⟨hsane, hfew, fun impossible => by cases impossible⟩

/-- A reset of a table leaves every slot on the stack, so that a range takes a new slot only if
there is none. -/
theorem reset_fresh (t : SlotTable) (stack : t.reset.vacant = []) :
    t.reset.slotCount ≤ Segment.maxSize := by
  have hnone : t.slotCount = 0 := by
    simpa using congrArg List.length (show List.range _ = _ from stack)
  rw [SlotTable.slotCount_reset, hnone]
  exact Nat.zero_le _

/-- Starting over fails nowhere, and leaves the table tidy. -/
theorem Tidy.reset (tidy : p.Tidy t) {size : Nat}
    (admissible : p.strategy ≠ .slab → 1 ≤ size ∧ size ≤ Segment.maxSize) :
    p.reset? t size = some (p.reset t size) ∧ (p.reset t size).2.Tidy (p.reset t size).1 := by
  have hreset := SlotTable.reset?_eq tidy.few
  have hsane : t.reset.Sane := tidy.sane.invalidateAll
  have hfew : t.reset.slotCount ≤ UInt32.size := by
    rw [SlotTable.slotCount_reset]
    exact tidy.few
  cases p with
  | firstFit order =>
    obtain ⟨hpositive, hsmall⟩ := admissible nofun
    have hspan : (Span.ofSize 0 size).Sane := by
      constructor <;> dsimp only [Span.ofSize] <;> omega
    have hinsert : t.reset.insert? 0 (.ofSize 0 size) = some (t.reset.insert 0 (.ofSize 0 size)) :=
      SlotTable.insert?_eq t.vacantFree_reset hspan.1 (reset_fresh t)
    refine ⟨?_, hsane.insert t.vacantFree_reset hspan 0,
      SlotTable.slotCount_insert_le hfew (reset_fresh t) 0 _, nofun⟩
    have hlast : size - 1 ≤ Segment.maxSize := by omega
    simp only [Span.ofSize, Nat.zero_add] at hinsert
    simp only [Placement.reset?, hreset, minus?_of_le hpositive, word32?_of_le hlast, hinsert,
      Option.bind_eq_bind, Option.bind_some, Placement.reset, FirstFit.start, Span.ofSize,
      Nat.zero_add]
  | largestFit free =>
    obtain ⟨hpositive, hsmall⟩ := admissible nofun
    refine ⟨?_, hsane, hfew, fun _ => t.parked_reset⟩
    simp only [Placement.reset?, hreset, FreeSpans.spanning?_eq hpositive hsmall,
      Option.bind_eq_bind, Option.bind_some]
    rfl
  | slab pools fallThrough =>
    refine ⟨rfl, tidy.sane.invalidateAll, ?_, nofun⟩
    change t.invalidateAll.slotCount ≤ _
    rw [SlotTable.slotCount_invalidateAll]
    exact tidy.few

end Placement

end RegionStore
