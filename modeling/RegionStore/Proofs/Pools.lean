import Mathlib.Data.List.Basic
import RegionStore.Proofs.NewPools
import RegionStore.Proofs.Table

/-!
The account that slot pools keep. Slots and segments are numbered through from pool to pool, the
number of a slot settles its segment and its range, and the queue of a pool holds its free slots.
-/
namespace RegionStore.SlotPool

theorem mem_slots {p : SlotPool} {slot : Nat} :
    slot ∈ p.slots ↔ p.firstSlot ≤ slot ∧ slot < p.firstSlot + p.slotCount := by
  simp [slots, List.mem_range'_1]

theorem ownsSegment_iff {p : SlotPool} {segment : Nat} : p.ownsSegment segment = true ↔
    p.firstSegment ≤ segment ∧ segment < p.firstSegment + p.segmentCount := by
  simp [ownsSegment]

/-- Segment and range of a slot, worked out from its number. -/
def home (p : SlotPool) (slot : Nat) : Nat × Span :=
  (p.firstSegment + (slot - p.firstSlot) / p.slotsPerSegment,
    p.slotSpan ((slot - p.firstSlot) % p.slotsPerSegment))

/-- Pools numbered through from a first segment and a first slot on, each with room in it. -/
def Chained : (firstSegment firstSlot : Nat) → List SlotPool → Prop
  | _, _, [] => True
  | firstSegment, firstSlot, p :: rest =>
    p.firstSegment = firstSegment ∧ p.firstSlot = firstSlot ∧
      0 < p.slotSize ∧ 0 < p.slotsPerSegment ∧
      Chained (firstSegment + p.segmentCount) (firstSlot + p.slotCount) rest

theorem Chained.mem {pools : List SlotPool} {firstSegment firstSlot : Nat}
    (h : Chained firstSegment firstSlot pools) {p : SlotPool} (member : p ∈ pools) :
    firstSegment ≤ p.firstSegment ∧ firstSlot ≤ p.firstSlot ∧
      0 < p.slotSize ∧ 0 < p.slotsPerSegment := by
  induction pools generalizing firstSegment firstSlot with
  | nil => cases member
  | cons head rest ih =>
    obtain ⟨hsegment, hslot, hsize, hcount, hrest⟩ := h
    rcases List.mem_cons.1 member with rfl | member
    · exact ⟨Nat.le_of_eq hsegment.symm, Nat.le_of_eq hslot.symm, hsize, hcount⟩
    · obtain ⟨hsegment', hslot', hothers⟩ := ih hrest member
      exact ⟨by omega, by omega, hothers⟩

/-- The queues play no part in the numbering. -/
theorem Chained.requeue {lower higher : List SlotPool} {p : SlotPool} {firstSegment firstSlot : Nat}
    (h : Chained firstSegment firstSlot (lower ++ p :: higher)) (free : Queue Nat) :
    Chained firstSegment firstSlot (lower ++ { p with free } :: higher) := by
  induction lower generalizing firstSegment firstSlot with
  | nil => exact h
  | cons head rest ih =>
    obtain ⟨hsegment, hslot, hsize, hcount, hrest⟩ := h
    exact ⟨hsegment, hslot, hsize, hcount, ih hrest⟩

theorem Chained.refill {pools : List SlotPool} {firstSegment firstSlot : Nat}
    (h : Chained firstSegment firstSlot pools) :
    Chained firstSegment firstSlot (pools.map .refill) := by
  induction pools generalizing firstSegment firstSlot with
  | nil => exact h
  | cons p rest ih =>
    obtain ⟨hsegment, hslot, hsize, hcount, hrest⟩ := h
    exact ⟨hsegment, hslot, hsize, hcount, ih hrest⟩

/-- Pools of a chain share neither slots nor segments. -/
theorem Chained.pairwise {pools : List SlotPool} {firstSegment firstSlot : Nat}
    (h : Chained firstSegment firstSlot pools) :
    pools.Pairwise fun p q => p.firstSegment + p.segmentCount ≤ q.firstSegment ∧
      p.firstSlot + p.slotCount ≤ q.firstSlot := by
  induction pools generalizing firstSegment firstSlot with
  | nil => exact List.Pairwise.nil
  | cons p rest ih =>
    obtain ⟨hsegment, hslot, -, -, hrest⟩ := h
    refine List.pairwise_cons.2 ⟨fun q hq => ?_, ih hrest⟩
    have := hrest.mem hq
    omega

/-- The pools in front of the one that owns a segment do not own it. -/
theorem Chained.foreign {lower higher : List SlotPool} {p q : SlotPool}
    {firstSegment firstSlot segment : Nat}
    (h : Chained firstSegment firstSlot (lower ++ p :: higher)) (earlier : q ∈ lower)
    (owned : p.ownsSegment segment = true) : q.ownsSegment segment = false := by
  have hpair := (List.pairwise_append.1 h.pairwise).2.2 q earlier p (by simp)
  rw [ownsSegment_iff] at owned
  rw [← Bool.not_eq_true, ownsSegment_iff]
  omega

private theorem flatMap_range_map {α : Type} (f : Nat → Nat → α) (n k : Nat) :
    ((List.range n).flatMap fun i => (List.range k).map (f i)) =
      (List.range (n * k)).map fun i => f (i / k) (i % k) := by
  induction n with
  | zero => simp
  | succ n ih =>
    rw [List.range_succ, List.flatMap_append, ih, Nat.succ_mul, List.range_add, List.map_append,
      List.flatMap_singleton, List.map_map]
    congr 1
    apply List.map_congr_left
    intro i hi
    have hi := List.mem_range.1 hi
    have hpos : 0 < k := by omega
    rw [Function.comp_apply, Nat.mul_comm n k, Nat.mul_add_div hpos, Nat.mul_add_mod,
      Nat.div_eq_of_lt hi, Nat.mod_eq_of_lt hi, Nat.add_zero]

theorem extents_eq_map (p : SlotPool) :
    p.extents = (List.range p.slotCount).map fun i => p.home (p.firstSlot + i) := by
  simp only [extents, slotCount, home, Nat.add_sub_cancel_left]
  exact flatMap_range_map (fun segment position =>
    (p.firstSegment + segment, p.slotSpan position)) p.segmentCount p.slotsPerSegment

/-- The list of all extents has the extent of a slot at the slot's number. -/
theorem Chained.getElem?_extents {pools : List SlotPool} {firstSegment firstSlot : Nat}
    (h : Chained firstSegment firstSlot pools) {p : SlotPool} (member : p ∈ pools) {slot : Nat}
    (owned : slot ∈ p.slots) :
    (pools.flatMap (·.extents))[slot - firstSlot]? = some (p.home slot) := by
  rw [mem_slots] at owned
  induction pools generalizing firstSegment firstSlot with
  | nil => cases member
  | cons head rest ih =>
    obtain ⟨hsegment, hslot, hsize, hcount, hrest⟩ := h
    rw [List.flatMap_cons, List.getElem?_append, length_extents]
    rcases List.mem_cons.1 member with rfl | member
    · rw [if_pos (by omega), extents_eq_map, List.getElem?_map,
        List.getElem?_range (by omega), Option.map_some]
      congr 2
      omega
    · have := hrest.mem member
      rw [if_neg (by omega)]
      have := ih hrest member
      rw [← this]
      congr 1
      omega

theorem Chained.exists_owner {pools : List SlotPool} {firstSegment firstSlot : Nat}
    (h : Chained firstSegment firstSlot pools) {slot : Nat} (least : firstSlot ≤ slot)
    (bound : slot < firstSlot + (pools.flatMap (·.extents)).length) :
    ∃ p ∈ pools, slot ∈ p.slots := by
  induction pools generalizing firstSegment firstSlot with
  | nil =>
    rw [List.flatMap_nil, List.length_nil] at bound
    omega
  | cons head rest ih =>
    obtain ⟨hsegment, hslot, hsize, hcount, hrest⟩ := h
    rw [List.flatMap_cons, List.length_append, length_extents] at bound
    by_cases here : slot < firstSlot + head.slotCount
    · exact ⟨head, by simp, mem_slots.2 (by omega)⟩
    · obtain ⟨p, hp, howned⟩ := ih hrest (by omega) (by omega)
      exact ⟨p, List.mem_cons_of_mem _ hp, howned⟩

theorem Chained.getElem?_segments {pools : List SlotPool} {firstSegment firstSlot : Nat}
    (h : Chained firstSegment firstSlot pools) {p : SlotPool} (member : p ∈ pools) {segment : Nat}
    (owned : p.ownsSegment segment = true) :
    (pools.flatMap (·.segments))[segment - firstSegment]? = some (.zeroed p.segmentSize) := by
  rw [ownsSegment_iff] at owned
  induction pools generalizing firstSegment firstSlot with
  | nil => cases member
  | cons head rest ih =>
    obtain ⟨hsegment, hslot, hsize, hcount, hrest⟩ := h
    have hlength : head.segments.length = head.segmentCount := by simp [segments]
    rw [List.flatMap_cons, List.getElem?_append, hlength]
    rcases List.mem_cons.1 member with rfl | member
    · rw [if_pos (by omega), segments, List.getElem?_replicate, if_pos (by omega)]
    · have := hrest.mem member
      rw [if_neg (by omega)]
      have := ih hrest member
      rw [← this]
      congr 1
      omega

/-- A slot lies in a segment of its pool and inside of that segment. -/
theorem home_inside {p : SlotPool} (positive : 0 < p.slotSize) (room : 0 < p.slotsPerSegment)
    {slot : Nat} (owned : slot ∈ p.slots) :
    p.ownsSegment (p.home slot).1 = true ∧ (p.home slot).2.start ≤ (p.home slot).2.last ∧
      (p.home slot).2.last < p.segmentSize ∧ (p.home slot).2.size = p.slotSize := by
  rw [mem_slots, slotCount] at owned
  have hsegment : (slot - p.firstSlot) / p.slotsPerSegment < p.segmentCount := by
    rw [Nat.div_lt_iff_lt_mul room]
    omega
  have hposition : (slot - p.firstSlot) % p.slotsPerSegment + 1 ≤ p.slotsPerSegment :=
    Nat.mod_lt _ room
  have hend := Nat.mul_le_mul_right p.slotSize hposition
  rw [Nat.add_mul, Nat.one_mul] at hend
  refine ⟨?_, ?_, ?_, Span.size_ofSize positive _⟩
  · rw [ownsSegment_iff]
    exact ⟨Nat.le_add_right _ _, Nat.add_lt_add_left hsegment _⟩
  · simp only [home, slotSpan, Span.ofSize]
    omega
  · simp only [home, slotSpan, Span.ofSize, segmentSize]
    omega

/-- Two slots of a pool that lie in the same segment do not overlap there. -/
theorem home_apart {p : SlotPool} (positive : 0 < p.slotSize) {slot other : Nat}
    (owned : slot ∈ p.slots) (owned' : other ∈ p.slots) (distinct : slot ≠ other)
    (shared : (p.home slot).1 = (p.home other).1) : (p.home slot).2.Apart (p.home other).2 := by
  rw [mem_slots] at owned owned'
  simp only [home] at shared ⊢
  generalize hi : slot - p.firstSlot = i at *
  generalize hj : other - p.firstSlot = j at *
  have hquot : i / p.slotsPerSegment = j / p.slotsPerSegment := by omega
  have hne : i % p.slotsPerSegment ≠ j % p.slotsPerSegment := by
    intro heq
    have hi' := Nat.div_add_mod i p.slotsPerSegment
    have hj' := Nat.div_add_mod j p.slotsPerSegment
    rw [hquot, heq] at hi'
    omega
  simp only [Span.Apart, slotSpan, Span.ofSize]
  rcases Nat.lt_or_gt_of_ne hne with hlt | hlt
  · have := Nat.mul_le_mul_right p.slotSize (Nat.succ_le_of_lt hlt)
    rw [Nat.succ_mul] at this
    omega
  · have := Nat.mul_le_mul_right p.slotSize (Nat.succ_le_of_lt hlt)
    rw [Nat.succ_mul] at this
    omega

structure Account (pools : List SlotPool) (t : SlotTable) (sizes : List Nat) : Prop where
  chained : Chained 0 0 pools
  sizes : ∀ p ∈ pools, ∀ segment, p.ownsSegment segment = true →
    sizes[segment]? = some p.segmentSize
  entries : ∀ p ∈ pools, ∀ slot ∈ p.slots, ∃ e, t.find? slot = some e ∧ e.place = p.home slot
  owners : ∀ slot e, t.find? slot = some e → ∃ p ∈ pools, slot ∈ p.slots
  distinct : ∀ p ∈ pools, p.free.toList.Nodup
  queued : ∀ p ∈ pools, ∀ slot, slot ∈ p.free.toList ↔ slot ∈ p.slots ∧ t.issued? slot = none

/-- What a request finds: the first free slot of some pool whose slots are large enough. The pools
passed over have slots that are too small, or none left. -/
theorem reserve_cases {fallThrough : Bool} {n slot : Nat} {pools pools' : List SlotPool}
    (placed : reserve fallThrough n pools = some (slot, pools')) :
    ∃ lower p higher rest, pools = lower ++ p :: higher ∧
      (∀ q ∈ lower, q.slotSize < n ∨ (fallThrough = true ∧ q.free.toList = [])) ∧
      n ≤ p.slotSize ∧ p.free.toList = slot :: rest.toList ∧
      pools' = lower ++ { p with free := rest } :: higher := by
  induction pools generalizing pools' with
  | nil => cases placed
  | cons p higher ih =>
    unfold reserve at placed
    split at placed
    · next slot' rest popped =>
      cases placed
      by_cases small : p.slotSize < n
      · rw [if_pos small] at popped
        cases popped
      · rw [if_neg small] at popped
        exact ⟨[], p, higher, rest, rfl, nofun, by omega, Queue.toList_of_pop? popped, rfl⟩
    · next empty =>
      split at placed
      · next onward =>
        obtain ⟨found, hfound, heq⟩ := Option.map_eq_some_iff.1 placed
        cases heq
        obtain ⟨lower, q, higher', rest, rfl, hpassed, large, queue, hpools⟩ := ih hfound
        refine ⟨p :: lower, q, higher', rest, rfl, fun x hx => ?_, large, queue,
          by rw [hpools]; rfl⟩
        rcases List.mem_cons.1 hx with rfl | hx
        · by_cases small : x.slotSize < n
          · exact Or.inl small
          · rw [if_neg small] at empty
            exact Or.inr ⟨by simpa [small] using onward, Queue.pop?_eq_none_iff.1 empty⟩
        · exact hpassed x hx
      · cases placed

theorem release_eq_some {lower higher : List SlotPool} {p : SlotPool} {segment : Nat}
    (foreign : ∀ q ∈ lower, q.ownsSegment segment = false) (owned : p.ownsSegment segment = true)
    (slot : Nat) : release segment slot (lower ++ p :: higher) =
      some (lower ++ { p with free := p.free.push slot } :: higher) := by
  induction lower with
  | nil => simp [release, owned]
  | cons q rest ih =>
    have hq := foreign q (by simp)
    have hrest := ih fun other member => foreign other (by simp [member])
    simp [release, hq, hrest]

namespace Account

variable {pools lower higher : List SlotPool} {p : SlotPool} {t : SlotTable} {sizes : List Nat}

/-- A slot of one pool is in no other place of the list of pools. -/
theorem not_mem_slots (h : Account (lower ++ p :: higher) t sizes) {q : SlotPool}
    (member : q ∈ lower ++ higher) {slot : Nat} (owned : slot ∈ p.slots) : slot ∉ q.slots := by
  intro hq
  rw [mem_slots] at owned hq
  have hpairs := List.pairwise_append.1 h.chained.pairwise
  rcases List.mem_append.1 member with hlower | hhigher
  · have := hpairs.2.2 q hlower p (by simp)
    omega
  · have := (List.pairwise_cons.1 hpairs.2.1).1 q hhigher
    omega

/-- The queue of one pool changes along with entries of slots of that pool. -/
theorem requeue (h : Account (lower ++ p :: higher) t sizes) {t' : SlotTable} {free : Queue Nat}
    (places : ∀ x, (t'.find? x).map Entry.place = (t.find? x).map Entry.place)
    (others : ∀ x, x ∉ p.slots → t'.issued? x = t.issued? x) (nodup : free.toList.Nodup)
    (queued : ∀ x, x ∈ free.toList ↔ x ∈ p.slots ∧ t'.issued? x = none) :
    Account (lower ++ { p with free } :: higher) t' sizes := by
  -- all pools but one are as before, and that one differs in its queue only
  have split : ∀ {Q : SlotPool → Prop}, Q { p with free } → (∀ q ∈ lower ++ higher, Q q) →
      ∀ q ∈ lower ++ { p with free } :: higher, Q q := by
    intro Q here others q member
    rcases List.mem_append.1 member with hlower | hrest
    · exact others q (List.mem_append_left _ hlower)
    · rcases List.mem_cons.1 hrest with rfl | hhigher
      · exact here
      · exact others q (List.mem_append_right _ hhigher)
  have hp : p ∈ lower ++ p :: higher := by simp
  have hsub : ∀ q ∈ lower ++ higher, q ∈ lower ++ p :: higher := by
    intro q member
    simp only [List.mem_append, List.mem_cons] at member ⊢
    tauto
  have hentries : ∀ q ∈ lower ++ p :: higher, ∀ slot ∈ q.slots,
      ∃ e, t'.find? slot = some e ∧ e.place = q.home slot := by
    intro q member slot owned
    obtain ⟨e, found, place⟩ := h.entries q member slot owned
    have := places slot
    rw [found, Option.map_some, Option.map_eq_some_iff] at this
    obtain ⟨e', found', place'⟩ := this
    exact ⟨e', found', place'.trans place⟩
  refine ⟨h.chained.requeue free, split (h.sizes p hp) fun q hq => h.sizes q (hsub q hq),
    split (hentries p hp) fun q hq => hentries q (hsub q hq), ?_,
    split nodup fun q hq => h.distinct q (hsub q hq), split queued fun q hq slot => ?_⟩
  · intro slot e found
    have := places slot
    rw [found, Option.map_some, eq_comm, Option.map_eq_some_iff] at this
    obtain ⟨e', found', -⟩ := this
    obtain ⟨q, hq, owned⟩ := h.owners slot e' found'
    by_cases here : q ∈ lower ++ higher
    · refine ⟨q, ?_, owned⟩
      simp only [List.mem_append, List.mem_cons] at here ⊢
      tauto
    · have hq : q = p := by
        simp only [List.mem_append, List.mem_cons] at hq here
        tauto
      exact ⟨{ p with free }, by simp, hq ▸ owned⟩
  · rw [h.queued q (hsub q hq)]
    refine and_congr_right fun owned => ?_
    rw [others slot fun owned' => h.not_mem_slots hq owned' owned]

theorem place_eq (h : Account pools t sizes) (member : p ∈ pools) {slot : Nat} {e : Entry}
    (owned : slot ∈ p.slots) (found : t.find? slot = some e) : e.place = p.home slot := by
  obtain ⟨e', found', place⟩ := h.entries p member slot owned
  rw [found] at found'
  cases found'
  exact place

/-- What is at a slot of a pool lies in a segment of that pool and is as large as its slots. -/
theorem inside (h : Account pools t sizes) (member : p ∈ pools) {slot : Nat} {e : Entry}
    (owned : slot ∈ p.slots) (found : t.find? slot = some e) :
    p.ownsSegment e.segment = true ∧ e.span.start ≤ e.span.last ∧
      e.span.last < p.segmentSize ∧ e.span.size = p.slotSize := by
  obtain ⟨-, -, positive, room⟩ := h.chained.mem member
  have hinside := home_inside positive room owned
  rw [← h.place_eq member owned found] at hinside
  exact hinside

theorem bounds (h : Account pools t sizes) {slot : Nat} {e : Entry}
    (found : t.find? slot = some e) : e.span.start ≤ e.span.last ∧
      ∃ size, sizes[e.segment]? = some size ∧ e.span.last < size := by
  obtain ⟨p, member, owned⟩ := h.owners slot e found
  obtain ⟨hsegment, hordered, hlast, -⟩ := h.inside member owned found
  exact ⟨hordered, p.segmentSize, h.sizes p member e.segment hsegment, hlast⟩

theorem apart (h : Account pools t sizes) {slot other : Nat} {e e' : Entry}
    (found : t.find? slot = some e) (found' : t.find? other = some e') (distinct : slot ≠ other)
    (shared : e.segment = e'.segment) : e.span.Apart e'.span := by
  obtain ⟨p, member, owned⟩ := h.owners slot e found
  obtain ⟨q, member', owned'⟩ := h.owners other e' found'
  obtain ⟨-, -, hsize, hroom⟩ := h.chained.mem member
  obtain ⟨-, -, hsize', hroom'⟩ := h.chained.mem member'
  have hplace := h.place_eq member owned found
  have hplace' := h.place_eq member' owned' found'
  have hshared : (p.home slot).1 = (q.home other).1 := by
    rw [← hplace, ← hplace']
    exact shared
  have hsegment := ownsSegment_iff.1 (home_inside hsize hroom owned).1
  have hsegment' := ownsSegment_iff.1 (home_inside hsize' hroom' owned').1
  have hsame : p = q := by
    by_contra hne
    let R (a b : SlotPool) : Prop := a.firstSegment + a.segmentCount ≤ b.firstSegment ∨
      b.firstSegment + b.segmentCount ≤ a.firstSegment
    have symmetric : Std.Symm R := ⟨fun _ _ => Or.symm⟩
    have hpairs : pools.Pairwise R := h.chained.pairwise.imp fun hlt => Or.inl hlt.1
    have := hpairs.forall member member' hne
    omega
  subst hsame
  have := home_apart hsize owned owned' distinct hshared
  rw [← hplace, ← hplace'] at this
  exact this

/-- A new lease for what is issued changes nothing here. -/
theorem modify (h : Account pools t sizes) {slot : Nat} {e : Entry} {f : Entry → Entry}
    (issued : t.issued? slot = some e) (still : (f e).free = false)
    (place : (f e).place = e.place) : Account pools (t.modify slot f) sizes := by
  obtain ⟨found, -⟩ := SlotTable.issued?_eq_some_iff.1 issued
  obtain ⟨p, member, owned⟩ := h.owners slot e found
  obtain ⟨lower, higher, rfl⟩ := List.append_of_mem member
  refine h.requeue (SlotTable.place_modify found place) (fun x hx => ?_) (h.distinct p member)
    fun x => ?_
  · rw [SlotTable.issued?_modify found, if_neg (ne_of_mem_of_not_mem owned hx).symm]
  · rw [h.queued p member, SlotTable.issued?_modify found]
    split
    · next here => simp [here, issued, still]
    · rfl

/-- The slot that is answered leaves its queue; once it is issued, the account is right again. -/
theorem reserve (h : Account pools t sizes) {fallThrough : Bool} {n slot : Nat}
    {pools' : List SlotPool} (placed : SlotPool.reserve fallThrough n pools = some (slot, pools')) :
    ∃ e, t.find? slot = some e ∧ e.free = true ∧ n ≤ e.span.size ∧
      ∀ f : Entry → Entry, (f e).free = false → (f e).place = e.place →
        Account pools' (t.modify slot f) sizes := by
  obtain ⟨lower, p, higher, rest, rfl, -, large, queue, rfl⟩ := reserve_cases placed
  have member : p ∈ lower ++ p :: higher := by simp
  obtain ⟨owned, idle⟩ := (h.queued p member slot).1 (by rw [queue]; simp)
  obtain ⟨e, found, -⟩ := h.entries p member slot owned
  have hspan := (h.inside member owned found).2.2.2
  have hnodup := h.distinct p member
  rw [queue, List.nodup_cons] at hnodup
  refine ⟨e, found, SlotTable.issued?_eq_none_iff.1 idle e found, by omega,
    fun f issued place => ?_⟩
  refine h.requeue (SlotTable.place_modify found place) (fun x hx => ?_) hnodup.2 fun x => ?_
  · rw [SlotTable.issued?_modify found, if_neg (ne_of_mem_of_not_mem owned hx).symm]
  · have hqueued := h.queued p member x
    rw [queue, List.mem_cons] at hqueued
    rw [SlotTable.issued?_modify found]
    split
    · next here => simp [here, issued, hnodup.1]
    · next here => rw [← hqueued]; simp [here]

/-- A slot that is released goes back to the queue it came from. -/
theorem release (h : Account pools t sizes) {slot : Nat} {e : Entry}
    (issued : t.issued? slot = some e) :
    ∃ pools', SlotPool.release e.segment slot pools = some pools' ∧
      Account pools' (t.modify slot fun _ => e.invalidate) sizes := by
  obtain ⟨found, -⟩ := SlotTable.issued?_eq_some_iff.1 issued
  obtain ⟨p, member, owned⟩ := h.owners slot e found
  obtain ⟨lower, higher, rfl⟩ := List.append_of_mem member
  have hsegment := (h.inside member owned found).1
  refine ⟨_, release_eq_some (fun q hq => h.chained.foreign hq hsegment) hsegment slot, ?_⟩
  have hqueued := h.queued p member
  have hnodup := h.distinct p member
  have hbusy : slot ∉ p.free.toList := by
    rw [hqueued, issued]
    simp
  refine h.requeue (SlotTable.place_modify found rfl) (fun x hx => ?_) ?_ fun x => ?_
  · rw [SlotTable.issued?_release issued, if_neg (ne_of_mem_of_not_mem owned hx).symm]
  · rw [Queue.toList_push]
    exact List.nodup_append.2 ⟨hnodup, by simp, by grind⟩
  · rw [Queue.toList_push, List.mem_append, hqueued, SlotTable.issued?_release issued,
      List.mem_singleton]
    split
    · next here => simp [here, owned]
    · next here => simp [here]

/-- Refilled queues are right for a table in which nothing is issued. -/
theorem reset (h : Account pools t sizes) :
    Account (pools.map .refill) t.invalidateAll sizes := by
  refine ⟨h.chained.refill, ?_, ?_, fun slot e found => ?_, ?_, ?_⟩
  · intro q hq
    obtain ⟨p, hp, rfl⟩ := List.mem_map.1 hq
    exact h.sizes p hp
  · intro q hq slot owned
    obtain ⟨p, hp, rfl⟩ := List.mem_map.1 hq
    obtain ⟨e, found, place⟩ := h.entries p hp slot owned
    exact ⟨e.invalidate, by rw [SlotTable.find?_invalidateAll, found]; rfl, place⟩
  · rw [SlotTable.find?_invalidateAll] at found
    obtain ⟨e', found', -⟩ := Option.map_eq_some_iff.1 found
    obtain ⟨p, hp, owned⟩ := h.owners slot e' found'
    exact ⟨p.refill, List.mem_map_of_mem hp, owned⟩
  · intro q hq
    obtain ⟨p, hp, rfl⟩ := List.mem_map.1 hq
    rw [SlotPool.refill, Queue.toList_ofList]
    exact List.nodup_range'
  · intro q hq slot
    obtain ⟨p, hp, rfl⟩ := List.mem_map.1 hq
    rw [SlotTable.issued?_invalidateAll, SlotPool.refill, Queue.toList_ofList]
    exact (and_iff_left rfl).symm

end Account

theorem chained_layOut {count budget firstSegment firstSlot : Nat} {slotSizes : List Nat}
    {pools : List SlotPool}
    (made : layOut count budget firstSegment firstSlot slotSizes = .ok pools) :
    Chained firstSegment firstSlot pools := by
  induction slotSizes generalizing firstSegment firstSlot pools with
  | nil =>
    cases made
    exact trivial
  | cons n larger ih =>
    obtain ⟨room, -, others, hothers, rfl⟩ := layOut_cons_eq_ok_iff.1 made
    exact ⟨rfl, rfl, (Nat.div_pos_iff.1 room).1, room, ih hothers⟩

theorem chained_make {size count : Nat} {slotSizes : List Nat} {pools : List SlotPool}
    (made : make size slotSizes count = .ok pools) :
    Chained 0 0 pools ∧ ∀ p ∈ pools, p.free = .ofList p.slots ∧
      1 ≤ p.segmentSize ∧ p.segmentSize ≤ Segment.maxSize := by
  obtain ⟨-, laid⟩ := make_eq_ok_iff.1 made
  refine ⟨chained_layOut laid, fun p hp => ?_⟩
  obtain ⟨-, -, full, -, admissible⟩ := (layOut_pools laid).2 p hp
  exact ⟨full, admissible⟩

/-- Pools that have just been made account for the table that is built from their extents. -/
theorem account_make {size count : Nat} {slotSizes : List Nat} {pools : List SlotPool}
    (made : make size slotSizes count = .ok pools) (id : Nat) :
    Account pools
      ⟨id, ((pools.flatMap (·.extents)).map fun (segment, span) => .vacant segment span).toArray, []⟩
      ((pools.flatMap (·.segments)).map (·.size)) := by
  obtain ⟨chained, fresh⟩ := chained_make made
  refine ⟨chained, fun p hp segment owned => ?_, fun p hp slot owned => ?_,
    fun slot e found => ?_, fun p hp => ?_, fun p hp slot => ?_⟩
  · rw [List.getElem?_map]
    have := chained.getElem?_segments hp owned
    rw [Nat.sub_zero] at this
    rw [this]
    rfl
  · have := chained.getElem?_extents hp owned
    rw [Nat.sub_zero] at this
    refine ⟨.vacant (p.home slot).1 (p.home slot).2, ?_, rfl⟩
    simp [SlotTable.find?, this]
  · have inside : slot < (pools.flatMap (·.extents)).length := by
      have := SlotTable.exists_find?_iff.1 ⟨e, found⟩
      simpa [SlotTable.slotCount] using this
    exact chained.exists_owner (Nat.zero_le _) (by omega)
  · rw [(fresh p hp).1, Queue.toList_ofList]
    exact List.nodup_range'
  · rw [(fresh p hp).1, Queue.toList_ofList]
    refine (and_iff_left ?_).symm
    rw [SlotTable.issued?_eq_none_iff]
    intro e found
    simp only [SlotTable.find?, List.getElem?_toArray, List.getElem?_map] at found
    obtain ⟨place, -, rfl⟩ := Option.map_eq_some_iff.1 found
    rfl

/-- The segments of new pools have admissible sizes. -/
theorem admissible_make {size count : Nat} {slotSizes : List Nat} {pools : List SlotPool}
    (made : make size slotSizes count = .ok pools) :
    ∀ n ∈ (pools.flatMap (·.segments)).map (·.size), 1 ≤ n ∧ n ≤ Segment.maxSize := by
  obtain ⟨-, fresh⟩ := chained_make made
  intro n hn
  obtain ⟨s, hs, rfl⟩ := List.mem_map.1 hn
  obtain ⟨p, hp, hs⟩ := List.mem_flatMap.1 hs
  rw [segments] at hs
  rw [List.eq_of_mem_replicate hs]
  exact (fresh p hp).2

end RegionStore.SlotPool
