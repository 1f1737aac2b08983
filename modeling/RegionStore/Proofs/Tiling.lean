import Mathlib.Data.List.Basic
import RegionStore.Placement.FirstFit
import RegionStore.Proofs.Table

/-!
The account that first fit keeps. Its list of slots names ranges that tile the region, and the
slots that are not on the list wait on the stack. Requests cut ranges of the tiling into pieces;
nothing but a reset ever joins them.
-/
namespace RegionStore.FirstFit

/-- Ranges of the slots on a list, in the order of the list. -/
def spans (t : SlotTable) (order : List Nat) : List Span :=
  order.filterMap fun slot => (t.find? slot).map (·.span)

theorem spans_append (t : SlotTable) (lower higher : List Nat) :
    spans t (lower ++ higher) = spans t lower ++ spans t higher := List.filterMap_append ..

theorem spans_cons {t : SlotTable} {slot : Nat} {e : Entry} (found : t.find? slot = some e)
    (rest : List Nat) : spans t (slot :: rest) = e.span :: spans t rest := by
  simp [spans, found]

/-- Only the ranges of entries matter. -/
theorem spans_congr {t t' : SlotTable} {order : List Nat}
    (same : ∀ slot ∈ order, (t'.find? slot).map (·.span) = (t.find? slot).map (·.span)) :
    spans t' order = spans t order := List.filterMap_congr same

structure Account (order : List Nat) (t : SlotTable) (size : Nat) : Prop where
  slots : (order ++ t.vacant).Perm (List.range t.slotCount)
  tiles : Span.Tiles 0 (spans t order) size
  vacant : t.VacantFree
  segment : t.Unsegmented

namespace Account

variable {order : List Nat} {t : SlotTable} {size : Nat}

theorem nodup (h : Account order t size) : (order ++ t.vacant).Nodup :=
  h.slots.nodup_iff.2 List.nodup_range

theorem exists_find? (h : Account order t size) {slot : Nat} (member : slot ∈ order) :
    ∃ e, t.find? slot = some e := by
  apply SlotTable.exists_find?_iff.2
  exact List.mem_range.1 (h.slots.mem_iff.1 (List.mem_append_left _ member))

theorem length_spans (h : Account order t size) : (spans t order).length = order.length := by
  have hall : ∀ slot ∈ order, ((t.find? slot).map (·.span)).isSome := by
    intro slot member
    obtain ⟨e, found⟩ := h.exists_find? member
    simp [found]
  clear h
  induction order with
  | nil => rfl
  | cons slot rest ih =>
    obtain ⟨s, hs⟩ := Option.isSome_iff_exists.1 (hall slot (by simp))
    have hrest := ih fun other member => hall other (by simp [member])
    simp only [spans] at hrest ⊢
    rw [List.filterMap_cons, hs, List.length_cons, List.length_cons, hrest]

/-- What is issued is on the list: slots on the stack are free. -/
theorem mem_of_issued? (h : Account order t size) {slot : Nat} {e : Entry}
    (issued : t.issued? slot = some e) : slot ∈ order := by
  have inside := List.mem_range.2 (SlotTable.lt_slotCount_of_issued? issued)
  rcases List.mem_append.1 (h.slots.mem_iff.2 inside) with member | waiting
  · exact member
  · obtain ⟨e', found, free⟩ := h.vacant slot waiting
    rw [SlotTable.issued?_of_free found free] at issued
    cases issued

theorem mem_spans {slot : Nat} {e : Entry} (member : slot ∈ order)
    (found : t.find? slot = some e) : e.span ∈ spans t order :=
  List.mem_filterMap.2 ⟨slot, member, by simp [found]⟩

theorem bounds (h : Account order t size) {slot : Nat} {e : Entry} (member : slot ∈ order)
    (found : t.find? slot = some e) : e.span.start ≤ e.span.last ∧ e.span.last < size := by
  have := h.tiles.bounds (mem_spans member found)
  omega

theorem apart (h : Account order t size) {slot other : Nat} {e e' : Entry}
    (member : slot ∈ order) (member' : other ∈ order) (found : t.find? slot = some e)
    (found' : t.find? other = some e') (distinct : slot ≠ other) : e.span.Apart e'.span := by
  let R (a b : Nat) : Prop := ∀ x y, (t.find? a).map (·.span) = some x →
    (t.find? b).map (·.span) = some y → x.Apart y
  have symmetric : Std.Symm R := ⟨fun a b hab x y hx hy => symm (hab y x hy hx)⟩
  have pairs : order.Pairwise R := (List.pairwise_filterMap.1 h.tiles.pairwise).imp
    fun hab x y hx hy => Or.inl (hab x hx y hy)
  exact pairs.forall member member' distinct e.span e'.span (by simp [found]) (by simp [found'])

/-- Bytes issued never exceed the region. -/
theorem issuedBytes_le (h : Account order t size) : t.issuedBytes ≤ size := by
  have idle : t.vacant.filterMap t.range? = [] := by
    apply List.filterMap_eq_nil_iff.2
    intro slot waiting
    obtain ⟨e, found, free⟩ := h.vacant slot waiting
    simp [SlotTable.range?, SlotTable.issued?_of_free found free]
  have issued : ∀ list : List Nat, (list.filterMap t.range?).Sublist (spans t list) := by
    intro list
    induction list with
    | nil => exact List.Sublist.slnil
    | cons slot rest ih =>
      simp only [spans, List.filterMap_cons, SlotTable.range?] at ih ⊢
      cases found : t.find? slot with
      | none => simpa [SlotTable.issued?, found] using ih
      | some e =>
        cases hfree : e.free with
        | true =>
          rw [SlotTable.issued?_of_free found hfree]
          exact List.Sublist.cons _ ih
        | false =>
          rw [SlotTable.issued?_eq_some_iff.2 ⟨found, hfree⟩]
          exact List.Sublist.cons_cons _ ih
  have perm := h.slots.filterMap t.range?
  rw [SlotTable.issuedBytes_eq_total t (Nat.le_refl _), ← Span.total_perm perm,
    List.filterMap_append, idle, List.append_nil]
  have htotal := h.tiles.add_total
  have hle := Span.total_le_of_sublist (issued order)
  omega

theorem not_mem_vacant (h : Account order t size) {slot : Nat} (member : slot ∈ order) :
    slot ∉ t.vacant :=
  fun waiting => (List.nodup_append.1 h.nodup).2.2 slot member slot waiting rfl

theorem vacant_nodup (h : Account order t size) : t.vacant.Nodup :=
  (List.nodup_append.1 h.nodup).2.1

/-- Slots on the list may be issued, released or given a new lease: their ranges stay. -/
theorem modify (h : Account order t size) {slot : Nat} {e : Entry} {f : Entry → Entry}
    (member : slot ∈ order) (found : t.find? slot = some e) (place : (f e).place = e.place) :
    Account order (t.modify slot f) size := by
  refine ⟨?_, ?_, h.vacant.modify f (h.not_mem_vacant member),
    h.segment.modify found (congrArg Prod.fst place)⟩
  · rw [SlotTable.vacant_modify, SlotTable.slotCount_modify]
    exact h.slots
  · rw [spans_congr (t := t) fun x _ => ?_]
    · exact h.tiles
    · have := congrArg (Option.map Prod.snd) (SlotTable.place_modify found place x)
      rw [Option.map_map, Option.map_map] at this
      exact this

/-- What a request finds: the first range on the list that fits. It is issued whole, or its front
goes to another slot that comes before it on the list. -/
theorem reserve_cases (h : Account order t size) {n slot : Nat} {order' : List Nat}
    {t' : SlotTable} (placed : reserve order t n = some (slot, order', t')) :
    ∃ lower whole higher e, order = lower ++ whole :: higher ∧
      (∀ x ∈ lower, fits t n x = false) ∧ t.find? whole = some e ∧ e.free = true ∧
      ((e.span.size = n ∧ slot = whole ∧ order' = order ∧ t' = t) ∨
        (n < e.span.size ∧ slot = (t.insert 0 (.ofSize e.span.start n)).1 ∧
          order' = lower ++ slot :: whole :: higher ∧
          t' = (t.insert 0 (.ofSize e.span.start n)).2.modify whole
            (·.move 0 ⟨e.span.start + n, e.span.last⟩))) := by
  unfold reserve at placed
  split at placed
  · cases placed
  · next whole first =>
    obtain ⟨fit, lower, higher, rfl, earlier⟩ := List.find?_eq_some_iff_append.1 first
    obtain ⟨e, found, free, large⟩ := fits_iff.1 fit
    have absent : whole ∉ lower := by
      intro member
      have := List.nodup_append.1 (List.nodup_append.1 h.nodup).1
      exact this.2.2 whole member whole (by simp) rfl
    refine ⟨lower, whole, higher, e, rfl, by simpa using earlier, found, free, ?_⟩
    simp only [found] at placed
    split at placed
    · next exact_fit =>
      cases placed
      exact Or.inl ⟨exact_fit, rfl, rfl, rfl⟩
    · next larger =>
      rw [insertBefore_append absent] at placed
      cases placed
      exact Or.inr ⟨by omega, rfl, rfl, rfl⟩

theorem insert_fresh (h : Account order t size) (segment : Nat) (span : Span) :
    (t.insert segment span).1 ∉ order := by
  intro member
  rcases t.insert_source segment span with ⟨stack, -⟩ | ⟨-, -, past, -⟩
  · exact h.not_mem_vacant member (by rw [stack]; simp)
  · have := SlotTable.exists_find?_iff.1 (h.exists_find? member)
    omega

theorem insert_slots (h : Account order t size) (segment : Nat) (span : Span) :
    ((t.insert segment span).1 :: order ++ (t.insert segment span).2.vacant).Perm
      (List.range (t.insert segment span).2.slotCount) := by
  have hslots := h.slots
  rcases t.insert_source segment span with ⟨stack, count⟩ | ⟨stack, none, past, count⟩
  · rw [count]
    rw [stack] at hslots
    exact (List.perm_middle.symm).trans hslots
  · rw [count, none, past, List.range_succ, List.append_nil]
    rw [stack, List.append_nil] at hslots
    exact (hslots.cons _).trans (List.perm_append_singleton _ _).symm

/-- The table after the front of the range of `whole` went to another slot. -/
def cutFront (t : SlotTable) (whole : Nat) (e : Entry) (n : Nat) : SlotTable :=
  (t.insert 0 (.ofSize e.span.start n)).2.modify whole
    (·.move 0 ⟨e.span.start + n, e.span.last⟩)

/-- No slot is on the list twice. -/
theorem not_mem_sides (h : Account order t size) {lower higher : List Nat} {whole : Nat}
    (listed : order = lower ++ whole :: higher) : whole ∉ lower ∧ whole ∉ higher := by
  have hnodup := (List.nodup_append.1 h.nodup).1
  rw [listed] at hnodup
  have := List.nodup_cons.1 (List.perm_middle.nodup_iff.1 hnodup)
  simpa using this.1

/-- The front has an entry of its own, the range is left with the rest, and all other entries on
the list stay. -/
theorem find?_cutFront (h : Account order t size) {whole n : Nat} {e : Entry}
    (member : whole ∈ order) (found : t.find? whole = some e) :
    (∃ front, (cutFront t whole e n).find? (t.insert 0 (.ofSize e.span.start n)).1 = some front ∧
      front.free = true ∧ front.span = .ofSize e.span.start n) ∧
    (cutFront t whole e n).find? whole = some (e.move 0 ⟨e.span.start + n, e.span.last⟩) ∧
    ∀ x ∈ order, x ≠ whole → (cutFront t whole e n).find? x = t.find? x := by
  have hfresh := h.insert_fresh 0 (.ofSize e.span.start n)
  obtain ⟨-, front, hfront, hfree, -, hspan⟩ :=
    SlotTable.insert_readied h.vacant 0 (.ofSize e.span.start n)
  have hne : whole ≠ (t.insert 0 (.ofSize e.span.start n)).1 := fun heq => hfresh (heq ▸ member)
  refine ⟨⟨front, ?_, hfree, hspan⟩, ?_, fun x hx hx' => ?_⟩
  · rw [cutFront, SlotTable.find?_modify, if_neg hne, hfront]
  · rw [cutFront, SlotTable.find?_modify, if_pos rfl, SlotTable.find?_insert_of_ne hne, found,
      Option.map_some]
  · rw [cutFront, SlotTable.find?_modify, if_neg hx'.symm,
      SlotTable.find?_insert_of_ne fun heq => hfresh (heq ▸ hx)]

/-- The two pieces stand on the list where the range stood. -/
theorem spans_cutFront (h : Account order t size) {lower higher : List Nat} {whole n : Nat}
    {e : Entry} (listed : order = lower ++ whole :: higher) (found : t.find? whole = some e) :
    spans (cutFront t whole e n)
        (lower ++ (t.insert 0 (.ofSize e.span.start n)).1 :: whole :: higher) =
      spans t lower ++ .ofSize e.span.start n :: ⟨e.span.start + n, e.span.last⟩ ::
        spans t higher := by
  obtain ⟨hlower, hhigher⟩ := h.not_mem_sides listed
  obtain ⟨⟨front, hfront, -, hspan⟩, hrest, hothers⟩ :=
    h.find?_cutFront (n := n) (by rw [listed]; simp) found
  have hkeep : ∀ list : List Nat, (∀ x ∈ list, x ∈ order) → whole ∉ list →
      spans (cutFront t whole e n) list = spans t list := fun list sub apart =>
    spans_congr fun x hx => by rw [hothers x (sub x hx) fun heq => apart (heq ▸ hx)]
  rw [spans_append, spans_cons hfront, spans_cons hrest, hspan,
    hkeep lower (fun x hx => by simp [listed, hx]) hlower,
    hkeep higher (fun x hx => by simp [listed, hx]) hhigher]
  rfl

/-- The front of a range on the list goes to another slot, in front of it. -/
theorem split (h : Account order t size) {lower higher : List Nat} {whole n : Nat} {e : Entry}
    (listed : order = lower ++ whole :: higher) (found : t.find? whole = some e)
    (positive : 1 ≤ n) (larger : n < e.span.size) :
    Account (lower ++ (t.insert 0 (.ofSize e.span.start n)).1 :: whole :: higher)
        (cutFront t whole e n) size ∧
      Span.Cut (spans t order) (spans (cutFront t whole e n)
        (lower ++ (t.insert 0 (.ofSize e.span.start n)).1 :: whole :: higher)) := by
  have hslots := h.insert_slots 0 (.ofSize e.span.start n)
  have hnew := h.spans_cutFront (n := n) listed found
  have hmember : whole ∈ order := by rw [listed]; simp
  have hwhole : (t.insert 0 (.ofSize e.span.start n)).2.find? whole = some e := by
    rw [SlotTable.find?_insert_of_ne fun heq => h.insert_fresh 0 _ (heq ▸ hmember), found]
  have hold : spans t order = spans t lower ++ e.span :: spans t higher := by
    rw [listed, spans_append, spans_cons found]
  have htiles := h.tiles
  rw [hold] at htiles
  obtain ⟨middle, hbelow, hstart, hordered, habove⟩ := Span.tiles_append.1 htiles
  have hsize := Span.start_add_size hordered
  have hpieces : Span.Tiles e.span.start
      [.ofSize e.span.start n, ⟨e.span.start + n, e.span.last⟩] (e.span.last + 1) := by
    refine ⟨rfl, ?_, ?_, ?_, rfl⟩ <;> dsimp only [Span.ofSize] <;> omega
  constructor
  · refine ⟨?_, ?_, ?_, ?_⟩
    · rw [cutFront, SlotTable.vacant_modify, SlotTable.slotCount_modify]
      rw [listed] at hslots
      exact (List.perm_middle.append_right _).trans hslots
    · rw [hnew]
      obtain ⟨-, hfirst, hsecond, hsecond', -⟩ := hpieces
      exact Span.tiles_append.2 ⟨middle, hbelow, hstart, hfirst, hsecond, hsecond', habove⟩
    · apply (SlotTable.vacantFree_insert h.vacant h.vacant_nodup 0 _).modify
      exact fun waiting => h.not_mem_vacant hmember
        (SlotTable.mem_vacant_insert h.vacant_nodup waiting).1
    · apply (SlotTable.unsegmented_insert h.segment h.vacant _).modify hwhole
      exact (h.segment whole e found).symm
  · rw [hold, hnew]
    have hbelow' := Span.Cut.refl fun s hs => (hbelow.bounds (s := s) hs).2.1
    have habove' := Span.Cut.refl fun s hs => (habove.bounds (s := s) hs).2.1
    exact hbelow'.append (Span.Cut.cons hpieces habove')

/-- A request that finds room readies an entry for exactly the bytes it asks for. -/
theorem reserve (h : Account order t size) {n slot : Nat} {order' : List Nat} {t' : SlotTable}
    (positive : 1 ≤ n) (placed : reserve order t n = some (slot, order', t')) :
    SlotTable.Readied t t' slot ∧ slot ∈ order' ∧ Account order' t' size ∧
      Span.Cut (spans t order) (spans t' order') ∧
      ∃ e, t'.find? slot = some e ∧ e.free = true ∧ e.span.size = n := by
  obtain ⟨lower, whole, higher, e, listed, -, found, free, hcase⟩ := h.reserve_cases placed
  rcases hcase with ⟨hsize, rfl, rfl, rfl⟩ | ⟨larger, hslot, hlist, hmoved⟩
  · have ordered : ∀ s ∈ spans t' order', s.start ≤ s.last := fun s hs => (h.tiles.bounds hs).2.1
    exact ⟨.refl found free, by simp [listed], h, .refl ordered, e, found, free, hsize⟩
  · have hne : whole ≠ slot := by
      intro heq
      exact h.insert_fresh 0 (.ofSize e.span.start n) (by rw [← hslot, ← heq, listed]; simp)
    obtain ⟨account, cut⟩ := h.split listed found positive larger
    obtain ⟨ready, front, hfront, hfree, -, hspan⟩ :=
      SlotTable.insert_readied h.vacant 0 (.ofSize e.span.start n)
    rw [← hslot] at account cut ready hfront
    have hwhole : (t.insert 0 (.ofSize e.span.start n)).2.find? whole = some e := by
      rw [SlotTable.find?_insert_of_ne (by rw [← hslot]; exact hne), found]
    subst hlist hmoved
    refine ⟨ready.move hne hwhole free _ _, by simp, account, cut, front, ?_, hfree, ?_⟩
    · rw [SlotTable.find?_modify, if_neg hne, hfront]
    · rw [hspan, Span.size_ofSize positive]

end Account

/-- There is room for whatever fits in a free range on the list. -/
theorem exists_reserve {order : List Nat} {t : SlotTable} {n slot : Nat} {e : Entry}
    (member : slot ∈ order) (found : t.find? slot = some e) (free : e.free = true)
    (small : n ≤ e.span.size) : ∃ placed, reserve order t n = some placed := by
  apply Option.ne_none_iff_exists'.1
  intro hnone
  have := reserve_eq_none_iff.1 hnone slot member
  rw [fits_iff.2 ⟨e, found, free, small⟩] at this
  cases this

/-- With every slot on the stack, starting over lists one range that covers the region. -/
theorem account_start {t : SlotTable} {size : Nat} (stack : t.vacant = List.range t.slotCount)
    (free : t.VacantFree) (segment : t.Unsegmented) (positive : 1 ≤ size) :
    Account (start t size).1 (start t size).2 size := by
  have hnodup : t.vacant.Nodup := stack ▸ List.nodup_range
  obtain ⟨-, e, found, -, -, hspan⟩ := SlotTable.insert_readied free 0 (.ofSize 0 size)
  change Account [(t.insert 0 (.ofSize 0 size)).1] (t.insert 0 (.ofSize 0 size)).2 size
  refine ⟨?_, ?_, SlotTable.vacantFree_insert free hnodup 0 _,
    SlotTable.unsegmented_insert segment free _⟩
  · rcases t.insert_source 0 (.ofSize 0 size) with ⟨hstack, hcount⟩ | ⟨hstack, hnone, hpast, hcount⟩
    · rw [hcount, ← stack, List.singleton_append, ← hstack]
    · have hzero : t.slotCount = 0 := by
        rw [hstack] at stack
        simpa using congrArg List.length stack.symm
      rw [hcount, hnone, hpast, hzero]
      exact List.Perm.refl _
  · rw [spans_cons found, hspan]
    refine ⟨rfl, Nat.zero_le _, ?_⟩
    change 0 + size - 1 + 1 = size
    omega

end RegionStore.FirstFit
