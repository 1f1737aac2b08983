import RegionStore.Proofs.Runs

/-!
The ranges of a region that places by first fit. After any history the ranges on its list tile the
region; any operation but a clear keeps each of them or cuts it into pieces.
-/
namespace RegionStore.Region

structure Tiled (size : Nat) (order : List Nat) (r : Region) : Prop where
  tiles : Span.Tiles 0 (FirstFit.spans r.table order) size
  listed : (FirstFit.spans r.table order).length = order.length
  slots : (order ++ r.table.vacant).Perm (List.range r.table.slotCount)
  live : ∀ s ∈ r.live, s.handle.slot ∈ order ∧ s.lease.len = s.span.size
  used : r.used = Span.total (r.live.map (·.span))
  few : order.length ≤ size

variable {r r' : Region} {k : Handle} {order : List Nat} {size : Nat}

theorem Sound.tiled (h : r.Sound) (strategy : r.placement.strategy = .firstFit)
    (sizes : r.sizes = [size]) : ∃ order, r.placement = .firstFit order ∧ Tiled size order r := by
  obtain ⟨order, placement, account⟩ := h.exists_firstFit strategy sizes
  refine ⟨order, placement, account.tiles, account.length_spans, account.slots, fun s hs => ?_,
    h.used_of_sizes sizes account.issuedBytes_le, ?_⟩
  · obtain ⟨slot, e, issued, rfl⟩ := SlotTable.mem_live_iff.1 hs
    exact ⟨account.mem_of_issued? issued, h.filled strategy slot e issued⟩
  · have := account.tiles.length_le
    rw [account.length_spans] at this
    omega

/-- The list of ranges is the same and so is each of them. -/
structure SameRanges (r r' : Region) : Prop where
  placement : r'.placement = r.placement
  place : ∀ x, (r'.table.find? x).map Entry.place = (r.table.find? x).map Entry.place

theorem SameRanges.refl (r : Region) : SameRanges r r := ⟨rfl, fun _ => rfl⟩

theorem SameRanges.trans {r'' : Region} (h : SameRanges r r') (h' : SameRanges r' r'') :
    SameRanges r r'' :=
  ⟨h'.placement.trans h.placement, fun x => (h'.place x).trans (h.place x)⟩

theorem SameRanges.spans (h : SameRanges r r') (order : List Nat) :
    FirstFit.spans r'.table order = FirstFit.spans r.table order := by
  apply FirstFit.spans_congr
  intro x _
  have := congrArg (Option.map Prod.snd) (h.place x)
  rw [Option.map_map, Option.map_map] at this
  exact this

theorem sameRanges_view (now : Int) (k : Handle) (f : List UInt8 → α) :
    SameRanges r (r.view now k f).2 := by
  unfold view
  split
  · exact .refl r
  · next e segment located =>
    split
    · exact .refl r
    · refine ⟨rfl, fun x => ?_⟩
      rw [SlotTable.find?_modify]
      split
      · rw [Option.map_map]
        rfl
      · rfl

theorem sameRanges_edit (k : Handle) (f : List UInt8 → List UInt8 × α) :
    SameRanges r (r.edit k f).2 := by
  unfold edit
  split
  · exact .refl r
  · split
    · exact .refl r
    · exact ⟨rfl, fun _ => rfl⟩

theorem sameRanges_release (placement : r.placement = .firstFit order) (k : Handle) :
    SameRanges r (r.release k).2 := by
  cases checked : r.table.checked k with
  | error refusal =>
    rw [release_of_error checked]
    exact .refl r
  | ok e =>
    rw [release_firstFit placement checked]
    have found := (SlotTable.checked_eq_ok_iff.1 checked).2.1
    exact ⟨rfl, SlotTable.place_modify (f := fun _ => e.invalidate) found rfl⟩

theorem sameRanges_releaseAll (placement : r.placement = .firstFit order) (ks : List Handle) :
    SameRanges r (r.releaseAll ks).2 := by
  induction ks generalizing r with
  | nil => exact .refl r
  | cons k rest ih =>
    have hfirst := sameRanges_release placement k
    have hrest := ih (hfirst.placement.trans placement)
    unfold releaseAll
    split
    · next refusal r₁ hrelease =>
      rw [hrelease] at hfirst
      exact hfirst
    · next freed r₁ hrelease =>
      rw [hrelease] at hfirst hrest
      split
      · next refusal r₂ hothers =>
        rw [hothers] at hrest
        exact hfirst.trans hrest
      · next others r₂ hothers =>
        rw [hothers] at hrest
        exact hfirst.trans hrest

theorem sameRanges_collectLeastUsed (placement : r.placement = .firstFit order) (batch : Nat)
    (now : Int) : SameRanges r (r.collectLeastUsed batch now).2 := by
  unfold collectLeastUsed
  split
  · exact .refl r
  · dsimp only
    split
    · exact .refl r
    · have hreleased := sameRanges_releaseAll placement
        ((leastUsed r.live now (evictionCount r.live.length batch)).map (·.handle))
      split
      · next refusal r₁ hrelease =>
        rw [hrelease] at hreleased
        exact hreleased
      · next freed r₁ hrelease =>
        rw [hrelease] at hreleased
        dsimp only
        split
        · exact ⟨hreleased.placement, hreleased.place⟩
        · exact hreleased

/-- The list of ranges has been refined: its ranges are those of the old list or pieces of them. -/
def CutFrom (r : Region) (order : List Nat) (r' : Region) : Prop :=
  ∃ order', r'.placement = .firstFit order' ∧
    Span.Cut (FirstFit.spans r.table order) (FirstFit.spans r'.table order')

theorem SameRanges.cutFrom (h : SameRanges r r') (sound : r.Sound)
    (placement : r.placement = .firstFit order) : CutFrom r order r' := by
  refine ⟨order, h.placement.trans placement, ?_⟩
  have haccount := sound.account
  rw [placement] at haccount
  obtain ⟨size, -, account⟩ := haccount
  rw [h.spans]
  exact .refl fun s hs => (account.tiles.bounds hs).2.1

theorem Placed.cutFrom {now : Int} {q : Request} (h : Placed r now q k r') (sound : r.Sound)
    (placement : r.placement = .firstFit order) : CutFrom r order r' := by
  have haccount := sound.account
  rw [placement] at haccount
  obtain ⟨size, -, account⟩ := haccount
  have answer := h.answer
  simp only [place, placement, Placement.reserve] at answer
  cases room : FirstFit.reserve order r.table q.size with
  | none =>
    rw [room] at answer
    cases answer
  | some found =>
    obtain ⟨slot, order', t'⟩ := found
    obtain ⟨-, -, -, cut, e, found, -⟩ := account.reserve h.positive room
    simp only [room, Option.map_some, found] at answer
    split at answer
    · cases answer
    · cases answer
      have hkept : FirstFit.spans (t'.modify slot (·.issue q.size q.tag q.expiry now)) order' =
          FirstFit.spans t' order' := by
        apply FirstFit.spans_congr
        intro x _
        rw [SlotTable.find?_modify]
        split
        · rw [Option.map_map]
          rfl
        · rfl
      refine ⟨order', rfl, ?_⟩
      rw [← hkept] at cut
      exact cut

/-- Every operation but a clear refines the list of ranges. -/
theorem Sound.cutFrom_step (h : r.Sound) (placement : r.placement = .firstFit order) (now : Int)
    {op : Op} (kept : op ≠ .clear) : CutFrom r order (r.step now op) := by
  have same : ∀ {r'}, SameRanges r r' → CutFrom r order r' := fun hr => hr.cutFrom h placement
  cases op with
  | submit q =>
    rcases h.submit now q with ⟨refusal, -, hsubmit⟩ | ⟨-, -, hsubmit⟩ | ⟨k, r', hsubmit, placed⟩
    · rw [step, hsubmit]
      exact same (.refl r)
    · rw [step, hsubmit]
      exact same ⟨rfl, fun _ => rfl⟩
    · rw [step, hsubmit]
      exact placed.cutFrom h placement
  | view k f => exact same (sameRanges_view now k f)
  | edit k patch => exact same (sameRanges_edit k patch.run)
  | update k bytes =>
    rcases h.update_cases now k bytes with ⟨refusal, hupdate⟩ |
      ⟨e, checked, ⟨r', hupdate, overwritten⟩ | ⟨-, r₁, k', r', released, hupdate, placed⟩⟩
    · rw [step, hupdate]
      exact same (.refl r)
    · exact absurd (by rw [placement]; rfl) overwritten.inPlace
    · have hsame := sameRanges_release placement k
      rw [released.answer] at hsame
      rw [step, hupdate]
      obtain ⟨order', hplacement, cut⟩ :=
        placed.cutFrom released.keeps.sound (hsame.placement.trans placement)
      rw [hsame.spans] at cut
      exact ⟨order', hplacement, cut⟩
  | release k => exact same (sameRanges_release placement k)
  | collectExpired batch => exact same (sameRanges_releaseAll placement _)
  | collectLeastUsed batch => exact same (sameRanges_collectLeastUsed placement batch now)
  | setThreshold threshold => exact same ⟨rfl, fun _ => rfl⟩
  | clear => exact absurd rfl kept

/-- After any run the ranges on the list tile the region, every slot is on the list or waits to be
used again, and what is live fills its range. From there, any operation but a clear only cuts
ranges into pieces. -/
theorem ranges_only_cut {id : Nat} (made : Region.firstFit id size = .ok r)
    (ops : List (Int × Op)) :
    ∃ order, (r.run ops).placement = .firstFit order ∧ Tiled size order (r.run ops) ∧
      ∀ now op, op ≠ .clear → ∃ order', ((r.run ops).step now op).placement = .firstFit order' ∧
        Span.Cut (FirstFit.spans (r.run ops).table order)
          (FirstFit.spans ((r.run ops).step now op).table order') ∧
        order.length ≤ order'.length := by
  obtain ⟨sound, strategy, -, sizes, -⟩ := sound_firstFit made
  have keeps := sound.run ops
  have reached := keeps.sound
  obtain ⟨order, placement, tiled⟩ :=
    reached.tiled (keeps.strategy.trans strategy) (keeps.sizes.trans sizes)
  refine ⟨order, placement, tiled, fun now op kept => ?_⟩
  obtain ⟨order', placement', cut⟩ := reached.cutFrom_step placement now kept
  refine ⟨order', placement', cut, ?_⟩
  have keeps' := (reached.turn now op).keeps
  obtain ⟨order'', placement'', tiled'⟩ := keeps'.sound.tiled
    (keeps'.strategy.trans (keeps.strategy.trans strategy))
    (keeps'.sizes.trans (keeps.sizes.trans sizes))
  obtain rfl : order'' = order' := by
    rw [placement'] at placement''
    cases placement''
    rfl
  have hlength := cut.length_le fun s hs => (tiled.tiles.bounds hs).2.1
  rw [tiled.listed, tiled'.listed] at hlength
  exact hlength

/-- The front of a range that has been released goes to a new slot, the rest keeps the old one. -/
theorem ranges_only_cut_front : ∃ r ops order, Region.firstFit 0 8 = .ok r ∧
    (r.run ops).placement = .firstFit order ∧ Tiled 8 order (r.run ops) ∧ order = [2, 1, 0] := by
  let ops : List (Int × Op) := [(0, .submit ⟨.payload [1, 2, 3, 4], .never, 0⟩),
    (1, .release ⟨0, 1, 0⟩), (2, .submit ⟨.payload [5], .never, 0⟩)]
  obtain ⟨order, placement, tiled, -⟩ :=
    ranges_only_cut (rfl : Region.firstFit 0 8 = .ok _) ops
  refine ⟨_, ops, order, rfl, placement, tiled, ?_⟩
  cases placement
  rfl

end RegionStore.Region
