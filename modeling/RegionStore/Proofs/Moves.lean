import RegionStore.Proofs.Attempts

/-!
Moving a payload that has outgrown its range. The new copy is placed while the old one is still
there, so a move is done as a whole or leaves everything that is stored as it was.
-/
namespace RegionStore.Store

variable {s s' : Store} {k k' : Handle} {e : Entry} {old bytes : List UInt8} {now : Int}

/-! ### What stays in a store without room -/

theorem Sound.outOfRoom (h : s.Sound) : s.Same s.outOfRoom := by
  obtain ⟨keeps, held⟩ := h.passOver s.offers.1 s.offers.2
  exact ⟨⟨keeps.sound, keeps.length⟩, held⟩

theorem live_outOfRoom (s : Store) : s.outOfRoom.live = s.live := by
  have hmap := s.map_passOver (f := (·.live)) (fun _ _ => rfl) s.offers.1 s.offers.2
  rw [live, live, List.flatMap_def, List.flatMap_def, ← hmap]
  rfl

theorem used_outOfRoom (s : Store) : s.outOfRoom.used = s.used :=
  s.foldr_passOver (f := (·.used)) (fun _ _ => rfl) s.offers.1 s.offers.2

/-! ### One copy after the other -/

/-- A handle that is good can be released, for as many bytes as its range has. -/
theorem Sound.release_of_held (h : s.Sound) (held : s.held k = some (e, old)) :
    ∃ s', s.release k = (.ok e.span.size, s') ∧ s.Keeps s' ∧
      s'.held = Function.update s.held k none ∧ s'.issuedBytes + e.span.size = s.issuedBytes := by
  rcases h.resolve k with ⟨r, e', found, sound, -, checked, held'⟩ | ⟨held', -⟩ | ⟨held', -⟩
  · rw [held] at held'
    cases held'
    obtain ⟨r', released⟩ := sound.release checked
    have hset := h.setRegion found released.keeps
    have hbytes := issuedBytes_setRegion found r'
    have hreleased := released.bytes
    refine ⟨{ s.setRegion k.region r' with
      tally := { s.tally with frees := s.tally.frees + 1 } }, ?_, ⟨hset.sound, hset.length⟩,
      held_setRegion_update found released.held, ?_⟩
    · simp only [Store.release, onRegion_of_getElem? found, released.answer, if_pos e.span.size_pos]
      rfl
    · change (s.setRegion k.region r').issuedBytes + e.span.size = s.issuedBytes
      omega
  · rw [held] at held'
    cases held'
  · rw [held] at held'
    cases held'

/-- A payload is held anew under another handle, and no longer under its old one. -/
structure Moved (s : Store) (now : Int) (k : Handle) (e : Entry) (bytes : List UInt8) (k' : Handle)
    (s' : Store) : Prop where
  keeps : s.Keeps s'
  fresh : s.held k' = none
  held : ∃ e', s'.held = Function.update (Function.update s.held k none) k' (some (e', bytes)) ∧
    e'.lease = .issued bytes.length e.lease.tag (remainingExpiry e.lease now) now ∧
    s'.issuedBytes + e.span.size = s.issuedBytes + e'.span.size

/-- While a new payload is placed, an old one stays where it is and can be released after that. -/
theorem Landed.release_old {q : Request} (landed : Landed s now q k' s')
    (held : s.held k = some (e, old)) :
    k ≠ k' ∧ ∃ s'', s'.release k = (.ok e.span.size, s'') ∧ s'.Keeps s'' ∧
      s''.held = Function.update s'.held k none ∧
      s''.issuedBytes + e.span.size = s'.issuedBytes := by
  have hdistinct : k ≠ k' := by
    rintro rfl
    have := landed.fresh
    rw [held] at this
    cases this
  obtain ⟨e', bytes', held', -⟩ := landed.held
  have hold : s'.held k = some (e, old) := by
    rw [held', Function.update_of_ne hdistinct, held]
  exact ⟨hdistinct, landed.keeps.sound.release_of_held hold⟩

/-- The request that a move makes. -/
def moveRequest (now : Int) (e : Entry) (bytes : List UInt8) : Request :=
  ⟨.payload bytes, remainingExpiry e.lease now, e.lease.tag⟩

/-- Every move of what a good handle names is refused with nothing changed, or finds no room, or is
done. -/
theorem Regular.move_cases (h : s.Regular) (held : s.held k = some (e, old)) (now : Int)
    (bytes : List UInt8) :
    (∃ refusal, (moveRequest now e bytes).refusal? s.maxRequest = some refusal ∧
        s.move now k bytes = (.error refusal, s)) ∨
      s.move now k bytes = (s.noRoom (moveRequest now e bytes), s.outOfRoom) ∨
      ∃ k' s', s.move now k bytes = (.ok (some k'), s') ∧ Moved s now k e bytes k' s' := by
  have hinfo := h.sound.info_of_held held
  have hput : s.put now bytes (remainingExpiry (e.snapshot k.region k.slot).lease now)
      (e.snapshot k.region k.slot).lease.tag = s.submit now (moveRequest now e bytes) := rfl
  simp only [Store.move, hinfo, hput]
  rcases h.submit_cases now (moveRequest now e bytes) with ⟨refusal, hrefusal, hsubmit⟩ |
    hsubmit | ⟨k', s₁, hsubmit, landed⟩
  · exact Or.inl ⟨refusal, hrefusal, by rw [hsubmit]⟩
  · refine Or.inr (Or.inl ?_)
    rw [hsubmit]
    unfold noRoom
    cases s.onExhaustion <;> rfl
  · obtain ⟨e', bytes', held₁, shows, lease, hbytes₁⟩ := landed.held
    obtain rfl : bytes' = bytes := shows
    obtain ⟨hdistinct, s', hrelease, keeps, held', hbytes'⟩ := landed.release_old held
    refine Or.inr (Or.inr ⟨k', s', ?_, landed.keeps.trans keeps, landed.fresh, e', ?_, lease, ?_⟩)
    · simp only [hsubmit, hrelease]
    · rw [held', held₁, Function.update_comm hdistinct.symm]
    · omega

/-! ### Deadlines -/

/-- Nothing is found changed under any handle, and there is no handle more. -/
structure Untouched (s : Store) (now : Int) (s' : Store) : Prop where
  found : ∀ j, s'.info j = s.info j ∧ (s'.get now j).1 = (s.get now j).1
  live : s'.live = s.live
  used : s'.used = s.used

theorem Untouched.refl (s : Store) (now : Int) : Untouched s now s :=
  ⟨fun _ => ⟨rfl, rfl⟩, rfl, rfl⟩

theorem Sound.untouched_outOfRoom (h : s.Sound) (now : Int) : Untouched s now s.outOfRoom := by
  obtain ⟨keeps, held⟩ := h.outOfRoom
  refine ⟨fun j => ?_, live_outOfRoom s, used_outOfRoom s⟩
  have same := congrFun held j
  exact ⟨h.info_congr keeps same, h.get_congr keeps same now⟩

end RegionStore.Store
