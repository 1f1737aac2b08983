import RegionStore.Proofs.Runs

/-!
Handles are never issued twice, and one that has gone stale stays so. A slot moves on by a
generation whenever its handle goes stale, so an old handle could only come back to life if a slot
went through all generations there are.
-/
namespace RegionStore.Region

/-- How many generations a slot moves on by along a run. -/
def advances (r : Region) (slot : Nat) : List (Int × Op) → Nat
  | [] => 0
  | (now, op) :: rest =>
    ((r.step now op).generationAt slot - r.generationAt slot).toNat +
      (r.step now op).advances slot rest

/-- Nothing can be done through the handle. -/
structure Stale (r : Region) (k : Handle) : Prop where
  get : ∀ now, r.get now k = (.error .staleHandle, r)
  view : ∀ {α : Type} (now : Int) (f : List UInt8 → α), r.view now k f = (.error .staleHandle, r)
  edit : ∀ {α : Type} (f : List UInt8 → List UInt8 × α), r.edit k f = (.error .staleHandle, r)
  info : r.info k = .error .staleHandle
  update : ∀ now bytes, bytes ≠ [] → r.update now k bytes = (.error .staleHandle, r)
  release : r.release k = (.ok 0, r)

variable {r : Region} {k : Handle}

theorem stale_of_not_live (own : k.region = r.id) (dead : ¬ r.Live k) : r.Stale k := by
  have hchecked : r.table.checked k = .error .staleHandle := by
    cases checked : r.table.checked k with
    | ok e => exact absurd ⟨e, checked⟩ dead
    | error refusal =>
      rcases SlotTable.checked_eq_error_iff.1 checked with ⟨foreign, -⟩ | ⟨-, rfl, -⟩
      · exact absurd own foreign
      · rfl
  refine ⟨fun now => view_of_error hchecked now _, fun now f => view_of_error hchecked now f,
    fun f => edit_of_error hchecked f, ?_, fun now bytes nonempty => ?_, ?_⟩
  · rw [Region.info, hchecked]
    rfl
  · rw [update_of_error hchecked, if_neg]
    simpa using nonempty
  · rw [release_of_error hchecked, if_pos own]

theorem generationAt_run (r : Region) (slot : Nat) (ops : List (Int × Op)) :
    (r.run ops).generationAt slot = r.generationAt slot + .ofNat (r.advances slot ops) := by
  induction ops generalizing r with
  | nil => simp [run, advances]
  | cons head rest ih =>
    obtain ⟨now, op⟩ := head
    rw [run, ih, advances, UInt32.ofNat_add, UInt32.ofNat_toNat, ← UInt32.add_assoc,
      UInt32.add_comm (r.generationAt slot), UInt32.sub_add_cancel]

/-- A good handle stays good for as long as its slot does not move on. -/
theorem Live.run (h : r.Live k) (sound : r.Sound) (ops : List (Int × Op)) :
    (r.run ops).Live k ∨ 1 ≤ r.advances k.slot ops := by
  induction ops generalizing r with
  | nil => exact Or.inl h
  | cons head rest ih =>
    obtain ⟨now, op⟩ := head
    have turn := sound.turn now op
    rw [Region.run, advances]
    rcases turn.kept k h with good | moved
    · exact (ih good turn.keeps.sound).imp_right fun _ => by omega
    · right
      have hne : (r.step now op).generationAt k.slot - r.generationAt k.slot ≠ 0 := by
        intro same
        have := UInt32.sub_add_cancel ((r.step now op).generationAt k.slot) (r.generationAt k.slot)
        rw [same, UInt32.zero_add] at this
        exact moved this.symm
      have := UInt32.toNat_inj.not.2 hne
      rw [UInt32.toNat_zero] at this
      omega

/-- A handle whose slot has moved on, but not through all generations, is no good. -/
theorem not_live_of_behind {d : Nat} (behind : r.generationAt k.slot = k.generation + .ofNat d)
    (positive : 1 ≤ d) (few : d < UInt32.size) : ¬ r.Live k := by
  intro good
  rw [good.generation] at behind
  have hzero : UInt32.ofNat d = 0 := by
    have := congrArg (· - k.generation) behind
    simp only [UInt32.sub_self, UInt32.add_comm k.generation, UInt32.add_sub_cancel] at this
    exact this.symm
  have := congrArg UInt32.toNat hzero
  rw [UInt32.toNat_ofNat_of_lt' few, UInt32.toNat_zero] at this
  omega

theorem not_issued_of_behind {ops : List (Int × Op)} {d : Nat} (sound : r.Sound)
    (behind : r.generationAt k.slot = k.generation + .ofNat d) (positive : 1 ≤ d)
    (few : d + r.advances k.slot ops < UInt32.size) : k ∉ r.handles ops := by
  induction ops generalizing r d with
  | nil => exact List.not_mem_nil
  | cons head rest ih =>
    obtain ⟨now, op⟩ := head
    have turn := sound.turn now op
    have hbehind := generationAt_run r k.slot [(now, op)]
    rw [behind, UInt32.add_assoc, ← UInt32.ofNat_add] at hbehind
    simp only [Region.run, advances, Nat.add_zero] at hbehind few
    rw [handles, List.mem_append, Option.mem_toList]
    rintro (issued | later)
    · exact not_live_of_behind hbehind (by omega) (by omega) (turn.issued k issued).1
    · exact ih turn.keeps.sound hbehind (by omega) (by omega) later

/-- A good handle is not issued again. -/
theorem Live.not_issued {ops : List (Int × Op)} (h : r.Live k) (sound : r.Sound)
    (few : r.advances k.slot ops < UInt32.size) : k ∉ r.handles ops := by
  induction ops generalizing r with
  | nil => exact List.not_mem_nil
  | cons head rest ih =>
    obtain ⟨now, op⟩ := head
    have turn := sound.turn now op
    rw [handles, List.mem_append, Option.mem_toList]
    rintro (issued | later)
    · exact (turn.issued k issued).2 h
    · rcases turn.kept k h with good | moved
      · rw [advances] at few
        exact ih good turn.keeps.sound (by omega) later
      · have hmoved := Live.run h sound [(now, op)]
        have hbehind := generationAt_run r k.slot [(now, op)]
        rw [h.generation] at hbehind
        simp only [Region.run, advances, Nat.add_zero] at hbehind hmoved few
        have hpositive := hmoved.resolve_left fun good =>
          moved (good.generation.trans h.generation.symm)
        exact not_issued_of_behind turn.keeps.sound hbehind hpositive (by omega) later

end RegionStore.Region
