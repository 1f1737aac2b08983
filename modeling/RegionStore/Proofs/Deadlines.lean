import RegionStore.Proofs.Refusals

/-!
Updates and the clock. Tag and expiry go over to the new payload, but an update by first fit issues
its range anew, so that a lifetime is counted from the update on.
-/
namespace RegionStore

/-- Leases with the same expiry expire together if their lifetimes end together. -/
theorem Lease.isExpired_congr_iff {l l' : Lease} (normal : l.expiry.normalized = l.expiry)
    (expiry : l'.expiry = l.expiry) : (∀ t, l'.isExpired t = l.isExpired t) ↔
      (0 < l.expiry.lifetime →
        Millis.add l'.createdAt l.expiry.lifetime = Millis.add l.createdAt l.expiry.lifetime) := by
  have hdeadline (t : Int) : l'.deadlineOver t = l.deadlineOver t := by
    rw [deadlineOver, deadlineOver, expiry]
  constructor
  · intro same limited
    have hnone (t : Int) : l.deadlineOver t = false := by
      have hzero : l.expiry.deadline = 0 := by rw [← normal, Expiry.normalized, if_pos limited]
      rw [deadlineOver, hzero]
      rfl
    have hover (t : Int) : Millis.add l'.createdAt l.expiry.lifetime ≤ t ↔
        Millis.add l.createdAt l.expiry.lifetime ≤ t := by
      have := same t
      rw [isExpired, isExpired, hdeadline, hnone, Bool.or_false, Bool.or_false, lifetimeOver,
        lifetimeOver, expiry, decide_eq_decide] at this
      simpa only [limited, true_and] using this
    exact Int.le_antisymm ((hover _).2 (Int.le_refl _)) ((hover _).1 (Int.le_refl _))
  · intro same t
    have hlifetime : l'.lifetimeOver t = l.lifetimeOver t := by
      rw [lifetimeOver, lifetimeOver, expiry, decide_eq_decide]
      exact and_congr_right fun limited => by rw [same limited]
    rw [isExpired, isExpired, hlifetime, hdeadline]

namespace Store

variable {s s' : Store} {k : Handle} {r : Region} {e : Entry} {old bytes : List UInt8} {now : Int}

/-- A payload that fits always replaces the one there is, in place or, by first fit, in a range that
is issued anew. -/
theorem Sound.update_of_fits (h : s.Sound) (found : s.regions[k.region]? = some r)
    (held : s.held k = some (e, old)) (positive : 1 ≤ bytes.length)
    (fits : bytes.length ≤ e.span.size) (now : Int) :
    ∃ k' s' e', s.update now k bytes = (.ok k', s') ∧ s.Keeps s' ∧
      s'.held k' = some (e', bytes) ∧
      ((r.placement.strategy ≠ .firstFit ∧ k' = k ∧ e' = e.resize bytes.length) ∨
        (r.placement.strategy = .firstFit ∧
          e'.lease = .issued bytes.length e.lease.tag e.lease.expiry now)) := by
  obtain ⟨sound, own⟩ := h k.region r found
  have hupdate := onRegion_of_getElem? found (·.update now k bytes)
  have hbound := (List.getElem?_eq_some_iff.1 found).1
  rw [held_of_getElem? found] at held
  have checked := (Region.held_eq_some_iff.1 held).1
  rcases sound.update checked positive fits now with ⟨r', done, overwritten⟩ |
    ⟨first, r₁, k', r', released, done, placed⟩
  · rw [done] at hupdate
    refine ⟨k, _, _, hupdate, h.setRegion found overwritten.keeps, ?_,
      Or.inl ⟨overwritten.inPlace, rfl, rfl⟩⟩
    rw [held_setRegion found, if_pos rfl, overwritten.held, Function.update_self]
  · rw [done] at hupdate
    obtain ⟨e', bytes', held', rfl, lease, -⟩ := placed.held
    have hhere : k'.region = k.region := placed.own.trans (released.keeps.id.trans own)
    refine ⟨k', _, e', hupdate, h.setRegion found (released.keeps.trans placed.keeps), ?_,
      Or.inr ⟨first, lease⟩⟩
    rw [held_setRegion found, if_pos hhere, held', Function.update_self]

/-- An update with a payload that fits keeps tag and expiry. At every time it is over just when it
would have been without the update, unless a range issued anew by first fit has a lifetime that
ends elsewhere when it is counted from the update on. -/
theorem update_deadline (h : s.Reachable) (found : s.regions[k.region]? = some r) {x : Snapshot}
    (good : s.info k = .ok x) (positive : 1 ≤ bytes.length) (fits : bytes.length ≤ x.span.size)
    (now : Int) :
    ∃ k' s' y, s.update now k bytes = (.ok k', s') ∧
      s.updateOrMove now k bytes = (.ok (some k'), s') ∧ s'.info k' = .ok y ∧
      y.lease.tag = x.lease.tag ∧ y.lease.expiry = x.lease.expiry ∧
      ((∀ t, y.lease.isExpired t = x.lease.isExpired t) ↔
        (r.placement.strategy = .firstFit → 0 < x.lease.expiry.lifetime →
          Millis.add now x.lease.expiry.lifetime =
            Millis.add x.lease.createdAt x.lease.expiry.lifetime)) := by
  have regular := h.regular
  obtain ⟨e, old, held, rfl⟩ := regular.sound.held_of_info good
  have normal := regular.normal held
  obtain ⟨k', s', e', hupdate, keeps, held', hcase⟩ :=
    regular.sound.update_of_fits found held positive fits now
  have hmove : s.updateOrMove now k bytes = (.ok (some k'), s') := by
    rw [updateOrMove, hupdate]
  refine ⟨k', s', _, hupdate, hmove, keeps.sound.info_of_held held', ?_⟩
  simp only [Entry.snapshot]
  rcases hcase with ⟨inPlace, -, rfl⟩ | ⟨first, lease⟩
  · exact ⟨rfl, rfl, iff_of_true (fun _ => rfl) fun first => absurd first inPlace⟩
  · have hexpiry : e'.lease.expiry = e.lease.expiry := by
      rw [lease]
      exact normal
    refine ⟨by rw [lease]; rfl, hexpiry, ?_⟩
    rw [Lease.isExpired_congr_iff normal hexpiry, lease]
    exact ⟨fun same _ => same, fun same => same first⟩

/-- In place, by largest fit: the update comes after half of the lifetime, and the payload is over
when it would have been. -/
theorem update_deadline_inPlace : ∃ (s s' : Store) (x y : Snapshot), s.Reachable ∧
    s.info ⟨0, 0, 0⟩ = .ok x ∧ s.update 1050 ⟨0, 0, 0⟩ [9] = (.ok ⟨0, 0, 0⟩, s') ∧
    s'.info ⟨0, 0, 0⟩ = .ok y ∧ x.lease.isExpired 1100 = true ∧
    ∀ t, y.lease.isExpired t = x.lease.isExpired t := by
  let settings : Settings := ⟨⟨1, 8, .largestFit, [], 1, false⟩, .default, .default, .default⟩
  have reachable := (Reachable.build (rfl : build settings = .ok _) (by decide)).perform 1000
    (.put [1, 2] (.inMillis 100) 7 : Op Unit)
  generalize hs : Prod.snd _ = s at reachable
  obtain ⟨r, x, found, strategy, good, fits, lapsed⟩ : ∃ r x, s.regions[0]? = some r ∧
      r.placement.strategy = .largestFit ∧ s.info ⟨0, 0, 0⟩ = .ok x ∧ 1 ≤ x.span.size ∧
      x.lease.isExpired 1100 = true := by
    subst hs
    exact ⟨_, _, rfl, rfl, rfl, by decide, by decide⟩
  have hanswer : (s.update 1050 ⟨0, 0, 0⟩ [9]).1 = .ok ⟨0, 0, 0⟩ := by
    subst hs
    decide
  have hlength : 1 ≤ ([9] : List UInt8).length := by decide
  obtain ⟨k', s', y, hupdate, -, found', -, -, hexpired⟩ :=
    update_deadline reachable found good hlength fits 1050
  rw [hupdate] at hanswer
  cases hanswer
  refine ⟨s, s', x, y, reachable, good, hupdate, found', lapsed, hexpired.2 fun first => ?_⟩
  rw [strategy] at first
  cases first

/-- By first fit, the same update lets the payload outlive the time at which it would have been
over. -/
theorem update_outlives_deadline : ∃ (s s' : Store) (x y : Snapshot), s.Reachable ∧
    s.info ⟨0, 1, 0⟩ = .ok x ∧
    s.updateOrMove 1050 ⟨0, 1, 0⟩ [9, 9] = (.ok (some ⟨0, 1, 1⟩), s') ∧
    s'.info ⟨0, 1, 1⟩ = .ok y ∧ x.lease.isExpired 1100 = true ∧
    y.lease.isExpired 1100 = false := by
  let settings : Settings := ⟨⟨1, 8, .firstFit, [], 1, false⟩, .default, .default, .default⟩
  have reachable := (Reachable.build (rfl : build settings = .ok _) (by decide)).perform 1000
    (.put [1, 2] (.inMillis 100) 7 : Op Unit)
  refine ⟨_, _, _, _, reachable, rfl, rfl, rfl, by decide, by decide⟩

end Store

end RegionStore
