import RegionStore.Segment

/-!
The bytes of a region's segments, read range by range. Writing one range shows there and leaves
every range that does not overlap it alone.
-/
namespace RegionStore.Segment

theorem make_eq_ok_iff {size : Nat} {s : Segment} :
    make size = .ok s ↔ (1 ≤ size ∧ size ≤ maxSize) ∧ s = zeroed size := by
  unfold make
  split
  · next zero => simp [zero]
  · split
    · next large =>
      refine iff_of_false nofun fun h => ?_
      omega
    · next small =>
      rw [Except.ok.injEq, eq_comm]
      refine (and_iff_right ?_).symm
      omega

/-- Lengths inside of a segment are 32-bit words. -/
theorem mod_eq_self {n : Nat} (h : n ≤ maxSize) : n % UInt32.size = n := by
  apply Nat.mod_eq_of_lt
  simp only [maxSize, UInt32.size] at h ⊢
  omega

/-- The `n` bytes of a segment from `start` on; none of a segment that does not exist. -/
def readAt (segments : Array Segment) (i start n : Nat) : List UInt8 :=
  ((segments[i]?).map (·.read start n)).getD []

theorem readAt_of_getElem? {segments : Array Segment} {i : Nat} {s : Segment}
    (found : segments[i]? = some s) (start n : Nat) :
    readAt segments i start n = s.read start n := by
  simp [readAt, found]

variable {segments : Array Segment} {i start : Nat} {s : Segment}

theorem readAt_put (found : segments[i]? = some s) (start : Nat) (bytes : List UInt8) :
    readAt (segments.modify i fun _ => s.put start bytes) i start bytes.length = bytes := by
  have hput : (segments.modify i fun _ => s.put start bytes)[i]? = some (s.put start bytes) := by
    rw [Array.getElem?_modify, if_pos rfl, found, Option.map_some]
  rw [readAt_of_getElem? hput, read_put]

theorem readAt_put_of_apart (found : segments[i]? = some s) {bytes : List UInt8} {j other n : Nat}
    (apart : i = j → other + n ≤ start ∨ start + bytes.length ≤ other) :
    readAt (segments.modify i fun _ => s.put start bytes) j other n =
      readAt segments j other n := by
  by_cases here : i = j
  · subst here
    have hput : (segments.modify i fun _ => s.put start bytes)[i]? = some (s.put start bytes) := by
      rw [Array.getElem?_modify, if_pos rfl, found, Option.map_some]
    rw [readAt_of_getElem? hput, readAt_of_getElem? found, read_put_of_disjoint (apart rfl)]
  · rw [readAt, readAt, Array.getElem?_modify, if_neg here]

/-- Writing changes no size. -/
theorem sizes_put (found : segments[i]? = some s) (bytes : List UInt8) :
    (segments.modify i fun _ => s.put start bytes).toList.map (·.size) =
      segments.toList.map (·.size) := by
  apply List.ext_getElem?
  intro j
  simp only [List.getElem?_map, Array.getElem?_toList, Array.getElem?_modify]
  split
  · next here => simp [← here, found]
  · rfl

end RegionStore.Segment
