import RegionStore.Store

/-!
The periodic sweep: what has expired first, then what is used least. A round that frees nothing
is the last one that can change anything while the clock stands still.
-/
namespace RegionStore.Store

/-- One round, with the number of bytes it freed. A sweep that is refused counts as none. -/
def sweepRound (s : Store) (now : Int) : Nat × Store :=
  let (expired, s) := s.collectExpired now
  let (leastUsed, s) := s.collectLeastUsed now
  (expired.toOption.getD 0 + leastUsed.toOption.getD 0, s)

/-- At most `rounds` rounds, ended by the first one that frees nothing. -/
def sweepRounds (now : Int) : Nat → Store → Store
  | 0, s => s
  | rounds + 1, s =>
    let (freed, s) := s.sweepRound now
    if freed = 0 then s else sweepRounds now rounds s

/-- A round that frees nothing is the last. -/
theorem sweepRounds_of_idle {now : Int} {s : Store} (idle : (s.sweepRound now).1 = 0)
    (rounds : Nat) : sweepRounds now (rounds + 1) s = (s.sweepRound now).2 := by
  simp [sweepRounds, idle]

/-- Sweeps until a round frees nothing. Every other round releases at least one handle. -/
def sweep (s : Store) (now : Int) : Store := sweepRounds now (s.live.length + 1) s

end RegionStore.Store
