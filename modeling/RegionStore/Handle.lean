/-!
Handles name stored payloads: a region, a slot of its table, and the generation the slot had
when the handle was issued.
-/
namespace RegionStore

structure Handle where
  region : Nat
  slot : Nat
  generation : UInt32
  deriving DecidableEq, Repr

end RegionStore
