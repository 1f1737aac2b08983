import RegionStore.Settings

/-!
Building a store from settings.
-/
namespace RegionStore

namespace MemorySettings

/-- The region with a number, as the settings lay it out. -/
def makeRegion (m : MemorySettings) (id : Nat) : Except StoreError Region :=
  match m.strategy with
  | .firstFit => Region.firstFit id m.regionSize
  | .largestFit => Region.largestFit id m.regionSize
  | .slab => Region.slab id m.regionSize m.slotSizes m.slabSegments m.allowLargerSlab

/-- `count` regions, numbered from `first` on; the first refusal ends it. -/
def makeRegions (m : MemorySettings) (threshold : UInt64) :
    (count first : Nat) → Except StoreError (List Region)
  | 0, _ => .ok []
  | count + 1, first =>
    match m.makeRegion first with
    | .error refusal => .error refusal
    | .ok r =>
      match m.makeRegions threshold count (first + 1) with
      | .error refusal => .error refusal
      | .ok others => .ok (r.setThreshold threshold :: others)

end MemorySettings

def RoutingSettings.make (p : RoutingSettings) : Routing :=
  match p.kind with
  | .sequential => .sequential 0
  | .roundRobin => .roundRobin 0 p.maxAllocations

namespace Store

/-- Builds a store with a routing of its own in place of the one that the settings name. Only
what building needs is checked. -/
def buildWith (routing : Routing) (s : Settings) : Except StoreError Store :=
  if s.memory.regions = 0 then .error (.invalidConfig "regions must be at least 1")
  else if UInt32.size ≤ s.memory.regions then
    .error (.invalidConfig s!"too many regions: {s.memory.regions}")
  else if s.routing.maxAllocations = 0 then
    .error (.invalidConfig "max_allocations must be at least 1")
  else match s.memory.makeRegions (.ofNat s.eviction.shortageThreshold) s.memory.regions 0 with
    | .error refusal => .error refusal
    | .ok regions => .ok {
        regions
        routing
        onExhaustion := s.routing.onExhaustion
        expireBatch := s.eviction.expireBatch
        leastUsedBatch := s.eviction.leastUsedBatch
        tally := .zero }

def build (s : Settings) : Except StoreError Store := buildWith s.routing.make s

/-- Builds a store from settings that have to be valid. -/
def ofSettings (s : Settings) : Except StoreError Store :=
  match s.validate with
  | .error fault => .error fault.toStoreError
  | .ok () => build s

end Store

end RegionStore
