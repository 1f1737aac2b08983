import RegionStore.Store

/-!
Settings of a store. Each one has a default, so that empty settings describe one region of 64
mebibytes that places by largest fit.
-/
namespace RegionStore

structure MemorySettings where
  regions : Nat
  /-- Bytes per region. -/
  regionSize : Nat
  strategy : Strategy
  slotSizes : List Nat
  /-- Segments per pool of slots. -/
  slabSegments : Nat
  /-- Whether a pool without free slots passes requests on to larger ones. -/
  allowLargerSlab : Bool
  deriving DecidableEq, Repr

def MemorySettings.default : MemorySettings :=
  ⟨1, 64 * 1024 * 1024, .largestFit, [64, 256, 1024, 4096, 16384], 1, false⟩

inductive RoutingKind where
  | sequential
  | roundRobin
  deriving DecidableEq, Repr

structure RoutingSettings where
  kind : RoutingKind
  /-- Attempts for one request when regions take turns. -/
  maxAllocations : Nat
  onExhaustion : OnExhaustion
  deriving DecidableEq, Repr

def RoutingSettings.default : RoutingSettings := ⟨.sequential, 2, .returnNone⟩

structure EvictionSettings where
  /-- Payloads released per region and kind of expiry in one sweep. -/
  expireBatch : Nat
  /-- Payloads released per region in one sweep for room, zero for a tenth of them. -/
  leastUsedBatch : Nat
  /-- Failures tolerated before a region is in shortage. -/
  shortageThreshold : Nat
  sweepIntervalMillis : Nat
  deriving DecidableEq, Repr

def EvictionSettings.default : EvictionSettings := ⟨50, 0, 0, 1000⟩

inductive LogFormat where
  | pretty
  | compact
  | json
  deriving DecidableEq, Repr

structure LogSettings where
  level : String
  format : LogFormat
  timestamps : Bool
  target : Bool
  threadNames : Bool
  deriving DecidableEq, Repr

def LogSettings.default : LogSettings := ⟨"info", .pretty, true, true, false⟩

structure Settings where
  memory : MemorySettings
  routing : RoutingSettings
  eviction : EvictionSettings
  logging : LogSettings
  deriving DecidableEq, Repr

/-- Why settings were not accepted. -/
inductive SettingsError where
  | unreadable
  | malformed
  | invalid (reason : String)
  deriving DecidableEq, Repr

namespace SettingsError

def message : SettingsError → String
  | unreadable => "failed to read config"
  | malformed => "failed to parse config"
  | invalid reason => s!"invalid config: {reason}"

def toStoreError (e : SettingsError) : StoreError := .invalidConfig e.message

end SettingsError

/-- Settings that contradict themselves. -/
inductive SettingsFault where
  | noRegions
  | emptyRegions
  | regionTooLarge (size : Nat)
  | noSlotSizes
  | zeroSlotSize
  | noSegments
  | slotTooLarge (largest segment : Nat)
  | noAttempts
  | noSweepInterval
  deriving DecidableEq, Repr

def SettingsFault.reason : SettingsFault → String
  | noRegions => "regions must be at least 1"
  | emptyRegions => "region_size must be greater than 0"
  | regionTooLarge size => s!"region_size ({size}) must not exceed {Segment.maxSize} bytes"
  | noSlotSizes => "slot_sizes must not be empty for the slab strategy"
  | zeroSlotSize => "slot sizes must be greater than 0"
  | noSegments => "slab_segments must be at least 1"
  | slotTooLarge largest segment =>
    s!"largest slot size ({largest}) must fit in a slab segment ({segment} bytes)"
  | noAttempts => "max_allocations must be at least 1"
  | noSweepInterval => "sweep_interval_ms must be greater than 0"

namespace MemorySettings

/-- Bytes of a segment when every slot size that is listed gets an equal share. -/
def segmentSize (m : MemorySettings) : Nat := m.regionSize / m.slotSizes.length / m.slabSegments

def largestSlot (m : MemorySettings) : Nat := m.slotSizes.foldr max 0

def slabFault? (m : MemorySettings) : Option SettingsFault :=
  if m.slotSizes.isEmpty then some .noSlotSizes
  else if 0 ∈ m.slotSizes then some .zeroSlotSize
  else if m.slabSegments = 0 then some .noSegments
  else if m.segmentSize < m.largestSlot then some (.slotTooLarge m.largestSlot m.segmentSize)
  else none

/-- Slots are accepted exactly if every size that is listed fits in its share. -/
theorem slabFault?_eq_none_iff {m : MemorySettings} :
    m.slabFault? = none ↔ m.slotSizes ≠ [] ∧ 0 ∉ m.slotSizes ∧ 1 ≤ m.slabSegments ∧
      m.largestSlot ≤ m.segmentSize := by
  unfold slabFault?
  split
  · next h => simp [List.isEmpty_iff.1 h]
  · next h =>
    have listed : m.slotSizes ≠ [] := fun e => h (by simp [e])
    split
    · next zero => simp [zero]
    · next positive =>
      split
      · simp; omega
      · split
        · simp; omega
        · simp [listed, positive]; omega

def fault? (m : MemorySettings) : Option SettingsFault :=
  if m.regions = 0 then some .noRegions
  else if m.regionSize = 0 then some .emptyRegions
  else if Segment.maxSize < m.regionSize then some (.regionTooLarge m.regionSize)
  else match m.strategy with
    | .slab => m.slabFault?
    | .firstFit => none
    | .largestFit => none

end MemorySettings

namespace Settings

def default : Settings := ⟨.default, .default, .default, .default⟩

/-- The first fault, in the order in which settings are checked. -/
def fault? (s : Settings) : Option SettingsFault :=
  s.memory.fault?.or <|
    if s.routing.maxAllocations = 0 then some .noAttempts
    else if s.eviction.sweepIntervalMillis = 0 then some .noSweepInterval
    else none

theorem fault?_default : default.fault? = none := rfl

def validate (s : Settings) : Except SettingsError Unit :=
  match s.fault? with
  | none => .ok ()
  | some fault => .error (.invalid fault.reason)

theorem validate_eq_ok_iff {s : Settings} : s.validate = .ok () ↔ s.fault? = none := by
  unfold validate
  split <;> simp [*]

end Settings

end RegionStore
