import RegionStore.ByteSize
import RegionStore.Settings
import RegionStore.Toml.Document

/-!
Settings from a TOML document. Keys that nobody knows and values of another type are refused,
and nothing is converted. A section may also be given as an array of its values in order.
-/
namespace RegionStore

def Strategy.named : List (String × Strategy) :=
  [("bump", .firstFit), ("coalescing", .largestFit), ("slab", .slab)]

def RoutingKind.named : List (String × RoutingKind) :=
  [("sequential", .sequential), ("round_robin", .roundRobin)]

def OnExhaustion.named : List (String × OnExhaustion) :=
  [("return_none", .returnNone), ("error", .error)]

def LogFormat.named : List (String × LogFormat) :=
  [("pretty", .pretty), ("compact", .compact), ("json", .json)]

namespace Toml

namespace Value

def natural? : Value → Option Nat
  | integer n => if 0 ≤ n then some n.toNat else none
  | _ => none

def boolean? : Value → Option Bool
  | boolean b => some b
  | _ => none

def text? : Value → Option String
  | text content => some content
  | _ => none

def naturals? : Value → Option (List Nat)
  | array items => items.mapM natural?
  | _ => none

/-- A number of bytes, or a size in words. -/
def size? : Value → Option Nat
  | text content => (ByteSize.parse content).toOption
  | v => v.natural?

def isEmpty : Value → Bool
  | array items => items.isEmpty
  | table fields => fields.isEmpty
  | _ => false

/-- One of several names, as a text or as a table with an empty value under that name alone. -/
def choice? (names : List (String × α)) : Value → Option α
  | text name => names.lookup name
  | table [(name, v)] => if v.isEmpty then names.lookup name else none
  | _ => none

/-- The fields of a section, which may be given in order without their names. -/
def section? (names : List String) : Value → Option (List (String × Value))
  | table fields => if fields.all fun (name, _) => name ∈ names then some fields else none
  | array items => some (names.zip items)
  | _ => none

end Value

/-- A field that may be left out. -/
def field (fields : List (String × Value)) (name : String) (decode : Value → Option α)
    (absent : α) : Option α :=
  match fields.lookup name with
  | none => some absent
  | some v => decode v

end Toml

open Toml

def MemorySettings.ofValue? (v : Value) : Option MemorySettings := do
  let d := MemorySettings.default
  let fields ← v.section? ["regions", "region_size", "strategy", "slot_sizes", "slab_segments",
    "allow_larger_slab"]
  some {
    regions := ← field fields "regions" Value.natural? d.regions
    regionSize := ← field fields "region_size" Value.size? d.regionSize
    strategy := ← field fields "strategy" (Value.choice? Strategy.named) d.strategy
    slotSizes := ← field fields "slot_sizes" Value.naturals? d.slotSizes
    slabSegments := ← field fields "slab_segments" Value.natural? d.slabSegments
    allowLargerSlab := ← field fields "allow_larger_slab" Value.boolean? d.allowLargerSlab }

def RoutingSettings.ofValue? (v : Value) : Option RoutingSettings := do
  let d := RoutingSettings.default
  let fields ← v.section? ["kind", "max_allocations", "on_exhaustion"]
  some {
    kind := ← field fields "kind" (Value.choice? RoutingKind.named) d.kind
    maxAllocations := ← field fields "max_allocations" Value.natural? d.maxAllocations
    onExhaustion :=
      ← field fields "on_exhaustion" (Value.choice? OnExhaustion.named) d.onExhaustion }

def EvictionSettings.ofValue? (v : Value) : Option EvictionSettings := do
  let d := EvictionSettings.default
  let fields ← v.section? ["expire_batch", "lfu_batch", "shortage_threshold",
    "sweep_interval_ms"]
  some {
    expireBatch := ← field fields "expire_batch" Value.natural? d.expireBatch
    leastUsedBatch := ← field fields "lfu_batch" Value.natural? d.leastUsedBatch
    shortageThreshold := ← field fields "shortage_threshold" Value.natural? d.shortageThreshold
    sweepIntervalMillis :=
      ← field fields "sweep_interval_ms" Value.natural? d.sweepIntervalMillis }

def LogSettings.ofValue? (v : Value) : Option LogSettings := do
  let d := LogSettings.default
  let fields ← v.section? ["level", "format", "timestamps", "target", "thread_names"]
  some {
    level := ← field fields "level" Value.text? d.level
    format := ← field fields "format" (Value.choice? LogFormat.named) d.format
    timestamps := ← field fields "timestamps" Value.boolean? d.timestamps
    target := ← field fields "target" Value.boolean? d.target
    threadNames := ← field fields "thread_names" Value.boolean? d.threadNames }

namespace Settings

/-- Settings from the fields of a document. -/
def ofFields? (top : List (String × Value)) : Option Settings := do
  let d := Settings.default
  let fields ← (Value.table top).section? ["memory", "policy", "eviction", "logging"]
  some {
    memory := ← field fields "memory" MemorySettings.ofValue? d.memory
    routing := ← field fields "policy" RoutingSettings.ofValue? d.routing
    eviction := ← field fields "eviction" EvictionSettings.ofValue? d.eviction
    logging := ← field fields "logging" LogSettings.ofValue? d.logging }

/-- Reads a document and checks the settings in it. -/
def ofToml (input : String) : Except SettingsError Settings :=
  match (document? input).bind ofFields? with
  | none => .error .malformed
  | some s => s.validate.map fun () => s

/-- Settings from the contents of a file, if there is one; it has to be text. -/
def ofFile (contents : Option ByteArray) : Except SettingsError Settings :=
  match contents.bind String.fromUTF8? with
  | none => .error .unreadable
  | some input => ofToml input

end Settings

end RegionStore
