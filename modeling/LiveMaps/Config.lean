import LiveMaps.Json.Codec

namespace LiveMaps

structure AdmissionConfig where
  activeExpansion : UInt8 := 2
  ignoreRaidRequirement : Bool := false
  maxInstancesPerHour : UInt32 := 5
  defaultLocale : String := "enUS"
  deriving DecidableEq, Repr

namespace AdmissionConfig

def memberNames : List String :=
  ["active_expansion","ignore_raid_requirement","max_instances_per_hour","default_locale"]

def encode (c : AdmissionConfig) : Json :=
  Json.record
    [("active_expansion",Codec.uint8.encode c.activeExpansion),
      ("ignore_raid_requirement",Codec.bool.encode c.ignoreRaidRequirement),
      ("max_instances_per_hour",Codec.uint32.encode c.maxInstancesPerHour),
      ("default_locale",Codec.string.encode c.defaultLocale)]

def decode (document : Json) : Option AdmissionConfig := do
  let members ← Codec.members? memberNames document
  let default : AdmissionConfig := {}
  return {
    activeExpansion := ← Codec.uint8.optional "active_expansion" default.activeExpansion members
    ignoreRaidRequirement :=
      ← Codec.bool.optional "ignore_raid_requirement" default.ignoreRaidRequirement members
    maxInstancesPerHour :=
      ← Codec.uint32.optional "max_instances_per_hour" default.maxInstancesPerHour members
    defaultLocale := ← Codec.string.optional "default_locale" default.defaultLocale members }

def codec : Codec AdmissionConfig := ⟨encode,decode⟩

end AdmissionConfig

inductive ConfigError where
  | unreadable
  | malformed
  | zeroInterval
  deriving DecidableEq, Repr

namespace ConfigError

def message : ConfigError → String
  | .unreadable => "IO error"
  | .malformed => "JSON error"
  | .zeroInterval => "map update interval must be positive"

end ConfigError

structure WorldConfig where
  -- Accumulated milliseconds before all maps advance once.
  updateInterval : UInt32 := 10
  -- Size of the worker pool; zero advances maps one after another.
  workerThreads : UInt64 := 0
  gridCleanUpDelay : UInt32 := 300000
  -- Idle time before an empty copy is destroyed; zero keeps copies forever.
  unloadDelay : UInt32 := 1800000
  admission : AdmissionConfig := {}
  deriving DecidableEq, Repr

namespace WorldConfig

def memberNames : List String :=
  ["map_update_interval_ms","worker_threads","grid_clean_up_delay_ms","instance_unload_delay_ms",
    "admission"]

def encode (c : WorldConfig) : Json :=
  Json.record
    [("map_update_interval_ms",Codec.uint32.encode c.updateInterval),
      ("worker_threads",Codec.uint64.encode c.workerThreads),
      ("grid_clean_up_delay_ms",Codec.uint32.encode c.gridCleanUpDelay),
      ("instance_unload_delay_ms",Codec.uint32.encode c.unloadDelay),
      ("admission",AdmissionConfig.codec.encode c.admission)]

def decode (document : Json) : Option WorldConfig := do
  let members ← Codec.members? memberNames document
  let default : WorldConfig := {}
  return {
    updateInterval := ← Codec.uint32.optional "map_update_interval_ms" default.updateInterval members
    workerThreads := ← Codec.uint64.optional "worker_threads" default.workerThreads members
    gridCleanUpDelay :=
      ← Codec.uint32.optional "grid_clean_up_delay_ms" default.gridCleanUpDelay members
    unloadDelay := ← Codec.uint32.optional "instance_unload_delay_ms" default.unloadDelay members
    admission := ← AdmissionConfig.codec.optional "admission" default.admission members }

def codec : Codec WorldConfig := ⟨encode,decode⟩

def validate (c : WorldConfig) : Except ConfigError WorldConfig :=
  if c.updateInterval = 0 then .error .zeroInterval else .ok c

def ofSymbols (input : Json.Symbols) : Except ConfigError WorldConfig :=
  match codec.read? input with
  | none => .error .malformed
  | some config => config.validate

end WorldConfig
end LiveMaps
