import TaskTimer.Files.Basic
import TaskTimer.Settings.Basic
import TaskTimer.Yaml.Reader

/-!
# Reading settings

Settings are kept in a YAML file. What the file leaves out has its usual value; what it says beyond
the settings does not matter.

* `Settings.ofYaml?`, `Settings.ofText?`: the settings of a file.
* `readSettings`, `SettingsError`: reading a file.
* `loadSettings`, `LoadError`: finding the file that counts.
-/

namespace TaskTimer

namespace Yaml

/-- The entries of a map whose keys are scalars, by the texts of the keys. A part for which nothing
is written has no entries. -/
def section? : Yaml → Option (List (String × Yaml))
  | .map entries => entries.mapM fun (k, v) => k.text?.map fun key => (key, v)
  | .scalar s => if s.plain && s.text.isEmpty then some [] else none
  | .list _ => none

/-- The setting under a key that must not be there twice, with its usual value if it is not there. -/
def setting? {α : Type} (entries : List (String × Yaml)) (key : String) (usual : α)
    (read : Yaml → Option α) : Option α :=
  match (entries.filter (·.1 == key)).map (·.2) with
  | [] => some usual
  | [v] => read v
  | _ => none

/-- A natural number below `2 ^ 32`. -/
def uint32? (v : Yaml) : Option UInt32 :=
  v.natural?.bind fun n => if n < UInt32.size then some (UInt32.ofNat n) else none

/-- A natural number below `2 ^ 64`. -/
def uint64? (v : Yaml) : Option UInt64 :=
  v.natural?.bind fun n => if n < UInt64.size then some (UInt64.ofNat n) else none

end Yaml

/-- The timer settings of a part of a file. -/
def TimerSettings.ofYaml? (v : Yaml) : Option TimerSettings := do
  let usual : TimerSettings := {}
  let entries ← v.section?
  return {
    loopCap := ← Yaml.setting? entries "loop-cap" usual.loopCap Yaml.uint32?
    tickMs := ← Yaml.setting? entries "tick-ms" usual.tickMs Yaml.uint64?
    channelBuffer := ← Yaml.setting? entries "channel-buffer" usual.channelBuffer Yaml.uint64? }

/-- The settings for watching of a part of a file. -/
def WatchSettings.ofYaml? (v : Yaml) : Option WatchSettings := do
  let usual : WatchSettings := {}
  let entries ← v.section?
  return {
    pollIntervalMs :=
      ← Yaml.setting? entries "poll-interval-ms" usual.pollIntervalMs Yaml.uint64? }

/-- The settings for sending notices of a part of a file. -/
def BroadcastSettings.ofYaml? (v : Yaml) : Option BroadcastSettings := do
  let usual : BroadcastSettings := {}
  let entries ← v.section?
  return {
    enabled := ← Yaml.setting? entries "enabled" usual.enabled Yaml.bool?
    bind := ← Yaml.setting? entries "bind" usual.bind Yaml.text?
    channelCapacity :=
      ← Yaml.setting? entries "channel-capacity" usual.channelCapacity Yaml.uint64?
    eventLog := ← Yaml.setting? entries "event-log" usual.eventLog (Yaml.optional Yaml.text?) }

namespace Settings

/-- The settings of a file. -/
def ofYaml? (v : Yaml) : Option Settings := do
  let entries ← v.section?
  return {
    timer := ← Yaml.setting? entries "timer" {} TimerSettings.ofYaml?
    watch := ← Yaml.setting? entries "watch" {} WatchSettings.ofYaml?
    broadcast := ← Yaml.setting? entries "broadcast" {} BroadcastSettings.ofYaml?
    logLevel := ← Yaml.setting? entries "log-level" none (Yaml.optional Yaml.text?) }

/-- The settings that a text writes. -/
def ofText? (text : String) : Option Settings := (Yaml.read text.toList).bind ofYaml?

end Settings

/-- Why a settings file is of no use. -/
inductive SettingsError where
  | unreadable
  | malformed
  deriving DecidableEq, Repr

/-- The sentence shown for an error. -/
def SettingsError.message : SettingsError → String
  | .unreadable => "Failed to read config file"
  | .malformed => "Failed to parse config file"

/-- The settings file that was asked for is of no use. -/
structure LoadError where
  path : String
  cause : SettingsError
  deriving DecidableEq, Repr

/-- The sentence shown for an error. -/
def LoadError.message (e : LoadError) : String :=
  s!"Failed to load config from {e.path}: {e.cause.message}"

/-- The settings files that are tried, in order, when none is asked for. -/
def settingsFiles (env : Environment) : List String :=
  ".pomoedit.yml" ::
    (env.configDirectory?.map fun directory =>
      Path.join (Path.join directory "pomoedit") "pomoedit.yml").toList

variable {m : Type → Type} [Monad m] [MonadFiles m]

/-- The settings of the file at a path. -/
def readSettings (path : String) : m (Except SettingsError Settings) := do
  match ← readText path with
  | .error _ => return .error .unreadable
  | .ok text =>
    match Settings.ofText? text with
    | some settings => return .ok settings
    | none => return .error .malformed

/-- The settings of the first file that is of use. -/
def firstSettings : List String → m Settings
  | [] => return {}
  | path :: paths => do
    match ← readSettings path with
    | .ok settings => return settings
    | .error _ => firstSettings paths

/-- The settings of the file that is asked for, or else of the first one that is of use. -/
def loadSettings (env : Environment) (path? : Option String) : m (Except LoadError Settings) := do
  match path? with
  | none => return .ok (← firstSettings (settingsFiles env))
  | some path =>
    match ← readSettings path with
    | .ok settings => return .ok settings
    | .error cause => return .error { path := path, cause := cause }

end TaskTimer
