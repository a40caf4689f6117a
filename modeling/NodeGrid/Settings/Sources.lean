import NodeGrid.Settings.Basic
import NodeGrid.FileState
import NodeGrid.Event
import NodeGrid.Text.Numeral
import NodeGrid.Text.Quoted

/-!
# Sources of settings

The layers of settings are the user file, the project file and two variables, from the lowest to the
highest. A fallback takes the place of the project file if that is not there or not valid. A file
that cannot be read or is not valid, and a number of ticks that is no numeral, are reported and set
nothing.

Which texts are valid, and what they set, is for a reader of texts to say; the one in use is
`Settings.parse?`.
-/

namespace NodeGrid

/-- A place where settings may be. -/
structure SettingsFile where
  path : String
  state : FileState := .absent

namespace SettingsFile

def settings? (file : SettingsFile) (read? : String → Option Settings) : Option Settings :=
  match file.state with
  | .text content => read? content
  | _ => none

def events (file : SettingsFile) (read? : String → Option Settings) : List Event :=
  match file.state with
  | .absent => []
  | .unreadable _ | .notText => [⟨.warn, "Failed to read " ++ file.path⟩]
  | .text content =>
    if (read? content).isSome then [⟨.info, "Loaded config from " ++ file.path⟩]
    else [⟨.warn, "Failed to parse " ++ file.path⟩]

end SettingsFile

/-- All that settings are taken from. -/
structure SettingsSources where
  user : SettingsFile
  project : SettingsFile
  fallback? : Option SettingsFile := none
  /-- The text of the variable for the number of ticks, if it is set. -/
  maxTicks? : Option String := none
  /-- The text of the variable for showing outputs, if it is set. -/
  trace? : Option String := none
  /-- The reader of the texts of files. -/
  read? : String → Option Settings := Settings.parse?

namespace SettingsSources

/-- The project file, or its fallback. -/
def projectSettings? (s : SettingsSources) : Option Settings :=
  (s.project.settings? s.read?).or (s.fallback?.bind (·.settings? s.read?))

/-- The words that switch the showing of outputs on; every other word switches it off. -/
def isEnabling (word : String) : Bool := word = "1" || word = "true" || word = "yes"

/-- What the variables set; a number of ticks that is no numeral sets nothing. -/
def fromVariables (s : SettingsSources) : Settings where
  maxTicks? := s.maxTicks?.bind fun text => (Numeral.readUInt64 text).toOption
  traceOutputs? := s.trace?.map isEnabling

def load (s : SettingsSources) : Settings :=
  (((s.user.settings? s.read?).getD {}).overlay (s.projectSettings?.getD {})).overlay
    s.fromVariables

/-! ## Events -/

def projectEvents (s : SettingsSources) : List Event :=
  s.project.events s.read? ++
    if (s.project.settings? s.read?).isSome then [] else s.fallback?.elim [] (·.events s.read?)

def variableEvents (s : SettingsSources) : List Event :=
  let maxTicks : List Event :=
    match s.maxTicks? with
    | none => []
    | some text =>
      match Numeral.readUInt64 text with
      | .ok n => [⟨.info, "Using TIS_EMU_MAX_TICKS from environment: " ++ toString n⟩]
      | .error e =>
        [⟨.warn, "Ignoring TIS_EMU_MAX_TICKS=" ++ Quoted.encode text ++ ": " ++ e.message⟩]
  let trace : List Event :=
    match s.trace? with
    | none => []
    | some word =>
      [⟨.info, "Using TIS_EMU_TRACE from environment: " ++ toString (isEnabling word)⟩]
  maxTicks ++ trace

def loadEvents (s : SettingsSources) : List Event :=
  s.user.events s.read? ++ s.projectEvents ++ s.variableEvents

end SettingsSources

end NodeGrid
