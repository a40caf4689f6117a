import NodeGrid.Console

/-!
# The program

Takes the arguments, the variables, the settings files and the program file from the system, hands
them to the console and writes its transcript.
-/

namespace NodeGrid.Main

/-- What there is at a path. -/
def readFile (path : String) : IO FileState := do
  try
    match String.fromUTF8? (← IO.FS.readBinFile path) with
    | some content => return .text content
    | none => return .notText
  catch
    | .noFileOrDirectory .. => return .absent
    | .inappropriateType .. => return .directory
    | e => return .unreadable (toString e)

/-- The directory of the user's settings, if the system names one. -/
def settingsDirectory? : IO (Option String) := do
  let configured ← IO.getEnv "XDG_CONFIG_HOME"
  match configured.filter (·.startsWith "/") with
  | some directory => return some directory
  | none => return (← IO.getEnv "HOME").map (· ++ "/.config")

def settingsFile (path : String) : IO SettingsFile := do
  return { path, state := ← readFile path }

def run (arguments : List String) : IO UInt32 := do
  let userPath? := (← settingsDirectory?).map (· ++ "/tis-emu/config.toml")
  let shownPath := userPath?.getD "~/.config/tis-emu/config.toml"
  let user ← match userPath? with
    | some path => settingsFile path
    | none => pure { path := shownPath }
  let project ← settingsFile "tis-emu.toml"
  let maxTicks? ← IO.getEnv "TIS_EMU_MAX_TICKS"
  let trace? ← IO.getEnv "TIS_EMU_TRACE"
  let settings := SettingsSources.load { user, project, maxTicks?, trace? }
  let request := Console.Request.ofArguments settings arguments
  let file ← match request with
    | .ok (.run request) => readFile request.path
    | _ => pure .absent
  let transcript := Console.transcript settings shownPath file request
  (← IO.getStdout).putStr transcript.stdout
  (← IO.getStderr).putStr transcript.stderr
  return UInt32.ofNat transcript.code

end NodeGrid.Main

def main (arguments : List String) : IO UInt32 := NodeGrid.Main.run arguments
