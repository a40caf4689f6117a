import NodeGrid.Sample
import NodeGrid.Settings.Sources

/-!
# The console program

The arguments make a request, and a request makes a transcript: what the program writes and its exit
code. A run puts one node on a board, feeds it from above and collects what leaves it on the other
sides.
-/

namespace NodeGrid.Console

/-- Why the program gave up. -/
inductive Failure where
  | unknownCommand (word : String)
  | unknownSample (word : String)
  | unknownOption (word : String)
  | missingValues
  | missingTicks
  | invalidValue (item : ValueList.InvalidItem)
  | invalidTicks (text : String) (reason : Numeral.Error)
  | missingFile
  | unreadable (path reason : String)
  | refused (error : BoardError)
  | faulty (path : String) (count : Nat)
  | sample (error : SampleError)

namespace Failure

def message : Failure → String
  | unknownCommand word => "Unknown command: " ++ word
  | unknownSample word =>
    "Unknown demo: " ++ word ++ " (expected simple, doubler, sorter or all)"
  | unknownOption word => "Unknown option: " ++ word
  | missingValues => "--input needs a value like 1,2,3"
  | missingTicks => "--ticks needs a number"
  | invalidValue item => item.message
  | invalidTicks text _ => "Invalid tick count: " ++ text
  | missingFile => "run needs a program file"
  | unreadable path _ => "Failed to read " ++ path
  | refused error => error.message
  | faulty path count => toString count ++ " validation errors in " ++ path
  | sample error => error.message

/-- What lies behind the failure, where that is not the failure itself. -/
def cause? : Failure → Option String
  | invalidValue item => some item.reason.message
  | invalidTicks _ reason => some reason.message
  | unreadable _ reason => some reason
  | refused (.parse error) => some error.message
  | sample (.board (.parse error)) => some error.message
  | _ => none

/-- Whether the usage is shown before the failure. -/
def showsUsage : Failure → Bool
  | unknownCommand _ | missingFile => true
  | _ => false

def render (f : Failure) : String :=
  "Error: " ++ f.message ++ "\n" ++
    match f.cause? with
    | some cause => "\nCaused by:\n    " ++ cause ++ "\n"
    | none => ""

end Failure

/-! ## Requests -/

/-- What to run on one node. -/
structure RunRequest where
  path : String
  values : List Int32
  ticks : Nat

inductive Request where
  | usage
  | samples (samples : List Sample)
  | run (request : RunRequest)

/-- The samples that a word names. -/
def samplesOf (word : String) : Except Failure (List Sample) :=
  match word with
  | "simple" => .ok [.simple]
  | "doubler" => .ok [.doubler]
  | "sorter" => .ok [.sorter]
  | "all" => .ok Sample.all
  | _ => .error (.unknownSample word)

/-- What the arguments of a run have set so far. -/
structure RunOptions where
  path? : Option String := none
  values : List Int32 := []
  ticks : Nat

/-- Reads the arguments of a run from left to right; the first that is wrong ends it. -/
def RunOptions.parse (o : RunOptions) : List String → Except Failure RunOptions
  | [] => .ok o
  | word :: rest =>
    if word = "--input" ∨ word = "-i" then
      match rest with
      | [] => .error .missingValues
      | text :: rest =>
        match ValueList.read text with
        | .ok values => parse { o with values } rest
        | .error item => .error (.invalidValue item)
    else if word = "--ticks" ∨ word = "-t" then
      match rest with
      | [] => .error .missingTicks
      | text :: rest =>
        match Numeral.readUInt64 text with
        | .ok ticks => parse { o with ticks } rest
        | .error reason => .error (.invalidTicks text reason)
    else if word.startsWith "-" then .error (.unknownOption word)
    else parse { o with path? := some word } rest

def RunOptions.request (o : RunOptions) : Except Failure RunRequest :=
  match o.path? with
  | some path => .ok { path, values := o.values, ticks := o.ticks }
  | none => .error .missingFile

/-- The request that the arguments make. -/
def Request.ofArguments (settings : Settings) : List String → Except Failure Request
  | [] | ["demo"] => .ok (.samples Sample.all)
  | "demo" :: word :: _ => (samplesOf word).map .samples
  | "run" :: rest => do
    let options ← RunOptions.parse { ticks := settings.maxTicks } rest
    return .run (← options.request)
  | "--help" :: _ | "-h" :: _ => .ok .usage
  | word :: _ => .error (.unknownCommand word)

/-- The program file that a request needs. -/
def Request.path? : Request → Option String
  | .run request => some request.path
  | _ => none

/-! ## Transcripts -/

structure Transcript where
  code : Nat := 0
  stdout : String := ""
  stderr : String := ""
  deriving DecidableEq

/-- The usage, with the place of the user's settings. -/
def usage (settingsPath : String) : String :=
  "Usage:\n" ++
  "  tis-emu demo [simple|doubler|sorter|all]\n" ++
  "  tis-emu run <file> [--input 1,2,3] [--ticks N]\n" ++
  "\n" ++
  "Config: ./tis-emu.toml or " ++ settingsPath ++ "\n"

/-- The sides on which a run collects values, with the directions back to the node. -/
def runOutputs : List (String × Position × Direction) :=
  [("Right", ⟨1, 0⟩, .left), ("Down", ⟨0, 1⟩, .up), ("Left", ⟨-1, 0⟩, .right)]

/-- The board of a run before its program is loaded. -/
def runBoard (values : List Int32) : Board :=
  let b := (Board.empty 1 1).fill.addInput ⟨0, -1⟩ .down values
  runOutputs.foldl (fun b (_, p, d) => b.addOutput p d) b

/-- What each side of a run has collected. -/
def outputLines (b : Board) : String :=
  String.join (runOutputs.map fun (name, p, _) =>
    "Output " ++ name ++ ": " ++ ValueList.print (b.collected p) ++ "\n")

/-- The state of the node at the end of a run. -/
def registerLine (b : Board) : String :=
  match b.node? ⟨0, 0⟩ with
  | some n =>
    "ACC: " ++ ValueList.printValue n.acc ++ "  BAK: " ++ ValueList.printValue n.bak ++ "  PC: " ++
      toString n.pc ++ "\n"
  | none => ""

/-- A number of ticks, each with what it shows after `text`. -/
def runTicks (trace : Bool) : Nat → Board → String → Board × String
  | 0, b, text => (b, text)
  | n + 1, b, text =>
    let b := b.step
    let text :=
      if trace then text ++ "Tick " ++ toString b.ticks ++ ":\n" ++ outputLines b else text
    runTicks trace n b text

/-- The transcript of a failure after `text` has been written. -/
def failing (f : Failure) (text faults : String) : Transcript :=
  { code := 1, stdout := text, stderr := faults ++ f.render }

/-- The transcript of a run with the given file in the place of the program. -/
def runTranscript (settings : Settings) (request : RunRequest) (file : FileState) : Transcript :=
  match file.read with
  | .error reason => failing (.unreadable request.path reason) "" ""
  | .ok source =>
    let opening := "Loading: " ++ request.path ++ "\n\n"
    match (runBoard request.values).load ⟨0, 0⟩ source with
    | .error e => failing (.refused e) opening ""
    | .ok (b, []) =>
      let (b, text) := runTicks settings.traceOutputs request.ticks b opening
      { stdout := text ++ registerLine b ++ outputLines b }
    | .ok (_, faults) =>
      failing (.faulty request.path faults.length) opening
        (String.join (faults.map (·.render ++ "\n")))

/-- The transcript of a request, or of the failure to make one. -/
def transcript (settings : Settings) (settingsPath : String) (file : FileState) :
    Except Failure Request → Transcript
  | .error f => failing f (if f.showsUsage then usage settingsPath else "") ""
  | .ok .usage => { stdout := usage settingsPath }
  | .ok (.samples samples) =>
    match Sample.runAll samples settings.maxTicks with
    | .ok reports => { stdout := String.join (reports.map (·.render ++ "\n")) }
    | .error e => failing (.sample e) "" ""
  | .ok (.run request) => runTranscript settings request file

end NodeGrid.Console
