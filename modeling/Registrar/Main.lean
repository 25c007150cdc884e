import Registrar.Command
import Registrar.Logging.Line
import Registrar.Text
import Std.Time.DateTime.Timestamp

/-!
# The program

Reads what a run needs from the system and tells what the run did. The program is told to end by the
end of its standard input.
-/

namespace Registrar.Session

def text? (path : String) : IO (Option String) := do
  try
    return some (← IO.FS.readFile path)
  catch _ =>
    return none

/-- Those of some files that can be read. -/
def gather (paths : List String) : IO (List (String × String)) :=
  paths.filterMapM fun path => do return (← text? path).map (path, ·)

/-- The paths that settings may be at when they are looked for at one. -/
def candidates (path : String) : List String :=
  path :: (Settings.extended path).map Prod.snd

def ancestors (path : String) : List String :=
  let names := Text.split path "/"
  (List.range names.length).map fun n => "/".intercalate (names.take (n + 1))

/-- The variables that a run looks at. -/
def variableNames : List String :=
  let settings := ["CONTROLLER__WORKERS", "CONTROLLER__REQUEUE_DELAY_MS",
    "CONTROLLER__CONFLICT_RETRIES", "CONTROLLER__FINALIZER", "CONTROLLER__QUEUE_CAPACITY",
    "VERIFICATION__RECORD_PREFIX", "LOGGING__LEVEL", "LOGGING__FORMAT", "LOGGING__FILTER",
    "LOGGING__PATH", "LOGGING__JSON_FILES", "LOGGING__MAX_FILES", "SEED"]
  "RUST_LOG" :: settings.map fun name =>
    Settings.Variables.programName ++ Settings.Variables.divider ++ name

def environment : IO (List (String × String)) :=
  variableNames.filterMapM fun name => do return (← IO.getEnv name).map (name, ·)

/-- The files that a run with some settings looks at beside the settings. -/
def otherPaths (settings : Settings) : List String :=
  settings.seed.toList ++ settings.logging.path.elim [] ancestors

/-- Reads lines until there are none. -/
partial def awaitEnd (input : IO.FS.Stream) : IO Unit := do
  if (← input.getLine).isEmpty then return
  awaitEnd input

/-- Writes what a logger keeps on the console and to its file. -/
def publish (report : Command.Report) : IO Unit := do
  let some logger := report.logger | return
  if let some format := logger.console then
    for entry in report.kept do
      IO.println (entry.line format)
  if let some (directory, json) := logger.file then
    IO.FS.createDirAll directory
    let format := if json then .json else .compact
    let lines := report.kept.map fun entry => entry.line format ++ "\n"
    IO.FS.writeFile (directory ++ "/" ++ Command.name ++ ".log") (String.join lines)

def run (path : Option String) : IO UInt32 := do
  let found ← gather (candidates (path.getD Settings.defaultFile))
  let told ← environment
  let others ← match Settings.load ⟨found⟩ told path with
    | .ok settings => gather (otherPaths settings)
    | .error _ => pure []
  let files : Files := ⟨found ++ others⟩
  let instant ← Std.Time.Timestamp.now
  let some now := Time.ofUnix? instant.toSecondsSinceUnixEpoch.val 0 | return 1
  let started ← IO.monoMsNow
  if (Command.run files told path now 0).failure.isNone then awaitEnd (← IO.getStdin)
  let report := Command.run files told path now ((← IO.monoMsNow) - started)
  publish report
  for line in report.complaints do
    IO.eprintln line
  return UInt32.ofNat report.code

end Registrar.Session

def main (arguments : List String) : IO UInt32 :=
  Registrar.Session.run arguments.head?
