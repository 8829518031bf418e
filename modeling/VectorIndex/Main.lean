import VectorIndex.CommandLine.Program

/-!
# Command line

Reads the files that a command line names, runs it, and prints what comes of
it: the output, the events on standard error, and there too the report of a
failure.
-/

open VectorIndex VectorIndex.CommandLine

/-- An error code is `n`; some calls give it negated. -/
def isCode (n code : UInt32) : Bool :=
  code == n || code + n == 0

/-- Why a file could not be read. -/
def fileProblem : IO.Error → FileProblem
  | .noFileOrDirectory .. => .missing
  | e@(.inappropriateType _ code _) =>
    if isCode 20 code then .notDirectory
    else if isCode 21 code then .directory
    else .other (toString e)
  | e@(.invalidArgument _ code _) =>
    if isCode 36 code then .nameTooLong else .other (toString e)
  | e => .other (toString e)

/-- What stands at a path. -/
def readFile (path : String) : IO File := do
  try
    return .bytes (← IO.FS.readBinFile path)
  catch e => return .unavailable (fileProblem e)

/-- The paths a command line names. -/
def paths (arguments : List String) : List String :=
  match Invocation.parse arguments with
  | none => []
  | some i =>
    i.options.defaultsPath.toList ++
      match i.command with
      | .compile path _ _ => [path]
      | .describe => []

/-- How the program is used. -/
def usage : String :=
  "usage: compile -m METHOD [--space SPACE] [--as-map] | describe\n" ++
    "options: --settings FILE, --default-m N, --default-ef-construction N,\n" ++
    "  --default-ef-search N, --log-level LEVEL"

def main (arguments : List String) : IO UInt32 := do
  let contents ← (paths arguments).mapM fun path => return (path, ← readFile path)
  let files := fun path => (contents.lookup path).getD (.unavailable .missing)
  let outcome := run arguments files
  let err ← IO.getStderr
  match outcome with
  | .misuse => err.putStrLn usage
  | .ran _ journal =>
    for e in journal do
      err.putStrLn (e.level.label ++ " " ++ e.text)
  IO.print outcome.printed
  if let some r := outcome.report? then err.putStrLn r.text
  return outcome.exitCode
