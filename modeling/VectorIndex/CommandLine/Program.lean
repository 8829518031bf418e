import VectorIndex.CommandLine.Action
import VectorIndex.CommandLine.Arguments
import VectorIndex.Journal
import VectorIndex.Json.Printer

/-!
# The program

What an invocation does, as a function of the files it names.

* `Invocation.perform`: what a run does, step by step.
* `Invocation.journal`: the events of a run at its log level.
* `run`: from arguments to the outcome.

A run takes its steps in a fixed order: load the defaults, put the overrides
in place, build the method, load the definition, put the space in place,
compile, print. The first step that fails ends it.
-/

namespace VectorIndex.CommandLine

/-! ## The steps of a run -/

namespace Invocation

/-- The defaults that hold in a run. -/
def defaults (i : Invocation) (files : String → File) : Except Report Defaults := do
  let loaded ←
    match i.options.defaultsPath with
    | none => .ok .builtIn
    | some path =>
      (Defaults.load (files path)).mapError
        (Report.within ("failed to load settings from " ++ path))
  return loaded.override i.options.overrides

/-- The method that a run works with. -/
def method (d : Defaults) : Except Report Method :=
  (Hnsw.method d).mapError fun defect => ⟨defect.message, []⟩

/-- The definition at a path, for `space` if one is given. -/
def definition (files : String → File) (path : String) (space : Option String) :
    Except Report Definition := do
  let d ← (Definition.load (files path)).mapError
    (Report.within ("failed to read method definition " ++ path))
  match space with
  | none => return d
  | some name =>
    let s ← (Space.parse name).mapError Report.ofFailure
    return { d with space := some s }

/-- Describes a method by its name, its spaces, its encoders and what a selection without
settings is compiled to. -/
def describe (m : Method) : Action Unit := do
  let encoders :=
    (m.component.parameter? Hnsw.encoderParameter).elim [] fun p =>
      p.alternatives.map Component.name
  let values ← .ofExcept ((m.validate (.plain m.name)).mapError fun v => ⟨v.message, []⟩)
  printLine ("method: " ++ m.name)
  printLine ("spaces: " ++ ", ".intercalate (m.spaces.map Space.name))
  printLine ("encoders: " ++ ", ".intercalate encoders)
  printLine ("default: " ++ m.description values)

/-- Carries out a command. -/
def performCommand (m : Method) (files : String → File) : Command → Action Unit
  | .compile path space asMap => do
    let d ← .ofExcept (definition files path space)
    let c ← .ofExcept ((d.compile m).mapError Report.ofFailure)
    if asMap then printLine c.json.pretty else printLine c.description
  | .describe => describe m

/-- Carries out what a command line asks for. -/
def perform (i : Invocation) (files : String → File) : Action Unit := do
  let d ← .ofExcept (i.defaults files)
  let m ← .ofExcept (method d)
  performCommand m files i.command

/-! ## The journal of a run -/

/-- The events of a command. -/
def commandJournal (m : Method) (files : String → File) : Command → List Event
  | .describe =>
    m.component.journal (.plain m.name) ++
      match m.validate (.plain m.name) with
      | .ok v => m.describeJournal v
      | .error _ => []
  | .compile path space _ =>
    match definition files path space with
    | .ok d => d.journal m
    | .error _ => []

/-- The level from which on events are told. -/
def logLevel (i : Invocation) : Level :=
  .parse (i.options.logLevel.getD "warn")

/-- The events of a run, told or not. -/
def events (i : Invocation) (files : String → File) : List Event :=
  match i.defaults files with
  | .error _ => []
  | .ok d =>
    .inUse d :: Hnsw.journal d ++
      match method d with
      | .error _ => []
      | .ok m => commandJournal m files i.command

/-- The events of a run that are told. -/
def journal (i : Invocation) (files : String → File) : List Event :=
  (i.events files).filter fun e => (compare i.logLevel e.level).isLE

end Invocation

/-! ## Outcomes -/

/-- What comes of a command line. -/
inductive Outcome where
  /-- The command line asks for nothing the program can do. -/
  | misuse
  | ran (action : Action Unit) (journal : List Event)

namespace Outcome

/-- The exit code. -/
def exitCode : Outcome → UInt32
  | misuse => 2
  | ran action _ =>
    match action.result with
    | .ok _ => 0
    | .error _ => 1

/-- The text on standard output. -/
def printed : Outcome → String
  | misuse => ""
  | ran action _ => action.text

/-- The report, if the run failed. -/
def report? : Outcome → Option Report
  | misuse => none
  | ran action _ =>
    match action.result with
    | .ok _ => none
    | .error r => some r

end Outcome

/-- Runs a command line. -/
def run (arguments : List String) (files : String → File) : Outcome :=
  match Invocation.parse arguments with
  | none => .misuse
  | some i => .ran (i.perform files) (i.journal files)

end VectorIndex.CommandLine
