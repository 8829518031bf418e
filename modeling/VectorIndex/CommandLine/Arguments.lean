import VectorIndex.Defaults

/-!
# Arguments

A command line is a list of arguments: options for the whole program, a
command, and options behind it. The options for the whole program may also
stand behind the command, and those win.

* `Token`, `Segment`: one segment of a command line, the options up to the first
  argument that is no option.
* `Options`, `Command`, `Invocation`: what a command line asks for.
* `Invocation.parse`: from arguments to an invocation; `none` for a command
  line that asks for nothing the program can do.

The value of an option follows it as an argument of its own, unless that
starts with a dash, or behind an equals sign. No option may be given twice in
one segment.

Asking for help is left out: `--help`, `-h` and `help` are neither options nor
commands here, so a command line with them counts as one that asks for nothing
the program can do.
-/

namespace VectorIndex.CommandLine

/-! ## Segments -/

/-- What an option is called and whether it takes a value. -/
structure OptionName where
  long : String
  short : Option Char
  takesValue : Bool
deriving DecidableEq

/-- One segment of a command line: the options given with their values (empty
for those that take none), then, if one follows, the first argument that is no
option, and the arguments behind it. -/
structure Segment where
  given : List (String × String)
  next : Option (String × List String)

/-- Puts an option in front of a segment. -/
def Segment.push (name value : String) (s : Segment) : Segment :=
  { s with given := (name, value) :: s.given }

/-- The argument looks like an option, so it is not a value. A lone dash does
not. -/
def looksLikeOption (argument : String) : Bool :=
  match argument.toList with
  | '-' :: _ :: _ => true
  | _ => false

/-- How an argument begins: an option with or without its value, the end of
the options, or something else. -/
inductive Token where
  | option (o : OptionName) (value : Option String)
  | optionsEnd
  | word (w : String)
  | unknown

/-- Splits a text at the first equals sign. -/
def splitAtEquals (text : List Char) : List Char × Option (List Char) :=
  (text.takeWhile (· != '='),
    match text.dropWhile (· != '=') with
    | [] => none
    | _ :: value => some value)

/-- The value directly behind a short option, with or without an equals sign
in front of it. -/
def attachedValue : List Char → Option String
  | [] => none
  | '=' :: value => some (String.ofList value)
  | value => some (String.ofList value)

/-- The token an argument is. -/
def token (known : List OptionName) (argument : String) : Token :=
  match argument.toList with
  | ['-', '-'] => .optionsEnd
  | '-' :: '-' :: text =>
    let (name, value) := splitAtEquals text
    match known.find? (·.long == String.ofList name) with
    | some o => .option o (value.map String.ofList)
    | none => .unknown
  | '-' :: letter :: text =>
    match known.find? (·.short == some letter) with
    | some o => .option o (attachedValue text)
    | none => .unknown
  | _ => .word argument

/-- Reads one segment of a command line, as far as the first argument that is no
option. Behind the end of the options nothing may follow. -/
def segment (known : List OptionName) : List String → Option Segment
  | [] => some ⟨[], none⟩
  | argument :: rest =>
    match token known argument with
    | .word w => some ⟨[], some (w, rest)⟩
    | .unknown => none
    | .optionsEnd => if rest.isEmpty then some ⟨[], none⟩ else none
    | .option o (some value) =>
      if o.takesValue then (segment known rest).map (·.push o.long value) else none
    | .option o none =>
      if o.takesValue then
        match rest with
        | [] => none
        | value :: rest =>
          if looksLikeOption value then none else (segment known rest).map (·.push o.long value)
      else (segment known rest).map (·.push o.long "")

/-- No option is given twice. -/
def Segment.distinct (s : Segment) : Bool :=
  decide (s.given.map Prod.fst).Nodup

/-- The value given for an option. -/
def Segment.value? (s : Segment) (name : String) : Option String :=
  s.given.lookup name

/-- The path given for an option; a path is not empty. -/
def Segment.path? (s : Segment) (name : String) : Option (Option String) :=
  match s.value? name with
  | none => some none
  | some path => if path.isEmpty then none else some (some path)

/-- The integer given for an option. -/
def Segment.integer? (s : Segment) (name : String) : Option (Option Int64) :=
  match s.value? name with
  | none => some none
  | some text => (Decimal.int64? text).map some

/-! ## Invocations -/

/-- Options for the whole program. -/
structure Options where
  defaultsPath : Option String
  overrides : Defaults.Overrides
  logLevel : Option String
deriving DecidableEq

/-- The options in `inner`, and those in `outer` that it leaves out. -/
def Options.orElse (inner outer : Options) : Options where
  defaultsPath := inner.defaultsPath.or outer.defaultsPath
  overrides := {
    m := inner.overrides.m.or outer.overrides.m
    efConstruction := inner.overrides.efConstruction.or outer.overrides.efConstruction
    efSearch := inner.overrides.efSearch.or outer.overrides.efSearch }
  logLevel := inner.logLevel.or outer.logLevel

/-- What the program is to do. -/
inductive Command where
  /-- Compile the definition at a path, for another space if one is given, and
  print its map or its description. -/
  | compile (path : String) (space : Option String) (asMap : Bool)
  /-- Describe the method. -/
  | describe
deriving DecidableEq

/-- What a command line asks for. -/
structure Invocation where
  options : Options
  command : Command
deriving DecidableEq

/-- The options for the whole program. -/
def programOptions : List OptionName := [
  ⟨"settings", none, true⟩,
  ⟨"default-m", none, true⟩,
  ⟨"default-ef-construction", none, true⟩,
  ⟨"default-ef-search", none, true⟩,
  ⟨"log-level", none, true⟩]

/-- The options of the compile command. -/
def compileOptions : List OptionName := [
  ⟨"method", some 'm', true⟩,
  ⟨"space", none, true⟩,
  ⟨"as-map", none, false⟩]

/-- The program options given in one segment. -/
def Segment.options? (s : Segment) : Option Options := do
  let defaultsPath ← s.path? "settings"
  let m ← s.integer? "default-m"
  let efConstruction ← s.integer? "default-ef-construction"
  let efSearch ← s.integer? "default-ef-search"
  return ⟨defaultsPath, ⟨m, efConstruction, efSearch⟩, s.value? "log-level"⟩

/-- Reads a segment in which no option is given twice. -/
def distinctSegment (known : List OptionName) (arguments : List String) : Option Segment := do
  let s ← segment known arguments
  if s.distinct then some s else none

/-- The command that the segment behind its name asks for. -/
def Segment.command? (s : Segment) (name : String) : Option Command :=
  if s.next.isSome then none
  else if name == "compile" then do
    let path ← (← s.path? "method")
    return .compile path (s.value? "space") (s.value? "as-map").isSome
  else if name == "describe" then some .describe
  else none

/-- The options that may stand behind a command. -/
def optionsOf (command : String) : List OptionName :=
  if command == "compile" then programOptions ++ compileOptions else programOptions

/-- Reads a command line. -/
def Invocation.parse (arguments : List String) : Option Invocation := do
  let outer ← distinctSegment programOptions arguments
  let outerOptions ← outer.options?
  let (name, rest) ← outer.next
  let inner ← distinctSegment (optionsOf name) rest
  let innerOptions ← inner.options?
  let command ← inner.command? name
  return ⟨innerOptions.orElse outerOptions, command⟩

end VectorIndex.CommandLine
