import VectorIndex.Definition
import VectorIndex.Hnsw

/-!
# The journal

What there is to tell about building a method, checking a selection and
compiling a definition, in the order in which it happens.

* `Level`, `Event`: how important an event is, and its text.
* `Parameter.journal`, `Component.journal`: the events of checking. They end
  with the parameter at which checking ends.
* `Hnsw.journal`, `Definition.journal`: the events of building the method and
  of compiling a definition.
-/

namespace VectorIndex

/-- How important an event is. -/
inductive Level where
  | trace
  | debug
  | info
  | warn
  | error
deriving DecidableEq, Ord

namespace Level

/-- The name of a level in a log. -/
def label : Level → String
  | trace => "TRACE"
  | debug => "DEBUG"
  | info => "INFO"
  | warn => "WARN"
  | error => "ERROR"

/-- The level of a given name; every name that is none means warnings. -/
def parse : String → Level
  | "trace" => trace
  | "debug" => debug
  | "info" => info
  | "error" => error
  | _ => warn

end Level

/-- Something that happened. -/
inductive Event where
  | resolving (parameter : String) (value : Setting)
  | validated (component : String) (parameters : Nat)
  | gap (g : Gap)
  | built (method : String) (defaults : Defaults)
  | described (method : String) (description : String)
  | compiled (method : String) (space : Space) (description : String)
  | inUse (defaults : Defaults)

namespace Event

/-- How important the event is. -/
def level : Event → Level
  | resolving .. => .trace
  | validated .. => .debug
  | gap .. => .warn
  | built .. => .debug
  | described .. => .debug
  | compiled .. => .info
  | inUse .. => .info

/-- A named part of an event. -/
def part (name text : String) : String :=
  " " ++ name ++ "=" ++ text

/-- The text of an event. -/
def text : Event → String
  | resolving parameter value =>
    "resolving parameter" ++ part "parameter" parameter ++ part "value" value.display
  | validated component parameters =>
    "validated method component" ++ part "component" component ++
      part "parameters" (String.ofList (Decimal.ofNat parameters))
  | gap g =>
    "no effective value for described parameter" ++
      part "component" (Text.quoted g.component) ++ part "parameter" g.parameter
  | built method d =>
    "built faiss method" ++ part "method" (Text.quoted method) ++
      part "m" (Decimal.ofInt64 d.m) ++
      part "ef_construction" (Decimal.ofInt64 d.efConstruction) ++
      part "ef_search" (Decimal.ofInt64 d.efSearch)
  | described method description =>
    "compiled index description" ++ part "method" (Text.quoted method) ++
      part "description" description
  | compiled method space description =>
    "compiled method document" ++ part "method" (Text.quoted method) ++
      part "space" space.name ++ part "index_description" description
  | inUse d => "Using defaults: " ++ d.display

end Event

/-! ## Checking -/

mutual

/-- The events of checking a selection. -/
def Component.journal : Component → Selection → List Event
  | .mk name parameters template training, s =>
    journalAll parameters s ++
      match Component.validate (.mk name parameters template training) s with
      | .ok v => [.validated name v.entries.length]
      | .error _ => []

/-- The events of checking parameters in their order. -/
def journalAll : List Parameter → Selection → List Event
  | [], _ => []
  | p :: rest, s =>
    p.journal (s.settingFor p) ++
      if p.accepts (s.settingFor p) then journalAll rest s else []

/-- The events of checking a setting. -/
def Parameter.journal : Parameter → Setting → List Event
  | .choice name _ alternatives, .component selected settings =>
    .resolving name (.component selected settings) ::
      journalIn alternatives ⟨selected, settings⟩
  | p, v => [.resolving p.name v]

/-- The events of checking a selection by the first of `alternatives` that has
its name. -/
def journalIn : List Component → Selection → List Event
  | [], _ => []
  | c :: rest, s => if c.name == s.name then c.journal s else journalIn rest s

end

/-! ## Building the method -/

/-- The events of building a parameter: its default is checked. -/
def Parameter.buildJournal (p : Parameter) : List Event :=
  p.journal p.default

/-- The events of building an encoder. -/
def Encoder.journal (e : Encoder) : List Event :=
  match e.component with
  | .ok c => c.parameters.flatMap Parameter.buildJournal
  | .error _ => []

namespace Hnsw

/-- The events of building integer parameters in turn, then `after` unless one
of them is refused. -/
def knobsJournal : List (String × Int64) → List Event → List Event
  | [], after => after
  | (name, default) :: rest, after =>
    .resolving name (.integer default) ::
      match knob name default with
      | .ok _ => knobsJournal rest after
      | .error _ => []

/-- The events of building the choice of an encoder. -/
def encoderJournal : List Event :=
  Encoder.all.flatMap Encoder.journal ++
    match encoder with
    | .ok p => p.buildJournal
    | .error _ => []

/-- The events of building the method. -/
def journal (d : Defaults) : List Event :=
  knobsJournal
    [("m", d.m), ("ef_construction", d.efConstruction), ("ef_search", d.efSearch)]
    (encoderJournal ++ [.built name d])

end Hnsw

/-! ## Compiling -/

/-- The events of describing checked values. -/
def Method.describeJournal (m : Method) (v : Values) : List Event :=
  (m.component.gaps v).map .gap ++ [.described m.name (m.description v)]

/-- The events of compiling a definition. The settings are looked at only if
the method has the right name and supports the space. -/
def Definition.journal (d : Definition) (m : Method) : List Event :=
  if d.name ≠ m.name ∨ ¬m.spaces.contains d.effectiveSpace then []
  else
    m.component.journal d.selection ++
      match m.validate d.selection with
      | .error _ => []
      | .ok v =>
        m.describeJournal v ++ [.compiled m.name d.effectiveSpace (m.description v)]

end VectorIndex
