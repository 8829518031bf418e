import VectorIndex.File
import VectorIndex.Schema.Builder
import VectorIndex.Space.Json

/-!
# Failures

Everything that can go wrong between a definition and its compiled form.
-/

namespace VectorIndex

/-- Why a definition does not compile. -/
inductive Failure where
  | defect (d : Defect)
  | violation (v : Violation)
  | unknownMethod (name : String)
  | unsupportedSpace (method : String) (space : Space)
  | unknownSpace (name : String)
  | file (problem : FileProblem)
  | unreadable (e : Json.ReadError)

namespace Failure

/-- The text of a failure. -/
def message : Failure → String
  | defect d => "Schema error: " ++ d.message
  | violation v => "Validation error: " ++ v.message
  | unknownMethod name => "Unknown method: " ++ name
  | unsupportedSpace method space =>
    "Space type '" ++ space.name ++ "' is not supported by method '" ++ method ++ "'"
  | unknownSpace name => "Unknown space type: " ++ name
  | file problem => "IO error: " ++ problem.message
  | unreadable e => "Serialization error: " ++ e.message

/-- The text of what a failure goes back to, if it goes back to something
with a text of its own. -/
def cause? : Failure → Option String
  | defect d => some d.message
  | violation v => some v.message
  | file problem => some problem.message
  | _ => none

end Failure

/-- The space with a given name. -/
def Space.parse (name : String) : Except Failure Space :=
  match ofName? name with
  | some s => .ok s
  | none => .error (.unknownSpace name)

/-- Reads the text of a file by `shape`. -/
def File.read {α : Type} (shape : Json.Draft → Except Json.ReadError α) (f : File) :
    Except Failure α :=
  match f.text with
  | .error problem => .error (.file problem)
  | .ok text => (Json.readText shape text).mapError .unreadable

end VectorIndex
