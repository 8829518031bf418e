import VectorIndex.Failure

/-!
# Actions

What a program does while it runs: it prints, and it may fail.

* `Report`: how a failure is told, with what it goes back to.
* `Action`: the lines that have been printed when an action ends, and how it ends.
* `Action.ofExcept`, `printLine`: the actions that others are made of.
-/

namespace VectorIndex.CommandLine

/-! ## Reports -/

/-- A failure, and what it goes back to, step by step. -/
structure Report where
  message : String
  causes : List String
deriving DecidableEq

namespace Report

/-- A failure as it is. -/
def ofFailure (f : Failure) : Report :=
  ⟨f.message, f.cause?.toList⟩

/-- A failure in doing something that has a name of its own. -/
def within (doing : String) (f : Failure) : Report :=
  ⟨doing, f.message :: f.cause?.toList⟩

/-- The lines of a text, the first behind `first`, the others behind
`other`. -/
def indent (first other : String) (text : String) : List Char :=
  first.toList ++ text.toList.flatMap fun c => if c = '\n' then '\n' :: other.toList else [c]

/-- Causes with their numbers, right-justified. -/
def numbered : Nat → List String → List Char
  | _, [] => []
  | n, cause :: rest =>
    let number := Decimal.ofNat n
    let margin := String.ofList (List.replicate (5 - number.length) ' ' ++ number ++ [':', ' '])
    '\n' :: indent margin "       " cause ++ numbered (n + 1) rest

/-- The text of a report. Several causes are numbered. -/
def text (r : Report) : String :=
  "Error: " ++ r.message ++
    match r.causes with
    | [] => ""
    | [cause] => "\n\nCaused by:\n" ++ String.ofList (indent "    " "    " cause)
    | causes => "\n\nCaused by:" ++ String.ofList (numbered 0 causes)

end Report

/-! ## Actions -/

/-- An action that prints lines and may fail. What is printed stays printed, whether or not
the action fails later on. -/
structure Action (α : Type) where
  lines : List String
  result : Except Report α

namespace Action

variable {α β : Type}

/-- One action and then, unless it fails, another. -/
protected def bind (x : Action α) (f : α → Action β) : Action β :=
  match x.result with
  | .ok a =>
    let y := f a
    ⟨x.lines ++ y.lines, y.result⟩
  | .error r => ⟨x.lines, .error r⟩

instance : Monad Action where
  pure a := ⟨[], .ok a⟩
  bind := Action.bind

/-- A step that prints nothing. -/
def ofExcept (step : Except Report α) : Action α :=
  ⟨[], step⟩

/-- What has been printed. -/
def text (x : Action α) : String :=
  String.join (x.lines.map (· ++ "\n"))

end Action

/-- Prints a line. -/
def printLine (line : String) : Action Unit :=
  ⟨[line], .ok ()⟩

end VectorIndex.CommandLine
