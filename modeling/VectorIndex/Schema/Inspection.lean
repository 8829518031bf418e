import VectorIndex.Schema.Basic
import VectorIndex.Text.Quoted

/-!
# Inspection

The text that shows a parameter to whoever looks into a schema: its name, its
kind, its default and the names of its alternatives. Texts are quoted.
-/

namespace VectorIndex

/-- The label of a kind. -/
def Kind.label : Kind → String
  | integer => "Integer"
  | text => "String"
  | boolean => "Boolean"
  | choice => "NestedChoice"

mutual

/-- A setting with its kind. -/
def Setting.inspect : Setting → String
  | .boolean b => "Boolean(" ++ Setting.wordOf b ++ ")"
  | .integer n => "Integer(" ++ Decimal.ofInt64 n ++ ")"
  | .text s => "String(" ++ Text.quoted s ++ ")"
  | .component name settings =>
    "Context(MethodComponentContext \x7b name: " ++ Text.quoted name ++
      ", parameters: \x7b" ++ inspectSettings settings ++ "\x7d \x7d)"

/-- Named settings, separated by commas. -/
def inspectSettings : List (String × Setting) → String
  | [] => ""
  | [(k, v)] => Text.quoted k ++ ": " ++ v.inspect
  | (k, v) :: rest => Text.quoted k ++ ": " ++ v.inspect ++ ", " ++ inspectSettings rest

end

/-- A parameter with its kind and default, and the alternatives of a choice. -/
def Parameter.inspect (p : Parameter) : String :=
  "Parameter \x7b name: " ++ Text.quoted p.name ++ ", kind: " ++ p.kind.label ++
    ", default: " ++ p.default.inspect ++
    (match p with
      | .choice _ _ alternatives =>
        ", alternatives: [" ++
          ", ".intercalate (alternatives.map fun c => Text.quoted c.name) ++ "]"
      | _ => "") ++
    " \x7d"

end VectorIndex
