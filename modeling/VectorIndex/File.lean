/-!
# Files

The content of a file, and why a text cannot be had from it.
-/

namespace VectorIndex

/-- Why no text can be had from a file. -/
inductive FileProblem where
  | missing
  | directory
  | notDirectory
  | nameTooLong
  | notText
  | other (message : String)
deriving DecidableEq

/-- The text of a file problem. -/
def FileProblem.message : FileProblem → String
  | missing => "No such file or directory (os error 2)"
  | directory => "Is a directory (os error 21)"
  | notDirectory => "Not a directory (os error 20)"
  | nameTooLong => "File name too long (os error 36)"
  | notText => "stream did not contain valid UTF-8"
  | other message => message

/-- What stands at a path. -/
inductive File where
  | bytes (content : ByteArray)
  | unavailable (problem : FileProblem)

/-- The text in a file; its bytes have to be UTF-8. -/
def File.text : File → Except FileProblem String
  | bytes content =>
    match String.fromUTF8? content with
    | some text => .ok text
    | none => .error .notText
  | unavailable problem => .error problem

/-- A file that holds a text. -/
def File.ofText (text : String) : File :=
  .bytes text.toUTF8

end VectorIndex
