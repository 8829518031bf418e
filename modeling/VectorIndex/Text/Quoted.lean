import VectorIndex.Text.Extending
import VectorIndex.Text.Unprintable

/-!
# Quoted text

Text between double quotes in which every character can be told apart when it
is printed. Tab, line feed, carriage return and the null character have short
escapes, quote and backslash stand behind a backslash, and a character that
prints nothing of its own or is drawn onto its neighbour is written as its
code point in hexadecimal.
-/

namespace VectorIndex.Text

/-- The escape `\u`, then the code point between braces. -/
def codePoint (c : Char) : List Char :=
  ['\\', 'u', '{'] ++ Nat.toDigits 16 c.toNat ++ ['}']

/-- One character of a quoted text. -/
def quotedChar (c : Char) : List Char :=
  match c with
  | '\x00' => ['\\', '0']
  | '\t' => ['\\', 't']
  | '\r' => ['\\', 'r']
  | '\n' => ['\\', 'n']
  | '\\' => ['\\', '\\']
  | '"' => ['\\', '"']
  | _ => if extending c || unprintable c then codePoint c else [c]

/-- `text` between quotes, with everything escaped that would not show. -/
def quoted (text : String) : String :=
  String.ofList ('"' :: text.toList.flatMap quotedChar ++ ['"'])

end VectorIndex.Text
