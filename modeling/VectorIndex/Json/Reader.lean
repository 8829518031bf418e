import VectorIndex.Json.Draft
import VectorIndex.Json.NumberLiteral
import VectorIndex.Json.StringLiteral

/-!
# From text to draft

* `value`: the value in front of a text. Its first argument says how many
  levels of arrays and objects may still be opened.
* `items`, `members`: the inside of an array and of an object.

Blanks are space, tab, line feed and carriage return.
-/

namespace VectorIndex.Json.Reader

/-- What was read, and the text after it unless reading stopped at a fault. -/
structure Reading (α : Type) where
  got : α
  rest : Option (List Char)

/-- A blank between tokens. -/
def isBlank (c : Char) : Bool :=
  c == ' ' || c == '\n' || c == '\t' || c == '\r'

/-- The text without the blanks in front. -/
def skipBlanks (text : List Char) : List Char :=
  text.dropWhile isBlank

/-- A value that starts with `first` and cannot be read. -/
def stop (fault : Fault) (first : Char) : Reading Draft :=
  ⟨.broken fault (some first), none⟩

/-- The rest of a word, letter by letter. -/
def word (letters : List Char) (first : Char) (meaning : Draft) : List Char → Reading Draft
  | text =>
    match letters, text with
    | [], text => ⟨meaning, some text⟩
    | _ :: _, [] => stop .endInValue first
    | l :: letters, c :: text =>
      if l = c then word letters first meaning text else stop .expectedWord first

/-- A literal read by `read`, starting with `first`. -/
def literal {α : Type} (first : Char) (meaning : α → Draft)
    (read : Except Fault (α × List Char)) : Reading Draft :=
  match read with
  | .ok (x, rest) => ⟨meaning x, some rest⟩
  | .error f => stop f first

/-- The items of an array that begins with an item, each read by `inner`, and
the fault that ends them. There are fewer items than characters, so the length
of the text bounds the number of turns. -/
def items (inner : List Char → Reading Draft) :
    Nat → List Char → Reading (List Draft × Option Fault)
  | 0, _ => ⟨([], some .endInValue), none⟩
  | turns + 1, text =>
    let item := inner text
    match item.rest with
    | none => ⟨([item.got], none), none⟩
    | some rest =>
      match skipBlanks rest with
      | [] => ⟨([item.got], some .endInList), none⟩
      | ']' :: rest => ⟨([item.got], none), some rest⟩
      | ',' :: rest =>
        match skipBlanks rest with
        | [] => ⟨([item.got], some .endInValue), none⟩
        | ']' :: _ => ⟨([item.got], some .trailingComma), none⟩
        | rest =>
          let more := items inner turns rest
          ⟨(item.got :: more.got.1, more.got.2), more.rest⟩
      | _ => ⟨([item.got], some .expectedListSeparator), none⟩

/-- The members of an object from behind the quote that opens the first name,
and the fault that ends them. -/
def members (inner : List Char → Reading Draft) :
    Nat → List Char → Reading (List (String × Draft) × Option Fault)
  | 0, _ => ⟨([], some .endInValue), none⟩
  | turns + 1, text =>
    match StringLiteral.read text with
    | .error f => ⟨([], some f), none⟩
    | .ok (name, rest) =>
      match skipBlanks rest with
      | [] => ⟨([(name, .broken .endInObject none)], none), none⟩
      | ':' :: rest =>
        let member := inner rest
        match member.rest with
        | none => ⟨([(name, member.got)], none), none⟩
        | some rest =>
          match skipBlanks rest with
          | [] => ⟨([(name, member.got)], some .endInObject), none⟩
          | '}' :: rest => ⟨([(name, member.got)], none), some rest⟩
          | ',' :: rest =>
            match skipBlanks rest with
            | [] => ⟨([(name, member.got)], some .endInValue), none⟩
            | '"' :: rest =>
              let more := members inner turns rest
              ⟨((name, member.got) :: more.got.1, more.got.2), more.rest⟩
            | '}' :: _ => ⟨([(name, member.got)], some .trailingComma), none⟩
            | _ => ⟨([(name, member.got)], some .keyNotString), none⟩
          | _ => ⟨([(name, member.got)], some .expectedObjectSeparator), none⟩
      | _ => ⟨([(name, .broken .expectedColon none)], none), none⟩

/-- An array from behind its bracket. -/
def array (inner : List Char → Reading Draft) (text : List Char) : Reading Draft :=
  match skipBlanks text with
  | [] => ⟨.array [] (some .endInList), none⟩
  | ']' :: rest => ⟨.array [] none, some rest⟩
  | text =>
    let read := items inner text.length text
    ⟨.array read.got.1 read.got.2, read.rest⟩

/-- An object from behind its brace. -/
def object (inner : List Char → Reading Draft) (text : List Char) : Reading Draft :=
  match skipBlanks text with
  | [] => ⟨.object [] (some .endInObject), none⟩
  | '}' :: rest => ⟨.object [] none, some rest⟩
  | '"' :: rest =>
    let read := members inner text.length rest
    ⟨.object read.got.1 read.got.2, read.rest⟩
  | _ => ⟨.object [] (some .keyNotString), none⟩

/-- The value in front of `text`, the values inside it read by `inner`; with
`none` there, no array and no object may open. -/
def valueWith (inner : Option (List Char → Reading Draft)) (text : List Char) :
    Reading Draft :=
  match skipBlanks text with
  | [] => ⟨.broken .endInValue none, none⟩
  | 'n' :: rest => word ['u', 'l', 'l'] 'n' .null rest
  | 't' :: rest => word ['r', 'u', 'e'] 't' (.boolean true) rest
  | 'f' :: rest => word ['a', 'l', 's', 'e'] 'f' (.boolean false) rest
  | '"' :: rest => literal '"' .string (StringLiteral.read rest)
  | '[' :: rest =>
    match inner with
    | none => stop .nestingLimit '['
    | some inner => array inner rest
  | '{' :: rest =>
    match inner with
    | none => stop .nestingLimit '{'
    | some inner => object inner rest
  | c :: rest =>
    if c = '-' ∨ c.isDigit then literal c .number (NumberLiteral.read (c :: rest))
    else stop .expectedValue c

/-- The value in front of `text`, with at most `depth` arrays and objects open
at a time. -/
def value : Nat → List Char → Reading Draft
  | 0 => valueWith none
  | depth + 1 => valueWith (some (value depth))

/-- How many arrays and objects may be open at a time. -/
def maxDepth : Nat := 127

end VectorIndex.Json.Reader
