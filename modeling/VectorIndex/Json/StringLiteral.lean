import VectorIndex.Json.Fault

/-!
# String literals

* `escape`, `write`: a string as it stands between quotes.
* `read`: the string behind an opening quote, and the text after its closing
  quote.

Only quote, backslash and control characters are escaped in writing; every
escape of the JSON standard is understood in reading. Characters outside the
basic plane may be given as a pair of surrogates, and a surrogate that is not
part of such a pair is a fault.

Reading undoes writing (`read_write`).
-/

namespace VectorIndex.Json.StringLiteral

/-- The hexadecimal digit of `n < 16`, in lower case. -/
def hexDigit (n : Nat) : Char :=
  if n < 10 then Char.ofNat ('0'.toNat + n) else Char.ofNat ('a'.toNat + (n - 10))

/-- One character between quotes. -/
def escape (c : Char) : List Char :=
  match c with
  | '"' => ['\\', '"']
  | '\\' => ['\\', '\\']
  | '\x08' => ['\\', 'b']
  | '\x0c' => ['\\', 'f']
  | '\n' => ['\\', 'n']
  | '\r' => ['\\', 'r']
  | '\t' => ['\\', 't']
  | c =>
    if c.toNat < 0x20 then
      ['\\', 'u', '0', '0', hexDigit (c.toNat / 16), hexDigit (c.toNat % 16)]
    else [c]

/-- The literal of a string. -/
def write (s : String) : List Char :=
  '"' :: s.toList.flatMap escape ++ ['"']

/-- The number a hexadecimal digit stands for. -/
def hexValue? (c : Char) : Option Nat :=
  if '0' ≤ c ∧ c ≤ '9' then some (c.toNat - '0'.toNat)
  else if 'a' ≤ c ∧ c ≤ 'f' then some (c.toNat - 'a'.toNat + 10)
  else if 'A' ≤ c ∧ c ≤ 'F' then some (c.toNat - 'A'.toNat + 10)
  else none

/-- The 16-bit unit four hexadecimal digits stand for. -/
def unit? (a b c d : Char) : Option Nat := do
  let a ← hexValue? a
  let b ← hexValue? b
  let c ← hexValue? c
  let d ← hexValue? d
  return ((a * 16 + b) * 16 + c) * 16 + d

/-- The unit opens a surrogate pair. -/
def leads (u : Nat) : Bool :=
  0xd800 ≤ u && u ≤ 0xdbff

/-- The unit closes a surrogate pair. -/
def trails (u : Nat) : Bool :=
  0xdc00 ≤ u && u ≤ 0xdfff

/-- The character a surrogate pair stands for. -/
def pair (lead trail : Nat) : Char :=
  Char.ofNat ((lead - 0xd800) * 0x400 + (trail - 0xdc00) + 0x10000)

/-- Why `text` does not go on with four hexadecimal digits: it is too short
for them, counted in bytes, or they are something else. -/
def unitFault (text : List Char) : Fault :=
  if (String.ofList text).utf8ByteSize < 4 then .endInString else .invalidEscape

/-- Why `text` does not go on with the escape that closes a surrogate pair. -/
def pairFault (text : List Char) : Fault :=
  match text with
  | [] | ['\\'] => .endInString
  | '\\' :: 'u' :: rest => unitFault rest
  | _ => .missingSurrogate

/-- The character a one-letter escape stands for. -/
def shortEscape? (c : Char) : Option Char :=
  match c with
  | '"' => some '"'
  | '\\' => some '\\'
  | '/' => some '/'
  | 'b' => some '\x08'
  | 'f' => some '\x0c'
  | 'n' => some '\n'
  | 'r' => some '\r'
  | 't' => some '\t'
  | _ => none

/-- Adds a character in front of what was read after it. -/
def push (c : Char) (read : Except Fault (List Char × List Char)) :
    Except Fault (List Char × List Char) :=
  read.map fun (s, rest) => (c :: s, rest)

/-- The characters up to the closing quote, and the text after it. -/
def body : List Char → Except Fault (List Char × List Char)
  | [] => .error .endInString
  | '"' :: rest => .ok ([], rest)
  | '\\' :: [] => .error .endInString
  | '\\' :: 'u' :: a :: b :: c :: d :: rest =>
    match unit? a b c d with
    | none => .error .invalidEscape
    | some u =>
      if trails u then .error .loneSurrogate
      else if leads u then
        match rest with
        | '\\' :: 'u' :: a :: b :: c :: d :: rest =>
          match unit? a b c d with
          | none => .error .invalidEscape
          | some v => if trails v then push (pair u v) (body rest) else .error .loneSurrogate
        | rest => .error (pairFault rest)
      else push (Char.ofNat u) (body rest)
  | '\\' :: 'u' :: rest => .error (unitFault rest)
  | '\\' :: c :: rest =>
    match shortEscape? c with
    | none => .error .invalidEscape
    | some c => push c (body rest)
  | c :: rest => if c.toNat < 0x20 then .error .controlCharacter else push c (body rest)

/-- Reads a string from behind its opening quote. -/
def read (text : List Char) : Except Fault (String × List Char) :=
  (body text).map fun (s, rest) => (String.ofList s, rest)

/-! ## Reading what was written -/

theorem hexValue?_hexDigit : ∀ n < 16, hexValue? (hexDigit n) = some n := by
  decide

/-- The unit of a control character reads back as its code. -/
theorem unit?_control {n : Nat} (h : n < 0x20) :
    unit? '0' '0' (hexDigit (n / 16)) (hexDigit (n % 16)) = some n := by
  have zero : hexValue? '0' = some 0 := by decide
  simp only [unit?, zero, hexValue?_hexDigit (n / 16) (by omega),
    hexValue?_hexDigit (n % 16) (by omega), Option.bind_eq_bind, Option.bind_some, Option.pure_def]
  congr 1
  omega

theorem body_cons {c : Char} (quote : c ≠ '"') (backslash : c ≠ '\\') (rest : List Char) :
    body (c :: rest) =
      if c.toNat < 0x20 then .error .controlCharacter else push c (body rest) := by
  rw [body.eq_def]
  split <;> simp_all

/-- Reading undoes the escape of one character. -/
theorem body_escape (c : Char) (rest : List Char) :
    body (escape c ++ rest) = push c (body rest) := by
  unfold escape
  split
  case h_8 =>
    split
    · next hc =>
      have notTrail : trails c.toNat = false := by simp [trails]; omega
      have notLead : leads c.toNat = false := by simp [leads]; omega
      simp [body, unit?_control hc, notTrail, notLead]
    · next hc =>
      rw [List.singleton_append, body_cons (by assumption) (by assumption), if_neg hc]
  all_goals simp [body, shortEscape?]

/-- Reading undoes writing: a literal, from behind its opening quote, gives
its string and leaves the text after it. -/
theorem read_write (s : String) (rest : List Char) :
    read (s.toList.flatMap escape ++ '"' :: rest) = .ok (s, rest) := by
  have body_flatMap : ∀ cs : List Char,
      body (cs.flatMap escape ++ '"' :: rest) = .ok (cs, rest) := by
    intro cs
    induction cs with
    | nil => simp [body]
    | cons c cs ih => simp [List.append_assoc, body_escape, ih, push, Except.map]
  simp [read, body_flatMap, Except.map]

end VectorIndex.Json.StringLiteral
