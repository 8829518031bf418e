import Mathlib.Algebra.Group.Int.Defs
import VectorIndex.Json.Printer
import VectorIndex.Proofs.Json.Reader

/-!
# Written texts spell their value

The compact text of a value whose numbers are all exact integers is a text of
that value in the grammar (`text_compact`), and so is the indented text
(`text_pretty`). So reading gives back what was written, as far as the nesting
allows.

* `Json.Exact`: the values that are written exactly.
* `whole_ofNat`, `value_ofNat`: decimal digits.
* `number_ofInt`, `str_write`, `value_chars`: numbers, strings and values.
* `blanks_newLine`, `value_prettyChars`: the same with the blanks of the indented
  text.
* `Json.ofText`: reading a text as a value of no particular shape.
-/

namespace VectorIndex.Json

open Grammar

/-! ## Numbers -/

/-- The digits of a number are read back as that number. -/
theorem value_ofNat (n : Nat) : Decimal.value (Decimal.ofNat n) = n := by
  have h := Nat.ofDigitChars_ten_toDigits (n := n)
  rw [Nat.ofDigitChars_eq_foldl] at h
  exact h

/-- No zero stands in front of other digits. -/
theorem ofNat_leading_zero {n : Nat} {rest : List Char} (h : Decimal.ofNat n = '0' :: rest) :
    rest = [] := by
  induction n using Nat.strongRecOn generalizing rest with
  | ind n ih =>
    rw [Decimal.ofNat, Nat.toDigits_eq_if (by decide)] at h
    split at h
    · exact (List.cons.inj h).2.symm
    · next hn =>
      -- the digits in front of the last are those of a smaller number, and not zero
      cases hfront : Decimal.ofNat (n / 10) with
      | nil => exact absurd hfront Nat.toDigits_ne_nil
      | cons c front =>
        rw [← Decimal.ofNat, hfront, List.cons_append, List.cons.injEq] at h
        obtain ⟨rfl, -⟩ := h
        have hzero := value_ofNat (n / 10)
        rw [hfront, ih (n / 10) (by omega) hfront, show Decimal.value ['0'] = 0 from rfl] at hzero
        omega

theorem whole_ofNat (n : Nat) : Whole (Decimal.ofNat n) := by
  refine ⟨⟨Nat.toDigits_ne_nil, fun c hc => ?_⟩, fun rest => ofNat_leading_zero⟩
  exact Nat.isDigit_of_mem_toDigits (by decide) (by decide) hc

/-- The text of an integer that fits 64 bits is a literal of it. -/
theorem number_ofInt {n : Int} (hlow : -2 ^ 63 ≤ n) (hhigh : n < 2 ^ 64) (rest : List Char) :
    Grammar.Number (Decimal.ofInt n ++ rest) (.integer n) rest := by
  have hw := whole_ofNat n.natAbs
  have hvalue := value_ofNat n.natAbs
  unfold Decimal.ofInt
  split
  · next hn =>
    have hnumber : Grammar.Number ('-' :: (Decimal.ofNat n.natAbs ++ rest)) _ rest :=
      .negative hw (by omega) (by omega)
    rwa [hvalue, Int.ofNat_natAbs_of_nonpos (by omega), Int.neg_neg] at hnumber
  · next hn =>
    have hnumber : Grammar.Number (Decimal.ofNat n.natAbs ++ rest) _ rest :=
      .natural hw (by omega)
    rwa [hvalue, Int.natAbs_of_nonneg (by omega)] at hnumber

/-! ## Values that are written exactly -/

mutual

/-- Every number in the value is an integer that fits 64 bits. -/
def Exact : Json → Prop
  | null | boolean _ | string _ => True
  | number (.integer n) => -2 ^ 63 ≤ n ∧ n < 2 ^ 64
  | number (.real _) => False
  | array items => ItemsExact items
  | object members => MembersExact members

/-- Every item is exact. -/
def ItemsExact : List Json → Prop
  | [] => True
  | j :: rest => j.Exact ∧ ItemsExact rest

/-- Every member is exact. -/
def MembersExact : List (String × Json) → Prop
  | [] => True
  | (_, j) :: rest => j.Exact ∧ MembersExact rest

end

/-- What is written for a string is a literal of it. -/
theorem str_write (s : String) (rest : List Char) : Str (StringLiteral.write s ++ rest) s rest := by
  have hread := StringLiteral.read_eq_ok_iff.1 (StringLiteral.read_write s rest)
  simpa [StringLiteral.write] using hread

theorem name_write (name : String) (rest : List Char) :
    Name (StringLiteral.write name ++ ':' :: rest) name rest :=
  .mk .none (str_write name _) .none

mutual

/-- The compact text of an exact value spells it. -/
theorem value_chars : ∀ j : Json, j.Exact → ∀ rest, Value (j.chars ++ rest) j rest
  | null, _, _ => .null
  | boolean true, _, _ => .true
  | boolean false, _, _ => .false
  | number (.integer n), h, rest => .number (number_ofInt h.1 h.2 rest)
  | number (.real _), h, _ => h.elim
  | string s, _, rest => .string (str_write s rest)
  | array [], _, _ => .emptyArray .none
  | array (j :: items), h, rest => by
    have hj := value_chars j h.1 (itemsChars items ++ rest)
    have hitems := items_chars items h.2 hj
    simpa [chars] using Value.array hitems
  | object [], _, _ => .emptyObject .none
  | object ((name, j) :: members), h, rest => by
    have hj := value_chars j h.1 (membersChars members ++ rest)
    have hmembers := members_chars members h.2 (name_write name _) hj
    simpa [chars] using Value.object hmembers

/-- An item and the text behind it. -/
theorem items_chars : ∀ items : List Json, ItemsExact items →
    ∀ {j : Json} {text rest : List Char}, Value text j (itemsChars items ++ rest) →
      Items text (j :: items) rest
  | [], _, _, _, _, hj => .last (.mk .none hj .none)
  | i :: items, h, j, text, rest, hj => by
    have hi := value_chars i h.1 (itemsChars items ++ rest)
    have hitems := items_chars items h.2 hi
    refine .more (.mk .none ?_ .none) hitems
    simpa [itemsChars] using hj

/-- A member and the text behind it. -/
theorem members_chars : ∀ members : List (String × Json), MembersExact members →
    ∀ {name : String} {j : Json} {text text' rest : List Char}, Name text name text' →
      Value text' j (membersChars members ++ rest) → Members text ((name, j) :: members) rest
  | [], _, _, _, _, _, _, hname, hj => .last hname (.mk .none hj .none)
  | (other, i) :: members, h, name, j, text, text', rest, hname, hj => by
    have hi := value_chars i h.1 (membersChars members ++ rest)
    have hmembers := members_chars members h.2 (name_write other _) hi
    refine .more hname (.mk .none ?_ .none) hmembers
    simpa [membersChars] using hj

end

/-- The compact text of an exact value is a text of it. -/
theorem text_compact {j : Json} (h : j.Exact) : Text j.compact j := by
  have hvalue := value_chars j h []
  rw [List.append_nil] at hvalue
  rw [Text, compact, String.toList_ofList]
  exact .mk .none hvalue .none

/-! ## Indented texts -/

/-- A new line and its indentation are blanks. -/
theorem blanks_newLine (depth : Nat) (rest : List Char) : Blanks (newLine depth ++ rest) rest := by
  have hindent : ∀ n, Blanks (List.replicate n ' ' ++ rest) rest := by
    intro n
    induction n with
    | zero => exact .none
    | succ n ih => exact .more (by decide) ih
  exact .more (by decide) (hindent (2 * depth))

mutual

/-- The indented text of an exact value spells it. -/
theorem value_prettyChars : ∀ (j : Json) (depth : Nat), j.Exact → ∀ rest,
    Value (j.prettyChars depth ++ rest) j rest
  | null, _, _, _ => .null
  | boolean true, _, _, _ => .true
  | boolean false, _, _, _ => .false
  | number (.integer n), _, h, rest => .number (number_ofInt h.1 h.2 rest)
  | number (.real _), _, h, _ => h.elim
  | string s, _, _, rest => .string (str_write s rest)
  | array [], _, _, _ => .emptyArray .none
  | array (j :: items), depth, h, rest => by
    have hj := value_prettyChars j (depth + 1) h.1 (prettyItems depth items ++ rest)
    have hitems := items_prettyItems items depth h.2 hj
    simpa [prettyChars] using Value.array hitems
  | object [], _, _, _ => .emptyObject .none
  | object ((name, j) :: members), depth, h, rest => by
    have hj := value_prettyChars j (depth + 1) h.1 (prettyMembers depth members ++ rest)
    have hmembers := members_prettyMembers members depth h.2 name hj
    simpa [prettyChars] using Value.object hmembers

/-- An item on a line of its own and the text behind it. -/
theorem items_prettyItems : ∀ (items : List Json) (depth : Nat), ItemsExact items →
    ∀ {j : Json} {text rest : List Char}, Value text j (prettyItems depth items ++ rest) →
      Items (newLine (depth + 1) ++ text) (j :: items) rest
  | [], depth, _, j, text, rest, hj => by
    have hclose : Value text j (newLine depth ++ ']' :: rest) := by
      simpa [prettyItems] using hj
    exact .last (.mk (blanks_newLine _ _) hclose (blanks_newLine _ _))
  | i :: items, depth, h, j, text, rest, hj => by
    have hi := value_prettyChars i (depth + 1) h.1 (prettyItems depth items ++ rest)
    have hitems := items_prettyItems items depth h.2 hi
    refine .more (.mk (blanks_newLine _ _) ?_ .none) hitems
    simpa [prettyItems] using hj

/-- A member on a line of its own and the text behind it. -/
theorem members_prettyMembers : ∀ (members : List (String × Json)) (depth : Nat),
    MembersExact members → ∀ (name : String) {j : Json} {text rest : List Char},
      Value text j (prettyMembers depth members ++ rest) →
      Members (newLine (depth + 1) ++ (StringLiteral.write name ++ ':' :: ' ' :: text))
        ((name, j) :: members) rest
  | [], depth, _, name, j, text, rest, hj => by
    have hclose : Value text j (newLine depth ++ '\x7d' :: rest) := by
      simpa [prettyMembers] using hj
    have hname := Name.mk (blanks_newLine (depth + 1) _) (str_write name (':' :: ' ' :: text)) .none
    exact .last hname (.mk (.more (by decide) .none) hclose (blanks_newLine _ _))
  | (other, i) :: members, depth, h, name, j, text, rest, hj => by
    have hi := value_prettyChars i (depth + 1) h.1 (prettyMembers depth members ++ rest)
    have hmembers := members_prettyMembers members depth h.2 other hi
    have hname := Name.mk (blanks_newLine (depth + 1) _) (str_write name (':' :: ' ' :: text)) .none
    refine .more hname (.mk (.more (by decide) .none) ?_ .none) hmembers
    simpa [prettyMembers] using hj

end

/-- The indented text of an exact value, with a new line behind it, is a text of it. -/
theorem text_pretty {j : Json} (h : j.Exact) : Text (j.pretty ++ "\n") j := by
  have hvalue := value_prettyChars j 0 h ['\n']
  rw [Text, pretty, String.toList_append, String.toList_ofList]
  exact .mk .none hvalue (.more (by decide) .none)

/-- Reads a whole text as a value. -/
def ofText (text : String) : Except ReadError Json :=
  readText (fun d => d.json?.mapError .fault) text

/-- The text of a value that is not nested too deeply is read as that value. -/
theorem ofText_of_text {text : String} {j : Json} (htext : Text text j)
    (hnesting : j.nesting ≤ Reader.maxDepth) : ofText text = .ok j := by
  refine (readText_eq_ok_iff_of_text htext).2 ⟨hnesting, ?_⟩
  rw [json?_draft]
  rfl

end VectorIndex.Json
