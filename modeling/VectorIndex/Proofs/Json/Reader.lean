import VectorIndex.Json.Shape
import VectorIndex.Proofs.Json.NumberLiteral
import VectorIndex.Proofs.Json.StringLiteral

/-!
# Reading values

The reader gets to the end of a value exactly if a value of the grammar stands
there whose nesting it allows. What it has then is the draft of that value.

* `Json.draft`: a value as a draft without a fault.
* `Reader.Reads`: what it means that a function reads values up to a nesting;
  one statement for either direction. `Reader.reads_value` is the induction on
  the nesting.
* `Reader.items_succ_eq_iff`, `Reader.members_succ_eq_iff`: one turn inside an
  array or an object, from which both directions go by induction.
* `readText_eq_ok_iff`: a whole text is read by a shape exactly if it spells a
  value that the shape takes.
* `Grammar.Text.unique`: a text spells one value at most.
-/

namespace VectorIndex.Json

/-! ## Values as drafts -/

mutual

/-- The draft of a value that has been read to its end. -/
def draft : Json → Draft
  | null => .null
  | boolean b => .boolean b
  | number n => .number n
  | string s => .string s
  | array items => .array (itemDrafts items) none
  | object members => .object (memberDrafts members) none

/-- The drafts of the items of an array. -/
def itemDrafts : List Json → List Draft
  | [] => []
  | j :: rest => j.draft :: itemDrafts rest

/-- The drafts of the members of an object. -/
def memberDrafts : List (String × Json) → List (String × Draft)
  | [] => []
  | (k, j) :: rest => (k, j.draft) :: memberDrafts rest

end

mutual

/-- The draft of a value holds that value. -/
theorem json?_draft : ∀ j : Json, j.draft.json? = .ok j
  | null | boolean _ | number _ | string _ => rfl
  | array items => by
    rw [draft, Draft.json?, itemsJson?_itemDrafts]
    rfl
  | object members => by
    rw [draft, Draft.json?, membersJson?_memberDrafts]
    rfl

theorem itemsJson?_itemDrafts : ∀ items : List Json,
    Draft.itemsJson? (itemDrafts items) = .ok items
  | [] => rfl
  | j :: rest => by
    rw [itemDrafts, Draft.itemsJson?, json?_draft j, itemsJson?_itemDrafts rest]
    rfl

theorem membersJson?_memberDrafts : ∀ members : List (String × Json),
    Draft.membersJson? (memberDrafts members) = .ok members
  | [] => rfl
  | (k, j) :: rest => by
    rw [memberDrafts, Draft.membersJson?, json?_draft j, membersJson?_memberDrafts rest]
    rfl

end

/-- Different values have different drafts. -/
theorem draft_injective {i j : Json} (h : i.draft = j.draft) : i = j := by
  have hi := json?_draft i
  rw [h, json?_draft j] at hi
  exact (Except.ok.inj hi).symm

/-! ## Blanks -/

namespace Grammar

theorem Blanks.trans {s t u : List Char} (h : Blanks s t) (h' : Blanks t u) : Blanks s u := by
  induction h with
  | none => exact h'
  | more hc _ ih => exact .more hc (ih h')

/-- A number ends before blanks. -/
theorem Ends.of_blanks {text rest : List Char} (h : Blanks text rest) (hrest : Ends rest) :
    Ends text := by
  cases h with
  | none => exact hrest
  | @more b _ _ hb _ =>
    intro c hc
    simp only [List.head?_cons, Option.mem_def, Option.some.injEq] at hc
    subst hc
    simp only [blankCharacters, List.mem_cons, List.not_mem_nil, or_false] at hb
    rcases hb with rfl | rfl | rfl | rfl <;> decide

/-! ## Every part of a text takes characters -/

theorem Blanks.length_le {text rest : List Char} (h : Blanks text rest) :
    rest.length ≤ text.length := by
  induction h with
  | none => exact Nat.le_refl _
  | more _ _ ih => exact Nat.le_succ_of_le ih

theorem UnitEscape.length_lt {text rest : List Char} {u : Nat} (h : UnitEscape text u rest) :
    rest.length < text.length := by
  cases h with
  | mk => simp only [List.length_cons]; omega

theorem Character.length_lt {text rest : List Char} {c : Char} (h : Character text c rest) :
    rest.length < text.length := by
  cases h with
  | plain => exact Nat.lt_succ_self _
  | letter => simp only [List.length_cons]; omega
  | number hunit => exact hunit.length_lt
  | pair hlead htrail => exact Nat.lt_trans htrail.length_lt hlead.length_lt

theorem Characters.length_lt {text cs rest : List Char} (h : Characters text cs rest) :
    rest.length < text.length := by
  induction h with
  | close => exact Nat.lt_succ_self _
  | more hc _ ih => exact Nat.lt_trans ih hc.length_lt

theorem Str.length_lt {text rest : List Char} {s : String} (h : Str text s rest) :
    rest.length < text.length := by
  cases h with
  | mk hcharacters => exact Nat.lt_succ_of_lt hcharacters.length_lt

theorem Name.length_lt {text rest : List Char} {name : String} (h : Name text name rest) :
    rest.length < text.length := by
  obtain ⟨hblanks, hstr, hcolon⟩ := h
  have hbefore := hblanks.length_le
  have hname := hstr.length_lt
  have hafter := hcolon.length_le
  simp only [List.length_cons] at hafter
  omega

theorem Number.length_lt {text rest : List Char} {n : Json.Number} (h : Number text n rest) :
    rest.length < text.length := by
  obtain ⟨s, t, ht, -, rfl⟩ := NumberLiteral.exists_literal_of_number h
  cases ht with
  | mk hw hf he =>
    have hne := List.length_pos_iff.2 hw.1.1
    simp only [List.length_append]
    omega

mutual

theorem Value.length_lt {text rest : List Char} {j : Json} :
    Value text j rest → rest.length < text.length
  | .null | .true | .false => by simp only [List.length_cons]; omega
  | .number hn => hn.length_lt
  | .string hs => hs.length_lt
  | .emptyArray h | .emptyObject h => by
    have hblanks := h.length_le
    simp only [List.length_cons] at hblanks ⊢
    omega
  | .array h => by
    have hitems := Items.length_le h
    simp only [List.length_cons]
    omega
  | .object h => by
    have hmembers := Members.length_le h
    simp only [List.length_cons]
    omega

theorem Element.length_lt {text rest : List Char} {j : Json} :
    Element text j rest → rest.length < text.length
  | .mk hblanks hvalue hafter => by
    have hbefore := hblanks.length_le
    have hj := Value.length_lt hvalue
    have hrest := hafter.length_le
    omega

/-- There are no more items than characters. -/
theorem Items.length_le {text rest : List Char} {js : List Json} :
    Items text js rest → js.length + rest.length ≤ text.length
  | .last helement => by
    have hj := Element.length_lt helement
    simp only [List.length_cons, List.length_nil] at hj ⊢
    omega
  | .more helement hitems => by
    have hj := Element.length_lt helement
    have hmore := Items.length_le hitems
    simp only [List.length_cons] at hj ⊢
    omega

/-- There are no more members than characters. -/
theorem Members.length_le {text rest : List Char} {ms : List (String × Json)} :
    Members text ms rest → ms.length + rest.length ≤ text.length
  | .last hname helement => by
    have hbefore := hname.length_lt
    have hj := Element.length_lt helement
    simp only [List.length_cons, List.length_nil] at hj ⊢
    omega
  | .more hname helement hmembers => by
    have hbefore := hname.length_lt
    have hj := Element.length_lt helement
    have hmore := Members.length_le hmembers
    simp only [List.length_cons] at hj ⊢
    omega

end

end Grammar

namespace Reader

open Grammar

theorem isBlank_eq_true_iff {c : Char} : isBlank c = true ↔ c ∈ blankCharacters := by
  simp only [isBlank, blankCharacters, Bool.or_eq_true, beq_iff_eq, List.mem_cons,
    List.not_mem_nil, or_false, or_assoc]

theorem blanks_skipBlanks (text : List Char) : Blanks text (skipBlanks text) := by
  induction text with
  | nil => exact .none
  | cons c rest ih =>
    by_cases hc : isBlank c = true
    · rw [skipBlanks, List.dropWhile_cons_of_pos hc]
      exact .more (isBlank_eq_true_iff.1 hc) ih
    · rw [skipBlanks, List.dropWhile_cons_of_neg hc]
      exact .none

theorem skipBlanks_eq_of_blanks {text rest : List Char} (h : Blanks text rest) :
    skipBlanks text = skipBlanks rest := by
  induction h with
  | none => rfl
  | more hc _ ih => rw [skipBlanks, List.dropWhile_cons_of_pos (isBlank_eq_true_iff.2 hc)]; exact ih

theorem skipBlanks_cons {c : Char} {rest : List Char} (hc : c ∉ blankCharacters) :
    skipBlanks (c :: rest) = c :: rest :=
  List.dropWhile_cons_of_neg fun h => hc (isBlank_eq_true_iff.1 h)

/-- Blanks before a character that is none are skipped up to it. -/
theorem skipBlanks_eq_cons {text rest : List Char} {c : Char} (h : Blanks text (c :: rest))
    (hc : c ∉ blankCharacters) : skipBlanks text = c :: rest := by
  rw [skipBlanks_eq_of_blanks h, skipBlanks_cons hc]

/-! ## The first character of a value -/

/-- A value starts neither with a blank nor with a closing bracket. -/
theorem exists_cons_of_value {text rest : List Char} {j : Json} (h : Value text j rest) :
    ∃ c after, text = c :: after ∧ c ∉ blankCharacters ∧ c ≠ ']' := by
  cases h with
  | null | true | false | emptyArray | array | emptyObject | object =>
    exact ⟨_, _, rfl, by decide, by decide⟩
  | string hs =>
    cases hs
    exact ⟨_, _, rfl, by decide, by decide⟩
  | number hn =>
    obtain ⟨c, after, rfl, hc⟩ := NumberLiteral.exists_cons_of_number hn
    refine ⟨c, after, rfl, fun hblank => ?_, fun hbracket => ?_⟩
    · simp only [blankCharacters, List.mem_cons, List.not_mem_nil, or_false] at hblank
      rcases hblank with rfl | rfl | rfl | rfl <;> exact absurd hc (by decide)
    · subst hbracket
      exact absurd hc (by decide)

/-- In front of items there is something other than the closing bracket, and
blanks may be dropped. -/
theorem exists_cons_of_items {text rest : List Char} {js : List Json} (h : Items text js rest) :
    ∃ c after, skipBlanks text = c :: after ∧ c ≠ ']' ∧ Items (c :: after) js rest := by
  cases h with
  | last helement =>
    obtain ⟨hblanks, hvalue, hafter⟩ := helement
    obtain ⟨c, after, rfl, hblank, hbracket⟩ := exists_cons_of_value hvalue
    exact ⟨c, after, skipBlanks_eq_cons hblanks hblank, hbracket, .last ⟨.none, hvalue, hafter⟩⟩
  | more helement hitems =>
    obtain ⟨hblanks, hvalue, hafter⟩ := helement
    obtain ⟨c, after, rfl, hblank, hbracket⟩ := exists_cons_of_value hvalue
    exact ⟨c, after, skipBlanks_eq_cons hblanks hblank, hbracket,
      .more ⟨.none, hvalue, hafter⟩ hitems⟩

/-- In front of members there is a quote, and blanks may be dropped. -/
theorem exists_quote_of_members {text rest : List Char} {ms : List (String × Json)}
    (h : Members text ms rest) :
    ∃ after, skipBlanks text = '"' :: after ∧ Members ('"' :: after) ms rest := by
  cases h with
  | last hname helement =>
    obtain ⟨hblanks, ⟨hcharacters⟩, hcolon⟩ := hname
    exact ⟨_, skipBlanks_eq_cons hblanks (by decide),
      .last ⟨.none, ⟨hcharacters⟩, hcolon⟩ helement⟩
  | more hname helement hmembers =>
    obtain ⟨hblanks, ⟨hcharacters⟩, hcolon⟩ := hname
    exact ⟨_, skipBlanks_eq_cons hblanks (by decide),
      .more ⟨.none, ⟨hcharacters⟩, hcolon⟩ helement hmembers⟩

theorem items_of_blanks {text text' rest : List Char} {js : List Json}
    (hblanks : Blanks text text') (h : Items text' js rest) : Items text js rest := by
  cases h with
  | last helement =>
    obtain ⟨hbefore, hvalue, hafter⟩ := helement
    exact .last ⟨hblanks.trans hbefore, hvalue, hafter⟩
  | more helement hitems =>
    obtain ⟨hbefore, hvalue, hafter⟩ := helement
    exact .more ⟨hblanks.trans hbefore, hvalue, hafter⟩ hitems

theorem members_of_blanks {text text' rest : List Char} {ms : List (String × Json)}
    (hblanks : Blanks text text') (h : Members text' ms rest) : Members text ms rest := by
  cases h with
  | last hname helement =>
    obtain ⟨hbefore, hstr, hcolon⟩ := hname
    exact .last ⟨hblanks.trans hbefore, hstr, hcolon⟩ helement
  | more hname helement hmembers =>
    obtain ⟨hbefore, hstr, hcolon⟩ := hname
    exact .more ⟨hblanks.trans hbefore, hstr, hcolon⟩ helement hmembers

/-! ## What reading an array or an object comes to -/

/-- The function reads the values whose nesting is `depth` at most: when it
gets to the end of a value, there is one, and it gets to the end of every
value. -/
structure Reads (inner : List Char → Reading Draft) (depth : Nat) : Prop where
  sound {text d rest} : inner text = ⟨d, some rest⟩ →
    ∃ text' j, Blanks text text' ∧ Value text' j rest ∧ j.nesting ≤ depth ∧ d = j.draft
  complete {text text' j rest} : Blanks text text' → Value text' j rest → j.nesting ≤ depth →
    Ends rest → inner text = ⟨j.draft, some rest⟩

/-- What was read after something gets to its end if the whole does. -/
theorem cons_eq_iff {α β : Type} {x : α} {more : Reading (List α × β)} {xs : List α} {b : β}
    {rest : List Char} :
    (⟨(x :: more.got.1, more.got.2), more.rest⟩ : Reading (List α × β)) =
        ⟨(xs, b), some rest⟩ ↔
      ∃ ys, more = ⟨(ys, b), some rest⟩ ∧ xs = x :: ys := by
  obtain ⟨⟨ys, c⟩, left⟩ := more
  simp only [Reading.mk.injEq, Prod.mk.injEq]
  constructor
  · intro h
    obtain ⟨⟨rfl, rfl⟩, rfl⟩ := h
    exact ⟨ys, ⟨⟨rfl, rfl⟩, rfl⟩, rfl⟩
  · intro h
    obtain ⟨zs, ⟨⟨rfl, rfl⟩, rfl⟩, rfl⟩ := h
    exact ⟨⟨rfl, rfl⟩, rfl⟩

variable {inner : List Char → Reading Draft} {depth : Nat}

/-- One turn for the items of an array: the array ends behind the item, or a
comma and more items follow. -/
theorem items_succ_eq_iff {turns : Nat} {text rest : List Char} {ds : List Draft}
    {f : Option Fault} :
    items inner (turns + 1) text = ⟨(ds, f), some rest⟩ ↔
      ∃ d left, inner text = ⟨d, some left⟩ ∧
        ((skipBlanks left = ']' :: rest ∧ ds = [d] ∧ f = none) ∨
          ∃ after c more others, skipBlanks left = ',' :: after ∧
            skipBlanks after = c :: more ∧ c ≠ ']' ∧
            items inner turns (c :: more) = ⟨(others, f), some rest⟩ ∧ ds = d :: others) := by
  rcases hitem : inner text with ⟨d, left⟩
  constructor
  · intro h
    simp only [items, hitem] at h
    cases left with
    | none => simp at h
    | some left =>
      refine ⟨d, left, rfl, ?_⟩
      simp only at h
      split at h
      · simp at h
      · next after hend =>
        simp only [Reading.mk.injEq, Prod.mk.injEq, Option.some.injEq] at h
        obtain ⟨⟨rfl, rfl⟩, rfl⟩ := h
        exact .inl ⟨hend, rfl, rfl⟩
      · next after hcomma =>
        split at h
        · simp at h
        · simp at h
        · next hnil hbracket =>
          obtain ⟨others, hmore, rfl⟩ := cons_eq_iff.1 h
          obtain ⟨c, more, hskip⟩ := List.exists_cons_of_ne_nil hnil
          have hc : c ≠ ']' := fun hc => hbracket more (hc ▸ hskip)
          exact .inr ⟨after, c, more, others, hcomma, hskip, hc, hskip ▸ hmore, rfl⟩
      · simp at h
  · intro h
    obtain ⟨_, left, ⟨⟩, h⟩ := h
    rcases h with ⟨hend, rfl, rfl⟩ | ⟨after, c, more, others, hcomma, hskip, hc, hmore, rfl⟩
    · simp [items, hitem, hend]
    · simp [items, hitem, hcomma, hskip, hc, hmore]

/-- One turn for the members of an object: a name, a colon and a value, and then
the object ends, or a comma and the quote of another name follow. -/
theorem members_succ_eq_iff {turns : Nat} {text rest : List Char}
    {ds : List (String × Draft)} {f : Option Fault} :
    members inner (turns + 1) text = ⟨(ds, f), some rest⟩ ↔
      ∃ name behind before d left, StringLiteral.read text = .ok (name, behind) ∧
        skipBlanks behind = ':' :: before ∧ inner before = ⟨d, some left⟩ ∧
        ((skipBlanks left = '\x7d' :: rest ∧ ds = [(name, d)] ∧ f = none) ∨
          ∃ after next others, skipBlanks left = ',' :: after ∧ skipBlanks after = '"' :: next ∧
            members inner turns next = ⟨(others, f), some rest⟩ ∧ ds = (name, d) :: others) := by
  constructor
  · intro h
    unfold members at h
    split at h
    · simp at h
    · next name behind hname =>
      split at h
      · simp at h
      · next before hcolon =>
        rcases hmember : inner before with ⟨d, left⟩
        simp only [hmember] at h
        cases left with
        | none => simp at h
        | some left =>
          refine ⟨name, behind, before, d, left, hname, hcolon, hmember, ?_⟩
          simp only at h
          split at h
          · simp at h
          · next after hend =>
            simp only [Reading.mk.injEq, Prod.mk.injEq, Option.some.injEq] at h
            obtain ⟨⟨rfl, rfl⟩, rfl⟩ := h
            exact .inl ⟨hend, rfl, rfl⟩
          · next after hcomma =>
            split at h
            · simp at h
            · next next hquote =>
              obtain ⟨others, hmore, rfl⟩ := cons_eq_iff.1 h
              exact .inr ⟨after, next, others, hcomma, hquote, hmore, rfl⟩
            · simp at h
            · simp at h
          · simp at h
      · simp at h
  · intro h
    obtain ⟨name, behind, before, d, left, hname, hcolon, hmember, h⟩ := h
    rcases h with ⟨hend, rfl, rfl⟩ | ⟨after, next, others, hcomma, hquote, hmore, rfl⟩
    · simp [members, hname, hcolon, hmember, hend]
    · simp [members, hname, hcolon, hmember, hcomma, hquote, hmore]

theorem items_sound (hinner : Reads inner depth) {turns : Nat} {text rest : List Char}
    {ds : List Draft} {f : Option Fault} (h : items inner turns text = ⟨(ds, f), some rest⟩) :
    ∃ js, Items text js rest ∧ itemsNesting js ≤ depth ∧ ds = itemDrafts js ∧ f = none := by
  induction turns generalizing text ds with
  | zero => simp [items] at h
  | succ turns ih =>
    obtain ⟨d, left, hitem, h⟩ := items_succ_eq_iff.1 h
    obtain ⟨text', j, hblanks, hvalue, hnesting, rfl⟩ := hinner.sound hitem
    have hleft := blanks_skipBlanks left
    rcases h with ⟨hend, rfl, rfl⟩ | ⟨after, c, more, others, hcomma, hskip, -, hmore, rfl⟩
    · rw [hend] at hleft
      exact ⟨[j], .last ⟨hblanks, hvalue, hleft⟩, by simpa [itemsNesting] using hnesting, rfl, rfl⟩
    · rw [hcomma] at hleft
      have hafter := blanks_skipBlanks after
      rw [hskip] at hafter
      obtain ⟨js, hitems, hothers, rfl, rfl⟩ := ih hmore
      exact ⟨j :: js, .more ⟨hblanks, hvalue, hleft⟩ (items_of_blanks hafter hitems),
        Nat.max_le.2 ⟨hnesting, hothers⟩, rfl, rfl⟩

theorem members_sound (hinner : Reads inner depth) {turns : Nat} {text rest : List Char}
    {ds : List (String × Draft)} {f : Option Fault}
    (h : members inner turns text = ⟨(ds, f), some rest⟩) :
    ∃ ms, Members ('"' :: text) ms rest ∧ membersNesting ms ≤ depth ∧
      ds = memberDrafts ms ∧ f = none := by
  induction turns generalizing text ds with
  | zero => simp [members] at h
  | succ turns ih =>
    obtain ⟨name, behind, before, d, left, hread, hcolon, hmember, h⟩ := members_succ_eq_iff.1 h
    obtain ⟨text', j, hblanks, hvalue, hnesting, rfl⟩ := hinner.sound hmember
    have hbehind := blanks_skipBlanks behind
    rw [hcolon] at hbehind
    have hname : Name ('"' :: text) name before :=
      .mk .none (StringLiteral.read_eq_ok_iff.1 hread) hbehind
    have hleft := blanks_skipBlanks left
    rcases h with ⟨hend, rfl, rfl⟩ | ⟨after, next, others, hcomma, hquote, hmore, rfl⟩
    · rw [hend] at hleft
      exact ⟨[(name, j)], .last hname ⟨hblanks, hvalue, hleft⟩,
        by simpa [membersNesting] using hnesting, rfl, rfl⟩
    · rw [hcomma] at hleft
      have hafter := blanks_skipBlanks after
      rw [hquote] at hafter
      obtain ⟨ms, hmembers, hothers, rfl, rfl⟩ := ih hmore
      exact ⟨(name, j) :: ms,
        .more hname ⟨hblanks, hvalue, hleft⟩ (members_of_blanks hafter hmembers),
        Nat.max_le.2 ⟨hnesting, hothers⟩, rfl, rfl⟩

/-- A character that may follow a value ends a number. -/
theorem ends_cons {c : Char} {rest : List Char} (hc : c ∈ [',', ']', '\x7d']) :
    Ends (c :: rest) := by
  intro d hd
  simp only [List.head?_cons, Option.mem_def, Option.some.injEq] at hd
  subst hd
  simp only [List.mem_cons, List.not_mem_nil, or_false] at hc
  rcases hc with rfl | rfl | rfl <;> decide

/-- From the quote that opens a name the reader gets to the value behind it. -/
theorem read_of_name {text before : List Char} {name : String}
    (h : Name ('"' :: text) name before) :
    ∃ behind, StringLiteral.read text = .ok (name, behind) ∧
      skipBlanks behind = ':' :: before := by
  obtain ⟨hblanks, hstr, hcolon⟩ := h
  cases hblanks with
  | none => exact ⟨_, StringLiteral.read_eq_ok_iff.2 hstr, skipBlanks_eq_cons hcolon (by decide)⟩
  | more hquote => exact absurd hquote (by decide)

theorem items_complete (hinner : Reads inner depth) {text rest : List Char} {js : List Json}
    (h : Items text js rest) (hnesting : itemsNesting js ≤ depth) {turns : Nat}
    (hturns : js.length ≤ turns) :
    items inner turns text = ⟨(itemDrafts js, none), some rest⟩ := by
  induction js generalizing text turns with
  | nil => cases h
  | cons j js ih =>
    obtain ⟨turns, rfl⟩ : ∃ n, turns = n + 1 := ⟨turns - 1, by simp at hturns; omega⟩
    simp only [itemsNesting, Nat.max_le] at hnesting
    cases h with
    | last helement =>
      obtain ⟨hblanks, hvalue, hafter⟩ := helement
      have hends := Ends.of_blanks hafter (ends_cons (by decide))
      have hitem := hinner.complete hblanks hvalue hnesting.1 hends
      have hend := skipBlanks_eq_cons hafter (by decide)
      exact items_succ_eq_iff.2 ⟨_, _, hitem, .inl ⟨hend, rfl, rfl⟩⟩
    | more helement hitems =>
      obtain ⟨hblanks, hvalue, hafter⟩ := helement
      have hends := Ends.of_blanks hafter (ends_cons (by decide))
      have hitem := hinner.complete hblanks hvalue hnesting.1 hends
      have hcomma := skipBlanks_eq_cons hafter (by decide)
      obtain ⟨c, more, hskip, hbracket, hitems⟩ := exists_cons_of_items hitems
      have hmore := ih hitems hnesting.2 (by simpa using hturns)
      exact items_succ_eq_iff.2
        ⟨_, _, hitem, .inr ⟨_, c, more, _, hcomma, hskip, hbracket, hmore, rfl⟩⟩

theorem members_complete (hinner : Reads inner depth) {text rest : List Char}
    {ms : List (String × Json)} (h : Members ('"' :: text) ms rest)
    (hnesting : membersNesting ms ≤ depth) {turns : Nat} (hturns : ms.length ≤ turns) :
    members inner turns text = ⟨(memberDrafts ms, none), some rest⟩ := by
  induction ms generalizing text turns with
  | nil => cases h
  | cons m ms ih =>
    obtain ⟨turns, rfl⟩ : ∃ n, turns = n + 1 := ⟨turns - 1, by simp at hturns; omega⟩
    simp only [membersNesting, Nat.max_le] at hnesting
    cases h with
    | last hname helement =>
      obtain ⟨behind, hread, hcolon⟩ := read_of_name hname
      obtain ⟨hblanks, hvalue, hafter⟩ := helement
      have hends := Ends.of_blanks hafter (ends_cons (by decide))
      have hmember := hinner.complete hblanks hvalue hnesting.1 hends
      have hend := skipBlanks_eq_cons hafter (by decide)
      exact members_succ_eq_iff.2
        ⟨_, _, _, _, _, hread, hcolon, hmember, .inl ⟨hend, rfl, rfl⟩⟩
    | more hname helement hmembers =>
      obtain ⟨behind, hread, hcolon⟩ := read_of_name hname
      obtain ⟨hblanks, hvalue, hafter⟩ := helement
      have hends := Ends.of_blanks hafter (ends_cons (by decide))
      have hmember := hinner.complete hblanks hvalue hnesting.1 hends
      have hcomma := skipBlanks_eq_cons hafter (by decide)
      obtain ⟨next, hquote, hmembers⟩ := exists_quote_of_members hmembers
      have hmore := ih hmembers hnesting.2 (by simpa using hturns)
      exact members_succ_eq_iff.2
        ⟨_, _, _, _, _, hread, hcolon, hmember, .inr ⟨_, next, _, hcomma, hquote, hmore, rfl⟩⟩

/-! ## Values -/

/-- An array or an object behind its opening character. -/
theorem array_sound (hinner : Reads inner depth) {text rest : List Char} {d : Draft}
    (h : array inner text = ⟨d, some rest⟩) :
    ∃ j, Value ('[' :: text) j rest ∧ j.nesting ≤ depth + 1 ∧ d = j.draft := by
  have hblanks := blanks_skipBlanks text
  unfold array at h
  split at h
  · simp at h
  · next after hend =>
    simp only [Reading.mk.injEq, Option.some.injEq] at h
    obtain ⟨rfl, rfl⟩ := h
    rw [hend] at hblanks
    exact ⟨.array [], .emptyArray hblanks, by simp [nesting, itemsNesting], rfl⟩
  · rcases hitems : items inner (skipBlanks text).length (skipBlanks text) with ⟨⟨ds, f⟩, left⟩
    simp only [hitems, Reading.mk.injEq] at h
    obtain ⟨rfl, rfl⟩ := h
    obtain ⟨js, hjs, hnesting, rfl, rfl⟩ := items_sound hinner hitems
    exact ⟨.array js, .array (items_of_blanks hblanks hjs), Nat.succ_le_succ hnesting, rfl⟩

theorem object_sound (hinner : Reads inner depth) {text rest : List Char} {d : Draft}
    (h : object inner text = ⟨d, some rest⟩) :
    ∃ j, Value ('\x7b' :: text) j rest ∧ j.nesting ≤ depth + 1 ∧ d = j.draft := by
  have hblanks := blanks_skipBlanks text
  unfold object at h
  split at h
  · simp at h
  · next after hend =>
    simp only [Reading.mk.injEq, Option.some.injEq] at h
    obtain ⟨rfl, rfl⟩ := h
    rw [hend] at hblanks
    exact ⟨.object [], .emptyObject hblanks, by simp [nesting, membersNesting], rfl⟩
  · next after hquote =>
    rw [hquote] at hblanks
    rcases hmembers : members inner text.length after with ⟨⟨ds, f⟩, left⟩
    simp only [hmembers, Reading.mk.injEq] at h
    obtain ⟨rfl, rfl⟩ := h
    obtain ⟨ms, hms, hnesting, rfl, rfl⟩ := members_sound hinner hmembers
    exact ⟨.object ms, .object (members_of_blanks hblanks hms), Nat.succ_le_succ hnesting, rfl⟩
  · simp at h

theorem array_complete (hinner : Reads inner depth) {text rest : List Char} {js : List Json}
    (h : Items text js rest) (hnesting : itemsNesting js ≤ depth) :
    array inner text = ⟨(Json.array js).draft, some rest⟩ := by
  obtain ⟨c, after, hskip, hbracket, hitems⟩ := exists_cons_of_items h
  have hturns : js.length ≤ (c :: after).length :=
    Nat.le_trans (Nat.le_add_right _ _) hitems.length_le
  have hread := items_complete hinner hitems hnesting hturns
  unfold array
  rw [hskip]
  split
  · next hnil => cases hnil
  · next hend =>
    cases hend
    exact absurd rfl hbracket
  · rw [hread]
    rfl

theorem object_complete (hinner : Reads inner depth) {text rest : List Char}
    {ms : List (String × Json)} (h : Members text ms rest)
    (hnesting : membersNesting ms ≤ depth) :
    object inner text = ⟨(Json.object ms).draft, some rest⟩ := by
  obtain ⟨after, hskip, hmembers⟩ := exists_quote_of_members h
  have hturns : ms.length ≤ text.length := Nat.le_trans (Nat.le_add_right _ _) h.length_le
  have hread := members_complete hinner hmembers hnesting hturns
  simp [object, hskip, hread, draft]

theorem word_eq_iff {letters text rest : List Char} {first : Char} {meaning d : Draft} :
    word letters first meaning text = ⟨d, some rest⟩ ↔ text = letters ++ rest ∧ d = meaning := by
  induction letters generalizing text with
  | nil => simp [word, and_comm, eq_comm]
  | cons l letters ih =>
    cases text with
    | nil => simp [word, stop]
    | cons c text =>
      unfold word
      by_cases hc : l = c
      · simp [hc, ih]
      · simp [hc, stop, eq_comm]

theorem literal_eq_iff {α : Type} {first : Char} {meaning : α → Draft}
    {read : Except Fault (α × List Char)} {d : Draft} {rest : List Char} :
    literal first meaning read = ⟨d, some rest⟩ ↔
      ∃ x, read = .ok (x, rest) ∧ d = meaning x := by
  cases read with
  | error f => simp [literal, stop]
  | ok got =>
    obtain ⟨x, left⟩ := got
    simp only [literal, Reading.mk.injEq, Option.some.injEq, Except.ok.injEq, Prod.mk.injEq]
    constructor
    · intro h
      obtain ⟨rfl, rfl⟩ := h
      exact ⟨x, ⟨rfl, rfl⟩, rfl⟩
    · intro h
      obtain ⟨y, ⟨rfl, rfl⟩, rfl⟩ := h
      exact ⟨rfl, rfl⟩

/-- The function with which the inside of arrays and objects is read, and the
nesting that may then be read with it. -/
inductive Opens : Option (List Char → Reading Draft) → Nat → Prop where
  | none : Opens none 0
  | some {reader limit} : Reads reader limit → Opens (some reader) (limit + 1)

theorem valueWith_sound {opened : Option (List Char → Reading Draft)} (hopened : Opens opened depth)
    {text rest : List Char} {d : Draft} (h : valueWith opened text = ⟨d, some rest⟩) :
    ∃ text' j, Blanks text text' ∧ Value text' j rest ∧ j.nesting ≤ depth ∧ d = j.draft := by
  have hblanks := blanks_skipBlanks text
  refine ⟨skipBlanks text, ?_⟩
  unfold valueWith at h
  split at h
  · simp at h
  · next after hn =>
    obtain ⟨rfl, rfl⟩ := word_eq_iff.1 h
    exact ⟨.null, hblanks, by rw [hn]; exact .null, Nat.zero_le _, rfl⟩
  · next after ht =>
    obtain ⟨rfl, rfl⟩ := word_eq_iff.1 h
    exact ⟨.boolean true, hblanks, by rw [ht]; exact .true, Nat.zero_le _, rfl⟩
  · next after hf =>
    obtain ⟨rfl, rfl⟩ := word_eq_iff.1 h
    exact ⟨.boolean false, hblanks, by rw [hf]; exact .false, Nat.zero_le _, rfl⟩
  · next after hquote =>
    obtain ⟨s, hs, rfl⟩ := literal_eq_iff.1 h
    exact ⟨.string s, hblanks, by rw [hquote]; exact .string (StringLiteral.read_eq_ok_iff.1 hs),
      Nat.zero_le _, rfl⟩
  · next after hbracket =>
    cases hopened with
    | none => simp [stop] at h
    | some hinner =>
      obtain ⟨j, hj, hnesting, rfl⟩ := array_sound hinner h
      exact ⟨j, hblanks, by rw [hbracket]; exact hj, hnesting, rfl⟩
  · next after hbrace =>
    cases hopened with
    | none => simp [stop] at h
    | some hinner =>
      obtain ⟨j, hj, hnesting, rfl⟩ := object_sound hinner h
      exact ⟨j, hblanks, by rw [hbrace]; exact hj, hnesting, rfl⟩
  · next c after _ _ _ _ _ _ hc =>
    split at h
    · obtain ⟨n, hn, rfl⟩ := literal_eq_iff.1 h
      exact ⟨.number n, hblanks, by rw [hc]; exact .number (NumberLiteral.number_of_read hn),
        Nat.zero_le _, rfl⟩
    · simp [stop] at h

theorem valueWith_complete {opened : Option (List Char → Reading Draft)}
    (hopened : Opens opened depth) {text text' rest : List Char} {j : Json}
    (hblanks : Blanks text text') (h : Value text' j rest) (hnesting : j.nesting ≤ depth)
    (hrest : Ends rest) : valueWith opened text = ⟨j.draft, some rest⟩ := by
  have hskip : skipBlanks text = text' := by
    obtain ⟨c, after, rfl, hblank, -⟩ := exists_cons_of_value h
    exact skipBlanks_eq_cons hblanks hblank
  cases h with
  | null | true | false => simp [valueWith, hskip, word, draft]
  | string hs =>
    cases hs with
    | mk hcharacters =>
      have hread := StringLiteral.read_eq_ok_iff.2 (.mk hcharacters)
      simp [valueWith, hskip, hread, literal, draft]
  | number hn =>
    obtain ⟨c, after, rfl, hc⟩ := NumberLiteral.exists_cons_of_number hn
    have hread := NumberLiteral.read_of_number hn hrest
    unfold valueWith
    rw [hskip]
    split
    case h_1 hnil => cases hnil
    case h_8 hcons =>
      cases hcons
      rw [if_pos hc, hread]
      rfl
    -- no other character that opens a value is a digit or a sign
    all_goals
      next hcons =>
      cases hcons
      exact absurd hc (by decide)
  | emptyArray hend =>
    have hskip' := skipBlanks_eq_cons hend (by decide)
    cases hopened with
    | none => exact absurd hnesting (Nat.not_succ_le_zero _)
    | some => simp [valueWith, hskip, array, hskip', draft, itemDrafts]
  | array hitems =>
    cases hopened with
    | none => exact absurd hnesting (Nat.not_succ_le_zero _)
    | some hinner =>
      have hread := array_complete hinner hitems (Nat.le_of_succ_le_succ hnesting)
      simp [valueWith, hskip, hread]
  | emptyObject hend =>
    have hskip' := skipBlanks_eq_cons hend (by decide)
    cases hopened with
    | none => exact absurd hnesting (Nat.not_succ_le_zero _)
    | some => simp [valueWith, hskip, object, hskip', draft, memberDrafts]
  | object hmembers =>
    cases hopened with
    | none => exact absurd hnesting (Nat.not_succ_le_zero _)
    | some hinner =>
      have hread := object_complete hinner hmembers (Nat.le_of_succ_le_succ hnesting)
      simp [valueWith, hskip, hread]

theorem reads_value (depth : Nat) : Reads (value depth) depth := by
  induction depth with
  | zero => exact ⟨valueWith_sound .none, valueWith_complete .none⟩
  | succ depth ih => exact ⟨valueWith_sound (.some ih), valueWith_complete (.some ih)⟩

end Reader

/-! ## Texts -/

open Grammar in
/-- A text is read by a shape exactly if it spells a value, not nested too
deeply, that the shape takes. -/
theorem readText_eq_ok_iff {α : Type} {shape : Draft → Except ReadError α} {text : String} {a : α} :
    readText shape text = .ok a ↔
      ∃ j, Text text j ∧ j.nesting ≤ Reader.maxDepth ∧ shape j.draft = .ok a := by
  have hreads := Reader.reads_value Reader.maxDepth
  constructor
  · intro h
    obtain ⟨b, hshape, h⟩ := bind_eq_ok_iff.1 h
    rcases hread : Reader.value Reader.maxDepth text.toList with ⟨d, left⟩
    rw [hread] at h hshape
    split at h
    · next hleft =>
      cases h
      obtain ⟨rest, rfl, hblank⟩ := Option.map_eq_some_iff.1 hleft
      obtain ⟨text', j, hbefore, hvalue, hnesting, rfl⟩ := hreads.sound hread
      have hafter := Reader.blanks_skipBlanks rest
      rw [hblank] at hafter
      exact ⟨j, ⟨hbefore, hvalue, hafter⟩, hnesting, hshape⟩
    · exact nomatch h
  · intro h
    obtain ⟨j, ⟨hbefore, hvalue, hafter⟩, hnesting, hshape⟩ := h
    have hends : Ends [] := by simp [Ends]
    have hread := hreads.complete hbefore hvalue hnesting (Ends.of_blanks hafter hends)
    have hleft := Reader.skipBlanks_eq_of_blanks hafter
    rw [show Reader.skipBlanks [] = [] from rfl] at hleft
    simp [readText, hread, hshape, hleft, bind, Except.bind, pure, Except.pure]

/-- A text spells one value at most. -/
theorem Grammar.Text.unique {text : String} {i j : Json} (hi : Text text i) (hj : Text text j) :
    i = j := by
  -- a reader that may go deep enough for both of them comes to the draft of either
  have hreads := Reader.reads_value (max i.nesting j.nesting)
  have hends : Ends [] := by simp [Ends]
  obtain ⟨hbefore, hvalue, hafter⟩ := hi
  obtain ⟨hbefore', hvalue', hafter'⟩ := hj
  have hread := hreads.complete hbefore hvalue (Nat.le_max_left _ _) (Ends.of_blanks hafter hends)
  rw [hreads.complete hbefore' hvalue' (Nat.le_max_right _ _) (Ends.of_blanks hafter' hends)]
    at hread
  exact (draft_injective (Reader.Reading.mk.inj hread).1).symm

open Grammar in
/-- A shape takes a text that spells a value if it takes that value, unless the
value is nested too deeply. -/
theorem readText_eq_ok_iff_of_text {α : Type} {shape : Draft → Except ReadError α} {text : String}
    {j : Json} {a : α} (htext : Text text j) :
    readText shape text = .ok a ↔ j.nesting ≤ Reader.maxDepth ∧ shape j.draft = .ok a := by
  rw [readText_eq_ok_iff]
  constructor
  · intro h
    obtain ⟨i, hi, hnesting, hshape⟩ := h
    rw [hi.unique htext] at hnesting hshape
    exact ⟨hnesting, hshape⟩
  · intro h
    exact ⟨j, htext, h⟩

end VectorIndex.Json
