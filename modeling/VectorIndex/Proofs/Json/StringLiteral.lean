import VectorIndex.Json.StringLiteral
import VectorIndex.Proofs.Json.Grammar

/-!
# Reading string literals

`StringLiteral.body` reads exactly the string literals of the grammar
(`body_eq_ok_iff`).

* `hexValue?_eq_some_iff`, `unit?_eq_some_iff`: hexadecimal digits.
* `shortEscape?_eq_some_iff`: the escapes by a letter.
* `body_of_character`: one character is read off the front. The induction over
  a literal needs no more in the direction from the grammar to the reader.
-/

namespace VectorIndex.Json.StringLiteral

open Grammar

/-! ## Hexadecimal digits -/

theorem hexDigit_lt {c : Char} {n : Nat} (h : HexDigit c n) : n < 16 := by
  rcases h with h | h
  · exact (List.getElem?_eq_some_iff.1 h).1
  · exact (List.getElem?_eq_some_iff.1 h).1

/-- Only characters of the first half of the code table are digits. -/
theorem toNat_lt_of_hexValue? {c : Char} {n : Nat} (h : hexValue? c = some n) :
    c.toNat < 128 := by
  unfold hexValue? at h
  split at h
  · next hc => exact Nat.lt_of_le_of_lt (UInt32.le_iff_toNat_le.1 hc.2) (by decide)
  · split at h
    · next hc => exact Nat.lt_of_le_of_lt (UInt32.le_iff_toNat_le.1 hc.2) (by decide)
    · split at h
      · next hc => exact Nat.lt_of_le_of_lt (UInt32.le_iff_toNat_le.1 hc.2) (by decide)
      · exact nomatch h

theorem hexDigit_of_hexValue?_ofNat :
    ∀ k < 128, ∀ n ∈ hexValue? (Char.ofNat k),
      lowerDigits[n]? = some (Char.ofNat k) ∨ upperDigits[n]? = some (Char.ofNat k) := by
  decide

theorem hexValue?_of_digits :
    ∀ n < 16, lowerDigits[n]?.bind hexValue? = some n ∧
      upperDigits[n]?.bind hexValue? = some n := by
  decide

theorem hexValue?_eq_some_iff {c : Char} {n : Nat} :
    hexValue? c = some n ↔ HexDigit c n := by
  constructor
  · intro h
    have hc : Char.ofNat c.toNat = c := Char.ofNat_toNat c
    have hdigit := hexDigit_of_hexValue?_ofNat c.toNat (toNat_lt_of_hexValue? h) n
    rw [hc] at hdigit
    exact hdigit h
  · intro h
    obtain ⟨hlower, hupper⟩ := hexValue?_of_digits n (hexDigit_lt h)
    rcases h with h | h
    · rwa [h, Option.bind_some] at hlower
    · rwa [h, Option.bind_some] at hupper

theorem unit?_eq_some_iff {a b c d : Char} {u : Nat} (rest : List Char) :
    unit? a b c d = some u ↔ UnitEscape ('\\' :: 'u' :: a :: b :: c :: d :: rest) u rest := by
  simp only [unit?, Option.bind_eq_bind, Option.bind_eq_some_iff, Option.pure_def,
    Option.some.injEq, hexValue?_eq_some_iff]
  constructor
  · intro h
    obtain ⟨i, ha, j, hb, k, hc, l, hd, rfl⟩ := h
    exact .mk ha hb hc hd (by omega)
  · intro h
    cases h with
    | @mk _ _ _ _ i j k l _ _ ha hb hc hd hu => exact ⟨i, ha, j, hb, k, hc, l, hd, by omega⟩

theorem lt_of_unitEscape {text rest : List Char} {u : Nat} (h : UnitEscape text u rest) :
    u < 0x10000 := by
  obtain ⟨ha, hb, hc, hd, hu⟩ := h
  have hi := hexDigit_lt ha
  have hj := hexDigit_lt hb
  have hk := hexDigit_lt hc
  have hl := hexDigit_lt hd
  omega

/-! ## Characters by number -/

/-- A character is not half of a surrogate pair. -/
theorem leads_toNat (c : Char) : leads c.toNat = false := by
  have hvalid : c.toNat.isValidChar := c.valid
  simp only [Nat.isValidChar] at hvalid
  simp only [leads, Bool.and_eq_false_iff, decide_eq_false_iff_not]
  omega

theorem trails_toNat (c : Char) : trails c.toNat = false := by
  have hvalid : c.toNat.isValidChar := c.valid
  simp only [Nat.isValidChar] at hvalid
  simp only [trails, Bool.and_eq_false_iff, decide_eq_false_iff_not]
  omega

theorem toNat_ofNat {n : Nat} (h : n.isValidChar) : (Char.ofNat n).toNat = n := by
  rw [Char.ofNat, dif_pos h]
  rfl

/-- A unit that is not half of a surrogate pair is the number of a character. -/
theorem toNat_ofNat_unit {u : Nat} (hlt : u < 0x10000) (hleads : leads u = false)
    (htrails : trails u = false) : (Char.ofNat u).toNat = u := by
  apply toNat_ofNat
  simp only [leads, trails, Bool.and_eq_false_iff, decide_eq_false_iff_not] at hleads htrails
  simp only [Nat.isValidChar]
  omega

theorem leads_eq_true_iff {u : Nat} : leads u = true ↔ 0xd800 ≤ u ∧ u ≤ 0xdbff := by
  simp [leads]

theorem trails_eq_true_iff {u : Nat} : trails u = true ↔ 0xdc00 ≤ u ∧ u ≤ 0xdfff := by
  simp [trails]

theorem trails_eq_false_of_le {u : Nat} (h : u ≤ 0xdbff) : trails u = false := by
  simp only [trails, Bool.and_eq_false_iff, decide_eq_false_iff_not]
  omega

/-- Two halves of a surrogate pair are the number of a character. -/
theorem toNat_pair {lead trail : Nat} (hlead : leads lead = true) (htrail : trails trail = true) :
    (pair lead trail).toNat = 0x10000 + (lead - 0xd800) * 0x400 + (trail - 0xdc00) := by
  rw [leads_eq_true_iff] at hlead
  rw [trails_eq_true_iff] at htrail
  rw [pair, toNat_ofNat]
  · omega
  · simp only [Nat.isValidChar]
    omega

/-! ## Escapes by a letter -/

theorem shortEscape?_eq_some_iff {e c : Char} :
    shortEscape? e = some c ↔ (e, c) ∈ letterEscapes := by
  constructor
  · intro h
    unfold shortEscape? at h
    split at h <;> cases h <;> decide
  · intro h
    simp only [letterEscapes, List.mem_cons, Prod.mk.injEq, List.not_mem_nil, or_false] at h
    rcases h with h | h | h | h | h | h | h | h <;> obtain ⟨rfl, rfl⟩ := h <;> rfl

/-! ## Literals -/

theorem push_eq_ok_iff {c : Char} {read : Except Fault (List Char × List Char)}
    {s rest : List Char} :
    push c read = .ok (s, rest) ↔ ∃ cs, read = .ok (cs, rest) ∧ s = c :: cs := by
  cases read with
  | error f => simp [push, Except.map]
  | ok got =>
    obtain ⟨cs, left⟩ := got
    simp only [push, Except.map, Except.ok.injEq, Prod.mk.injEq]
    constructor
    · intro h
      obtain ⟨rfl, rfl⟩ := h
      exact ⟨cs, ⟨rfl, rfl⟩, rfl⟩
    · intro h
      obtain ⟨cs', ⟨rfl, rfl⟩, rfl⟩ := h
      exact ⟨rfl, rfl⟩

/-- What is read as a literal is one. -/
theorem characters_of_body {text s rest : List Char} (h : body text = .ok (s, rest)) :
    Characters text s rest := by
  fun_induction body text generalizing s rest with
  | case2 rest =>
    cases h
    exact .close
  | case7 a b c d lead hlead _ hleads a' b' c' d' rest trail htrail htrails ih =>
    obtain ⟨cs, hcs, rfl⟩ := push_eq_ok_iff.1 h
    have hnumber := toNat_pair hleads htrails
    rw [leads_eq_true_iff] at hleads
    rw [trails_eq_true_iff] at htrails
    exact .more (.pair ((unit?_eq_some_iff _).1 hlead) ((unit?_eq_some_iff _).1 htrail)
      hleads.1 hleads.2 htrails.1 htrails.2 hnumber) (ih hcs)
  | case10 a b c d left u hu htrails hleads ih =>
    obtain ⟨cs, hcs, rfl⟩ := push_eq_ok_iff.1 h
    have hunit := (unit?_eq_some_iff left).1 hu
    have hnumber : (Char.ofNat u).toNat = u :=
      toNat_ofNat_unit (lt_of_unitEscape hunit) (by simpa using hleads) (by simpa using htrails)
    exact .more (.number (by rwa [hnumber])) (ih hcs)
  | case13 e rest _ _ c hc ih =>
    obtain ⟨cs, hcs, rfl⟩ := push_eq_ok_iff.1 h
    exact .more (.letter (shortEscape?_eq_some_iff.1 hc)) (ih hcs)
  | case15 c left hquote hend _ _ hescape hcontrol ih =>
    obtain ⟨cs, hcs, rfl⟩ := push_eq_ok_iff.1 h
    have hbackslash : c ≠ '\\' := by
      intro hc
      cases left with
      | nil => exact hend hc rfl
      | cons e left => exact hescape e left hc rfl
    exact .more (.plain hquote hbackslash (by omega)) (ih hcs)
  | _ => exact nomatch h

/-- A character of the grammar is read off the front. -/
theorem body_of_character {text rest : List Char} {c : Char} (h : Character text c rest) :
    body text = push c (body rest) := by
  cases h with
  | plain hquote hbackslash hcontrol =>
    rw [body_cons hquote hbackslash, if_neg (by omega)]
  | @letter e _ _ he =>
    have hshort := shortEscape?_eq_some_iff.2 he
    simp only [letterEscapes, List.mem_cons, Prod.mk.injEq, List.not_mem_nil, or_false] at he
    rcases he with h | h | h | h | h | h | h | h <;> obtain ⟨rfl, rfl⟩ := h <;>
      simp [body, shortEscape?]
  | number hunit =>
    cases hunit with
    | mk ha hb hc hd hu =>
      have hunit := (unit?_eq_some_iff rest).2 (.mk ha hb hc hd hu)
      simp [body, hunit, leads_toNat, trails_toNat]
  | pair hlead htrail hlead₁ hlead₂ htrail₁ htrail₂ hnumber =>
    cases hlead with
    | mk ha hb hc hd hlead =>
      cases htrail with
      | mk ha' hb' hc' hd' htrail =>
        have hunit := (unit?_eq_some_iff rest).2 (.mk ha hb hc hd hlead)
        have hunit' := (unit?_eq_some_iff rest).2 (.mk ha' hb' hc' hd' htrail)
        have hleads := leads_eq_true_iff.2 ⟨hlead₁, hlead₂⟩
        have htrails := trails_eq_true_iff.2 ⟨htrail₁, htrail₂⟩
        have hc : pair _ _ = c := Char.toNat_inj.1 ((toNat_pair hleads htrails).trans hnumber.symm)
        have hapart : trails _ = false := trails_eq_false_of_le hlead₂
        simp [body, hunit, hunit', hapart, hleads, htrails, hc]

theorem body_eq_ok_iff {text s rest : List Char} :
    body text = .ok (s, rest) ↔ Characters text s rest := by
  refine ⟨characters_of_body, fun h => ?_⟩
  induction h with
  | close => simp [body]
  | more hc _ ih => rw [body_of_character hc, ih]; rfl

/-- Reading a string behind its opening quote reads a string of the grammar. -/
theorem read_eq_ok_iff {text rest : List Char} {s : String} :
    read text = .ok (s, rest) ↔ Str ('"' :: text) s rest := by
  constructor
  · intro h
    cases hbody : body text with
    | error f => simp [read, hbody, Except.map] at h
    | ok got =>
      simp only [read, hbody, Except.map, Except.ok.injEq, Prod.mk.injEq] at h
      obtain ⟨rfl, rfl⟩ := h
      exact .mk (body_eq_ok_iff.1 hbody)
  · intro h
    cases h with
    | mk hcharacters => rw [read, body_eq_ok_iff.2 hcharacters]; rfl

end VectorIndex.Json.StringLiteral
