import VectorIndex.Proofs.Json.Grammar
import VectorIndex.Proofs.Outcome

/-!
# Reading number literals

`NumberLiteral.read` reads a number of the grammar (`number_of_read`), and it
reads every such number as far as it goes (`read_of_number`). A number in a
text ends where a character stands that cannot go on with it
(`Grammar.Ends`).

The parts of a literal come first, each with one lemma for either direction;
then what number the parts stand for.
-/

namespace VectorIndex.Json

/-- A number in front of the text ends there. -/
def Grammar.Ends (text : List Char) : Prop :=
  ∀ c ∈ text.head?, c.isDigit = false ∧ c ∉ ['.', 'e', 'E']

namespace NumberLiteral

open Grammar

/-! ## Digits -/

/-- No digit stands in front of the text. -/
def NoDigit (text : List Char) : Prop :=
  ∀ c ∈ text.head?, c.isDigit = false

theorem noDigit_of_ends {text : List Char} (h : Ends text) : NoDigit text :=
  fun c hc => (h c hc).1

theorem noDigit_cons {c : Char} {text : List Char} (h : c.isDigit = false) :
    NoDigit (c :: text) := by
  intro d hd
  simp only [List.head?_cons, Option.mem_def, Option.some.injEq] at hd
  exact hd ▸ h

theorem digits_of_ok {text ds rest : List Char} (h : digits text = .ok (ds, rest)) :
    Digits ds ∧ text = ds ++ rest := by
  unfold digits at h
  split at h
  · exact nomatch h
  · next hne =>
    simp only [Except.ok.injEq, Prod.mk.injEq] at h
    obtain ⟨rfl, rfl⟩ := h
    exact ⟨⟨hne, fun c hc => List.all_eq_true.1 List.all_takeWhile c hc⟩,
      List.takeWhile_append_dropWhile.symm⟩

theorem digits_append {ds rest : List Char} (hds : Digits ds) (hrest : NoDigit rest) :
    digits (ds ++ rest) = .ok (ds, rest) := by
  have htake : (ds ++ rest).takeWhile Char.isDigit = ds := by
    rw [List.takeWhile_append_of_pos hds.2]
    cases rest with
    | nil => simp
    | cons c rest => simp [hrest c rfl]
  have hdrop : (ds ++ rest).dropWhile Char.isDigit = rest := by
    rw [List.dropWhile_append_of_pos hds.2]
    cases rest with
    | nil => rfl
    | cons c rest => simp [hrest c rfl]
  unfold digits
  rw [htake, hdrop]
  cases ds with
  | nil => exact absurd rfl hds.1
  | cons => rfl

/-! ## The parts of a literal -/

theorem whole_of_ok {text ds rest : List Char} (h : whole text = .ok (ds, rest)) :
    Whole ds ∧ text = ds ++ rest := by
  unfold whole at h
  split at h
  · exact nomatch h
  · next hlead =>
    obtain ⟨hds, htext⟩ := digits_of_ok h
    refine ⟨⟨hds, fun zeros hzeros => ?_⟩, htext⟩
    cases zeros with
    | nil => rfl
    | cons c zeros => exact (hlead _ _ _ (hzeros ▸ h)).elim

theorem whole_append {ds rest : List Char} (hds : Whole ds) (hrest : NoDigit rest) :
    whole (ds ++ rest) = .ok (ds, rest) := by
  unfold whole
  rw [digits_append hds.1 hrest]
  split
  · next h =>
    simp only [Except.ok.injEq, Prod.mk.injEq] at h
    exact nomatch hds.2 _ h.1
  · rfl

theorem fraction_of_ok {text rest : List Char} {f : Option (List Char)}
    (h : fraction text = .ok (f, rest)) : ∃ t, Fraction f t ∧ text = t ++ rest := by
  unfold fraction at h
  split at h
  · obtain ⟨⟨ds, left⟩, hdigits, heq⟩ := map_eq_ok_iff.1 h
    cases heq
    obtain ⟨hds, rfl⟩ := digits_of_ok hdigits
    exact ⟨_, .present hds, rfl⟩
  · cases h
    exact ⟨[], .absent, rfl⟩

theorem exponent_of_ok {text rest : List Char} {e : Option (Bool × List Char)}
    (h : exponent text = .ok (e, rest)) : ∃ t, Exponent e t ∧ text = t ++ rest := by
  unfold exponent at h
  split at h
  · cases h
    exact ⟨[], .absent, rfl⟩
  · next c after =>
    split at h
    · next hc =>
      have hmark : c ∈ ['e', 'E'] := by simpa using hc
      split at h
      all_goals
        obtain ⟨⟨ds, left⟩, hdigits, heq⟩ := map_eq_ok_iff.1 h
        cases heq
        obtain ⟨hds, rfl⟩ := digits_of_ok hdigits
      · exact ⟨_, .plus hmark hds, rfl⟩
      · exact ⟨_, .minus hmark hds, rfl⟩
      · exact ⟨_, .bare hmark hds, rfl⟩
    · cases h
      exact ⟨[], .absent, rfl⟩

theorem unsigned_of_ok {negative : Bool} {text rest : List Char} {s : Spelling}
    (h : unsigned negative text = .ok (s, rest)) :
    ∃ t, Literal s (sign negative ++ t) ∧ text = t ++ rest := by
  obtain ⟨⟨w, afterWhole⟩, hwhole, h⟩ := bind_eq_ok_iff.1 h
  obtain ⟨⟨f, afterFraction⟩, hfraction, h⟩ := bind_eq_ok_iff.1 h
  obtain ⟨⟨e, afterExponent⟩, hexponent, h⟩ := bind_eq_ok_iff.1 h
  cases h
  obtain ⟨hw, rfl⟩ := whole_of_ok hwhole
  obtain ⟨tf, hf, rfl⟩ := fraction_of_ok hfraction
  obtain ⟨te, he, rfl⟩ := exponent_of_ok hexponent
  exact ⟨w ++ (tf ++ te), .mk hw hf he, by simp⟩

theorem literal_of_spelling {text rest : List Char} {s : Spelling}
    (h : spelling text = .ok (s, rest)) : ∃ t, Literal s t ∧ text = t ++ rest := by
  unfold spelling at h
  split at h
  · obtain ⟨t, ht, rfl⟩ := unsigned_of_ok h
    exact ⟨_, ht, rfl⟩
  · obtain ⟨t, ht, rfl⟩ := unsigned_of_ok h
    exact ⟨_, ht, rfl⟩

/-! ## Literals are read as they are written -/

/-- Digits start with a digit. -/
theorem Digits.exists_cons {ds : List Char} (h : Digits ds) :
    ∃ d rest, ds = d :: rest ∧ d.isDigit = true := by
  cases ds with
  | nil => exact absurd rfl h.1
  | cons d rest => exact ⟨d, rest, rfl, h.2 d List.mem_cons_self⟩

theorem isDigit_eq_false_of_mark {c : Char} (h : c ∈ ['e', 'E']) : c.isDigit = false := by
  simp only [List.mem_cons, List.not_mem_nil, or_false] at h
  rcases h with rfl | rfl <;> decide

theorem exponent_append {e : Option (Bool × List Char)} {t rest : List Char}
    (ht : Exponent e t) (hrest : Ends rest) : exponent (t ++ rest) = .ok (e, rest) := by
  have hnone := noDigit_of_ends hrest
  cases ht with
  | absent =>
    rw [List.nil_append]
    unfold exponent
    split
    · rfl
    · next c after =>
      have hc := (hrest c rfl).2
      simp only [List.mem_cons, List.not_mem_nil, or_false, not_or] at hc
      rw [if_neg (by simp [hc])]
  | @bare mark ds hmark hds =>
    simp only [List.mem_cons, List.not_mem_nil, or_false] at hmark
    obtain ⟨d, after, hcons, hd⟩ := Digits.exists_cons hds
    have hplus : d ≠ '+' := fun h => absurd (h ▸ hd) (by decide)
    have hminus : d ≠ '-' := fun h => absurd (h ▸ hd) (by decide)
    have hread := digits_append hds hnone
    subst hcons
    simp only [List.cons_append] at hread
    simp [exponent, hmark, hread, hplus, hminus, Except.map]
  | plus hmark hds =>
    simp only [List.mem_cons, List.not_mem_nil, or_false] at hmark
    simp [exponent, hmark, digits_append hds hnone, Except.map]
  | minus hmark hds =>
    simp only [List.mem_cons, List.not_mem_nil, or_false] at hmark
    simp [exponent, hmark, digits_append hds hnone, Except.map]

/-- What stands behind a fraction does not go on with it. -/
theorem noDigit_exponent_append {e : Option (Bool × List Char)} {t rest : List Char}
    (ht : Exponent e t) (hrest : Ends rest) :
    NoDigit (t ++ rest) ∧ ∀ after, t ++ rest ≠ '.' :: after := by
  have hmarked : ∀ {c : Char} {after : List Char}, c ∈ ['e', 'E'] →
      NoDigit (c :: after) ∧ ∀ left, c :: after ≠ '.' :: left := by
    intro c after hc
    refine ⟨noDigit_cons (isDigit_eq_false_of_mark hc), fun left h => ?_⟩
    cases h
    exact absurd hc (by decide)
  cases ht with
  | absent =>
    refine ⟨noDigit_of_ends hrest, fun after h => ?_⟩
    rw [List.nil_append] at h
    exact (hrest '.' (by rw [h]; rfl)).2 (by decide)
  | bare hmark _ | plus hmark _ | minus hmark _ => exact hmarked hmark

theorem fraction_append {f : Option (List Char)} {t rest : List Char} (ht : Fraction f t)
    (hdigit : NoDigit rest) (hpoint : ∀ after, rest ≠ '.' :: after) :
    fraction (t ++ rest) = .ok (f, rest) := by
  cases ht with
  | absent =>
    rw [List.nil_append]
    unfold fraction
    split
    · exact absurd rfl (hpoint _)
    · rfl
  | present hds => simp [fraction, digits_append hds hdigit, Except.map]

theorem noDigit_fraction_append {f : Option (List Char)} {t rest : List Char}
    (ht : Fraction f t) (hrest : NoDigit rest) : NoDigit (t ++ rest) := by
  cases ht with
  | absent => exact hrest
  | present => exact noDigit_cons (by decide)

theorem unsigned_append {negative : Bool} {w : List Char} {f : Option (List Char)}
    {e : Option (Bool × List Char)} {tf te rest : List Char} (hw : Whole w)
    (hf : Fraction f tf) (he : Exponent e te) (hrest : Ends rest) :
    unsigned negative (w ++ (tf ++ (te ++ rest))) = .ok (⟨negative, w, f, e⟩, rest) := by
  obtain ⟨hdigit, hpoint⟩ := noDigit_exponent_append he hrest
  have hwhole := whole_append hw (noDigit_fraction_append hf hdigit)
  have hfraction := fraction_append hf hdigit hpoint
  have hexponent := exponent_append he hrest
  simp [unsigned, hwhole, hfraction, hexponent, bind, Except.bind, pure, Except.pure]

theorem spelling_append {s : Spelling} {t rest : List Char} (ht : Literal s t)
    (hrest : Ends rest) : spelling (t ++ rest) = .ok (s, rest) := by
  cases ht with
  | @mk negative w f e tf te hw hf he =>
    have hread : unsigned negative (w ++ (tf ++ (te ++ rest))) =
        .ok (⟨negative, w, f, e⟩, rest) := unsigned_append hw hf he hrest
    cases negative with
    | true => simpa [spelling, sign] using hread
    | false =>
      obtain ⟨d, after, rfl, hd⟩ := Digits.exists_cons hw.1
      have hminus : d ≠ '-' := fun h => absurd (h ▸ hd) (by decide)
      simpa [spelling, sign, hminus] using hread

/-! ## The number of a literal -/

/-- A literal is an integer if it has no fraction and no exponent, fits 64
bits and is not minus zero. -/
theorem Spelling.integer?_eq_some_iff {s : Spelling} {n : Int} :
    s.integer? = some n ↔
      ∃ ds, (s = ⟨false, ds, none, none⟩ ∧ n = Decimal.value ds ∧ Decimal.value ds < 2 ^ 64) ∨
        (s = ⟨true, ds, none, none⟩ ∧ n = -(Decimal.value ds : Int) ∧
          0 < Decimal.value ds ∧ Decimal.value ds ≤ 2 ^ 63) := by
  obtain ⟨negative, ds, f, e⟩ := s
  cases f with
  | some f => simp [Spelling.integer?]
  | none =>
    cases e with
    | some e => simp [Spelling.integer?]
    | none =>
      cases negative with
      | true => simp [Spelling.integer?, eq_comm, and_comm, and_assoc]
      | false => simp [Spelling.integer?, UInt64.size, eq_comm, and_comm]

theorem number_of_literal {s : Spelling} {t rest : List Char} {n : Number}
    (ht : Literal s t) (h : s.number = .ok n) : Grammar.Number (t ++ rest) n rest := by
  unfold Spelling.number at h
  split at h
  · next m hm =>
    cases h
    obtain ⟨ds, ⟨rfl, rfl, hfits⟩ | ⟨rfl, rfl, hpos, hfits⟩⟩ :=
      Spelling.integer?_eq_some_iff.1 hm
    · cases ht with
      | mk hw hf he =>
        cases hf
        cases he
        have hnumber : Grammar.Number (ds ++ rest) _ rest := .natural hw hfits
        simpa [sign] using hnumber
    · cases ht with
      | mk hw hf he =>
        cases hf
        cases he
        have hnumber : Grammar.Number ('-' :: (ds ++ rest)) _ rest := .negative hw hpos hfits
        simpa [sign] using hnumber
  · next hinteger =>
    split at h
    · next x hx =>
      cases h
      exact .real ht hinteger hx
    · exact nomatch h

theorem exists_literal_of_number {text rest : List Char} {n : Number}
    (h : Grammar.Number text n rest) :
    ∃ s t, Literal s t ∧ s.number = .ok n ∧ text = t ++ rest := by
  cases h with
  | @natural ds _ hw hfits =>
    have hliteral : Literal ⟨false, ds, none, none⟩ _ := .mk hw .absent .absent
    have hinteger := Spelling.integer?_eq_some_iff.2 ⟨ds, .inl ⟨rfl, rfl, hfits⟩⟩
    exact ⟨_, _, hliteral, by rw [Spelling.number, hinteger], by simp [sign]⟩
  | @negative ds _ hw hpos hfits =>
    have hliteral : Literal ⟨true, ds, none, none⟩ _ := .mk hw .absent .absent
    have hinteger := Spelling.integer?_eq_some_iff.2 ⟨ds, .inr ⟨rfl, rfl, hpos, hfits⟩⟩
    exact ⟨_, _, hliteral, by rw [Spelling.number, hinteger], by simp [sign]⟩
  | @real s t x _ ht hinteger hx =>
    exact ⟨s, t, ht, by rw [Spelling.number, hinteger, hx], rfl⟩

/-- What is read as a number is one. -/
theorem number_of_read {text rest : List Char} {n : Number} (h : read text = .ok (n, rest)) :
    Grammar.Number text n rest := by
  obtain ⟨⟨s, left⟩, hspelling, h⟩ := bind_eq_ok_iff.1 h
  obtain ⟨m, hm, h⟩ := bind_eq_ok_iff.1 h
  cases h
  obtain ⟨t, ht, rfl⟩ := literal_of_spelling hspelling
  exact number_of_literal ht hm

/-- A number is read as far as it goes. -/
theorem read_of_number {text rest : List Char} {n : Number} (h : Grammar.Number text n rest)
    (hrest : Ends rest) : read text = .ok (n, rest) := by
  obtain ⟨s, t, ht, hn, rfl⟩ := exists_literal_of_number h
  simp [read, spelling_append ht hrest, hn, bind, Except.bind, pure, Except.pure]

/-- A number starts with a digit or a minus sign. -/
theorem exists_cons_of_number {text rest : List Char} {n : Number}
    (h : Grammar.Number text n rest) :
    ∃ c after, text = c :: after ∧ (c = '-' ∨ c.isDigit = true) := by
  obtain ⟨s, t, ht, -, rfl⟩ := exists_literal_of_number h
  cases ht with
  | @mk negative w f e tf te hw hf he =>
    cases negative with
    | true => exact ⟨'-', w ++ (tf ++ (te ++ rest)), by simp [sign], .inl rfl⟩
    | false =>
      obtain ⟨d, after, rfl, hd⟩ := Digits.exists_cons hw.1
      exact ⟨d, after ++ (tf ++ (te ++ rest)), by simp [sign], .inr hd⟩

end NumberLiteral

end VectorIndex.Json
