import VectorIndex.Proofs.Hnsw.Configuration
import VectorIndex.Proofs.Json.Printer
import VectorIndex.Proofs.Schema.Description

/-!
# Descriptions of the HNSW method

The descriptions that the method gives form a small language, and what stands in
one of them can be told from it: the degree of the graph, the encoder, and the
format or the number of codes of the encoder.

* `Configuration.text`: the description of a configuration (`Hnsw.description_values`).
* `Configuration.text_eq_iff`: what two configurations with one text have in
  common. The degree is read off first, since no digit follows it.
* `Hnsw.IsDescription`: the language.
* `hnsw_descriptions`: the method gives exactly the texts of the language, and two
  texts are the same if and only if the values agree on what they show.
-/

namespace VectorIndex

open Json.NumberLiteral

/-! ## Positive integers in decimal -/

/-- The text of a positive integer has digits alone. -/
theorem Decimal.ofInt64_of_pos {n : Int64} (h : 0 < n) :
    Decimal.ofInt64 n = toString n.toInt.toNat := by
  have hpos : 0 < n.toInt := Int64.lt_iff_toInt_lt.1 h
  have hcast : (n.toInt.toNat : Int) = n.toInt := Int.toNat_of_nonneg (Int.le_of_lt hpos)
  rw [Decimal.ofInt64_eq_toString]
  conv_lhs => rw [← hcast]
  rfl

theorem Decimal.toList_ofInt64_of_pos {n : Int64} (h : 0 < n) :
    (Decimal.ofInt64 n).toList = Decimal.ofNat n.toInt.toNat := by
  rw [Decimal.ofInt64_of_pos h]
  exact Nat.toList_repr

/-- A positive integer can be told from a text that starts with it and goes on
without a digit. -/
theorem Decimal.ofInt64_append_inj {m n : Int64} (hm : 0 < m) (hn : 0 < n) {s t : String}
    (hs : NoDigit s.toList) (ht : NoDigit t.toList)
    (h : Decimal.ofInt64 m ++ s = Decimal.ofInt64 n ++ t) : m = n ∧ s = t := by
  have hlist :
      Decimal.ofNat m.toInt.toNat ++ s.toList = Decimal.ofNat n.toInt.toNat ++ t.toList := by
    rw [← Decimal.toList_ofInt64_of_pos hm, ← Decimal.toList_ofInt64_of_pos hn,
      ← String.toList_append, ← String.toList_append, h]
  have hread := digits_append (Json.whole_ofNat m.toInt.toNat).1 hs
  rw [hlist, digits_append (Json.whole_ofNat n.toInt.toNat).1 ht] at hread
  obtain ⟨hdigits, hrest⟩ := Prod.mk.inj (Except.ok.inj hread)
  have hvalue : n.toInt.toNat = m.toInt.toNat := by
    rw [← Json.value_ofNat n.toInt.toNat, hdigits, Json.value_ofNat]
  have hmpos : 0 < m.toInt := Int64.lt_iff_toInt_lt.1 hm
  have hnpos : 0 < n.toInt := Int64.lt_iff_toInt_lt.1 hn
  exact ⟨Int64.toInt_inj.1 (by omega), (String.toList_inj.1 hrest).symm⟩

theorem Decimal.ofInt64_inj {m n : Int64} (hm : 0 < m) (hn : 0 < n) :
    Decimal.ofInt64 m = Decimal.ofInt64 n ↔ m = n := by
  refine ⟨fun h => ?_, fun h => h ▸ rfl⟩
  have hnone : NoDigit "".toList := fun c hc => nomatch hc
  exact (Decimal.ofInt64_append_inj hm hn hnone hnone (h ▸ rfl)).1

/-- The positive integers of 64 bits. -/
theorem exists_int64_iff {k : Nat} :
    (∃ n : Int64, 0 < n ∧ n.toInt.toNat = k) ↔ 1 ≤ k ∧ k < 2 ^ 63 := by
  constructor
  · rintro ⟨n, hn, rfl⟩
    have hpos : 0 < n.toInt := Int64.lt_iff_toInt_lt.1 hn
    have hlt := n.toInt_lt
    omega
  · rintro ⟨hpos, hlt⟩
    have hvalue := Int64.toInt_ofNat_of_lt hlt
    refine ⟨Int64.ofNat k, Int64.lt_iff_toInt_lt.2 ?_, ?_⟩
    · rw [hvalue]
      exact Int.natCast_pos.2 hpos
    · rw [hvalue, Int.toNat_natCast]

/-! ## The text of a configuration -/

namespace Encoding

/-- The description of an encoder, none if vectors are stored as they are. -/
def text? : Encoding → Option String
  | flat => none
  | sq format .. => some ("SQ" ++ format)
  | pq codes .. => some ("PQ" ++ Decimal.ofInt64 codes ++ "x8")

/-- What an encoder adds to a description: its own, behind a comma. -/
def suffix (x : Encoding) : String :=
  x.text?.elim "" ("," ++ ·)

theorem description_schema (x : Encoding) :
    x.encoder.schema.description ⟨x.encoder.name, x.entries⟩ = x.text? := by
  cases x with
  | flat => rfl
  | sq format hformat clip =>
    show some ("SQ" ++ ("" ++ format ++ "")) = some ("SQ" ++ format)
    rw [String.empty_append, String.append_empty]
  | pq codes hpos hmax =>
    show some ("PQ" ++ ("" ++ Decimal.ofInt64 codes ++ "") ++ ("x" ++ "8" ++ "")) = _
    rw [text?, String.empty_append, String.append_empty, String.append_empty]
    rfl

end Encoding

/-- The description of a configuration. -/
def Configuration.text (x : Configuration) : String :=
  "HNSW" ++ Decimal.ofInt64 x.m ++ x.encoding.suffix

/-- The value of the parameter that selects an encoder has the text of the encoder. -/
theorem Hnsw.settingText_encoder (d : Defaults) (x : Encoding) :
    settingText (schema d) encoderParameter x.setting = x.text? := by
  have hselect : (schema d).select? encoderParameter x.encoder.name = some x.encoder.schema := by
    cases x.encoder <;> rfl
  rw [Encoding.setting, settingText_component, hselect, Option.bind_some,
    Encoding.description_schema]

theorem Hnsw.description_values (d : Defaults) (x : Configuration) :
    (schema d).description x.values = some x.text := by
  have hm : Slot.fill ⟨"m", "", ""⟩ (settingTexts (schema d) x.entries) = Decimal.ofInt64 x.m := by
    show "" ++ Decimal.ofInt64 x.m ++ "" = Decimal.ofInt64 x.m
    rw [String.empty_append, String.append_empty]
  have hencoder : Slot.fill ⟨encoderParameter, ",", ""⟩ (settingTexts (schema d) x.entries) =
      x.encoding.suffix := by
    have hvalue : x.values.get? encoderParameter = some x.encoding.setting := rfl
    have hfill : Slot.fill ⟨encoderParameter, ",", ""⟩ (settingTexts (schema d) x.values.entries) =
        _ := Component.fill_slot hvalue
    rw [settingText_encoder] at hfill
    refine hfill.trans ?_
    rw [Encoding.suffix]
    cases x.encoding.text? with
    | none => rfl
    | some text => exact String.append_empty
  show some ("HNSW" ++ Slot.fill ⟨"m", "", ""⟩ (settingTexts (schema d) x.entries) ++
    Slot.fill ⟨encoderParameter, ",", ""⟩ (settingTexts (schema d) x.entries)) = some x.text
  rw [hm, hencoder, Configuration.text]

/-! ## What the text tells -/

namespace Encoding

/-- The two keywords are told apart by their first letters. -/
theorem sq_append_ne_pq_append (s t : String) : "SQ" ++ s ≠ "PQ" ++ t := by
  intro h
  have hchars := congrArg String.toList h
  rw [String.toList_append, String.toList_append] at hchars
  exact absurd (List.cons.inj hchars).1 (by decide)

/-- The description of an encoder tells the encoder, its format and its number of
codes. -/
theorem text?_eq_iff {x y : Encoding} :
    x.text? = y.text? ↔ x.encoder = y.encoder ∧
      (x.encoder = .sq → x.entries.lookup "type" = y.entries.lookup "type") ∧
      (x.encoder = .pq → x.entries.lookup "m" = y.entries.lookup "m") := by
  cases x with
  | flat => cases y <;> simp [text?, encoder]
  | sq format _ clip =>
    cases y with
    | flat => simp [text?, encoder]
    | sq other => simp [text?, encoder, entries, String.append_right_inj]
    | pq => simp [text?, encoder, String.append_assoc, sq_append_ne_pq_append]
  | pq codes hpos _ =>
    cases y with
    | flat => simp [text?, encoder]
    | sq => simp [text?, encoder, String.append_assoc, (sq_append_ne_pq_append _ _).symm]
    | pq others hpos' _ =>
      simp [text?, encoder, entries, String.append_right_inj, String.append_left_inj,
        Decimal.ofInt64_inj hpos hpos']

theorem suffix_flat : suffix .flat = "" := rfl

theorem suffix_sq (format : String) (supported : format ∈ Encoder.formats) (clip : Bool) :
    suffix (.sq format supported clip) = ",SQ" ++ format := by
  show "," ++ ("SQ" ++ format) = ",SQ" ++ format
  rw [← String.append_assoc]
  rfl

theorem suffix_pq {codes : Int64} (hpos : 0 < codes) (hmax : codes ≤ Encoder.maxCodes) :
    suffix (.pq codes hpos hmax) = ",PQ" ++ toString codes.toInt.toNat ++ "x8" := by
  show "," ++ ("PQ" ++ Decimal.ofInt64 codes ++ "x8") = _
  rw [Decimal.ofInt64_of_pos hpos, ← String.append_assoc, ← String.append_assoc]
  rfl

/-- The comma stands where there is a description. -/
theorem suffix_eq_iff {x y : Encoding} : x.suffix = y.suffix ↔ x.text? = y.text? := by
  unfold suffix
  cases x.text? <;> cases y.text? <;> simp

theorem noDigit_suffix (x : Encoding) : NoDigit x.suffix.toList := by
  unfold suffix
  cases x.text? with
  | none => exact fun c hc => nomatch hc
  | some text =>
    rw [Option.elim_some, String.toList_append]
    exact noDigit_cons (by decide)

end Encoding

namespace Configuration

/-- The text of a configuration tells the degree of the graph and the description
of the encoder. -/
theorem text_eq_iff {x y : Configuration} :
    x.text = y.text ↔ x.m = y.m ∧ x.encoding.text? = y.encoding.text? := by
  constructor
  · intro h
    rw [text, text, String.append_assoc, String.append_assoc, String.append_right_inj] at h
    obtain ⟨hm, hsuffix⟩ := Decimal.ofInt64_append_inj x.m_pos y.m_pos
      x.encoding.noDigit_suffix y.encoding.noDigit_suffix h
    exact ⟨hm, Encoding.suffix_eq_iff.1 hsuffix⟩
  · intro h
    rw [text, text, h.1, Encoding.suffix_eq_iff.2 h.2]

/-- Without a description of the encoder there is nothing to separate. -/
theorem no_comma_of_flat (x : Configuration) (inner : List (String × Setting))
    (h : x.values.get? "encoder" = some (.component "flat" inner)) : ',' ∉ x.text.toList := by
  have hsetting : x.encoding.setting = .component "flat" inner := Option.some.inj h
  have hflat : x.encoding.encoder = .flat :=
    Encoder.name_injective (Setting.component.inj hsetting).1
  have hsuffix : x.encoding.suffix = "" := by
    cases hx : x.encoding with
    | flat => rfl
    | sq | pq =>
      rw [hx] at hflat
      exact nomatch hflat
  rw [text, hsuffix, String.append_empty, String.toList_append,
    Decimal.toList_ofInt64_of_pos x.m_pos, List.mem_append]
  rintro (hkeyword | hdigits)
  · exact absurd hkeyword (by decide)
  · exact absurd ((Json.whole_ofNat _).1.2 ',' hdigits) (by decide)

end Configuration

namespace Hnsw

/-- The descriptions that the method gives: the keyword and a number, and behind a
comma the format of the 16-bit encoder or the number of codes of the encoder by
codes. Numbers are in canonical decimal. -/
inductive IsDescription : String → Prop where
  | flat {n : Nat} :
      1 ≤ n → n < 2 ^ 63 → IsDescription ("HNSW" ++ toString n)
  | sq {n : Nat} {format : String} :
      1 ≤ n → n < 2 ^ 63 → format ∈ ["fp16", "bf16"] →
      IsDescription ("HNSW" ++ toString n ++ ",SQ" ++ format)
  | pq {n k : Nat} :
      1 ≤ n → n < 2 ^ 63 → 1 ≤ k → k ≤ 1024 →
      IsDescription ("HNSW" ++ toString n ++ ",PQ" ++ toString k ++ "x8")

theorem isDescription_text (x : Configuration) : IsDescription x.text := by
  have hm := exists_int64_iff.1 ⟨x.m, x.m_pos, rfl⟩
  rw [Configuration.text, Decimal.ofInt64_of_pos x.m_pos]
  cases x.encoding with
  | flat =>
    rw [Encoding.suffix_flat, String.append_empty]
    exact .flat hm.1 hm.2
  | sq format hformat clip =>
    rw [Encoding.suffix_sq, ← String.append_assoc]
    exact .sq hm.1 hm.2 hformat
  | pq codes hpos hmax =>
    have hcodes := exists_int64_iff.1 ⟨codes, hpos, rfl⟩
    have hbound : codes.toInt ≤ 1024 := Int64.le_iff_toInt_le.1 hmax
    rw [Encoding.suffix_pq, ← String.append_assoc, ← String.append_assoc]
    exact .pq hm.1 hm.2 hcodes.1 (by omega)

theorem exists_text_of_isDescription {text : String} (h : IsDescription text) :
    ∃ x : Configuration, x.text = text := by
  cases h with
  | @flat n hpos hlt =>
    obtain ⟨m, hm, rfl⟩ := exists_int64_iff.2 ⟨hpos, hlt⟩
    refine ⟨⟨m, 1, 1, .flat, hm, by decide, by decide⟩, ?_⟩
    rw [Configuration.text, Decimal.ofInt64_of_pos hm, Encoding.suffix_flat, String.append_empty]
  | @sq n format hpos hlt hformat =>
    obtain ⟨m, hm, rfl⟩ := exists_int64_iff.2 ⟨hpos, hlt⟩
    have hsupported : format ∈ Encoder.formats := hformat
    refine ⟨⟨m, 1, 1, .sq format hsupported false, hm, by decide, by decide⟩, ?_⟩
    rw [Configuration.text, Decimal.ofInt64_of_pos hm, Encoding.suffix_sq, ← String.append_assoc]
  | @pq n k hpos hlt hkpos hkmax =>
    obtain ⟨m, hm, rfl⟩ := exists_int64_iff.2 ⟨hpos, hlt⟩
    obtain ⟨codes, hcodes, rfl⟩ := exists_int64_iff.2 ⟨hkpos, by omega⟩
    have hmax : codes ≤ Encoder.maxCodes :=
      Int64.le_iff_toInt_le.2 (show codes.toInt ≤ 1024 by omega)
    refine ⟨⟨m, 1, 1, .pq codes hcodes hmax, hm, by decide, by decide⟩, ?_⟩
    rw [Configuration.text, Decimal.ofInt64_of_pos hm, Encoding.suffix_pq, ← String.append_assoc,
      ← String.append_assoc]

/-- The values agree on the degree of the graph, on the encoder, and on the format
of the 16-bit encoder or the number of codes. -/
def Agree (v w : Values) : Prop :=
  v.get? "m" = w.get? "m" ∧
  ∃ e xs ys, v.get? "encoder" = some (.component e xs) ∧
    w.get? "encoder" = some (.component e ys) ∧
    (e = "sq" → xs.lookup "type" = ys.lookup "type") ∧
    (e = "pq" → xs.lookup "m" = ys.lookup "m")

/-- Configurations agree if and only if they have one text. -/
theorem agree_values_iff {x y : Configuration} :
    Agree x.values y.values ↔ x.text = y.text := by
  have hm : x.values.get? "m" = y.values.get? "m" ↔ x.m = y.m := by
    show some (Setting.integer x.m) = some (.integer y.m) ↔ x.m = y.m
    simp
  have hx : x.values.get? "encoder" = some x.encoding.setting := rfl
  have hy : y.values.get? "encoder" = some y.encoding.setting := rfl
  rw [Configuration.text_eq_iff, Encoding.text?_eq_iff, Agree, hm, hx, hy]
  refine and_congr_right fun _ => ?_
  simp only [Encoding.setting, Option.some.injEq, Setting.component.injEq]
  constructor
  · rintro ⟨e, xs, ys, ⟨rfl, rfl⟩, ⟨hname, rfl⟩, htype, hcodes⟩
    refine ⟨Encoder.name_injective hname.symm, fun h => htype ?_, fun h => hcodes ?_⟩
    · rw [h, Encoder.name]
    · rw [h, Encoder.name]
  · rintro ⟨hencoder, htype, hcodes⟩
    refine ⟨_, _, _, ⟨rfl, rfl⟩, ⟨by rw [hencoder], rfl⟩, fun h => htype ?_, fun h => hcodes ?_⟩
    · exact Encoder.name_injective (b := .sq) h
    · exact Encoder.name_injective (b := .pq) h

end Hnsw

/-- What the method gives for a configuration is its text. -/
theorem Hnsw.method_description_values {d : Defaults} {m : Method} (hm : method d = .ok m)
    (x : Configuration) : m.description x.values = x.text := by
  obtain ⟨-, rfl⟩ := method_eq_ok_iff.1 hm
  rw [Method.description, description_values, Option.getD_some]

/-! ## The language of the method -/

/-- For positive defaults the method exists, and the descriptions it gives, over
all selections it accepts, are exactly the texts of the language. Under whatever
defaults, two descriptions are the same if and only if the values agree on the
degree of the graph, on the encoder, and on its format or its number of codes;
nothing else has a part in them. There is no comma if vectors are stored as they
are. -/
theorem hnsw_descriptions :
    (∀ d : Defaults, d.Positive → ∃ method, Hnsw.method d = .ok method ∧ ∀ text,
      (∃ s v, s.setting.Ordered ∧ method.validate s = .ok v ∧ method.description v = text) ↔
        Hnsw.IsDescription text) ∧
    ∀ d₁ d₂ m₁ m₂, Hnsw.method d₁ = .ok m₁ → Hnsw.method d₂ = .ok m₂ →
      ∀ s₁ s₂ v₁ v₂, m₁.validate s₁ = .ok v₁ → m₂.validate s₂ = .ok v₂ →
        (m₁.description v₁ = m₂.description v₂ ↔ Hnsw.Agree v₁ v₂) ∧
        (∀ inner, v₁.get? "encoder" = some (.component "flat" inner) →
          ',' ∉ (m₁.description v₁).toList) := by
  refine ⟨fun d hd => ?_, fun d₁ d₂ m₁ m₂ hm₁ hm₂ s₁ s₂ v₁ v₂ hv₁ hv₂ => ?_⟩
  · have hmethod := Hnsw.method_eq_ok_iff.2 ⟨hd, rfl⟩
    refine ⟨_, hmethod, fun text => ?_⟩
    constructor
    · rintro ⟨s, v, -, hv, rfl⟩
      obtain ⟨x, rfl⟩ := Hnsw.exists_configuration hmethod hv
      rw [Hnsw.method_description_values hmethod]
      exact Hnsw.isDescription_text x
    · intro h
      obtain ⟨x, rfl⟩ := Hnsw.exists_text_of_isDescription h
      obtain ⟨s, hs, hv⟩ := Hnsw.exists_selection hmethod x
      exact ⟨s, x.values, hs, hv, Hnsw.method_description_values hmethod x⟩
  · obtain ⟨x, rfl⟩ := Hnsw.exists_configuration hm₁ hv₁
    obtain ⟨y, rfl⟩ := Hnsw.exists_configuration hm₂ hv₂
    rw [Hnsw.method_description_values hm₁, Hnsw.method_description_values hm₂]
    exact ⟨Hnsw.agree_values_iff.symm, x.no_comma_of_flat⟩

/-- One description for values that differ in what it does not show, under
different defaults, and a description without a comma. -/
theorem hnsw_descriptions_codes :
    ∃ (m₁ m₂ : Method) (v₁ v₂ v : Values),
      Defaults.Positive .builtIn ∧ Hnsw.method .builtIn = .ok m₁ ∧
      Hnsw.method ⟨8, 1, 1⟩ = .ok m₂ ∧
      m₁.validate ⟨"", [("encoder", .component "pq" [("m", .integer 4)]), ("m", .integer 8)]⟩ =
        .ok v₁ ∧
      m₂.validate ⟨"", [("encoder", .component "pq" [("m", .integer 4)])]⟩ = .ok v₂ ∧
      m₁.validate (.plain "") = .ok v ∧
      v₁ ≠ v₂ ∧ Hnsw.Agree v₁ v₂ ∧ m₁.description v₁ = m₂.description v₂ ∧
      Hnsw.IsDescription "HNSW8,PQ4x8" ∧
      v.get? "encoder" = some (.component "flat" []) ∧ ',' ∉ (m₁.description v).toList := by
  obtain ⟨m₁, m₂, v₁, v₂, v, hm₁, hm₂, hv₁, hv₂, hv, hne, h₁, h₂, hflat⟩ :
      ∃ (m₁ m₂ : Method) (v₁ v₂ v : Values), Hnsw.method .builtIn = .ok m₁ ∧
        Hnsw.method ⟨8, 1, 1⟩ = .ok m₂ ∧
        m₁.validate ⟨"", [("encoder", .component "pq" [("m", .integer 4)]), ("m", .integer 8)]⟩ =
          .ok v₁ ∧
        m₂.validate ⟨"", [("encoder", .component "pq" [("m", .integer 4)])]⟩ = .ok v₂ ∧
        m₁.validate (.plain "") = .ok v ∧ v₁ ≠ v₂ ∧
        m₁.description v₁ = "HNSW8,PQ4x8" ∧ m₂.description v₂ = "HNSW8,PQ4x8" ∧
        v.get? "encoder" = some (.component "flat" []) :=
    ⟨_, _, _, _, _, rfl, rfl, rfl, rfl, rfl, by decide, rfl, rfl, rfl⟩
  have hpositive : Defaults.Positive .builtIn := ⟨by decide, by decide, by decide⟩
  have hsame : m₁.description v₁ = m₂.description v₂ := h₁.trans h₂.symm
  have hagree := (hnsw_descriptions.2 _ _ _ _ hm₁ hm₂ _ _ _ _ hv₁ hv₂).1.1 hsame
  have hcomma := (hnsw_descriptions.2 _ _ _ _ hm₁ hm₂ _ _ _ _ hv hv₂).2 _ hflat
  obtain ⟨m, hm, hlanguage⟩ := hnsw_descriptions.1 .builtIn hpositive
  rw [hm₁] at hm
  cases hm
  have htext : Hnsw.IsDescription "HNSW8,PQ4x8" := by
    obtain ⟨x, rfl⟩ := Hnsw.exists_configuration hm₁ hv₁
    obtain ⟨s, hs, hvalid⟩ := Hnsw.exists_selection hm₁ x
    exact (hlanguage _).1 ⟨s, _, hs, hvalid, h₁⟩
  exact ⟨m₁, m₂, v₁, v₂, v, hpositive, hm₁, hm₂, hv₁, hv₂, hv, hne, hagree, hsame, htext, hflat,
    hcomma⟩

end VectorIndex
