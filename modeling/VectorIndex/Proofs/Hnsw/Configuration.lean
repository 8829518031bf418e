import VectorIndex.Proofs.Schema.FixedPoint
import VectorIndex.Proofs.Schema.Selected

/-!
# Configurations of the HNSW method

The values that the method returns have a fixed form: three positive integers
and an encoder with settings of its own. They are the same for all defaults,
since a default is only one of the values that a selection may set.

* `Encoding`, `Configuration`: the values as records, which cannot hold what the
  method would refuse.
* `Encoder.filled_schema_iff`, `Hnsw.filled_schema_iff`: complete values are
  those of a record.
* `Hnsw.exists_configuration`, `Hnsw.exists_selection`: the method returns the
  values of every record and no others.
-/

namespace VectorIndex

/-- An encoder with its settings. The size of a code is no choice. -/
inductive Encoding where
  | flat
  | sq (format : String) (supported : format ∈ Encoder.formats) (clip : Bool)
  | pq (codes : Int64) (positive : 0 < codes) (bounded : codes ≤ Encoder.maxCodes)

namespace Encoding

/-- The encoder that is used. -/
def encoder : Encoding → Encoder
  | flat => .flat
  | sq .. => .sq
  | pq .. => .pq

/-- The settings of the encoder in the order of declaration. -/
def entries : Encoding → List (String × Setting)
  | flat => []
  | sq format _ clip => [("type", .text format), ("clip", .boolean clip)]
  | pq codes _ _ => [("m", .integer codes), ("code_size", .integer Encoder.codeSize)]

/-- The encoder as the value of a parameter. -/
def setting (x : Encoding) : Setting :=
  .component x.encoder.name x.entries

end Encoding

/-- A configuration of the method. -/
structure Configuration where
  m : Int64
  efConstruction : Int64
  efSearch : Int64
  encoding : Encoding
  m_pos : 0 < m
  efConstruction_pos : 0 < efConstruction
  efSearch_pos : 0 < efSearch

namespace Configuration

/-- The values of the method's parameters in the order of declaration. -/
def entries (x : Configuration) : List (String × Setting) :=
  [("m", .integer x.m), ("ef_construction", .integer x.efConstruction),
    ("ef_search", .integer x.efSearch), (Hnsw.encoderParameter, x.encoding.setting)]

/-- The configuration as values of the method. -/
def values (x : Configuration) : Values :=
  ⟨Hnsw.name, x.entries⟩

end Configuration

/-! ## Complete values -/

/-- The complete values of an encoder. -/
theorem Encoder.filled_schema_iff {e : Encoder} {entries : List (String × Setting)} :
    e.schema.Filled entries ↔ ∃ x : Encoding, x.encoder = e ∧ entries = x.entries := by
  cases e with
  | flat =>
    rw [Component.filled_iff_forall₂ (by decide)]
    simp only [schema, Component.parameters, List.forall₂_nil_left_iff]
    constructor
    · intro h
      exact ⟨.flat, rfl, h⟩
    · rintro ⟨x, hx, rfl⟩
      cases x with
      | flat => rfl
      | sq | pq => cases hx
  | sq =>
    rw [Component.filled_iff_forall₂ (by decide)]
    simp only [schema, Component.parameters, forall₂_cons_iff (R := Parameter.Holds),
      List.forall₂_nil_left_iff, Parameter.holds_text_iff, Parameter.holds_boolean_iff]
    constructor
    · rintro ⟨-, -, rfl, ⟨format, hformat, rfl⟩, -, -, rfl, ⟨clip, -, rfl⟩, rfl⟩
      exact ⟨.sq format (List.contains_iff_mem.1 hformat) clip, rfl, rfl⟩
    · rintro ⟨x, hx, rfl⟩
      cases x with
      | sq format hformat clip =>
        exact ⟨_, _, rfl, ⟨format, List.contains_iff_mem.2 hformat, rfl⟩, _, _, rfl,
          ⟨clip, trivial, rfl⟩, rfl⟩
      | flat | pq => cases hx
  | pq =>
    rw [Component.filled_iff_forall₂ (by decide)]
    simp only [schema, Component.parameters, forall₂_cons_iff (R := Parameter.Holds),
      List.forall₂_nil_left_iff, Parameter.holds_integer_iff]
    constructor
    · rintro ⟨-, -, rfl, ⟨codes, hcodes, rfl⟩, -, -, rfl, ⟨size, hsize, rfl⟩, rfl⟩
      obtain rfl : size = codeSize := by simpa using hsize
      obtain ⟨hpos, hmax⟩ : 0 < codes ∧ codes ≤ maxCodes := by simpa using hcodes
      exact ⟨.pq codes hpos hmax, rfl, rfl⟩
    · rintro ⟨x, hx, rfl⟩
      cases x with
      | pq codes hpos hmax =>
        exact ⟨_, _, rfl, ⟨codes, by simp [hpos, hmax], rfl⟩, _, _, rfl,
          ⟨codeSize, by simp, rfl⟩, rfl⟩
      | flat | sq => cases hx

namespace Hnsw

/-- The complete values of the parameter that selects an encoder. -/
theorem holds_encoderChoice_iff {x : Setting} :
    encoderChoice.Holds x ↔ ∃ e : Encoding, x = e.setting := by
  rw [encoderChoice, Parameter.holds_choice_iff]
  constructor
  · rintro ⟨a, ha, entries, hfilled, rfl⟩
    obtain ⟨e, -, rfl⟩ := List.mem_map.1 ha
    obtain ⟨y, rfl, rfl⟩ := Encoder.filled_schema_iff.1 hfilled
    exact ⟨y, by rw [Encoding.setting, Encoder.name_schema]⟩
  · rintro ⟨y, rfl⟩
    refine ⟨y.encoder.schema, List.mem_map_of_mem y.encoder.mem_all, y.entries,
      Encoder.filled_schema_iff.2 ⟨y, rfl, rfl⟩, ?_⟩
    rw [Encoding.setting, Encoder.name_schema]

/-- The complete values of the method. -/
theorem filled_schema_iff {d : Defaults} {entries : List (String × Setting)} :
    (schema d).Filled entries ↔ ∃ x : Configuration, entries = x.entries := by
  rw [Component.filled_iff_forall₂ (names_nodup d)]
  simp only [schema, Component.parameters, forall₂_cons_iff (R := Parameter.Holds),
    List.forall₂_nil_left_iff, Parameter.holds_integer_iff, holds_encoderChoice_iff]
  constructor
  · rintro ⟨-, -, rfl, ⟨m, hm, rfl⟩, -, -, rfl, ⟨construction, hconstruction, rfl⟩,
      -, -, rfl, ⟨search, hsearch, rfl⟩, -, -, rfl, ⟨e, rfl⟩, rfl⟩
    exact ⟨⟨m, construction, search, e, of_decide_eq_true hm, of_decide_eq_true hconstruction,
      of_decide_eq_true hsearch⟩, rfl⟩
  · rintro ⟨x, rfl⟩
    exact ⟨_, _, rfl, ⟨x.m, decide_eq_true x.m_pos, rfl⟩, _, _, rfl,
      ⟨x.efConstruction, decide_eq_true x.efConstruction_pos, rfl⟩, _, _, rfl,
      ⟨x.efSearch, decide_eq_true x.efSearch_pos, rfl⟩, _, _, rfl, ⟨x.encoding, rfl⟩, rfl⟩

/-- Every value that the method returns is a configuration. -/
theorem exists_configuration {d : Defaults} {m : Method} (hm : method d = .ok m) {s : Selection}
    {v : Values} (hv : m.validate s = .ok v) : ∃ x : Configuration, v = x.values := by
  obtain ⟨hpositive, rfl⟩ := method_eq_ok_iff.1 hm
  have howns := (built_schema hpositive).owns hv
  obtain ⟨x, hx⟩ := filled_schema_iff.1 howns.filled
  obtain ⟨name, entries⟩ := v
  obtain rfl : name = Hnsw.name := howns.name_eq
  exact ⟨x, by rw [Configuration.values, ← hx]⟩

/-- Every configuration is returned for a selection, the one that spells it out. -/
theorem exists_selection {d : Defaults} {m : Method} (hm : method d = .ok m)
    (x : Configuration) : ∃ s : Selection, s.setting.Ordered ∧ m.validate s = .ok x.values := by
  obtain ⟨hpositive, rfl⟩ := method_eq_ok_iff.1 hm
  have hfilled : (schema d).Filled x.entries := filled_schema_iff.2 ⟨x, rfl⟩
  exact ⟨Selection.sorted ⟨Hnsw.name, x.entries⟩, Setting.ordered_sorted x.values.setting,
    (built_schema hpositive).sound.validate_sorted hfilled⟩

end Hnsw

end VectorIndex
