import VectorIndex.Proofs.Schema.Conformance
import VectorIndex.Proofs.Schema.Defects

/-!
# What the HNSW method accepts

The method exists for positive defaults. What it then takes of a user and what it
makes of it can be written down without the schemas and their checks.

* `Defaults.firstRefused?`: the default for which the method is refused.
* `Encoder.Takes`, `Encoder.complete`: the settings of an encoder, and what they are
  completed to.
* `Hnsw.Takes`, `Hnsw.complete`: the same for the method.
* `Component.conforms_iff`, `Parameter.fits_iff`, `Parameter.becomes_choice_iff`: one
  level of the rules of a schema, from which these come.

`hnsw_accepts_documented` is the main statement.
-/

namespace VectorIndex

/-! ## One level of the rules -/

/-- What conforms to a component. -/
theorem Component.conforms_iff {c : Component} {settings : List (String × Setting)} :
    c.Conforms settings ↔
      (∀ k ∈ settings.map Prod.fst, k ∈ c.parameters.map Parameter.name) ∧
      ∀ p ∈ c.parameters, ∀ x, settings.lookup p.name = some x → p.Fits x :=
  ⟨fun h => by obtain ⟨hkeys, hfits⟩ := h; exact ⟨hkeys, hfits⟩, fun h => .mk h.1 h.2⟩

/-- What fits a parameter. -/
theorem Parameter.fits_iff {p : Parameter} {x : Setting} :
    p.Fits x ↔ p.admits x = true ∨
      ∃ a ∈ p.alternatives, ∃ settings, a.Conforms settings ∧ x = .component a.name settings := by
  constructor
  · intro h
    cases h with
    | scalar hadmits => exact .inl hadmits
    | choice ha hconforms => exact .inr ⟨_, ha, _, hconforms, rfl⟩
  · rintro (hadmits | ⟨a, ha, settings, hconforms, rfl⟩)
    · exact .scalar hadmits
    · exact .choice ha hconforms

theorem Parameter.fits_integer_iff {k : String} {n : Int64} {accepts : Int64 → Bool}
    {x : Setting} : (integer k n accepts).Fits x ↔ ∃ i, accepts i = true ∧ x = .integer i := by
  rw [fits_iff]
  cases x <;> simp [admits, alternatives]

theorem Parameter.fits_text_iff {k s : String} {accepts : String → Bool} {x : Setting} :
    (text k s accepts).Fits x ↔ ∃ t, accepts t = true ∧ x = .text t := by
  rw [fits_iff]
  cases x <;> simp [admits, alternatives]

theorem Parameter.fits_boolean_iff {k : String} {b : Bool} {accepts : Bool → Bool}
    {x : Setting} : (boolean k b accepts).Fits x ↔ ∃ t, accepts t = true ∧ x = .boolean t := by
  rw [fits_iff]
  cases x <;> simp [admits, alternatives]

theorem Parameter.fits_choice_iff {k : String} {s : Selection} {alternatives : List Component}
    {x : Setting} :
    (choice k s alternatives).Fits x ↔
      ∃ a ∈ alternatives, ∃ settings, a.Conforms settings ∧ x = .component a.name settings := by
  rw [fits_iff]
  simp [admits, Parameter.alternatives]

/-- A scalar stays as it is. -/
theorem Parameter.becomes_scalar_iff {p : Parameter} (h : p.kind ≠ .choice) {x y : Setting} :
    p.Becomes x y ↔ y = x := by
  constructor
  · intro hbecomes
    cases hbecomes with
    | scalar => rfl
    | choice ha =>
      rw [alternatives_eq_nil h] at ha
      exact absurd ha List.not_mem_nil
  · rintro rfl
    exact .scalar h

/-- A component becomes what completes its settings. -/
theorem Parameter.becomes_choice_iff {k : String} {s : Selection} {alternatives : List Component}
    {x y : Setting} :
    (choice k s alternatives).Becomes x y ↔
      ∃ a ∈ alternatives, ∃ settings entries, a.Completes settings entries ∧
        x = .component a.name settings ∧ y = .component a.name entries := by
  constructor
  · intro h
    cases h with
    | scalar hkind => exact absurd rfl hkind
    | choice ha hcompletes => exact ⟨_, ha, _, _, hcompletes, rfl, rfl⟩
  · rintro ⟨a, ha, settings, entries, hcompletes, rfl, rfl⟩
    exact .choice ha hcompletes

/-- What completes the settings of a component whose parameters have distinct names,
if a setting of each can become one value only. -/
theorem Component.Completes.eq_map {c : Component}
    (hnodup : (c.parameters.map Parameter.name).Nodup) {settings entries : List (String × Setting)}
    (h : c.Completes settings entries) {f : Parameter → Setting → Setting}
    (hf : ∀ p ∈ c.parameters, ∀ x y, p.Becomes x y → y = f p x) :
    entries = c.parameters.map fun p =>
      (p.name, f p ((settings.lookup p.name).getD p.default)) := by
  obtain ⟨hkeys, hbecomes⟩ := h
  refine eq_of_keys_eq (by rwa [hkeys]) (by rw [hkeys, List.map_map]; rfl) fun k y z hy hz => ?_
  obtain ⟨p, hp, heq⟩ := List.mem_map.1 hz
  cases heq
  exact hf p hp _ y (hbecomes p hp y hy)

/-! ## Encoders -/

namespace Encoder

/-- The settings that an encoder takes. -/
def Takes : Encoder → List (String × Setting) → Prop
  | flat, settings => settings = []
  | sq, settings =>
    (∀ k ∈ settings.map Prod.fst, k ∈ ["type", "clip"]) ∧
    (∀ x, settings.lookup "type" = some x → x = .text "fp16" ∨ x = .text "bf16") ∧
    ∀ x, settings.lookup "clip" = some x → ∃ b, x = .boolean b
  | pq, settings =>
    (∀ k ∈ settings.map Prod.fst, k ∈ ["m", "code_size"]) ∧
    (∀ x, settings.lookup "m" = some x → ∃ n : Int64, 1 ≤ n ∧ n ≤ 1024 ∧ x = .integer n) ∧
    ∀ x, settings.lookup "code_size" = some x → x = .integer 8

/-- The values of an encoder, given some settings. -/
def complete : Encoder → List (String × Setting) → List (String × Setting)
  | flat, _ => []
  | sq, settings =>
    [("type", (settings.lookup "type").getD (.text "fp16")),
      ("clip", (settings.lookup "clip").getD (.boolean false))]
  | pq, settings =>
    [("m", (settings.lookup "m").getD (.integer 1)),
      ("code_size", (settings.lookup "code_size").getD (.integer 8))]

theorem one_le_iff {n : Int64} : 1 ≤ n ↔ 0 < n := by
  rw [Int64.le_iff_toInt_le, Int64.lt_iff_toInt_lt]
  show (1 : Int) ≤ n.toInt ↔ 0 < n.toInt
  omega

theorem contains_formats_iff {t : String} :
    formats.contains t = true ↔ t = "fp16" ∨ t = "bf16" := by
  simp [formats]

theorem conforms_schema_iff {e : Encoder} {settings : List (String × Setting)} :
    e.schema.Conforms settings ↔ e.Takes settings := by
  rw [Component.conforms_iff]
  cases e with
  | flat =>
    rw [schema, Component.parameters, and_iff_left (List.forall_mem_nil _), List.map_nil, Takes,
      ← List.map_eq_nil_iff (f := Prod.fst), List.eq_nil_iff_forall_not_mem]
    simp only [List.not_mem_nil, imp_false]
  | sq =>
    simp only [schema, Component.parameters, Takes, List.forall_mem_cons, Parameter.fits_text_iff,
      Parameter.fits_boolean_iff, Parameter.name, List.map_cons, List.map_nil,
      contains_formats_iff, or_and_right, exists_or, exists_eq_left, true_and, List.not_mem_nil,
      false_implies, implies_true, and_true]
  | pq =>
    simp only [schema, Component.parameters, Takes, List.forall_mem_cons,
      Parameter.fits_integer_iff, Parameter.name, List.map_cons, List.map_nil, Bool.and_eq_true,
      decide_eq_true_eq, beq_iff_eq, and_assoc, exists_eq_left, one_le_iff, List.not_mem_nil,
      false_implies, implies_true, and_true]
    exact Iff.rfl

/-- The parameters of encoders are scalars. -/
theorem kind_ne_choice {e : Encoder} : ∀ p ∈ e.schema.parameters, p.kind ≠ .choice := by
  cases e <;> simp [schema, Component.parameters, Parameter.kind]

theorem eq_complete_of_completes {e : Encoder} {settings entries : List (String × Setting)}
    (h : e.schema.Completes settings entries) : entries = e.complete settings := by
  have hnodup : (e.schema.parameters.map Parameter.name).Nodup := by cases e <;> decide
  rw [h.eq_map hnodup (f := fun _ x => x)
    fun p hp x y => (Parameter.becomes_scalar_iff (kind_ne_choice p hp)).1]
  cases e <;> rfl

end Encoder

/-! ## The method -/

/-- The first default that the method refuses, by the name of its parameter. -/
def Defaults.firstRefused? (d : Defaults) : Option String :=
  ([("m", d.m), ("ef_construction", d.efConstruction), ("ef_search", d.efSearch)].find?
    fun x => x.2 ≤ 0).map Prod.fst

namespace Hnsw

/-- The settings that the method takes. -/
structure Takes (settings : List (String × Setting)) : Prop where
  keys : ∀ k ∈ settings.map Prod.fst, k ∈ ["m", "ef_construction", "ef_search", "encoder"]
  positive : ∀ k ∈ ["m", "ef_construction", "ef_search"], ∀ x, settings.lookup k = some x →
    ∃ n : Int64, 0 < n ∧ x = .integer n
  encoder : ∀ x, settings.lookup "encoder" = some x →
    ∃ (e : Encoder) (inner : List (String × Setting)), e.Takes inner ∧ x = .component e.name inner

/-- The encoder with its values. -/
def completeEncoder : Setting → Setting
  | .component name settings =>
    .component name (((Encoder.ofName? name).map (·.complete settings)).getD [])
  | x => x

/-- A setting of a parameter of the method with its values. -/
def completeSetting (p : Parameter) (x : Setting) : Setting :=
  if p.kind = .choice then completeEncoder x else x

/-- The values of the method, given some settings. -/
def complete (d : Defaults) (settings : List (String × Setting)) : List (String × Setting) :=
  [("m", (settings.lookup "m").getD (.integer d.m)),
    ("ef_construction", (settings.lookup "ef_construction").getD (.integer d.efConstruction)),
    ("ef_search", (settings.lookup "ef_search").getD (.integer d.efSearch)),
    ("encoder", completeEncoder ((settings.lookup "encoder").getD (.component "flat" [])))]

theorem knob_eq (k : String) (n : Int64) :
    knob k n = if n ≤ 0 then .error (.invalidDefault k) else .ok (.integer k n (0 < ·)) := by
  rw [knob, Parameter.ofInteger, Parameter.checked_scalar (by simp [Parameter.kind])]
  by_cases hn : n ≤ 0
  · have hpos : ¬0 < n := Int64.not_lt.2 hn
    simp [Parameter.admits, Parameter.default, Parameter.name, hn, hpos]
  · have hpos : 0 < n := Int64.not_le.1 hn
    simp [Parameter.admits, Parameter.default, hn, hpos]

/-- The method, or the first default that it refuses. -/
theorem method_eq (d : Defaults) :
    method d = match d.firstRefused? with
      | some k => .error (.invalidDefault k)
      | none => .ok ⟨schema d, spaces⟩ := by
  simp only [method, component, knob_eq, encoder_eq, Defaults.firstRefused?, List.find?_cons]
  by_cases hm : d.m ≤ 0
  · simp only [hm, if_true, decide_true]
    rfl
  by_cases hconstruction : d.efConstruction ≤ 0
  · simp only [hm, hconstruction, if_true, if_false, decide_true, decide_false]
    rfl
  by_cases hsearch : d.efSearch ≤ 0
  · simp only [hm, hconstruction, hsearch, if_true, if_false, decide_true, decide_false]
    rfl
  · simp only [hm, hconstruction, hsearch, if_false, decide_false]
    rfl

/-- What fits the parameter that selects an encoder. -/
theorem fits_encoderChoice_iff {x : Setting} :
    encoderChoice.Fits x ↔ ∃ (e : Encoder) (inner : List (String × Setting)),
      e.Takes inner ∧ x = .component e.name inner := by
  rw [encoderChoice, Parameter.fits_choice_iff]
  constructor
  · rintro ⟨a, ha, inner, hconforms, rfl⟩
    obtain ⟨e, -, rfl⟩ := List.mem_map.1 ha
    exact ⟨e, inner, Encoder.conforms_schema_iff.1 hconforms, by rw [Encoder.name_schema]⟩
  · rintro ⟨e, inner, htakes, rfl⟩
    exact ⟨e.schema, List.mem_map_of_mem e.mem_all, inner, Encoder.conforms_schema_iff.2 htakes,
      by rw [Encoder.name_schema]⟩

theorem conforms_schema_iff {d : Defaults} {settings : List (String × Setting)} :
    (schema d).Conforms settings ↔ Takes settings := by
  simp only [Component.conforms_iff, schema, Component.parameters, List.forall_mem_cons,
    List.not_mem_nil, false_implies, implies_true, and_true, Parameter.fits_integer_iff,
    fits_encoderChoice_iff, decide_eq_true_eq]
  constructor
  · rintro ⟨hkeys, hm, hconstruction, hsearch, hencoder⟩
    refine ⟨hkeys, ?_, hencoder⟩
    exact List.forall_mem_cons.2 ⟨hm, List.forall_mem_cons.2
      ⟨hconstruction, List.forall_mem_singleton.2 hsearch⟩⟩
  · rintro ⟨hkeys, hpositive, hencoder⟩
    exact ⟨hkeys, hpositive "m" (by decide), hpositive "ef_construction" (by decide),
      hpositive "ef_search" (by decide), hencoder⟩

/-- What a setting of the parameter that selects an encoder becomes. -/
theorem eq_of_encoderChoice_becomes {x y : Setting} (h : encoderChoice.Becomes x y) :
    y = completeEncoder x := by
  obtain ⟨a, ha, inner, entries, hcompletes, rfl, rfl⟩ := Parameter.becomes_choice_iff.1 h
  obtain ⟨e, -, rfl⟩ := List.mem_map.1 ha
  rw [Encoder.name_schema, completeEncoder, Encoder.ofName?_name,
    Encoder.eq_complete_of_completes hcompletes]
  rfl

/-- The one choice of the method is that of an encoder. -/
theorem eq_completeSetting_of_becomes {d : Defaults} {p : Parameter}
    (hp : p ∈ (schema d).parameters) {x y : Setting} (h : p.Becomes x y) :
    y = completeSetting p x := by
  by_cases hkind : p.kind = .choice
  · rw [completeSetting, if_pos hkind]
    obtain rfl : p = encoderChoice := by
      simp only [schema, Component.parameters, List.mem_cons, List.not_mem_nil, or_false] at hp
      rcases hp with rfl | rfl | rfl | rfl
      · cases hkind
      · cases hkind
      · cases hkind
      · rfl
    exact eq_of_encoderChoice_becomes h
  · rw [completeSetting, if_neg hkind]
    exact (Parameter.becomes_scalar_iff hkind).1 h

theorem eq_complete_of_completes {d : Defaults} {settings entries : List (String × Setting)}
    (h : (schema d).Completes settings entries) : entries = complete d settings := by
  rw [h.eq_map (names_nodup d) (f := completeSetting)
    fun p hp x y => eq_completeSetting_of_becomes hp]
  rfl

/-- What the component of the method makes of a selection. -/
theorem validate_schema_eq_ok_iff {d : Defaults} (hpositive : d.Positive) {s : Selection}
    {v : Values} :
    (schema d).validate s = .ok v ↔ Takes s.settings ∧ v = ⟨name, complete d s.settings⟩ := by
  have hsound := (built_schema hpositive).sound
  have hvalues : ∀ w, (schema d).validate s = .ok w → w = ⟨name, complete d s.settings⟩ := by
    intro w hw
    obtain ⟨wname, entries⟩ := w
    obtain rfl : wname = name := (Component.validate_eq_ok_iff.1 hw).1
    obtain rfl : entries = complete d s.settings :=
      eq_complete_of_completes (hsound.completes_of_validate hw)
    rfl
  constructor
  · intro hv
    exact ⟨conforms_schema_iff.1 ((hsound.exists_validate_iff_conforms s).1 ⟨v, hv⟩), hvalues v hv⟩
  · rintro ⟨htakes, rfl⟩
    obtain ⟨w, hw⟩ := (hsound.exists_validate_iff_conforms s).2 (conforms_schema_iff.2 htakes)
    rw [← hvalues w hw]
    exact hw

end Hnsw

/-! ## The documented configurations -/

/-- The method exists exactly for positive defaults, and is otherwise refused for the
first that is not positive. It accepts the selections whose settings it takes, under any
name, and completes the settings. -/
theorem hnsw_accepts_documented (d : Defaults) :
    ((∃ m, Hnsw.method d = .ok m) ↔ d.Positive) ∧
    (∀ e, Hnsw.method d = .error e ↔ ∃ k, d.firstRefused? = some k ∧ e = .invalidDefault k) ∧
    ∀ m, Hnsw.method d = .ok m → ∀ s v, m.validate s = .ok v ↔
      Hnsw.Takes s.settings ∧ v = ⟨Hnsw.name, Hnsw.complete d s.settings⟩ := by
  refine ⟨?_, fun e => ?_, fun m hm s v => ?_⟩
  · simp only [Hnsw.method_eq_ok_iff, exists_and_left, exists_eq, and_true]
  · rw [Hnsw.method_eq]
    cases d.firstRefused? with
    | none => simp
    | some k => simp [eq_comm]
  · obtain ⟨hpositive, rfl⟩ := Hnsw.method_eq_ok_iff.1 hm
    exact Hnsw.validate_schema_eq_ok_iff hpositive

/-- The built-in defaults under settings at both levels. -/
theorem hnsw_accepts_documented_codes :
    ∃ m, Hnsw.method .builtIn = .ok m ∧
      m.validate ⟨"", [("encoder", .component "pq" [("m", .integer 8)]), ("m", .integer 32)]⟩ =
        .ok ⟨"hnsw", [("m", .integer 32), ("ef_construction", .integer 100),
          ("ef_search", .integer 100),
          ("encoder", .component "pq" [("m", .integer 8), ("code_size", .integer 8)])]⟩ ∧
      Hnsw.Takes [("encoder", .component "pq" [("m", .integer 8)]), ("m", .integer 32)] := by
  let s : Selection := ⟨"", [("encoder", .component "pq" [("m", .integer 8)]), ("m", .integer 32)]⟩
  obtain ⟨m, hm, hv⟩ : ∃ m, Hnsw.method .builtIn = .ok m ∧ m.validate s = .ok
      ⟨"hnsw", [("m", .integer 32), ("ef_construction", .integer 100),
        ("ef_search", .integer 100),
        ("encoder", .component "pq" [("m", .integer 8), ("code_size", .integer 8)])]⟩ :=
    ⟨_, rfl, rfl⟩
  exact ⟨m, hm, hv, (((hnsw_accepts_documented .builtIn).2.2 m hm s _).1 hv).1⟩

end VectorIndex
