import VectorIndex.Hnsw
import VectorIndex.Proofs.Schema.Construction

/-!
# The HNSW schema

The component of the method and those of its encoders come from the checked
constructors, so that what holds of every schema that can be built holds of
them (`Encoder.built`, `Hnsw.built`).

The checks let every encoder pass, and the method if its defaults are positive.
`Encoder.schema` and `Hnsw.schema` are the trees that come out
(`Encoder.component_eq`, `Hnsw.component_eq_ok_iff`).
-/

namespace VectorIndex

/-- Every encoder is built. -/
theorem Encoder.built {e : Encoder} {c : Component} (h : e.component = .ok c) : c.Built := by
  cases e with
  | flat =>
    rw [Encoder.component] at h
    exact .of_build (List.forall_mem_nil _) h
  | sq =>
    simp only [Encoder.component, bind_eq_ok_iff] at h
    obtain ⟨format, hformat, clip, hclip, h⟩ := h
    refine .of_build (List.forall_mem_cons.2 ⟨.ofText hformat, ?_⟩) h
    exact List.forall_mem_singleton.2 (.ofBoolean hclip)
  | pq =>
    simp only [Encoder.component, bind_eq_ok_iff] at h
    obtain ⟨codes, hcodes, size, hsize, h⟩ := h
    refine .of_build (List.forall_mem_cons.2 ⟨.ofInteger hcodes, ?_⟩) h
    exact List.forall_mem_singleton.2 (.ofInteger hsize)

theorem Encoder.mem_all (e : Encoder) : e ∈ all := by
  cases e <;> decide

theorem Encoder.ofName?_name (e : Encoder) : ofName? e.name = some e := by
  cases e <;> decide

/-- Encoders are told apart by their names. -/
theorem Encoder.name_injective {a b : Encoder} (h : a.name = b.name) : a = b := by
  have hfound := Encoder.ofName?_name a
  rw [h, Encoder.ofName?_name b] at hfound
  exact (Option.some.inj hfound).symm

namespace Hnsw

/-- The choice of an encoder is built. -/
theorem built_encoder {p : Parameter} (h : encoder = .ok p) : p.Built := by
  simp only [encoder, bind_eq_ok_iff] at h
  obtain ⟨alternatives, halternatives, h⟩ := h
  refine .ofChoice (fun c hc => ?_) h
  obtain ⟨e, -, he⟩ := exists_of_mem_mapM halternatives hc
  exact Encoder.built he

/-- The component of the method is built, whatever the defaults are under
which it is not refused. -/
theorem built {d : Defaults} {c : Component} (h : component d = .ok c) : c.Built := by
  simp only [component, bind_eq_ok_iff] at h
  obtain ⟨m, hm, efConstruction, hconstruction, efSearch, hsearch, e, he, h⟩ := h
  refine .of_build (List.forall_mem_cons.2 ⟨.ofInteger hm, ?_⟩) h
  refine List.forall_mem_cons.2 ⟨.ofInteger hconstruction, ?_⟩
  refine List.forall_mem_cons.2 ⟨.ofInteger hsearch, ?_⟩
  exact List.forall_mem_singleton.2 (built_encoder he)

end Hnsw

/-! ## The trees -/

/-- The component of an encoder, as it comes out of the checks. -/
def Encoder.schema : Encoder → Component
  | flat => .mk "flat" [] none false
  | sq =>
    .mk "sq" [.text "type" "fp16" formats.contains, .boolean "clip" false fun _ => true]
      (some ⟨"SQ", [⟨"type", "", ""⟩]⟩) false
  | pq =>
    .mk "pq"
      [.integer "m" 1 fun n => 0 < n && n ≤ maxCodes, .integer "code_size" codeSize (· == codeSize)]
      (some ⟨"PQ", [⟨"m", "", ""⟩, ⟨"code_size", "x", ""⟩]⟩) true

theorem Encoder.component_eq (e : Encoder) : e.component = .ok e.schema := by
  cases e <;> rfl

theorem Encoder.name_schema (e : Encoder) : e.schema.name = e.name := by
  cases e <;> rfl

/-- Every default is positive. -/
def Defaults.Positive (d : Defaults) : Prop :=
  0 < d.m ∧ 0 < d.efConstruction ∧ 0 < d.efSearch

namespace Hnsw

/-- The choice of an encoder, as it comes out of the checks. -/
def encoderChoice : Parameter :=
  .choice encoderParameter (.plain Encoder.flat.name) (Encoder.all.map Encoder.schema)

theorem encoder_eq : encoder = .ok encoderChoice := rfl

/-- The component of the method, as it comes out of the checks. -/
def schema (d : Defaults) : Component :=
  .mk name
    [.integer "m" d.m (0 < ·), .integer "ef_construction" d.efConstruction (0 < ·),
      .integer "ef_search" d.efSearch (0 < ·), encoderChoice]
    (some ⟨"HNSW", [⟨"m", "", ""⟩, ⟨encoderParameter, ",", ""⟩]⟩) false

theorem names_nodup (d : Defaults) : ((schema d).parameters.map Parameter.name).Nodup := by
  show ["m", "ef_construction", "ef_search", "encoder"].Nodup
  decide

theorem knob_eq_ok_iff {k : String} {n : Int64} {p : Parameter} :
    knob k n = .ok p ↔ 0 < n ∧ p = .integer k n (0 < ·) := by
  rw [knob, Parameter.ofInteger, Parameter.checked_eq_ok_iff]
  refine and_congr_left fun _ => ?_
  by_cases hn : 0 < n <;>
    simp [Parameter.accepts, Parameter.resolve, Parameter.default, Except.isOk, Except.toBool, hn]

/-- The component is refused unless its defaults are positive. -/
theorem component_eq_ok_iff {d : Defaults} {c : Component} :
    component d = .ok c ↔ d.Positive ∧ c = schema d := by
  simp only [component, bind_eq_ok_iff, knob_eq_ok_iff, encoder_eq]
  constructor
  · intro h
    obtain ⟨m, ⟨hm, rfl⟩, efConstruction, ⟨hconstruction, rfl⟩, efSearch, ⟨hsearch, rfl⟩,
      e, he, h⟩ := h
    cases he
    cases h
    exact ⟨⟨hm, hconstruction, hsearch⟩, rfl⟩
  · intro h
    obtain ⟨⟨hm, hconstruction, hsearch⟩, rfl⟩ := h
    exact ⟨_, ⟨hm, rfl⟩, _, ⟨hconstruction, rfl⟩, _, ⟨hsearch, rfl⟩, _, rfl, rfl⟩

/-- The method is its component and the spaces it supports. -/
theorem method_eq_ok_iff {d : Defaults} {m : Method} :
    method d = .ok m ↔ d.Positive ∧ m = ⟨schema d, spaces⟩ := by
  rw [method, map_eq_ok_iff]
  simp only [component_eq_ok_iff]
  constructor
  · intro h
    obtain ⟨c, ⟨hpositive, rfl⟩, rfl⟩ := h
    exact ⟨hpositive, rfl⟩
  · intro h
    obtain ⟨hpositive, rfl⟩ := h
    exact ⟨_, ⟨hpositive, rfl⟩, rfl⟩

theorem built_schema {d : Defaults} (h : d.Positive) : (schema d).Built :=
  built (component_eq_ok_iff.2 ⟨h, rfl⟩)

end Hnsw

end VectorIndex
