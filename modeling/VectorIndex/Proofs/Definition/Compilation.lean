import VectorIndex.Definition
import VectorIndex.Proofs.Hnsw
import VectorIndex.Proofs.Schema.Delivery

/-!
# Compiled definitions

Compiling a definition asks three questions in turn: whether the method has its
name, whether the method supports its space, and whether its settings pass. The
first that is answered by no is the failure, whatever the others would be.

* `Definition.compile_of_name_ne`, `Definition.compile_of_name_eq`,
  `Method.validateWithSpace_eq`: one step each.
* `Definition.compile_eq_ok_iff`: when a definition compiles, and to what.
* `Compiled.Coherent`: the parts of what is compiled belong to the same values,
  and the description is the same in the map and beside it.
* `Definition.Compiles`: what a definition comes to by a method, one case for
  each of the answers. `compile_eq_iff` says that compiling comes to just that.
-/

namespace VectorIndex

/-! ## The steps -/

/-- The compiled form that a method makes of values. -/
def Method.compiled (m : Method) (space : Space) (v : Values) : Compiled where
  space := space
  description := m.description v
  trainingRequired := m.component.trainingRequired v
  map := m.component.settingsMap v
  values := v

/-- The space is looked at before the settings. -/
theorem Method.validateWithSpace_eq (m : Method) (s : Selection) (space : Space) :
    m.validateWithSpace s space =
      if space ∈ m.spaces then (m.component.validate s).mapError .violation
      else .error (.unsupportedSpace m.name space) := by
  unfold validateWithSpace validateSpace
  by_cases hspace : space ∈ m.spaces
  · rw [if_pos (List.contains_iff_mem.2 hspace), if_pos hspace]
    rfl
  · rw [if_neg (fun h => hspace (List.contains_iff_mem.1 h)), if_neg hspace]
    rfl

namespace Definition

variable {d : Definition} {m : Method}

theorem compile_of_name_ne (h : d.name ≠ m.name) :
    d.compile m = .error (.unknownMethod d.name) :=
  if_pos h

/-- Under the right name, the values that pass are compiled. -/
theorem compile_of_name_eq (h : d.name = m.name) :
    d.compile m = (m.validateWithSpace d.selection d.effectiveSpace).map
      (m.compiled d.effectiveSpace) := by
  unfold compile
  rw [if_neg (not_not.2 h)]
  cases m.validateWithSpace d.selection d.effectiveSpace <;> rfl

/-- When a definition compiles, and to what. -/
theorem compile_eq_ok_iff {r : Compiled} :
    d.compile m = .ok r ↔ d.name = m.name ∧ d.effectiveSpace ∈ m.spaces ∧
      ∃ v, m.component.validate d.selection = .ok v ∧ m.compiled d.effectiveSpace v = r := by
  by_cases hname : d.name = m.name
  · rw [compile_of_name_eq hname, map_eq_ok_iff, m.validateWithSpace_eq]
    by_cases hspace : d.effectiveSpace ∈ m.spaces
    · simp only [hspace, ↓reduceIte, mapError_eq_ok_iff, hname, true_and]
    · simp only [hspace, ↓reduceIte, false_and, and_false, reduceCtorEq, exists_false]
  · simp only [compile_of_name_ne hname, hname, false_and, reduceCtorEq]

end Definition

/-! ## What is compiled -/

/-- The parts of what is compiled by a component belong to its values. The
description is the one that the map has; it is put together from what the slots
of the template show of the values. Without a template the description is empty
and the map has none. -/
structure Compiled.Coherent (r : Compiled) (c : Component) : Prop where
  trainingRequired_eq : r.trainingRequired = c.trainingRequired r.values
  map_eq : r.map = c.settingsMap r.values
  described : ∀ t, c.template = some t →
    r.map.member? "index_description" = some (.string r.description) ∧
    ∃ pieces, List.Forall₂ (Slot.Shows c r.values) t.slots pieces ∧
      r.description = t.keyword ++ String.join pieces
  bare : c.template = none →
    r.map.member? "index_description" = none ∧ r.description = ""

/-- What a method makes of values that its component owns is coherent. -/
theorem Method.coherent_compiled {m : Method} {v : Values} (h : m.component.Owns v)
    (space : Space) : (m.compiled space v).Coherent m.component where
  trainingRequired_eq := rfl
  map_eq := rfl
  described t ht := by
    obtain ⟨pieces, hpieces, hdescription⟩ := h.description_eq ht
    have htext : (m.compiled space v).description = t.keyword ++ String.join pieces := by
      show (m.component.description v).getD "" = _
      rw [hdescription, Option.getD_some]
    refine ⟨?_, pieces, hpieces, htext⟩
    rw [htext]
    show (m.component.settingsMap v).member? "index_description" = _
    rw [Component.member?_settingsMap, hdescription, Option.map_some]
  bare ht := by
    have hnone : m.component.description v = none := by
      rw [Component.description, ht, Option.map_none]
    constructor
    · show (m.component.settingsMap v).member? "index_description" = none
      rw [Component.member?_settingsMap, hnone, Option.map_none]
    · show (m.component.description v).getD "" = ""
      rw [hnone, Option.getD_none]

/-- Space and values tell a coherent compiled form. -/
theorem Compiled.Coherent.eq_compiled {m : Method} {r : Compiled} (h : r.Coherent m.component) :
    r = m.compiled r.space r.values := by
  obtain ⟨space, description, trainingRequired, map, v⟩ := r
  obtain ⟨htraining, hmap, hdescribed, hbare⟩ := h
  simp only at htraining hmap hdescribed hbare
  subst htraining hmap
  have hdescription : description = m.description v := by
    rw [Method.description]
    rw [Component.member?_settingsMap] at hdescribed hbare
    cases ht : m.component.template with
    | none =>
      obtain ⟨hnone, hempty⟩ := hbare ht
      rw [Option.map_eq_none_iff] at hnone
      rw [hnone, hempty, Option.getD_none]
    | some t =>
      obtain ⟨hsome, -⟩ := hdescribed t ht
      obtain ⟨text, htext, heq⟩ := Option.map_eq_some_iff.1 hsome
      rw [htext, Option.getD_some]
      exact (Json.string.inj heq).symm
  rw [hdescription]
  rfl

/-! ## The order of the questions -/

/-- What a definition comes to by a method. Each failure supposes that the questions
before it are answered by yes, and nothing of those behind it. A definition that
names no space is for the Euclidean one. -/
inductive Definition.Compiles (m : Method) (d : Definition) : Except Failure Compiled → Prop where
  | otherMethod : d.name ≠ m.name → Compiles m d (.error (.unknownMethod d.name))
  | otherSpace {space} :
      d.name = m.name → space = d.space.getD .l2 → space ∉ m.spaces →
      Compiles m d (.error (.unsupportedSpace m.name space))
  | violation {space e} :
      d.name = m.name → space = d.space.getD .l2 → space ∈ m.spaces →
      m.component.validate ⟨d.name, d.settings⟩ = .error e →
      Compiles m d (.error (.violation e))
  | compiled {r} :
      d.name = m.name → r.space = d.space.getD .l2 → r.space ∈ m.spaces →
      m.component.validate ⟨d.name, d.settings⟩ = .ok r.values → r.Coherent m.component →
      Compiles m d (.ok r)

/-- Compiling comes to what the questions decide. -/
theorem Definition.Compiles.compile_eq {m : Method} {d : Definition}
    {outcome : Except Failure Compiled} (h : d.Compiles m outcome) : d.compile m = outcome := by
  cases h with
  | otherMethod hname => exact compile_of_name_ne hname
  | otherSpace hname hspace hunsupported =>
    subst hspace
    rw [compile_of_name_eq hname, m.validateWithSpace_eq]
    show Except.map _ (if d.space.getD .l2 ∈ m.spaces then _ else _) = _
    rw [if_neg hunsupported]
    rfl
  | violation hname hspace hsupported hviolation =>
    subst hspace
    rw [compile_of_name_eq hname, m.validateWithSpace_eq]
    show Except.map _ (if d.space.getD .l2 ∈ m.spaces then
      Except.mapError _ (m.component.validate ⟨d.name, d.settings⟩) else _) = _
    rw [if_pos hsupported, hviolation]
    rfl
  | @compiled r hname hspace hsupported hvalid hcoherent =>
    refine compile_eq_ok_iff.2 ⟨hname, ?_, r.values, hvalid, ?_⟩
    · exact hspace.subst (motive := (· ∈ m.spaces)) hsupported
    · show m.compiled (d.space.getD .l2) r.values = r
      rw [← hspace]
      exact hcoherent.eq_compiled.symm

/-- The questions decide what compiling by a built component comes to. -/
theorem Definition.compiles_compile {m : Method} (hm : m.component.Built) (d : Definition) :
    d.Compiles m (d.compile m) := by
  by_cases hname : d.name = m.name
  · by_cases hsupported : d.space.getD .l2 ∈ m.spaces
    · cases hvalid : m.component.validate ⟨d.name, d.settings⟩ with
      | error e =>
        have hviolation : d.Compiles m (.error (.violation e)) :=
          .violation hname rfl hsupported hvalid
        rwa [hviolation.compile_eq]
      | ok v =>
        have hcompiled : d.Compiles m (.ok (m.compiled (d.space.getD .l2) v)) :=
          .compiled hname rfl hsupported hvalid (Method.coherent_compiled (hm.owns hvalid) _)
        rwa [hcompiled.compile_eq]
    · have hspace : d.Compiles m (.error (.unsupportedSpace m.name (d.space.getD .l2))) :=
        .otherSpace hname rfl hsupported
      rwa [hspace.compile_eq]
  · have hmethod : d.Compiles m (.error (.unknownMethod d.name)) := .otherMethod hname
    rwa [hmethod.compile_eq]

/-- A definition comes to what the questions decide, in their order: the name of the
method, the space, the settings. What comes out if all are answered by yes belongs to
one and the same values. -/
theorem compile_eq_iff {m : Method} (hm : m.component.Built) (d : Definition)
    (outcome : Except Failure Compiled) : d.compile m = outcome ↔ d.Compiles m outcome :=
  ⟨fun h => h ▸ Definition.compiles_compile hm d, Definition.Compiles.compile_eq⟩

/-- A definition in which everything is wrong, the same under the name of the method,
the same for a supported space, and one in which everything is right. -/
theorem compile_eq_iff_hnsw :
    ∃ (m : Method) (r : Compiled), Hnsw.method .builtIn = .ok m ∧ m.component.Built ∧
      Definition.compile ⟨"ivf", some .cosine, [("a", .boolean true), ("m", .integer 0)]⟩ m =
        .error (.unknownMethod "ivf") ∧
      Definition.compile ⟨"hnsw", some .cosine, [("a", .boolean true), ("m", .integer 0)]⟩ m =
        .error (.unsupportedSpace "hnsw" .cosine) ∧
      Definition.compile ⟨"hnsw", none, [("a", .boolean true), ("m", .integer 0)]⟩ m =
        .error (.violation (.invalidSetting "m" (.integer 0))) ∧
      Definition.compile
        ⟨"hnsw", some .hamming, [("encoder", .component "pq" [("m", .integer 4)])]⟩ m = .ok r ∧
      r.description = "HNSW16,PQ4x8" ∧ r.trainingRequired = true ∧
      r.Coherent m.component := by
  obtain ⟨m, r, hm, hr, hdescription, htraining⟩ :
      ∃ (m : Method) (r : Compiled), Hnsw.method .builtIn = .ok m ∧
        Definition.compile
          ⟨"hnsw", some .hamming, [("encoder", .component "pq" [("m", .integer 4)])]⟩ m = .ok r ∧
        r.description = "HNSW16,PQ4x8" ∧ r.trainingRequired = true :=
    ⟨_, _, rfl, rfl, rfl, rfl⟩
  obtain ⟨hpositive, rfl⟩ := Hnsw.method_eq_ok_iff.1 hm
  have hbuilt := Hnsw.built_schema hpositive
  refine ⟨_, r, hm, hbuilt, ?_, ?_, ?_, hr, hdescription, htraining, ?_⟩
  · exact (compile_eq_iff hbuilt _ _).2 (.otherMethod (by decide))
  · exact (compile_eq_iff hbuilt _ _).2 (.otherSpace rfl rfl (by decide))
  · exact (compile_eq_iff hbuilt _ _).2 (.violation rfl rfl (by decide) rfl)
  · cases (compile_eq_iff hbuilt _ _).1 hr with
    | compiled _ _ _ _ hcoherent => exact hcoherent

end VectorIndex
