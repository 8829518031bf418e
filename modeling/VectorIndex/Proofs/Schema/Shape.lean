import VectorIndex.Proofs.Hnsw
import VectorIndex.Proofs.Schema.Simulation

/-!
# The shape of a schema

Values are described, mapped and asked for training by the shape of a schema: its
names, kinds, alternatives, templates and training flags. Defaults and checks play
no part, once there are values.

* `Parameter.SameShape`, `Component.SameShape`: schemas that differ in defaults and
  checks only, at any depth.
* `Component.simulation_sameShape`: they find related alternatives under the same
  names.
* `Hnsw.sameShape_schema`: the HNSW schemas of all defaults have one shape.
* `rendering_depends_on_shape`: schemas of the same shape treat all values alike,
  those of foreign schemas too.
-/

namespace VectorIndex

mutual

/-- Two parameters have the same name and kind, and choices offer alternatives of
the same shape in the same order. -/
inductive Parameter.SameShape : Parameter → Parameter → Prop where
  | scalar {p q} :
      p.kind ≠ .choice → q.kind = p.kind → q.name = p.name → Parameter.SameShape p q
  | choice {name default default' alternatives others} :
      List.Forall₂ Component.SameShape alternatives others →
      Parameter.SameShape (.choice name default alternatives) (.choice name default' others)

/-- Two components have the same name, template and training flag, and parameters
of the same shape in the same order. -/
inductive Component.SameShape : Component → Component → Prop where
  | mk {name parameters others template training} :
      List.Forall₂ Parameter.SameShape parameters others →
      Component.SameShape (.mk name parameters template training)
        (.mk name others template training)

end

namespace Parameter.SameShape

variable {p q : Parameter}

theorem name_eq (h : p.SameShape q) : q.name = p.name := by
  cases h with
  | scalar _ _ hname => exact hname
  | choice => rfl

theorem forall₂_alternatives (h : p.SameShape q) :
    List.Forall₂ Component.SameShape p.alternatives q.alternatives := by
  cases h with
  | scalar hkind hsame =>
    rw [alternatives_eq_nil hkind, alternatives_eq_nil (hsame ▸ hkind)]
    exact .nil
  | choice halternatives => exact halternatives

end Parameter.SameShape

namespace Component

theorem SameShape.name_eq {c d : Component} (h : c.SameShape d) : d.name = c.name := by
  cases h
  rfl

/-- Schemas of the same shape find alternatives of the same shape under the same
names. Where a name is repeated, both find the first. -/
theorem simulation_sameShape : Simulation SameShape where
  name_eq h := h.name_eq
  template_eq h := by
    cases h
    rfl
  training_eq h := by
    cases h
    rfl
  rel_select? h k selected := by
    cases h with
    | mk hparameters =>
      refine rel_select? (S := Parameter.SameShape) ?_ fun p _ q _ hpq => ?_
      · exact rel_find?_of_forall₂ (fun _ _ h => h.name_eq) hparameters k
      · exact rel_find?_of_forall₂ (fun _ _ h => h.name_eq) hpq.forall₂_alternatives selected

theorem SameShape.refl (c : Component) : c.SameShape c := by
  induction c using Component.induction with
  | step c ih =>
    obtain ⟨name, parameters, template, training⟩ := c
    refine .mk (List.forall₂_same.2 fun p hp => ?_)
    cases p with
    | integer | text | boolean => exact .scalar nofun rfl rfl
    | choice k s alternatives => exact .choice (List.forall₂_same.2 (ih _ hp))

end Component

/-- The defaults of the HNSW method do not matter to its shape. -/
theorem Hnsw.sameShape_schema (d e : Defaults) : (schema d).SameShape (schema e) := by
  have hknob : ∀ k m n, Parameter.SameShape (.integer k m (0 < ·)) (.integer k n (0 < ·)) :=
    fun _ _ _ => .scalar nofun rfl rfl
  have hencoder : encoderChoice.SameShape encoderChoice :=
    .choice (List.forall₂_same.2 fun a _ => .refl a)
  exact .mk (.cons (hknob _ _ _) (.cons (hknob _ _ _) (.cons (hknob _ _ _) (.cons hencoder .nil))))

/-- Components of the same shape give all values the same description with the same
slots without a value, the same settings map and the same answer on training,
whatever their defaults and checks are and wherever the values come from. So do the
HNSW methods of any two positive defaults. -/
theorem rendering_depends_on_shape :
    (∀ c d : Component, c.SameShape d → ∀ v : Values,
      d.description v = c.description v ∧ d.gaps v = c.gaps v ∧
      d.settingsMap v = c.settingsMap v ∧ d.trainingRequired v = c.trainingRequired v) ∧
    ∀ d e : Defaults, d.Positive → e.Positive →
      ∃ m n : Method, Hnsw.method d = .ok m ∧ Hnsw.method e = .ok n ∧ ∀ v : Values,
        n.description v = m.description v ∧ n.component.gaps v = m.component.gaps v ∧
        n.component.settingsMap v = m.component.settingsMap v ∧
        n.component.trainingRequired v = m.component.trainingRequired v := by
  have hshape : ∀ c d : Component, c.SameShape d → ∀ v : Values,
      d.description v = c.description v ∧ d.gaps v = c.gaps v ∧
      d.settingsMap v = c.settingsMap v ∧ d.trainingRequired v = c.trainingRequired v := by
    intro c d h v
    have hsim := Component.simulation_sameShape
    exact ⟨hsim.description_eq h v, hsim.gaps_eq h v, hsim.settingsMap_eq h v,
      hsim.trainingRequired_eq h v⟩
  refine ⟨hshape, fun d e hd he => ?_⟩
  refine ⟨_, _, Hnsw.method_eq_ok_iff.2 ⟨hd, rfl⟩, Hnsw.method_eq_ok_iff.2 ⟨he, rfl⟩, fun v => ?_⟩
  obtain ⟨hdescription, hrest⟩ := hshape _ _ (Hnsw.sameShape_schema d e) v
  exact ⟨congrArg (Option.getD · "") hdescription, hrest⟩

/-- The 16-bit encoder with another default for each parameter and no check. -/
def uncheckedFormat : Component :=
  .mk "sq" [.text "type" "" fun _ => true, .boolean "clip" true fun _ => true]
    (some ⟨"SQ", [⟨"type", "", ""⟩]⟩) false

/-- The HNSW schema with another default for each parameter and no check on its
integers. -/
def uncheckedHnsw : Component :=
  .mk "hnsw"
    [.integer "m" (-3) fun _ => true, .integer "ef_construction" 0 fun _ => true,
      .integer "ef_search" 7 fun _ => true,
      .choice "encoder" (.plain "pq") [Encoder.flat.schema, uncheckedFormat, Encoder.pq.schema]]
    (some ⟨"HNSW", [⟨"m", "", ""⟩, ⟨"encoder", ",", ""⟩]⟩) false

theorem sameShape_uncheckedHnsw : (Hnsw.schema .builtIn).SameShape uncheckedHnsw := by
  have hinteger : ∀ k m n f g, Parameter.SameShape (.integer k m f) (.integer k n g) :=
    fun _ _ _ _ _ => .scalar nofun rfl rfl
  have hformat : Encoder.sq.schema.SameShape uncheckedFormat :=
    .mk (.cons (.scalar nofun rfl rfl) (.cons (.scalar nofun rfl rfl) .nil))
  have hencoder : Hnsw.encoderChoice.SameShape (.choice "encoder" (.plain "pq")
      [Encoder.flat.schema, uncheckedFormat, Encoder.pq.schema]) :=
    .choice (.cons (.refl _) (.cons hformat (.cons (.refl _) .nil)))
  exact .mk (.cons (hinteger _ _ _ _ _) (.cons (hinteger _ _ _ _ _)
    (.cons (hinteger _ _ _ _ _) (.cons hencoder .nil))))

/-- Values of another method that lack a degree and a format leave the same slots of
both components without a value. Other defaults of HNSW leave them so as well. -/
theorem rendering_depends_on_shape_foreign :
    ∃ (v : Values) (m n : Method),
      v = ⟨"ivf", [("lists", .integer 4), ("encoder", .component "sq" [("clip", .boolean true)])]⟩ ∧
      (Hnsw.schema .builtIn).SameShape uncheckedHnsw ∧
      uncheckedHnsw.description v = some "HNSW,SQ" ∧
      uncheckedHnsw.gaps v = [⟨"hnsw", "m"⟩, ⟨"sq", "type"⟩] ∧
      uncheckedHnsw.trainingRequired v = false ∧
      Hnsw.method .builtIn = .ok m ∧ Hnsw.method ⟨4, 5, 6⟩ = .ok n ∧
      n.description v = m.description v ∧ n.component.gaps v = m.component.gaps v ∧
      n.component.settingsMap v = m.component.settingsMap v := by
  let v : Values :=
    ⟨"ivf", [("lists", .integer 4), ("encoder", .component "sq" [("clip", .boolean true)])]⟩
  obtain ⟨hdescription, hgaps, -, htraining⟩ :=
    rendering_depends_on_shape.1 _ _ sameShape_uncheckedHnsw v
  obtain ⟨m, n, hm, hn, hsame⟩ :=
    rendering_depends_on_shape.2 .builtIn ⟨4, 5, 6⟩ ⟨by decide, by decide, by decide⟩
      ⟨by decide, by decide, by decide⟩
  obtain ⟨hmethod, hmethodGaps, hmap, -⟩ := hsame v
  exact ⟨v, m, n, rfl, sameShape_uncheckedHnsw, hdescription, hgaps, htraining, hm, hn, hmethod,
    hmethodGaps, hmap⟩

end VectorIndex
