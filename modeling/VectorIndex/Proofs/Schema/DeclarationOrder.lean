import VectorIndex.Json.Printer
import VectorIndex.Proofs.Hnsw
import VectorIndex.Proofs.Schema.Simulation
import VectorIndex.Proofs.Schema.ValueOrder

/-!
# The order of declaration

Two schemas may differ in the order of parameters and of alternatives, at any
depth. The order decides which violation is met first and in which order the
values come, and nothing else.

* `Parameter.Reordered`, `Component.Reordered`: schemas that differ in the order.
* `Component.Reordered.alike_validate`: checking a selection fails for both schemas,
  or succeeds with values that are the same up to the order.
* `Component.simulation_reordered`: reordered schemas that are sound find the same
  under the same names.
* `declaration_order_is_immaterial`: acceptance, values, descriptions, settings
  maps and training together.
-/

namespace VectorIndex

/-! ## Reordered schemas -/

mutual

/-- A scalar parameter is as it is; a choice offers the same alternatives, reordered
in turn, in any order. -/
inductive Parameter.Reordered : Parameter → Parameter → Prop where
  | scalar {p} : p.kind ≠ .choice → Parameter.Reordered p p
  | choice {name default alternatives between others} :
      List.Forall₂ Component.Reordered alternatives between → between.Perm others →
      Parameter.Reordered (.choice name default alternatives) (.choice name default others)

/-- A component has the same parameters, reordered in turn, in any order. -/
inductive Component.Reordered : Component → Component → Prop where
  | mk {name parameters between others template training} :
      List.Forall₂ Parameter.Reordered parameters between → between.Perm others →
      Component.Reordered (.mk name parameters template training)
        (.mk name others template training)

end

namespace Component.Reordered

variable {c d : Component}

theorem name_eq (h : c.Reordered d) : d.name = c.name := by
  cases h
  rfl

theorem template_eq (h : c.Reordered d) : d.template = c.template := by
  cases h
  rfl

theorem training_eq (h : c.Reordered d) : d.training = c.training := by
  cases h
  rfl

end Component.Reordered

namespace Parameter.Reordered

variable {p q : Parameter}

theorem name_eq (h : p.Reordered q) : q.name = p.name := by
  cases h <;> rfl

/-- The same setting counts for a parameter in either schema. -/
theorem settingFor_eq (h : p.Reordered q) (s : Selection) : s.settingFor q = s.settingFor p := by
  cases h <;> rfl

/-- The alternatives found under a name are the same but for the order below. -/
theorem rel_alternative? (h : p.Reordered q) (hq : q.Sound) (selected : String) :
    Option.Rel Component.Reordered (p.alternative? selected) (q.alternative? selected) := by
  cases h with
  | scalar hkind =>
    rw [alternative?, alternatives_eq_nil hkind]
    exact .none
  | @choice _ _ _ between _ halternatives hperm =>
    have hnodup : (between.map Component.name).Nodup :=
      (hperm.map Component.name).nodup_iff.2 hq.alternatives_nodup
    have hfound := rel_find?_of_forall₂ (fun _ _ h => h.name_eq) halternatives selected
    rwa [find?_eq_of_perm hperm hnodup] at hfound

end Parameter.Reordered

namespace Component.Reordered

variable {c d : Component}

/-- The parameters found under a name are the same but for the order below. -/
theorem rel_parameter? (h : c.Reordered d) (hd : d.Sound) (k : String) :
    Option.Rel Parameter.Reordered (c.parameter? k) (d.parameter? k) := by
  cases h with
  | @mk _ _ between _ _ _ hparameters hperm =>
    have hnodup : (between.map Parameter.name).Nodup :=
      (hperm.map Parameter.name).nodup_iff.2 hd.names_nodup
    have hfound := rel_find?_of_forall₂ (fun _ _ h => h.name_eq) hparameters k
    rwa [find?_eq_of_perm hperm hnodup] at hfound

theorem names_perm (h : c.Reordered d) :
    (c.parameters.map Parameter.name).Perm (d.parameters.map Parameter.name) := by
  cases h with
  | mk hparameters hperm =>
    have hnames := names_eq_of_forall₂ (fun _ _ h => Parameter.Reordered.name_eq h) hparameters
    exact hnames ▸ hperm.map Parameter.name

theorem exists_parameter (h : c.Reordered d) {p : Parameter} (hp : p ∈ c.parameters) :
    ∃ q ∈ d.parameters, p.Reordered q := by
  cases h with
  | mk hparameters hperm =>
    obtain ⟨q, hq, hpq⟩ := exists_of_mem_forall₂ hparameters hp
    exact ⟨q, hperm.mem_iff.1 hq, hpq⟩

theorem exists_parameter_of_mem (h : c.Reordered d) {q : Parameter} (hq : q ∈ d.parameters) :
    ∃ p ∈ c.parameters, p.Reordered q := by
  cases h with
  | mk hparameters hperm =>
    exact exists_of_mem_forall₂ hparameters.flip (hperm.mem_iff.2 hq)

end Component.Reordered

/-! ## Acceptance and values -/

/-- A setting resolves up to the order, provided that the alternatives check up to
the order. -/
theorem Parameter.Reordered.alike_resolve {p q : Parameter} (h : p.Reordered q) (hq : q.Sound)
    (ih : ∀ a ∈ p.alternatives, ∀ b ∈ q.alternatives, a.Reordered b → ∀ s,
      Alike (fun v w => v.setting.Reordered w.setting) (a.validate s) (b.validate s))
    (x : Setting) : Alike Setting.Reordered (p.resolve x) (q.resolve x) := by
  have halternative := fun selected => h.rel_alternative? hq selected
  cases h with
  | scalar hkind =>
    rw [resolve_scalar hkind]
    split
    · next hadmits => exact alike_ok (.scalar (isScalar_of_admits hadmits))
    · exact alike_error _ _
  | @choice name default alternatives _ others =>
    cases x with
    | boolean | integer | text => exact alike_error _ _
    | component selected settings =>
      rw [resolve_choice_component, resolve_choice_component]
      have hfound := halternative selected
      generalize ha : (Parameter.choice name default alternatives).alternative? selected = a
        at hfound ⊢
      generalize hb : (Parameter.choice name default others).alternative? selected = b at hfound ⊢
      cases hfound with
      | none => exact alike_error _ _
      | some hab =>
        exact (ih _ (find?_name_some ha).1 _ (find?_name_some hb).1 hab _).map fun _ _ h => h

section

variable {c d : Component} {s : Selection}

/-- One schema accepts what the other does, provided that settings resolve up to the
order. -/
theorem Component.Reordered.exists_validate_iff (h : c.Reordered d)
    (hresolve : ∀ p ∈ c.parameters, ∀ q ∈ d.parameters, p.Reordered q → ∀ x,
      Alike Setting.Reordered (p.resolve x) (q.resolve x)) :
    (∃ v, c.validate s = .ok v) ↔ ∃ w, d.validate s = .ok w := by
  rw [Component.exists_validate_iff, Component.exists_validate_iff]
  refine and_congr ⟨fun hc q hq => ?_, fun hd p hp => ?_⟩ ?_
  · obtain ⟨p, hp, hpq⟩ := h.exists_parameter_of_mem hq
    rw [hpq.settingFor_eq]
    exact (hresolve p hp q hq hpq _).1.1 (hc p hp)
  · obtain ⟨q, hq, hpq⟩ := h.exists_parameter hp
    have hresolved := hd q hq
    rw [hpq.settingFor_eq] at hresolved
    exact (hresolve p hp q hq hpq _).1.2 hresolved
  · simp only [h.names_perm.mem_iff]

/-- The values are the same up to the order, provided that settings resolve so. -/
theorem Component.Reordered.reordered_values (h : c.Reordered d) (hc : c.Sound) (hd : d.Sound)
    (hresolve : ∀ p ∈ c.parameters, ∀ q ∈ d.parameters, p.Reordered q → ∀ x,
      Alike Setting.Reordered (p.resolve x) (q.resolve x))
    {v w : Values} (hv : c.validate s = .ok v) (hw : d.validate s = .ok w) :
    v.setting.Reordered w.setting := by
  obtain ⟨vname, xs⟩ := v
  obtain ⟨wname, ys⟩ := w
  obtain rfl : vname = c.name := (validate_eq_ok_iff.1 hv).1
  obtain rfl : wname = d.name := (validate_eq_ok_iff.1 hw).1
  have hkeys : xs.map Prod.fst = c.parameters.map Parameter.name := keys_of_validate hv
  have hkeys' : ys.map Prod.fst = d.parameters.map Parameter.name := keys_of_validate hw
  rw [Values.setting, Values.setting, h.name_eq]
  refine .component ?_ ?_ fun k x y hx hy => ?_
  · rw [hkeys]
    exact hc.names_nodup
  · rw [hkeys, hkeys']
    exact h.names_perm
  · obtain ⟨p, hp, rfl⟩ := exists_item_of_mem hkeys hx
    obtain ⟨q, hq, hpq⟩ := h.exists_parameter hp
    rw [← hpq.name_eq] at hy
    have hx' := hc.resolve_of_validate hv hp hx
    have hy' := hd.resolve_of_validate hw hq hy
    rw [hpq.settingFor_eq] at hy'
    exact (hresolve p hp q hq hpq _).2 x y hx' hy'

/-- Checking a selection has the same outcome up to the order. -/
theorem Component.Reordered.alike_validate (h : c.Reordered d) (hc : c.Sound) (hd : d.Sound) :
    Alike (fun v w => v.setting.Reordered w.setting) (c.validate s) (d.validate s) := by
  induction c using Component.induction generalizing d s with
  | step c ih =>
    have hresolve : ∀ p ∈ c.parameters, ∀ q ∈ d.parameters, p.Reordered q → ∀ x,
        Alike Setting.Reordered (p.resolve x) (q.resolve x) := by
      intro p hp q hq hpq x
      refine hpq.alike_resolve (hd.parameter hq) (fun a ha b hb hab s => ?_) x
      exact ih p hp a ha hab ((hc.parameter hp).alternative ha) ((hd.parameter hq).alternative hb)
    exact ⟨h.exists_validate_iff hresolve, fun v w hv hw => h.reordered_values hc hd hresolve hv hw⟩

end

/-! ## Descriptions, maps and training -/

/-- Reordered schemas that are sound find the same under the same names. -/
theorem Component.simulation_reordered :
    Simulation fun c d => c.Reordered d ∧ c.Sound ∧ d.Sound where
  name_eq h := h.1.name_eq
  template_eq h := h.1.template_eq
  training_eq h := h.1.training_eq
  rel_select? h k selected := by
    obtain ⟨h, hc, hd⟩ := h
    refine rel_select? (h.rel_parameter? hd k) fun p hp q hq hpq => ?_
    have hfound := hpq.rel_alternative? (hd.parameter hq) selected
    generalize ha : p.alternative? selected = a at hfound ⊢
    generalize hb : q.alternative? selected = b at hfound ⊢
    cases hfound with
    | none => exact .none
    | some hab =>
      exact .some ⟨hab, (hc.parameter hp).alternative (find?_name_some ha).1,
        (hd.parameter hq).alternative (find?_name_some hb).1⟩

/-- Of two components that can be built and that differ only in the order of
parameters and alternatives, at any depth, one accepts a selection if and only if
the other does. The values are then the same up to the order of entries, and they
have the same description, the same settings map, with the same text, and the same
need for training. -/
theorem declaration_order_is_immaterial (c d : Component) (hc : c.Built) (hd : d.Built)
    (h : c.Reordered d) (s : Selection) :
    ((∃ v, c.validate s = .ok v) ↔ ∃ w, d.validate s = .ok w) ∧
    ∀ v w, c.validate s = .ok v → d.validate s = .ok w →
      v.setting.Reordered w.setting ∧ d.description w = c.description v ∧
      d.settingsMap w = c.settingsMap v ∧
      (d.settingsMap w).compact = (c.settingsMap v).compact ∧
      d.trainingRequired w = c.trainingRequired v := by
  have hsim := Component.simulation_reordered
  have hrelated : c.Reordered d ∧ c.Sound ∧ d.Sound := ⟨h, hc.sound, hd.sound⟩
  obtain ⟨haccept, hvalues⟩ := h.alike_validate hc.sound hd.sound
  refine ⟨haccept, fun v w hv hw => ?_⟩
  have hreordered := hvalues v w hv hw
  -- the other schema treats the same values alike, and then the same values in another order
  have hmap : d.settingsMap w = c.settingsMap v := by
    rw [← d.settingsMap_of_reordered hreordered, hsim.settingsMap_eq hrelated]
  refine ⟨hreordered, ?_, hmap, by rw [hmap], ?_⟩
  · rw [← d.description_of_reordered hreordered, hsim.description_eq hrelated]
  · rw [← d.trainingRequired_of_reordered hreordered, hsim.trainingRequired_eq hrelated]

/-- The 16-bit encoder, its parameters the other way round. -/
def clipFirst : Component :=
  .mk "sq" [.boolean "clip" false fun _ => true, .text "type" "fp16" Encoder.formats.contains]
    (some ⟨"SQ", [⟨"type", "", ""⟩]⟩) false

theorem built_clipFirst : clipFirst.Built := by
  have hclip : Parameter.ofBoolean "clip" false (fun _ => true) =
      .ok (.boolean "clip" false fun _ => true) := rfl
  have hformat : Parameter.ofText "type" "fp16" Encoder.formats.contains =
      .ok (.text "type" "fp16" Encoder.formats.contains) := rfl
  refine .of_build (b := ⟨"sq", clipFirst.parameters, clipFirst.template, false⟩) ?_ rfl
  exact List.forall_mem_cons.2 ⟨.ofBoolean hclip, List.forall_mem_singleton.2 (.ofText hformat)⟩

theorem reordered_clipFirst : Encoder.sq.schema.Reordered clipFirst :=
  .mk (.cons (.scalar nofun) (.cons (.scalar nofun) .nil)) (List.reverse_perm _).symm

/-- The choice of an encoder, the encoders the other way round as well. -/
def encoderReversed : Parameter :=
  .choice Hnsw.encoderParameter (.plain Encoder.flat.name)
    [Encoder.pq.schema, clipFirst, Encoder.flat.schema]

theorem built_encoderReversed : encoderReversed.Built := by
  have hchoice : Parameter.ofChoice Hnsw.encoderParameter (.plain Encoder.flat.name)
      [Encoder.pq.schema, clipFirst, Encoder.flat.schema] = .ok encoderReversed := rfl
  refine .ofChoice ?_ hchoice
  refine List.forall_mem_cons.2 ⟨Encoder.built (Encoder.component_eq _), ?_⟩
  exact List.forall_mem_cons.2
    ⟨built_clipFirst, List.forall_mem_singleton.2 (Encoder.built (Encoder.component_eq _))⟩

theorem reordered_encoderReversed : Hnsw.encoderChoice.Reordered encoderReversed := by
  have hflat : Encoder.flat.schema.Reordered Encoder.flat.schema := .mk .nil .nil
  have hpq : Encoder.pq.schema.Reordered Encoder.pq.schema :=
    .mk (.cons (.scalar nofun) (.cons (.scalar nofun) .nil)) (.refl _)
  exact .choice (.cons hflat (.cons reordered_clipFirst (.cons hpq .nil)))
    (List.reverse_perm _).symm

/-- The HNSW schema, turned round at every level. -/
def hnswReversed : Component :=
  .mk "hnsw"
    [encoderReversed, .integer "ef_search" 100 (0 < ·), .integer "ef_construction" 100 (0 < ·),
      .integer "m" 16 (0 < ·)]
    (some ⟨"HNSW", [⟨"m", "", ""⟩, ⟨"encoder", ",", ""⟩]⟩) false

theorem built_hnswReversed : hnswReversed.Built := by
  have hknob : ∀ k, Parameter.ofInteger k 100 (0 < ·) = .ok (.integer k 100 (0 < ·)) :=
    fun _ => rfl
  have hm : Parameter.ofInteger "m" 16 (0 < ·) = .ok (.integer "m" 16 (0 < ·)) := rfl
  refine .of_build (b := ⟨"hnsw", hnswReversed.parameters, hnswReversed.template, false⟩) ?_ rfl
  refine List.forall_mem_cons.2 ⟨built_encoderReversed, ?_⟩
  refine List.forall_mem_cons.2 ⟨.ofInteger (hknob _), ?_⟩
  exact List.forall_mem_cons.2
    ⟨.ofInteger (hknob _), List.forall_mem_singleton.2 (.ofInteger hm)⟩

theorem reordered_hnswReversed : (Hnsw.schema .builtIn).Reordered hnswReversed := by
  have hknob : ∀ k n, Parameter.Reordered (.integer k n (0 < ·)) (.integer k n (0 < ·)) :=
    fun _ _ => .scalar nofun
  have hparameters : List.Forall₂ Parameter.Reordered (Hnsw.schema .builtIn).parameters
      hnswReversed.parameters.reverse :=
    .cons (hknob _ _) (.cons (hknob _ _) (.cons (hknob _ _) (.cons reordered_encoderReversed .nil)))
  exact .mk hparameters (List.reverse_perm _)

/-- Both HNSW schemas make the same of a selection of the 16-bit encoder, with the
values in another order. -/
theorem declaration_order_is_immaterial_hnsw :
    ∃ (c : Component) (v w : Values), Hnsw.component .builtIn = .ok c ∧ c.Built ∧
      hnswReversed.Built ∧ c.Reordered hnswReversed ∧
      c.validate ⟨"hnsw", [("encoder", .component "sq" [("type", .text "bf16")])]⟩ = .ok v ∧
      v.entries = [("m", .integer 16), ("ef_construction", .integer 100),
        ("ef_search", .integer 100),
        ("encoder", .component "sq" [("type", .text "bf16"), ("clip", .boolean false)])] ∧
      hnswReversed.validate
        ⟨"hnsw", [("encoder", .component "sq" [("type", .text "bf16")])]⟩ = .ok w ∧
      w.entries = [("encoder", .component "sq" [("clip", .boolean false), ("type", .text "bf16")]),
        ("ef_search", .integer 100), ("ef_construction", .integer 100), ("m", .integer 16)] ∧
      v.setting.Reordered w.setting ∧ c.description v = some "HNSW16,SQbf16" ∧
      hnswReversed.description w = some "HNSW16,SQbf16" ∧
      hnswReversed.settingsMap w = c.settingsMap v := by
  let s : Selection := ⟨"hnsw", [("encoder", .component "sq" [("type", .text "bf16")])]⟩
  obtain ⟨c, v, w, hc, hshape, hv, hentries, hw, hentries', hdescription⟩ :
      ∃ (c : Component) (v w : Values), Hnsw.component .builtIn = .ok c ∧
        c.Reordered hnswReversed ∧ c.validate s = .ok v ∧
        v.entries = [("m", .integer 16), ("ef_construction", .integer 100),
          ("ef_search", .integer 100),
          ("encoder", .component "sq" [("type", .text "bf16"), ("clip", .boolean false)])] ∧
        hnswReversed.validate s = .ok w ∧
        w.entries = [("encoder", .component "sq"
          [("clip", .boolean false), ("type", .text "bf16")]),
          ("ef_search", .integer 100), ("ef_construction", .integer 100), ("m", .integer 16)] ∧
        c.description v = some "HNSW16,SQbf16" :=
    ⟨_, _, _, rfl, reordered_hnswReversed, rfl, rfl, rfl, rfl, rfl⟩
  have hbuilt := Hnsw.built hc
  obtain ⟨hreordered, hsame, hmap, -⟩ :=
    (declaration_order_is_immaterial c hnswReversed hbuilt built_hnswReversed hshape s).2 v w hv hw
  exact ⟨c, v, w, hc, hbuilt, built_hnswReversed, hshape, hv, hentries, hw, hentries', hreordered,
    hdescription, hsame.trans hdescription, hmap⟩

end VectorIndex
