import VectorIndex.Proofs.Schema.SettingsMap
import VectorIndex.Proofs.Schema.Training

/-!
# Extended schemas

A schema is extended by further parameters of its components and further
alternatives of its choices, at any level and in any place. What it accepted
before it still accepts, and describes in the same way.

* `Parameter.ExtendedBy`, `Component.ExtendedBy`: one schema extends another.
  Nothing is said of the names of what is added, since in a schema that can be
  built all names are distinct anyway.
* `Parameter.Keeps`, `Component.Keeps`: values under an extended schema keep
  given values. What was there stays, in the same order, and what is added has
  its default.
* `Component.ExtendedBy.exists_validate`: an accepted selection is accepted by
  the extended schema, which keeps the values.
* `Component.ExtendedBy.exists_kept`: a component among the values is kept by an
  extension of the alternative that it selects. Descriptions
  (`Component.ExtendedBy.description_eq`) and the need for training
  (`Component.ExtendedBy.trainingRequired`) follow by induction.
-/

namespace VectorIndex

/-! ## Extension -/

mutual

/-- A parameter is extended by itself, and a choice by every choice of the same
name and default that offers its alternatives, extended in turn, and perhaps
others. -/
inductive Parameter.ExtendedBy : Parameter → Parameter → Prop where
  | scalar {p} : p.kind ≠ .choice → Parameter.ExtendedBy p p
  | choice {name default alternatives others} :
      List.SublistForall₂ Component.ExtendedBy alternatives others →
      Parameter.ExtendedBy (.choice name default alternatives) (.choice name default others)

/-- A component is extended by every component of the same name, template and
training flag that has its parameters, extended in turn, and perhaps others. -/
inductive Component.ExtendedBy : Component → Component → Prop where
  | mk {name parameters others template training} :
      List.SublistForall₂ Parameter.ExtendedBy parameters others →
      Component.ExtendedBy (.mk name parameters template training)
        (.mk name others template training)

end

/-- Every item of the shorter list is related to one of the longer list. -/
theorem exists_of_mem_sublistForall₂ {α β : Type} {R : α → β → Prop} {xs : List α} {ys : List β}
    (h : List.SublistForall₂ R xs ys) {x : α} (hx : x ∈ xs) : ∃ y ∈ ys, R x y := by
  induction h with
  | nil => exact absurd hx List.not_mem_nil
  | cons hxy _ ih =>
    rcases List.mem_cons.1 hx with rfl | hx
    · exact ⟨_, List.mem_cons_self, hxy⟩
    · obtain ⟨y, hy, hxy⟩ := ih hx
      exact ⟨y, List.mem_cons_of_mem _ hy, hxy⟩
  | cons_right _ ih =>
    obtain ⟨y, hy, hxy⟩ := ih hx
    exact ⟨y, List.mem_cons_of_mem _ hy, hxy⟩

namespace Parameter.ExtendedBy

variable {p q : Parameter}

theorem name_eq (h : p.ExtendedBy q) : q.name = p.name := by
  cases h <;> rfl

theorem default_eq (h : p.ExtendedBy q) : q.default = p.default := by
  cases h <;> rfl

/-- An extension admits the same scalars. -/
theorem admits_eq (h : p.ExtendedBy q) (x : Setting) : q.admits x = p.admits x := by
  cases h with
  | scalar => rfl
  | choice => cases x <;> rfl

/-- Every alternative is offered in an extended form. -/
theorem exists_alternative (h : p.ExtendedBy q) {a : Component} (ha : a ∈ p.alternatives) :
    ∃ b ∈ q.alternatives, a.ExtendedBy b := by
  cases h with
  | scalar hkind =>
    rw [alternatives_eq_nil hkind] at ha
    exact absurd ha List.not_mem_nil
  | choice halternatives => exact exists_of_mem_sublistForall₂ halternatives ha

/-- The same setting counts for a parameter and for its extension. -/
theorem settingFor_eq (h : p.ExtendedBy q) (s : Selection) : s.settingFor q = s.settingFor p := by
  rw [Selection.settingFor, Selection.settingFor, h.name_eq, h.default_eq]

end Parameter.ExtendedBy

namespace Component.ExtendedBy

variable {c d : Component}

theorem name_eq (h : c.ExtendedBy d) : d.name = c.name := by
  cases h
  rfl

theorem template_eq (h : c.ExtendedBy d) : d.template = c.template := by
  cases h
  rfl

theorem training_eq (h : c.ExtendedBy d) : d.training = c.training := by
  cases h
  rfl

theorem sublistForall₂ (h : c.ExtendedBy d) :
    List.SublistForall₂ Parameter.ExtendedBy c.parameters d.parameters := by
  cases h with
  | mk hparameters => exact hparameters

/-- Every parameter is there in an extended form. -/
theorem exists_parameter (h : c.ExtendedBy d) {p : Parameter} (hp : p ∈ c.parameters) :
    ∃ q ∈ d.parameters, p.ExtendedBy q :=
  exists_of_mem_sublistForall₂ h.sublistForall₂ hp

/-- The names of the parameters are there in the same order. -/
theorem names_sublist (h : c.ExtendedBy d) :
    (c.parameters.map Parameter.name).Sublist (d.parameters.map Parameter.name) := by
  obtain ⟨kept, hkept, hsublist⟩ := List.sublistForall₂_iff.1 h.sublistForall₂
  have hnames : c.parameters.map Parameter.name = kept.map Parameter.name := by
    rw [← List.forall₂_eq_eq_eq, List.forall₂_map_left_iff, List.forall₂_map_right_iff]
    exact hkept.imp fun _ _ h => h.name_eq.symm
  rw [hnames]
  exact hsublist.map Parameter.name

/-- A parameter of the extension extends one that was there, or has a name that was
not. -/
theorem parameter_cases (h : c.ExtendedBy d) (hd : d.Sound) {q : Parameter}
    (hq : q ∈ d.parameters) :
    (∃ p ∈ c.parameters, p.ExtendedBy q) ∨ q.name ∉ c.parameters.map Parameter.name := by
  by_cases hname : q.name ∈ c.parameters.map Parameter.name
  · obtain ⟨p, hp, hpname⟩ := List.mem_map.1 hname
    obtain ⟨r, hr, hpr⟩ := h.exists_parameter hp
    -- names are distinct, so the extension of `p` is the parameter of its name
    obtain rfl : r = q := eq_of_name_eq hd.names_nodup hr hq (hpr.name_eq.trans hpname)
    exact .inl ⟨p, hp, hpr⟩
  · exact .inr hname

end Component.ExtendedBy

/-! ## Values that are kept -/

mutual

/-- The value of a parameter keeps another one: it is the same scalar, or it
selects an alternative of the same name that keeps the values of that. -/
inductive Parameter.Keeps : Parameter → Setting → Setting → Prop where
  | scalar {q x} : x.IsScalar → Parameter.Keeps q x x
  | choice {q b xs ys} :
      b ∈ q.alternatives → Component.Keeps b xs ys →
      Parameter.Keeps q (.component b.name xs) (.component b.name ys)

/-- The entries `ys` of a component keep the entries `xs`: these are all there in
the same order, each of them kept, and the others are the resolved defaults of
their parameters. -/
inductive Component.Keeps : Component → List (String × Setting) → List (String × Setting) → Prop
    where
  | mk {d xs ys} :
      ys.map Prod.fst = d.parameters.map Parameter.name →
      (xs.map Prod.fst).Sublist (ys.map Prod.fst) →
      (∀ q ∈ d.parameters, ∀ x y, (q.name, x) ∈ xs → (q.name, y) ∈ ys →
        Parameter.Keeps q x y) →
      (∀ q ∈ d.parameters, ∀ y, q.name ∉ xs.map Prod.fst → (q.name, y) ∈ ys →
        q.resolve q.default = .ok y) →
      Component.Keeps d xs ys

end

/-- What is kept stands under its name, and the parameter of that name keeps it. -/
theorem Component.Keeps.exists_entry {d : Component} {xs ys : List (String × Setting)}
    (h : d.Keeps xs ys) {k : String} {x : Setting} (hx : (k, x) ∈ xs) :
    ∃ q ∈ d.parameters, q.name = k ∧ ∃ y, (k, y) ∈ ys ∧ q.Keeps x y := by
  obtain ⟨hkeys, hsublist, hkeeps, -⟩ := h
  have hk : k ∈ ys.map Prod.fst := hsublist.subset (List.mem_map_of_mem (f := Prod.fst) hx)
  obtain ⟨⟨l, y⟩, hy, rfl⟩ := List.mem_map.1 hk
  rw [hkeys] at hk
  obtain ⟨q, hq, hname⟩ := List.mem_map.1 hk
  refine ⟨q, hq, hname, y, hy, hkeeps q hq x y ?_ ?_⟩
  · rw [hname]
    exact hx
  · rw [hname]
    exact hy

/-! ## Acceptance -/

/-- A setting that resolves for a parameter resolves for its extension, to a value
that keeps the other, provided the alternatives do so. -/
theorem Parameter.ExtendedBy.exists_resolve {p q : Parameter} (h : p.ExtendedBy q)
    (hp : p.Sound) (hq : q.Sound)
    (ih : ∀ a ∈ p.alternatives, ∀ b ∈ q.alternatives, a.ExtendedBy b → ∀ s v,
      a.validate s = .ok v → ∃ w, b.validate s = .ok w ∧ b.Keeps v.entries w.entries)
    {x y : Setting} (hy : p.resolve x = .ok y) :
    ∃ z, q.resolve x = .ok z ∧ q.Keeps y z := by
  rcases hp.resolve_eq_ok_iff.1 hy with ⟨hadmits, rfl⟩ | ⟨a, ha, settings, entries, rfl, hv, rfl⟩
  · have hadmits' : q.admits y = true := (h.admits_eq y).trans hadmits
    exact ⟨y, hq.resolve_eq_ok_iff.2 (.inl ⟨hadmits', rfl⟩), .scalar (isScalar_of_admits hadmits)⟩
  · obtain ⟨b, hb, hab⟩ := h.exists_alternative ha
    obtain ⟨⟨name, others⟩, hw, hkeeps⟩ := ih a ha b hb hab _ _ hv
    obtain rfl : name = b.name := (Component.validate_eq_ok_iff.1 hw).1
    rw [← hab.name_eq] at hw ⊢
    exact ⟨.component b.name others,
      hq.resolve_eq_ok_iff.2 (.inr ⟨b, hb, settings, others, rfl, hw, rfl⟩), .choice hb hkeeps⟩

section

variable {c d : Component} {s : Selection}

/-- What a component accepts sets nothing that an extension adds. -/
theorem Component.settingFor_of_new {v : Values} (hv : c.validate s = .ok v) {q : Parameter}
    (hq : q.name ∉ c.parameters.map Parameter.name) : s.settingFor q = q.default := by
  apply Selection.settingFor_of_lookup_none
  rw [lookup_eq_none_iff_not_mem_keys]
  exact fun hset => hq ((exists_validate_iff.1 ⟨v, hv⟩).2 q.name hset)

/-- A selection that a component accepts is accepted by an extension, provided that
settings go on to resolve. -/
theorem Component.ExtendedBy.accepts_of_resolves (h : c.ExtendedBy d) (hd : d.Sound)
    (hresolve : ∀ p ∈ c.parameters, ∀ q ∈ d.parameters, p.ExtendedBy q → ∀ x y,
      p.resolve x = .ok y → ∃ z, q.resolve x = .ok z ∧ q.Keeps y z)
    {v : Values} (hv : c.validate s = .ok v) : ∃ w, d.validate s = .ok w := by
  obtain ⟨hresolves, hdeclared⟩ := exists_validate_iff.1 ⟨v, hv⟩
  rw [exists_validate_iff]
  refine ⟨fun q hq => ?_, fun k hk => h.names_sublist.subset (hdeclared k hk)⟩
  rcases h.parameter_cases hd hq with ⟨p, hp, hpq⟩ | hnew
  · obtain ⟨x, hx⟩ := hresolves p hp
    obtain ⟨z, hz, -⟩ := hresolve p hp q hq hpq _ _ hx
    rw [hpq.settingFor_eq]
    exact ⟨z, hz⟩
  · rw [settingFor_of_new hv hnew]
    exact (hd.parameter hq).resolve_default

/-- The values under an extension keep the others, provided that the settings do. -/
theorem Component.ExtendedBy.keeps_of_resolves (h : c.ExtendedBy d) (hc : c.Sound) (hd : d.Sound)
    (hresolve : ∀ p ∈ c.parameters, ∀ q ∈ d.parameters, p.ExtendedBy q → ∀ x y,
      p.resolve x = .ok y → ∃ z, q.resolve x = .ok z ∧ q.Keeps y z)
    {v w : Values} (hv : c.validate s = .ok v) (hw : d.validate s = .ok w) :
    d.Keeps v.entries w.entries := by
  have hkeys := keys_of_validate hv
  refine .mk (keys_of_validate hw) ?_ (fun q hq x y hx hy => ?_) fun q hq y hnew hy => ?_
  · rw [hkeys, keys_of_validate hw]
    exact h.names_sublist
  · have hz := hd.resolve_of_validate hw hq hy
    rcases h.parameter_cases hd hq with ⟨p, hp, hpq⟩ | hnew
    · rw [hpq.name_eq] at hx
      obtain ⟨z, hz', hkeeps⟩ := hresolve p hp q hq hpq _ _ (hc.resolve_of_validate hv hp hx)
      rw [hpq.settingFor_eq, hz'] at hz
      cases hz
      exact hkeeps
    · rw [← hkeys] at hnew
      exact absurd (List.mem_map_of_mem (f := Prod.fst) hx) hnew
  · rw [hkeys] at hnew
    rw [← settingFor_of_new hv hnew]
    exact hd.resolve_of_validate hw hq hy

/-- A selection that a component accepts is accepted by every extension, which keeps
the values. -/
theorem Component.ExtendedBy.exists_validate (h : c.ExtendedBy d) (hc : c.Sound) (hd : d.Sound)
    {v : Values} (hv : c.validate s = .ok v) :
    ∃ w, d.validate s = .ok w ∧ d.Keeps v.entries w.entries := by
  induction c using Component.induction generalizing d s v with
  | step c ih =>
    have hresolve : ∀ p ∈ c.parameters, ∀ q ∈ d.parameters, p.ExtendedBy q → ∀ x y,
        p.resolve x = .ok y → ∃ z, q.resolve x = .ok z ∧ q.Keeps y z := by
      intro p hp q hq hpq x y hy
      refine hpq.exists_resolve (hc.parameter hp) (hd.parameter hq) ?_ hy
      intro a ha b hb hab s v hv
      exact ih p hp a ha hab ((hc.parameter hp).alternative ha)
        ((hd.parameter hq).alternative hb) hv
    obtain ⟨w, hw⟩ := h.accepts_of_resolves hd hresolve hv
    exact ⟨w, hw, h.keeps_of_resolves hc hd hresolve hv hw⟩

end

/-! ## Descriptions and training -/

/-- What a component selects, its extension selects in an extended form. -/
theorem Component.ExtendedBy.exists_select {c d a : Component} (h : c.ExtendedBy d)
    (hc : c.Sound) (hd : d.Sound) {k selected : String}
    (hselect : c.select? k selected = some a) :
    ∃ b, d.select? k selected = some b ∧ a.ExtendedBy b := by
  obtain ⟨p, hp, ha⟩ := Option.bind_eq_some_iff.1 hselect
  obtain ⟨hpmem, hpname⟩ := hc.parameter?_eq_some_iff.1 hp
  obtain ⟨hamem, haname⟩ := (hc.parameter hpmem).alternative?_eq_some_iff.1 ha
  obtain ⟨q, hq, hpq⟩ := h.exists_parameter hpmem
  obtain ⟨b, hb, hab⟩ := hpq.exists_alternative hamem
  have hparameter := hd.parameter?_eq_some_iff.2 ⟨hq, hpq.name_eq.trans hpname⟩
  have halternative := (hd.parameter hq).alternative?_eq_some_iff.2 ⟨hb, hab.name_eq.trans haname⟩
  exact ⟨b, select?_of_parameter? hparameter halternative, hab⟩

section

variable {c d : Component} {v w : Values}

/-- A component among the values is kept by an extension of the alternative that it
selects. -/
theorem Component.ExtendedBy.exists_kept (h : c.ExtendedBy d) (hv : c.Owns v) (hw : d.Owns w)
    (hkeeps : d.Keeps v.entries w.entries) {k selected : String} {xs : List (String × Setting)}
    (hmem : (k, .component selected xs) ∈ v.entries) :
    ∃ p ∈ c.parameters, ∃ a ∈ p.alternatives, ∃ b ys,
      (k, .component selected ys) ∈ w.entries ∧ c.select? k selected = some a ∧
      d.select? k selected = some b ∧ a.ExtendedBy b ∧ a.Owns ⟨selected, xs⟩ ∧
      b.Owns ⟨selected, ys⟩ ∧ b.Keeps xs ys := by
  obtain ⟨p, hp, a, ha, hselect, howns⟩ := hv.exists_select hmem
  obtain ⟨b, hselect', hab⟩ := h.exists_select hv.sound hw.sound hselect
  obtain ⟨q, hq, hname, y, hy, hkeep⟩ := hkeeps.exists_entry hmem
  cases hkeep with
  | scalar hscalar => exact hscalar.elim
  | @choice _ b' _ ys hb' hkeeps' =>
    have hparameter := hw.sound.parameter?_eq_some_iff.2 ⟨hq, hname⟩
    have halternative := (hw.sound.parameter hq).alternative?_eq_some_iff.2 ⟨hb', rfl⟩
    have hsame := select?_of_parameter? hparameter halternative
    obtain rfl : b = b' := Option.some.inj (hselect'.symm.trans hsame)
    obtain ⟨-, -, b', -, hsame, howns'⟩ := hw.exists_select hy
    obtain rfl : b = b' := Option.some.inj (hselect'.symm.trans hsame)
    exact ⟨p, hp, a, ha, b, ys, hy, hselect, hselect', hab, howns, howns', hkeeps'⟩

theorem settingText_scalar (c : Component) (k : String) {x : Setting} (hx : x.IsScalar) :
    settingText c k x = some x.display := by
  cases x with
  | boolean | integer | text => rfl
  | component => exact hx.elim

/-- A kept value has the text that it had before, provided that the alternatives have
their descriptions. -/
theorem Component.ExtendedBy.settingText_eq (h : c.ExtendedBy d) (hv : c.Owns v) (hw : d.Owns w)
    (hkeeps : d.Keeps v.entries w.entries)
    (ih : ∀ p ∈ c.parameters, ∀ a ∈ p.alternatives, ∀ b v w, a.ExtendedBy b → a.Owns v →
      b.Owns w → b.Keeps v.entries w.entries → b.description w = a.description v)
    {k : String} {x y : Setting} (hx : v.get? k = some x) (hy : w.get? k = some y) :
    settingText d k y = settingText c k x := by
  rcases x.isScalar_or_component with hscalar | ⟨selected, xs, rfl⟩
  · obtain ⟨q, hq, -, z, hz, hkeep⟩ := hkeeps.exists_entry (mem_of_lookup hx)
    obtain rfl : y = z := by
      have hz' := (lookup_eq_some_iff_mem hw.keys_nodup).2 hz
      exact Option.some.inj (hy.symm.trans hz')
    cases hkeep with
    | scalar => rw [settingText_scalar d k hscalar, settingText_scalar c k hscalar]
    | choice => exact hscalar.elim
  · obtain ⟨p, hp, a, ha, b, ys, hmem, hselect, hselect', hab, howns, howns', hkeeps'⟩ :=
      h.exists_kept hv hw hkeeps (mem_of_lookup hx)
    obtain rfl : y = .component selected ys := by
      have hy' := (lookup_eq_some_iff_mem hw.keys_nodup).2 hmem
      exact Option.some.inj (hy.symm.trans hy')
    rw [settingText_component, settingText_component, hselect, hselect', Option.bind_some,
      Option.bind_some]
    exact ih p hp a ha b _ _ hab howns howns' hkeeps'

/-- Kept values have the description that they had before. -/
theorem Component.ExtendedBy.description_eq (h : c.ExtendedBy d) (hv : c.Owns v)
    (hw : d.Owns w) (hkeeps : d.Keeps v.entries w.entries) :
    d.description w = c.description v := by
  induction c using Component.induction generalizing d v w with
  | step c ih =>
    unfold description
    rw [h.template_eq]
    cases ht : c.template with
    | none => rfl
    | some t =>
      have hslots : t.slots.map (·.fill (settingTexts d w.entries)) =
          t.slots.map (·.fill (settingTexts c v.entries)) := by
        refine List.map_congr_left fun slot hslot => ?_
        obtain ⟨x, hx⟩ := hv.filled.exists_lookup (hv.sound.slot_declared ht hslot)
        obtain ⟨y, hy⟩ := hw.filled.exists_lookup
          (hw.sound.slot_declared (h.template_eq.trans ht) hslot)
        have htext := h.settingText_eq hv hw hkeeps
          (fun p hp a ha b v w hab hv hw => ih p hp a ha hab hv hw) hx hy
        rw [fill_slot hx, fill_slot hy, htext]
      rw [Option.map_some, Option.map_some, Template.fill_eq_join, Template.fill_eq_join, hslots]

/-- Kept values need training if they did before. -/
theorem Component.ExtendedBy.trainingRequired (h : c.ExtendedBy d) (hv : c.Owns v)
    (hw : d.Owns w) (hkeeps : d.Keeps v.entries w.entries) (ht : c.trainingRequired v = true) :
    d.trainingRequired w = true := by
  induction c using Component.induction generalizing d v w with
  | step c ih =>
    rw [trainingRequired_eq_true_iff] at ht ⊢
    rcases ht with hself | ⟨k, selected, xs, a, hmem, hselect, ha⟩
    · exact .inl (h.training_eq.trans hself)
    · obtain ⟨p, hp, a', ha', b, ys, hmem', hselect', hb, hab, howns, howns', hkeeps'⟩ :=
        h.exists_kept hv hw hkeeps hmem
      obtain rfl : a = a' := Option.some.inj (hselect.symm.trans hselect')
      exact .inr ⟨k, selected, ys, b, hmem', hb, ih p hp a ha' hab howns howns' hkeeps' ha⟩

end

end VectorIndex
