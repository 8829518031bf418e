import VectorIndex.Proofs.Schema.Construction

/-!
# Sound schemas

What construction establishes at every level of a schema, and what the levels
have to do with each other.

* `Component.induction`: induction over schemas by way of the alternatives
  that parameters offer.
* `Parameter.Sound`, `Component.Sound`: the invariant. Names are distinct,
  templates show declared parameters, and every default is accepted.
* `Component.Built.sound`: whatever can be built is sound.
* `Component.Sound.parameter?_eq_some_iff`,
  `Parameter.Sound.alternative?_eq_some_iff`: in a sound schema the searches by
  name find the members of that name.
-/

namespace VectorIndex

/-! ## Induction over schemas -/

/-- An alternative is a smaller schema than the component that offers it. -/
theorem Component.sizeOf_alternative_lt {c a : Component} {p : Parameter}
    (hp : p ∈ c.parameters) (ha : a ∈ p.alternatives) : sizeOf a < sizeOf c := by
  obtain ⟨name, parameters, template, training⟩ := c
  have hsize : sizeOf p < sizeOf parameters := List.sizeOf_lt_of_mem hp
  cases p with
  | integer | text | boolean => exact absurd ha List.not_mem_nil
  | choice name default alternatives =>
    have halt : sizeOf a < sizeOf alternatives := List.sizeOf_lt_of_mem ha
    simp only [Parameter.choice.sizeOf_spec] at hsize
    simp only [Component.mk.sizeOf_spec]
    omega

/-- What holds of a component as soon as it holds of all alternatives that its
parameters offer holds of every component. -/
@[elab_as_elim]
theorem Component.induction {motive : Component → Prop}
    (step : ∀ c : Component,
      (∀ p ∈ c.parameters, ∀ a ∈ p.alternatives, motive a) → motive c)
    (c : Component) : motive c :=
  step c fun _ hp a ha =>
    have := sizeOf_alternative_lt hp ha
    Component.induction step a
termination_by sizeOf c

/-! ## The invariant -/

mutual

/-- A parameter accepts its default. A choice offers sound alternatives of
distinct names, at least one, and its default names one of them. -/
inductive Parameter.Sound : Parameter → Prop where
  | scalar {p} : p.kind ≠ .choice → p.accepts p.default = true → Parameter.Sound p
  | choice {name default alternatives} :
      alternatives ≠ [] → (alternatives.map Component.name).Nodup →
      default.name ∈ alternatives.map Component.name →
      (∀ a ∈ alternatives, Component.Sound a) →
      (Parameter.choice name default alternatives).accepts default.setting = true →
      Parameter.Sound (.choice name default alternatives)

/-- The parameters of a component are sound and have distinct names, and its
template shows none but them. -/
inductive Component.Sound : Component → Prop where
  | mk {c} :
      (c.parameters.map Parameter.name).Nodup →
      (∀ t, c.template = some t → ∀ slot ∈ t.slots,
        slot.name ∈ c.parameters.map Parameter.name) →
      (∀ p ∈ c.parameters, Parameter.Sound p) → Component.Sound c

end

/-- A parameter that can be built is sound if its alternatives are. -/
theorem Parameter.Built.sound_of_alternatives {p : Parameter} (h : p.Built)
    (ih : ∀ a ∈ p.alternatives, a.Built → a.Sound) : p.Sound := by
  cases h with
  | ofInteger h | ofText h | ofBoolean h =>
    obtain ⟨haccepts, rfl⟩ := Parameter.checked_eq_ok_iff.1 h
    exact .scalar (by simp [Parameter.kind]) haccepts
  | ofChoice halternatives h =>
    obtain ⟨hsome, hnodup, hdefault, haccepts, rfl⟩ := Parameter.ofChoice_eq_ok_iff.1 h
    exact .choice hsome hnodup hdefault (fun a ha => ih a ha (halternatives a ha)) haccepts

/-- Every component that can be built is sound. -/
theorem Component.Built.sound {c : Component} (h : c.Built) : c.Sound := by
  induction c using Component.induction with
  | step c ih =>
    cases h with
    | build name calls hparameters h =>
      obtain ⟨hnodup, hslots, rfl⟩ := Component.Builder.build_eq_ok_iff.1 h
      refine .mk hnodup hslots fun p hp => ?_
      have hbuilt := hparameters p (Component.Builder.mem_parameters_after.1 hp)
      exact hbuilt.sound_of_alternatives (ih p hp)

/-- Every parameter that can be built is sound. -/
theorem Parameter.Built.sound {p : Parameter} (h : p.Built) : p.Sound :=
  h.sound_of_alternatives fun _ _ ha => ha.sound

/-! ## What soundness says of a parameter -/

namespace Parameter

theorem alternatives_eq_nil {p : Parameter} (h : p.kind ≠ .choice) : p.alternatives = [] := by
  cases p with
  | integer | text | boolean => rfl
  | choice => exact absurd rfl h

theorem Sound.accepts_default {p : Parameter} (h : p.Sound) :
    p.accepts p.default = true := by
  cases h with
  | scalar _ haccepts => exact haccepts
  | choice _ _ _ _ haccepts => exact haccepts

theorem Sound.alternative {p : Parameter} {a : Component} (h : p.Sound)
    (ha : a ∈ p.alternatives) : a.Sound := by
  cases h with
  | scalar hkind _ =>
    rw [alternatives_eq_nil hkind] at ha
    exact absurd ha List.not_mem_nil
  | choice _ _ _ halternatives _ => exact halternatives a ha

theorem Sound.alternatives_nodup {p : Parameter} (h : p.Sound) :
    (p.alternatives.map Component.name).Nodup := by
  cases h with
  | scalar hkind _ =>
    rw [alternatives_eq_nil hkind]
    exact List.nodup_nil
  | choice _ hnodup _ _ _ => exact hnodup

/-- The search among the alternatives of a sound parameter finds the one of
that name. -/
theorem Sound.alternative?_eq_some_iff {p : Parameter} (h : p.Sound) {name : String}
    {a : Component} : p.alternative? name = some a ↔ a ∈ p.alternatives ∧ a.name = name :=
  find?_eq_some_iff_mem h.alternatives_nodup

end Parameter

/-! ## What soundness says of a component -/

namespace Component

theorem select?_of_parameter? {c a : Component} {p : Parameter} {parameter name : String}
    (hp : c.parameter? parameter = some p) (ha : p.alternative? name = some a) :
    c.select? parameter name = some a := by
  rw [select?, hp, Option.bind_some, ha]

theorem Sound.names_nodup {c : Component} (h : c.Sound) :
    (c.parameters.map Parameter.name).Nodup := by
  obtain ⟨hnodup, -, -⟩ := h
  exact hnodup

theorem Sound.slot_declared {c : Component} (h : c.Sound) {t : Template}
    (ht : c.template = some t) {slot : Slot} (hslot : slot ∈ t.slots) :
    slot.name ∈ c.parameters.map Parameter.name := by
  obtain ⟨-, hslots, -⟩ := h
  exact hslots t ht slot hslot

theorem Sound.parameter {c : Component} (h : c.Sound) {p : Parameter}
    (hp : p ∈ c.parameters) : p.Sound := by
  obtain ⟨-, -, hparameters⟩ := h
  exact hparameters p hp

/-- The search among the parameters of a sound component finds the one of that
name. -/
theorem Sound.parameter?_eq_some_iff {c : Component} (h : c.Sound) {name : String}
    {p : Parameter} : c.parameter? name = some p ↔ p ∈ c.parameters ∧ p.name = name :=
  find?_eq_some_iff_mem h.names_nodup

/-- Both searches together find what the parameter of the one name offers under the
other. -/
theorem Sound.select?_eq_some_iff {c a : Component} (h : c.Sound) {parameter name : String} :
    c.select? parameter name = some a ↔
      ∃ p ∈ c.parameters, a ∈ p.alternatives ∧ p.name = parameter ∧ a.name = name := by
  rw [select?, Option.bind_eq_some_iff]
  constructor
  · intro hselect
    obtain ⟨p, hp, ha⟩ := hselect
    obtain ⟨hpmem, hpname⟩ := h.parameter?_eq_some_iff.1 hp
    obtain ⟨hamem, haname⟩ := (h.parameter hpmem).alternative?_eq_some_iff.1 ha
    exact ⟨p, hpmem, hamem, hpname, haname⟩
  · intro hoffered
    obtain ⟨p, hp, ha, hpname, haname⟩ := hoffered
    exact ⟨p, h.parameter?_eq_some_iff.2 ⟨hp, hpname⟩,
      (h.parameter hp).alternative?_eq_some_iff.2 ⟨ha, haname⟩⟩

end Component

end VectorIndex
