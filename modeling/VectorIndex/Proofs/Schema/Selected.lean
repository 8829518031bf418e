import VectorIndex.Proofs.Schema.Conformance

/-!
# Selected components

Describing values, putting them into a map and asking for training all go down
from a component to the alternatives that its values select, by two searches by
name at every level.

* `Component.filled_iff_forall₂`, `Parameter.holds_iff`: complete values parameter
  by parameter.
* `Visits`: the components met on the way, each with its own values.
* `Component.Owns`: the values are complete values of the component, under its
  name. What a component returns it owns.
* `Visits.owns`: every component that is visited owns its values, so that both
  searches succeed at every level (`Component.Filled.exists_alternative`).
-/

namespace VectorIndex

/-! ## Complete values -/

/-- Complete values of parameters of distinct names, in their order. -/
theorem Component.filled_iff_forall₂ {c : Component} {entries : List (String × Setting)}
    (hnodup : (c.parameters.map Parameter.name).Nodup) :
    c.Filled entries ↔
      List.Forall₂ (fun p entry => entry.1 = p.name ∧ p.Holds entry.2) c.parameters entries := by
  rw [forall₂_iff_keys (R := Parameter.Holds) hnodup]
  refine ⟨fun h => ?_, fun h => .mk h.1 h.2⟩
  obtain ⟨hkeys, hholds⟩ := h
  exact ⟨hkeys, hholds⟩

/-- The parameter under whose name a complete value stands, and that it holds
the value. -/
theorem Component.Filled.exists_parameter {c : Component} {entries : List (String × Setting)}
    (h : c.Filled entries) (hsound : c.Sound) {k : String} {x : Setting}
    (hx : (k, x) ∈ entries) : ∃ p, c.parameter? k = some p ∧ p.Holds x := by
  obtain ⟨hkeys, hholds⟩ := h
  obtain ⟨p, hp, rfl⟩ := exists_item_of_mem hkeys hx
  exact ⟨p, hsound.parameter?_eq_some_iff.2 ⟨hp, rfl⟩, hholds p hp x hx⟩

/-- Every name stands once among complete values. -/
theorem Component.Filled.keys_nodup {c : Component} {entries : List (String × Setting)}
    (h : c.Filled entries) (hsound : c.Sound) : (entries.map Prod.fst).Nodup := by
  obtain ⟨hkeys, -⟩ := h
  rw [hkeys]
  exact hsound.names_nodup

/-- Every parameter has a complete value. -/
theorem Component.Filled.exists_lookup {c : Component} {entries : List (String × Setting)}
    (h : c.Filled entries) {k : String} (hk : k ∈ c.parameters.map Parameter.name) :
    ∃ x, entries.lookup k = some x := by
  obtain ⟨hkeys, -⟩ := h
  rw [exists_lookup_iff_mem_keys, hkeys]
  exact hk

/-- What the complete values of a parameter are. -/
theorem Parameter.holds_iff {p : Parameter} {x : Setting} :
    p.Holds x ↔ p.admits x = true ∨
      ∃ a ∈ p.alternatives, ∃ entries, a.Filled entries ∧ x = .component a.name entries := by
  constructor
  · intro h
    cases h with
    | scalar hadmits => exact .inl hadmits
    | choice ha hfilled => exact .inr ⟨_, ha, _, hfilled, rfl⟩
  · rintro (hadmits | ⟨a, ha, entries, hfilled, rfl⟩)
    · exact .scalar hadmits
    · exact .choice ha hfilled

theorem Parameter.holds_integer_iff {k : String} {n : Int64} {accepts : Int64 → Bool}
    {x : Setting} : (integer k n accepts).Holds x ↔ ∃ i, accepts i = true ∧ x = .integer i := by
  rw [holds_iff]
  cases x <;> simp [admits, alternatives]

theorem Parameter.holds_text_iff {k s : String} {accepts : String → Bool} {x : Setting} :
    (text k s accepts).Holds x ↔ ∃ t, accepts t = true ∧ x = .text t := by
  rw [holds_iff]
  cases x <;> simp [admits, alternatives]

theorem Parameter.holds_boolean_iff {k : String} {b : Bool} {accepts : Bool → Bool}
    {x : Setting} : (boolean k b accepts).Holds x ↔ ∃ t, accepts t = true ∧ x = .boolean t := by
  rw [holds_iff]
  cases x <;> simp [admits, alternatives]

theorem Parameter.holds_choice_iff {k : String} {s : Selection} {alternatives : List Component}
    {x : Setting} :
    (choice k s alternatives).Holds x ↔
      ∃ a ∈ alternatives, ∃ entries, a.Filled entries ∧ x = .component a.name entries := by
  rw [holds_iff]
  simp [admits, Parameter.alternatives]

/-- A complete value that is a component is one of the alternatives, with
complete values of its own. -/
theorem Parameter.Holds.exists_alternative {p : Parameter} {selected : String}
    {inner : List (String × Setting)} (h : p.Holds (.component selected inner)) :
    ∃ a ∈ p.alternatives, a.name = selected ∧ a.Filled inner := by
  cases h with
  | scalar hadmits => cases p <;> exact nomatch hadmits
  | @choice _ a _ ha hfilled => exact ⟨a, ha, rfl, hfilled⟩

/-- A component among complete values finds the parameter under whose name it
stands, and there the alternative of its own name. -/
theorem Component.Filled.exists_alternative {c : Component}
    {entries : List (String × Setting)} (h : c.Filled entries) (hsound : c.Sound)
    {k selected : String} {inner : List (String × Setting)}
    (hmem : (k, .component selected inner) ∈ entries) :
    ∃ p a, c.parameter? k = some p ∧ p.alternative? selected = some a ∧ a.Filled inner := by
  obtain ⟨p, hp, hholds⟩ := h.exists_parameter hsound hmem
  obtain ⟨a, ha, hname, hfilled⟩ := hholds.exists_alternative
  have hpsound := hsound.parameter (hsound.parameter?_eq_some_iff.1 hp).1
  exact ⟨p, a, hp, hpsound.alternative?_eq_some_iff.2 ⟨ha, hname⟩, hfilled⟩

/-! ## Going down -/

/-- From a component and its values one comes to another component and values,
each time by an alternative that the values select. -/
inductive Visits : Component → Values → Component → Values → Prop where
  | here {c v} : Visits c v c v
  | step {c v k selected inner a b w} :
      (k, .component selected inner) ∈ v.entries → c.select? k selected = some a →
      Visits a ⟨selected, inner⟩ b w → Visits c v b w

/-- The values are complete values of the sound component, under its name. -/
structure Component.Owns (c : Component) (v : Values) : Prop where
  sound : c.Sound
  name_eq : v.name = c.name
  filled : c.Filled v.entries

/-- Every name stands once among the values that a component owns. -/
theorem Component.Owns.keys_nodup {c : Component} {v : Values} (h : c.Owns v) :
    (v.entries.map Prod.fst).Nodup :=
  h.filled.keys_nodup h.sound

/-- A component owns the values that it returns. -/
theorem Component.Built.owns {c : Component} (h : c.Built) {s : Selection} {v : Values}
    (hv : c.validate s = .ok v) : c.Owns v :=
  ⟨h.sound, (Component.validate_eq_ok_iff.1 hv).1, h.sound.filled_of_validate hv⟩

/-- One step down: a component among the values selects an alternative, and
that alternative owns the values below. -/
theorem Component.Owns.exists_select {c : Component} {v : Values} (h : c.Owns v)
    {k selected : String} {inner : List (String × Setting)}
    (hmem : (k, .component selected inner) ∈ v.entries) :
    ∃ p ∈ c.parameters, ∃ a ∈ p.alternatives,
      c.select? k selected = some a ∧ a.Owns ⟨selected, inner⟩ := by
  obtain ⟨p, a, hp, ha, hfilled⟩ := h.filled.exists_alternative h.sound hmem
  have hpmem := (h.sound.parameter?_eq_some_iff.1 hp).1
  have hpsound := h.sound.parameter hpmem
  obtain ⟨hamem, haname⟩ := hpsound.alternative?_eq_some_iff.1 ha
  exact ⟨p, hpmem, a, hamem, select?_of_parameter? hp ha,
    hpsound.alternative hamem, haname.symm, hfilled⟩

/-- The same for an alternative that is known: it owns the values under its name. -/
theorem Component.Owns.alternative {c : Component} {v : Values} (h : c.Owns v) {p : Parameter}
    (hp : p ∈ c.parameters) {a : Component} (ha : a ∈ p.alternatives)
    {inner : List (String × Setting)} (hmem : (p.name, .component a.name inner) ∈ v.entries) :
    a.Owns ⟨a.name, inner⟩ := by
  obtain ⟨-, -, b, -, hselect, howns⟩ := h.exists_select hmem
  rw [h.sound.select?_eq_some_iff.2 ⟨p, hp, ha, rfl, rfl⟩] at hselect
  cases hselect
  exact howns

/-- Every component that is visited owns its values. -/
theorem Visits.owns {c b : Component} {v w : Values} (h : Visits c v b w) (hc : c.Owns v) :
    b.Owns w := by
  induction h with
  | here => exact hc
  | step hmem hselect _ ih =>
    obtain ⟨-, -, a, -, ha, howns⟩ := hc.exists_select hmem
    rw [hselect] at ha
    cases ha
    exact ih howns

end VectorIndex
