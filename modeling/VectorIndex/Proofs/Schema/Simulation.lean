import VectorIndex.Proofs.Schema.SettingsMap
import VectorIndex.Proofs.Schema.Training

/-!
# Schemas that look the same from values

Describing values, putting them into a map and asking for training read little of
a schema: the name, the template and the training flag of a component, and the
alternatives that it finds under given names. Two schemas that agree on this at
every level treat all values alike, also values of a third schema.

* `Simulation`: a relation between components that agree on it, and whose
  alternatives are related again.
* `Simulation.description_eq`, `Simulation.gaps_eq`, `Simulation.settingsMap_eq`,
  `Simulation.trainingRequired_eq`: what follows for all values.
-/

namespace VectorIndex

/-- What a component selects is an alternative of one of its parameters. -/
theorem Component.exists_of_select? {c a : Component} {k selected : String}
    (h : c.select? k selected = some a) : ∃ p ∈ c.parameters, a ∈ p.alternatives := by
  obtain ⟨p, hp, ha⟩ := Option.bind_eq_some_iff.1 h
  exact ⟨p, (find?_name_some hp).1, (find?_name_some ha).1⟩

/-- Components select related alternatives if the parameters that they find are
related, and related parameters find related alternatives. -/
theorem Component.rel_select? {R : Component → Component → Prop} {S : Parameter → Parameter → Prop}
    {c d : Component} {k selected : String}
    (hparameter : Option.Rel S (c.parameter? k) (d.parameter? k))
    (halternative : ∀ p ∈ c.parameters, ∀ q ∈ d.parameters, S p q →
      Option.Rel R (p.alternative? selected) (q.alternative? selected)) :
    Option.Rel R (c.select? k selected) (d.select? k selected) := by
  unfold select?
  generalize hp : c.parameter? k = x at hparameter ⊢
  generalize hq : d.parameter? k = y at hparameter ⊢
  cases hparameter with
  | none => exact .none
  | some hpq => exact halternative _ (find?_name_some hp).1 _ (find?_name_some hq).1 hpq

/-- Related components have the same name, template and training flag, and under
the same names they select nothing or related alternatives. -/
structure Simulation (R : Component → Component → Prop) : Prop where
  name_eq {c d} : R c d → d.name = c.name
  template_eq {c d} : R c d → d.template = c.template
  training_eq {c d} : R c d → d.training = c.training
  rel_select? {c d} : R c d →
    ∀ k selected, Option.Rel R (c.select? k selected) (d.select? k selected)

namespace Simulation

variable {R : Component → Component → Prop} {c d : Component}

/-- Either both components select nothing, or they select related alternatives. -/
theorem select?_cases (hR : Simulation R) (h : R c d) (k selected : String) :
    (c.select? k selected = none ∧ d.select? k selected = none) ∨
    ∃ p ∈ c.parameters, ∃ a ∈ p.alternatives, ∃ b,
      c.select? k selected = some a ∧ d.select? k selected = some b ∧ R a b := by
  have hrel := hR.rel_select? h k selected
  generalize hc : c.select? k selected = x at hrel ⊢
  generalize d.select? k selected = y at hrel ⊢
  cases hrel with
  | none => exact .inl ⟨rfl, rfl⟩
  | @some a b hab =>
    obtain ⟨p, hp, ha⟩ := Component.exists_of_select? hc
    exact .inr ⟨p, hp, a, ha, b, rfl, rfl, hab⟩

/-- Related components describe all values by the same text. -/
theorem description_eq (hR : Simulation R) (h : R c d) (v : Values) :
    d.description v = c.description v := by
  induction c using Component.induction generalizing d v with
  | step c ih =>
    have htext : ∀ k x, settingText d k x = settingText c k x := by
      intro k x
      cases x with
      | boolean | integer | text => rfl
      | component selected inner =>
        rw [settingText_component, settingText_component]
        rcases hR.select?_cases h k selected with ⟨hc, hd⟩ | ⟨p, hp, a, ha, b, hc, hd, hab⟩
        · rw [hc, hd]
        · rw [hc, hd]
          exact ih p hp a ha hab ⟨selected, inner⟩
    unfold Component.description
    simp only [hR.template_eq h, settingTexts_eq_map, htext]

/-- They meet the same slots without a value. -/
theorem gaps_eq (hR : Simulation R) (h : R c d) (v : Values) : d.gaps v = c.gaps v := by
  induction c using Component.induction generalizing d v with
  | step c ih =>
    have hbelow : ∀ k x, settingGaps d k x = settingGaps c k x := by
      intro k x
      cases x with
      | boolean | integer | text => simp only [settingGaps]
      | component selected inner =>
        rcases hR.select?_cases h k selected with ⟨hc, hd⟩ | ⟨p, hp, a, ha, b, hc, hd, hab⟩
        · simp only [settingGaps, hc, hd]
        · rw [Component.settingGaps_component hc, Component.settingGaps_component hd]
          exact ih p hp a ha hab ⟨selected, inner⟩
    unfold Component.gaps
    simp only [hR.template_eq h, hR.name_eq h, Component.settingsGaps_eq_map, hbelow]

/-- They put the same members into the map. -/
theorem settingsMap_members_eq (hR : Simulation R) (h : R c d)
    (entries : List (String × Setting)) : settingsMap d entries = settingsMap c entries := by
  induction c using Component.induction generalizing d entries with
  | step c ih =>
    have hshows : d.shows = c.shows := by
      funext k
      rw [Component.shows, Component.shows, hR.template_eq h]
    have hmember : ∀ k x, settingMap d k x = settingMap c k x := by
      intro k x
      cases x with
      | boolean | integer | text => simp only [settingMap, hshows]
      | component selected inner =>
        rcases hR.select?_cases h k selected with ⟨hc, hd⟩ | ⟨p, hp, a, ha, b, hc, hd, hab⟩
        · simp only [settingMap, hc, hd]
        · rw [settingMap_component hc, settingMap_component hd, hR.name_eq hab,
            ih p hp a ha hab inner]
    simp only [settingsMap_eq_filterMap, hmember]

/-- Their settings maps are the same. -/
theorem settingsMap_eq (hR : Simulation R) (h : R c d) (v : Values) :
    d.settingsMap v = c.settingsMap v := by
  unfold Component.settingsMap
  rw [hR.description_eq h, hR.settingsMap_members_eq h, hR.name_eq h]

/-- They need training for the same values. -/
theorem trainingRequired_eq (hR : Simulation R) (h : R c d) (v : Values) :
    d.trainingRequired v = c.trainingRequired v := by
  induction c using Component.induction generalizing d v with
  | step c ih =>
    have htrains : ∀ k x, settingTrains d k x = settingTrains c k x := by
      intro k x
      cases x with
      | boolean | integer | text => simp only [settingTrains]
      | component selected inner =>
        rcases hR.select?_cases h k selected with ⟨hc, hd⟩ | ⟨p, hp, a, ha, b, hc, hd, hab⟩
        · simp only [settingTrains, hc, hd]
        · simp only [settingTrains, hc, hd]
          exact ih p hp a ha hab ⟨selected, inner⟩
    unfold Component.trainingRequired
    simp only [hR.training_eq h, settingsTrain_eq_any, htrains]

end Simulation

end VectorIndex
