import VectorIndex.Schema.Training

/-!
# Where a need for training comes from

A component asks for training itself, or one of the alternatives that its values
select does (`Component.trainingRequired_eq_true_iff`).
-/

namespace VectorIndex

variable {c : Component} {v : Values}

theorem settingsTrain_eq_any (c : Component) (entries : List (String × Setting)) :
    settingsTrain c entries = entries.any fun entry => settingTrains c entry.1 entry.2 := by
  induction entries with
  | nil => rfl
  | cons entry rest ih => rw [settingsTrain, ih, List.any_cons]

/-- A component asks for training if the selected alternative does. -/
theorem settingTrains_component {a : Component} {k selected : String}
    (ha : c.select? k selected = some a) (inner : List (String × Setting)) :
    settingTrains c k (.component selected inner) = a.trainingRequired ⟨selected, inner⟩ := by
  rw [settingTrains, ha]
  rfl

/-- A value asks for training if it selects an alternative that does. -/
theorem settingTrains_eq_true_iff {k : String} {x : Setting} :
    settingTrains c k x = true ↔ ∃ selected inner a, x = .component selected inner ∧
      c.select? k selected = some a ∧ a.trainingRequired ⟨selected, inner⟩ = true := by
  cases x with
  | boolean | integer | text => simp [settingTrains]
  | component selected inner =>
    rw [settingTrains]
    constructor
    · intro h
      cases hselect : c.select? k selected with
      | none =>
        rw [hselect] at h
        exact nomatch h
      | some a =>
        rw [hselect] at h
        exact ⟨selected, inner, a, rfl, hselect, h⟩
    · intro h
      obtain ⟨selected, inner, a, heq, hselect, ha⟩ := h
      cases heq
      rw [hselect]
      exact ha

/-- Training is asked for by the component itself or by an alternative that one of
the values selects. -/
theorem Component.trainingRequired_eq_true_iff :
    c.trainingRequired v = true ↔ c.training = true ∨
      ∃ k selected inner a, (k, .component selected inner) ∈ v.entries ∧
        c.select? k selected = some a ∧ a.trainingRequired ⟨selected, inner⟩ = true := by
  rw [trainingRequired, Bool.or_eq_true, settingsTrain_eq_any, List.any_eq_true]
  refine or_congr_right ⟨fun h => ?_, fun h => ?_⟩
  · obtain ⟨⟨k, x⟩, hmem, htrains⟩ := h
    obtain ⟨selected, inner, a, rfl, hselect, ha⟩ := settingTrains_eq_true_iff.1 htrains
    exact ⟨k, selected, inner, a, hmem, hselect, ha⟩
  · obtain ⟨k, selected, inner, a, hmem, hselect, ha⟩ := h
    exact ⟨_, hmem, settingTrains_eq_true_iff.2 ⟨selected, inner, a, rfl, hselect, ha⟩⟩

end VectorIndex
