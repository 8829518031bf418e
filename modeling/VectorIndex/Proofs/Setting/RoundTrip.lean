import VectorIndex.Proofs.Json.Printer
import VectorIndex.Proofs.Setting.Meaning

/-!
# Settings that are written and read again

A written setting comes back with the settings of every component sorted by
name, so it comes back as it was if they were sorted before, as those of
readable settings are. It does so as long as its text is not nested too deeply,
and each component takes two levels.

* `Setting.Ordered`, `Setting.sorted`, `Setting.depth`.
* `Setting.means_json`: what the JSON value of a setting means.
* `Json.MeansSetting.ordered`: what is read is sorted.
* `Setting.readText_json_eq_ok_iff`, `Selection.readText_json_eq_ok_iff`: what
  the readers make of written settings and selections.
-/

namespace VectorIndex

open Json

/-! ## Order and depth -/

mutual

/-- Every component in the setting holds its settings in the order of their
names. -/
def Setting.Ordered : Setting → Prop
  | .component _ settings => Keyed.Ordered settings ∧ SettingsOrdered settings
  | _ => True

/-- `Setting.Ordered` for each of several named settings. -/
def SettingsOrdered : List (String × Setting) → Prop
  | [] => True
  | (_, x) :: rest => x.Ordered ∧ SettingsOrdered rest

end

mutual

/-- The setting with the settings of every component in the order of their
names. -/
def Setting.sorted : Setting → Setting
  | .component name settings => .component name (Keyed.ofList (sortedSettings settings))
  | x => x

/-- `Setting.sorted` on each of several named settings. -/
def sortedSettings : List (String × Setting) → List (String × Setting)
  | [] => []
  | (k, x) :: rest => (k, x.sorted) :: sortedSettings rest

end

mutual

/-- How many components stand inside each other, none for a scalar. -/
def Setting.depth : Setting → Nat
  | .component _ settings => settingsDepth settings + 1
  | _ => 0

/-- The depth of the deepest of several settings. -/
def settingsDepth : List (String × Setting) → Nat
  | [] => 0
  | (_, x) :: rest => max x.depth (settingsDepth rest)

end

theorem settingsOrdered_iff {settings : List (String × Setting)} :
    SettingsOrdered settings ↔ ∀ k x, (k, x) ∈ settings → x.Ordered := by
  induction settings with
  | nil => simp [SettingsOrdered]
  | cons entry rest ih =>
    rw [SettingsOrdered, ih]
    grind

theorem sortedSettings_eq_map (settings : List (String × Setting)) :
    sortedSettings settings = settings.map fun entry => (entry.1, entry.2.sorted) := by
  induction settings with
  | nil => rfl
  | cons entry rest ih => rw [sortedSettings, ih]; rfl

mutual

/-- Sorting does nothing to a sorted setting. -/
theorem Setting.Ordered.sorted_eq : ∀ {x : Setting}, x.Ordered → x.sorted = x
  | .boolean _, _ | .integer _, _ | .text _, _ => rfl
  | .component _ _, h => by
    rw [Setting.sorted, sortedSettings_eq h.2, h.1.ofList_eq]

theorem sortedSettings_eq : ∀ {settings : List (String × Setting)},
    SettingsOrdered settings → sortedSettings settings = settings
  | [], _ => rfl
  | (_, _) :: _, h => by
    rw [sortedSettings, h.1.sorted_eq, sortedSettings_eq h.2]

end

theorem ofList_sortedSettings {settings : List (String × Setting)}
    (h : Keyed.Ordered settings ∧ SettingsOrdered settings) :
    Keyed.ofList (sortedSettings settings) = settings := by
  rw [sortedSettings_eq h.2, h.1.ofList_eq]

/-! ## What is written -/

mutual

/-- The JSON value of a setting means the sorted setting. -/
theorem Setting.means_json : ∀ x : Setting, x.json.MeansSetting x.sorted
  | .boolean _ => .boolean
  | .integer _ => .integer
  | .text _ => .text
  | .component _ settings =>
    .component (.mk (.byName (by simp) (by simp)) rfl (membersMean_settingsJson settings).settings)

theorem membersMean_settingsJson : ∀ settings : List (String × Setting),
    MembersMean (settingsJson settings) (sortedSettings settings)
  | [] => .nil
  | (_, x) :: rest => .cons x.means_json (membersMean_settingsJson rest)

end

mutual

theorem Setting.exact_json : ∀ x : Setting, x.json.Exact
  | .boolean _ | .text _ => trivial
  | .integer n => ⟨n.le_toInt, Int.lt_trans n.toInt_lt (by decide)⟩
  | .component _ settings => ⟨trivial, membersExact_settingsJson settings, trivial⟩

theorem membersExact_settingsJson : ∀ settings : List (String × Setting),
    MembersExact (settingsJson settings)
  | [] => trivial
  | (_, x) :: rest => ⟨x.exact_json, membersExact_settingsJson rest⟩

end

mutual

/-- A component takes two levels: its own object and that of its settings. -/
theorem Setting.nesting_json : ∀ x : Setting, x.json.nesting = 2 * x.depth
  | .boolean _ | .integer _ | .text _ => rfl
  | .component _ settings => by
    simp only [Setting.json, nesting, membersNesting, Setting.depth,
      membersNesting_settingsJson settings]
    omega

theorem membersNesting_settingsJson : ∀ settings : List (String × Setting),
    membersNesting (settingsJson settings) = 2 * settingsDepth settings
  | [] => rfl
  | (_, x) :: rest => by
    simp only [settingsJson, membersNesting, settingsDepth, x.nesting_json,
      membersNesting_settingsJson rest]
    omega

end

/-! ## What is read -/

mutual

/-- Settings that a value means are sorted. -/
theorem Json.MeansSetting.ordered {j : Json} {x : Setting} (h : j.MeansSetting x) :
    x.Ordered := by
  match h with
  | .boolean | .integer | .text => trivial
  | .component h => exact h.ordered

theorem Json.MeansSelection.ordered {j : Json} {s : Selection} (h : j.MeansSelection s) :
    s.setting.Ordered := by
  match h with
  | .mk _ _ hsettings => exact hsettings.ordered

theorem Json.MeansSettings.ordered {given : Option Json} {settings : List (String × Setting)}
    (h : MeansSettings given settings) : Keyed.Ordered settings ∧ SettingsOrdered settings := by
  match h with
  | .absent => exact ⟨.nil, trivial⟩
  | .object hmembers hordered hlookup =>
    refine ⟨hordered, settingsOrdered_iff.2 fun k x hx => ?_⟩
    rw [← lookup_eq_some_iff_mem hordered.nodup, hlookup] at hx
    exact settingsOrdered_iff.1 hmembers.ordered k x (List.mem_reverse.1 (mem_of_lookup hx))

theorem Json.MembersMean.ordered {members : List (String × Json)}
    {written : List (String × Setting)} (h : MembersMean members written) :
    SettingsOrdered written := by
  match h with
  | .nil => trivial
  | .cons h hrest => exact ⟨h.ordered, hrest.ordered⟩

end

/-- Sorting sorts at every level. -/
theorem Setting.ordered_sorted (x : Setting) : x.sorted.Ordered :=
  x.means_json.ordered

/-! ## Writing and reading again -/

/-- A written setting is read as the sorted setting, up to 63 components deep. -/
theorem Setting.readText_json_eq_ok_iff {x y : Setting} :
    readText Setting.read x.json.compact = .ok y ↔ x.depth ≤ 63 ∧ y = x.sorted := by
  rw [readText_eq_ok_iff_of_text (text_compact x.exact_json), x.nesting_json,
    Setting.read_draft_eq_ok_iff, Reader.maxDepth]
  refine and_congr (by omega) ⟨fun h => h.unique x.means_json, ?_⟩
  intro h
  subst h
  exact x.means_json

/-- The selection with the settings of every component in the order of their
names. -/
def Selection.sorted (s : Selection) : Selection :=
  ⟨s.name, Keyed.ofList (sortedSettings s.settings)⟩

theorem Selection.sorted_eq {s : Selection} (h : s.setting.Ordered) : s.sorted = s := by
  rw [sorted, ofList_sortedSettings h]

/-- A written selection is read as the sorted selection, up to 63 components
deep. -/
theorem Selection.readText_json_eq_ok_iff {s t : Selection} :
    readText Selection.read s.json.compact = .ok t ↔ s.setting.depth ≤ 63 ∧ t = s.sorted := by
  have htext : Grammar.Text s.json.compact s.json := text_compact s.setting.exact_json
  have hnesting : s.json.nesting = 2 * s.setting.depth := s.setting.nesting_json
  have hmeans : s.json.MeansSelection s.sorted := meansSetting_setting_iff.1 s.setting.means_json
  rw [readText_eq_ok_iff_of_text htext, hnesting, Selection.read_draft_eq_ok_iff, Reader.maxDepth]
  refine and_congr (by omega) ⟨fun h => h.unique hmeans, ?_⟩
  intro h
  subst h
  exact hmeans

end VectorIndex
