import VectorIndex.Proofs.Schema.SettingsMap
import VectorIndex.Proofs.Schema.Training

/-!
# The order of values

The entries of a component are found by name, so their order does not matter to
what is made of them.

* `Setting.Reordered`: the same setting up to the order of entries, at every depth.
* `Component.description_of_reordered`, `Component.settingsMap_of_reordered`,
  `Component.trainingRequired_of_reordered`: any component treats such values alike.
-/

namespace VectorIndex

/-- Two settings are the same up to the order of their entries, at every depth.
Names are distinct, so entries belong together if they have the same name. -/
inductive Setting.Reordered : Setting → Setting → Prop where
  | scalar {x} : x.IsScalar → Reordered x x
  | component {name xs ys} :
      (xs.map Prod.fst).Nodup → (xs.map Prod.fst).Perm (ys.map Prod.fst) →
      (∀ k x y, (k, x) ∈ xs → (k, y) ∈ ys → Reordered x y) →
      Reordered (.component name xs) (.component name ys)

/-! ## One level

Entries of the same names from which the same is made at each name. -/

section

variable {c : Component} {xs ys : List (String × Setting)}
  (hnodup : (xs.map Prod.fst).Nodup) (hkeys : (xs.map Prod.fst).Perm (ys.map Prod.fst))

include hnodup hkeys

theorem Template.fill_settingTexts_eq (t : Template)
    (h : ∀ k x y, (k, x) ∈ xs → (k, y) ∈ ys → settingText c k x = settingText c k y) :
    t.fill (settingTexts c xs) = t.fill (settingTexts c ys) := by
  have hperm : (settingTexts c xs).Perm (settingTexts c ys) := by
    rw [settingTexts_eq_map, settingTexts_eq_map]
    exact map_snd_perm_of_keys_perm (settingText c) hnodup hkeys h
  have hkeysOf : ((settingTexts c xs).map Prod.fst).Nodup := by
    rw [settingTexts_eq_map, List.map_map]
    exact hnodup
  have hslot : ∀ slot : Slot, slot.fill (settingTexts c xs) = slot.fill (settingTexts c ys) := by
    intro slot
    rw [Slot.fill, Slot.fill, lookup_eq_of_perm hperm hkeysOf]
  simp only [Template.fill, hslot]

theorem ofList_settingsMap_eq
    (h : ∀ k x y, (k, x) ∈ xs → (k, y) ∈ ys → settingMap c k x = settingMap c k y) :
    Keyed.ofList (settingsMap c xs) = Keyed.ofList (settingsMap c ys) := by
  have hmembers : ∀ entries : List (String × Setting), settingsMap c entries =
      (entries.map fun entry => (entry.1, settingMap c entry.1 entry.2)).filterMap
        fun member => member.2.map (member.1, ·) := by
    intro entries
    rw [settingsMap_eq_filterMap, List.filterMap_map]
    rfl
  have hperm : (settingsMap c xs).Perm (settingsMap c ys) := by
    rw [hmembers, hmembers]
    exact (map_snd_perm_of_keys_perm (settingMap c) hnodup hkeys h).filterMap _
  refine Keyed.ofList_eq_of_perm hperm ?_
  rw [settingsMap_eq_filterMap]
  exact List.Nodup.sublist (keys_filterMap_sublist (settingMap c) xs) hnodup

theorem settingsTrain_eq
    (h : ∀ k x y, (k, x) ∈ xs → (k, y) ∈ ys → settingTrains c k x = settingTrains c k y) :
    settingsTrain c xs = settingsTrain c ys := by
  have hany : ∀ entries : List (String × Setting), settingsTrain c entries =
      (entries.map fun entry => (entry.1, settingTrains c entry.1 entry.2)).any Prod.snd := by
    intro entries
    rw [settingsTrain_eq_any, List.any_map]
    rfl
  rw [hany, hany]
  exact (map_snd_perm_of_keys_perm (settingTrains c) hnodup hkeys h).any_eq

end

/-! ## All levels -/

namespace Setting.Reordered

variable {x y : Setting}

/-- The JSON value is the same once its members are sorted. -/
theorem sorted_json_eq (h : x.Reordered y) : x.json.sorted = y.json.sorted := by
  induction h with
  | scalar => rfl
  | @component name xs ys hnodup hkeys _ ih =>
    have hperm := map_snd_perm_of_keys_perm (fun _ x => x.json.sorted) hnodup hkeys ih
    rw [sorted_json_component, sorted_json_component, Keyed.ofList_eq_of_perm hperm]
    simpa [List.map_map, Function.comp_def] using hnodup

theorem settingText_eq (h : x.Reordered y) (c : Component) (k : String) :
    settingText c k x = settingText c k y := by
  induction h generalizing c k with
  | scalar => rfl
  | @component name xs ys hnodup hkeys _ ih =>
    rw [settingText_component, settingText_component]
    refine Option.bind_congr fun a _ => ?_
    refine Option.map_congr fun t _ => ?_
    exact t.fill_settingTexts_eq hnodup hkeys fun l x y hx hy => ih l x y hx hy a l

theorem settingMap_eq (h : x.Reordered y) (c : Component) (k : String) :
    settingMap c k x = settingMap c k y := by
  induction h generalizing c k with
  | scalar => rfl
  | @component name xs ys hnodup hkeys hvalues ih =>
    cases ha : c.select? k name with
    | none =>
      have hreordered : Reordered (.component name xs) (.component name ys) :=
        component hnodup hkeys hvalues
      simp only [settingMap, ha, hreordered.sorted_json_eq]
    | some a =>
      have hmembers := ofList_settingsMap_eq (c := a) hnodup hkeys
        fun l x y hx hy => ih l x y hx hy a l
      rw [settingMap_component ha, settingMap_component ha, mapObject, mapObject, hmembers]

theorem settingTrains_eq (h : x.Reordered y) (c : Component) (k : String) :
    settingTrains c k x = settingTrains c k y := by
  induction h generalizing c k with
  | scalar => rfl
  | @component name xs ys hnodup hkeys _ ih =>
    rw [settingTrains, settingTrains]
    cases c.select? k name with
    | none => rfl
    | some a =>
      have hbelow := settingsTrain_eq (c := a) hnodup hkeys
        fun l x y hx hy => ih l x y hx hy a l
      simp only [hbelow]

end Setting.Reordered

/-! ## Whole values -/

section

variable {v w : Values}

/-- The entries of values that are the same up to the order. -/
theorem Setting.Reordered.entries (h : v.setting.Reordered w.setting) :
    (v.entries.map Prod.fst).Nodup ∧ (v.entries.map Prod.fst).Perm (w.entries.map Prod.fst) ∧
      ∀ k x y, (k, x) ∈ v.entries → (k, y) ∈ w.entries → x.Reordered y := by
  obtain ⟨name, xs⟩ := v
  obtain ⟨name', ys⟩ := w
  cases h with
  | scalar hscalar => exact hscalar.elim
  | component hnodup hkeys hvalues => exact ⟨hnodup, hkeys, hvalues⟩

theorem Component.description_of_reordered (c : Component) (h : v.setting.Reordered w.setting) :
    c.description v = c.description w := by
  obtain ⟨hnodup, hkeys, hvalues⟩ := h.entries
  refine Option.map_congr fun t _ => ?_
  exact t.fill_settingTexts_eq hnodup hkeys
    fun k x y hx hy => (hvalues k x y hx hy).settingText_eq c k

theorem Component.settingsMap_of_reordered (c : Component) (h : v.setting.Reordered w.setting) :
    c.settingsMap v = c.settingsMap w := by
  obtain ⟨hnodup, hkeys, hvalues⟩ := h.entries
  have hmembers := ofList_settingsMap_eq (c := c) hnodup hkeys
    fun k x y hx hy => (hvalues k x y hx hy).settingMap_eq c k
  unfold Component.settingsMap
  rw [c.description_of_reordered h, hmembers]

theorem Component.trainingRequired_of_reordered (c : Component)
    (h : v.setting.Reordered w.setting) : c.trainingRequired v = c.trainingRequired w := by
  obtain ⟨hnodup, hkeys, hvalues⟩ := h.entries
  have hbelow := settingsTrain_eq (c := c) hnodup hkeys
    fun k x y hx hy => (hvalues k x y hx hy).settingTrains_eq c k
  rw [trainingRequired, trainingRequired, hbelow]

end

end VectorIndex
