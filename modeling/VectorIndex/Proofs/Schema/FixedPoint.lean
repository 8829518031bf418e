import VectorIndex.Proofs.Schema.Conformance
import VectorIndex.Proofs.Setting.RoundTrip
import VectorIndex.Schema.SettingsMap
import VectorIndex.Schema.Training

/-!
# Checked values as a selection

Complete values, taken for a selection in turn, are accepted and complete it
(`Component.Sound.validate_sorted`). A selection holds its settings by name and
not in the order of declaration, but checking puts them back in that order. So
checked values that are written and read again are checked to be the same
(`values_return`).
-/

namespace VectorIndex

/-! ## Settings by name -/

/-- Sorting settings of distinct names keeps what stands at each of them. -/
theorem Selection.get?_sorted {s : Selection} (hnodup : (s.settings.map Prod.fst).Nodup)
    (k : String) : s.sorted.get? k = (s.get? k).map Setting.sorted := by
  have hkeys : (sortedSettings s.settings).map Prod.fst = s.settings.map Prod.fst := by
    simp [sortedSettings_eq_map]
  rw [get?, sorted, Keyed.lookup_ofList, Keyed.lookup_reverse (hkeys ▸ hnodup),
    sortedSettings_eq_map]
  exact lookup_map_snd (fun _ x => x.sorted) k s.settings

/-- Sorting adds no names. -/
theorem Selection.mem_keys_sorted {s : Selection} {k : String} :
    k ∈ s.sorted.settings.map Prod.fst ↔ k ∈ s.settings.map Prod.fst := by
  have hkeys : (sortedSettings s.settings).map Prod.fst = s.settings.map Prod.fst := by
    simp [sortedSettings_eq_map]
  rw [← hkeys, ← exists_lookup_iff_mem_keys, sorted, Keyed.lookup_ofList,
    exists_lookup_iff_mem_keys, List.map_reverse, List.mem_reverse]

/-! ## Complete values are accepted -/

/-- A complete value resolves to itself once it is sorted, provided the
alternatives accept their complete values. -/
theorem Parameter.Sound.resolve_sorted {p : Parameter} (h : p.Sound)
    (ih : ∀ a ∈ p.alternatives, ∀ entries, a.Filled entries →
      a.validate (Selection.sorted ⟨a.name, entries⟩) = .ok ⟨a.name, entries⟩)
    {x : Setting} (hx : p.Holds x) : p.resolve x.sorted = .ok x := by
  rw [h.resolve_eq_ok_iff]
  cases hx with
  | scalar hadmits =>
    have hsame : x.sorted = x := by
      cases x with
      | boolean | integer | text => rfl
      | component => cases p <;> exact nomatch hadmits
    rw [hsame]
    exact .inl ⟨hadmits, rfl⟩
  | choice ha hfilled => exact .inr ⟨_, ha, _, _, rfl, ih _ ha _ hfilled, rfl⟩

/-- A component accepts its complete values, whatever the order in which they
are set, and completes them by nothing. -/
theorem Component.Sound.validate_sorted {c : Component} (h : c.Sound) {name : String}
    {entries : List (String × Setting)} (hfilled : c.Filled entries) :
    c.validate (Selection.sorted ⟨name, entries⟩) = .ok ⟨c.name, entries⟩ := by
  induction c using Component.induction generalizing name entries with
  | step c ih =>
    obtain ⟨hkeys, hholds⟩ := hfilled
    have hnodup : (entries.map Prod.fst).Nodup := hkeys ▸ h.names_nodup
    refine validate_eq_ok_iff.2
      ⟨rfl, (resolves_iff_keys h.names_nodup).2 ⟨hkeys, fun p hp x hx => ?_⟩, fun k hk => ?_⟩
    · have hset : (Selection.sorted ⟨name, entries⟩).settingFor p = x.sorted := by
        rw [Selection.settingFor, Selection.get?_sorted hnodup, Selection.get?,
          (lookup_eq_some_iff_mem hnodup).2 hx]
        rfl
      rw [hset]
      exact (h.parameter hp).resolve_sorted
        (fun a ha _ hfilled => ih p hp a ha ((h.parameter hp).alternative ha) hfilled)
        (hholds p hp x hx)
    · rw [← hkeys]
      exact Selection.mem_keys_sorted.1 hk

/-! ## Values that are written and read again -/

/-- The values of an accepted selection, if they are at most 63 components deep,
are read from their compact text as a selection for which the component returns
the same values. So the description, the settings map and the answer on
training are the same as well. -/
theorem values_return (c : Component) (hc : c.Built) (s : Selection) (v : Values)
    (hv : c.validate s = .ok v) (hdepth : v.setting.depth ≤ 63) :
    ∃ s', Json.readText Selection.read v.json.compact = .ok s' ∧ c.validate s' = .ok v ∧
      (c.validate s').map c.description = (c.validate s).map c.description ∧
      (c.validate s').map c.settingsMap = (c.validate s).map c.settingsMap ∧
      (c.validate s').map c.trainingRequired = (c.validate s).map c.trainingRequired := by
  have hname : v.name = c.name := (Component.validate_eq_ok_iff.1 hv).1
  have hagain : c.validate (Selection.sorted ⟨v.name, v.entries⟩) = .ok v := by
    rw [hc.sound.validate_sorted (hc.sound.filled_of_validate hv), ← hname]
  have hjson : v.json = (Selection.mk v.name v.entries).json := rfl
  have hread : Json.readText Selection.read v.json.compact =
      .ok (Selection.sorted ⟨v.name, v.entries⟩) := by
    rw [hjson, Selection.readText_json_eq_ok_iff]
    exact ⟨hdepth, rfl⟩
  refine ⟨_, hread, hagain, ?_⟩
  rw [hagain, hv]
  exact ⟨rfl, rfl, rfl⟩

/-- The values of the HNSW schema for the 16-bit encoder, which are not in the
order of their names, return from their text. -/
theorem values_return_hnsw :
    ∃ (c : Component) (s' : Selection), Hnsw.component .builtIn = .ok c ∧ c.Built ∧
      Json.readText Selection.read (Values.json ⟨"hnsw", [("m", .integer 16),
        ("ef_construction", .integer 100), ("ef_search", .integer 100),
        ("encoder", .component "sq" [("type", .text "bf16"), ("clip", .boolean false)])]⟩).compact =
          .ok s' ∧
      c.validate s' = .ok ⟨"hnsw", [("m", .integer 16), ("ef_construction", .integer 100),
        ("ef_search", .integer 100),
        ("encoder", .component "sq" [("type", .text "bf16"), ("clip", .boolean false)])]⟩ := by
  let s : Selection := ⟨"hnsw", [("encoder", .component "sq" [("type", .text "bf16")])]⟩
  obtain ⟨c, hc, hv⟩ : ∃ c, Hnsw.component .builtIn = .ok c ∧ c.validate s = .ok
      ⟨"hnsw", [("m", .integer 16), ("ef_construction", .integer 100),
        ("ef_search", .integer 100),
        ("encoder", .component "sq" [("type", .text "bf16"), ("clip", .boolean false)])]⟩ :=
    ⟨_, rfl, rfl⟩
  have hbuilt := Hnsw.built hc
  obtain ⟨s', hread, hagain, -⟩ := values_return c hbuilt s _ hv (by decide)
  exact ⟨c, s', hc, hbuilt, hread, hagain⟩

end VectorIndex
