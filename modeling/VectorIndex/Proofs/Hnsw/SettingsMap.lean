import VectorIndex.Proofs.Hnsw.Description
import VectorIndex.Proofs.Schema.SettingsMap

/-!
# Settings maps of the HNSW method

The map of a configuration has the two effort parameters and what the encoder
does not describe of itself; the description in the map has the rest. Together
they tell the configuration.

* `Configuration.map`: the map of a configuration (`Hnsw.settingsMap_values`).
* `Configuration.map_injective`: a map comes from one configuration only.
* `hnsw_maps_equal_iff`: two maps of the method are the same if and only if the
  values are, under whatever defaults.
-/

namespace VectorIndex

/-! ## The map of a configuration -/

/-- The map of an encoder: its name, and what its description does not show. -/
def Encoding.map : Encoding → Json
  | flat => .component "flat" []
  | sq _ _ clip => .component "sq" [("clip", .boolean clip)]
  | pq .. => .component "pq" []

/-- The map of a configuration. -/
def Configuration.map (x : Configuration) : Json :=
  .object [
    ("index_description", .string x.text),
    ("name", .string Hnsw.name),
    ("parameters", .object [
      ("ef_construction", .number (.integer x.efConstruction.toInt)),
      ("ef_search", .number (.integer x.efSearch.toInt)),
      (Hnsw.encoderParameter, x.encoding.map)])]

namespace Hnsw

/-- The value of the parameter that selects an encoder, in the map. -/
theorem settingMap_encoder (d : Defaults) (x : Encoding) :
    settingMap (schema d) encoderParameter x.setting = some x.map := by
  cases x <;> rfl

theorem settingsMap_values (d : Defaults) (x : Configuration) :
    (schema d).settingsMap x.values = x.map := by
  have hkeys (a b e : Json) :
      Keyed.Ordered [("ef_construction", a), ("ef_search", b), (encoderParameter, e)] := by
    show List.Pairwise (· < ·) ["ef_construction", "ef_search", "encoder"]
    decide
  have hparameters : settingsMap (schema d) x.values.entries =
      [("ef_construction", .number (.integer x.efConstruction.toInt)),
        ("ef_search", .number (.integer x.efSearch.toInt)),
        (encoderParameter, x.encoding.map)] := by
    rw [settingsMap_eq_filterMap, Configuration.values, Configuration.entries]
    simp only [List.filterMap_cons, List.filterMap_nil, settingMap_encoder]
    rfl
  rw [Component.settingsMap, description_values, hparameters, (hkeys _ _ _).ofList_eq]
  rfl

end Hnsw

namespace Configuration

/-- The numbers in a map are 64-bit integers. -/
theorem exact_map (x : Configuration) : x.map.Exact := by
  have hinteger : ∀ n : Int64, Json.Exact (.number (.integer n.toInt)) := fun n =>
    ⟨n.le_toInt, Int.lt_trans n.toInt_lt (by decide)⟩
  have hencoding : x.encoding.map.Exact := by
    cases x.encoding with
    | flat | pq => exact ⟨trivial, trivial, trivial⟩
    | sq => exact ⟨trivial, ⟨trivial, trivial⟩, trivial⟩
  exact ⟨trivial, trivial, ⟨hinteger _, hinteger _, hencoding, trivial⟩, trivial⟩

/-- The map of a method holds that of its encoder. -/
theorem nesting_map (x : Configuration) : x.map.nesting = 4 := by
  have hencoding : x.encoding.map.nesting = 2 := by
    cases x.encoding <;> rfl
  simp [map, Json.nesting, Json.membersNesting, hencoding]

end Configuration

/-! ## What the map tells -/

/-- The description and the map of an encoder together tell its settings. -/
theorem Encoding.eq_of_text?_of_map {x y : Encoding} (htext : x.text? = y.text?)
    (hmap : x.map = y.map) : x = y := by
  obtain ⟨hencoder, hformat, hcodes⟩ := text?_eq_iff.1 htext
  cases x with
  | flat =>
    cases y with
    | flat => rfl
    | sq | pq => cases hencoder
  | sq format _ clip =>
    cases y with
    | sq other _ clip' =>
      obtain rfl : format = other := Setting.text.inj (Option.some.inj (hformat rfl))
      obtain rfl : clip = clip' := by simpa [map, Json.component] using hmap
      rfl
    | flat | pq => cases hencoder
  | pq codes =>
    cases y with
    | pq others =>
      obtain rfl : codes = others := Setting.integer.inj (Option.some.inj (hcodes rfl))
      rfl
    | flat | sq => cases hencoder

/-- A map comes from one configuration only. -/
theorem Configuration.map_injective {x y : Configuration} (h : x.map = y.map) : x = y := by
  simp only [map, Json.object.injEq, List.cons.injEq, Prod.mk.injEq, Json.string.injEq,
    Json.number.injEq, Json.Number.integer.injEq, Int64.toInt_inj, true_and, and_true] at h
  obtain ⟨htext, hconstruction, hsearch, hmap⟩ := h
  obtain ⟨hm, htext?⟩ := text_eq_iff.1 htext
  have hencoding := Encoding.eq_of_text?_of_map htext? hmap
  obtain ⟨m, construction, search, encoding, _, _, _⟩ := x
  obtain ⟨m', construction', search', encoding', _, _, _⟩ := y
  obtain rfl : m = m' := hm
  obtain rfl : construction = construction' := hconstruction
  obtain rfl : search = search' := hsearch
  obtain rfl : encoding = encoding' := hencoding
  rfl

/-! ## Maps and values -/

/-- Two maps that the method makes of values it returned are the same if and only
if the values are, whatever the defaults under which they were returned. -/
theorem hnsw_maps_equal_iff (d₁ d₂ : Defaults) (m₁ m₂ : Method)
    (hm₁ : Hnsw.method d₁ = .ok m₁) (hm₂ : Hnsw.method d₂ = .ok m₂) (s₁ s₂ : Selection)
    (v₁ v₂ : Values) (hv₁ : m₁.validate s₁ = .ok v₁) (hv₂ : m₂.validate s₂ = .ok v₂) :
    m₁.component.settingsMap v₁ = m₂.component.settingsMap v₂ ↔ v₁ = v₂ := by
  obtain ⟨x, rfl⟩ := Hnsw.exists_configuration hm₁ hv₁
  obtain ⟨y, rfl⟩ := Hnsw.exists_configuration hm₂ hv₂
  obtain ⟨-, rfl⟩ := Hnsw.method_eq_ok_iff.1 hm₁
  obtain ⟨-, rfl⟩ := Hnsw.method_eq_ok_iff.1 hm₂
  constructor
  · intro h
    rw [Hnsw.settingsMap_values, Hnsw.settingsMap_values] at h
    rw [Configuration.map_injective h]
  · intro h
    rw [h, Hnsw.settingsMap_values, Hnsw.settingsMap_values]

/-- The 16-bit encoder with and without clipping, which the description does not
show, under different defaults: the maps differ. -/
theorem hnsw_maps_equal_iff_clip :
    ∃ (m₁ m₂ : Method) (v₁ v₂ : Values), Hnsw.method .builtIn = .ok m₁ ∧
      Hnsw.method ⟨16, 100, 7⟩ = .ok m₂ ∧
      m₁.validate ⟨"", [("encoder", .component "sq" [("clip", .boolean true)])]⟩ = .ok v₁ ∧
      m₂.validate ⟨"", [("ef_search", .integer 100), ("encoder", .component "sq" [])]⟩ = .ok v₂ ∧
      m₁.description v₁ = m₂.description v₂ ∧
      m₁.component.settingsMap v₁ ≠ m₂.component.settingsMap v₂ := by
  obtain ⟨m₁, m₂, v₁, v₂, hm₁, hm₂, hv₁, hv₂, hdescription, hne⟩ :
      ∃ (m₁ m₂ : Method) (v₁ v₂ : Values), Hnsw.method .builtIn = .ok m₁ ∧
        Hnsw.method ⟨16, 100, 7⟩ = .ok m₂ ∧
        m₁.validate ⟨"", [("encoder", .component "sq" [("clip", .boolean true)])]⟩ = .ok v₁ ∧
        m₂.validate ⟨"", [("ef_search", .integer 100), ("encoder", .component "sq" [])]⟩ =
          .ok v₂ ∧
        m₁.description v₁ = m₂.description v₂ ∧ v₁ ≠ v₂ :=
    ⟨_, _, _, _, rfl, rfl, rfl, rfl, rfl, by decide⟩
  refine ⟨m₁, m₂, v₁, v₂, hm₁, hm₂, hv₁, hv₂, hdescription, fun h => hne ?_⟩
  exact (hnsw_maps_equal_iff _ _ m₁ m₂ hm₁ hm₂ _ _ v₁ v₂ hv₁ hv₂).1 h

end VectorIndex
