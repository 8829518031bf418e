import VectorIndex.Proofs.Schema.SettingsMap

/-!
# Settings that reach the engine

An engine gets a settings map and nothing else. A scalar reaches it under its
path in the parameters of the map, or as a part of the description.

* `Setting.at?`, `Json.parameterAt?`: what stands at the end of a path of
  parameter names, in values and in a map.
* `Component.stations`: the components that a path passes, each with the name
  by which the path goes on.
* `Component.Owns.parameterAt?_mapObject`: whether a scalar is in the map is up
  to the last component of its path alone.
* `Component.Owns.exists_description`: a scalar is in the description if the
  template of every component on its path shows the next name.

The two do not add up. `setting_delivered_iff` says which scalars reach the
engine: the last template does not show the scalar, or all templates before it
show the way to it. `bare_map_loses_format` is a component where neither holds.
-/

namespace VectorIndex

/-! ## Paths -/

/-- The settings of a component, none for a scalar. -/
def Setting.entries : Setting → List (String × Setting)
  | .component _ entries => entries
  | _ => []

/-- The setting at the end of a path of parameter names. -/
def Setting.at? (x : Setting) : List String → Option Setting
  | [] => some x
  | k :: path => (x.entries.lookup k).bind fun y => y.at? path

/-- The member of an object. -/
def Json.member? (name : String) : Json → Option Json
  | .object members => members.lookup name
  | _ => none

/-- The parameters of a component in a map. -/
def Json.parameters (j : Json) : List (String × Json) :=
  match j.member? "parameters" with
  | some (.object parameters) => parameters
  | _ => []

/-- The value at the end of a path of parameter names in a map. -/
def Json.parameterAt? (j : Json) : List String → Option Json
  | [] => some j
  | k :: path => (j.parameters.lookup k).bind fun i => i.parameterAt? path

/-- The components that a path passes on its way down the values of `c`, each
with the next name of the path. -/
def Component.stations (c : Component) (x : Setting) : List String → List (Component × String)
  | [] => []
  | k :: path =>
    (c, k) ::
      match x.entries.lookup k with
      | some (.component selected inner) =>
        match c.select? k selected with
        | some a => a.stations (.component selected inner) path
        | none => []
      | _ => []

/-! ## The way down to a scalar -/

/-- A path leads from a component and its own values to a scalar: the last name
is that of the scalar, and every name before it is that of a component among the
values, where the path goes on with the alternative that this selects. -/
inductive Component.Leads : Component → Values → List String → Setting → Prop where
  | scalar {c v k x} :
      c.Owns v → v.get? k = some x → x.IsScalar → Leads c v [k] x
  | component {c v k selected inner a path x} :
      c.Owns v → v.get? k = some (.component selected inner) →
      c.select? k selected = some a → Leads a ⟨selected, inner⟩ path x →
      Leads c v (k :: path) x

/-- Nothing is below a scalar. -/
theorem Setting.IsScalar.path_eq_nil {x y : Setting} (hx : x.IsScalar) {path : List String}
    (h : x.at? path = some y) : path = [] ∧ y = x := by
  cases path with
  | nil =>
    rw [at?, Option.some.injEq] at h
    exact ⟨rfl, h.symm⟩
  | cons k path =>
    cases x with
    | boolean | integer | text => exact nomatch h
    | component => exact hx.elim

/-- Every scalar that stands somewhere in a component's own values is led to by its
path. -/
theorem Component.Owns.leads {c : Component} {v : Values} (h : c.Owns v) {path : List String}
    {x : Setting} (hx : v.setting.at? path = some x) (hscalar : x.IsScalar) :
    c.Leads v path x := by
  induction path generalizing c v with
  | nil =>
    cases hx
    exact hscalar.elim
  | cons k path ih =>
    obtain ⟨y, hy, hx⟩ := Option.bind_eq_some_iff.1 hx
    rcases y.isScalar_or_component with hyscalar | ⟨selected, inner, rfl⟩
    · obtain ⟨rfl, rfl⟩ := hyscalar.path_eq_nil hx
      exact .scalar h hy hscalar
    · obtain ⟨-, -, a, -, hselect, howns⟩ := h.exists_select (mem_of_lookup hy)
      exact .component h hy hselect (ih howns hx)

namespace Component.Leads

/-- The first station is the component itself. -/
theorem stations_scalar {c : Component} {v : Values} {k : String} {x : Setting}
    (hx : v.get? k = some x) (hscalar : x.IsScalar) :
    c.stations v.setting [k] = [(c, k)] := by
  rw [stations, Values.setting, Setting.entries, ← Values.get?, hx]
  cases x with
  | boolean | integer | text => rfl
  | component => exact hscalar.elim

/-- The stations behind it are those of the alternative. -/
theorem stations_component {c a : Component} {v : Values} {k selected : String}
    {inner : List (String × Setting)} (hx : v.get? k = some (.component selected inner))
    (ha : c.select? k selected = some a) (path : List String) :
    c.stations v.setting (k :: path) =
      (c, k) :: a.stations (Values.setting ⟨selected, inner⟩) path := by
  rw [stations, Values.setting, Setting.entries, ← Values.get?, hx]
  simp only [ha]
  rfl

/-- The stations spell the path. -/
theorem names_stations {c : Component} {v : Values} {path : List String} {x : Setting}
    (h : c.Leads v path x) : (c.stations v.setting path).map Prod.snd = path := by
  induction h with
  | scalar _ hx hscalar => rw [stations_scalar hx hscalar]; rfl
  | component _ hx hselect _ ih => rw [stations_component hx hselect, List.map_cons, ih]

/-! ## In the map -/

/-- What the map has at a path that starts with a name. -/
theorem parameterAt?_mapObject {c : Component} {v : Values} (h : c.Owns v) {k : String}
    {x : Setting} (hx : v.get? k = some x) (path : List String) :
    (mapObject c.name (VectorIndex.settingsMap c v.entries)).parameterAt? (k :: path) =
      (settingMap c k x).bind fun j => j.parameterAt? path := by
  have hparameters : (mapObject c.name (VectorIndex.settingsMap c v.entries)).parameters =
      Keyed.ofList (VectorIndex.settingsMap c v.entries) := rfl
  rw [Json.parameterAt?, hparameters, lookup_settingsMap c k h.keys_nodup, ← Values.get?, hx,
    Option.bind_some]

/-- A scalar is in the map unless the template of the last component on its path
shows it. The templates above do not matter. -/
theorem parameterAt?_eq {c : Component} {v : Values} {path : List String} {x : Setting}
    (h : c.Leads v path x) :
    ∃ above b k, c.stations v.setting path = above ++ [(b, k)] ∧
      (mapObject c.name (VectorIndex.settingsMap c v.entries)).parameterAt? path =
        if b.shows k then none else some x.json := by
  induction h with
  | @scalar c v k x howns hx hscalar =>
    refine ⟨[], c, k, stations_scalar hx hscalar, ?_⟩
    rw [parameterAt?_mapObject howns hx, settingMap_scalar hscalar]
    cases c.shows k <;> rfl
  | @component c v k selected inner a path x howns hx hselect _ ih =>
    obtain ⟨above, b, l, hstations, hmap⟩ := ih
    refine ⟨(c, k) :: above, b, l, ?_, ?_⟩
    · rw [stations_component hx hselect, hstations, List.cons_append]
    · rw [parameterAt?_mapObject howns hx, settingMap_component hselect, Option.bind_some]
      exact hmap

/-! ## In the description -/

/-- The text of a value that a template shows is a part of the description. -/
theorem exists_description_of_text {c : Component} {v : Values} {k : String} {x : Setting}
    (hshows : c.shows k = true) (hx : v.get? k = some x) {text : String}
    (htext : settingText c k x = some text) :
    ∃ front back, c.description v = some (front ++ text ++ back) := by
  unfold shows at hshows
  cases ht : c.template with
  | none =>
    rw [ht] at hshows
    exact nomatch hshows
  | some t =>
    rw [ht, Option.any_some, Template.shows, List.any_eq_true] at hshows
    obtain ⟨slot, hslot, hname⟩ := hshows
    obtain rfl : slot.name = k := by simpa using hname
    obtain ⟨before, after, hslots⟩ := List.append_of_mem hslot
    have hfill : slot.fill (settingTexts c v.entries) = slot.before ++ text ++ slot.after := by
      rw [fill_slot hx, htext]
    rw [description, ht, Option.map_some, Template.fill_eq_join, hslots, List.map_append,
      List.map_cons, String.join_append, String.join_cons, hfill]
    refine ⟨t.keyword ++ String.join (before.map (·.fill (settingTexts c v.entries))) ++
      slot.before, slot.after ++ String.join (after.map (·.fill (settingTexts c v.entries))), ?_⟩
    simp only [String.append_assoc]

/-- A scalar is a part of the description if every component on its path shows the
next name. -/
theorem exists_description {c : Component} {v : Values} {path : List String} {x : Setting}
    (h : c.Leads v path x)
    (hshows : ∀ station ∈ c.stations v.setting path, station.1.shows station.2 = true) :
    ∃ front back, c.description v = some (front ++ x.display ++ back) := by
  induction h with
  | @scalar c v k x howns hx hscalar =>
    rw [stations_scalar hx hscalar, List.forall_mem_singleton] at hshows
    refine exists_description_of_text hshows hx ?_
    cases x with
    | boolean | integer | text => rfl
    | component => exact hscalar.elim
  | @component c v k selected inner a path x howns hx hselect _ ih =>
    rw [stations_component hx hselect, List.forall_mem_cons] at hshows
    obtain ⟨front, back, hbelow⟩ := ih hshows.2
    have htext : settingText c k (.component selected inner) =
        some (front ++ x.display ++ back) := by
      rw [settingText_component, hselect, Option.bind_some, hbelow]
    obtain ⟨before, after, hdescription⟩ := exists_description_of_text hshows.1 hx htext
    refine ⟨before ++ front, back ++ after, ?_⟩
    rw [hdescription]
    simp only [String.append_assoc]

end Component.Leads

/-! ## What reaches the engine -/

namespace Component

/-- Every component on the path shows the next name, so that the scalar at its end
is compiled into the description. -/
def Compiles (c : Component) (v : Values) (path : List String) : Prop :=
  ∀ station ∈ c.stations v.setting path, station.1.shows station.2 = true

/-- The scalar at the end of the path is in the map under its path, or it is
compiled into the description. -/
def Delivers (c : Component) (v : Values) (path : List String) (x : Setting) : Prop :=
  (c.settingsMap v).parameterAt? path = some x.json ∨ c.Compiles v path

/-- The description of a map leaves its parameters as they are. -/
theorem parameters_settingsMap (c : Component) (v : Values) :
    (c.settingsMap v).parameters = Keyed.ofList (VectorIndex.settingsMap c v.entries) := by
  unfold settingsMap
  cases c.description v <;> rfl

theorem member?_settingsMap (c : Component) (v : Values) :
    (c.settingsMap v).member? "index_description" = (c.description v).map .string := by
  unfold settingsMap
  cases c.description v <;> rfl

/-- A path that starts with a name leads to the same with and without the
description. -/
theorem Leads.parameterAt?_settingsMap {c : Component} {v : Values} {path : List String}
    {x : Setting} (h : c.Leads v path x) :
    (c.settingsMap v).parameterAt? path =
      (mapObject c.name (VectorIndex.settingsMap c v.entries)).parameterAt? path := by
  cases h with
  | scalar | component =>
    rw [Json.parameterAt?, parameters_settingsMap]
    rfl

end Component

/-- Which scalars of a built component's values reach the engine. Each of them is
in the map unless the template of the last component on its path shows it, and
is a part of the description in the map if every component on its path shows the
next name. So it reaches the engine if and only if the last template does not
show it or all those above show the way. -/
theorem setting_delivered_iff (c : Component) (hc : c.Built) (s : Selection) (v : Values)
    (hv : c.validate s = .ok v) (path : List String) (x : Setting)
    (hx : v.setting.at? path = some x) (hscalar : x.IsScalar) :
    ∃ above b k, c.stations v.setting path = above ++ [(b, k)] ∧
      (above ++ [(b, k)]).map Prod.snd = path ∧
      ((c.settingsMap v).parameterAt? path = if b.shows k then none else some x.json) ∧
      (c.Compiles v path → ∃ front back, (c.settingsMap v).member? "index_description" =
        some (.string (front ++ x.display ++ back))) ∧
      (c.Delivers v path x ↔
        (b.shows k = true → ∀ station ∈ above, station.1.shows station.2 = true)) := by
  have hleads := (hc.owns hv).leads hx hscalar
  obtain ⟨above, b, k, hstations, hmap⟩ := hleads.parameterAt?_eq
  rw [← hleads.parameterAt?_settingsMap] at hmap
  have hcompiles : c.Compiles v path ↔
      (∀ station ∈ above, station.1.shows station.2 = true) ∧ b.shows k = true := by
    rw [Component.Compiles, hstations, List.forall_mem_append, List.forall_mem_singleton]
  refine ⟨above, b, k, hstations, hstations ▸ hleads.names_stations, hmap, fun h => ?_, ?_⟩
  · obtain ⟨front, back, hdescription⟩ := hleads.exists_description h
    exact ⟨front, back, by rw [Component.member?_settingsMap, hdescription, Option.map_some]⟩
  · rw [Component.Delivers, hmap, hcompiles]
    by_cases hshows : b.shows k = true
    · simp [hshows]
    · simp [hshows]

/-- The HNSW schema shows the way to its encoder, so the number of codes reaches
the engine in the description, though the map of the encoder does not have it. -/
theorem setting_delivered_iff_hnsw :
    ∃ (c : Component) (v : Values), Hnsw.component .builtIn = .ok c ∧ c.Built ∧
      c.validate ⟨"", [("encoder", .component "pq" [("m", .integer 4)])]⟩ = .ok v ∧
      v.setting.at? ["encoder", "m"] = some (.integer 4) ∧ Setting.IsScalar (.integer 4) ∧
      (c.settingsMap v).parameterAt? ["encoder", "m"] = none ∧
      c.Delivers v ["encoder", "m"] (.integer 4) := by
  obtain ⟨c, a, v, hc, hv, hx, hstations, hc', ha⟩ : ∃ (c a : Component) (v : Values),
      Hnsw.component .builtIn = .ok c ∧
      c.validate ⟨"", [("encoder", .component "pq" [("m", .integer 4)])]⟩ = .ok v ∧
      v.setting.at? ["encoder", "m"] = some (.integer 4) ∧
      c.stations v.setting ["encoder", "m"] = [(c, "encoder"), (a, "m")] ∧
      c.shows "encoder" = true ∧ a.shows "m" = true :=
    ⟨_, _, _, rfl, rfl, rfl, rfl, rfl, rfl⟩
  have hbuilt := Hnsw.built hc
  obtain ⟨above, b, k, heq, -, hmap, -, hiff⟩ :=
    setting_delivered_iff c hbuilt _ v hv _ _ hx trivial
  have hsplit : [(c, "encoder")] ++ [(a, "m")] = above ++ [(b, k)] := hstations.symm.trans heq
  obtain ⟨rfl, hlast⟩ := List.append_inj' hsplit rfl
  cases hlast
  rw [ha, if_pos rfl] at hmap
  exact ⟨c, v, hc, hbuilt, hv, hx, trivial, hmap,
    hiff.2 fun _ => List.forall_mem_singleton.2 hc'⟩

/-- A component without a template around the 16-bit encoder, whose template shows
its format. -/
def bare : Except Defect Component := do
  let sq ← Encoder.sq.component
  let encoder ← Parameter.ofChoice "encoder" (.plain "sq") [sq]
  ((Component.Builder.empty "bare").add encoder).build

theorem built_bare {c : Component} (h : bare = .ok c) : c.Built := by
  simp only [bare, bind_eq_ok_iff] at h
  obtain ⟨sq, hsq, encoder, hencoder, h⟩ := h
  exact .of_build (List.forall_mem_singleton.2
    (.ofChoice (List.forall_mem_singleton.2 (Encoder.built hsq)) hencoder)) h

/-- Not every scalar reaches the engine. The format of the encoder is taken out of
the map, since the template of the encoder shows it, and nothing takes the
description of the encoder in. The maps for both formats are the same. -/
theorem bare_map_loses_format :
    ∃ (c : Component) (v w : Values), bare = .ok c ∧ c.Built ∧
      c.validate (.plain "bare") = .ok v ∧
      c.validate ⟨"bare", [("encoder", .component "sq" [("type", .text "bf16")])]⟩ = .ok w ∧
      v.setting.at? ["encoder", "type"] = some (.text "fp16") ∧
      w.setting.at? ["encoder", "type"] = some (.text "bf16") ∧
      c.description v = none ∧ (c.settingsMap v).parameterAt? ["encoder", "type"] = none ∧
      c.settingsMap v = c.settingsMap w ∧
      ¬c.Delivers v ["encoder", "type"] (.text "fp16") := by
  obtain ⟨c, v, w, hc, hv, hw, hvx, hwx, hdescription, hmap, hsame, hshows⟩ :
      ∃ (c : Component) (v w : Values), bare = .ok c ∧ c.validate (.plain "bare") = .ok v ∧
        c.validate ⟨"bare", [("encoder", .component "sq" [("type", .text "bf16")])]⟩ = .ok w ∧
        v.setting.at? ["encoder", "type"] = some (.text "fp16") ∧
        w.setting.at? ["encoder", "type"] = some (.text "bf16") ∧
        c.description v = none ∧ (c.settingsMap v).parameterAt? ["encoder", "type"] = none ∧
        c.settingsMap v = c.settingsMap w ∧ c.shows "encoder" = false :=
    ⟨_, _, _, rfl, rfl, rfl, rfl, rfl, rfl, rfl, rfl, rfl⟩
  refine ⟨c, v, w, hc, built_bare hc, hv, hw, hvx, hwx, hdescription, hmap, hsame, ?_⟩
  rintro (hin | hcompiles)
  · rw [hmap] at hin
    exact nomatch hin
  · have htop := hcompiles (c, "encoder") List.mem_cons_self
    rw [hshows] at htop
    exact nomatch htop

end VectorIndex
