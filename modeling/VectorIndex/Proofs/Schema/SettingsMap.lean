import VectorIndex.Proofs.Keyed
import VectorIndex.Proofs.Schema.Description
import VectorIndex.Schema.SettingsMap

/-!
# Settings maps and plain JSON values

The settings map of a component's own values is their plain JSON value with
something taken out and a description put in. What is taken out is said on the
JSON value alone, without the values that it was written from.

* `Json.component`: a component in JSON, as plain values and the levels below
  the top of a map have it.
* `Component.trim`: takes the scalars out that the template of their own
  component shows, at every level.
* `Component.Owns.trim_json`: the map without its description is the trimmed
  JSON value.
* `map_trims_json`: the map.
-/

namespace VectorIndex

/-! ## Scalars -/

/-- The setting is a truth value, an integer or a text. -/
def Setting.IsScalar : Setting → Prop
  | .component _ _ => False
  | _ => True

theorem Setting.isScalar_or_component (x : Setting) :
    x.IsScalar ∨ ∃ selected inner, x = .component selected inner := by
  cases x with
  | boolean | integer | text => exact .inl trivial
  | component selected inner => exact .inr ⟨selected, inner, rfl⟩

/-- What a parameter admits is a scalar. -/
theorem Parameter.isScalar_of_admits {p : Parameter} {x : Setting} (h : p.admits x = true) :
    x.IsScalar := by
  cases x with
  | boolean | integer | text => trivial
  | component => cases p <;> exact nomatch h

/-! ## The map of one level -/

theorem settingsMap_eq_filterMap (c : Component) (entries : List (String × Setting)) :
    settingsMap c entries =
      entries.filterMap fun entry => (settingMap c entry.1 entry.2).map (entry.1, ·) := by
  induction entries with
  | nil => rfl
  | cons entry rest ih =>
    rw [settingsMap, List.filterMap_cons, ih]
    cases settingMap c entry.1 entry.2 <;> rfl

/-- A scalar is in the map unless the template of its component shows it. -/
theorem settingMap_scalar {c : Component} {k : String} {x : Setting}
    (hx : x.IsScalar) : settingMap c k x = if c.shows k then none else some x.json := by
  cases x with
  | boolean | integer | text => rw [settingMap]; exact nofun
  | component => exact hx.elim

/-- A component is in the map by way of the alternative that it selects, also if
the template shows it. -/
theorem settingMap_component {c a : Component} {k selected : String}
    (ha : c.select? k selected = some a) (inner : List (String × Setting)) :
    settingMap c k (.component selected inner) = some (mapObject a.name (settingsMap a inner)) := by
  rw [settingMap, ha]

/-- Whatever is in the map stands there for a value. -/
theorem exists_of_mem_settingsMap {c : Component} {entries : List (String × Setting)}
    {k : String} {j : Json} (h : (k, j) ∈ Keyed.ofList (settingsMap c entries)) :
    ∃ x, (k, x) ∈ entries ∧ settingMap c k x = some j := by
  have hmem := Keyed.mem_of_mem_ofList h
  rw [settingsMap_eq_filterMap, List.mem_filterMap] at hmem
  obtain ⟨⟨l, x⟩, hx, hj⟩ := hmem
  obtain ⟨j', hj', heq⟩ := Option.map_eq_some_iff.1 hj
  cases heq
  exact ⟨x, hx, hj'⟩

/-- What the map has under a name. -/
theorem lookup_settingsMap (c : Component) (k : String) {entries : List (String × Setting)}
    (hnodup : (entries.map Prod.fst).Nodup) :
    (Keyed.ofList (settingsMap c entries)).lookup k =
      (entries.lookup k).bind (settingMap c k) := by
  have hkeys : ((settingsMap c entries).map Prod.fst).Nodup := by
    rw [settingsMap_eq_filterMap]
    exact List.Nodup.sublist (keys_filterMap_sublist (settingMap c) entries) hnodup
  rw [Keyed.lookup_ofList, Keyed.lookup_reverse hkeys, settingsMap_eq_filterMap,
    lookup_filterMap_snd (settingMap c) k hnodup]

/-! ## Components in JSON -/

/-- A component in JSON: an object with a name and parameters. -/
@[match_pattern] def Json.component (name : String) (parameters : List (String × Json)) : Json :=
  .object [("name", .string name), ("parameters", .object parameters)]

/-- The value of a scalar setting in JSON. -/
def Json.IsScalar : Json → Prop
  | .boolean _ | .number _ | .string _ => True
  | _ => False

theorem Setting.isScalar_json {x : Setting} (hx : x.IsScalar) : x.json.IsScalar := by
  cases x with
  | boolean | integer | text => trivial
  | component => exact hx.elim

/-- A component in JSON, and so is each of its parameters that is no scalar: at
every level the object has a name and parameters and nothing else. -/
inductive Json.IsComponent : Json → Prop where
  | mk {name parameters} :
      (∀ k j, (k, j) ∈ parameters → ¬j.IsScalar → IsComponent j) →
      IsComponent (.component name parameters)

/-- The object with one member more, in the order of names. -/
def Json.withMember (name : String) (value : Option Json) : Json → Json
  | .object members => .object (value.elim members (Keyed.insert name · members))
  | j => j

/-! ## Taking out what a template shows -/

mutual

/-- What is left of the parameter `k` of `c`: nothing of a scalar that the
template of `c` shows, every other scalar as it is, and a component without what
the template of its own alternative shows. -/
def trimMember (c : Component) (k : String) : Json → Option Json
  | .component selected parameters =>
    match c.select? k selected with
    | some a => some (.component selected (trimMembers a parameters))
    | none => some (.component selected parameters)
  | j => if c.shows k then none else some j

/-- What is left of the parameters of `c`. -/
def trimMembers (c : Component) : List (String × Json) → List (String × Json)
  | [] => []
  | (k, j) :: rest =>
    match trimMember c k j with
    | some j' => (k, j') :: trimMembers c rest
    | none => trimMembers c rest

end

/-- The JSON value of a component's values without the scalars that the template
of their own component shows, at every level. -/
def Component.trim (c : Component) : Json → Json
  | .component name parameters => .component name (trimMembers c parameters)
  | j => j

theorem Component.trim_component (c : Component) (name : String)
    (parameters : List (String × Json)) :
    c.trim (.component name parameters) = .component name (trimMembers c parameters) := rfl

theorem trimMembers_eq_filterMap (c : Component) (members : List (String × Json)) :
    trimMembers c members =
      members.filterMap fun member => (trimMember c member.1 member.2).map (member.1, ·) := by
  induction members with
  | nil => rfl
  | cons member rest ih =>
    rw [trimMembers, List.filterMap_cons, ih]
    cases trimMember c member.1 member.2 <;> rfl

/-! ## The map is the trimmed value -/

/-- The members of plain values, those of each component in the order of their
names. -/
theorem sortedMembers_settingsJson (entries : List (String × Setting)) :
    Json.sortedMembers (settingsJson entries) =
      entries.map fun entry => (entry.1, entry.2.json.sorted) := by
  induction entries with
  | nil => rfl
  | cons entry rest ih => rw [settingsJson, Json.sortedMembers, ih]; rfl

theorem Setting.sorted_json_component (name : String) (entries : List (String × Setting)) :
    (Setting.component name entries).json.sorted =
      .component name (Keyed.ofList (entries.map fun entry => (entry.1, entry.2.json.sorted))) := by
  have hkeys (x y : Json) : Keyed.Ordered [("name", x), ("parameters", y)] := by
    show List.Pairwise (· < ·) ["name", "parameters"]
    decide
  rw [← sortedMembers_settingsJson, Json.component, ← (hkeys _ _).ofList_eq]
  rfl

/-- What is left of a scalar is what the map has of it. -/
theorem trimMember_scalar {c : Component} {k : String} {x : Setting}
    (hx : x.IsScalar) : trimMember c k x.json.sorted = settingMap c k x := by
  cases x with
  | boolean | integer | text =>
    rw [settingMap_scalar hx]
    rfl
  | component => exact hx.elim

/-- What is left of a component is the trimmed value of its alternative. -/
theorem trimMember_component {c a : Component} {k selected : String}
    (ha : c.select? k selected = some a) (inner : List (String × Setting)) :
    trimMember c k (Setting.component selected inner).json.sorted =
      some (a.trim (Setting.component selected inner).json.sorted) := by
  rw [Setting.sorted_json_component, Component.trim_component, Json.component, trimMember, ha]

/-- What is left of the plain JSON value of a component's own values is their map
without its description. -/
theorem Component.Owns.trim_json {c : Component} {v : Values} (h : c.Owns v) :
    c.trim v.json.sorted = mapObject c.name (VectorIndex.settingsMap c v.entries) := by
  induction c using Component.induction generalizing v with
  | step c ih =>
    have hmember : ∀ entry ∈ v.entries,
        trimMember c entry.1 entry.2.json.sorted = settingMap c entry.1 entry.2 := by
      intro entry hentry
      obtain ⟨k, x⟩ := entry
      rcases x.isScalar_or_component with hx | ⟨selected, inner, rfl⟩
      · exact trimMember_scalar hx
      · obtain ⟨p, hp, a, ha, hselect, howns⟩ := h.exists_select hentry
        rw [trimMember_component hselect, settingMap_component hselect]
        exact congrArg some (ih p hp a ha howns)
    have hnodup : ((v.entries.map fun entry => (entry.1, entry.2.json.sorted)).map
        Prod.fst).Nodup := by
      simpa [List.map_map, Function.comp_def] using h.keys_nodup
    have hmembers : trimMembers c (Keyed.ofList
        (v.entries.map fun entry => (entry.1, entry.2.json.sorted))) =
          Keyed.ofList (VectorIndex.settingsMap c v.entries) := by
      rw [trimMembers_eq_filterMap, Keyed.ofList_filterMap (trimMember c) hnodup,
        List.filterMap_map, settingsMap_eq_filterMap]
      refine congrArg Keyed.ofList (List.filterMap_congr fun entry hentry => ?_)
      simp only [Function.comp_apply, hmember entry hentry]
    rw [Values.json, Values.setting, Setting.sorted_json_component, trim_component, hmembers,
      h.name_eq]
    rfl

/-- The map without its description is a component at every level. -/
theorem Component.Owns.isComponent_mapObject {c : Component} {v : Values} (h : c.Owns v) :
    (mapObject c.name (VectorIndex.settingsMap c v.entries)).IsComponent := by
  induction c using Component.induction generalizing v with
  | step c ih =>
    refine .mk fun k j hj hscalar => ?_
    obtain ⟨x, hx, hmap⟩ := exists_of_mem_settingsMap hj
    rcases x.isScalar_or_component with hxscalar | ⟨selected, inner, rfl⟩
    · rw [settingMap_scalar hxscalar] at hmap
      split at hmap
      · cases hmap
      · cases hmap
        exact absurd (Setting.isScalar_json hxscalar) hscalar
    · obtain ⟨p, hp, a, ha, hselect, howns⟩ := h.exists_select hx
      rw [settingMap_component hselect] at hmap
      cases hmap
      exact ih p hp a ha howns

/-! ## The map -/

/-- The settings map with its description put in. -/
theorem settingsMap_eq_withMember (c : Component) (v : Values) :
    c.settingsMap v =
      (mapObject c.name (VectorIndex.settingsMap c v.entries)).withMember "index_description"
        ((c.description v).map .string) := by
  have hfirst : "index_description" < "name" := by decide
  unfold Component.settingsMap
  cases c.description v with
  | none => rfl
  | some text =>
    rw [Option.map_some, mapObject, Json.withMember, Option.elim_some, Keyed.insert,
      if_pos hfirst]

/-- The settings map of what a built component returned is the JSON value of it,
sorted by name, without the scalars that the template of their own component
shows, and with the description as a further member at the top, which is there
exactly if the component has a template. Below the top every component has its
name and its parameters and nothing else. -/
theorem map_trims_json (c : Component) (hc : c.Built) (s : Selection) (v : Values)
    (hv : c.validate s = .ok v) :
    c.settingsMap v =
      (c.trim v.json.sorted).withMember "index_description" ((c.description v).map .string) ∧
    ((c.description v).isSome ↔ c.template.isSome) ∧
    (c.trim v.json.sorted).IsComponent := by
  have howns := hc.owns hv
  rw [howns.trim_json]
  refine ⟨settingsMap_eq_withMember c v, ?_, howns.isComponent_mapObject⟩
  rw [Component.description, Option.isSome_map]

/-- A component whose parameters are called like the members of a map, around
another one of the kind. -/
def namesake : Except Defect Component := do
  let number ← Parameter.ofInteger "name" 7 fun _ => true
  let text ← Parameter.ofText "index_description" "x" fun _ => true
  let inner ← (((Component.Builder.empty "inner").add number).add text
    |>.describe ⟨"I", [⟨"index_description", "", ""⟩]⟩).build
  let choice ← Parameter.ofChoice "parameters" (.plain "inner") [inner]
  (((Component.Builder.empty "outer").add number).add choice
    |>.describe ⟨"O", [⟨"name", "", ""⟩, ⟨"parameters", "-", ""⟩]⟩).build

theorem built_namesake {c : Component} (h : namesake = .ok c) : c.Built := by
  simp only [namesake, bind_eq_ok_iff] at h
  obtain ⟨number, hnumber, text, htext, inner, hinner, choice, hchoice, h⟩ := h
  have hinnerBuilt : inner.Built := .of_build
    (List.forall_mem_cons.2 ⟨.ofInteger hnumber, List.forall_mem_singleton.2 (.ofText htext)⟩)
    hinner
  have hchoiceBuilt : choice.Built := .ofChoice (List.forall_mem_singleton.2 hinnerBuilt) hchoice
  exact .of_build
    (List.forall_mem_cons.2 ⟨.ofInteger hnumber, List.forall_mem_singleton.2 hchoiceBuilt⟩) h

/-- Of parameters with such names the map keeps and drops the same as of others. -/
theorem map_trims_json_namesake :
    ∃ (c : Component) (v : Values), namesake = .ok c ∧ c.Built ∧
      c.validate (.plain "") = .ok v ∧
      v = ⟨"outer", [("name", .integer 7), ("parameters", .component "inner"
        [("name", .integer 7), ("index_description", .text "x")])]⟩ ∧
      c.settingsMap v = (c.trim v.json.sorted).withMember "index_description"
        (some (.string "O7-Ix")) ∧
      c.trim v.json.sorted = .component "outer" [("parameters", .component "inner"
        [("name", .number (.integer 7))])] := by
  obtain ⟨c, v, hc, hv, hvalues, hdescription, hobject⟩ :
      ∃ (c : Component) (v : Values), namesake = .ok c ∧ c.validate (.plain "") = .ok v ∧
        v = ⟨"outer", [("name", .integer 7), ("parameters", .component "inner"
          [("name", .integer 7), ("index_description", .text "x")])]⟩ ∧
        c.description v = some "O7-Ix" ∧
        mapObject c.name (settingsMap c v.entries) = .component "outer" [("parameters",
          .component "inner" [("name", .number (.integer 7))])] :=
    ⟨_, _, rfl, rfl, rfl, rfl, rfl⟩
  have hbuilt := built_namesake hc
  have hmap := (map_trims_json c hbuilt _ v hv).1
  rw [hdescription] at hmap
  rw [← (hbuilt.owns hv).trim_json] at hobject
  exact ⟨c, v, hc, hbuilt, hv, hvalues, hmap, hobject⟩

end VectorIndex
