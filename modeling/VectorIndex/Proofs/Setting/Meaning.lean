import Mathlib.Data.List.Perm.Subperm
import VectorIndex.Proofs.Json.Record
import VectorIndex.Setting.Json

/-!
# What a JSON value says

Which settings and selections a JSON value stands for, stated without the
readers: scalars for themselves, and for a component a record of its name and
its settings. Settings are given by the members of an object, each of which has
to stand for a setting, and of several members of one name the last counts.

* `Json.MeansSetting`, `Json.MeansSelection`: the relations.
* `Setting.ofJson?_eq_some_iff`: a value is taken for a setting if it means one.
* `Setting.read_draft_eq_ok_iff`, `Selection.read_draft_eq_ok_iff`: so it is
  with the two readers, one of which looks at a whole value and the other at
  one field after the other.
-/

namespace VectorIndex

open Json

/-! ## The relations -/

mutual

/-- The value means the setting. -/
inductive Json.MeansSetting : Json → Setting → Prop where
  | boolean {b} : Json.MeansSetting (.boolean b) (.boolean b)
  | integer {n : Int64} : Json.MeansSetting (.number (.integer n.toInt)) (.integer n)
  | text {s} : Json.MeansSetting (.string s) (.text s)
  | component {j name settings} :
      Json.MeansSelection j ⟨name, settings⟩ → Json.MeansSetting j (.component name settings)

/-- The value means the selection: it gives a name, and settings unless there
are none. -/
inductive Json.MeansSelection : Json → Selection → Prop where
  | mk {j given name settings} :
      j.Gives ["name", "parameters"] given → given "name" = some (.string name) →
      Json.MeansSettings (given "parameters") settings →
      Json.MeansSelection j ⟨name, settings⟩

/-- The value, if there is one, is an object that means the settings: they are
sorted by name, and each is the last one that a member of its name means. -/
inductive Json.MeansSettings : Option Json → List (String × Setting) → Prop where
  | absent : Json.MeansSettings none []
  | object {members written settings} :
      Json.MembersMean members written → Keyed.Ordered settings →
      (∀ k, settings.lookup k = written.reverse.lookup k) →
      Json.MeansSettings (some (.object members)) settings

/-- Each member means the setting of its name. -/
inductive Json.MembersMean : List (String × Json) → List (String × Setting) → Prop where
  | nil : Json.MembersMean [] []
  | cons {k j x members written} :
      Json.MeansSetting j x → Json.MembersMean members written →
      Json.MembersMean ((k, j) :: members) ((k, x) :: written)

end

/-! ## Integers -/

theorem int64OfInt?_eq_some_iff {n : Int} {i : Int64} :
    Decimal.int64OfInt? n = some i ↔ n = i.toInt := by
  have hlow := i.le_toInt
  have hhigh := i.toInt_lt
  unfold Decimal.int64OfInt?
  split
  · rw [Option.some.injEq]
    constructor
    · intro h
      subst h
      exact (Int64.toInt_ofInt_of_le (by omega) (by omega)).symm
    · intro h
      subst h
      exact Int64.ofInt_toInt i
  · constructor
    · intro h
      exact nomatch h
    · intro h
      omega

/-! ## Forms of a selection -/

/-- A value that gives a name and perhaps settings has one of five forms. -/
theorem forms_of_gives {j v : Json} {given : String → Option Json}
    (hgives : j.Gives ["name", "parameters"] given) (hname : given "name" = some v) :
    (given "parameters" = none ∧ (j = .object [("name", v)] ∨ j = .array [v])) ∨
    ∃ w, given "parameters" = some w ∧
      (j = .object [("name", v), ("parameters", w)] ∨
        j = .object [("parameters", w), ("name", v)] ∨ j = .array [v, w]) := by
  cases hgives with
  | @byName members hnodup hknown =>
    -- distinct names out of two leave room for two members
    have hlength : members.length ≤ 2 := by
      simpa using (List.subperm_of_subset hnodup hknown).length_le
    match members with
    | [] => exact nomatch hname
    | [(k, u)] =>
      have hk : k = "name" ∨ k = "parameters" := by simpa using hknown
      rcases hk with rfl | rfl
      · cases hname
        exact .inl ⟨rfl, .inl rfl⟩
      · exact nomatch hname
    | [(k, u), (l, w)] =>
      have hkl : (k = "name" ∨ k = "parameters") ∧ (l = "name" ∨ l = "parameters") := by
        simpa using hknown
      have hne : k ≠ l := by simpa using hnodup
      rcases hkl with ⟨rfl | rfl, rfl | rfl⟩
      · exact absurd rfl hne
      · cases hname
        exact .inr ⟨w, rfl, .inl rfl⟩
      · cases hname
        exact .inr ⟨u, rfl, .inr (.inl rfl)⟩
      · exact absurd rfl hne
    | _ :: _ :: _ :: _ => simp at hlength
  | @byPosition items hlength =>
    match items with
    | [] => exact nomatch hname
    | [u] =>
      cases hname
      exact .inl ⟨rfl, .inr rfl⟩
    | [u, w] =>
      cases hname
      exact .inr ⟨w, rfl, .inr (.inr rfl)⟩
    | _ :: _ :: _ :: _ => simp at hlength

@[simp] theorem Json.meansSettings_none_iff {settings : List (String × Setting)} :
    MeansSettings none settings ↔ settings = [] := by
  constructor
  · intro h
    cases h
    rfl
  · intro h
    subst h
    exact .absent

/-- The settings that members mean, as a component holds them. -/
theorem Json.MembersMean.settings {members : List (String × Json)}
    {written : List (String × Setting)} (h : MembersMean members written) :
    MeansSettings (some (.object members)) (Keyed.ofList written) :=
  .object h (Keyed.ordered_ofList written) fun k => Keyed.lookup_ofList k written

/-! ## Taking a value for a setting -/

mutual

theorem meansSetting_of_ofJson? (j : Json) (x : Setting) (h : Setting.ofJson? j = some x) :
    j.MeansSetting x := by
  -- the cases are the patterns in their order: scalars, arrays, objects, all else
  unfold Setting.ofJson? at h
  split at h
  case h_1 b =>
    cases h
    exact .boolean
  case h_2 n =>
    obtain ⟨i, hi, rfl⟩ := Option.map_eq_some_iff.1 h
    rw [int64OfInt?_eq_some_iff.1 hi]
    exact .integer
  case h_3 s =>
    cases h
    exact .text
  case h_4 name =>
    cases h
    exact .component (.mk (.byPosition (by simp)) rfl .absent)
  case h_5 name members =>
    obtain ⟨settings, hsettings, rfl⟩ := meansSettings_of_component? name members x h
    exact .component (.mk (.byPosition (by simp)) rfl hsettings)
  case h_6 name =>
    cases h
    exact .component (.mk (.byName (by simp) (by simp)) rfl .absent)
  case h_7 name members =>
    obtain ⟨settings, hsettings, rfl⟩ := meansSettings_of_component? name members x h
    exact .component (.mk (.byName (by simp) (by simp)) rfl hsettings)
  case h_8 members name =>
    obtain ⟨settings, hsettings, rfl⟩ := meansSettings_of_component? name members x h
    exact .component (.mk (.byName (by simp) (by simp)) rfl hsettings)
  case h_9 => exact nomatch h
termination_by sizeOf j

theorem meansSettings_of_component? (name : String) (members : List (String × Json))
    (x : Setting) (h : component? name members = some x) :
    ∃ settings, MeansSettings (some (.object members)) settings ∧
      x = .component name settings := by
  unfold component? at h
  obtain ⟨written, hwritten, rfl⟩ := Option.map_eq_some_iff.1 h
  exact ⟨_, (membersMean_of_settingsOfJson? members written hwritten).settings, rfl⟩
termination_by sizeOf members + 1

theorem membersMean_of_settingsOfJson? (members : List (String × Json))
    (written : List (String × Setting)) (h : settingsOfJson? members = some written) :
    MembersMean members written := by
  match members with
  | [] =>
    unfold settingsOfJson? at h
    cases h
    exact .nil
  | (k, j) :: rest =>
    unfold settingsOfJson? at h
    obtain ⟨x, hx, h⟩ := Option.bind_eq_some_iff.1 h
    obtain ⟨xs, hxs, h⟩ := Option.bind_eq_some_iff.1 h
    cases h
    exact .cons (meansSetting_of_ofJson? j x hx) (membersMean_of_settingsOfJson? rest xs hxs)
termination_by sizeOf members

end

mutual

theorem ofJson?_of_meansSetting {j : Json} {x : Setting} (h : j.MeansSetting x) :
    Setting.ofJson? j = some x := by
  match h with
  | .boolean => unfold Setting.ofJson?; rfl
  | .integer => simp [Setting.ofJson?, int64OfInt?_eq_some_iff]
  | .text => unfold Setting.ofJson?; rfl
  | .component h => exact ofJson?_of_meansSelection h

theorem ofJson?_of_meansSelection {j : Json} {s : Selection} (h : j.MeansSelection s) :
    Setting.ofJson? j = some (.component s.name s.settings) := by
  match h with
  | .mk hgives hname hsettings =>
    rcases forms_of_gives hgives hname with ⟨hnone, hform⟩ | ⟨w, hsome, hform⟩
    · rw [hnone, meansSettings_none_iff] at hsettings
      rw [hsettings]
      rcases hform with rfl | rfl <;> unfold Setting.ofJson? <;> rfl
    · obtain ⟨members, rfl, hcomponent⟩ := component?_of_meansSettings hsettings hsome _
      rcases hform with rfl | rfl | rfl <;> unfold Setting.ofJson? <;> exact hcomponent

theorem component?_of_meansSettings {given : Option Json} {settings : List (String × Setting)}
    (h : MeansSettings given settings) {w : Json} (hw : given = some w) (name : String) :
    ∃ members, w = .object members ∧
      component? name members = some (.component name settings) := by
  match h with
  | .absent => exact nomatch hw
  | .object hmembers hordered hlookup =>
    cases hw
    refine ⟨_, rfl, ?_⟩
    unfold component?
    rw [settingsOfJson?_of_membersMean hmembers, Keyed.eq_ofList_iff.2 ⟨hordered, hlookup⟩]
    rfl

theorem settingsOfJson?_of_membersMean {members : List (String × Json)}
    {written : List (String × Setting)} (h : MembersMean members written) :
    settingsOfJson? members = some written := by
  match h with
  | .nil => unfold settingsOfJson?; rfl
  | .cons h hrest =>
    unfold settingsOfJson?
    rw [ofJson?_of_meansSetting h, settingsOfJson?_of_membersMean hrest]
    rfl

end

/-- A value is taken for a setting exactly if it means one. -/
theorem Setting.ofJson?_eq_some_iff {j : Json} {x : Setting} :
    Setting.ofJson? j = some x ↔ j.MeansSetting x :=
  ⟨meansSetting_of_ofJson? j x, ofJson?_of_meansSetting⟩

/-- A value means one setting at most. -/
theorem Json.MeansSetting.unique {j : Json} {x y : Setting} (hx : j.MeansSetting x)
    (hy : j.MeansSetting y) : x = y := by
  rw [← Setting.ofJson?_eq_some_iff] at hx hy
  exact Option.some.inj (hx.symm.trans hy)

/-- What means a selection means it as a setting too. -/
theorem Json.meansSetting_setting_iff {j : Json} {s : Selection} :
    j.MeansSetting s.setting ↔ j.MeansSelection s := by
  constructor
  · intro h
    match h with
    | .component h => exact h
  · exact .component

theorem Json.MeansSelection.unique {j : Json} {s t : Selection} (hs : j.MeansSelection s)
    (ht : j.MeansSelection t) : s = t := by
  have hsame := (meansSetting_setting_iff.2 hs).unique (meansSetting_setting_iff.2 ht)
  obtain ⟨name, settings⟩ := s
  obtain ⟨name', settings'⟩ := t
  cases hsame
  rfl

/-! ## Reading -/

/-- A setting is read from a value exactly if the value means it. -/
theorem Setting.read_draft_eq_ok_iff {j : Json} {x : Setting} :
    Setting.read j.draft = .ok x ↔ j.MeansSetting x := by
  rw [← Setting.ofJson?_eq_some_iff]
  simp only [Setting.read, json?_draft]
  cases Setting.ofJson? j <;> simp

theorem readString_draft_eq_ok_iff {j : Json} {s : String} :
    readString j.draft = .ok s ↔ j = .string s := by
  cases j <;> simp [readString, draft]

/-- Members are read as the settings they mean, written in turn. -/
theorem readMembers_drafts_eq_ok_iff {members : List (String × Json)}
    {before settings : List (String × Setting)} :
    readMembers before (memberDrafts members) = .ok settings ↔
      ∃ written, MembersMean members written ∧
        settings = written.foldl (fun m pair => Keyed.insert pair.1 pair.2 m) before := by
  induction members generalizing before with
  | nil =>
    constructor
    · intro h
      cases h
      exact ⟨[], .nil, rfl⟩
    · intro h
      obtain ⟨_, ⟨⟩, rfl⟩ := h
      rfl
  | cons member rest ih =>
    obtain ⟨k, j⟩ := member
    simp only [memberDrafts, readMembers, bind_eq_ok_iff, Setting.read_draft_eq_ok_iff, ih]
    constructor
    · intro h
      obtain ⟨x, hx, written, hwritten, rfl⟩ := h
      exact ⟨(k, x) :: written, .cons hx hwritten, rfl⟩
    · intro h
      obtain ⟨_, hmembers, rfl⟩ := h
      cases hmembers with
      | cons hx hwritten => exact ⟨_, hx, _, hwritten, rfl⟩

/-- The settings of a component are read from a value exactly if it means them. -/
theorem readSettings_draft_eq_ok_iff {j : Json} {settings : List (String × Setting)} :
    readSettings j.draft = .ok settings ↔ MeansSettings (some j) settings := by
  constructor
  · intro h
    cases j with
    | object members =>
      obtain ⟨_, hmembers, h⟩ := bind_eq_ok_iff.1 h
      obtain ⟨written, hwritten, rfl⟩ := readMembers_drafts_eq_ok_iff.1 hmembers
      cases h
      exact hwritten.settings
    | null | boolean | number | string | array => exact nomatch h
  · intro h
    cases h with
    | @object members written _ hmembers hordered hlookup =>
      have hwritten : readMembers [] (memberDrafts members) = .ok settings :=
        readMembers_drafts_eq_ok_iff.2
          ⟨written, hmembers, Keyed.eq_ofList_iff.2 ⟨hordered, hlookup⟩⟩
      exact bind_eq_ok_iff.2 ⟨settings, hwritten, rfl⟩

theorem Selection.record_regular : Selection.record.Regular := by
  refine ⟨List.pairwise_pair.2 ?_, by decide⟩
  exact Field.commutes_of_store (fun _ _ => rfl) (fun _ _ => rfl) fun _ _ _ => rfl

/-- The fields of a selection are stored if the name, where one is given, is a
string and settings are meant by what is given for them. -/
theorem Selection.storeFields_eq_ok_iff {given : String → Option Json}
    {fields : SelectionFields} :
    storeFields record.fields (fun k => (given k).map draft) record.start = .ok fields ↔
      given "name" = fields.name.map .string ∧
        MeansSettings (given "parameters") fields.settings := by
  obtain ⟨name, settings⟩ := fields
  simp only [record, storeFields]
  cases name <;> cases given "name" <;> cases given "parameters" <;>
    simp [bind_eq_ok_iff, pure, Except.pure, readString_draft_eq_ok_iff,
      readSettings_draft_eq_ok_iff]

/-- A selection is read from a value exactly if the value means it. -/
theorem Selection.read_draft_eq_ok_iff {j : Json} {s : Selection} :
    Selection.read j.draft = .ok s ↔ j.MeansSelection s := by
  unfold Selection.read
  rw [Record.read_draft_eq_ok_iff Selection.record_regular]
  simp only [storeFields_eq_ok_iff]
  constructor
  · intro h
    obtain ⟨given, hgives, fields, ⟨hname, hsettings⟩, hfinish⟩ := h
    obtain ⟨name, hrequired, hfinish⟩ := bind_eq_ok_iff.1 hfinish
    rw [Record.required_eq_ok_iff.1 hrequired] at hname
    cases hfinish
    exact .mk hgives hname hsettings
  · intro h
    obtain ⟨hgives, hname, hsettings⟩ := h
    exact ⟨_, hgives, ⟨some _, _⟩, ⟨hname, hsettings⟩, rfl⟩

end VectorIndex
