import VectorIndex.Definition
import VectorIndex.Proofs.Json.Printer
import VectorIndex.Proofs.Setting.Meaning

/-!
# What a definition says

Which definition a JSON value stands for, stated without the reader: a record
of a name, a space and settings, of which only the name has to be given.

* `Json.MeansSpace`, `Json.MeansDefinition`: the relations.
* `Definition.ofText_eq_ok_iff`: a text is accepted as a definition exactly if
  it spells a value that means it and is not nested too deeply.
* `readers_agree`: a selection is read alike by itself, as the setting of a
  parameter, and as a definition without a space.
-/

namespace VectorIndex

open Json

/-! ## The relations -/

/-- The value, if there is one, means the space: it is null or the name of the
space, or an object whose one member has that name and the value null. -/
inductive Json.MeansSpace : Option Json → Option Space → Prop where
  | absent : Json.MeansSpace none none
  | null : Json.MeansSpace (some .null) none
  | name {s : Space} : Json.MeansSpace (some (.string s.name)) (some s)
  | variant {s : Space} : Json.MeansSpace (some (.object [(s.name, .null)])) (some s)

/-- The value means the definition: it gives a name, and a space and settings
unless there are none. -/
inductive Json.MeansDefinition : Json → Definition → Prop where
  | mk {j given name space settings} :
      j.Gives ["name", "space_type", "parameters"] given → given "name" = some (.string name) →
      Json.MeansSpace (given "space_type") space →
      Json.MeansSettings (given "parameters") settings →
      Json.MeansDefinition j ⟨name, space, settings⟩

/-! ## Spaces -/

theorem Space.readName_eq_ok_iff {name : String} {s : Space} :
    Space.readName name = .ok s ↔ name = s.name := by
  unfold readName
  constructor
  · intro h
    split at h
    · next t ht =>
      cases h
      exact (name_of_ofName? ht).symm
    · exact nomatch h
  · intro h
    subst h
    simp

theorem Space.readNull_draft_eq_ok_iff {j : Json} :
    Space.readNull j.draft = .ok () ↔ j = .null := by
  cases j <;> simp [readNull, draft]

/-- A space is read from its name, or from an object whose one member has that
name and the value null. -/
theorem Space.read_draft_eq_ok_iff {j : Json} {s : Space} :
    Space.read j.draft = .ok s ↔ j = .string s.name ∨ j = .object [(s.name, .null)] := by
  constructor
  · intro h
    cases j with
    | null | boolean | number | array => exact nomatch h
    | string name =>
      rw [readName_eq_ok_iff.1 h]
      exact .inl rfl
    | object members =>
      match members with
      | [] => exact nomatch h
      | (name, w) :: rest =>
        obtain ⟨t, hname, h⟩ := bind_eq_ok_iff.1 h
        obtain ⟨_, hnull, h⟩ := bind_eq_ok_iff.1 h
        rw [readName_eq_ok_iff.1 hname, readNull_draft_eq_ok_iff.1 hnull]
        cases rest with
        | nil =>
          cases h
          exact .inr rfl
        | cons => exact nomatch h
  · intro h
    rcases h with rfl | rfl
    · exact readName_eq_ok_iff.2 rfl
    · exact bind_eq_ok_iff.2 ⟨s, readName_eq_ok_iff.2 rfl, rfl⟩

/-- A space or null is read from a value exactly if the value means it. -/
theorem Space.readOptional_draft_eq_ok_iff {j : Json} {space : Option Space} :
    Space.readOptional j.draft = .ok space ↔ MeansSpace (some j) space := by
  constructor
  · intro h
    by_cases hnull : j = .null
    · subst hnull
      cases h
      exact .null
    · have hread : Space.readOptional j.draft = (Space.read j.draft).map some := by
        cases j <;> first | rfl | exact absurd rfl hnull
      rw [hread, map_eq_ok_iff] at h
      obtain ⟨s, hs, rfl⟩ := h
      rcases read_draft_eq_ok_iff.1 hs with rfl | rfl
      · exact .name
      · exact .variant
  · intro h
    cases h with
    | null => rfl
    | name => exact map_eq_ok_iff.2 ⟨_, read_draft_eq_ok_iff.2 (.inl rfl), rfl⟩
    | variant => exact map_eq_ok_iff.2 ⟨_, read_draft_eq_ok_iff.2 (.inr rfl), rfl⟩

@[simp] theorem Json.meansSpace_none_iff {space : Option Space} :
    MeansSpace none space ↔ space = none := by
  constructor
  · intro h
    cases h
    rfl
  · intro h
    subst h
    exact .absent

/-! ## Reading -/

theorem Definition.record_regular : Definition.record.Regular := by
  refine ⟨.cons ?_ (List.pairwise_pair.2 ?_), by decide⟩
  · refine List.forall_mem_cons.2 ⟨?_, List.forall_mem_singleton.2 ?_⟩
    · exact Field.commutes_of_store (fun _ _ => rfl) (fun _ _ => rfl) fun _ _ _ => rfl
    · exact Field.commutes_of_store (fun _ _ => rfl) (fun _ _ => rfl) fun _ _ _ => rfl
  · exact Field.commutes_of_store (fun _ _ => rfl) (fun _ _ => rfl) fun _ _ _ => rfl

/-- The fields of a definition are stored if the name, where one is given, is a
string, and space and settings are meant by what is given for them. -/
theorem Definition.storeFields_eq_ok_iff {given : String → Option Json} {fields : Fields} :
    storeFields record.fields (fun k => (given k).map draft) record.start = .ok fields ↔
      given "name" = fields.name.map .string ∧ MeansSpace (given "space_type") fields.space ∧
        MeansSettings (given "parameters") fields.settings := by
  obtain ⟨name, space, settings⟩ := fields
  simp only [record, storeFields]
  cases name <;> cases given "name" <;> cases given "space_type" <;> cases given "parameters" <;>
    simp [bind_eq_ok_iff, pure, Except.pure, readString_draft_eq_ok_iff,
      Space.readOptional_draft_eq_ok_iff, readSettings_draft_eq_ok_iff] <;> grind

/-- A definition is read from a value exactly if the value means it. -/
theorem Definition.read_draft_eq_ok_iff {j : Json} {d : Definition} :
    record.read j.draft = .ok d ↔ j.MeansDefinition d := by
  rw [Record.read_draft_eq_ok_iff record_regular]
  simp only [storeFields_eq_ok_iff]
  constructor
  · intro h
    obtain ⟨given, hgives, fields, ⟨hname, hspace, hsettings⟩, hfinish⟩ := h
    obtain ⟨name, hrequired, hfinish⟩ := bind_eq_ok_iff.1 hfinish
    rw [Record.required_eq_ok_iff.1 hrequired] at hname
    cases hfinish
    exact .mk hgives hname hspace hsettings
  · intro h
    obtain ⟨hgives, hname, hspace, hsettings⟩ := h
    exact ⟨_, hgives, ⟨some _, _, _⟩, ⟨hname, hspace, hsettings⟩, rfl⟩

/-- A text is accepted as a definition exactly if it spells a value, nested at
most 127 deep, that means the definition. -/
theorem Definition.ofText_eq_ok_iff (text : String) (d : Definition) :
    ofText text = .ok d ↔
      ∃ j, Grammar.Text text j ∧ j.nesting ≤ 127 ∧ j.MeansDefinition d := by
  unfold ofText
  simp only [mapError_eq_ok_iff, readText_eq_ok_iff, read_draft_eq_ok_iff, Reader.maxDepth]

/-! ## One selection, three readers -/

/-- An object that names no space means a definition exactly if it means the
selection of that definition. -/
theorem Json.meansDefinition_object_iff {members : List (String × Json)} {d : Definition}
    (hspace : "space_type" ∉ members.map Prod.fst) :
    (object members).MeansDefinition d ↔
      d.space = none ∧ (object members).MeansSelection d.selection := by
  have hmeans : ∀ space, MeansSpace (members.lookup "space_type") space ↔ space = none := by
    rw [lookup_eq_none_iff_not_mem_keys.2 hspace]
    exact fun _ => meansSpace_none_iff
  constructor
  · intro h
    obtain ⟨⟨hnodup, hknown⟩, hname, hmeansSpace, hsettings⟩ := h
    refine ⟨(hmeans _).1 hmeansSpace, .mk (.byName hnodup fun k hk => ?_) hname hsettings⟩
    have hne : k ≠ "space_type" := fun heq => hspace (heq ▸ hk)
    simpa [hne] using hknown hk
  · intro h
    obtain ⟨name, space, settings⟩ := d
    obtain ⟨hnone, ⟨hnodup, hknown⟩, hname, hsettings⟩ := h
    have hsub : ["name", "parameters"] ⊆ ["name", "space_type", "parameters"] := by simp
    exact .mk (.byName hnodup (List.Subset.trans hknown hsub)) hname ((hmeans _).2 hnone) hsettings

/-- The setting at the end of a way down: each step names a component and the
one parameter that is set there. -/
def Setting.within : List (String × String) → Setting → Setting
  | [], x => x
  | (name, parameter) :: path, x => .component name [(parameter, x.within path)]

/-- The value at the end of a way down through values that name a component and
give one setting. -/
def Json.within : List (String × String) → Json → Json
  | [], j => j
  | (name, parameter) :: path, j =>
    .object [("name", .string name), ("parameters", .object [(parameter, j.within path)])]

@[simp] theorem Json.nesting_within (path : List (String × String)) (j : Json) :
    (j.within path).nesting = j.nesting + 2 * path.length := by
  induction path with
  | nil => rfl
  | cons step path ih =>
    simp [Json.within, nesting, membersNesting, ih]
    omega

/-- A value that names a component and gives one setting means that component
with what the setting means. -/
theorem Json.meansSetting_step_iff {name parameter : String} {j : Json} {y : Setting} :
    (object [("name", .string name), ("parameters", .object [(parameter, j)])]).MeansSetting y ↔
      ∃ x, j.MeansSetting x ∧ y = .component name [(parameter, x)] := by
  simp only [← Setting.ofJson?_eq_some_iff, Setting.ofJson?, component?, settingsOfJson?]
  cases Setting.ofJson? j with
  | none => simp
  | some x => simp [Keyed.ofList, Keyed.insert, eq_comm]

/-- At the end of a way down a value means what it means by itself. -/
theorem Json.meansSetting_within_iff {path : List (String × String)} {j : Json} {y : Setting} :
    (j.within path).MeansSetting y ↔ ∃ x, j.MeansSetting x ∧ y = x.within path := by
  induction path generalizing y with
  | nil => simp [Json.within, Setting.within]
  | cons step path ih =>
    simp only [Json.within, Setting.within, meansSetting_step_iff, ih]
    constructor
    · intro h
      obtain ⟨_, ⟨x, hx, rfl⟩, rfl⟩ := h
      exact ⟨x, hx, rfl⟩
    · intro h
      obtain ⟨x, hx, rfl⟩ := h
      exact ⟨_, ⟨x, hx, rfl⟩, rfl⟩

/-- The three readers of a selection agree, on every text. One reads a text as a
selection field by field, and accepts those that spell a value that means one.
One that reads the text as any setting comes to the same. So does the reader of
definitions, if the text is an object that names no space. And a text is read
alike by itself and where it is the setting at the end of a way down, as long
as it is not nested too deeply there. -/
theorem readers_agree :
    (∀ text s, readText Selection.read text = .ok s ↔
      ∃ j, Grammar.Text text j ∧ j.nesting ≤ 127 ∧ j.MeansSelection s) ∧
    (∀ text s, readText Selection.read text = .ok s ↔
      readText Setting.read text = .ok s.setting) ∧
    (∀ text, (∀ j, Grammar.Text text j →
        ∃ members, j = .object members ∧ "space_type" ∉ members.map Prod.fst) →
      ∀ d, Definition.ofText text = .ok d ↔
        d.space = none ∧ readText Selection.read text = .ok d.selection) ∧
    (∀ path j inner outer, Grammar.Text inner j → Grammar.Text outer (j.within path) →
      (j.within path).nesting ≤ 127 →
      ∀ y, readText Setting.read outer = .ok y ↔
        ∃ x, readText Setting.read inner = .ok x ∧ y = x.within path) := by
  refine ⟨fun text s => ?_, fun text s => ?_, fun text hobject d => ?_,
    fun path j inner outer hinner houter hnesting y => ?_⟩
  · simp only [readText_eq_ok_iff, Selection.read_draft_eq_ok_iff, Reader.maxDepth]
  · simp only [readText_eq_ok_iff, Selection.read_draft_eq_ok_iff, Setting.read_draft_eq_ok_iff,
      meansSetting_setting_iff]
  · simp only [Definition.ofText, mapError_eq_ok_iff, readText_eq_ok_iff,
      Definition.read_draft_eq_ok_iff, Selection.read_draft_eq_ok_iff]
    constructor
    · intro h
      obtain ⟨j, htext, hnesting, hmeans⟩ := h
      obtain ⟨members, rfl, hspace⟩ := hobject j htext
      obtain ⟨hnone, hmeans⟩ := (meansDefinition_object_iff hspace).1 hmeans
      exact ⟨hnone, _, htext, hnesting, hmeans⟩
    · intro h
      obtain ⟨hnone, j, htext, hnesting, hmeans⟩ := h
      obtain ⟨members, rfl, hspace⟩ := hobject j htext
      exact ⟨_, htext, hnesting, (meansDefinition_object_iff hspace).2 ⟨hnone, hmeans⟩⟩
  · have hnesting' : j.nesting ≤ 127 := by
      rw [nesting_within] at hnesting
      omega
    simp only [readText_eq_ok_iff_of_text hinner, readText_eq_ok_iff_of_text houter,
      Reader.maxDepth, hnesting, hnesting', true_and, Setting.read_draft_eq_ok_iff,
      meansSetting_within_iff]

/-- A selection of the 16-bit encoder as a definition of its own, and where it
is the setting of a parameter two components down. -/
theorem readers_agree_encoder :
    let j := Json.object [("name", .string "sq"),
      ("parameters", .object [("type", .string "bf16")])]
    let path := [("ivf", "quantizer"), ("hnsw", "encoder")]
    Definition.ofText j.compact = .ok ⟨"sq", none, [("type", .text "bf16")]⟩ ∧
      readText Setting.read (j.within path).compact = .ok
        (.component "ivf" [("quantizer", .component "hnsw"
          [("encoder", .component "sq" [("type", .text "bf16")])])]) := by
  intro j path
  obtain ⟨hselection, hsame, hdefinition, hwithin⟩ := readers_agree
  have htext : Grammar.Text j.compact j := text_compact ⟨trivial, ⟨trivial, trivial⟩, trivial⟩
  have houter : Grammar.Text (j.within path).compact (j.within path) :=
    text_compact (by simp [j, path, Json.within, Exact, MembersExact])
  have hmeans : j.MeansSelection ⟨"sq", [("type", .text "bf16")]⟩ :=
    .mk (.byName (by simp) (by simp)) rfl (MembersMean.cons .text .nil).settings
  have hread : readText Selection.read j.compact = .ok ⟨"sq", [("type", .text "bf16")]⟩ :=
    (hselection _ _).2 ⟨j, htext, by decide, hmeans⟩
  constructor
  · exact (hdefinition _ (fun i hi => ⟨_, hi.unique htext, by decide⟩) _).2 ⟨rfl, hread⟩
  · exact (hwithin path j _ _ htext houter (by decide) _).2 ⟨_, (hsame _ _).1 hread, rfl⟩

end VectorIndex
