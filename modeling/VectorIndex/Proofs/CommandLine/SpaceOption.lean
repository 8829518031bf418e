import VectorIndex.Proofs.CommandLine.Comparison

/-!
# The space option

A definition may give its space itself, or an option may give it. The option wins over what
the definition says, and its value is read as the definition would read it.

* `Json.meansDefinition_insert_iff`: what a definition means to which a space is added.
* `Definition.load_insert_eq_ok_iff`: the same for files, in any spelling.
* `Json.OwnSpace`: what a definition says of its space, by name or by position.
* `Invocation.Compiles.space_name`: what is compiled is for the space that the option names.
* `space_option_replaces`: definitions that differ in their space, one that has none, and
  one whose space cannot be read, in runs with the option.
-/

namespace VectorIndex

open Json

/-! ## Definitions with a space -/

theorem Json.meansSpace_string_iff {name : String} {space : Option Space} :
    MeansSpace (some (.string name)) space ↔ ∃ s : Space, s.name = name ∧ space = some s := by
  constructor
  · intro h
    cases h with
    | name => exact ⟨_, rfl, rfl⟩
  · intro h
    obtain ⟨s, rfl, rfl⟩ := h
    exact .name

section

variable {before after members : List (String × Json)} {v : Json} {d : Definition}

/-- A definition with a space in front of it means what it means without one, and the
space. -/
theorem Json.meansDefinition_cons_iff (hspace : "space_type" ∉ members.map Prod.fst) :
    (object (("space_type", v) :: members)).MeansDefinition d ↔
      MeansSpace (some v) d.space ∧
        (object members).MeansDefinition { d with space := none } := by
  have hnone : members.lookup "space_type" = none := lookup_eq_none_iff_not_mem_keys.2 hspace
  have hfirst : (("space_type", v) :: members).lookup "space_type" = some v := by simp
  have hothers : ∀ k, k ≠ "space_type" →
      (("space_type", v) :: members).lookup k = members.lookup k := by
    intro k hk
    rw [Keyed.lookup_cons, if_neg hk]
  have hname := hothers "name" (by decide)
  have hsettings := hothers "parameters" (by decide)
  obtain ⟨name, space, settings⟩ := d
  constructor
  · intro h
    obtain ⟨⟨hnodup, hknown⟩, hmeansName, hmeansSpace, hmeansSettings⟩ := h
    refine ⟨hfirst ▸ hmeansSpace, .mk (.byName ?_ ?_) (hname ▸ hmeansName) ?_ ?_⟩
    · exact (List.nodup_cons.1 hnodup).2
    · exact fun k hk => hknown (List.mem_cons_of_mem _ hk)
    · rw [hnone]
      exact .absent
    · exact hsettings ▸ hmeansSettings
  · intro h
    obtain ⟨hmeansSpace, ⟨hnodup, hknown⟩, hmeansName, -, hmeansSettings⟩ := h
    refine .mk (.byName ?_ ?_) (hname ▸ hmeansName) (hfirst ▸ hmeansSpace)
      (hsettings ▸ hmeansSettings)
    · exact List.nodup_cons.2 ⟨hspace, hnodup⟩
    · exact List.cons_subset.2 ⟨by simp, hknown⟩

theorem Json.MeansDefinition.of_perm {members' : List (String × Json)}
    (hperm : members.Perm members') (h : (object members).MeansDefinition d) :
    (object members').MeansDefinition d := by
  obtain ⟨hgives, hname, hspace, hsettings⟩ := h
  exact .mk (hgives.of_perm hperm) hname hspace hsettings

/-- The same wherever the space is put. -/
theorem Json.meansDefinition_insert_iff (hspace : "space_type" ∉ (before ++ after).map Prod.fst) :
    (object (before ++ ("space_type", v) :: after)).MeansDefinition d ↔
      MeansSpace (some v) d.space ∧
        (object (before ++ after)).MeansDefinition { d with space := none } := by
  rw [← meansDefinition_cons_iff hspace]
  exact ⟨.of_perm List.perm_middle, .of_perm List.perm_middle.symm⟩

/-- A name for the space nests nothing. -/
theorem Json.nesting_insert_le_iff {key name : String} {n : Nat} :
    (object (before ++ (key, .string name) :: after)).nesting ≤ n + 1 ↔
      (object (before ++ after)).nesting ≤ n + 1 := by
  simp only [nesting, Nat.add_le_add_iff_right, membersNesting_le_iff, List.forall_mem_append,
    List.forall_mem_cons, Nat.zero_le, true_and]

/-- A file that names a space is read as the file without it, and the space as the option
would be. -/
theorem Definition.load_insert_eq_ok_iff {f f' : File} {name : String}
    (hfile : f.Spells (.object (before ++ after)))
    (hspace : "space_type" ∉ (before ++ after).map Prod.fst)
    (hfile' : f'.Spells (.object (before ++ ("space_type", .string name) :: after))) :
    Definition.load f' = .ok d ↔ ∃ own s, Definition.load f = .ok own ∧
      Space.parse name = .ok s ∧ d = { own with space := some s } := by
  simp only [hfile'.load_eq_ok_iff, hfile.load_eq_ok_iff, meansDefinition_insert_iff hspace,
    Json.Reader.maxDepth, nesting_insert_le_iff, meansSpace_string_iff, Space.parse_eq_ok_iff]
  constructor
  · intro h
    obtain ⟨hnesting, ⟨s, hname, hs⟩, hmeans⟩ := h
    refine ⟨_, s, ⟨hnesting, hmeans⟩, hname, ?_⟩
    rw [← hs]
  · intro h
    obtain ⟨own, s, ⟨hnesting, hmeans⟩, hname, rfl⟩ := h
    refine ⟨hnesting, ⟨s, hname, rfl⟩, ?_⟩
    have hnone : own.space = none := ((meansDefinition_object_iff hspace).1 hmeans).1
    rw [← hnone]
    exact hmeans

end

/-- What a value says of the space of a definition, as a member or in the second place. -/
inductive Json.OwnSpace : Json → Json → Prop where
  | byName {members v} : ("space_type", v) ∈ members → OwnSpace (.object members) v
  | byPosition {name v rest} : OwnSpace (.array (name :: v :: rest)) v

/-- A definition can be read only if its space can be. -/
theorem Json.MeansDefinition.exists_space {j v : Json} {d : Definition} (h : j.MeansDefinition d)
    (hown : j.OwnSpace v) : ∃ space, MeansSpace (some v) space := by
  obtain ⟨hgives, -, hspace, -⟩ := h
  cases hown with
  | byName hmem =>
    cases hgives with
    | byName hnodup =>
      have hgiven := (lookup_eq_some_iff_mem hnodup).2 hmem
      simp only [hgiven] at hspace
      exact ⟨_, hspace⟩
  | byPosition =>
    cases hgives with
    | byPosition => exact ⟨_, hspace⟩

namespace CommandLine

/-! ## Runs -/

namespace Invocation

variable {i j : Invocation} {files files' : String → File}

/-- Runs with the same defaults compile the same if they are to compile the same
definition. -/
theorem SameDefaults.compiles_iff (h : i.SameDefaults j files files')
    (hnames : ∀ d, i.Names files d ↔ j.Names files' d) {r : Compiled} :
    i.Compiles files r ↔ j.Compiles files' r := by
  constructor
  · intro hr
    obtain ⟨⟨hd, hm, hdefinition⟩, hr⟩ := hr
    exact ⟨⟨h.loads_iff.1 hd, hm, (hnames _).1 hdefinition⟩, hr⟩
  · intro hr
    obtain ⟨⟨hd, hm, hdefinition⟩, hr⟩ := hr
    exact ⟨⟨h.loads_iff.2 hd, hm, (hnames _).2 hdefinition⟩, hr⟩

theorem names_some_iff {path name : String} {asMap : Bool}
    (hc : i.command = .compile path (some name) asMap) {d : Definition} :
    i.Names files d ↔ ∃ own s, Definition.load (files path) = .ok own ∧
      Space.parse name = .ok s ∧ d = { own with space := some s } := by
  constructor
  · intro h
    cases h with
    | own hc' => cases hc.symm.trans hc'
    | other hc' hload hspace =>
      cases hc.symm.trans hc'
      exact ⟨_, _, hload, hspace, rfl⟩
  · intro h
    obtain ⟨own, s, hload, hspace, rfl⟩ := h
    exact .other hc hload hspace

theorem names_none_iff {path : String} {asMap : Bool}
    (hc : i.command = .compile path none asMap) {d : Definition} :
    i.Names files d ↔ Definition.load (files path) = .ok d := by
  constructor
  · intro h
    cases h with
    | own hc' hload =>
      cases hc.symm.trans hc'
      exact hload
    | other hc' => cases hc.symm.trans hc'
  · exact fun h => .own hc h

/-- What a run with the option compiles is for the space that the option names. -/
theorem Compiles.space_name {path name : String} {asMap : Bool}
    (hc : i.command = .compile path (some name) asMap) {r : Compiled} (h : i.Compiles files r) :
    r.space.name = name := by
  obtain ⟨⟨-, -, hnames⟩, hr⟩ := h
  obtain ⟨own, s, -, hs, rfl⟩ := (names_some_iff hc).1 hnames
  obtain ⟨-, -, v, -, rfl⟩ := Definition.compile_eq_ok_iff.1 hr
  exact Space.parse_eq_ok_iff.1 hs

end Invocation

/-! ## The main result -/

/-- The space option replaces what a definition says of its space, and is read like it. What
a run with the option compiles, if it succeeds, is for the space that the option names. Of
two definitions that are read and differ in their space at most, a run with the option makes
the same. Of a definition that gives no space it makes what a run without the option makes
of the definition with that space added, wherever it is added; both fail alike, though not
for the same reason. And it fails for a definition that gives a space that cannot be read. -/
theorem space_option_replaces {arguments : List String} {i : Invocation}
    (h : Invocation.parse arguments = some i) {path name : String} {asMap : Bool}
    (hc : i.command = .compile path (some name) asMap) (files : String → File) :
    ((run arguments files).exitCode = 0 → ∃ r, i.Compiles files r ∧ r.space.name = name ∧
      (run arguments files).printed = (if asMap then r.json.pretty else r.description) ++ "\n") ∧
    (∀ others j files' path' d d', Invocation.parse others = some j →
      i.SameDefaults j files files' → j.command = .compile path' (some name) asMap →
      Definition.load (files path) = .ok d → Definition.load (files' path') = .ok d' →
      d'.name = d.name → d'.settings = d.settings →
      (run arguments files).Agrees (run others files')) ∧
    (∀ others j files' path' before after, Invocation.parse others = some j →
      i.SameDefaults j files files' → j.command = .compile path' none asMap →
      (files path).Spells (.object (before ++ after)) →
      "space_type" ∉ (before ++ after).map Prod.fst →
      (files' path').Spells (.object (before ++ ("space_type", .string name) :: after)) →
      (run arguments files).exitCode = (run others files').exitCode ∧
        (run arguments files).printed = (run others files').printed) ∧
    ∀ document v, (files path).Spells document → document.OwnSpace v →
      (∀ space, ¬Json.MeansSpace (some v) space) →
      (run arguments files).exitCode = 1 ∧ (run arguments files).printed = "" ∧
        ∃ e, i.Breaks files .definition
            (.within ("failed to read method definition " ++ path) e) ∧
          (i.ClearBefore files .definition → (run arguments files).report? =
            some (.within ("failed to read method definition " ++ path) e)) := by
  refine ⟨fun hcode => ?_,
    fun others j files' path' d d' h' hsame hc' hload hload' hname hsettings => ?_,
    fun others j files' path' before after h' hsame hc' hfile hspace hfile' => ?_,
    fun document v hfile hown hv => ?_⟩
  · obtain ⟨r, hr⟩ := (exitCode_eq_zero_iff_compiles h hc).1 hcode
    exact ⟨r, hr, hr.space_name hc, (hr.run_eq h hc).2⟩
  · refine agrees_of_output_eq h h' (Invocation.output_congr hsame.defaults_eq fun m => ?_)
    rw [hc, hc']
    refine Invocation.commandOutput_compile_congr ?_ m asMap
    rw [Invocation.definition, Invocation.definition, hload, hload']
    simp only [Except.mapError, bind, Except.bind, hname, hsettings]
  · -- The runs may fail at different steps, so they are compared by what they compile.
    have hnames : ∀ d, i.Names files d ↔ j.Names files' d := by
      intro d
      rw [Invocation.names_some_iff hc, Invocation.names_none_iff hc',
        Definition.load_insert_eq_ok_iff hfile hspace hfile']
    refine exitCode_printed_eq h h' fun text => ?_
    simp only [Invocation.output_compile_eq_ok_iff hc, Invocation.output_compile_eq_ok_iff hc',
      hsame.compiles_iff hnames]
  · obtain ⟨e, he⟩ : ∃ e, Definition.load (files path) = .error e := by
      refine exists_error_of_ne_ok fun d hload => ?_
      obtain ⟨space, hmeans⟩ := (hfile.load_eq_ok_iff.1 hload).2.exists_space hown
      exact hv space hmeans
    have hbreaks := Invocation.Breaks.definition hc he
    have hcode := (exitCode_eq_one_iff h).2
      (Invocation.exists_output_eq_error_iff.2 ⟨_, _, hbreaks⟩)
    exact ⟨hcode, printed_of_exitCode h hcode, e, hbreaks, fun hclear =>
      (run_of_breaks h hbreaks hclear).2.2⟩

/-- A definition that gives no space, one that gives the space `l1`, which the method does not
support, and one that gives the space `hamming`: with the option for that space the first
is compiled for it, comes to the same as the second, and prints what the third prints
without the option. A definition that gives a space that there is not fails with the option
too. -/
theorem space_option_replaces_hamming :
    let document : Option String → Json := fun space =>
      .object (("name", .string "hnsw") ::
        space.toList.map fun name => ("space_type", .string name))
    let files : String → File := fun path =>
      .ofText (document (if path = "plain.json" then none else some path)).compact
    (∃ r : Compiled, r.space.name = "hamming" ∧
      (run ["compile", "-m", "plain.json", "--space", "hamming", "--as-map"] files).printed =
        r.json.pretty ++ "\n") ∧
    (run ["compile", "-m", "plain.json", "--space", "hamming"] files).Agrees
      (run ["compile", "-m", "l1", "--space", "hamming"] files) ∧
    (run ["compile", "-m", "plain.json", "--space", "hamming"] files).printed =
      (run ["compile", "-m", "hamming"] files).printed ∧
    (run ["compile", "-m", "euclid", "--space", "hamming"] files).exitCode = 1 := by
  intro document files
  have hexact : ∀ space, (document space).Exact := by
    intro space
    cases space <;> simp [document, Json.Exact, Json.MembersExact]
  have hspells : ∀ space, (File.ofText (document space).compact).Spells (document space) :=
    fun space => File.spells_compact (hexact space)
  have hspace : "space_type" ∉ ([("name", Json.string "hnsw")] ++ []).map Prod.fst := by decide
  have hplain : Definition.load (files "plain.json") = .ok ⟨"hnsw", none, []⟩ :=
    (hspells none).load_plain
  have hl1 : Definition.load (files "l1") = .ok ⟨"hnsw", some .l1, []⟩ :=
    (Definition.load_insert_eq_ok_iff (hspells none) hspace (hspells (some "l1"))).2
      ⟨_, .l1, hplain, rfl, rfl⟩
  let request (path : String) (space : Option String) (asMap : Bool) : Invocation :=
    ⟨⟨none, ⟨none, none, none⟩, none⟩, .compile path space asMap⟩
  have hrequest : Invocation.parse
      ["compile", "-m", "plain.json", "--space", "hamming", "--as-map"] =
        some (request "plain.json" (some "hamming") true) := rfl
  obtain ⟨hspaceNamed, -⟩ := space_option_replaces hrequest rfl files
  have hcode : (run ["compile", "-m", "plain.json", "--space", "hamming", "--as-map"]
      files).exitCode = 0 := by
    obtain ⟨m, hm⟩ : ∃ m, Hnsw.method ⟨16, 100, 100⟩ = .ok m := ⟨_, rfl⟩
    obtain ⟨-, rfl⟩ := Hnsw.method_eq_ok_iff.1 hm
    have hloads : (request "plain.json" (some "hamming") true).options.Loads files
        ⟨16, 100, 100⟩ := .builtIn rfl
    have hdocument : (files "plain.json").Spells plainDocument := hspells none
    have hlisted : "hamming" ∈ Hnsw.spaces.map Space.name := by decide
    rw [exitCode_eq_zero_iff_compiles hrequest rfl]
    exact (Invocation.exists_compiles_space_iff hloads hm rfl hdocument).2 hlisted
  have hrequest : Invocation.parse ["compile", "-m", "plain.json", "--space", "hamming"] =
      some (request "plain.json" (some "hamming") false) := rfl
  obtain ⟨-, hreplaces, hreads, -⟩ := space_option_replaces hrequest rfl files
  have hrequest : Invocation.parse ["compile", "-m", "euclid", "--space", "hamming"] =
      some (request "euclid" (some "hamming") false) := rfl
  obtain ⟨-, -, -, hfails⟩ := space_option_replaces hrequest rfl files
  refine ⟨?_, ?_, ?_, ?_⟩
  · obtain ⟨r, -, hname, hprinted⟩ := hspaceNamed hcode
    exact ⟨r, hname, hprinted⟩
  · exact hreplaces _ (request "l1" (some "hamming") false) files "l1" _ _ rfl
      ⟨rfl, rfl, fun _ _ => rfl⟩ rfl hplain hl1 rfl rfl
  · exact (hreads _ (request "hamming" none false) files "hamming" [("name", .string "hnsw")] []
      rfl ⟨rfl, rfl, fun _ _ => rfl⟩ rfl (hspells none) hspace (hspells (some "hamming"))).2
  · have hown : (document (some "euclid")).OwnSpace (.string "euclid") := .byName (by simp)
    refine (hfails _ _ (hspells (some "euclid")) hown fun space hmeans => ?_).1
    obtain ⟨s, hs, -⟩ := Json.meansSpace_string_iff.1 hmeans
    cases s <;> exact absurd hs (by decide)

end CommandLine

end VectorIndex
