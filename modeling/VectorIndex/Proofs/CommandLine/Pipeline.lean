import VectorIndex.Proofs.CommandLine.Printing
import VectorIndex.Proofs.Definition.Compilation
import VectorIndex.Proofs.Definition.RoundTrip
import VectorIndex.Proofs.Hnsw.SettingsMap
import VectorIndex.Proofs.Schema.Conformance

/-!
# Runs of the program

A run is made of steps, and several of them may fail on the same files. The run
fails if any of them does, is told for the first one, and prints either nothing or
all that it has to print.

* `File.text_ofText`, `File.read_ofText`: files that hold a text.
* `Step`: the steps in their order.
* `Options.Loads`, `Invocation.Names`: what a run works on, the defaults and the
  definition. `Invocation.Joins` brings the method and the definition together.
* `Invocation.Breaks`: a step fails. Several may.
* `Invocation.Compiles`: what a run compiles, if no step fails.
* `Invocation.output_eq_error_iff`, `Invocation.output_compile_eq_ok_iff`: what is
  reported and what is printed.
* `run_follows_steps`: all of that for the command line.
-/

namespace VectorIndex

/-! ## Files -/

theorem File.text_ofText (text : String) : (File.ofText text).text = .ok text := by
  have htext : String.fromUTF8? text.toUTF8 = some text := dif_pos text.isValidUTF8
  rw [File.ofText, File.text, htext]

/-- A file that holds a text is read as that text. -/
theorem File.read_ofText {α : Type} (shape : Json.Draft → Except Json.ReadError α)
    (text : String) :
    (File.ofText text).read shape = (Json.readText shape text).mapError .unreadable := by
  rw [File.read, File.text_ofText]

theorem Definition.load_ofText (text : String) :
    Definition.load (.ofText text) = Definition.ofText text :=
  File.read_ofText Definition.record.read text

namespace CommandLine

/-! ## The steps -/

/-- The steps of a run, in their order. The last three are for the compile command. -/
inductive Step where
  | defaults
  | method
  | definition
  | space
  | compile
deriving DecidableEq

/-- The place of a step in the order. -/
def Step.number : Step → Nat
  | defaults => 0
  | method => 1
  | definition => 2
  | space => 3
  | compile => 4

theorem Step.number_injective {s t : Step} (h : s.number = t.number) : s = t := by
  cases s <;> cases t <;> first | rfl | cases h

/-- The defaults that a run works with: each is the override that is given for it or else,
if a file is named, what the file says of it, or else its own built-in default. -/
inductive Options.Loads (o : Options) (files : String → File) : Defaults → Prop where
  | builtIn : o.defaultsPath = none →
      Loads o files ⟨o.overrides.m.getD 16, o.overrides.efConstruction.getD 100,
        o.overrides.efSearch.getD 100⟩
  | file {path d} : o.defaultsPath = some path → Defaults.load (files path) = .ok d →
      Loads o files ⟨o.overrides.m.getD d.m, o.overrides.efConstruction.getD d.efConstruction,
        o.overrides.efSearch.getD d.efSearch⟩

theorem Options.Loads.unique {o : Options} {files : String → File} {d d' : Defaults}
    (h : o.Loads files d) (h' : o.Loads files d') : d = d' := by
  cases h with
  | builtIn hpath =>
    cases h' with
    | builtIn => rfl
    | file hpath' => cases hpath.symm.trans hpath'
  | file hpath hload =>
    cases h' with
    | builtIn hpath' => cases hpath.symm.trans hpath'
    | file hpath' hload' =>
      cases hpath.symm.trans hpath'
      cases hload.symm.trans hload'
      rfl

namespace Invocation

/-- The definition that a run is to compile: the one of the file that is named, for the
space that is named if one is. -/
inductive Names (i : Invocation) (files : String → File) : Definition → Prop where
  | own {path asMap d} : i.command = .compile path none asMap →
      Definition.load (files path) = .ok d → Names i files d
  | other {path name asMap d s} : i.command = .compile path (some name) asMap →
      Definition.load (files path) = .ok d → Space.parse name = .ok s →
      Names i files { d with space := some s }

/-- The method and the definition that a run brings together. -/
inductive Joins (i : Invocation) (files : String → File) : Method → Definition → Prop where
  | mk {d m definition} : i.options.Loads files d → Hnsw.method d = .ok m →
      i.Names files definition → Joins i files m definition

/-- A step of a run fails, and how that is reported. A step is taken as soon as
there is what it works on, whether or not others fail. -/
inductive Breaks (i : Invocation) (files : String → File) : Step → Report → Prop where
  | defaults {path e} : i.options.defaultsPath = some path →
      Defaults.load (files path) = .error e →
      Breaks i files .defaults (.within ("failed to load settings from " ++ path) e)
  | method {d defect} : i.options.Loads files d → Hnsw.method d = .error defect →
      Breaks i files .method ⟨defect.message, []⟩
  | definition {path space asMap e} : i.command = .compile path space asMap →
      Definition.load (files path) = .error e →
      Breaks i files .definition (.within ("failed to read method definition " ++ path) e)
  | space {path name asMap e} : i.command = .compile path (some name) asMap →
      Space.parse name = .error e → Breaks i files .space (.ofFailure e)
  | compile {m definition e} : i.Joins files m definition → definition.compile m = .error e →
      Breaks i files .compile (.ofFailure e)

/-- What a run compiles. -/
inductive Compiles (i : Invocation) (files : String → File) : Compiled → Prop where
  | mk {m definition r} : i.Joins files m definition → definition.compile m = .ok r →
      Compiles i files r

/-! ## What the steps work on -/

variable {i : Invocation} {files : String → File}

theorem defaults_of_none (h : i.options.defaultsPath = none) :
    i.defaults files = .ok (Defaults.builtIn.override i.options.overrides) := by
  unfold defaults
  rw [h]
  rfl

theorem defaults_of_some {path : String} (h : i.options.defaultsPath = some path) :
    i.defaults files = ((Defaults.load (files path)).mapError
      (Report.within ("failed to load settings from " ++ path))).map
      (·.override i.options.overrides) := by
  unfold defaults
  rw [h]
  show (Defaults.load (files path)).mapError _ >>= _ = _
  cases Defaults.load (files path) <;> rfl

theorem defaults_eq_ok_iff {d : Defaults} : i.defaults files = .ok d ↔ i.options.Loads files d := by
  constructor
  · intro h
    cases hpath : i.options.defaultsPath with
    | none =>
      rw [defaults_of_none hpath] at h
      cases h
      exact .builtIn hpath
    | some path =>
      rw [defaults_of_some hpath] at h
      obtain ⟨loaded, hload, rfl⟩ := map_eq_ok_iff.1 h
      exact .file hpath (mapError_eq_ok_iff.1 hload)
  · intro h
    cases h with
    | builtIn hpath => exact defaults_of_none hpath
    | file hpath hload =>
      rw [defaults_of_some hpath]
      exact map_eq_ok_iff.2 ⟨_, mapError_eq_ok_iff.2 hload, rfl⟩

theorem defaults_eq_error_iff {r : Report} :
    i.defaults files = .error r ↔ i.Breaks files .defaults r := by
  constructor
  · intro h
    cases hpath : i.options.defaultsPath with
    | none =>
      rw [defaults_of_none hpath] at h
      cases h
    | some path =>
      rw [defaults_of_some hpath] at h
      obtain ⟨e, hload, rfl⟩ := mapError_eq_error_iff.1 (map_eq_error_iff.1 h)
      exact .defaults hpath hload
  · intro h
    cases h with
    | defaults hpath hload =>
      rw [defaults_of_some hpath]
      exact map_eq_error_iff.2 (mapError_eq_error_iff.2 ⟨_, hload, rfl⟩)

theorem method_eq_error_iff {d : Defaults} (hd : i.options.Loads files d) {r : Report} :
    method d = .error r ↔ i.Breaks files .method r := by
  constructor
  · intro h
    obtain ⟨defect, hdefect, rfl⟩ := mapError_eq_error_iff.1 h
    exact .method hd hdefect
  · intro h
    cases h with
    | method hd' hdefect =>
      cases hd.unique hd'
      exact mapError_eq_error_iff.2 ⟨_, hdefect, rfl⟩

theorem definition_eq_ok_iff {path : String} {space : Option String} {asMap : Bool}
    (hc : i.command = .compile path space asMap) {d : Definition} :
    definition files path space = .ok d ↔ i.Names files d := by
  unfold definition
  rw [bind_eq_ok_iff]
  constructor
  · intro h
    obtain ⟨loaded, hload, h⟩ := h
    have hload := mapError_eq_ok_iff.1 hload
    cases space with
    | none =>
      cases h
      exact .own hc hload
    | some name =>
      obtain ⟨s, hs, h⟩ := bind_eq_ok_iff.1 h
      cases h
      exact .other hc hload (mapError_eq_ok_iff.1 hs)
  · intro h
    cases h with
    | own hc' hload =>
      cases hc.symm.trans hc'
      exact ⟨_, mapError_eq_ok_iff.2 hload, rfl⟩
    | other hc' hload hspace =>
      cases hc.symm.trans hc'
      exact ⟨_, mapError_eq_ok_iff.2 hload, bind_eq_ok_iff.2 ⟨_, mapError_eq_ok_iff.2 hspace, rfl⟩⟩

theorem Names.exists_command {d : Definition} (h : i.Names files d) :
    ∃ path space asMap, i.command = .compile path space asMap := by
  cases h with
  | own hc | other hc => exact ⟨_, _, _, hc⟩

theorem Names.unique {d d' : Definition} (h : i.Names files d) (h' : i.Names files d') :
    d = d' := by
  obtain ⟨path, space, asMap, hc⟩ := h.exists_command
  have hd := (definition_eq_ok_iff hc).2 h
  rw [(definition_eq_ok_iff hc).2 h'] at hd
  exact (Except.ok.inj hd).symm

theorem Joins.names {m : Method} {d : Definition} (h : i.Joins files m d) : i.Names files d := by
  cases h with
  | mk _ _ hnames => exact hnames

theorem Joins.unique {m m' : Method} {d d' : Definition} (h : i.Joins files m d)
    (h' : i.Joins files m' d') : m = m' ∧ d = d' := by
  obtain ⟨hd, hm, hnames⟩ := h
  obtain ⟨hd', hm', hnames'⟩ := h'
  cases hd.unique hd'
  exact ⟨Except.ok.inj (hm.symm.trans hm'), hnames.unique hnames'⟩

/-- A run compiles one definition, to one thing. -/
theorem Compiles.unique {r r' : Compiled} (h : i.Compiles files r) (h' : i.Compiles files r') :
    r = r' := by
  obtain ⟨hjoins, hr⟩ := h
  obtain ⟨hjoins', hr'⟩ := h'
  obtain ⟨rfl, rfl⟩ := hjoins.unique hjoins'
  exact Except.ok.inj (hr.symm.trans hr')

/-! ## The first step that fails -/

/-- No step in front of the step fails. -/
def ClearBefore (i : Invocation) (files : String → File) (s : Step) : Prop :=
  ∀ t r, i.Breaks files t r → s.number ≤ t.number

/-- A step that does not fail is put behind. -/
theorem ClearBefore.next {s t : Step} (h : i.ClearBefore files s)
    (hs : ∀ r, ¬i.Breaks files s r) (ht : t.number = s.number + 1) : i.ClearBefore files t := by
  intro u r hu
  have hle := h u r hu
  have hne : s.number ≠ u.number := fun heq => hs r (Step.number_injective heq ▸ hu)
  omega

theorem clearBefore_defaults : i.ClearBefore files .defaults :=
  fun _ _ _ => Nat.zero_le _

theorem clearBefore_method {d : Defaults} (h : i.options.Loads files d) :
    i.ClearBefore files .method := by
  refine clearBefore_defaults.next (fun r hr => ?_) rfl
  have hd := defaults_eq_ok_iff.2 h
  rw [defaults_eq_error_iff.2 hr] at hd
  cases hd

theorem clearBefore_definition {d : Defaults} {m : Method} (h : i.options.Loads files d)
    (hm : Hnsw.method d = .ok m) : i.ClearBefore files .definition := by
  refine (clearBefore_method h).next (fun r hr => ?_) rfl
  cases hr with
  | method h' hdefect =>
    cases h.unique h'
    cases hm.symm.trans hdefect

theorem clearBefore_space {path : String} {space : Option String} {asMap : Bool}
    (hc : i.command = .compile path space asMap) {d : Definition}
    (hload : Definition.load (files path) = .ok d) (h : i.ClearBefore files .definition) :
    i.ClearBefore files .space := by
  refine h.next (fun r hr => ?_) rfl
  cases hr with
  | definition hc' hload' =>
    cases hc.symm.trans hc'
    cases hload.symm.trans hload'

theorem Names.clearBefore {d : Definition} (hd : i.Names files d)
    (h : i.ClearBefore files .definition) : i.ClearBefore files .compile := by
  cases hd with
  | own hc hload =>
    refine (clearBefore_space hc hload h).next (fun r hr => ?_) rfl
    cases hr with
    | space hc' => cases hc.symm.trans hc'
  | other hc hload hspace =>
    refine (clearBefore_space hc hload h).next (fun r hr => ?_) rfl
    cases hr with
    | space hc' hspace' =>
      cases hc.symm.trans hc'
      cases hspace.symm.trans hspace'

/-- The definition cannot be had because of the file or because of the space. -/
theorem exists_breaks_of_definition {path : String} {space : Option String} {asMap : Bool}
    (hc : i.command = .compile path space asMap) (hclear : i.ClearBefore files .definition)
    {r : Report} (h : definition files path space = .error r) :
    ∃ s, i.Breaks files s r ∧ i.ClearBefore files s := by
  rcases bind_eq_error_iff.1 h with h | ⟨d, hload, h⟩
  · obtain ⟨e, hload, rfl⟩ := mapError_eq_error_iff.1 h
    exact ⟨.definition, .definition hc hload, hclear⟩
  · have hclear := clearBefore_space hc (mapError_eq_ok_iff.1 hload) hclear
    cases space with
    | none => cases h
    | some name =>
      rcases bind_eq_error_iff.1 h with h | ⟨s, -, h⟩
      · obtain ⟨e, hspace, rfl⟩ := mapError_eq_error_iff.1 h
        exact ⟨.space, .space hc hspace, hclear⟩
      · cases h

/-! ## What is described -/

/-- A method whose component is sound can be described. -/
theorem exists_description {m : Method} (hm : m.component.Sound) (files : String → File) :
    ∃ text, commandOutput m files .describe = .ok text := by
  obtain ⟨v, hv, -⟩ := hm.exists_validate_plain m.name
  rw [commandOutput_describe]
  exact ⟨_, bind_eq_ok_iff.2 ⟨v, mapError_eq_ok_iff.2 hv, rfl⟩⟩

theorem exists_description_of_method {d : Defaults} {m : Method} (hm : Hnsw.method d = .ok m)
    (files : String → File) : ∃ text, commandOutput m files .describe = .ok text := by
  obtain ⟨hpositive, rfl⟩ := Hnsw.method_eq_ok_iff.1 hm
  exact exists_description (Hnsw.built_schema hpositive).sound files

/-! ## What comes out -/

theorem output_eq_ok_iff {text : String} :
    i.output files = .ok text ↔ ∃ d m, i.options.Loads files d ∧ Hnsw.method d = .ok m ∧
      commandOutput m files i.command = .ok text := by
  rw [output_eq]
  constructor
  · intro h
    obtain ⟨d, hd, h⟩ := bind_eq_ok_iff.1 h
    obtain ⟨m, hm, h⟩ := bind_eq_ok_iff.1 h
    exact ⟨d, m, defaults_eq_ok_iff.1 hd, mapError_eq_ok_iff.1 hm, h⟩
  · intro h
    obtain ⟨d, m, hd, hm, h⟩ := h
    have hmethod : method d = .ok m := mapError_eq_ok_iff.2 hm
    exact bind_eq_ok_iff.2 ⟨d, defaults_eq_ok_iff.2 hd, bind_eq_ok_iff.2 ⟨m, hmethod, h⟩⟩

/-- What the compile command prints. -/
theorem output_compile_eq_ok_iff {path : String} {space : Option String} {asMap : Bool}
    (hc : i.command = .compile path space asMap) {text : String} :
    i.output files = .ok text ↔ ∃ r, i.Compiles files r ∧
      (if asMap then r.json.pretty else r.description) ++ "\n" = text := by
  rw [output_eq_ok_iff, hc]
  constructor
  · intro h
    obtain ⟨d, m, hd, hm, h⟩ := h
    rw [commandOutput_compile] at h
    obtain ⟨definition, hdefinition, h⟩ := bind_eq_ok_iff.1 h
    obtain ⟨r, hr, h⟩ := bind_eq_ok_iff.1 h
    have hnames := (definition_eq_ok_iff hc).1 hdefinition
    exact ⟨r, .mk ⟨hd, hm, hnames⟩ (mapError_eq_ok_iff.1 hr), Except.ok.inj h⟩
  · intro h
    obtain ⟨r, ⟨⟨hd, hm, hnames⟩, hr⟩, rfl⟩ := h
    have hdefinition := (definition_eq_ok_iff hc).2 hnames
    refine ⟨_, _, hd, hm, ?_⟩
    rw [commandOutput_compile]
    refine bind_eq_ok_iff.2 ⟨_, hdefinition, bind_eq_ok_iff.2 ⟨r, ?_, rfl⟩⟩
    exact mapError_eq_ok_iff.2 hr

/-- If a run fails, then for the first step that fails. -/
theorem exists_breaks_of_output {r : Report} (h : i.output files = .error r) :
    ∃ s, i.Breaks files s r ∧ i.ClearBefore files s := by
  rw [output_eq] at h
  rcases bind_eq_error_iff.1 h with h | ⟨d, hd, h⟩
  · exact ⟨.defaults, defaults_eq_error_iff.1 h, clearBefore_defaults⟩
  have hd := defaults_eq_ok_iff.1 hd
  rcases bind_eq_error_iff.1 h with h | ⟨m, hm, h⟩
  · exact ⟨.method, (method_eq_error_iff hd).1 h, clearBefore_method hd⟩
  have hm := mapError_eq_ok_iff.1 hm
  have hclear := clearBefore_definition hd hm
  cases hc : i.command with
  | describe =>
    obtain ⟨text, htext⟩ := exists_description_of_method hm files
    rw [hc] at h
    cases htext.symm.trans h
  | compile path space asMap =>
    rw [hc, commandOutput_compile] at h
    rcases bind_eq_error_iff.1 h with h | ⟨definition, hdefinition, h⟩
    · exact exists_breaks_of_definition hc hclear h
    have hdefinition := (definition_eq_ok_iff hc).1 hdefinition
    rcases bind_eq_error_iff.1 h with h | ⟨c, -, h⟩
    · obtain ⟨e, hcompile, rfl⟩ := mapError_eq_error_iff.1 h
      exact ⟨.compile, .compile ⟨hd, hm, hdefinition⟩ hcompile, hdefinition.clearBefore hclear⟩
    · cases h

/-- If a run succeeds, no step fails. -/
theorem not_breaks_of_output {text : String} (h : i.output files = .ok text) (s : Step)
    (r : Report) : ¬i.Breaks files s r := by
  intro hr
  obtain ⟨d, m, hd, hm, -⟩ := output_eq_ok_iff.1 h
  have hclear := clearBefore_definition hd hm
  cases hc : i.command with
  | describe =>
    have hlate := hclear s r hr
    cases hr with
    | defaults | method => exact absurd hlate (by decide)
    | definition hc' | space hc' => cases hc.symm.trans hc'
    | compile hjoins =>
      obtain ⟨_, _, _, hc'⟩ := hjoins.names.exists_command
      cases hc.symm.trans hc'
  | compile path space asMap =>
    obtain ⟨c, ⟨hjoins, hcompile⟩, -⟩ := (output_compile_eq_ok_iff hc).1 h
    have hlate := hjoins.names.clearBefore hclear s r hr
    cases hr with
    | defaults | method | definition | space => exact absurd hlate (by decide)
    | compile hjoins' hcompile' =>
      obtain ⟨rfl, rfl⟩ := hjoins.unique hjoins'
      cases hcompile.symm.trans hcompile'

/-- A step fails in one way only. -/
theorem Breaks.unique {s : Step} {r r' : Report} (h : i.Breaks files s r)
    (h' : i.Breaks files s r') : r = r' := by
  cases h with
  | defaults hpath hload =>
    cases h' with
    | defaults hpath' hload' =>
      cases hpath.symm.trans hpath'
      cases hload.symm.trans hload'
      rfl
  | method hd hdefect =>
    cases h' with
    | method hd' hdefect' =>
      cases hd.unique hd'
      cases hdefect.symm.trans hdefect'
      rfl
  | definition hc hload =>
    cases h' with
    | definition hc' hload' =>
      cases hc.symm.trans hc'
      cases hload.symm.trans hload'
      rfl
  | space hc hspace =>
    cases h' with
    | space hc' hspace' =>
      cases hc.symm.trans hc'
      cases hspace.symm.trans hspace'
      rfl
  | compile hjoins hcompile =>
    cases h' with
    | compile hjoins' hcompile' =>
      obtain ⟨rfl, rfl⟩ := hjoins.unique hjoins'
      cases hcompile.symm.trans hcompile'
      rfl

/-- What is reported is the failure of the first step that fails. -/
theorem output_eq_error_iff {r : Report} :
    i.output files = .error r ↔ ∃ s, i.Breaks files s r ∧ i.ClearBefore files s := by
  refine ⟨exists_breaks_of_output, fun h => ?_⟩
  obtain ⟨s, hr, hclear⟩ := h
  cases hout : i.output files with
  | ok text => exact absurd hr (not_breaks_of_output hout s r)
  | error r' =>
    obtain ⟨t, hr', hclear'⟩ := exists_breaks_of_output hout
    obtain rfl : s = t :=
      Step.number_injective (Nat.le_antisymm (hclear t r' hr') (hclear' s r hr))
    rw [hr.unique hr']

/-- A run succeeds if and only if no step fails. -/
theorem exists_output_eq_ok_iff :
    (∃ text, i.output files = .ok text) ↔ ∀ s r, ¬i.Breaks files s r := by
  constructor
  · intro h
    obtain ⟨text, hout⟩ := h
    exact not_breaks_of_output hout
  · intro h
    cases hout : i.output files with
    | ok text => exact ⟨text, rfl⟩
    | error r =>
      obtain ⟨s, hs, -⟩ := output_eq_error_iff.1 hout
      exact absurd hs (h s r)

/-- A run fails if and only if a step does. -/
theorem exists_output_eq_error_iff :
    (∃ r, i.output files = .error r) ↔ ∃ s r, i.Breaks files s r := by
  constructor
  · intro h
    obtain ⟨r, hout⟩ := h
    obtain ⟨s, hs, -⟩ := output_eq_error_iff.1 hout
    exact ⟨s, r, hs⟩
  · intro h
    obtain ⟨s, r, hs⟩ := h
    cases hout : i.output files with
    | ok text => exact absurd hs (not_breaks_of_output hout s r)
    | error r' => exact ⟨r', rfl⟩

end Invocation

/-! ## What is compiled -/

/-- The JSON value of what the method compiles is written exactly, and is not deep. -/
theorem exact_json_of_compile {d : Defaults} {m : Method} (hm : Hnsw.method d = .ok m)
    {definition : Definition} {r : Compiled} (hr : definition.compile m = .ok r) :
    r.json.Exact ∧ r.json.nesting = 5 := by
  obtain ⟨-, -, v, hv, rfl⟩ := Definition.compile_eq_ok_iff.1 hr
  obtain ⟨x, rfl⟩ := Hnsw.exists_configuration hm hv
  obtain ⟨-, rfl⟩ := Hnsw.method_eq_ok_iff.1 hm
  have hmap := Hnsw.settingsMap_values d x
  constructor
  · refine ⟨trivial, trivial, trivial, ?_, trivial⟩
    show ((Hnsw.schema d).settingsMap x.values).Exact
    rw [hmap]
    exact x.exact_map
  · show max 0 (max 0 (max 0 (max ((Hnsw.schema d).settingsMap x.values).nesting 0))) + 1 = 5
    rw [hmap, x.nesting_map]
    rfl

/-- What a run prints as a map is the JSON value of what it compiles. -/
theorem Invocation.Compiles.text_json {i : Invocation} {files : String → File} {r : Compiled}
    (h : i.Compiles files r) :
    Json.Grammar.Text (r.json.pretty ++ "\n") r.json ∧
      Json.ofText (r.json.pretty ++ "\n") = .ok r.json := by
  obtain ⟨⟨-, hm, -⟩, hr⟩ := h
  obtain ⟨hexact, hnesting⟩ := exact_json_of_compile hm hr
  have htext := Json.text_pretty hexact
  exact ⟨htext, Json.ofText_of_text htext (by rw [hnesting]; decide)⟩

/-! ## Runs -/

section

variable {arguments : List String} {i : Invocation}

theorem run_of_parse (h : Invocation.parse arguments = some i) (files : String → File) :
    run arguments files = .ran (i.perform files) (i.journal files) := by
  rw [run, h]

theorem run_of_output_ok (h : Invocation.parse arguments = some i) {files : String → File}
    {text : String} (hout : i.output files = .ok text) :
    (run arguments files).exitCode = 0 ∧ (run arguments files).printed = text ∧
      (run arguments files).report? = none := by
  obtain ⟨_, hresult, htext⟩ := map_eq_ok_iff.1 hout
  rw [run_of_parse h, Outcome.exitCode, Outcome.report?, hresult]
  exact ⟨rfl, htext, rfl⟩

/-- A run that fails has printed nothing: no line stands in front of a step that fails. -/
theorem run_of_output_error (h : Invocation.parse arguments = some i) {files : String → File}
    {r : Report} (hout : i.output files = .error r) :
    (run arguments files).exitCode = 1 ∧ (run arguments files).printed = "" ∧
      (run arguments files).report? = some r := by
  have hresult : (i.perform files).result = .error r := Action.output_eq_error_iff.1 hout
  have hlines := Invocation.allOrNothing_perform i files r hresult
  rw [run_of_parse h, Outcome.exitCode, Outcome.report?, Outcome.printed, hresult, Action.text,
    hlines]
  exact ⟨rfl, rfl, rfl⟩

theorem exitCode_eq_one_iff (h : Invocation.parse arguments = some i) {files : String → File} :
    (run arguments files).exitCode = 1 ↔ ∃ r, i.output files = .error r := by
  cases hout : i.output files with
  | ok text => simp [(run_of_output_ok h hout).1]
  | error r => simp [(run_of_output_error h hout).1]

theorem exitCode_eq_zero_iff (h : Invocation.parse arguments = some i) {files : String → File} :
    (run arguments files).exitCode = 0 ↔ ∃ text, i.output files = .ok text := by
  cases hout : i.output files with
  | ok text => simp [(run_of_output_ok h hout).1]
  | error r => simp [(run_of_output_error h hout).1]

theorem report?_eq_some_iff (h : Invocation.parse arguments = some i) {files : String → File}
    {r : Report} : (run arguments files).report? = some r ↔ i.output files = .error r := by
  cases hout : i.output files with
  | ok text => simp [(run_of_output_ok h hout).2.2]
  | error r => simp [(run_of_output_error h hout).2.2]

/-- A run that fails prints nothing. -/
theorem printed_of_exitCode (h : Invocation.parse arguments = some i) {files : String → File}
    (hcode : (run arguments files).exitCode = 1) : (run arguments files).printed = "" := by
  obtain ⟨r, hr⟩ := (exitCode_eq_one_iff h).1 hcode
  exact (run_of_output_error h hr).2.1

/-- What a run prints that compiles a definition. -/
theorem Invocation.Compiles.run_eq (h : Invocation.parse arguments = some i)
    {files : String → File} {r : Compiled} (hr : i.Compiles files r) {path : String}
    {space : Option String} {asMap : Bool} (hc : i.command = .compile path space asMap) :
    (run arguments files).exitCode = 0 ∧ (run arguments files).printed =
      (if asMap then r.json.pretty else r.description) ++ "\n" := by
  obtain ⟨hcode, hprinted, -⟩ :=
    run_of_output_ok h ((Invocation.output_compile_eq_ok_iff hc).2 ⟨r, hr, rfl⟩)
  exact ⟨hcode, hprinted⟩

/-- A run compiles a definition successfully if there is something that it compiles. -/
theorem exitCode_eq_zero_iff_compiles (h : Invocation.parse arguments = some i)
    {files : String → File} {path : String} {space : Option String} {asMap : Bool}
    (hc : i.command = .compile path space asMap) :
    (run arguments files).exitCode = 0 ↔ ∃ r, i.Compiles files r := by
  constructor
  · intro hcode
    obtain ⟨text, hout⟩ := (exitCode_eq_zero_iff h).1 hcode
    obtain ⟨r, hr, -⟩ := (Invocation.output_compile_eq_ok_iff hc).1 hout
    exact ⟨r, hr⟩
  · intro hcompiles
    obtain ⟨r, hr⟩ := hcompiles
    exact (hr.run_eq h hc).1

end

/-- What a run compiles does not depend on how it is printed. -/
theorem Invocation.Compiles.of_options {i j : Invocation} {files : String → File} {r : Compiled}
    {path : String} {space : Option String} {asMap asMap' : Bool} (h : i.Compiles files r)
    (hoptions : j.options = i.options) (hc : i.command = .compile path space asMap)
    (hc' : j.command = .compile path space asMap') : j.Compiles files r := by
  obtain ⟨⟨hd, hm, hnames⟩, hr⟩ := h
  have hdefinition := (Invocation.definition_eq_ok_iff hc).2 hnames
  exact .mk ⟨hoptions ▸ hd, hm, (Invocation.definition_eq_ok_iff hc').1 hdefinition⟩ hr

/-- A run follows its steps. It fails if and only if one of them does, and is told for
the first one; then it has printed nothing. Otherwise the compile command prints the
description of what is compiled or, as a map, a text that is read as an object of four
members: the space, the description, which the run without the map prints, whether training
is required, and the map. The describe command fails only together with the steps that make
the method. -/
theorem run_follows_steps {arguments : List String} {i : Invocation}
    (h : Invocation.parse arguments = some i) (files : String → File) :
    ((run arguments files).exitCode = 1 ↔ ∃ s r, i.Breaks files s r) ∧
    ((run arguments files).exitCode = 0 ↔ ∀ s r, ¬i.Breaks files s r) ∧
    (∀ r, (run arguments files).report? = some r ↔
      ∃ s, i.Breaks files s r ∧ ∀ t r', i.Breaks files t r' → s.number ≤ t.number) ∧
    ((run arguments files).exitCode = 1 → (run arguments files).printed = "") ∧
    (∀ path space, i.command = .compile path space false →
      (run arguments files).exitCode = 0 →
      ∃ r, i.Compiles files r ∧ (run arguments files).printed = r.description ++ "\n") ∧
    (∀ path space, i.command = .compile path space true →
      (run arguments files).exitCode = 0 →
      ∃ r document, i.Compiles files r ∧
        document = .object [
          ("space_type", .string r.space.name),
          ("index_description", .string r.description),
          ("training_required", .boolean r.trainingRequired),
          ("method", r.map)] ∧
        Json.Grammar.Text (run arguments files).printed document ∧
        Json.ofText (run arguments files).printed = .ok document ∧
        ∀ others, Invocation.parse others = some ⟨i.options, .compile path space false⟩ →
          (run others files).exitCode = 0 ∧
            (run others files).printed = r.description ++ "\n") ∧
    (i.command = .describe → ∀ d m, i.options.Loads files d → Hnsw.method d = .ok m →
      (run arguments files).exitCode = 0) := by
  refine ⟨?_, ?_, fun r => ?_, printed_of_exitCode h, fun path space hc hcode => ?_,
    fun path space hc hcode => ?_, fun hc d m hd hm => ?_⟩
  · rw [exitCode_eq_one_iff h, Invocation.exists_output_eq_error_iff]
  · rw [exitCode_eq_zero_iff h, Invocation.exists_output_eq_ok_iff]
  · rw [report?_eq_some_iff h, Invocation.output_eq_error_iff]
    rfl
  · obtain ⟨r, hr⟩ := (exitCode_eq_zero_iff_compiles h hc).1 hcode
    exact ⟨r, hr, (hr.run_eq h hc).2⟩
  · obtain ⟨r, hr⟩ := (exitCode_eq_zero_iff_compiles h hc).1 hcode
    obtain ⟨htext, hread⟩ := hr.text_json
    have hprinted : (run arguments files).printed = r.json.pretty ++ "\n" := (hr.run_eq h hc).2
    rw [hprinted]
    refine ⟨r, r.json, hr, rfl, htext, hread, fun others hothers => ?_⟩
    have hr' : Invocation.Compiles ⟨i.options, .compile path space false⟩ files r :=
      hr.of_options rfl hc rfl
    exact hr'.run_eq hothers rfl
  · obtain ⟨text, htext⟩ := Invocation.exists_description_of_method hm files
    refine (exitCode_eq_zero_iff h).2 ⟨text, Invocation.output_eq_ok_iff.2 ⟨d, m, hd, hm, ?_⟩⟩
    rw [hc]
    exact htext

/-- A run in which the defaults, the definition and the space are all wrong is told for
the defaults. A run with a degree that is not positive is told for the degree, though there
is a definition. A run for that definition under another degree prints what it compiles to. -/
theorem run_follows_steps_hnsw :
    let missing : String → File := fun _ => .unavailable .missing
    let plain : String → File := fun _ => .ofText (Definition.json ⟨"hnsw", none, []⟩).compact
    (∃ i, Invocation.parse
        ["--settings", "s.json", "compile", "-m", "d.json", "--space", "euclid"] = some i ∧
      (∃ r, i.Breaks missing .definition r) ∧
      i.Breaks missing .space ⟨"Unknown space type: euclid", []⟩ ∧
      (run ["--settings", "s.json", "compile", "-m", "d.json", "--space", "euclid"]
        missing).report? = some ⟨"failed to load settings from s.json",
          ["IO error: No such file or directory (os error 2)",
            "No such file or directory (os error 2)"]⟩) ∧
    ((run ["--default-m", "0", "compile", "-m", "d.json"] plain).exitCode = 1 ∧
      (run ["--default-m", "0", "compile", "-m", "d.json"] plain).printed = "" ∧
      (run ["--default-m", "0", "compile", "-m", "d.json"] plain).report? =
        some ⟨"Default value of parameter 'm' does not satisfy its validator", []⟩) ∧
    ∃ r : Compiled,
      Json.ofText (run ["compile", "-m", "d.json", "--as-map", "--default-m", "32"]
        plain).printed = .ok (.object [("space_type", .string "l2"),
          ("index_description", .string "HNSW32"), ("training_required", .boolean false),
          ("method", r.map)]) ∧
      (run ["--default-m", "32", "compile", "-m", "d.json"] plain).printed = "HNSW32\n" := by
  intro missing plain
  refine ⟨?_, ?_, ?_⟩
  · let i : Invocation :=
      ⟨⟨some "s.json", ⟨none, none, none⟩, none⟩, .compile "d.json" (some "euclid") false⟩
    have hi : Invocation.parse
        ["--settings", "s.json", "compile", "-m", "d.json", "--space", "euclid"] = some i := rfl
    have hdefaults : i.Breaks missing .defaults
        (.within ("failed to load settings from " ++ "s.json") (.file .missing)) :=
      .defaults rfl rfl
    have hspace : i.Breaks missing .space (.ofFailure (.unknownSpace "euclid")) := .space rfl rfl
    obtain ⟨-, -, hreport, -⟩ := run_follows_steps hi missing
    refine ⟨i, hi, ⟨_, .definition rfl rfl⟩, hspace, (hreport _).2 ⟨_, hdefaults, ?_⟩⟩
    exact Invocation.clearBefore_defaults
  · let i : Invocation := ⟨⟨none, ⟨some 0, none, none⟩, none⟩, .compile "d.json" none false⟩
    have hi : Invocation.parse ["--default-m", "0", "compile", "-m", "d.json"] = some i := rfl
    have hloads : i.options.Loads plain ⟨0, 100, 100⟩ := .builtIn rfl
    have hmethod : i.Breaks plain .method
        ⟨"Default value of parameter 'm' does not satisfy its validator", []⟩ :=
      .method hloads rfl
    obtain ⟨hfails, -, hreport, hprinted, -⟩ := run_follows_steps hi plain
    have hcode := hfails.2 ⟨_, _, hmethod⟩
    exact ⟨hcode, hprinted hcode,
      (hreport _).2 ⟨_, hmethod, Invocation.clearBefore_method hloads⟩⟩
  · let i : Invocation := ⟨⟨none, ⟨some 32, none, none⟩, none⟩, .compile "d.json" none true⟩
    have hi : Invocation.parse ["compile", "-m", "d.json", "--as-map", "--default-m", "32"] =
        some i := rfl
    have hload : Definition.load (plain "d.json") = .ok ⟨"hnsw", none, []⟩ := by
      refine (Definition.load_ofText _).trans (Definition.Ordered.ofText_json ?_ ?_)
      · exact ⟨List.Pairwise.nil, trivial⟩
      · decide
    have hnames : i.Names plain ⟨"hnsw", none, []⟩ := .own rfl hload
    have hloads : i.options.Loads plain ⟨32, 100, 100⟩ := .builtIn rfl
    obtain ⟨m, r, hm, hr, hspace, hdescription, htraining⟩ : ∃ (m : Method) (r : Compiled),
        Hnsw.method ⟨32, 100, 100⟩ = .ok m ∧ Definition.compile ⟨"hnsw", none, []⟩ m = .ok r ∧
          r.space = .l2 ∧ r.description = "HNSW32" ∧ r.trainingRequired = false :=
      ⟨_, _, rfl, rfl, rfl, rfl, rfl⟩
    have hcompiles : i.Compiles plain r := .mk ⟨hloads, hm, hnames⟩ hr
    obtain ⟨-, -, -, -, -, hmap, -⟩ := run_follows_steps hi plain
    obtain ⟨r', document, hr', rfl, -, hread, hline⟩ :=
      hmap "d.json" none rfl (hcompiles.run_eq hi rfl).1
    cases hcompiles.unique hr'
    rw [hspace, hdescription, htraining] at hread
    rw [hdescription] at hline
    exact ⟨r, hread, (hline ["--default-m", "32", "compile", "-m", "d.json"] rfl).2⟩

end CommandLine

end VectorIndex
