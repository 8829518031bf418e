import VectorIndex.Proofs.CommandLine.Comparison
import VectorIndex.Proofs.Defaults.Meaning

/-!
# Overrides

A default may be put in place by an option or be written in the file of defaults. The two
ways come to the same: a run with overrides is the run without them whose file holds the
defaults with the overrides put in place.

* `File.HoldsDefaults`: what a file of defaults says, in any spelling.
* `Options.StartsFrom`: the defaults before overrides are put in their place.
* `agrees_of_loads`: runs that work with the same defaults come to the same.
* `getD_pos_iff`, `Invocation.not_breaks_method_iff`: which defaults do no harm.
* `overrides_stand_for_a_file`: all of that together.
-/

namespace VectorIndex

open Json

/-! ## Files of defaults -/

/-- The file holds the defaults: it spells a value that means them. -/
def File.HoldsDefaults (f : File) (d : Defaults) : Prop :=
  ∃ j, f.Spells j ∧ j.MeansDefaults d

theorem Defaults.load_eq_ok_iff {f : File} {d : Defaults} :
    Defaults.load f = .ok d ↔ f.HoldsDefaults d := by
  unfold Defaults.load File.read File.HoldsDefaults File.Spells
  cases f.text with
  | error problem => simp
  | ok text =>
    simp only [mapError_eq_ok_iff, readText_eq_ok_iff]
    constructor
    · intro h
      obtain ⟨j, htext, hmeans⟩ := h
      exact ⟨j, ⟨text, rfl, htext⟩, hmeans⟩
    · intro h
      obtain ⟨j, ⟨_, ⟨⟩, htext⟩, hmeans⟩ := h
      exact ⟨j, htext, hmeans⟩

/-- The compact text of defaults is a file of them. -/
theorem File.holdsDefaults_json (d : Defaults) : (File.ofText d.json.compact).HoldsDefaults d :=
  ⟨d.json, File.spells_compact d.exact_json, d.means_json⟩

namespace CommandLine

/-- The defaults before overrides are put in their place: the built-in ones, or those of the
file that is named. -/
inductive Options.StartsFrom (o : Options) (files : String → File) : Defaults → Prop where
  | builtIn : o.defaultsPath = none → StartsFrom o files ⟨16, 100, 100⟩
  | file {path d} : o.defaultsPath = some path → (files path).HoldsDefaults d →
      StartsFrom o files d

/-- Each override takes the place of its own default. -/
theorem Options.StartsFrom.loads {o : Options} {files : String → File} {d : Defaults}
    (h : o.StartsFrom files d) :
    o.Loads files ⟨o.overrides.m.getD d.m, o.overrides.efConstruction.getD d.efConstruction,
      o.overrides.efSearch.getD d.efSearch⟩ := by
  cases h with
  | builtIn hpath => exact .builtIn hpath
  | file hpath hfile => exact .file hpath (Defaults.load_eq_ok_iff.2 hfile)

/-- Without overrides a run works with the defaults that its file holds. -/
theorem Options.loads_of_holdsDefaults {o : Options} {files : String → File} {d : Defaults}
    {path : String} (hpath : o.defaultsPath = some path) (hnone : o.overrides = ⟨none, none, none⟩)
    (hfile : (files path).HoldsDefaults d) : o.Loads files d := by
  have h := (Options.StartsFrom.file hpath hfile).loads
  rwa [hnone] at h

/-- Runs of the same command that work with the same defaults come to the same. -/
theorem agrees_of_loads {arguments others : List String} {i j : Invocation}
    (h : Invocation.parse arguments = some i) (h' : Invocation.parse others = some j)
    {files files' : String → File} {d : Defaults} (hd : i.options.Loads files d)
    (hd' : j.options.Loads files' d) (hcommand : j.command = i.command)
    (hdocument : ∀ document space asMap, i.command = .compile document space asMap →
      files' document = files document) : (run arguments files).Agrees (run others files') := by
  refine agrees_of_output_eq h h' (Invocation.output_congr ?_ fun m => ?_)
  · rw [Invocation.defaults_eq_ok_iff.2 hd, Invocation.defaults_eq_ok_iff.2 hd']
  · rw [hcommand]
    exact Invocation.commandOutput_congr hdocument m

/-! ## Harm -/

/-- What stands in place of a default is positive if the default is, unless an override is
not; and if the default is not, only if there is an override that is. -/
theorem getD_pos_iff {override : Option Int64} {default : Int64} :
    0 < override.getD default ↔
      (0 < default → ∀ n, override = some n → 0 < n) ∧
      (default ≤ 0 → ∃ n, override = some n ∧ 0 < n) := by
  cases override with
  | none => simp [Int64.not_le]
  | some n =>
    simp only [Option.getD_some, Option.some.injEq, forall_eq', exists_eq_left']
    by_cases hdefault : 0 < default
    · simp [hdefault, Int64.not_le.2 hdefault]
    · simp [hdefault, Int64.not_lt.1 hdefault]

/-- The method is refused unless every default that the run works with is positive. -/
theorem Invocation.not_breaks_method_iff {i : Invocation} {files : String → File} {d : Defaults}
    (hd : i.options.Loads files d) : (∀ r, ¬i.Breaks files .method r) ↔ d.Positive := by
  constructor
  · intro h
    cases hm : Hnsw.method d with
    | error defect => exact absurd (.method hd hm) (h _)
    | ok m => exact (Hnsw.method_eq_ok_iff.1 hm).1
  · intro hpositive r hr
    cases hr with
    | method hd' hdefect =>
      cases hd.unique hd'
      cases (Hnsw.method_eq_ok_iff.2 ⟨hpositive, rfl⟩).symm.trans hdefect

/-! ## The main result -/

/-- Overrides stand for a file of defaults. Take a run that starts from some defaults, be
they built in or from a file, and put its overrides in their place, each for itself. A run
of the same command without overrides comes to the same if its file holds the result, and
there is such a run. So a default that is not positive does harm unless there is a positive
override, and one that is positive does none unless there is an override that is not. A
file that holds no defaults fails the run, whatever the overrides are. -/
theorem overrides_stand_for_a_file {arguments : List String} {i : Invocation}
    (h : Invocation.parse arguments = some i) (files : String → File) :
    (∀ start merged, i.options.StartsFrom files start →
      merged.m = i.options.overrides.m.getD start.m →
      merged.efConstruction = i.options.overrides.efConstruction.getD start.efConstruction →
      merged.efSearch = i.options.overrides.efSearch.getD start.efSearch →
      (∀ others j files' path, Invocation.parse others = some j → j.command = i.command →
        j.options.overrides = ⟨none, none, none⟩ → j.options.defaultsPath = some path →
        (files' path).HoldsDefaults merged →
        (∀ document space asMap, i.command = .compile document space asMap →
          files' document = files document) →
        (run arguments files).Agrees (run others files')) ∧
      (∀ path, path ≠ "" →
        (∀ document space asMap, i.command = .compile document space asMap → document ≠ path) →
        (run arguments files).Agrees (run (assign "settings" path :: i.command.words)
          fun p => if p = path then .ofText merged.json.compact else files p)) ∧
      ((∀ r, ¬i.Breaks files .method r) ↔
        ∀ field ∈ [(i.options.overrides.m, start.m),
            (i.options.overrides.efConstruction, start.efConstruction),
            (i.options.overrides.efSearch, start.efSearch)],
          (0 < field.2 → ∀ n, field.1 = some n → 0 < n) ∧
          (field.2 ≤ 0 → ∃ n, field.1 = some n ∧ 0 < n)) ∧
      ∀ r, i.Breaks files .method r → (run arguments files).exitCode = 1 ∧
        (run arguments files).printed = "" ∧ (run arguments files).report? = some r) ∧
    ∀ path, i.options.defaultsPath = some path → (∀ d, ¬(files path).HoldsDefaults d) →
      (run arguments files).exitCode = 1 ∧ (run arguments files).printed = "" ∧
        ∃ e, (run arguments files).report? =
          some (.within ("failed to load settings from " ++ path) e) := by
  constructor
  · intro start merged hstart hm hconstruction hsearch
    have hloads : i.options.Loads files merged := by
      have hloads := hstart.loads
      rwa [← hm, ← hconstruction, ← hsearch] at hloads
    refine ⟨fun others j files' path h' hcommand hnone hpath hfile hdocument => ?_,
      fun path hpath hdocument => ?_, ?_, fun r hr => ?_⟩
    · -- The other run overrides nothing, so it works with what its file holds.
      have hloads' := Options.loads_of_holdsDefaults hpath hnone hfile
      exact agrees_of_loads h h' hloads hloads' hcommand hdocument
    · have hwords := parse_words hpath fun document space asMap hc => document_ne_empty h hc
      refine agrees_of_loads h hwords hloads (Options.loads_of_holdsDefaults rfl rfl ?_) rfl
        fun document space asMap hc => if_neg (hdocument document space asMap hc)
      rw [if_pos rfl]
      exact File.holdsDefaults_json _
    · rw [Invocation.not_breaks_method_iff hloads, Defaults.Positive, hm, hconstruction, hsearch]
      simp only [List.forall_mem_cons, ← getD_pos_iff, List.not_mem_nil, false_implies,
        implies_true, and_true]
    · exact run_of_breaks h hr (Invocation.clearBefore_method hloads)
  · intro path hpath hnone
    obtain ⟨e, he⟩ : ∃ e, Defaults.load (files path) = .error e :=
      exists_error_of_ne_ok fun d hload => hnone d (Defaults.load_eq_ok_iff.1 hload)
    obtain ⟨hcode, hprinted, hreport⟩ :=
      run_of_breaks h (.defaults hpath he) Invocation.clearBefore_defaults
    exact ⟨hcode, hprinted, e, hreport⟩

/-- A file says that the degree is 0, an option in front of the command that it is 8, and one
behind it that it is 32: the describe command comes to the same as with a file that says 32,
and the method is made. With an option for another default it is not made. If there is no
file, the options do not help. -/
theorem overrides_stand_for_a_file_degree :
    let held : Defaults := ⟨0, 100, 50⟩
    let files : String → File := fun path =>
      if path = "s.json" then .ofText held.json.compact else .unavailable .missing
    let twice : List String :=
      ["--settings", "s.json", "--default-m", "8", "describe", "--default-m", "32"]
    let degree : Invocation := ⟨⟨some "s.json", ⟨some 32, none, none⟩, none⟩, .describe⟩
    let effort : Invocation := ⟨⟨some "s.json", ⟨none, none, some 32⟩, none⟩, .describe⟩
    Invocation.parse twice = some degree ∧
    Invocation.parse ["--settings", "s.json", "--default-ef-search", "32", "describe"] =
      some effort ∧
    (run twice files).Agrees (run ["--settings=merged.json", "describe"] fun path =>
      if path = "merged.json" then .ofText (Defaults.json ⟨32, 100, 50⟩).compact
      else files path) ∧
    (∀ r, ¬degree.Breaks files .method r) ∧
    ¬(∀ r, ¬effort.Breaks files .method r) ∧
    (run twice fun _ => .unavailable .missing).exitCode = 1 := by
  intro held files twice degree effort
  have hdegree : Invocation.parse twice = some degree := rfl
  have heffort : Invocation.parse
      ["--settings", "s.json", "--default-ef-search", "32", "describe"] = some effort := rfl
  have hfile : (files "s.json").HoldsDefaults held := File.holdsDefaults_json held
  have hmissing : ∀ d, ¬(File.unavailable .missing).HoldsDefaults d := by
    intro d hd
    cases Defaults.load_eq_ok_iff.2 hd
  obtain ⟨-, hagrees, hmade, -⟩ := (overrides_stand_for_a_file hdegree files).1 held ⟨32, 100, 50⟩
    (.file rfl hfile) rfl rfl rfl
  obtain ⟨-, -, hnot, -⟩ := (overrides_stand_for_a_file heffort files).1 held ⟨0, 100, 32⟩
    (.file rfl hfile) rfl rfl rfl
  refine ⟨hdegree, heffort, hagrees "merged.json" (by decide) nofun,
    hmade.2 (by simp [degree, held]), fun h => absurd (hnot.1 h) (by simp [effort, held]), ?_⟩
  exact ((overrides_stand_for_a_file hdegree fun _ => .unavailable .missing).2 "s.json" rfl
    hmissing).1

end CommandLine

end VectorIndex
