import VectorIndex.Proofs.CommandLine.Arguments
import VectorIndex.Proofs.CommandLine.Listing

/-!
# Runs that come to the same

What two runs have to share in order to come to the same, and how a command line is
written that asks for a given run.

* `Outcome.Agrees`: two outcomes are the same but for their journals.
* `Invocation.SameDefaults`: two runs have the same settings for the defaults, and so work
  with the same ones or fail alike (`SameDefaults.defaults_eq`).
* `Invocation.output_congr`: runs with the same defaults and the same command come to the
  same if they find the same definition.
* `Command.words`: the words that ask for a command. `parse_words` says that they are
  understood.
-/

namespace VectorIndex.CommandLine

/-! ## Outcomes -/

/-- Two outcomes have the same exit code, the same text and the same report. -/
structure Outcome.Agrees (a b : Outcome) : Prop where
  exitCode : a.exitCode = b.exitCode
  printed : a.printed = b.printed
  report? : a.report? = b.report?

section

variable {arguments others : List String} {i j : Invocation} {files files' : String → File}

theorem agrees_of_output_eq (h : Invocation.parse arguments = some i)
    (h' : Invocation.parse others = some j) (hout : i.output files = j.output files') :
    (run arguments files).Agrees (run others files') := by
  cases hj : j.output files' with
  | ok text =>
    obtain ⟨hcode, hprinted, hreport⟩ := run_of_output_ok h (hout.trans hj)
    obtain ⟨hcode', hprinted', hreport'⟩ := run_of_output_ok h' hj
    exact ⟨hcode.trans hcode'.symm, hprinted.trans hprinted'.symm, hreport.trans hreport'.symm⟩
  | error r =>
    obtain ⟨hcode, hprinted, hreport⟩ := run_of_output_error h (hout.trans hj)
    obtain ⟨hcode', hprinted', hreport'⟩ := run_of_output_error h' hj
    exact ⟨hcode.trans hcode'.symm, hprinted.trans hprinted'.symm, hreport.trans hreport'.symm⟩

/-- Two runs that print the same, if they print at all, have the same exit code. -/
theorem exitCode_printed_eq (h : Invocation.parse arguments = some i)
    (h' : Invocation.parse others = some j)
    (hout : ∀ text, i.output files = .ok text ↔ j.output files' = .ok text) :
    (run arguments files).exitCode = (run others files').exitCode ∧
      (run arguments files).printed = (run others files').printed := by
  cases hi : i.output files with
  | ok text =>
    have hagrees := agrees_of_output_eq h h' (hi.trans ((hout text).1 hi).symm)
    exact ⟨hagrees.exitCode, hagrees.printed⟩
  | error r =>
    cases hj : j.output files' with
    | ok text => cases hi.symm.trans ((hout text).2 hj)
    | error r' =>
      obtain ⟨hcode, hprinted, -⟩ := run_of_output_error h hi
      obtain ⟨hcode', hprinted', -⟩ := run_of_output_error h' hj
      exact ⟨hcode.trans hcode'.symm, hprinted.trans hprinted'.symm⟩

/-- A step that fails with none before it ends the run. -/
theorem run_of_breaks (h : Invocation.parse arguments = some i) {s : Step} {r : Report}
    (hr : i.Breaks files s r) (hclear : i.ClearBefore files s) :
    (run arguments files).exitCode = 1 ∧ (run arguments files).printed = "" ∧
      (run arguments files).report? = some r :=
  run_of_output_error h (Invocation.output_eq_error_iff.2 ⟨s, hr, hclear⟩)

end

/-! ## Runs -/

namespace Invocation

variable {i j : Invocation} {files files' : String → File}

/-- Two runs find the same settings for the defaults. -/
structure SameDefaults (i j : Invocation) (files files' : String → File) : Prop where
  path_eq : j.options.defaultsPath = i.options.defaultsPath
  overrides_eq : j.options.overrides = i.options.overrides
  file_eq : ∀ path, i.options.defaultsPath = some path → files' path = files path

theorem SameDefaults.defaults_eq (h : i.SameDefaults j files files') :
    i.defaults files = j.defaults files' := by
  cases hpath : i.options.defaultsPath with
  | none =>
    rw [defaults_of_none hpath, defaults_of_none (h.path_eq.trans hpath), h.overrides_eq]
  | some path =>
    rw [defaults_of_some hpath, defaults_of_some (h.path_eq.trans hpath), h.overrides_eq,
      h.file_eq path hpath]

theorem SameDefaults.loads_iff (h : i.SameDefaults j files files') {d : Defaults} :
    i.options.Loads files d ↔ j.options.Loads files' d := by
  rw [← defaults_eq_ok_iff, ← defaults_eq_ok_iff, h.defaults_eq]

/-- Runs come to the same if they work with the same defaults and their commands come to
the same. -/
theorem output_congr (hdefaults : i.defaults files = j.defaults files')
    (hcommand : ∀ m, commandOutput m files i.command = commandOutput m files' j.command) :
    i.output files = j.output files' := by
  rw [output_eq, output_eq, hdefaults]
  simp only [hcommand]

/-- The compile command comes to the same if it has the same definition. -/
theorem commandOutput_compile_congr {path path' : String} {space space' : Option String}
    (h : definition files path space = definition files' path' space') (m : Method)
    (asMap : Bool) :
    commandOutput m files (.compile path space asMap) =
      commandOutput m files' (.compile path' space' asMap) := by
  rw [commandOutput_compile, commandOutput_compile, h]

/-- A command reads one file at most, the one with the definition. -/
theorem commandOutput_congr {c : Command}
    (h : ∀ path space asMap, c = .compile path space asMap → files' path = files path)
    (m : Method) : commandOutput m files c = commandOutput m files' c := by
  cases c with
  | describe => rfl
  | compile path space asMap =>
    refine commandOutput_compile_congr ?_ m asMap
    rw [definition, definition, h path space asMap rfl]

end Invocation

/-! ## Command lines -/

/-- An option with its value behind an equals sign. -/
def assign (option value : String) : String :=
  "--" ++ option ++ "=" ++ value

/-- The words that ask for a command. -/
def Command.words : Command → List String
  | .compile path space asMap =>
    "compile" :: assign "method" path :: space.toList.map (assign "space") ++
      if asMap then ["--as-map"] else []
  | .describe => ["describe"]

/-- The options that the words of a command give. -/
def Command.given : Command → List (String × String)
  | .compile path space asMap =>
    ("method", path) :: (space.toList.map fun name => ("space", name)) ++
      if asMap then [("as-map", "")] else []
  | .describe => []

theorem gives_words {path : String} {space : Option String} {asMap : Bool} :
    Gives (optionsOf "compile") (Command.compile path space asMap).words.tail
      ⟨(Command.compile path space asMap).given, none⟩ := by
  have hmethod : ⟨"method", some 'm', true⟩ ∈ optionsOf "compile" := by decide
  have hspace : ⟨"space", none, true⟩ ∈ optionsOf "compile" := by decide
  have hmap : ⟨"as-map", none, false⟩ ∈ optionsOf "compile" := by decide
  have hlast : Gives (optionsOf "compile") (if asMap then ["--as-map"] else [])
      ⟨if asMap then [("as-map", "")] else [], none⟩ := by
    cases asMap with
    | false => exact .nothing
    | true => exact .flag hmap rfl .name .nothing
  cases space with
  | none => exact .value hmethod rfl .nameValue hlast
  | some name => exact .value hmethod rfl .nameValue (.value hspace rfl .nameValue hlast)

/-- The words of a command, with a file for the defaults in front of them, are understood. -/
theorem parse_words {path : String} (hpath : path ≠ "") {c : Command}
    (hc : ∀ document space asMap, c = .compile document space asMap → document ≠ "") :
    Invocation.parse (assign "settings" path :: c.words) =
      some ⟨⟨some path, ⟨none, none, none⟩, none⟩, c⟩ := by
  have hsettings : ⟨"settings", none, true⟩ ∈ programOptions := by decide
  have houter : Options.Reads [("settings", path)] ⟨some path, ⟨none, none, none⟩, none⟩ :=
    ⟨rfl, fun heq => hpath (Option.some.inj heq), rfl, rfl, rfl, rfl⟩
  have hfront : ∀ name rest, looksLikeOption name = false →
      Gives programOptions (assign "settings" path :: name :: rest)
        ⟨[("settings", path)], some (name, rest)⟩ :=
    fun name rest hname => .value hsettings rfl .nameValue (.word hname)
  have husable : Usable [("settings", path)] := ⟨by simp, _, houter⟩
  rw [Invocation.parse_eq_some_iff]
  cases c with
  | describe =>
    have hinner : Options.Reads [] ⟨none, ⟨none, none, none⟩, none⟩ := Options.reads_none (by simp)
    exact ⟨_, "describe", [], [], hfront _ _ rfl, husable, .nothing, ⟨by simp, _, hinner⟩,
      houter.orElse hinner, .describe⟩
  | compile document space asMap =>
    have hinner : Options.Reads (Command.compile document space asMap).given
        ⟨none, ⟨none, none, none⟩, none⟩ := by
      refine Options.reads_none ?_
      cases space <;> cases asMap <;> simp [Command.given, programOptions]
    have hdistinct : ((Command.compile document space asMap).given.map Prod.fst).Nodup := by
      cases space <;> cases asMap <;> simp [Command.given]
    have hcommand : (Command.compile document space asMap).Reads
        (Command.compile document space asMap).given "compile" := by
      have hne := hc _ _ _ rfl
      cases space <;> cases asMap <;> exact .compile rfl hne
    exact ⟨_, "compile", _, _, hfront _ _ rfl, husable, gives_words, ⟨hdistinct, _, hinner⟩,
      houter.orElse hinner, hcommand⟩

/-- A command line names a definition by a path that is not empty. -/
theorem document_ne_empty {arguments : List String} {i : Invocation}
    (h : Invocation.parse arguments = some i) {document : String} {space : Option String}
    {asMap : Bool} (hc : i.command = .compile document space asMap) : document ≠ "" := by
  obtain ⟨_, _, _, behind, -, -, -, -, -, hreads⟩ := Invocation.parse_eq_some_iff.1 h
  rw [hc] at hreads
  cases hreads with
  | compile _ hne => exact hne

end VectorIndex.CommandLine
