import VectorIndex.Proofs.CommandLine.Pipeline

/-!
# What the program lists

The describe command lists the spaces and the encoders of the method, and what a
definition without settings compiles to. The compile command takes what is listed and
nothing else.

* `Listing`: what is listed. `Listing.text` is how it is printed, and
  `Listing.eq_of_text_eq` says that it can be read off what is printed.
* `File.Spells`, `plainDocument`, `encoderDocument`: the definitions that the listing
  speaks of, in any spelling.
* `Invocation.exists_compiles_encoder_iff`, `Invocation.exists_compiles_space_iff`: when
  these are compiled.
* `listing_is_accepted`: the listing against the compile command.
-/

namespace VectorIndex

/-! ## Listings -/

namespace CommandLine

/-- What the describe command tells of a method. -/
@[ext]
structure Listing where
  method : String
  spaces : List String
  encoders : List String
  default : String

namespace Listing

/-- How a listing is printed. -/
def text (l : Listing) : String :=
  "method: " ++ l.method ++ "\n" ++
    "spaces: " ++ ", ".intercalate l.spaces ++ "\n" ++
    "encoders: " ++ ", ".intercalate l.encoders ++ "\n" ++
    "default: " ++ l.default ++ "\n"

/-- The name can be told from those beside it. -/
def Plain (name : String) : Prop :=
  name ≠ "" ∧ ',' ∉ name.toList ∧ '\n' ∉ name.toList

instance (name : String) : Decidable (Plain name) :=
  inferInstanceAs (Decidable (name ≠ "" ∧ ',' ∉ name.toList ∧ '\n' ∉ name.toList))

/-- The names in the listing can be told from each other. -/
structure Readable (l : Listing) : Prop where
  method : '\n' ∉ l.method.toList
  spaces : ∀ name ∈ l.spaces, Plain name
  encoders : ∀ name ∈ l.encoders, Plain name

/-- A text is known up to the first mark, and so is what is behind it. -/
theorem eq_of_append_cons_eq {mark : Char} {x y rest rest' : List Char} (hx : mark ∉ x)
    (hy : mark ∉ y) (h : x ++ mark :: rest = y ++ mark :: rest') : x = y ∧ rest = rest' := by
  induction x generalizing y with
  | nil =>
    cases y with
    | nil => exact ⟨rfl, (List.cons.inj h).2⟩
    | cons c y => exact absurd ((List.cons.inj h).1 ▸ List.mem_cons_self) hy
  | cons c x ih =>
    cases y with
    | nil => exact absurd ((List.cons.inj h).1 ▸ List.mem_cons_self) hx
    | cons c' y =>
      rw [List.cons_append, List.cons_append, List.cons.injEq] at h
      obtain ⟨rfl, h⟩ := h
      rw [List.mem_cons, not_or] at hx hy
      obtain ⟨rfl, hrest⟩ := ih hx.2 hy.2 h
      exact ⟨rfl, hrest⟩

/-- The names behind the first, each with what separates it from the one before. -/
def others : List String → List Char
  | [] => []
  | name :: names => ',' :: ' ' :: name.toList ++ others names

theorem toList_intercalate_cons (name : String) (names : List String) :
    (", ".intercalate (name :: names)).toList = name.toList ++ others names := by
  induction names generalizing name with
  | nil => simp [others]
  | cons next names ih =>
    rw [String.intercalate_cons_cons, String.toList_append, ih, others]
    simp

theorem eq_of_others_eq {name name' : String} {names names' : List String}
    (h : ∀ n ∈ name :: names, Plain n) (h' : ∀ n ∈ name' :: names', Plain n)
    (heq : name.toList ++ (others names ++ [',']) = name'.toList ++ (others names' ++ [','])) :
    name :: names = name' :: names' := by
  have hname := (h name List.mem_cons_self).2.1
  have hname' := (h' name' List.mem_cons_self).2.1
  induction names generalizing name name' names' with
  | nil =>
    cases names' with
    | nil => rw [String.toList_injective (eq_of_append_cons_eq hname hname' heq).1]
    | cons next' names' => cases (eq_of_append_cons_eq hname hname' heq).2
  | cons next names ih =>
    cases names' with
    | nil => cases (eq_of_append_cons_eq hname hname' heq).2
    | cons next' names' =>
      simp only [others, List.cons_append, List.append_assoc] at heq
      obtain ⟨htext, hrest⟩ := eq_of_append_cons_eq hname hname' heq
      have hnames := List.forall_mem_cons.1 (List.forall_mem_cons.1 h).2
      have hnames' := List.forall_mem_cons.1 (List.forall_mem_cons.1 h').2
      rw [String.toList_injective htext, ih (List.forall_mem_cons.1 h).2
        (List.forall_mem_cons.1 h').2 (List.cons.inj hrest).2 hnames.1.2.1 hnames'.1.2.1]

/-- Names that can be told from each other are known from how they are printed. -/
theorem eq_of_intercalate_eq {names names' : List String} (h : ∀ n ∈ names, Plain n)
    (h' : ∀ n ∈ names', Plain n) (heq : ", ".intercalate names = ", ".intercalate names') :
    names = names' := by
  have hempty : ∀ name names, Plain name → ", ".intercalate (name :: names) ≠ "" := by
    intro name names hname heq
    have htext := congrArg String.toList heq
    rw [toList_intercalate_cons, String.toList_empty, List.append_eq_nil_iff] at htext
    exact hname.1 (String.toList_injective htext.1)
  cases names with
  | nil =>
    cases names' with
    | nil => rfl
    | cons name' names' =>
      exact absurd heq.symm (hempty name' names' (h' name' List.mem_cons_self))
  | cons name names =>
    cases names' with
    | nil => exact absurd heq (hempty name names (h name List.mem_cons_self))
    | cons name' names' =>
      refine eq_of_others_eq h h' ?_
      rw [← List.append_assoc, ← List.append_assoc, ← toList_intercalate_cons,
        ← toList_intercalate_cons, heq]

theorem newline_notMem_intercalate {names : List String} (h : ∀ n ∈ names, Plain n) :
    '\n' ∉ (", ".intercalate names).toList := by
  have hothers : ∀ names : List String, (∀ n ∈ names, Plain n) → '\n' ∉ others names := by
    intro names h
    induction names with
    | nil => exact List.not_mem_nil
    | cons name names ih =>
      obtain ⟨hname, hnames⟩ := List.forall_mem_cons.1 h
      simp [others, hname.2.2, ih hnames]
  cases names with
  | nil => exact List.not_mem_nil
  | cons name names =>
    obtain ⟨hname, hnames⟩ := List.forall_mem_cons.1 h
    rw [toList_intercalate_cons, List.mem_append, not_or]
    exact ⟨hname.2.2, hothers names hnames⟩

/-- A line and what is behind it. -/
def line (label content rest : String) : String :=
  label ++ (content ++ ("\n" ++ rest))

theorem text_eq_lines (l : Listing) :
    l.text = line "method: " l.method (line "spaces: " (", ".intercalate l.spaces)
      (line "encoders: " (", ".intercalate l.encoders) (line "default: " l.default ""))) := by
  unfold text line
  rw [String.append_empty]
  simp only [String.append_assoc]

theorem eq_of_line_eq {label content content' rest rest' : String}
    (h : '\n' ∉ content.toList) (h' : '\n' ∉ content'.toList)
    (heq : line label content rest = line label content' rest') :
    content = content' ∧ rest = rest' := by
  have hlist := congrArg String.toList heq
  simp only [line, String.toList_append, List.append_right_inj] at hlist
  obtain ⟨hcontent, hrest⟩ := eq_of_append_cons_eq h h' hlist
  exact ⟨String.toList_injective hcontent, String.toList_injective hrest⟩

/-- A readable listing is known from how it is printed. -/
theorem eq_of_text_eq {l l' : Listing} (h : l.Readable) (h' : l'.Readable)
    (heq : l.text = l'.text) : l = l' := by
  rw [text_eq_lines, text_eq_lines] at heq
  obtain ⟨hmethod, heq⟩ := eq_of_line_eq h.method h'.method heq
  obtain ⟨hspaces, heq⟩ := eq_of_line_eq (newline_notMem_intercalate h.spaces)
    (newline_notMem_intercalate h'.spaces) heq
  obtain ⟨hencoders, heq⟩ := eq_of_line_eq (newline_notMem_intercalate h.encoders)
    (newline_notMem_intercalate h'.encoders) heq
  have hdefault : l.default = l'.default := by simpa [line] using heq
  exact Listing.ext hmethod (eq_of_intercalate_eq h.spaces h'.spaces hspaces)
    (eq_of_intercalate_eq h.encoders h'.encoders hencoders) hdefault

end Listing

end CommandLine

/-! ## Definitions in any spelling -/

/-- The file holds a text that spells the value. -/
def File.Spells (f : File) (j : Json) : Prop :=
  ∃ text, f.text = .ok text ∧ Json.Grammar.Text text j

/-- A file that spells a value is read as the definition that the value means, unless it
is nested too deeply. -/
theorem File.Spells.load_eq_ok_iff {f : File} {j : Json} {d : Definition} (h : f.Spells j) :
    Definition.load f = .ok d ↔ j.nesting ≤ Json.Reader.maxDepth ∧ j.MeansDefinition d := by
  obtain ⟨text, htext, hspells⟩ := h
  rw [Definition.load, File.read, htext, ← Definition.read_draft_eq_ok_iff,
    ← Json.readText_eq_ok_iff_of_text hspells]
  exact mapError_eq_ok_iff

theorem File.Spells.load_eq {f : File} {j : Json} {d : Definition} (h : f.Spells j)
    (hnesting : j.nesting ≤ Json.Reader.maxDepth) (hmeans : j.MeansDefinition d) :
    Definition.load f = .ok d :=
  h.load_eq_ok_iff.2 ⟨hnesting, hmeans⟩

theorem File.spells_compact {j : Json} (h : j.Exact) : (File.ofText j.compact).Spells j :=
  ⟨j.compact, File.text_ofText _, Json.text_compact h⟩

/-- A definition that names the method and nothing else. -/
def plainDocument : Json :=
  .object [("name", .string "hnsw")]

/-- A definition that names the method and an encoder and nothing else. -/
def encoderDocument (encoder : String) : Json :=
  .object [("name", .string "hnsw"),
    ("parameters", .object [("encoder", .object [("name", .string encoder)])])]

theorem File.Spells.load_plain {f : File} (h : f.Spells plainDocument) :
    Definition.load f = .ok ⟨"hnsw", none, []⟩ := by
  refine h.load_eq (by decide) ?_
  exact .mk (.byName (by simp) (by simp)) rfl .absent .absent

theorem File.Spells.load_encoder {f : File} {encoder : String}
    (h : f.Spells (encoderDocument encoder)) :
    Definition.load f = .ok ⟨"hnsw", none, [("encoder", .component encoder [])]⟩ := by
  have hnesting : (encoderDocument encoder).nesting = 3 := rfl
  refine h.load_eq (by rw [hnesting]; decide) ?_
  have hencoder : Json.MeansSetting (.object [("name", .string encoder)])
      (.component encoder []) :=
    .component (.mk (.byName (by simp) (by simp)) rfl .absent)
  exact .mk (.byName (by simp) (by simp)) rfl .absent (Json.MembersMean.cons hencoder .nil).settings

theorem Space.parse_eq_ok_iff {name : String} {s : Space} :
    Space.parse name = .ok s ↔ s.name = name := by
  unfold Space.parse
  constructor
  · intro h
    split at h
    · next t ht =>
      cases h
      exact Space.name_of_ofName? ht
    · cases h
  · intro h
    subst h
    rw [Space.ofName?_name]

namespace CommandLine

/-! ## What is compiled -/

section

variable {i : Invocation} {files : String → File} {d : Defaults} {m : Method}

/-- A run compiles a definition if the method takes it. -/
theorem Invocation.exists_compiles_iff (hd : i.options.Loads files d)
    (hm : Hnsw.method d = .ok m) {definition : Definition} (hnames : i.Names files definition) :
    (∃ r, i.Compiles files r) ↔ definition.name = m.name ∧
      definition.effectiveSpace ∈ m.spaces ∧
      ∃ v, m.component.validate definition.selection = .ok v := by
  constructor
  · intro hcompiles
    obtain ⟨r, ⟨hjoins, hr⟩⟩ := hcompiles
    obtain ⟨rfl, rfl⟩ := hjoins.unique ⟨hd, hm, hnames⟩
    obtain ⟨hname, hspace, v, hv, -⟩ := Definition.compile_eq_ok_iff.1 hr
    exact ⟨hname, hspace, v, hv⟩
  · intro haccepted
    obtain ⟨hname, hspace, v, hv⟩ := haccepted
    exact ⟨_, .mk ⟨hd, hm, hnames⟩ (Definition.compile_eq_ok_iff.2 ⟨hname, hspace, v, hv, rfl⟩)⟩

/-- A definition that names an encoder and nothing else compiles if the method offers
the encoder. -/
theorem Invocation.exists_compiles_encoder_iff (hd : i.options.Loads files d)
    (hm : Hnsw.method d = .ok m) {path : String} {asMap : Bool} {encoder : String}
    (hc : i.command = .compile path none asMap)
    (hfile : (files path).Spells (encoderDocument encoder)) :
    (∃ r, i.Compiles files r) ↔ encoder ∈ Encoder.all.map Encoder.name := by
  rw [exists_compiles_iff hd hm (.own hc hfile.load_encoder)]
  obtain ⟨hpositive, rfl⟩ := Hnsw.method_eq_ok_iff.1 hm
  have hchoice : Hnsw.encoderChoice ∈ (Hnsw.schema d).parameters := by
    simp [Hnsw.schema, Component.parameters]
  have haccepted := (Hnsw.built_schema hpositive).sound.exists_validate_alternative_iff hchoice
    "hnsw" encoder
  constructor
  · intro h
    exact haccepted.1 h.2.2
  · intro h
    have hspace : Space.l2 ∈ Hnsw.spaces := by decide
    exact ⟨rfl, hspace, haccepted.2 h⟩

/-- A definition that names the method and nothing else compiles for the spaces that
the method supports. -/
theorem Invocation.exists_compiles_space_iff (hd : i.options.Loads files d)
    (hm : Hnsw.method d = .ok m) {path : String} {asMap : Bool} {space : String}
    (hc : i.command = .compile path (some space) asMap)
    (hfile : (files path).Spells plainDocument) :
    (∃ r, i.Compiles files r) ↔ space ∈ m.spaces.map Space.name := by
  obtain ⟨hpositive, rfl⟩ := Hnsw.method_eq_ok_iff.1 hm
  obtain ⟨v, hv, -⟩ := (Hnsw.built_schema hpositive).sound.exists_validate_plain "hnsw"
  constructor
  · intro h
    obtain ⟨r, ⟨⟨-, hm', hnames⟩, hr⟩⟩ := h
    obtain ⟨-, rfl⟩ := Hnsw.method_eq_ok_iff.1 hm'
    obtain ⟨-, hspace, -⟩ := Definition.compile_eq_ok_iff.1 hr
    cases hnames with
    | own hc' => cases hc.symm.trans hc'
    | other hc' _ hparse =>
      cases hc.symm.trans hc'
      rw [← Space.parse_eq_ok_iff.1 hparse]
      exact List.mem_map_of_mem hspace
  · intro h
    obtain ⟨s, hs, hname⟩ := List.mem_map.1 h
    have hnames := Names.other hc hfile.load_plain (Space.parse_eq_ok_iff.2 hname)
    exact (exists_compiles_iff hd hm hnames).2 ⟨rfl, hs, v, hv⟩

end

/-! ## The listing of a method -/

/-- What is listed of a method, given the values that nothing set comes to. -/
def listing (m : Method) (v : Values) : Listing where
  method := m.name
  spaces := m.spaces.map Space.name
  encoders := (m.component.parameter? Hnsw.encoderParameter).elim [] fun p =>
    p.alternatives.map Component.name
  default := m.description v

theorem commandOutput_eq_text {m : Method} {files : String → File} {v : Values}
    (hv : m.validate (.plain m.name) = .ok v) :
    Invocation.commandOutput m files .describe = .ok (listing m v).text := by
  rw [Invocation.commandOutput_describe, hv]
  rfl

/-- The listing of the method can be read off what is printed. -/
theorem readable_listing (d : Defaults) (v : Values) :
    (listing ⟨Hnsw.schema d, Hnsw.spaces⟩ v).Readable where
  method := by
    show '\n' ∉ "hnsw".toList
    decide
  spaces := by
    show ∀ name ∈ Hnsw.spaces.map Space.name, Listing.Plain name
    decide
  encoders := by
    show ∀ name ∈ Encoder.all.map Encoder.name, Listing.Plain name
    decide

/-- The describe command lists what the compile command takes. Take the runs that work with
the same defaults. If the method can be made of them, what is described can be read as
one listing; its default is what a definition without settings is compiled to, its
encoders are those with which such a definition compiles, and its spaces those for which
it does. Otherwise every run fails, for the defect of the method. -/
theorem listing_is_accepted (d : Defaults) :
    (∀ m, Hnsw.method d = .ok m → ∃ l : Listing, l.Readable ∧
      (∀ l' : Listing, l'.Readable → l'.text = l.text → l' = l) ∧
      ∀ files arguments i, Invocation.parse arguments = some i → i.options.Loads files d →
        (i.command = .describe →
          (run arguments files).exitCode = 0 ∧ (run arguments files).printed = l.text) ∧
        (∀ path, i.command = .compile path none false → (files path).Spells plainDocument →
          (run arguments files).exitCode = 0 ∧
            (run arguments files).printed = l.default ++ "\n") ∧
        (∀ path asMap encoder, i.command = .compile path none asMap →
          (files path).Spells (encoderDocument encoder) →
          ((run arguments files).exitCode = 0 ↔ encoder ∈ l.encoders)) ∧
        ∀ path asMap space, i.command = .compile path (some space) asMap →
          (files path).Spells plainDocument →
          ((run arguments files).exitCode = 0 ↔ space ∈ l.spaces)) ∧
    ∀ defect, Hnsw.method d = .error defect →
      ∀ files arguments i, Invocation.parse arguments = some i → i.options.Loads files d →
        (run arguments files).exitCode = 1 ∧
          (run arguments files).report? = some ⟨defect.message, []⟩ := by
  constructor
  · intro m hm
    obtain ⟨hpositive, rfl⟩ := Hnsw.method_eq_ok_iff.1 hm
    obtain ⟨v, hv, -⟩ := (Hnsw.built_schema hpositive).sound.exists_validate_plain Hnsw.name
    have hreadable := readable_listing d v
    refine ⟨_, hreadable, fun l' hl' htext => Listing.eq_of_text_eq hl' hreadable htext,
      fun files arguments i h hd => ⟨fun hc => ?_, fun path hc hfile => ?_,
        fun path asMap encoder hc hfile => ?_, fun path asMap space hc hfile => ?_⟩⟩
    · have hout : i.output files = .ok (listing ⟨Hnsw.schema d, Hnsw.spaces⟩ v).text := by
        refine Invocation.output_eq_ok_iff.2 ⟨d, _, hd, hm, ?_⟩
        rw [hc]
        exact commandOutput_eq_text hv
      obtain ⟨hcode, hprinted, -⟩ := run_of_output_ok h hout
      exact ⟨hcode, hprinted⟩
    · have hspace : Space.l2 ∈ Hnsw.spaces := by decide
      have hr : Definition.compile ⟨"hnsw", none, []⟩ ⟨Hnsw.schema d, Hnsw.spaces⟩ = .ok _ :=
        Definition.compile_eq_ok_iff.2 ⟨rfl, hspace, v, hv, rfl⟩
      exact Invocation.Compiles.run_eq h (.mk ⟨hd, hm, .own hc hfile.load_plain⟩ hr) hc
    · rw [exitCode_eq_zero_iff_compiles h hc]
      exact Invocation.exists_compiles_encoder_iff hd hm hc hfile
    · rw [exitCode_eq_zero_iff_compiles h hc]
      exact Invocation.exists_compiles_space_iff hd hm hc hfile
  · intro defect hdefect files arguments i h hd
    have hout : i.output files = .error ⟨defect.message, []⟩ :=
      Invocation.output_eq_error_iff.2
        ⟨.method, .method hd hdefect, Invocation.clearBefore_method hd⟩
    exact ⟨(exitCode_eq_one_iff h).2 ⟨_, hout⟩, (report?_eq_some_iff h).2 hout⟩

/-- The listing under another degree, with an encoder and a space in it and others that
are not, and a degree for which there is no method. -/
theorem listing_is_accepted_degree :
    let files : String → File := fun path =>
      .ofText (if path = "sq.json" then encoderDocument "sq"
        else if path = "ivf.json" then encoderDocument "ivf" else plainDocument).compact
    let l : Listing := ⟨"hnsw", ["undefined", "hamming", "l2", "innerproduct"],
      ["flat", "sq", "pq"], "HNSW32"⟩
    let defect : Report := ⟨"Default value of parameter 'm' does not satisfy its validator", []⟩
    (run ["--default-m", "32", "describe"] files).printed = l.text ∧
      (run ["--default-m", "32", "compile", "-m", "d.json"] files).printed = "HNSW32\n" ∧
      (run ["--default-m", "32", "compile", "-m", "sq.json"] files).exitCode = 0 ∧
      (run ["--default-m", "32", "compile", "-m", "ivf.json"] files).exitCode ≠ 0 ∧
      (run ["--default-m", "32", "compile", "-m", "d.json", "--space", "hamming"]
        files).exitCode = 0 ∧
      (run ["--default-m", "32", "compile", "-m", "d.json", "--space", "l1"]
        files).exitCode ≠ 0 ∧
      (run ["--default-m", "0", "describe"] files).report? = some defect ∧
      (run ["--default-m", "0", "compile", "-m", "d.json"] files).report? = some defect := by
  intro files l defect
  let i : Int64 → Command → Invocation := fun degree command =>
    ⟨⟨none, ⟨some degree, none, none⟩, none⟩, command⟩
  have hloads : ∀ degree command, (i degree command).options.Loads files ⟨degree, 100, 100⟩ :=
    fun _ _ => .builtIn rfl
  obtain ⟨m, v, hm, hv, hlisting⟩ : ∃ (m : Method) (v : Values),
      Hnsw.method ⟨32, 100, 100⟩ = .ok m ∧ m.validate (.plain m.name) = .ok v ∧
        listing m v = l := ⟨_, _, rfl, rfl, rfl⟩
  have hplain : (files "d.json").Spells plainDocument :=
    File.spells_compact ⟨trivial, trivial⟩
  have hencoder : ∀ e, (encoderDocument e).Exact := fun e =>
    ⟨trivial, ⟨⟨trivial, trivial⟩, trivial⟩, trivial⟩
  have hsq : (files "sq.json").Spells (encoderDocument "sq") := File.spells_compact (hencoder _)
  have hivf : (files "ivf.json").Spells (encoderDocument "ivf") := File.spells_compact (hencoder _)
  have hreadable : l.Readable := ⟨by decide, by decide, by decide⟩
  obtain ⟨l', -, hunique, hruns⟩ := (listing_is_accepted ⟨32, 100, 100⟩).1 m hm
  have hruns := fun arguments command (h : Invocation.parse arguments = some (i 32 command)) =>
    hruns files arguments (i 32 command) h (hloads 32 command)
  have hout : (i 32 .describe).output files = .ok l.text := by
    refine Invocation.output_eq_ok_iff.2 ⟨_, m, hloads 32 .describe, hm, ?_⟩
    rw [← hlisting]
    exact commandOutput_eq_text hv
  have hprinted : (run ["--default-m", "32", "describe"] files).printed = l.text :=
    (run_of_output_ok rfl hout).2.1
  obtain ⟨hdescribe, -⟩ := hruns ["--default-m", "32", "describe"] .describe rfl
  obtain rfl : l = l' := hunique l hreadable (hprinted.symm.trans (hdescribe rfl).2)
  obtain ⟨-, hdefault, -⟩ := hruns ["--default-m", "32", "compile", "-m", "d.json"]
    (.compile "d.json" none false) rfl
  obtain ⟨-, -, hlisted, -⟩ := hruns ["--default-m", "32", "compile", "-m", "sq.json"]
    (.compile "sq.json" none false) rfl
  obtain ⟨-, -, hunlisted, -⟩ := hruns ["--default-m", "32", "compile", "-m", "ivf.json"]
    (.compile "ivf.json" none false) rfl
  obtain ⟨-, -, -, hhamming⟩ := hruns
    ["--default-m", "32", "compile", "-m", "d.json", "--space", "hamming"]
    (.compile "d.json" (some "hamming") false) rfl
  obtain ⟨-, -, -, hl1⟩ := hruns ["--default-m", "32", "compile", "-m", "d.json", "--space", "l1"]
    (.compile "d.json" (some "l1") false) rfl
  have hnone := (listing_is_accepted ⟨0, 100, 100⟩).2 (.invalidDefault "m") rfl
  have hnone := fun arguments command (h : Invocation.parse arguments = some (i 0 command)) =>
    (hnone files arguments (i 0 command) h (hloads 0 command)).2
  refine ⟨hprinted, (hdefault _ rfl hplain).2, ?_, ?_, ?_, ?_,
    hnone ["--default-m", "0", "describe"] .describe rfl,
    hnone ["--default-m", "0", "compile", "-m", "d.json"] (.compile "d.json" none false) rfl⟩
  · exact (hlisted _ _ _ rfl hsq).2 (by decide)
  · exact fun hcode => absurd ((hunlisted _ _ _ rfl hivf).1 hcode) (by decide)
  · exact (hhamming _ _ _ rfl hplain).2 (by decide)
  · exact fun hcode => absurd ((hl1 _ _ _ rfl hplain).1 hcode) (by decide)

end CommandLine

end VectorIndex
