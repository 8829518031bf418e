import VectorIndex.Proofs.Definition.Compilation
import VectorIndex.Proofs.Hnsw
import VectorIndex.Proofs.Schema.Extension

/-!
# Definitions under extended schemas

A method whose component is extended still compiles every definition that it
compiled before, for the same space and to the same description.

* `Component.ExtendedBy.conservative`: the checked values of a selection.
* `Definition.compile_of_extendedBy`: the compiled form of a definition.
* `extension_conservative`: both, for components that can be built.
-/

namespace VectorIndex

/-- Whatever a component accepts its extension accepts too. The values are kept, their
description is the same, and so is the need for training. -/
theorem Component.ExtendedBy.conservative {c d : Component} (h : c.ExtendedBy d) (hc : c.Built)
    (hd : d.Built) {s : Selection} {v : Values} (hv : c.validate s = .ok v) :
    ∃ w, d.validate s = .ok w ∧ w.name = v.name ∧ d.Keeps v.entries w.entries ∧
      d.description w = c.description v ∧
      (c.trainingRequired v = true → d.trainingRequired w = true) := by
  obtain ⟨w, hw, hkeeps⟩ := h.exists_validate hc.sound hd.sound hv
  have hv := hc.owns hv
  have hw' := hd.owns hw
  refine ⟨w, hw, ?_, hkeeps, h.description_eq hv hw' hkeeps, h.trainingRequired hv hw' hkeeps⟩
  rw [hv.name_eq, hw'.name_eq, h.name_eq]

/-- A definition that compiles still compiles when the component of the method is
extended. -/
theorem Definition.compile_of_extendedBy {c d : Component} (h : c.ExtendedBy d) (hc : c.Built)
    (hd : d.Built) {definition : Definition} {spaces : List Space} {r : Compiled}
    (hr : definition.compile ⟨c, spaces⟩ = .ok r) :
    ∃ r', definition.compile ⟨d, spaces⟩ = .ok r' ∧ r'.space = r.space ∧
      d.Keeps r.values.entries r'.values.entries ∧ r'.description = r.description ∧
      (r.trainingRequired = true → r'.trainingRequired = true) := by
  obtain ⟨hname, hspace, v, hv, rfl⟩ := compile_eq_ok_iff.1 hr
  obtain ⟨w, hw, -, hkeeps, hdescription, htraining⟩ := h.conservative hc hd hv
  have hname' : definition.name = d.name := hname.trans h.name_eq.symm
  refine ⟨_, compile_eq_ok_iff.2 ⟨hname', hspace, w, hw, rfl⟩, rfl, hkeeps, ?_, htraining⟩
  exact congrArg (Option.getD · "") hdescription

/-- Extending a schema is conservative: an accepted selection is still accepted, with
the values it had and defaults for what is new, under the same description; and a
definition that compiles still compiles for the same space, to the same description.
Training stays needed where it was. -/
theorem extension_conservative {c d : Component} (hc : c.Built) (hd : d.Built)
    (h : c.ExtendedBy d) :
    (∀ (s : Selection) (v : Values), c.validate s = .ok v →
      ∃ w, d.validate s = .ok w ∧ w.name = v.name ∧ d.Keeps v.entries w.entries ∧
        d.description w = c.description v ∧
        (c.trainingRequired v = true → d.trainingRequired w = true)) ∧
    ∀ (definition : Definition) (spaces : List Space) (r : Compiled),
      definition.compile ⟨c, spaces⟩ = .ok r →
      ∃ r', definition.compile ⟨d, spaces⟩ = .ok r' ∧ r'.space = r.space ∧
        d.Keeps r.values.entries r'.values.entries ∧ r'.description = r.description ∧
        (r.trainingRequired = true → r'.trainingRequired = true) :=
  ⟨fun _ _ hv => h.conservative hc hd hv,
    fun _ _ _ hr => Definition.compile_of_extendedBy h hc hd hr⟩

/-- A component that sorts vectors into cells and has an encoder store them, with further
parameters in front. -/
def cells (front : List Parameter) (encoders : List Component) : Except Defect Component := do
  let count ← Parameter.ofInteger "nlist" 4 (0 < ·)
  let encoder ← Parameter.ofChoice "encoder" (.plain "sq") encoders
  Component.Builder.build
    ⟨"ivf", front ++ [count, encoder],
      some ⟨"IVF", [⟨"nlist", "", ""⟩, ⟨"encoder", ",", ""⟩]⟩, false⟩

theorem built_cells {front : List Parameter} {encoders : List Component} {c : Component}
    (hfront : ∀ p ∈ front, p.Built) (hencoders : ∀ a ∈ encoders, a.Built)
    (h : cells front encoders = .ok c) : c.Built := by
  simp only [cells, bind_eq_ok_iff] at h
  obtain ⟨count, hcount, encoder, hencoder, h⟩ := h
  refine .of_build (List.forall_mem_append.2 ⟨hfront, ?_⟩) h
  exact List.forall_mem_cons.2
    ⟨.ofInteger hcount, List.forall_mem_singleton.2 (.ofChoice hencoders hencoder)⟩

/-- The 16-bit encoder with its format alone. -/
def formatOnly : Component :=
  .mk "sq" [.text "type" "fp16" Encoder.formats.contains] (some ⟨"SQ", [⟨"type", "", ""⟩]⟩) false

theorem built_formatOnly : formatOnly.Built := by
  have hformat : Parameter.ofText "type" "fp16" Encoder.formats.contains =
      .ok (.text "type" "fp16" Encoder.formats.contains) := rfl
  exact .of_build (b := ⟨"sq", formatOnly.parameters, formatOnly.template, false⟩)
    (List.forall_mem_singleton.2 (.ofText hformat)) rfl

/-- The cells get a parameter in front and an encoder in front of theirs, and that one
the parameter which it lacked. -/
theorem extension_conservative_cells :
    ∃ (c d : Component) (v w : Values), cells [] [formatOnly] = .ok c ∧
      cells [.integer "nprobe" 1 (0 < ·)] [Encoder.pq.schema, Encoder.sq.schema] = .ok d ∧
      c.Built ∧ d.Built ∧ c.ExtendedBy d ∧
      c.validate ⟨"ivf", [("encoder", .component "sq" [("type", .text "bf16")])]⟩ = .ok v ∧
      v.entries = [("nlist", .integer 4), ("encoder", .component "sq" [("type", .text "bf16")])] ∧
      d.validate ⟨"ivf", [("encoder", .component "sq" [("type", .text "bf16")])]⟩ = .ok w ∧
      w.entries = [("nprobe", .integer 1), ("nlist", .integer 4),
        ("encoder", .component "sq" [("type", .text "bf16"), ("clip", .boolean false)])] ∧
      d.Keeps v.entries w.entries ∧ c.description v = some "IVF4,SQbf16" ∧
      d.description w = some "IVF4,SQbf16" := by
  obtain ⟨c, d, v, w, hc, hd, hextended, hv, hentries, hw, hentries', hdescription⟩ :
      ∃ (c d : Component) (v w : Values), cells [] [formatOnly] = .ok c ∧
        cells [.integer "nprobe" 1 (0 < ·)] [Encoder.pq.schema, Encoder.sq.schema] = .ok d ∧
        c.ExtendedBy d ∧
        c.validate ⟨"ivf", [("encoder", .component "sq" [("type", .text "bf16")])]⟩ = .ok v ∧
        v.entries =
          [("nlist", .integer 4), ("encoder", .component "sq" [("type", .text "bf16")])] ∧
        d.validate ⟨"ivf", [("encoder", .component "sq" [("type", .text "bf16")])]⟩ = .ok w ∧
        w.entries = [("nprobe", .integer 1), ("nlist", .integer 4),
          ("encoder", .component "sq" [("type", .text "bf16"), ("clip", .boolean false)])] ∧
        c.description v = some "IVF4,SQbf16" := by
    have hformat : Parameter.ExtendedBy (.text "type" "fp16" Encoder.formats.contains)
        (.text "type" "fp16" Encoder.formats.contains) := .scalar (by simp [Parameter.kind])
    have hcount : Parameter.ExtendedBy (.integer "nlist" 4 (0 < ·))
        (.integer "nlist" 4 (0 < ·)) := .scalar (by simp [Parameter.kind])
    have hencoder : Component.ExtendedBy formatOnly Encoder.sq.schema := .mk (.cons hformat .nil)
    refine ⟨_, _, _, _, rfl, rfl, ?_, rfl, rfl, rfl, rfl, rfl⟩
    exact .mk (.cons_right (.cons hcount (.cons (.choice (.cons_right (.cons hencoder .nil))) .nil)))
  have hcbuilt : c.Built :=
    built_cells (List.forall_mem_nil _) (List.forall_mem_singleton.2 built_formatOnly) hc
  have hprobes : Parameter.ofInteger "nprobe" 1 (0 < ·) = .ok (.integer "nprobe" 1 (0 < ·)) := rfl
  have hdbuilt : d.Built :=
    built_cells (List.forall_mem_singleton.2 (.ofInteger hprobes))
      (List.forall_mem_cons.2 ⟨Encoder.built (Encoder.component_eq _),
        List.forall_mem_singleton.2 (Encoder.built (Encoder.component_eq _))⟩) hd
  obtain ⟨w', hw', -, hkeeps, hsame, -⟩ :=
    (extension_conservative hcbuilt hdbuilt hextended).1 _ v hv
  obtain rfl : w = w' := Except.ok.inj (hw.symm.trans hw')
  exact ⟨c, d, v, w, hc, hd, hcbuilt, hdbuilt, hextended, hv, hentries, hw, hentries', hkeeps,
    hdescription, hsame.trans hdescription⟩

end VectorIndex
