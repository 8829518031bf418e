import VectorIndex.CommandLine.Program
import VectorIndex.Proofs.Hnsw
import VectorIndex.Proofs.Schema.Description

/-!
# Journals without warnings

The one event that is a warning tells of a slot without a value. A program that
describes a method's own values never meets such a slot, so no run of it warns
(`CommandLine.quiet_of_run`).

* `Quiet`: no event is a warning.
* `Component.quiet_journal`, `Hnsw.quiet_journal`: checking and building.
* `Method.quiet_describeJournal`, `Definition.quiet_journal`: describing and
  compiling what the method returned.
-/

namespace VectorIndex

/-- None of the events is a warning. -/
def Quiet (events : List Event) : Prop :=
  ∀ e ∈ events, e.level ≠ .warn

theorem quiet_nil : Quiet [] := fun _ h => absurd h List.not_mem_nil

theorem quiet_cons {e : Event} {events : List Event} :
    Quiet (e :: events) ↔ e.level ≠ .warn ∧ Quiet events :=
  List.forall_mem_cons

theorem quiet_append {xs ys : List Event} : Quiet (xs ++ ys) ↔ Quiet xs ∧ Quiet ys :=
  List.forall_mem_append

theorem quiet_flatMap {α : Type} {items : List α} {events : α → List Event}
    (h : ∀ x ∈ items, Quiet (events x)) : Quiet (items.flatMap events) := by
  intro e he
  obtain ⟨x, hx, hmem⟩ := List.mem_flatMap.1 he
  exact h x hx e hmem

/-! ## Checking -/

theorem quiet_journalIn {alternatives : List Component}
    (h : ∀ a ∈ alternatives, ∀ s, Quiet (a.journal s)) (s : Selection) :
    Quiet (journalIn alternatives s) := by
  induction alternatives with
  | nil => exact quiet_nil
  | cons a rest ih =>
    obtain ⟨ha, hrest⟩ := List.forall_mem_cons.1 h
    unfold journalIn
    split
    · exact ha s
    · exact ih hrest

theorem Parameter.quiet_journal_of_alternatives {p : Parameter}
    (h : ∀ a ∈ p.alternatives, ∀ s, Quiet (a.journal s)) (x : Setting) :
    Quiet (p.journal x) := by
  unfold journal
  split
  · exact quiet_cons.2 ⟨nofun, quiet_journalIn h _⟩
  · exact quiet_cons.2 ⟨nofun, quiet_nil⟩

theorem quiet_journalAll {parameters : List Parameter}
    (h : ∀ p ∈ parameters, ∀ x, Quiet (p.journal x)) (s : Selection) :
    Quiet (journalAll parameters s) := by
  induction parameters with
  | nil => exact quiet_nil
  | cons p rest ih =>
    obtain ⟨hp, hrest⟩ := List.forall_mem_cons.1 h
    rw [journalAll, quiet_append]
    refine ⟨hp _, ?_⟩
    split
    · exact ih hrest
    · exact quiet_nil

/-- Checking does not warn, whatever is checked by whatever component. -/
theorem Component.quiet_journal (c : Component) (s : Selection) : Quiet (c.journal s) := by
  induction c using Component.induction generalizing s with
  | step c ih =>
    have hparameters : ∀ p ∈ c.parameters, ∀ x, Quiet (p.journal x) :=
      fun p hp => Parameter.quiet_journal_of_alternatives (ih p hp)
    obtain ⟨name, parameters, template, training⟩ := c
    rw [journal, quiet_append]
    refine ⟨quiet_journalAll hparameters s, ?_⟩
    split
    · exact quiet_cons.2 ⟨nofun, quiet_nil⟩
    · exact quiet_nil

theorem Parameter.quiet_journal (p : Parameter) (x : Setting) : Quiet (p.journal x) :=
  p.quiet_journal_of_alternatives (fun a _ => a.quiet_journal) x

/-! ## Building the method -/

theorem Encoder.quiet_journal (e : Encoder) : Quiet e.journal := by
  unfold journal
  split
  · exact quiet_flatMap fun p _ => p.quiet_journal p.default
  · exact quiet_nil

namespace Hnsw

theorem quiet_knobsJournal {after : List Event} (h : Quiet after)
    (knobs : List (String × Int64)) : Quiet (knobsJournal knobs after) := by
  induction knobs with
  | nil => exact h
  | cons one rest ih =>
    refine quiet_cons.2 ⟨nofun, ?_⟩
    split
    · exact ih
    · exact quiet_nil

theorem quiet_encoderJournal : Quiet encoderJournal := by
  unfold encoderJournal
  rw [quiet_append]
  refine ⟨quiet_flatMap fun e _ => e.quiet_journal, ?_⟩
  split
  · next p _ => exact p.quiet_journal p.default
  · exact quiet_nil

theorem quiet_journal (d : Defaults) : Quiet (journal d) := by
  refine quiet_knobsJournal ?_ _
  rw [quiet_append]
  exact ⟨quiet_encoderJournal, quiet_cons.2 ⟨nofun, quiet_nil⟩⟩

end Hnsw

/-! ## Describing and compiling -/

/-- Describing the values that a built method returned does not warn. -/
theorem Method.quiet_describeJournal {m : Method} (hm : m.component.Built) {s : Selection}
    {v : Values} (hv : m.validate s = .ok v) : Quiet (m.describeJournal v) := by
  rw [describeJournal, (hm.owns hv).gaps_eq_nil, List.map_nil, List.nil_append]
  exact quiet_cons.2 ⟨nofun, quiet_nil⟩

/-- Compiling a definition by a built method does not warn. -/
theorem Definition.quiet_journal {m : Method} (hm : m.component.Built) (d : Definition) :
    Quiet (d.journal m) := by
  unfold journal
  split
  · exact quiet_nil
  · rw [quiet_append]
    refine ⟨m.component.quiet_journal d.selection, ?_⟩
    split
    · exact quiet_nil
    · next v hv =>
      exact quiet_append.2 ⟨Method.quiet_describeJournal hm hv, quiet_cons.2 ⟨nofun, quiet_nil⟩⟩

/-! ## Runs of the program -/

namespace CommandLine

theorem Invocation.built_of_method {d : Defaults} {m : Method}
    (h : Invocation.method d = .ok m) : m.component.Built := by
  unfold Invocation.method Hnsw.method at h
  cases hc : Hnsw.component d with
  | error e =>
    rw [hc] at h
    exact nomatch h
  | ok c =>
    rw [hc] at h
    cases h
    exact Hnsw.built hc

theorem Invocation.quiet_commandJournal {m : Method} (hm : m.component.Built)
    (files : String → File) (command : Command) :
    Quiet (Invocation.commandJournal m files command) := by
  unfold Invocation.commandJournal
  split
  · rw [quiet_append]
    refine ⟨m.component.quiet_journal _, ?_⟩
    split
    · next v hv => exact Method.quiet_describeJournal hm hv
    · exact quiet_nil
  · split
    · next d _ => exact d.quiet_journal hm
    · exact quiet_nil

theorem Invocation.quiet_events (i : Invocation) (files : String → File) :
    Quiet (i.events files) := by
  unfold Invocation.events
  split
  · exact quiet_nil
  · next d _ =>
    refine quiet_append.2 ⟨quiet_cons.2 ⟨nofun, Hnsw.quiet_journal d⟩, ?_⟩
    split
    · exact quiet_nil
    · next m hm => exact Invocation.quiet_commandJournal (built_of_method hm) files i.command

/-- No run of the program warns, at any level of its journal. -/
theorem quiet_of_run {arguments : List String} {files : String → File}
    {action : Action Unit} {journal : List Event}
    (h : run arguments files = .ran action journal) : Quiet journal := by
  unfold run at h
  split at h
  · exact nomatch h
  · next i _ =>
    cases h
    exact fun e he => i.quiet_events files e (List.mem_of_mem_filter he)

end CommandLine

/-! ## Own values compile as they stand -/

/-- Wherever describing, mapping and training come to in the values that a built
component returned, every slot has a value, and every component there is put
into the map and asked for training by the alternative that it selects. The
description is the keyword and what each slot shows. So no run of the program
warns. -/
theorem own_values_compile :
    (∀ c : Component, c.Built → ∀ s v, c.validate s = .ok v → ∀ b w, Visits c v b w →
      (∀ t, b.template = some t → ∀ slot ∈ t.slots, ∃ x, w.get? slot.name = some x) ∧
      (∀ k selected inner, (k, .component selected inner) ∈ w.entries →
        ∃ p a, b.parameter? k = some p ∧ p.alternative? selected = some a ∧
          settingMap b k (.component selected inner) =
            some (mapObject a.name (settingsMap a inner)) ∧
          settingTrains b k (.component selected inner) =
            a.trainingRequired ⟨selected, inner⟩) ∧
      b.gaps w = [] ∧
      ∀ t, b.template = some t → ∃ pieces, List.Forall₂ (Slot.Shows b w) t.slots pieces ∧
        b.description w = some (t.keyword ++ String.join pieces)) ∧
    ∀ arguments files action journal,
      CommandLine.run arguments files = .ran action journal → ∀ e ∈ journal, e.level ≠ .warn := by
  refine ⟨fun c hc s v hv b w hvisits => ?_, fun _ _ _ _ h => CommandLine.quiet_of_run h⟩
  have howns := hvisits.owns (hc.owns hv)
  refine ⟨fun t ht slot hslot => ?_, fun k selected inner hmem => ?_,
    howns.gaps_eq_nil, fun t ht => howns.description_eq ht⟩
  · exact howns.filled.exists_lookup (howns.sound.slot_declared ht hslot)
  · obtain ⟨p, a, hp, ha, -⟩ := howns.filled.exists_alternative howns.sound hmem
    have hselect := Component.select?_of_parameter? hp ha
    refine ⟨p, a, hp, ha, ?_, ?_⟩
    · rw [settingMap, hselect]
    · rw [settingTrains, hselect]
      rfl

/-- The HNSW schema with the encoder whose template has two slots, down to that
encoder, and a run that describes the method. -/
theorem own_values_compile_hnsw :
    (∃ (c a : Component) (v : Values), Hnsw.component .builtIn = .ok c ∧
      c.validate ⟨"", [("encoder", .component "pq" [("m", .integer 4)])]⟩ = .ok v ∧
      c.description v = some "HNSW16,PQ4x8" ∧
      c.gaps v = [] ∧
      c.select? "encoder" "pq" = some a ∧
      ∃ pieces, List.Forall₂
          (Slot.Shows a ⟨"pq", [("m", .integer 4), ("code_size", .integer 8)]⟩)
          [⟨"m", "", ""⟩, ⟨"code_size", "x", ""⟩] pieces ∧
        a.description ⟨"pq", [("m", .integer 4), ("code_size", .integer 8)]⟩ =
          some ("PQ" ++ String.join pieces)) ∧
    ∃ action journal,
      CommandLine.run ["describe"] (fun _ => .unavailable .missing) = .ran action journal ∧
      ∀ e ∈ journal, e.level ≠ .warn := by
  refine ⟨?_, ?_⟩
  · obtain ⟨c, a, v, hc, hv, hdescription, ha, ht, hmem⟩ :
        ∃ (c a : Component) (v : Values), Hnsw.component .builtIn = .ok c ∧
          c.validate ⟨"", [("encoder", .component "pq" [("m", .integer 4)])]⟩ = .ok v ∧
          c.description v = some "HNSW16,PQ4x8" ∧
          c.select? "encoder" "pq" = some a ∧
          a.template = some ⟨"PQ", [⟨"m", "", ""⟩, ⟨"code_size", "x", ""⟩]⟩ ∧
          ("encoder", .component "pq" [("m", .integer 4), ("code_size", .integer 8)])
            ∈ v.entries :=
      ⟨_, _, _, rfl, rfl, rfl, rfl, rfl, .tail _ (.tail _ (.tail _ (.head _)))⟩
    have hbuilt := Hnsw.built hc
    have htop := own_values_compile.1 c hbuilt _ v hv c v .here
    have hbelow := own_values_compile.1 c hbuilt _ v hv a _ (.step hmem ha .here)
    exact ⟨c, a, v, hc, hv, hdescription, htop.2.2.1, ha, hbelow.2.2.2 _ ht⟩
  · obtain ⟨action, journal, h⟩ : ∃ action journal,
        CommandLine.run ["describe"] (fun _ => .unavailable .missing) = .ran action journal :=
      ⟨_, _, rfl⟩
    exact ⟨action, journal, h, own_values_compile.2 _ _ _ _ h⟩

end VectorIndex
