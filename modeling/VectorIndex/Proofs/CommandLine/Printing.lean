import VectorIndex.CommandLine.Program
import VectorIndex.Proofs.Outcome

/-!
# What is printed

What an action has printed when it ends is made of what its parts have printed. In a run
no line stands in front of a step that may fail, so a run that fails has printed nothing.

* `Action.AllOrNothing`: the action has printed nothing if it fails.
  `Action.AllOrNothing.bind` puts a step in front that prints nothing.
* `Invocation.allOrNothing_perform`: runs are such actions.
* `Action.output`: what is printed, or why the action fails. `Invocation.output_eq` says
  what that comes to for a run.
-/

namespace VectorIndex.CommandLine

namespace Action

variable {α β : Type}

/-! ## Parts of an action -/

@[simp] theorem lines_ofExcept (step : Except Report α) : (ofExcept step).lines = [] := rfl

@[simp] theorem lines_printLine (line : String) : (printLine line).lines = [line] := rfl

@[simp] theorem result_printLine (line : String) : (printLine line).result = .ok () := rfl

theorem bind_of_ok {x : Action α} {a : α} (h : x.result = .ok a) (f : α → Action β) :
    x >>= f = ⟨x.lines ++ (f a).lines, (f a).result⟩ := by
  show Action.bind x f = _
  rw [Action.bind, h]

theorem bind_of_error {x : Action α} {r : Report} (h : x.result = .error r)
    (f : α → Action β) : x >>= f = ⟨x.lines, .error r⟩ := by
  show Action.bind x f = _
  rw [Action.bind, h]

/-- A step that prints nothing fails as it is, or goes on with its result. -/
@[simp] theorem ofExcept_ok_bind (a : α) (f : α → Action β) : ofExcept (.ok a) >>= f = f a :=
  bind_of_ok rfl f

@[simp] theorem ofExcept_error_bind (r : Report) (f : α → Action β) :
    ofExcept (.error r) >>= f = ofExcept (.error r) :=
  bind_of_error rfl f

/-- A line stands in front of what is printed later. -/
@[simp] theorem printLine_bind (line : String) (f : Unit → Action β) :
    printLine line >>= f = ⟨line :: (f ()).lines, (f ()).result⟩ :=
  bind_of_ok rfl f

/-! ## All or nothing -/

/-- The action has printed nothing if it fails. -/
def AllOrNothing (x : Action α) : Prop :=
  ∀ r, x.result = .error r → x.lines = []

theorem allOrNothing_of_ok {x : Action α} {a : α} (h : x.result = .ok a) : x.AllOrNothing := by
  intro r hr
  cases h.symm.trans hr

/-- In front of such an action there may be steps that print nothing. -/
theorem AllOrNothing.bind {x : Action α} {f : α → Action β} (hsilent : x.lines = [])
    (hf : ∀ a, (f a).AllOrNothing) : (x >>= f).AllOrNothing := by
  intro r hr
  cases hx : x.result with
  | error e =>
    rw [bind_of_error hx]
    exact hsilent
  | ok a =>
    rw [bind_of_ok hx] at hr ⊢
    show x.lines ++ (f a).lines = []
    rw [hsilent, hf a r hr]
    rfl

/-! ## Output -/

/-- What the action prints, or why it fails. -/
def output (x : Action Unit) : Except Report String :=
  x.result.map fun _ => x.text

theorem output_ofExcept_bind (step : Except Report α) (f : α → Action Unit) :
    (ofExcept step >>= f).output = step >>= fun a => (f a).output := by
  cases step with
  | error r =>
    rw [ofExcept_error_bind]
    rfl
  | ok a =>
    rw [ofExcept_ok_bind]
    rfl

theorem output_printLine (line : String) : (printLine line).output = .ok (line ++ "\n") := by
  simp [output, text, Except.map]

theorem output_eq_error_iff {x : Action Unit} {r : Report} :
    x.output = .error r ↔ x.result = .error r := by
  rw [output, map_eq_error_iff]

end Action

/-! ## Runs -/

namespace Invocation

/-- The lines that describe a method are printed once nothing can fail. -/
theorem allOrNothing_describe (m : Method) : (describe m).AllOrNothing := by
  refine .bind (Action.lines_ofExcept _) fun values => ?_
  exact Action.allOrNothing_of_ok (a := ()) (by simp)

theorem allOrNothing_performCommand (m : Method) (files : String → File) (c : Command) :
    (performCommand m files c).AllOrNothing := by
  cases c with
  | describe => exact allOrNothing_describe m
  | compile path space asMap =>
    refine .bind (Action.lines_ofExcept _) fun d => ?_
    refine .bind (Action.lines_ofExcept _) fun c => ?_
    cases asMap <;> exact Action.allOrNothing_of_ok rfl

/-- In a run no line is printed before a step that fails. -/
theorem allOrNothing_perform (i : Invocation) (files : String → File) :
    (i.perform files).AllOrNothing := by
  refine .bind (Action.lines_ofExcept _) fun d => ?_
  refine .bind (Action.lines_ofExcept _) fun m => ?_
  exact allOrNothing_performCommand m files i.command

/-- What a run prints, or why it fails. -/
def output (i : Invocation) (files : String → File) : Except Report String :=
  (i.perform files).output

/-- What a command prints, or why it fails. -/
def commandOutput (m : Method) (files : String → File) (c : Command) : Except Report String :=
  (performCommand m files c).output

theorem output_eq (i : Invocation) (files : String → File) :
    i.output files = i.defaults files >>= fun d => method d >>= fun m =>
      commandOutput m files i.command := by
  unfold output perform
  simp only [Action.output_ofExcept_bind]
  rfl

theorem commandOutput_compile (m : Method) (files : String → File) (path : String)
    (space : Option String) (asMap : Bool) :
    commandOutput m files (.compile path space asMap) =
      definition files path space >>= fun d => (d.compile m).mapError Report.ofFailure >>=
        fun c => .ok ((if asMap then c.json.pretty else c.description) ++ "\n") := by
  unfold commandOutput performCommand
  simp only [Action.output_ofExcept_bind]
  cases asMap <;> simp only [if_true, Bool.false_eq_true, if_false, Action.output_printLine]

theorem commandOutput_describe (m : Method) (files : String → File) :
    commandOutput m files .describe =
      (m.validate (.plain m.name)).mapError (fun v => Report.mk v.message []) >>= fun v =>
        .ok ("method: " ++ m.name ++ "\n" ++
          "spaces: " ++ ", ".intercalate (m.spaces.map Space.name) ++ "\n" ++
          "encoders: " ++ ", ".intercalate
            ((m.component.parameter? Hnsw.encoderParameter).elim [] fun p =>
              p.alternatives.map Component.name) ++ "\n" ++
          "default: " ++ m.description v ++ "\n") := by
  unfold commandOutput performCommand describe
  simp only [Action.output_ofExcept_bind]
  refine congrArg _ (funext fun v => ?_)
  simp only [Action.output, Action.text, Action.printLine_bind, Action.lines_printLine,
    Action.result_printLine, List.map_cons, List.map_nil, String.join_cons, String.join_nil,
    Except.map, String.append_assoc, String.append_empty]

end Invocation

end VectorIndex.CommandLine
