import VectorIndex.Proofs.Lookup
import VectorIndex.Proofs.Outcome
import VectorIndex.Schema.Builder

/-!
# Schemas that can be built

Parameters come from the four checked constructors, components from a builder
that is called any number of times and then asked to build. `Parameter.Built`
and `Component.Built` are the histories of such calls; a component that has
been built may be an alternative of a parameter built later.

* `Component.Builder.Call`, `Component.Builder.after`: the calls a builder
  takes, and what it has collected after some of them.
* `Parameter.checked_eq_ok_iff`, `Parameter.ofChoice_eq_ok_iff`,
  `Component.Builder.build_eq_ok_iff`: when the constructors succeed, and what
  they return.
* `Component.Built.of_build`: building from built parameters gives a built
  component, whatever calls collected them.
-/

namespace VectorIndex

/-! ## Calls on a builder -/

namespace Component.Builder

/-- One call on a builder. -/
inductive Call where
  | add (p : Parameter)
  | describe (t : Template)
  | train (training : Bool)

/-- The builder after a call. -/
def call (b : Builder) : Call → Builder
  | .add p => b.add p
  | .describe t => b.describe t
  | .train training => b.train training

/-- A new builder after some calls. -/
def after (name : String) (calls : List Call) : Builder :=
  calls.foldl call (empty name)

/-- A builder holds what it was given before and what it is given now. -/
theorem mem_parameters_foldl_call {p : Parameter} {calls : List Call} {b : Builder} :
    p ∈ (calls.foldl call b).parameters ↔ p ∈ b.parameters ∨ .add p ∈ calls := by
  induction calls generalizing b with
  | nil => simp
  | cons c rest ih =>
    rw [List.foldl_cons, ih]
    cases c <;> simp [call, add, describe, train, or_assoc]

theorem mem_parameters_after {p : Parameter} {name : String} {calls : List Call} :
    p ∈ (after name calls).parameters ↔ .add p ∈ calls := by
  rw [after, mem_parameters_foldl_call]
  simp [empty]

end Component.Builder

/-! ## Histories of construction -/

mutual

/-- The parameter is the result of successful constructor calls. -/
inductive Parameter.Built : Parameter → Prop where
  | ofInteger {name default accepts p} :
      Parameter.ofInteger name default accepts = .ok p → Parameter.Built p
  | ofText {name default accepts p} :
      Parameter.ofText name default accepts = .ok p → Parameter.Built p
  | ofBoolean {name default accepts p} :
      Parameter.ofBoolean name default accepts = .ok p → Parameter.Built p
  | ofChoice {name default alternatives p} :
      (∀ c ∈ alternatives, Component.Built c) →
      Parameter.ofChoice name default alternatives = .ok p → Parameter.Built p

/-- The component is the result of a successful build, after any calls that
add parameters which are themselves built. -/
inductive Component.Built : Component → Prop where
  | build (name calls) {c} :
      (∀ p, .add p ∈ calls → Parameter.Built p) →
      (Component.Builder.after name calls).build = .ok c → Component.Built c

end

namespace Component.Builder

theorem foldl_call_add (b : Builder) (parameters : List Parameter) :
    (parameters.map Call.add).foldl call b =
      { b with parameters := b.parameters ++ parameters } := by
  induction parameters generalizing b with
  | nil => simp
  | cons p rest ih =>
    rw [List.map_cons, List.foldl_cons, ih]
    simp [call, add]

/-- Every builder is what some calls on a new one lead to. -/
theorem exists_calls (b : Builder) :
    ∃ calls, after b.name calls = b ∧ ∀ p, .add p ∈ calls → p ∈ b.parameters := by
  obtain ⟨name, parameters, template, training⟩ := b
  cases template with
  | none =>
    refine ⟨parameters.map .add ++ [.train training], ?_, by simp⟩
    rw [after, List.foldl_append, foldl_call_add]
    rfl
  | some t =>
    refine ⟨parameters.map .add ++ [.describe t, .train training], ?_, by simp⟩
    rw [after, List.foldl_append, foldl_call_add]
    rfl

end Component.Builder

/-- What a builder that holds built parameters returns is built. -/
theorem Component.Built.of_build {b : Component.Builder} {c : Component}
    (hparameters : ∀ p ∈ b.parameters, p.Built) (h : b.build = .ok c) : c.Built := by
  obtain ⟨calls, hcalls, hadded⟩ := b.exists_calls
  rw [← hcalls] at h
  exact .build b.name calls (fun p hp => hparameters p (hadded p hp)) h

/-! ## When construction succeeds -/

/-- The search for a repeated name ends without one if the names are distinct
and none has been seen. -/
theorem firstRepeated?_eq_none_iff {seen names : List String} :
    firstRepeated? seen names = none ↔ names.Nodup ∧ ∀ name ∈ names, name ∉ seen := by
  induction names generalizing seen with
  | nil => simp [firstRepeated?]
  | cons name rest ih =>
    unfold firstRepeated?
    by_cases hseen : name ∈ seen
    · simp [hseen]
    · rw [if_neg (by simpa using hseen), ih, List.nodup_cons]
      constructor
      · intro h
        obtain ⟨hnodup, hnew⟩ := h
        refine ⟨⟨fun hmem => hnew name hmem List.mem_cons_self, hnodup⟩, ?_⟩
        intro other hother
        rcases List.mem_cons.1 hother with rfl | hrest
        · exact hseen
        · exact fun h => hnew other hrest (List.mem_cons_of_mem _ h)
      · intro h
        obtain ⟨⟨hfirst, hnodup⟩, hnew⟩ := h
        refine ⟨hnodup, fun other hother h => ?_⟩
        rcases List.mem_cons.1 h with rfl | h
        · exact hfirst hother
        · exact hnew other (List.mem_cons_of_mem _ hother) h

theorem firstRepeated?_of_nodup {names : List String} (h : names.Nodup) :
    firstRepeated? [] names = none :=
  firstRepeated?_eq_none_iff.2 ⟨h, fun _ _ => List.not_mem_nil⟩

/-- Where the search finds a name, it is repeated. -/
theorem not_nodup_of_firstRepeated? {names : List String} {repeated : String}
    (h : firstRepeated? [] names = some repeated) : ¬names.Nodup := by
  intro hnodup
  rw [firstRepeated?_of_nodup hnodup] at h
  exact nomatch h

namespace Parameter

/-- A checked parameter is returned as it is, if it accepts its default. -/
theorem checked_eq_ok_iff {p q : Parameter} :
    checked p = .ok q ↔ p.accepts p.default = true ∧ q = p := by
  unfold checked
  split
  · next h => simp [h, eq_comm]
  · next h => simp [h]

/-- A choice is returned if its alternatives are some, of distinct names, and
its default selects one of them that takes it. -/
theorem ofChoice_eq_ok_iff {name : String} {default : Selection}
    {alternatives : List Component} {p : Parameter} :
    ofChoice name default alternatives = .ok p ↔
      alternatives ≠ [] ∧ (alternatives.map Component.name).Nodup ∧
      default.name ∈ alternatives.map Component.name ∧
      (choice name default alternatives).accepts default.setting = true ∧
      p = choice name default alternatives := by
  unfold ofChoice
  by_cases hempty : alternatives = []
  · simp [hempty]
  rw [if_neg (by simpa using hempty)]
  cases hrep : firstRepeated? [] (alternatives.map Component.name) with
  | some repeated => simp [not_nodup_of_firstRepeated? hrep]
  | none =>
    have hnodup := (firstRepeated?_eq_none_iff.1 hrep).1
    by_cases hdefault : default.name ∈ alternatives.map Component.name
    · simp only [List.contains_iff_mem.2 hdefault, if_true, checked_eq_ok_iff]
      simp [hempty, hnodup, hdefault, Parameter.default]
    · simp [hdefault]

end Parameter

namespace Component.Builder

theorem undeclaredSlot?_eq_none_iff {b : Builder} :
    b.undeclaredSlot? = none ↔
      ∀ t, b.template = some t → ∀ slot ∈ t.slots,
        slot.name ∈ b.parameters.map Parameter.name := by
  unfold undeclaredSlot?
  cases b.template with
  | none => simp
  | some t => simp [List.find?_eq_none]

/-- A component is built if its parameters have distinct names and its
template shows none but them. -/
theorem build_eq_ok_iff {b : Builder} {c : Component} :
    b.build = .ok c ↔
      (b.parameters.map Parameter.name).Nodup ∧
      (∀ t, b.template = some t → ∀ slot ∈ t.slots,
        slot.name ∈ b.parameters.map Parameter.name) ∧
      c = .mk b.name b.parameters b.template b.training := by
  rw [← undeclaredSlot?_eq_none_iff]
  unfold build
  cases hrep : firstRepeated? [] (b.parameters.map Parameter.name) with
  | some repeated => simp [not_nodup_of_firstRepeated? hrep]
  | none =>
    have hnodup := (firstRepeated?_eq_none_iff.1 hrep).1
    cases b.undeclaredSlot? with
    | some slot => simp
    | none => simp [hnodup, eq_comm]

end Component.Builder

end VectorIndex
