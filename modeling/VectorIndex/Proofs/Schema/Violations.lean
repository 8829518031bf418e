import VectorIndex.Proofs.Hnsw
import VectorIndex.Proofs.Schema.Resolution
import VectorIndex.Proofs.Text.Utf8Order

/-!
# All violations of a selection

Checking stops at the first violation. Here all of them are listed, in the order
in which one would meet them: parameters in the order of declaration, a choice
with the whole list of the alternative that is selected for it, and behind them
the settings for parameters that are not declared.

* `Component.violations`: the list.
* `FirstOf`: an outcome of checking that stops at the head of a list.
* `Supplied`, `Violation.Concerns`: the entries of a selection at every depth,
  and the one that a violation tells of.

`validate_first_violation` is the main statement.
-/

namespace VectorIndex

/-! ## The list -/

/-- The settings that are for none of `parameters`, in the order in which they
are held. -/
def undeclared (parameters : List Parameter) (settings : List (String × Setting)) :
    List String :=
  (settings.map Prod.fst).filter fun k => !parameters.any (·.name == k)

mutual

/-- Every violation by settings of a component, in order. -/
def Component.violations : Component → List (String × Setting) → List Violation
  | .mk _ parameters _ _, settings =>
    violationsAll parameters settings ++
      (undeclared parameters settings).map .unknownParameter

/-- Every violation by the settings of declared parameters. A parameter that is
left out has none. -/
def violationsAll : List Parameter → List (String × Setting) → List Violation
  | [], _ => []
  | p :: rest, settings =>
    (settings.lookup p.name).elim [] p.violations ++ violationsAll rest settings

/-- Every violation by one setting. -/
def Parameter.violations : Parameter → Setting → List Violation
  | .choice name _ alternatives, .component selected settings =>
    match violationsIn alternatives selected settings with
    | none => [.unknownAlternative name selected]
    | some violations => violations
  | p, x => if p.admits x then [] else [.invalidSetting p.name x]

/-- Every violation by settings of the first of `alternatives` that has the
name. -/
def violationsIn : List Component → String → List (String × Setting) → Option (List Violation)
  | [], _, _ => none
  | c :: rest, selected, settings =>
    if c.name == selected then some (c.violations settings)
    else violationsIn rest selected settings

end

theorem violationsIn_eq (alternatives : List Component) (selected : String)
    (settings : List (String × Setting)) :
    violationsIn alternatives selected settings =
      (alternatives.find? (·.name == selected)).map (·.violations settings) := by
  induction alternatives with
  | nil => rfl
  | cons c rest ih =>
    by_cases h : c.name == selected <;> simp [violationsIn, h, ih]

theorem Parameter.violations_scalar {p : Parameter} (h : p.kind ≠ .choice) (x : Setting) :
    p.violations x = if p.admits x then [] else [.invalidSetting p.name x] := by
  cases p with
  | integer | text | boolean => rfl
  | choice => exact absurd rfl h

theorem Parameter.violations_choice_component (name : String) (default : Selection)
    (alternatives : List Component) (selected : String)
    (settings : List (String × Setting)) :
    (choice name default alternatives).violations (.component selected settings) =
      match (choice name default alternatives).alternative? selected with
      | none => [.unknownAlternative name selected]
      | some a => a.violations settings := by
  rw [violations, violationsIn_eq]
  unfold alternative?
  rw [Parameter.alternatives]
  cases alternatives.find? (·.name == selected) <;> rfl

/-! ## The first of them -/

/-- The outcome stops at the head of the list, and succeeds if the list is
empty. -/
def FirstOf {α : Type} (outcome : Except Violation α) (all : List Violation) : Prop :=
  match outcome with
  | .ok _ => all = []
  | .error e => all.head? = some e

theorem firstOf_ok {α : Type} (value : α) : FirstOf (.ok value) [] := rfl

theorem firstOf_error {α : Type} (e : Violation) (rest : List Violation) :
    FirstOf (.error e : Except Violation α) (e :: rest) := rfl

theorem firstOf_map {α β : Type} {outcome : Except Violation α} {all : List Violation}
    (h : FirstOf outcome all) (f : α → β) : FirstOf (outcome.map f) all := by
  cases outcome with
  | ok value => exact h
  | error e => exact h

/-- What comes later does not matter to an outcome that has failed. -/
theorem firstOf_error_append {α β : Type} {e : Violation} {all : List Violation}
    (h : FirstOf (.error e : Except Violation α) all) (more : List Violation) :
    FirstOf (.error e : Except Violation β) (all ++ more) := by
  cases all with
  | nil => exact nomatch h
  | cons first rest => exact h

/-- An outcome that stops at the head of the list fails with nothing else. -/
theorem FirstOf.eq_error_iff {α : Type} {outcome : Except Violation α} {all : List Violation}
    (h : FirstOf outcome all) (e : Violation) : outcome = .error e ↔ all.head? = some e := by
  cases outcome with
  | ok value =>
    have hnil : all = [] := h
    simp [hnil]
  | error first =>
    have hhead : all.head? = some first := h
    simp [hhead]

/-- It succeeds only if the list is empty. -/
theorem FirstOf.exists_ok_iff {α : Type} {outcome : Except Violation α} {all : List Violation}
    (h : FirstOf outcome all) : (∃ value, outcome = .ok value) ↔ all = [] := by
  cases outcome with
  | ok value =>
    have hnil : all = [] := h
    simp [hnil]
  | error first =>
    have hhead : all.head? = some first := h
    have hne : all ≠ [] := by
      intro hnil
      rw [hnil] at hhead
      exact nomatch hhead
    simp [hne]

/-- Resolving a setting stops at its first violation, provided that checking
does so for the alternatives. -/
theorem Parameter.firstOf_resolve {p : Parameter}
    (ih : ∀ a ∈ p.alternatives, ∀ s, FirstOf (a.validate s) (a.violations s.settings))
    (x : Setting) : FirstOf (p.resolve x) (p.violations x) := by
  by_cases hkind : p.kind = .choice
  · cases p with
    | integer | text | boolean => exact nomatch hkind
    | choice name default alternatives =>
      cases x with
      | boolean | integer | text => exact firstOf_error _ []
      | component selected settings =>
        rw [resolve_choice_component, violations_choice_component]
        cases ha : (choice name default alternatives).alternative? selected with
        | none => exact firstOf_error _ []
        | some a =>
          exact firstOf_map (ih a (find?_name_some ha).1 ⟨selected, settings⟩) _
  · rw [resolve_scalar hkind, violations_scalar hkind]
    split
    · exact firstOf_ok x
    · exact firstOf_error _ []

/-- Resolving sound parameters stops at their first violation. A parameter that
is left out has none, as it resolves its default. -/
theorem firstOf_resolveAll {parameters : List Parameter} (s : Selection)
    (hsound : ∀ p ∈ parameters, p.Sound)
    (hfirst : ∀ p ∈ parameters, ∀ x, FirstOf (p.resolve x) (p.violations x)) :
    FirstOf (resolveAll parameters s) (violationsAll parameters s.settings) := by
  induction parameters with
  | nil => exact firstOf_ok []
  | cons p rest ih =>
    obtain ⟨hp, hrest⟩ := List.forall_mem_cons.1 hsound
    obtain ⟨hpfirst, hrestfirst⟩ := List.forall_mem_cons.1 hfirst
    have hone : FirstOf (p.resolve (s.settingFor p))
        ((s.settings.lookup p.name).elim [] p.violations) := by
      cases hx : s.settings.lookup p.name with
      | none =>
        obtain ⟨y, hy⟩ := hp.resolve_default
        rw [Selection.settingFor_of_lookup_none hx, hy]
        exact firstOf_ok y
      | some x =>
        rw [Selection.settingFor_of_lookup_some hx]
        exact hpfirst x
    unfold resolveAll violationsAll
    cases hresolve : p.resolve (s.settingFor p) with
    | error e =>
      rw [hresolve] at hone
      exact firstOf_error_append hone _
    | ok y =>
      rw [hresolve] at hone
      rw [show (s.settings.lookup p.name).elim [] p.violations = [] from hone,
        List.nil_append]
      have hothers := ih hrest hrestfirst
      cases hall : resolveAll rest s with
      | error e =>
        rw [hall] at hothers
        exact hothers
      | ok entries =>
        rw [hall] at hothers
        exact hothers

theorem undeclared?_eq_head? (parameters : List Parameter) (s : Selection) :
    undeclared? parameters s = (undeclared parameters s.settings).head? := by
  rw [undeclared, List.head?_filter, undeclared?]

/-- Checking by a sound component stops at the first violation. -/
theorem Component.Sound.firstOf_validate {c : Component} (h : c.Sound) (s : Selection) :
    FirstOf (c.validate s) (c.violations s.settings) := by
  induction c using Component.induction generalizing s with
  | step c ih =>
    have hparameters : ∀ p ∈ c.parameters, ∀ x, FirstOf (p.resolve x) (p.violations x) :=
      fun p hp => Parameter.firstOf_resolve
        fun a ha s => ih p hp a ha ((h.parameter hp).alternative ha) s
    have hall := firstOf_resolveAll s (fun p hp => h.parameter hp) hparameters
    obtain ⟨name, parameters, template, training⟩ := c
    rw [Component.parameters] at hall
    unfold validate violations
    cases hentries : resolveAll parameters s with
    | error e =>
      rw [hentries] at hall
      exact firstOf_error_append hall _
    | ok entries =>
      rw [hentries] at hall
      rw [show violationsAll parameters s.settings = [] from hall, List.nil_append]
      simp only [undeclared?_eq_head?]
      cases undeclared parameters s.settings with
      | nil => exact firstOf_ok _
      | cons k rest => exact firstOf_error _ _

/-! ## What violations tell of -/

/-- The entry stands among the settings, or among those of a component that
stands there. -/
inductive Supplied (entry : String × Setting) : List (String × Setting) → Prop where
  | here {settings} : entry ∈ settings → Supplied entry settings
  | within {k selected inner settings} :
      (k, .component selected inner) ∈ settings → Supplied entry inner →
      Supplied entry settings

/-- The parameter, value or name that a violation tells of is supplied by the
settings. -/
def Violation.Concerns : Violation → List (String × Setting) → Prop
  | unknownParameter k, settings => ∃ x, Supplied (k, x) settings
  | invalidSetting parameter x, settings => Supplied (parameter, x) settings
  | unknownAlternative parameter name, settings =>
    ∃ inner, Supplied (parameter, .component name inner) settings

theorem Violation.Concerns.within {e : Violation} {k selected : String}
    {inner settings : List (String × Setting)} (h : e.Concerns inner)
    (hmem : (k, .component selected inner) ∈ settings) : e.Concerns settings := by
  cases e with
  | unknownParameter name =>
    obtain ⟨x, hx⟩ := h
    exact ⟨x, .within hmem hx⟩
  | invalidSetting parameter x => exact Supplied.within hmem h
  | unknownAlternative parameter name =>
    obtain ⟨deeper, hdeeper⟩ := h
    exact ⟨deeper, .within hmem hdeeper⟩

/-- A violation by a supplied setting tells of it or of something in it. -/
theorem Parameter.concerns_of_mem_violations {p : Parameter} {x : Setting} {e : Violation}
    {settings : List (String × Setting)}
    (ih : ∀ a ∈ p.alternatives, ∀ inner, ∀ e ∈ a.violations inner, e.Concerns inner)
    (hx : (p.name, x) ∈ settings) (he : e ∈ p.violations x) : e.Concerns settings := by
  by_cases hkind : p.kind = .choice
  · cases p with
    | integer | text | boolean => exact nomatch hkind
    | choice name default alternatives =>
      cases x with
      | boolean | integer | text =>
        obtain rfl := List.mem_singleton.1 he
        exact Supplied.here hx
      | component selected inner =>
        rw [violations_choice_component] at he
        cases ha : (choice name default alternatives).alternative? selected with
        | none =>
          rw [ha] at he
          obtain rfl := List.mem_singleton.1 he
          exact ⟨inner, .here hx⟩
        | some a =>
          rw [ha] at he
          exact (ih a (find?_name_some ha).1 inner e he).within hx
  · rw [violations_scalar hkind] at he
    split at he
    · exact absurd he List.not_mem_nil
    · obtain rfl := List.mem_singleton.1 he
      exact Supplied.here hx

theorem mem_violationsAll {e : Violation} {parameters : List Parameter}
    {settings : List (String × Setting)} (he : e ∈ violationsAll parameters settings) :
    ∃ p ∈ parameters, ∃ x, settings.lookup p.name = some x ∧ e ∈ p.violations x := by
  induction parameters with
  | nil => exact absurd he List.not_mem_nil
  | cons p rest ih =>
    rw [violationsAll, List.mem_append] at he
    rcases he with he | he
    · cases hx : settings.lookup p.name with
      | none =>
        rw [hx] at he
        exact absurd he List.not_mem_nil
      | some x =>
        rw [hx] at he
        exact ⟨p, List.mem_cons_self, x, hx, he⟩
    · obtain ⟨q, hq, x, hx, hmem⟩ := ih he
      exact ⟨q, List.mem_cons_of_mem _ hq, x, hx, hmem⟩

/-- Every violation tells of something that the settings supply, and never of
a default. -/
theorem Component.concerns_of_mem_violations {c : Component}
    {settings : List (String × Setting)} {e : Violation} (he : e ∈ c.violations settings) :
    e.Concerns settings := by
  induction c using Component.induction generalizing settings e with
  | step c ih =>
    obtain ⟨name, parameters, template, training⟩ := c
    rw [violations, List.mem_append] at he
    rcases he with he | he
    · obtain ⟨p, hp, x, hx, hmem⟩ := mem_violationsAll he
      exact Parameter.concerns_of_mem_violations
        (fun a ha _ _ => ih p hp a ha) (mem_of_lookup hx) hmem
    · obtain ⟨k, hk, rfl⟩ := List.mem_map.1 he
      obtain ⟨⟨l, x⟩, hmem, rfl⟩ := List.mem_map.1 (List.mem_filter.1 hk).1
      exact ⟨x, .here hmem⟩

/-! ## Checking stops at the first violation -/

/-- Settings that are held in order leave their undeclared names in the order
of UTF-8 bytes. -/
theorem undeclared_ascending {settings : List (String × Setting)}
    (h : Keyed.Ordered settings) (parameters : List Parameter) :
    (undeclared parameters settings).Pairwise fun k l => Text.utf8 k < Text.utf8 l := by
  have hkeys : (settings.map Prod.fst).Pairwise fun k l => Text.utf8 k < Text.utf8 l :=
    List.Pairwise.imp Text.utf8_lt_iff.2 h
  exact hkeys.filter _

/-- A component that can be built accepts a selection without violations, and
otherwise fails with the first of them. What it fails with is supplied by the
selection. Undeclared names come in the order of their UTF-8 bytes. -/
theorem validate_first_violation (c : Component) (hc : c.Built) (s : Selection) :
    ((∃ v, c.validate s = .ok v) ↔ c.violations s.settings = []) ∧
    (∀ e, c.validate s = .error e ↔ (c.violations s.settings).head? = some e) ∧
    (∀ e, c.validate s = .error e → e.Concerns s.settings) ∧
    (∀ parameters settings, Keyed.Ordered settings →
      (undeclared parameters settings).Pairwise fun k l => Text.utf8 k < Text.utf8 l) := by
  have hfirst := hc.sound.firstOf_validate s
  refine ⟨hfirst.exists_ok_iff, hfirst.eq_error_iff, fun e he => ?_,
    fun parameters _ h => undeclared_ascending h parameters⟩
  have hmem : e ∈ c.violations s.settings := List.mem_of_head? ((hfirst.eq_error_iff e).1 he)
  exact Component.concerns_of_mem_violations hmem

/-- The HNSW schema under a selection with violations at two levels. Those of
the encoder come before the undeclared name beside it. -/
theorem validate_first_violation_hnsw :
    ∃ c : Component, Hnsw.component .builtIn = .ok c ∧ c.Built ∧
      c.violations
        [("aa", .boolean true),
          ("encoder", .component "pq" [("bits", .integer 4), ("m", .integer 0)])] =
        [.invalidSetting "m" (.integer 0), .unknownParameter "bits", .unknownParameter "aa"] ∧
      c.validate ⟨"",
        [("aa", .boolean true),
          ("encoder", .component "pq" [("bits", .integer 4), ("m", .integer 0)])]⟩ =
        .error (.invalidSetting "m" (.integer 0)) := by
  obtain ⟨c, hc, hall⟩ : ∃ c : Component, Hnsw.component .builtIn = .ok c ∧ c.violations
      [("aa", .boolean true),
        ("encoder", .component "pq" [("bits", .integer 4), ("m", .integer 0)])] =
      [.invalidSetting "m" (.integer 0), .unknownParameter "bits", .unknownParameter "aa"] :=
    ⟨_, rfl, rfl⟩
  have hbuilt := Hnsw.built hc
  refine ⟨c, hc, hbuilt, hall, ?_⟩
  rw [(validate_first_violation c hbuilt _).2.1, hall]
  rfl

end VectorIndex
