import VectorIndex.Proofs.Schema.Sound

/-!
# What checking does

One statement for each of the functions of `Schema.Validation`, so that later
proofs need not open them.

* `Parameter.resolve_eq_ok_iff`: a setting resolves to itself if it is a scalar
  that the parameter admits, and to what the selected alternative returns if it
  is a component.
* `resolveAll_eq_ok_iff`, `Component.validate_eq_ok_iff`: a selection is
  accepted if every parameter resolves and nothing undeclared is set; the
  entries are the resolved parameters in their order.
  `Component.exists_validate_iff` leaves the entries out.
* `resolves_iff_keys`: the same by names, each entry under that of its parameter.
* `Component.exists_of_validate_eq_error`: the violation that is reported is that of a
  parameter, if nothing undeclared is set.
* `Parameter.Sound.resolve_default`: the default of a sound parameter resolves.
* `Component.validate_congr`: two selections are treated alike if their parameters
  resolve alike and they have the same first undeclared name. `settingFor_set` and
  `undeclared?_set` are for a selection with one more setting.
-/

namespace VectorIndex

/-! ## One setting -/

namespace Parameter

/-- The setting is a scalar of the kind of the parameter, and its check
accepts it. -/
def admits : Parameter → Setting → Bool
  | integer _ _ accepts, .integer n => accepts n
  | text _ _ accepts, .text s => accepts s
  | boolean _ _ accepts, .boolean b => accepts b
  | _, _ => false

theorem kind_ne_choice_of_admits {p : Parameter} {x : Setting} (h : p.admits x = true) :
    p.kind ≠ .choice := by
  cases p <;> simp_all [admits, kind]

theorem resolve_scalar {p : Parameter} (h : p.kind ≠ .choice) (x : Setting) :
    p.resolve x =
      if p.admits x then .ok x else .error (.invalidSetting p.name x) := by
  cases p with
  | integer | text | boolean => cases x <;> rfl
  | choice => simp [kind] at h

theorem resolve_scalar_eq_ok_iff {p : Parameter} (h : p.kind ≠ .choice) {x y : Setting} :
    p.resolve x = .ok y ↔ p.admits x = true ∧ y = x := by
  rw [resolve_scalar h]
  by_cases hadmits : p.admits x = true
  · rw [if_pos hadmits, Except.ok.injEq, eq_comm, and_iff_right hadmits]
  · simp [hadmits]

theorem resolve_choice_component (name : String) (default : Selection)
    (alternatives : List Component) (selected : String)
    (settings : List (String × Setting)) :
    (choice name default alternatives).resolve (.component selected settings) =
      match (choice name default alternatives).alternative? selected with
      | none => .error (.unknownAlternative name selected)
      | some a => (a.validate ⟨selected, settings⟩).map Values.setting := by
  rw [resolve, validateIn_eq]
  unfold alternative?
  rw [Parameter.alternatives]
  cases alternatives.find? (·.name == selected) with
  | none => rfl
  | some a =>
    cases h : a.validate ⟨selected, settings⟩ <;> simp [h, Except.map]

/-- When a setting resolves, and to what. -/
theorem resolve_eq_ok_iff {p : Parameter} {x y : Setting} :
    p.resolve x = .ok y ↔
      (p.admits x = true ∧ y = x) ∨
      ∃ selected settings a v, x = .component selected settings ∧
        p.alternative? selected = some a ∧
        a.validate ⟨selected, settings⟩ = .ok v ∧ y = v.setting := by
  by_cases hkind : p.kind = .choice
  · cases p with
    | integer | text | boolean => simp [kind] at hkind
    | choice name default alternatives =>
      cases x with
      | boolean | integer | text => simp [resolve, admits]
      | component selected settings =>
        rw [resolve_choice_component]
        cases ha : (choice name default alternatives).alternative? selected with
        | none => simp [admits, ha]
        | some a =>
          cases hv : a.validate ⟨selected, settings⟩ <;>
            simp [admits, ha, hv, Except.map, eq_comm]
  · have hnone : ∀ selected, p.alternative? selected = none := by
      intro selected
      rw [alternative?, alternatives_eq_nil hkind, List.find?_nil]
    simp [resolve_scalar_eq_ok_iff hkind, hnone]

theorem accepts_eq_true_iff {p : Parameter} {x : Setting} :
    p.accepts x = true ↔ ∃ y, p.resolve x = .ok y := by
  unfold accepts
  cases p.resolve x <;> simp [Except.isOk, Except.toBool]

/-- The default of a sound parameter resolves. -/
theorem Sound.resolve_default {p : Parameter} (h : p.Sound) :
    ∃ y, p.resolve p.default = .ok y :=
  accepts_eq_true_iff.1 h.accepts_default

end Parameter

/-! ## Several parameters -/

/-- The entry of a parameter for a selection: its name and what its setting
resolves to. -/
def Parameter.Resolves (s : Selection) (p : Parameter) (entry : String × Setting) : Prop :=
  entry.1 = p.name ∧ p.resolve (s.settingFor p) = .ok entry.2

theorem resolveAll_eq_ok_iff {parameters : List Parameter} {s : Selection}
    {entries : List (String × Setting)} :
    resolveAll parameters s = .ok entries ↔
      List.Forall₂ (Parameter.Resolves s) parameters entries := by
  induction parameters generalizing entries with
  | nil =>
    rw [List.forall₂_nil_left_iff]
    simp [resolveAll, eq_comm]
  | cons p rest ih =>
    rw [List.forall₂_cons_left_iff]
    unfold resolveAll
    cases hp : p.resolve (s.settingFor p) with
    | error e => simp [Parameter.Resolves, hp]
    | ok x =>
      cases hrest : resolveAll rest s with
      | error e =>
        have hnone : ∀ others, ¬List.Forall₂ (Parameter.Resolves s) rest others := by
          intro others h
          rw [ih.2 h] at hrest
          exact nomatch hrest
        simp [hnone]
      | ok others =>
        constructor
        · intro h
          cases h
          exact ⟨_, _, ⟨rfl, hp⟩, ih.1 hrest, rfl⟩
        · intro h
          obtain ⟨⟨name, y⟩, others', ⟨rfl, hy⟩, hforall, rfl⟩ := h
          rw [hp] at hy
          cases hy
          rw [ih.2 hforall] at hrest
          cases hrest
          rfl

/-- All parameters resolve together if each of them resolves. -/
theorem exists_resolveAll_iff {parameters : List Parameter} {s : Selection} :
    (∃ entries, resolveAll parameters s = .ok entries) ↔
      ∀ p ∈ parameters, ∃ x, p.resolve (s.settingFor p) = .ok x := by
  simp only [resolveAll_eq_ok_iff]
  induction parameters with
  | nil => simp
  | cons p rest ih =>
    rw [List.forall_mem_cons, ← ih]
    constructor
    · intro h
      obtain ⟨entries, h⟩ := h
      obtain ⟨entry, others, ⟨-, hx⟩, hothers, rfl⟩ := List.forall₂_cons_left_iff.1 h
      exact ⟨⟨entry.2, hx⟩, others, hothers⟩
    · intro h
      obtain ⟨⟨x, hx⟩, others, hothers⟩ := h
      exact ⟨(p.name, x) :: others, .cons ⟨rfl, hx⟩ hothers⟩

/-- The entries of parameters of distinct names stand under those names, and each
is what the parameter of its name resolves to. -/
theorem resolves_iff_keys {parameters : List Parameter} {s : Selection}
    {entries : List (String × Setting)} (hnodup : (parameters.map Parameter.name).Nodup) :
    List.Forall₂ (Parameter.Resolves s) parameters entries ↔
      entries.map Prod.fst = parameters.map Parameter.name ∧
      ∀ p ∈ parameters, ∀ x, (p.name, x) ∈ entries → p.resolve (s.settingFor p) = .ok x :=
  forall₂_iff_keys (R := fun p x => p.resolve (s.settingFor p) = .ok x) hnodup

/-! ## A selection -/

theorem undeclared?_eq_none_iff {parameters : List Parameter} {s : Selection} :
    undeclared? parameters s = none ↔
      ∀ k ∈ s.settings.map Prod.fst, k ∈ parameters.map Parameter.name := by
  unfold undeclared?
  rw [List.find?_eq_none]
  simp

/-- When a selection is accepted, and with which values. -/
theorem Component.validate_eq_ok_iff {c : Component} {s : Selection} {v : Values} :
    c.validate s = .ok v ↔
      v.name = c.name ∧ List.Forall₂ (Parameter.Resolves s) c.parameters v.entries ∧
      ∀ k ∈ s.settings.map Prod.fst, k ∈ c.parameters.map Parameter.name := by
  obtain ⟨name, parameters, template, training⟩ := c
  rw [← undeclared?_eq_none_iff, ← resolveAll_eq_ok_iff]
  simp only [validate, Component.name, Component.parameters]
  cases hall : resolveAll parameters s with
  | error e => simp
  | ok entries =>
    cases hundeclared : undeclared? parameters s with
    | some k => simp
    | none =>
      obtain ⟨vname, ventries⟩ := v
      simp [eq_comm]

/-- A selection is accepted if every parameter resolves and nothing undeclared is
set. -/
theorem Component.exists_validate_iff {c : Component} {s : Selection} :
    (∃ v, c.validate s = .ok v) ↔
      (∀ p ∈ c.parameters, ∃ x, p.resolve (s.settingFor p) = .ok x) ∧
      ∀ k ∈ s.settings.map Prod.fst, k ∈ c.parameters.map Parameter.name := by
  rw [← exists_resolveAll_iff]
  simp only [validate_eq_ok_iff, resolveAll_eq_ok_iff]
  constructor
  · intro haccepted
    obtain ⟨v, -, hentries, hkeys⟩ := haccepted
    exact ⟨⟨v.entries, hentries⟩, hkeys⟩
  · intro hresolved
    obtain ⟨⟨entries, hentries⟩, hkeys⟩ := hresolved
    exact ⟨⟨c.name, entries⟩, rfl, hentries, hkeys⟩

theorem exists_of_resolveAll_eq_error {parameters : List Parameter} {s : Selection}
    {e : Violation} (h : resolveAll parameters s = .error e) :
    ∃ p ∈ parameters, p.resolve (s.settingFor p) = .error e := by
  induction parameters with
  | nil => exact nomatch h
  | cons p rest ih =>
    unfold resolveAll at h
    cases hp : p.resolve (s.settingFor p) with
    | error first =>
      rw [hp] at h
      cases h
      exact ⟨p, List.mem_cons_self, hp⟩
    | ok x =>
      cases hrest : resolveAll rest s with
      | error later =>
        rw [hp, hrest] at h
        cases h
        obtain ⟨q, hq, he⟩ := ih hrest
        exact ⟨q, List.mem_cons_of_mem _ hq, he⟩
      | ok entries =>
        rw [hp, hrest] at h
        exact nomatch h

/-- The violation that is reported of a selection that sets nothing undeclared is
that of a parameter. -/
theorem Component.exists_of_validate_eq_error {c : Component} {s : Selection} {e : Violation}
    (hdeclared : ∀ k ∈ s.settings.map Prod.fst, k ∈ c.parameters.map Parameter.name)
    (h : c.validate s = .error e) :
    ∃ p ∈ c.parameters, p.resolve (s.settingFor p) = .error e := by
  obtain ⟨name, parameters, template, training⟩ := c
  have hnone : undeclared? parameters s = none := undeclared?_eq_none_iff.2 hdeclared
  rw [validate] at h
  cases hall : resolveAll parameters s with
  | error first =>
    rw [hall] at h
    cases h
    exact exists_of_resolveAll_eq_error hall
  | ok entries =>
    rw [hall, hnone] at h
    exact nomatch h

/-- The entries of an accepted selection stand under the names of the
parameters. -/
theorem Component.keys_of_validate {c : Component} {s : Selection} {v : Values}
    (hv : c.validate s = .ok v) :
    v.entries.map Prod.fst = c.parameters.map Parameter.name := by
  obtain ⟨-, hentries, -⟩ := validate_eq_ok_iff.1 hv
  exact keys_of_forall₂
    (R := fun (p : Parameter) (x : Setting) => p.resolve (s.settingFor p) = .ok x) hentries

/-- Each of them is what its parameter resolves to. -/
theorem Component.Sound.resolve_of_validate {c : Component} (h : c.Sound) {s : Selection}
    {v : Values} (hv : c.validate s = .ok v) {p : Parameter} (hp : p ∈ c.parameters)
    {x : Setting} (hx : (p.name, x) ∈ v.entries) : p.resolve (s.settingFor p) = .ok x := by
  obtain ⟨-, hentries, -⟩ := validate_eq_ok_iff.1 hv
  exact ((resolves_iff_keys h.names_nodup).1 hentries).2 p hp x hx

/-- When a setting resolves for a sound parameter, and to what. -/
theorem Parameter.Sound.resolve_eq_ok_iff {p : Parameter} (h : p.Sound) {x y : Setting} :
    p.resolve x = .ok y ↔
      (p.admits x = true ∧ y = x) ∨
      ∃ a ∈ p.alternatives, ∃ settings entries, x = .component a.name settings ∧
        a.validate ⟨a.name, settings⟩ = .ok ⟨a.name, entries⟩ ∧
        y = .component a.name entries := by
  rw [Parameter.resolve_eq_ok_iff]
  refine or_congr_right ⟨?_, ?_⟩
  · intro hselected
    obtain ⟨selected, settings, a, v, rfl, ha, hv, rfl⟩ := hselected
    obtain ⟨hmem, rfl⟩ := h.alternative?_eq_some_iff.1 ha
    obtain ⟨name, entries⟩ := v
    obtain rfl : name = a.name := (Component.validate_eq_ok_iff.1 hv).1
    exact ⟨a, hmem, settings, entries, rfl, hv, rfl⟩
  · intro hoffered
    obtain ⟨a, hmem, settings, entries, rfl, hv, rfl⟩ := hoffered
    exact ⟨a.name, settings, a, ⟨a.name, entries⟩, rfl,
      h.alternative?_eq_some_iff.2 ⟨hmem, rfl⟩, hv, rfl⟩

/-- A sound parameter leaves a component to the alternative of its name, with
whatever outcome. -/
theorem Parameter.Sound.resolve_alternative {p : Parameter} (h : p.Sound) {a : Component}
    (ha : a ∈ p.alternatives) (settings : List (String × Setting)) :
    p.resolve (.component a.name settings) =
      (a.validate ⟨a.name, settings⟩).map Values.setting := by
  have hfound := h.alternative?_eq_some_iff.2 ⟨ha, rfl⟩
  cases p with
  | integer | text | boolean => exact absurd ha List.not_mem_nil
  | choice name default alternatives => rw [resolve_choice_component, hfound]

/-- What it resolves to is what the alternative returns. -/
theorem Parameter.Sound.resolve_alternative_eq_ok_iff {p : Parameter} (h : p.Sound)
    {a : Component} (ha : a ∈ p.alternatives) {settings : List (String × Setting)}
    {y : Setting} :
    p.resolve (.component a.name settings) = .ok y ↔
      ∃ entries, a.validate ⟨a.name, settings⟩ = .ok ⟨a.name, entries⟩ ∧
        y = .component a.name entries := by
  rw [h.resolve_alternative ha, map_eq_ok_iff]
  constructor
  · intro hresolved
    obtain ⟨⟨name, entries⟩, hv, rfl⟩ := hresolved
    obtain rfl : name = a.name := (Component.validate_eq_ok_iff.1 hv).1
    exact ⟨entries, hv, rfl⟩
  · intro hresolved
    obtain ⟨entries, hv, rfl⟩ := hresolved
    exact ⟨_, hv, rfl⟩

/-- The parameters that a selection leaves out take their defaults. -/
theorem Selection.settingFor_of_lookup_none {s : Selection} {p : Parameter}
    (h : s.settings.lookup p.name = none) : s.settingFor p = p.default := by
  simp [settingFor, get?, h]

theorem Selection.settingFor_of_lookup_some {s : Selection} {p : Parameter} {x : Setting}
    (h : s.settings.lookup p.name = some x) : s.settingFor p = x := by
  simp [settingFor, get?, h]

/-! ## Several selections -/

/-- Checking sees of a selection what its parameters resolve to and the first
undeclared name. -/
theorem Component.validate_congr {c : Component} {s t : Selection}
    (hresolve : ∀ p ∈ c.parameters, p.resolve (t.settingFor p) = p.resolve (s.settingFor p))
    (hundeclared : undeclared? c.parameters t = undeclared? c.parameters s) :
    c.validate t = c.validate s := by
  obtain ⟨name, parameters, template, training⟩ := c
  have hall : resolveAll parameters t = resolveAll parameters s := by
    rw [Component.parameters] at hresolve
    clear hundeclared
    induction parameters with
    | nil => rfl
    | cons p rest ih =>
      obtain ⟨hp, hrest⟩ := List.forall_mem_cons.1 hresolve
      rw [resolveAll, resolveAll, hp, ih hrest]
  rw [Component.parameters] at hundeclared
  rw [validate, validate, hall, hundeclared]

/-- The name of a selection plays no part. -/
theorem Component.validate_name (c : Component) (s : Selection) (name : String) :
    c.validate ⟨name, s.settings⟩ = c.validate s :=
  validate_congr (fun _ _ => rfl) rfl

/-- A setting that is written counts for the parameter of its name. -/
theorem Selection.settingFor_set (s : Selection) (k : String) (x : Setting) (p : Parameter) :
    (s.set k x).settingFor p = if p.name = k then x else s.settingFor p := by
  rw [settingFor, get?_set]
  split <;> rfl

/-- Writing a declared parameter leaves the first undeclared name. -/
theorem undeclared?_set {parameters : List Parameter} {k : String}
    (hk : k ∈ parameters.map Parameter.name) (s : Selection) (x : Setting) :
    undeclared? parameters (s.set k x) = undeclared? parameters s := by
  have hdeclared : (parameters.any fun p => p.name == k) = true := by simpa using hk
  unfold undeclared? Selection.set
  induction s.settings with
  | nil => simp [Keyed.insert, hdeclared]
  | cons entry rest ih =>
    obtain ⟨l, y⟩ := entry
    unfold Keyed.insert
    split
    · simp [hdeclared]
    · split
      · next heq => simp [← heq, hdeclared]
      · simp only [List.map_cons, List.find?_cons]
        rw [ih]

end VectorIndex
