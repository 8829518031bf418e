import VectorIndex.Proofs.Hnsw
import VectorIndex.Proofs.Schema.Resolution

/-!
# The rules of a schema

What a schema demands of a selection and what values it makes of it, stated
without the functions that check selections.

* `Parameter.Fits`, `Component.Conforms`: the demands. They speak of what is
  set and not of defaults, nor of the name under which a component is selected.
* `Parameter.Becomes`, `Component.Completes`: the values. What is left out is
  filled in by defaults, at every depth.
* `Parameter.Holds`, `Component.Filled`: values that are complete at every
  depth, whatever they were made of.

The main statements are `validate_meets_rules`, that checking accepts what
conforms and returns what completes it, and `built_invariant`, that every schema
that can be built is sound and completes the selection that sets nothing. A
selection that sets nothing but an alternative is accepted if that is offered
(`Component.Sound.exists_validate_alternative_iff`).
-/

namespace VectorIndex

/-! ## The demands -/

mutual

/-- A setting fits a parameter: it is a scalar that the parameter admits, or it
selects an alternative by its name and conforms to it. -/
inductive Parameter.Fits : Parameter → Setting → Prop where
  | scalar {p x} : p.admits x = true → Parameter.Fits p x
  | choice {p a settings} :
      a ∈ p.alternatives → Component.Conforms a settings →
      Parameter.Fits p (.component a.name settings)

/-- Settings conform to a component: each is for a declared parameter, and
fits it. -/
inductive Component.Conforms : Component → List (String × Setting) → Prop where
  | mk {c settings} :
      (∀ k ∈ settings.map Prod.fst, k ∈ c.parameters.map Parameter.name) →
      (∀ p ∈ c.parameters, ∀ x, settings.lookup p.name = some x → Parameter.Fits p x) →
      Component.Conforms c settings

end

/-! ## The values -/

mutual

/-- What a setting of a parameter becomes: a scalar stays as it is, and a
component gets the values of the alternative that it selects. -/
inductive Parameter.Becomes : Parameter → Setting → Setting → Prop where
  | scalar {p x} : p.kind ≠ .choice → Parameter.Becomes p x x
  | choice {p a settings entries} :
      a ∈ p.alternatives → Component.Completes a settings entries →
      Parameter.Becomes p (.component a.name settings) (.component a.name entries)

/-- The entries that complete some settings of a component: one for each
parameter in the order of declaration, made of its setting or else of its
default. -/
inductive Component.Completes :
    Component → List (String × Setting) → List (String × Setting) → Prop where
  | mk {c settings entries} :
      entries.map Prod.fst = c.parameters.map Parameter.name →
      (∀ p ∈ c.parameters, ∀ y, (p.name, y) ∈ entries →
        Parameter.Becomes p ((settings.lookup p.name).getD p.default) y) →
      Component.Completes c settings entries

end

mutual

/-- A complete value of a parameter: a scalar that it admits, or the complete
values of one of its alternatives. -/
inductive Parameter.Holds : Parameter → Setting → Prop where
  | scalar {p x} : p.admits x = true → Parameter.Holds p x
  | choice {p a entries} :
      a ∈ p.alternatives → Component.Filled a entries →
      Parameter.Holds p (.component a.name entries)

/-- Complete values of a component: one entry for each parameter in the order
of declaration, each complete in turn. -/
inductive Component.Filled : Component → List (String × Setting) → Prop where
  | mk {c entries} :
      entries.map Prod.fst = c.parameters.map Parameter.name →
      (∀ p ∈ c.parameters, ∀ x, (p.name, x) ∈ entries → Parameter.Holds p x) →
      Component.Filled c entries

end

/-! ## Acceptance -/

/-- A setting resolves if it fits, provided the alternatives accept what
conforms to them. -/
theorem Parameter.Sound.exists_resolve_iff_fits {p : Parameter} (h : p.Sound)
    (ih : ∀ a ∈ p.alternatives, ∀ s, (∃ v, a.validate s = .ok v) ↔ a.Conforms s.settings)
    (x : Setting) : (∃ y, p.resolve x = .ok y) ↔ p.Fits x := by
  constructor
  · intro hresolve
    obtain ⟨y, hy⟩ := hresolve
    rcases h.resolve_eq_ok_iff.1 hy with ⟨hadmits, -⟩ | ⟨a, ha, settings, entries, rfl, hv, -⟩
    · exact .scalar hadmits
    · exact .choice ha ((ih a ha _).1 ⟨_, hv⟩)
  · intro hfits
    cases hfits with
    | scalar hadmits => exact ⟨x, h.resolve_eq_ok_iff.2 (.inl ⟨hadmits, rfl⟩)⟩
    | @choice _ a settings ha hconforms =>
      obtain ⟨⟨name, entries⟩, hv⟩ := (ih a ha ⟨a.name, settings⟩).2 hconforms
      obtain rfl : name = a.name := (Component.validate_eq_ok_iff.1 hv).1
      exact ⟨.component a.name entries,
        h.resolve_eq_ok_iff.2 (.inr ⟨a, ha, settings, entries, rfl, hv, rfl⟩)⟩

/-- A sound component accepts the selections that conform to it. Defaults do
not matter, because a sound parameter resolves its own. -/
theorem Component.Sound.exists_validate_iff_conforms {c : Component} (h : c.Sound)
    (s : Selection) : (∃ v, c.validate s = .ok v) ↔ c.Conforms s.settings := by
  induction c using Component.induction generalizing s with
  | step c ih =>
    have hfits : ∀ p ∈ c.parameters, ∀ x, (∃ y, p.resolve x = .ok y) ↔ p.Fits x :=
      fun p hp => (h.parameter hp).exists_resolve_iff_fits
        fun a ha => ih p hp a ha ((h.parameter hp).alternative ha)
    rw [exists_validate_iff]
    constructor
    · intro hresolved
      obtain ⟨hresolve, hkeys⟩ := hresolved
      refine .mk hkeys fun p hp x hx => ?_
      have hp' := hresolve p hp
      rw [Selection.settingFor_of_lookup_some hx] at hp'
      exact (hfits p hp x).1 hp'
    · intro hconforms
      obtain ⟨hkeys, hset⟩ := hconforms
      refine ⟨fun p hp => ?_, hkeys⟩
      cases hx : s.settings.lookup p.name with
      | none =>
        rw [Selection.settingFor_of_lookup_none hx]
        exact (h.parameter hp).resolve_default
      | some x =>
        rw [Selection.settingFor_of_lookup_some hx]
        exact (hfits p hp x).2 (hset p hp x hx)

/-! ## The values of an accepted selection -/

/-- What a setting resolves to is what it becomes, provided the alternatives
return what completes a selection. -/
theorem Parameter.Sound.becomes_of_resolve {p : Parameter} (h : p.Sound)
    (ih : ∀ a ∈ p.alternatives, ∀ s v, a.validate s = .ok v →
      a.Completes s.settings v.entries)
    {x y : Setting} (hy : p.resolve x = .ok y) : p.Becomes x y := by
  rcases h.resolve_eq_ok_iff.1 hy with ⟨hadmits, rfl⟩ | ⟨a, ha, settings, entries, rfl, hv, rfl⟩
  · exact .scalar (kind_ne_choice_of_admits hadmits)
  · exact .choice ha (ih a ha _ _ hv)

theorem Component.Sound.completes_of_validate {c : Component} (h : c.Sound) {s : Selection}
    {v : Values} (hv : c.validate s = .ok v) : c.Completes s.settings v.entries := by
  induction c using Component.induction generalizing s v with
  | step c ih =>
    refine .mk (keys_of_validate hv) fun p hp y hy => ?_
    have hresolve := h.resolve_of_validate hv hp hy
    exact (h.parameter hp).becomes_of_resolve
      (fun a ha s v hv => ih p hp a ha ((h.parameter hp).alternative ha) hv) hresolve

/-- What a setting resolves to is complete, provided the values that the
alternatives return are. -/
theorem Parameter.Sound.holds_of_resolve {p : Parameter} (h : p.Sound)
    (ih : ∀ a ∈ p.alternatives, ∀ s v, a.validate s = .ok v → a.Filled v.entries)
    {x y : Setting} (hy : p.resolve x = .ok y) : p.Holds y := by
  rcases h.resolve_eq_ok_iff.1 hy with ⟨hadmits, rfl⟩ | ⟨a, ha, settings, entries, rfl, hv, rfl⟩
  · exact .scalar hadmits
  · exact .choice ha (ih a ha _ _ hv)

theorem Component.Sound.filled_of_validate {c : Component} (h : c.Sound) {s : Selection}
    {v : Values} (hv : c.validate s = .ok v) : c.Filled v.entries := by
  induction c using Component.induction generalizing s v with
  | step c ih =>
    refine .mk (keys_of_validate hv) fun p hp y hy => ?_
    have hresolve := h.resolve_of_validate hv hp hy
    exact (h.parameter hp).holds_of_resolve
      (fun a ha s v hv => ih p hp a ha ((h.parameter hp).alternative ha) hv) hresolve

/-- A setting becomes one value only, provided the settings of the
alternatives are completed in one way. -/
theorem Parameter.Sound.becomes_unique {p : Parameter} (h : p.Sound)
    (ih : ∀ a ∈ p.alternatives, ∀ settings xs ys,
      a.Completes settings xs → a.Completes settings ys → xs = ys)
    {x y z : Setting} (hy : p.Becomes x y) (hz : p.Becomes x z) : y = z := by
  cases hy with
  | scalar hkind =>
    cases hz with
    | scalar _ => rfl
    | choice ha _ =>
      rw [alternatives_eq_nil hkind] at ha
      exact absurd ha List.not_mem_nil
  | @choice _ a settings entries ha hentries =>
    generalize hx : Setting.component a.name settings = x at hz
    cases hz with
    | scalar hkind =>
      rw [alternatives_eq_nil hkind] at ha
      exact absurd ha List.not_mem_nil
    | choice hb hothers =>
      injection hx with hname hsettings
      subst hsettings
      obtain rfl := eq_of_name_eq h.alternatives_nodup ha hb hname
      rw [ih a ha _ _ _ hentries hothers]

/-- The settings of a sound component are completed in one way only. -/
theorem Component.Sound.completes_unique {c : Component} (h : c.Sound)
    {settings xs ys : List (String × Setting)} (hxs : c.Completes settings xs)
    (hys : c.Completes settings ys) : xs = ys := by
  induction c using Component.induction generalizing settings xs ys with
  | step c ih =>
    obtain ⟨hkeys, hx⟩ := hxs
    obtain ⟨hkeys', hy⟩ := hys
    refine eq_of_keys_eq (by rw [hkeys]; exact h.names_nodup) (by rw [hkeys, hkeys']) ?_
    intro k y z hmem hmem'
    obtain ⟨p, hp, rfl⟩ := exists_item_of_mem hkeys hmem
    exact (h.parameter hp).becomes_unique
      (fun a ha _ _ _ hxs hys => ih p hp a ha ((h.parameter hp).alternative ha) hxs hys)
      (hx p hp y hmem) (hy p hp z hmem')

/-! ## Checking meets the rules -/

/-- A component that can be built accepts exactly the selections whose settings
conform to it. Of each it returns, under its own name, the one list of entries
that completes the settings, and that list is complete at every depth. -/
theorem validate_meets_rules (c : Component) (hc : c.Built) (s : Selection) :
    ((∃ v, c.validate s = .ok v) ↔ c.Conforms s.settings) ∧
    (∀ v, c.validate s = .ok v ↔
      c.Conforms s.settings ∧ v.name = c.name ∧ c.Completes s.settings v.entries) ∧
    (∀ v, c.validate s = .ok v → c.Filled v.entries) := by
  have haccept := hc.sound.exists_validate_iff_conforms s
  refine ⟨haccept, fun v => ⟨fun hv => ?_, ?_⟩, fun v hv => hc.sound.filled_of_validate hv⟩
  · exact ⟨haccept.1 ⟨v, hv⟩, (Component.validate_eq_ok_iff.1 hv).1,
      hc.sound.completes_of_validate hv⟩
  · intro hrules
    obtain ⟨hconforms, hname, hcompletes⟩ := hrules
    obtain ⟨⟨name, entries⟩, hw⟩ := haccept.2 hconforms
    obtain ⟨vname, ventries⟩ := v
    obtain rfl : name = c.name := (Component.validate_eq_ok_iff.1 hw).1
    obtain rfl : vname = c.name := hname
    obtain rfl : ventries = entries :=
      hc.sound.completes_unique hcompletes (hc.sound.completes_of_validate hw)
    exact hw

/-- The HNSW schema under a selection of the 16-bit encoder that leaves a
parameter out at both levels. -/
theorem validate_meets_rules_hnsw :
    ∃ c : Component, Hnsw.component .builtIn = .ok c ∧ c.Built ∧
      c.Conforms [("encoder", .component "sq" [("type", .text "bf16")])] ∧
      c.Completes [("encoder", .component "sq" [("type", .text "bf16")])]
        [("m", .integer 16), ("ef_construction", .integer 100), ("ef_search", .integer 100),
          ("encoder", .component "sq" [("type", .text "bf16"), ("clip", .boolean false)])] := by
  let s : Selection := ⟨"", [("encoder", .component "sq" [("type", .text "bf16")])]⟩
  obtain ⟨c, hc, hv⟩ : ∃ c, Hnsw.component .builtIn = .ok c ∧ c.validate s = .ok
      ⟨"hnsw", [("m", .integer 16), ("ef_construction", .integer 100),
        ("ef_search", .integer 100),
        ("encoder", .component "sq" [("type", .text "bf16"), ("clip", .boolean false)])]⟩ :=
    ⟨_, rfl, rfl⟩
  have hbuilt := Hnsw.built hc
  obtain ⟨hconforms, -, hcompletes⟩ := ((validate_meets_rules c hbuilt s).2.1 _).1 hv
  exact ⟨c, hc, hbuilt, hconforms, hcompletes⟩

/-! ## Nothing set -/

/-- A sound component accepts a selection that sets nothing, under any name. Every
parameter resolves its default. -/
theorem Component.Sound.exists_validate_plain {c : Component} (h : c.Sound) (name : String) :
    ∃ v, c.validate (.plain name) = .ok v ∧ v.name = c.name ∧
      List.Forall₂ (fun p entry => entry.1 = p.name ∧ p.resolve p.default = .ok entry.2)
        c.parameters v.entries := by
  have hconforms : c.Conforms (Selection.plain name).settings :=
    .mk (by simp [Selection.plain]) (by simp [Selection.plain])
  obtain ⟨v, hv⟩ := (h.exists_validate_iff_conforms _).2 hconforms
  obtain ⟨hname, hentries, -⟩ := validate_eq_ok_iff.1 hv
  exact ⟨v, hv, hname, hentries⟩

/-- A sound component accepts a selection that sets nothing but an alternative, and
nothing of that, if and only if the parameter offers the alternative. -/
theorem Component.Sound.exists_validate_alternative_iff {c : Component} (h : c.Sound)
    {p : Parameter} (hp : p ∈ c.parameters) (name selected : String) :
    (∃ v, c.validate ⟨name, [(p.name, .component selected [])]⟩ = .ok v) ↔
      selected ∈ p.alternatives.map Component.name := by
  let s : Selection := ⟨name, [(p.name, .component selected [])]⟩
  have hset : s.settingFor p = .component selected [] :=
    Selection.settingFor_of_lookup_some (by simp [s])
  rw [exists_validate_iff]
  constructor
  · intro haccepted
    obtain ⟨y, hy⟩ := haccepted.1 p hp
    rw [hset] at hy
    rcases (h.parameter hp).resolve_eq_ok_iff.1 hy with ⟨hadmits, -⟩ | ⟨a, ha, _, _, heq, -⟩
    · cases p <;> cases hadmits
    · cases heq
      exact List.mem_map_of_mem ha
  · intro hselected
    obtain ⟨a, ha, rfl⟩ := List.mem_map.1 hselected
    refine ⟨fun q hq => ?_, by simpa using ⟨p, hp, rfl⟩⟩
    by_cases hname : q.name = p.name
    · obtain rfl : q = p := eq_of_name_eq h.names_nodup hq hp hname
      obtain ⟨⟨vname, entries⟩, hv, rfl, -⟩ :=
        ((h.parameter hp).alternative ha).exists_validate_plain a.name
      refine ⟨.component a.name entries, ?_⟩
      rw [hset]
      exact (h.parameter hp).resolve_eq_ok_iff.2 (.inr ⟨a, ha, [], entries, rfl, hv, rfl⟩)
    · rw [Selection.settingFor_of_lookup_none (by simp [hname])]
      exact (h.parameter hq).resolve_default

/-- Whatever the calls that built them, parameters and components are sound at
every level: names are distinct, templates show declared parameters, a choice
has alternatives and its default names one of them, and defaults are accepted.
So a component completes the selection that sets nothing by the resolved
defaults. -/
theorem built_invariant :
    (∀ p : Parameter, p.Built → p.Sound) ∧
    ∀ c : Component, c.Built → c.Sound ∧
      ∀ name, ∃ v, c.validate (.plain name) = .ok v ∧ v.name = c.name ∧
        List.Forall₂ (fun p entry => entry.1 = p.name ∧ p.resolve p.default = .ok entry.2)
          c.parameters v.entries ∧
        c.Completes [] v.entries ∧ c.Filled v.entries := by
  refine ⟨fun p hp => hp.sound, fun c hc => ⟨hc.sound, fun name => ?_⟩⟩
  obtain ⟨v, hv, hname, hdefaults⟩ := hc.sound.exists_validate_plain name
  exact ⟨v, hv, hname, hdefaults, hc.sound.completes_of_validate hv,
    hc.sound.filled_of_validate hv⟩

/-- The choice of an encoder and the HNSW schema around it. -/
theorem built_invariant_hnsw :
    ∃ (p : Parameter) (c : Component), Hnsw.encoder = .ok p ∧
      Hnsw.component .builtIn = .ok c ∧ p.Built ∧ c.Built ∧ p.Sound ∧ c.Sound ∧
      c.Completes []
        [("m", .integer 16), ("ef_construction", .integer 100), ("ef_search", .integer 100),
          ("encoder", .component "flat" [])] := by
  obtain ⟨p, hp⟩ : ∃ p, Hnsw.encoder = .ok p := ⟨_, rfl⟩
  obtain ⟨c, hc, hv⟩ : ∃ c, Hnsw.component .builtIn = .ok c ∧ c.validate (.plain "") = .ok
      ⟨"hnsw", [("m", .integer 16), ("ef_construction", .integer 100),
        ("ef_search", .integer 100), ("encoder", .component "flat" [])]⟩ := ⟨_, rfl, rfl⟩
  have hpbuilt := Hnsw.built_encoder hp
  have hcbuilt := Hnsw.built hc
  obtain ⟨hsound, hplain⟩ := built_invariant.2 c hcbuilt
  obtain ⟨v, hv', -, -, hcompletes, -⟩ := hplain ""
  rw [hv] at hv'
  cases hv'
  exact ⟨p, c, hp, hc, hpbuilt, hcbuilt, built_invariant.1 p hpbuilt, hsound, hcompletes⟩

end VectorIndex
