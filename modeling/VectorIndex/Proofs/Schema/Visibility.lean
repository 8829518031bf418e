import VectorIndex.Proofs.Hnsw
import VectorIndex.Proofs.Schema.SettingsMap

/-!
# What a description depends on

A description reads of the values of a component what the template shows, and of
the values of a shown choice what the template of the selected alternative shows.
Nothing else has a part in it.

* `Component.ShowsAlike`: two lists of values agree on what the templates read.
* `Component.Owns.description_eq_of_showsAlike`: they have one description.
* `Component.DiffersUnshown`: two lists of settings differ only in scalars that the
  template of their own component does not show, at any depth.
* `Component.Sound.showsAlike_of_differsUnshown`: their values agree on what is read.

`unshown_settings_do_not_leak` puts both together.
-/

namespace VectorIndex

/-! ## Values that agree on what is shown -/

mutual

/-- Two values of a shown parameter agree: they are the same scalar, or values of
one alternative that agree on what its template shows. -/
inductive Parameter.ShowsAlike : Parameter → Setting → Setting → Prop where
  | scalar {p x} : x.IsScalar → Parameter.ShowsAlike p x x
  | choice {p a xs ys} :
      a ∈ p.alternatives → Component.ShowsAlike a xs ys →
      Parameter.ShowsAlike p (.component a.name xs) (.component a.name ys)

/-- Two lists of values of a component agree on what its template shows, whatever
else is in them. Without a template there is nothing to agree on. -/
inductive Component.ShowsAlike :
    Component → List (String × Setting) → List (String × Setting) → Prop where
  | mk {c xs ys} :
      (∀ p ∈ c.parameters, c.shows p.name = true → ∀ x y,
        (p.name, x) ∈ xs → (p.name, y) ∈ ys → Parameter.ShowsAlike p x y) →
      Component.ShowsAlike c xs ys

end

namespace Component

theorem shows_of_slot {c : Component} {t : Template} (ht : c.template = some t) {slot : Slot}
    (hslot : slot ∈ t.slots) : c.shows slot.name = true := by
  rw [shows, ht, Option.any_some, Template.shows, List.any_eq_true]
  exact ⟨slot, hslot, beq_self_eq_true _⟩

/-- A template is filled alike if each slot is. -/
theorem description_congr {c : Component} {v w : Values}
    (h : ∀ t, c.template = some t → ∀ slot ∈ t.slots,
      slot.fill (settingTexts c v.entries) = slot.fill (settingTexts c w.entries)) :
    c.description v = c.description w := by
  refine Option.map_congr fun t ht => ?_
  rw [Template.fill_eq_join, Template.fill_eq_join, List.map_congr_left (h t ht)]

/-- Values that agree on what is shown have the same text, provided the alternatives
describe such values alike. -/
theorem Owns.settingText_eq {c : Component} {v w : Values} (hv : c.Owns v) (hw : c.Owns w)
    {p : Parameter} (hp : p ∈ c.parameters)
    (ih : ∀ a ∈ p.alternatives, ∀ v w : Values, a.Owns v → a.Owns w →
      a.ShowsAlike v.entries w.entries → a.description v = a.description w)
    {x y : Setting} (hx : (p.name, x) ∈ v.entries) (hy : (p.name, y) ∈ w.entries)
    (h : p.ShowsAlike x y) : settingText c p.name x = settingText c p.name y := by
  cases h with
  | scalar => rfl
  | @choice _ a xs ys ha hshows =>
    have hselect := hv.sound.select?_eq_some_iff.2 ⟨p, hp, ha, rfl, rfl⟩
    rw [settingText_component, settingText_component, hselect, Option.bind_some, Option.bind_some]
    exact ih a ha ⟨a.name, xs⟩ ⟨a.name, ys⟩ (hv.alternative hp ha hx) (hw.alternative hp ha hy)
      hshows

/-- Values that agree on what the templates read have one description. -/
theorem Owns.description_eq_of_showsAlike {c : Component} {v w : Values} (hv : c.Owns v)
    (hw : c.Owns w) (h : c.ShowsAlike v.entries w.entries) :
    c.description v = c.description w := by
  induction c using Component.induction generalizing v w with
  | step c ih =>
    obtain ⟨hshown⟩ := h
    refine description_congr fun t ht slot hslot => ?_
    have hdeclared := hv.sound.slot_declared ht hslot
    obtain ⟨x, hx⟩ := hv.filled.exists_lookup hdeclared
    obtain ⟨y, hy⟩ := hw.filled.exists_lookup hdeclared
    obtain ⟨p, hp, hname⟩ := List.mem_map.1 hdeclared
    have hx' : (p.name, x) ∈ v.entries := hname ▸ mem_of_lookup hx
    have hy' : (p.name, y) ∈ w.entries := hname ▸ mem_of_lookup hy
    have hpshown : c.shows p.name = true := hname ▸ shows_of_slot ht hslot
    have htext := hv.settingText_eq hw hp (fun a ha _ _ => ih p hp a ha) hx' hy'
      (hshown p hp hpshown x y hx' hy')
    rw [hname] at htext
    rw [fill_slot hx, fill_slot hy, htext]

end Component

/-! ## Settings that differ in what is not shown -/

mutual

/-- Two settings of a choice differ in scalars that are not shown: they are the same,
or both select one alternative and differ so in its settings. -/
inductive Parameter.DiffersUnshown : Parameter → Setting → Setting → Prop where
  | same {p x} : Parameter.DiffersUnshown p x x
  | choice {p a xs ys} :
      a ∈ p.alternatives → Component.DiffersUnshown a xs ys →
      Parameter.DiffersUnshown p (.component a.name xs) (.component a.name ys)

/-- Two lists of settings of a component differ only in scalars that its template
does not show, and below each choice in such scalars of the selected alternative. A
parameter that is left out counts as set to its default. -/
inductive Component.DiffersUnshown :
    Component → List (String × Setting) → List (String × Setting) → Prop where
  | mk {c xs ys} :
      (∀ p ∈ c.parameters, p.kind ≠ .choice → c.shows p.name = true →
        (xs.lookup p.name).getD p.default = (ys.lookup p.name).getD p.default) →
      (∀ p ∈ c.parameters, p.kind = .choice → Parameter.DiffersUnshown p
        ((xs.lookup p.name).getD p.default) ((ys.lookup p.name).getD p.default)) →
      Component.DiffersUnshown c xs ys

end

/-- A complete value agrees with itself, provided those of the alternatives do. -/
theorem Parameter.Holds.showsAlike_self {p : Parameter} {x : Setting} (h : p.Holds x)
    (ih : ∀ a ∈ p.alternatives, ∀ xs, a.Filled xs → a.ShowsAlike xs xs) : p.ShowsAlike x x := by
  rcases holds_iff.1 h with hadmits | ⟨a, ha, xs, hfilled, rfl⟩
  · exact .scalar (isScalar_of_admits hadmits)
  · exact .choice ha (ih a ha xs hfilled)

/-- Complete values agree with themselves. -/
theorem Component.Filled.showsAlike_self {c : Component} (hc : c.Sound)
    {xs : List (String × Setting)} (h : c.Filled xs) : c.ShowsAlike xs xs := by
  induction c using Component.induction generalizing xs with
  | step c ih =>
    have hnodup := h.keys_nodup hc
    obtain ⟨-, hholds⟩ := h
    refine .mk fun p hp _ x y hx hy => ?_
    obtain rfl : x = y := congrArg Prod.snd (eq_of_name_eq hnodup hx hy rfl)
    exact (hholds p hp x hx).showsAlike_self
      fun a ha _ hfilled => ih p hp a ha ((hc.parameter hp).alternative ha) hfilled

/-- What two such settings of a choice resolve to agrees, provided the alternatives
make agreeing values of such settings. -/
theorem Parameter.DiffersUnshown.showsAlike {p : Parameter} (hp : p.Sound)
    {x y x' y' : Setting} (h : p.DiffersUnshown x y) (hx : p.resolve x = .ok x')
    (hy : p.resolve y = .ok y') (hself : p.ShowsAlike x' x')
    (ih : ∀ a ∈ p.alternatives, ∀ s t v w, a.validate s = .ok v → a.validate t = .ok w →
      a.DiffersUnshown s.settings t.settings → a.ShowsAlike v.entries w.entries) :
    p.ShowsAlike x' y' := by
  cases h with
  | same =>
    rw [hx] at hy
    cases hy
    exact hself
  | @choice _ a xs ys ha hdiffers =>
    obtain ⟨xs', hv, rfl⟩ := (hp.resolve_alternative_eq_ok_iff ha).1 hx
    obtain ⟨ys', hw, rfl⟩ := (hp.resolve_alternative_eq_ok_iff ha).1 hy
    exact .choice ha (ih a ha _ _ _ _ hv hw hdiffers)

/-- The values of two accepted selections that differ in what is not shown agree on
what is shown. -/
theorem Component.Sound.showsAlike_of_differsUnshown {c : Component} (hc : c.Sound)
    {s t : Selection} {v w : Values} (hv : c.validate s = .ok v) (hw : c.validate t = .ok w)
    (h : c.DiffersUnshown s.settings t.settings) : c.ShowsAlike v.entries w.entries := by
  induction c using Component.induction generalizing s t v w with
  | step c ih =>
    obtain ⟨hscalar, hchoice⟩ := h
    refine .mk fun p hp hshown x y hx hy => ?_
    have hpsound := hc.parameter hp
    have hresolve := hc.resolve_of_validate hv hp hx
    have hresolve' := hc.resolve_of_validate hw hp hy
    obtain ⟨-, hholds⟩ := hc.filled_of_validate hv
    have hself : p.ShowsAlike x x := (hholds p hp x hx).showsAlike_self
      fun a ha _ hfilled => hfilled.showsAlike_self (hpsound.alternative ha)
    by_cases hkind : p.kind = .choice
    · exact (hchoice p hp hkind).showsAlike hpsound hresolve hresolve' hself
        fun a ha _ _ _ _ hv hw hdiffers => ih p hp a ha (hpsound.alternative ha) hv hw hdiffers
    · have hsame : s.settingFor p = t.settingFor p := hscalar p hp hkind hshown
      rw [hsame, hresolve'] at hresolve
      cases hresolve
      exact hself

/-! ## No leak into the description -/

/-- Two values that a built component returned have one description if they agree on
what the templates read, whatever else is in them. So do the values of two accepted
selections that differ, at any depth, only in scalars that the template of their own
component does not show. -/
theorem unshown_settings_do_not_leak (c : Component) (hc : c.Built) (s t : Selection)
    (v w : Values) (hv : c.validate s = .ok v) (hw : c.validate t = .ok w) :
    (c.ShowsAlike v.entries w.entries → c.description v = c.description w) ∧
    (c.DiffersUnshown s.settings t.settings →
      c.ShowsAlike v.entries w.entries ∧ c.description v = c.description w) := by
  have hdescription : c.ShowsAlike v.entries w.entries → c.description v = c.description w :=
    (hc.owns hv).description_eq_of_showsAlike (hc.owns hw)
  refine ⟨hdescription, fun hdiffers => ?_⟩
  have hshows := hc.sound.showsAlike_of_differsUnshown hv hw hdiffers
  exact ⟨hshows, hdescription hshows⟩

/-- The HNSW schema under two selections of the 16-bit encoder. One of them clips and
builds with another effort, the other spells the default format out and searches with
another effort. -/
theorem unshown_settings_do_not_leak_clip :
    ∃ (c : Component) (s t : Selection) (v w : Values),
      Hnsw.component .builtIn = .ok c ∧ c.Built ∧
      s = ⟨"hnsw", [("ef_construction", .integer 7),
        ("encoder", .component "sq" [("clip", .boolean true)])]⟩ ∧
      t = ⟨"", [("ef_search", .integer 9),
        ("encoder", .component "sq" [("type", .text "fp16")])]⟩ ∧
      c.validate s = .ok v ∧ c.validate t = .ok w ∧ v ≠ w ∧
      c.DiffersUnshown s.settings t.settings ∧ c.ShowsAlike v.entries w.entries ∧
      c.description v = some "HNSW16,SQfp16" ∧ c.description w = some "HNSW16,SQfp16" := by
  let c : Component := Hnsw.schema .builtIn
  let s : Selection := ⟨"hnsw", [("ef_construction", .integer 7),
    ("encoder", .component "sq" [("clip", .boolean true)])]⟩
  let t : Selection := ⟨"", [("ef_search", .integer 9),
    ("encoder", .component "sq" [("type", .text "fp16")])]⟩
  have hbuilt : c.Built := Hnsw.built (d := .builtIn) rfl
  obtain ⟨v, w, hv, hw, hne, hdescription⟩ : ∃ v w, c.validate s = .ok v ∧
      c.validate t = .ok w ∧ v ≠ w ∧ c.description v = some "HNSW16,SQfp16" :=
    ⟨_, _, rfl, rfl, by decide, rfl⟩
  have hencoder : Encoder.sq.schema.DiffersUnshown [("clip", .boolean true)]
      [("type", .text "fp16")] := by
    refine .mk (List.forall_mem_cons.2 ⟨fun _ _ => rfl, List.forall_mem_singleton.2 ?_⟩)
      (List.forall_mem_cons.2 ⟨nofun, List.forall_mem_singleton.2 nofun⟩)
    exact fun _ hshown => absurd hshown (by decide)
  have hdiffers : c.DiffersUnshown s.settings t.settings := by
    refine .mk ?_ ?_
    · refine List.forall_mem_cons.2 ⟨fun _ _ => rfl, List.forall_mem_cons.2 ⟨fun _ hshown => ?_,
        List.forall_mem_cons.2 ⟨fun _ hshown => ?_, List.forall_mem_singleton.2 ?_⟩⟩⟩
      · exact absurd hshown (by decide)
      · exact absurd hshown (by decide)
      · exact fun hkind => absurd rfl hkind
    · refine List.forall_mem_cons.2 ⟨nofun, List.forall_mem_cons.2 ⟨nofun,
        List.forall_mem_cons.2 ⟨nofun, List.forall_mem_singleton.2 fun _ => ?_⟩⟩⟩
      exact .choice (p := Hnsw.encoderChoice) (.tail _ (.head _)) hencoder
  have hleak := unshown_settings_do_not_leak c hbuilt s t v w hv hw
  have hshows := (hleak.2 hdiffers).1
  exact ⟨c, s, t, v, w, rfl, hbuilt, rfl, rfl, hv, hw, hne, hdiffers, hshows, hdescription,
    (hleak.1 hshows).symm.trans hdescription⟩

end VectorIndex
