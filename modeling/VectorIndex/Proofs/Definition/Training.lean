import VectorIndex.Proofs.Definition.Compilation
import VectorIndex.Proofs.Hnsw.Configuration
import VectorIndex.Proofs.Schema.ValueOrder

/-!
# When an index has to be trained

An index has to be trained if a component that asks for it is used. The components
that values use are the one they belong to and, from there on down, the alternatives
that they select.

* `Component.Uses`: the components that values use, by the names under which
  alternatives are offered.
* `Component.Owns.trainingRequired_iff_uses`: training is needed if one of them asks
  for it.
* `Component.SelectsAlike`: two selections choose the same alternatives at every depth.
* `Component.OffersAlike`: two schemas have the same training flags as far as some
  values go.

`training_follows_selection` adds what this comes to for definitions of the HNSW method.
-/

namespace VectorIndex

/-! ## The components in use -/

/-- A component is used by values of `c`: it is `c`, or it is used by the values below
an alternative that a choice of `c` offers and the values select. -/
inductive Component.Uses : Component → List (String × Setting) → Component → Prop where
  | here {c xs} : Uses c xs c
  | step {c xs p a inner b} :
      p ∈ c.parameters → a ∈ p.alternatives → (p.name, .component a.name inner) ∈ xs →
      Uses a inner b → Uses c xs b

namespace Component

/-- Training is needed if the component asks for it, or if it is needed for an
alternative that the values select. -/
theorem Owns.trainingRequired_iff {c : Component} {v : Values} (h : c.Owns v) :
    c.trainingRequired v = true ↔ c.training = true ∨
      ∃ p ∈ c.parameters, ∃ a ∈ p.alternatives, ∃ inner,
        (p.name, .component a.name inner) ∈ v.entries ∧
        a.trainingRequired ⟨a.name, inner⟩ = true := by
  rw [trainingRequired_eq_true_iff]
  refine or_congr_right ⟨fun hbelow => ?_, fun hbelow => ?_⟩
  · obtain ⟨k, selected, inner, a, hmem, hselect, htrains⟩ := hbelow
    obtain ⟨p, hp, ha, rfl, rfl⟩ := h.sound.select?_eq_some_iff.1 hselect
    exact ⟨p, hp, a, ha, inner, hmem, htrains⟩
  · obtain ⟨p, hp, a, ha, inner, hmem, htrains⟩ := hbelow
    have hselect := h.sound.select?_eq_some_iff.2 ⟨p, hp, ha, rfl, rfl⟩
    exact ⟨p.name, a.name, inner, a, hmem, hselect, htrains⟩

/-- Training is needed if and only if one of the components in use asks for it. -/
theorem Owns.trainingRequired_iff_uses {c : Component} {v : Values} (h : c.Owns v) :
    c.trainingRequired v = true ↔ ∃ b, c.Uses v.entries b ∧ b.training = true := by
  induction c using Component.induction generalizing v with
  | step c ih =>
    rw [h.trainingRequired_iff]
    constructor
    · rintro (htraining | ⟨p, hp, a, ha, inner, hmem, htrains⟩)
      · exact ⟨c, .here, htraining⟩
      · obtain ⟨b, huses, hb⟩ := (ih p hp a ha (h.alternative hp ha hmem)).1 htrains
        exact ⟨b, .step hp ha hmem huses, hb⟩
    · rintro ⟨b, huses, hb⟩
      cases huses with
      | here => exact .inl hb
      | @step _ _ p a inner _ hp ha hmem huses =>
        exact .inr ⟨p, hp, a, ha, inner, hmem,
          (ih p hp a ha (h.alternative hp ha hmem)).2 ⟨b, huses, hb⟩⟩

end Component

/-! ## Selections of the same alternatives -/

mutual

/-- Two settings of a choice select the same alternative, and alike below it. -/
inductive Parameter.SelectsAlike : Parameter → Setting → Setting → Prop where
  | mk {p a xs ys} :
      a ∈ p.alternatives → Component.SelectsAlike a xs ys →
      Parameter.SelectsAlike p (.component a.name xs) (.component a.name ys)

/-- Two lists of settings select the same alternative for every choice of a
component, be it set or by default. Nothing is said of scalars. -/
inductive Component.SelectsAlike :
    Component → List (String × Setting) → List (String × Setting) → Prop where
  | mk {c xs ys} :
      (∀ p ∈ c.parameters, p.kind = .choice → Parameter.SelectsAlike p
        ((xs.lookup p.name).getD p.default) ((ys.lookup p.name).getD p.default)) →
      Component.SelectsAlike c xs ys

end

/-- What a scalar parameter resolves to does not ask for training. -/
theorem settingTrains_of_resolve {p : Parameter} (hkind : p.kind ≠ .choice) {x y : Setting}
    (hy : p.resolve x = .ok y) (c : Component) (k : String) : settingTrains c k y = false := by
  obtain ⟨hadmits, rfl⟩ := (Parameter.resolve_scalar_eq_ok_iff hkind).1 hy
  cases y with
  | boolean | integer | text => simp [settingTrains]
  | component => exact (Parameter.isScalar_of_admits hadmits).elim

/-- What two such settings resolve to asks alike for training, provided that such
selections do so for the alternatives. -/
theorem Parameter.SelectsAlike.settingTrains_eq {c : Component} (hc : c.Sound) {p : Parameter}
    (hp : p ∈ c.parameters) {x y x' y' : Setting} (h : p.SelectsAlike x y)
    (hx : p.resolve x = .ok x') (hy : p.resolve y = .ok y')
    (ih : ∀ a ∈ p.alternatives, ∀ s t v w, a.validate s = .ok v → a.validate t = .ok w →
      a.SelectsAlike s.settings t.settings → a.trainingRequired v = a.trainingRequired w) :
    settingTrains c p.name x' = settingTrains c p.name y' := by
  cases h with
  | @mk _ a xs ys ha hselects =>
    have hpsound := hc.parameter hp
    have hselect := hc.select?_eq_some_iff.2 ⟨p, hp, ha, rfl, rfl⟩
    obtain ⟨xs', hv, rfl⟩ := (hpsound.resolve_alternative_eq_ok_iff ha).1 hx
    obtain ⟨ys', hw, rfl⟩ := (hpsound.resolve_alternative_eq_ok_iff ha).1 hy
    rw [settingTrains_component hselect, settingTrains_component hselect]
    exact ih a ha _ _ _ _ hv hw hselects

/-- Accepted selections of the same alternatives need training alike. -/
theorem Component.Sound.trainingRequired_eq_of_selectsAlike {c : Component} (hc : c.Sound)
    {s t : Selection} {v w : Values} (hv : c.validate s = .ok v) (hw : c.validate t = .ok w)
    (h : c.SelectsAlike s.settings t.settings) : c.trainingRequired v = c.trainingRequired w := by
  induction c using Component.induction generalizing s t v w with
  | step c ih =>
    obtain ⟨hchoice⟩ := h
    have hkeys := keys_of_validate hv
    have hnodup := (hc.filled_of_validate hv).keys_nodup hc
    have hperm : (v.entries.map Prod.fst).Perm (w.entries.map Prod.fst) := by
      rw [hkeys, keys_of_validate hw]
    have hbelow : settingsTrain c v.entries = settingsTrain c w.entries := by
      refine settingsTrain_eq hnodup hperm fun k x y hx hy => ?_
      obtain ⟨p, hp, rfl⟩ := exists_item_of_mem hkeys hx
      have hresolve := hc.resolve_of_validate hv hp hx
      have hresolve' := hc.resolve_of_validate hw hp hy
      by_cases hkind : p.kind = .choice
      · exact (hchoice p hp hkind).settingTrains_eq hc hp hresolve hresolve' fun a ha _ _ _ _ =>
          ih p hp a ha ((hc.parameter hp).alternative ha)
      · rw [settingTrains_of_resolve hkind hresolve, settingTrains_of_resolve hkind hresolve']
    rw [trainingRequired, trainingRequired, hbelow]

/-! ## Schemas that offer other alternatives besides -/

/-- Two components have the same training flag, and so have at every depth the
alternatives of one name that values select from them. What else they offer is left
open. -/
inductive Component.OffersAlike : Component → Component → List (String × Setting) → Prop where
  | mk {c d xs} :
      d.training = c.training →
      (∀ p ∈ c.parameters, ∀ q ∈ d.parameters, q.name = p.name →
        ∀ a ∈ p.alternatives, ∀ b ∈ q.alternatives, b.name = a.name →
          ∀ inner, (p.name, .component a.name inner) ∈ xs → OffersAlike a b inner) →
      OffersAlike c d xs

theorem Component.Sound.offersAlike_self {c : Component} (h : c.Sound)
    (xs : List (String × Setting)) : c.OffersAlike c xs := by
  induction c using Component.induction generalizing xs with
  | step c ih =>
    refine .mk rfl fun p hp q hq hqname a ha b hb hbname inner _ => ?_
    obtain rfl : q = p := eq_of_name_eq h.names_nodup hq hp hqname
    obtain rfl : b = a := eq_of_name_eq (h.parameter hp).alternatives_nodup hb ha hbname
    exact ih q hp b ha ((h.parameter hp).alternative ha) inner

/-- An alternative that is not selected does not matter to training. -/
theorem Component.OffersAlike.trainingRequired_eq {c d : Component} {v : Values}
    (h : c.OffersAlike d v.entries) (hc : c.Owns v) (hd : d.Owns v) :
    d.trainingRequired v = c.trainingRequired v := by
  induction c using Component.induction generalizing d v with
  | step c ih =>
    obtain ⟨htraining, hoffers⟩ := h
    have hbelow : ∀ entry ∈ v.entries,
        settingTrains d entry.1 entry.2 = settingTrains c entry.1 entry.2 := by
      intro entry hmem
      obtain ⟨k, x⟩ := entry
      cases x with
      | boolean | integer | text => simp only [settingTrains]
      | component selected inner =>
        obtain ⟨-, -, a, -, hselect, howns⟩ := hc.exists_select hmem
        obtain ⟨-, -, b, -, hselect', howns'⟩ := hd.exists_select hmem
        obtain ⟨p, hp, ha, rfl, rfl⟩ := hc.sound.select?_eq_some_iff.1 hselect
        obtain ⟨q, hq, hb, hqname, hbname⟩ := hd.sound.select?_eq_some_iff.1 hselect'
        rw [settingTrains_component hselect, settingTrains_component hselect']
        exact ih p hp a ha (hoffers p hp q hq hqname a ha b hb hbname inner hmem) howns howns'
    have hsettings : settingsTrain d v.entries = settingsTrain c v.entries := by
      rw [settingsTrain_eq_any, settingsTrain_eq_any, Bool.eq_iff_iff, List.any_eq_true,
        List.any_eq_true]
      exact exists_congr fun entry => and_congr_right fun hmem => by rw [hbelow entry hmem]
    rw [trainingRequired, trainingRequired, htraining, hsettings]

/-! ## The HNSW method -/

/-- The only encoder that asks for training is that by codes. -/
theorem Hnsw.trainingRequired_values (d : Defaults) (x : Configuration) :
    (schema d).trainingRequired x.values = decide (x.encoding.encoder = .pq) := by
  obtain ⟨m, construction, search, encoding, -, -, -⟩ := x
  cases encoding <;> rfl

/-- A compiled definition of the method needs training if and only if its effective
encoder is that by codes. -/
theorem Hnsw.trainingRequired_of_compile {defaults : Defaults} {m : Method}
    (hm : method defaults = .ok m) {d : Definition} {r : Compiled} (hr : d.compile m = .ok r) :
    r.trainingRequired = true ↔
      ∃ inner, r.values.get? encoderParameter = some (.component Encoder.pq.name inner) := by
  obtain ⟨-, -, v, hv, rfl⟩ := Definition.compile_eq_ok_iff.1 hr
  obtain ⟨x, rfl⟩ := exists_configuration hm hv
  obtain ⟨-, rfl⟩ := method_eq_ok_iff.1 hm
  have hencoder : x.values.get? encoderParameter = some x.encoding.setting := rfl
  show (schema defaults).trainingRequired x.values = true ↔
    ∃ inner, x.values.get? encoderParameter = some (.component Encoder.pq.name inner)
  rw [trainingRequired_values, decide_eq_true_eq, hencoder]
  constructor
  · intro hpq
    exact ⟨x.encoding.entries, by rw [Encoding.setting, hpq]⟩
  · intro hpq
    obtain ⟨inner, hinner⟩ := hpq
    exact Encoder.name_injective (Setting.component.inj (Option.some.inj hinner)).1

/-! ## Training follows the selection -/

/-- The values that a built component returned need training if and only if a
component in use asks for it: the component itself, or an alternative that a choice
selects, set or by default and shown or not, or one below that. So two selections of
the same alternatives need it alike, whatever their scalars are, and so do two schemas
that differ in alternatives which are not selected. A definition that the HNSW method
compiles needs training if and only if the effective encoder is that by codes. -/
theorem training_follows_selection :
    (∀ c : Component, c.Built → ∀ s v, c.validate s = .ok v →
      (c.trainingRequired v = true ↔ ∃ b, c.Uses v.entries b ∧ b.training = true) ∧
      (∀ t w, c.validate t = .ok w → c.SelectsAlike s.settings t.settings →
        c.trainingRequired v = c.trainingRequired w) ∧
      (∀ d : Component, d.Built → ∀ t, d.validate t = .ok v → c.OffersAlike d v.entries →
        d.trainingRequired v = c.trainingRequired v)) ∧
    ∀ defaults m, Hnsw.method defaults = .ok m → ∀ (d : Definition) r, d.compile m = .ok r →
      (r.trainingRequired = true ↔
        ∃ inner, r.values.get? "encoder" = some (.component "pq" inner)) := by
  refine ⟨fun c hc s v hv => ?_, fun _ _ hm _ _ hr => Hnsw.trainingRequired_of_compile hm hr⟩
  have howns := hc.owns hv
  exact ⟨howns.trainingRequired_iff_uses,
    fun _ _ hw hselects => hc.sound.trainingRequired_eq_of_selectsAlike hv hw hselects,
    fun _ hd _ hdv hoffers => hoffers.trainingRequired_eq howns (hd.owns hdv)⟩

/-- Shards that each hold an index, with a choice of the index and no template. -/
def shards (others : List Component) : Component :=
  .mk "shards"
    [.integer "count" 2 (0 < ·),
      .choice "index" ⟨"hnsw", [("encoder", .component "pq" [])]⟩
        (Hnsw.schema .builtIn :: others)]
    none false

theorem built_shards {others : List Component} (hothers : ∀ a ∈ others, a.Built)
    (h : Parameter.ofChoice "index" ⟨"hnsw", [("encoder", .component "pq" [])]⟩
      (Hnsw.schema .builtIn :: others) = .ok (.choice "index"
        ⟨"hnsw", [("encoder", .component "pq" [])]⟩ (Hnsw.schema .builtIn :: others))) :
    (shards others).Built := by
  have hcount : Parameter.ofInteger "count" 2 (0 < ·) = .ok (.integer "count" 2 (0 < ·)) := rfl
  have hschema : (Hnsw.schema .builtIn).Built := Hnsw.built (d := .builtIn) rfl
  exact .of_build (b := ⟨"shards", (shards others).parameters, none, false⟩)
    (List.forall_mem_cons.2 ⟨.ofInteger hcount, List.forall_mem_singleton.2
      (.ofChoice (List.forall_mem_cons.2 ⟨hschema, hothers⟩) h)⟩) rfl

/-- The index of each shard is by default one with codes, so training is needed, also
if it is selected with other scalars, or offered beside another alternative that would
have to be trained. -/
theorem training_follows_selection_shards :
    ∃ (c d : Component) (t : Selection) (v w : Values) (m : Method) (r : Compiled),
      c = shards [Encoder.flat.schema] ∧ d = shards [Encoder.pq.schema] ∧
      c.Built ∧ d.Built ∧ c.validate (.plain "") = .ok v ∧ d.validate (.plain "") = .ok v ∧
      t = ⟨"shards", [("count", .integer 5), ("index", .component "hnsw"
        [("ef_search", .integer 7), ("encoder", .component "pq" [("m", .integer 4)])])]⟩ ∧
      c.validate t = .ok w ∧ c.SelectsAlike [] t.settings ∧ c.OffersAlike d v.entries ∧
      (∃ b, c.Uses v.entries b ∧ b.training = true) ∧ c.trainingRequired v = true ∧
      c.trainingRequired w = true ∧ d.trainingRequired v = true ∧
      Hnsw.method .builtIn = .ok m ∧
      Definition.compile ⟨"hnsw", none, [("encoder", .component "pq" [])]⟩ m = .ok r ∧
      r.trainingRequired = true := by
  let c : Component := shards [Encoder.flat.schema]
  let d : Component := shards [Encoder.pq.schema]
  let t : Selection := ⟨"shards", [("count", .integer 5), ("index", .component "hnsw"
    [("ef_search", .integer 7), ("encoder", .component "pq" [("m", .integer 4)])])]⟩
  have hc : c.Built :=
    built_shards (List.forall_mem_singleton.2 (Encoder.built (Encoder.component_eq _))) rfl
  have hd : d.Built :=
    built_shards (List.forall_mem_singleton.2 (Encoder.built (Encoder.component_eq _))) rfl
  obtain ⟨v, w, m, r, hv, hdv, hw, htrains, hm, hr, hpq⟩ :
      ∃ (v w : Values) (m : Method) (r : Compiled),
        c.validate (.plain "") = .ok v ∧ d.validate (.plain "") = .ok v ∧
        c.validate t = .ok w ∧ c.trainingRequired v = true ∧ Hnsw.method .builtIn = .ok m ∧
        Definition.compile ⟨"hnsw", none, [("encoder", .component "pq" [])]⟩ m = .ok r ∧
        ∃ inner, r.values.get? "encoder" = some (.component "pq" inner) :=
    ⟨_, _, _, _, rfl, rfl, rfl, rfl, rfl, rfl, _, rfl⟩
  have hselects : c.SelectsAlike [] t.settings := by
    have hcodes : Encoder.pq.schema.SelectsAlike [] [("m", .integer 4)] :=
      .mk (List.forall_mem_cons.2 ⟨nofun, List.forall_mem_singleton.2 nofun⟩)
    have hindex : (Hnsw.schema .builtIn).SelectsAlike [("encoder", .component "pq" [])]
        [("ef_search", .integer 7), ("encoder", .component "pq" [("m", .integer 4)])] := by
      refine .mk (List.forall_mem_cons.2 ⟨nofun, List.forall_mem_cons.2 ⟨nofun,
        List.forall_mem_cons.2 ⟨nofun, List.forall_mem_singleton.2 fun _ => ?_⟩⟩⟩)
      exact .mk (p := Hnsw.encoderChoice) (.tail _ (.tail _ (.head _))) hcodes
    exact .mk (List.forall_mem_cons.2 ⟨nofun, List.forall_mem_singleton.2 fun _ =>
      .mk (List.mem_cons_self (l := [Encoder.flat.schema])) hindex⟩)
  have hoffers : c.OffersAlike d v.entries := by
    have hschema : (Hnsw.schema .builtIn).Sound := (Hnsw.built (d := .builtIn) rfl).sound
    refine .mk rfl fun p hp q hq hname a ha b hb hbname inner _ => ?_
    rcases List.mem_pair.1 hp with rfl | rfl
    · exact absurd ha List.not_mem_nil
    rcases List.mem_pair.1 hq with rfl | rfl
    · exact absurd hname (by decide)
    -- the index by graph is the one alternative that both offer under one name
    rcases List.mem_pair.1 ha with rfl | rfl <;> rcases List.mem_pair.1 hb with rfl | rfl
    · exact hschema.offersAlike_self inner
    · exact absurd hbname (by decide)
    · exact absurd hbname (by decide)
    · exact absurd hbname (by decide)
  have hfollows := training_follows_selection.1 c hc _ v hv
  exact ⟨c, d, t, v, w, m, r, rfl, rfl, hc, hd, hv, hdv, rfl, hw, hselects, hoffers,
    hfollows.1.1 htrains, htrains, (hfollows.2.1 t w hw hselects).symm.trans htrains,
    (hfollows.2.2 d hd _ hdv hoffers).trans htrains, hm, hr,
    (training_follows_selection.2 _ m hm _ r hr).2 hpq⟩

end VectorIndex
