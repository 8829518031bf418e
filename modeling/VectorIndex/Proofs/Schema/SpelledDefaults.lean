import Mathlib.Logic.Relation
import VectorIndex.Proofs.Hnsw
import VectorIndex.Proofs.Schema.Resolution

/-!
# Defaults spelled out

A parameter that is left out takes its default, so it makes no difference if the
default is written into the selection instead.

* `Component.SpellsOut`: one default is written, at any depth.
* `Component.SpellsOut.validate_eq`: the outcome of checking stays as it was, be
  it values or a violation.
* `spelled_defaults_change_nothing`: the same for any number of defaults, one
  after the other.
-/

namespace VectorIndex

/-- One default is spelled out in a selection: a declared parameter that it leaves
out is set to its default, or a default is spelled out in the settings of the
alternative that it selects for a parameter. -/
inductive Component.SpellsOut : Component → Selection → Selection → Prop where
  | insert {c s p} :
      p ∈ c.parameters → s.get? p.name = none → SpellsOut c s (s.set p.name p.default)
  | within {c s p a settings t} :
      p ∈ c.parameters → a ∈ p.alternatives →
      s.get? p.name = some (.component a.name settings) →
      SpellsOut a ⟨a.name, settings⟩ t → SpellsOut c s (s.set p.name t.setting)

namespace Component

theorem SpellsOut.name_eq {c : Component} {s t : Selection} (h : c.SpellsOut s t) :
    t.name = s.name := by
  cases h <;> rfl

/-- Writing a setting that resolves like the one that counts already makes no
difference. -/
theorem Sound.validate_set_eq {c : Component} (h : c.Sound) {s : Selection} {p : Parameter}
    (hp : p ∈ c.parameters) {x : Setting}
    (hx : p.resolve x = p.resolve (s.settingFor p)) :
    c.validate (s.set p.name x) = c.validate s := by
  refine validate_congr (fun q hq => ?_) (undeclared?_set (List.mem_map_of_mem hp) s x)
  rw [Selection.settingFor_set]
  split
  · next hname =>
    obtain rfl : q = p := eq_of_name_eq h.names_nodup hq hp hname
    exact hx
  · rfl

/-- Spelling out one default does not change the outcome. -/
theorem SpellsOut.validate_eq {c : Component} {s t : Selection} (h : c.SpellsOut s t)
    (hc : c.Sound) : c.validate t = c.validate s := by
  induction h with
  | @insert c s p hp hnone =>
    refine hc.validate_set_eq hp ?_
    rw [Selection.settingFor_of_lookup_none hnone]
  | @within c s p a settings t hp ha hset hspells ih =>
    have hpsound := hc.parameter hp
    have hname : t.name = a.name := hspells.name_eq
    refine hc.validate_set_eq hp ?_
    rw [Selection.settingFor_of_lookup_some hset, hpsound.resolve_alternative ha,
      Selection.setting, hname, hpsound.resolve_alternative ha, ← ih (hpsound.alternative ha),
      ← hname]

/-- Nor does spelling out one after the other. -/
theorem Sound.validate_eq_of_spellsOut {c : Component} (h : c.Sound) {s t : Selection}
    (hspells : Relation.ReflTransGen c.SpellsOut s t) : c.validate t = c.validate s := by
  induction hspells with
  | refl => rfl
  | tail _ hstep ih => exact (hstep.validate_eq h).trans ih

end Component

/-- However many defaults are spelled out in a selection, and however deep, a
component that can be built returns the same values for it as before, or fails
with the same violation. The name of the selection does not matter either. -/
theorem spelled_defaults_change_nothing (c : Component) (hc : c.Built) (s t : Selection)
    (h : Relation.ReflTransGen c.SpellsOut s t) (name : String) :
    c.validate ⟨name, t.settings⟩ = c.validate s := by
  rw [Component.validate_name]
  exact hc.sound.validate_eq_of_spellsOut h

/-- Defaults are spelled out at two levels of a selection for the HNSW schema that
has a refused format and an undeclared name. The format is reported as before. -/
theorem spelled_defaults_change_nothing_hnsw :
    ∃ (c : Component) (s t : Selection), Hnsw.component .builtIn = .ok c ∧ c.Built ∧
      s = ⟨"hnsw", [("bits", .integer 4),
        ("encoder", .component "sq" [("type", .text "fp32")])]⟩ ∧
      t = ⟨"hnsw", [("bits", .integer 4), ("ef_search", .integer 100),
        ("encoder", .component "sq" [("clip", .boolean false), ("type", .text "fp32")])]⟩ ∧
      Relation.ReflTransGen c.SpellsOut s t ∧
      c.validate s = .error (.invalidSetting "type" (.text "fp32")) ∧
      c.validate ⟨"", t.settings⟩ = .error (.invalidSetting "type" (.text "fp32")) := by
  let c : Component := Hnsw.schema .builtIn
  let s : Selection := ⟨"hnsw", [("bits", .integer 4),
    ("encoder", .component "sq" [("type", .text "fp32")])]⟩
  let inner : Selection := ⟨"sq", [("type", .text "fp32")]⟩
  have hbuilt : c.Built := Hnsw.built (d := .builtIn) rfl
  have hclip : Encoder.sq.schema.SpellsOut inner (inner.set "clip" (.boolean false)) :=
    .insert (p := .boolean "clip" false fun _ => true) (.tail _ (.head _)) rfl
  have hencoder : c.SpellsOut s (s.set "encoder" (inner.set "clip" (.boolean false)).setting) :=
    .within (p := Hnsw.encoderChoice) (.tail _ (.tail _ (.tail _ (.head _))))
      (.tail _ (.head _)) rfl hclip
  have hsearch : c.SpellsOut (s.set "encoder" (inner.set "clip" (.boolean false)).setting)
      ((s.set "encoder" (inner.set "clip" (.boolean false)).setting).set "ef_search"
        (.integer 100)) :=
    .insert (p := .integer "ef_search" 100 (0 < ·)) (.tail _ (.tail _ (.head _))) rfl
  have hspells := (Relation.ReflTransGen.single hencoder).tail hsearch
  have hrefused : c.validate s = .error (.invalidSetting "type" (.text "fp32")) := rfl
  refine ⟨c, s, _, rfl, hbuilt, rfl, rfl, hspells, hrefused, ?_⟩
  exact (spelled_defaults_change_nothing c hbuilt s _ hspells "").trans hrefused

end VectorIndex
