import VectorIndex.Proofs.Schema.Conformance

/-!
# Setting one parameter

An accepted selection is changed at one parameter. The value of that parameter
changes, or its violation is reported; no other value and no other check is
touched.

* `Selection.unset`: a selection without the setting of a parameter.
* `Values.put`: values with another value for a parameter, in its place.
* `Component.Sound.validate_changed`: what becomes of a selection that is changed
  at one parameter. Setting it (`validate_set`) and leaving it out
  (`validate_unset`) are cases of it.
* `setting_is_local`: both together, and that settings of different parameters do
  not depend on their order.
-/

namespace VectorIndex

/-- The selection without the setting of a parameter. -/
def Selection.unset (s : Selection) (parameter : String) : Selection :=
  { s with settings := s.settings.filter fun entry => entry.1 != parameter }

/-- The values with another value for a parameter. All other entries stay, and so
does the order. -/
def Values.put (v : Values) (parameter : String) (x : Setting) : Values :=
  { v with entries := v.entries.map fun entry =>
      if entry.1 = parameter then (entry.1, x) else entry }

namespace Values

@[simp] theorem keys_put (v : Values) (k : String) (x : Setting) :
    (v.put k x).entries.map Prod.fst = v.entries.map Prod.fst := by
  rw [put, List.map_map]
  refine List.map_congr_left fun entry _ => ?_
  rw [Function.comp_apply]
  split <;> rfl

theorem mem_put {v : Values} {k l : String} {x y : Setting}
    (h : (l, y) ∈ (v.put k x).entries) : (l = k ∧ y = x) ∨ (l ≠ k ∧ (l, y) ∈ v.entries) := by
  obtain ⟨⟨m, z⟩, hmem, heq⟩ := List.mem_map.1 h
  split at heq
  · next hkey =>
    cases heq
    exact .inl ⟨hkey, rfl⟩
  · next hkey =>
    cases heq
    exact .inr ⟨hkey, hmem⟩

theorem put_comm (v : Values) {k l : String} (h : k ≠ l) (x y : Setting) :
    (v.put k x).put l y = (v.put l y).put k x := by
  unfold put
  simp only [List.map_map, mk.injEq, true_and]
  refine List.map_congr_left fun entry _ => ?_
  simp only [Function.comp_apply]
  split <;> split <;> simp_all

end Values

/-! ## One parameter changed -/

namespace Component.Sound

variable {c : Component} {s t : Selection} {v : Values} {p : Parameter}

/-- If a selection is accepted, one that differs from it at a single parameter has
the same values but for that parameter, or the violation of that parameter. -/
theorem validate_changed (h : c.Sound) (hv : c.validate s = .ok v) (hp : p ∈ c.parameters)
    (hothers : ∀ q ∈ c.parameters, q.name ≠ p.name → t.settingFor q = s.settingFor q)
    (hdeclared : ∀ k ∈ t.settings.map Prod.fst, k ∈ c.parameters.map Parameter.name) :
    c.validate t = (p.resolve (t.settingFor p)).map (v.put p.name) := by
  have hresolves := (exists_validate_iff.1 ⟨v, hv⟩).1
  cases hx : p.resolve (t.settingFor p) with
  | ok x =>
    refine validate_eq_ok_iff.2 ⟨(validate_eq_ok_iff.1 hv).1, ?_, hdeclared⟩
    refine (resolves_iff_keys h.names_nodup).2 ⟨?_, fun q hq y hy => ?_⟩
    · rw [Values.keys_put, keys_of_validate hv]
    · rcases Values.mem_put hy with ⟨hname, rfl⟩ | ⟨hname, hmem⟩
      · obtain rfl : q = p := eq_of_name_eq h.names_nodup hq hp hname
        exact hx
      · rw [hothers q hq hname]
        exact h.resolve_of_validate hv hq hmem
  | error e =>
    -- every other parameter resolves, so that no violation but this one is found
    cases hw : c.validate t with
    | ok w =>
      obtain ⟨x, hx'⟩ := (exists_validate_iff.1 ⟨w, hw⟩).1 p hp
      rw [hx] at hx'
      exact nomatch hx'
    | error e' =>
      obtain ⟨q, hq, he⟩ := exists_of_validate_eq_error hdeclared hw
      by_cases hname : q.name = p.name
      · obtain rfl : q = p := eq_of_name_eq h.names_nodup hq hp hname
        rw [hx] at he
        cases he
        rfl
      · obtain ⟨x, hx'⟩ := hresolves q hq
        rw [hothers q hq hname, hx'] at he
        exact nomatch he

theorem validate_set (h : c.Sound) (hv : c.validate s = .ok v) (hp : p ∈ c.parameters)
    (x : Setting) : c.validate (s.set p.name x) = (p.resolve x).map (v.put p.name) := by
  have hset : (s.set p.name x).settingFor p = x := by
    rw [Selection.settingFor_set, if_pos rfl]
  rw [h.validate_changed (t := s.set p.name x) hv hp, hset]
  · intro q _ hname
    rw [Selection.settingFor_set, if_neg hname]
  · intro k hk
    rcases Keyed.mem_keys_insert.1 hk with rfl | hk
    · exact List.mem_map_of_mem hp
    · exact (exists_validate_iff.1 ⟨v, hv⟩).2 k hk

theorem validate_set_of_ok (h : c.Sound) (hv : c.validate s = .ok v) (hp : p ∈ c.parameters)
    {x y : Setting} (hy : p.resolve x = .ok y) :
    c.validate (s.set p.name x) = .ok (v.put p.name y) := by
  rw [h.validate_set hv hp, hy]
  rfl

theorem validate_set_of_error (h : c.Sound) (hv : c.validate s = .ok v) (hp : p ∈ c.parameters)
    {x : Setting} {e : Violation} (he : p.resolve x = .error e) :
    c.validate (s.set p.name x) = .error e := by
  rw [h.validate_set hv hp, he]
  rfl

theorem validate_unset (h : c.Sound) (hv : c.validate s = .ok v) (hp : p ∈ c.parameters) :
    c.validate (s.unset p.name) = (p.resolve p.default).map (v.put p.name) := by
  have hget : ∀ k, (s.unset p.name).get? k = if k = p.name then none else s.get? k :=
    fun k => lookup_filter_ne p.name k s.settings
  have hdefault : (s.unset p.name).settingFor p = p.default := by
    rw [Selection.settingFor, hget, if_pos rfl, Option.getD_none]
  rw [h.validate_changed (t := s.unset p.name) hv hp, hdefault]
  · intro q _ hname
    rw [Selection.settingFor, hget, if_neg hname, Selection.settingFor]
  · intro k hk
    obtain ⟨entry, hentry, rfl⟩ := List.mem_map.1 hk
    exact (exists_validate_iff.1 ⟨v, hv⟩).2 _ (List.mem_map_of_mem (List.mem_filter.1 hentry).1)

/-- A selection that sets a single parameter has the violation of that parameter,
if it has one. -/
theorem validate_single (h : c.Sound) (name : String) (hp : p ∈ c.parameters) {x : Setting}
    {e : Violation} (he : p.resolve x = .error e) :
    c.validate ((Selection.plain name).set p.name x) = .error e := by
  obtain ⟨w, hw, -⟩ := h.exists_validate_plain name
  exact h.validate_set_of_error hw hp he

end Component.Sound

/-- Settings of different parameters may be written in either order, to whatever
selection. -/
theorem Component.validate_set_comm {c : Component} (s : Selection) {p q : Parameter}
    (hp : p ∈ c.parameters) (hq : q ∈ c.parameters) (hne : q.name ≠ p.name) (x y : Setting) :
    c.validate ((s.set p.name x).set q.name y) = c.validate ((s.set q.name y).set p.name x) := by
  have hp' := List.mem_map_of_mem (f := Parameter.name) hp
  have hq' := List.mem_map_of_mem (f := Parameter.name) hq
  refine validate_congr (fun r _ => ?_) ?_
  · simp only [Selection.settingFor_set]
    by_cases hr : r.name = q.name
    · simp [hr, hne]
    · simp [hr]
  · simp only [undeclared?_set hp', undeclared?_set hq']

/-- Let a component that can be built accept a selection. If one of its parameters
is set, the new selection is accepted exactly if the parameter accepts the setting;
then the values are those from before with what the setting resolves to in the
place of the parameter, and otherwise the violation is the one that the parameter
has, which is also reported if nothing else is set. If the parameter is left out,
what its default resolves to takes the place. Settings of two parameters may come
in either order. -/
theorem setting_is_local (c : Component) (hc : c.Built) (s : Selection) (v : Values)
    (hv : c.validate s = .ok v) (p : Parameter) (hp : p ∈ c.parameters) :
    (∀ x, ((∃ w, c.validate (s.set p.name x) = .ok w) ↔ p.accepts x = true) ∧
      (∀ y, p.resolve x = .ok y → c.validate (s.set p.name x) = .ok (v.put p.name y)) ∧
      ∀ e, p.resolve x = .error e → c.validate (s.set p.name x) = .error e ∧
        ∀ name, c.validate ((Selection.plain name).set p.name x) = .error e) ∧
    (∃ y, p.resolve p.default = .ok y ∧
      c.validate (s.unset p.name) = .ok (v.put p.name y)) ∧
    ∀ q ∈ c.parameters, q.name ≠ p.name → ∀ x y,
      c.validate ((s.set p.name x).set q.name y) =
        c.validate ((s.set q.name y).set p.name x) ∧
      ∀ x' y', p.resolve x = .ok x' → q.resolve y = .ok y' →
        c.validate ((s.set p.name x).set q.name y) = .ok ((v.put p.name x').put q.name y') ∧
        (v.put p.name x').put q.name y' = (v.put q.name y').put p.name x' := by
  have hsound := hc.sound
  refine ⟨fun x => ⟨?_, fun y hy => ?_, fun e he => ⟨?_, fun name => ?_⟩⟩, ?_, ?_⟩
  · rw [hsound.validate_set hv hp, Parameter.accepts_eq_true_iff]
    constructor
    · intro haccepted
      obtain ⟨w, hw⟩ := haccepted
      obtain ⟨y, hy, -⟩ := map_eq_ok_iff.1 hw
      exact ⟨y, hy⟩
    · intro hresolves
      obtain ⟨y, hy⟩ := hresolves
      exact ⟨_, map_eq_ok_iff.2 ⟨y, hy, rfl⟩⟩
  · exact hsound.validate_set_of_ok hv hp hy
  · exact hsound.validate_set_of_error hv hp he
  · exact hsound.validate_single name hp he
  · obtain ⟨y, hy⟩ := (hsound.parameter hp).resolve_default
    refine ⟨y, hy, ?_⟩
    rw [hsound.validate_unset hv hp, hy]
    rfl
  · intro q hq hne x y
    refine ⟨Component.validate_set_comm s hp hq hne x y, fun x' y' hx hy => ⟨?_, ?_⟩⟩
    · have hfirst := hsound.validate_set_of_ok hv hp hx
      exact hsound.validate_set_of_ok hfirst hq hy
    · exact v.put_comm (Ne.symm hne) x' y'

/-- The encoder of the HNSW schema is set to another one, to one with a refused
number of codes, and left out. The degree may be set before or after it. -/
theorem setting_is_local_hnsw :
    ∃ (c : Component) (s : Selection) (v : Values), Hnsw.component .builtIn = .ok c ∧ c.Built ∧
      s = ⟨"hnsw", [("encoder", .component "sq" [("type", .text "bf16")]), ("m", .integer 8)]⟩ ∧
      c.validate s = .ok v ∧
      c.validate (s.set "encoder" (.component "pq" [("m", .integer 4)])) =
        .ok (v.put "encoder" (.component "pq" [("m", .integer 4), ("code_size", .integer 8)])) ∧
      c.validate (s.set "encoder" (.component "pq" [("m", .integer 0)])) =
        .error (.invalidSetting "m" (.integer 0)) ∧
      c.validate (s.unset "encoder") = .ok (v.put "encoder" (.component "flat" [])) ∧
      c.validate ((s.set "encoder" (.component "flat" [])).set "m" (.integer 5)) =
        .ok ((v.put "encoder" (.component "flat" [])).put "m" (.integer 5)) := by
  let c : Component := Hnsw.schema .builtIn
  let s : Selection :=
    ⟨"hnsw", [("encoder", .component "sq" [("type", .text "bf16")]), ("m", .integer 8)]⟩
  have hbuilt : c.Built := Hnsw.built (d := .builtIn) rfl
  obtain ⟨v, hv⟩ : ∃ v, c.validate s = .ok v := ⟨_, rfl⟩
  have hencoder : Hnsw.encoderChoice ∈ c.parameters :=
    .tail _ (.tail _ (.tail _ (.head _)))
  obtain ⟨hset, hunset, hsets⟩ := setting_is_local c hbuilt s v hv Hnsw.encoderChoice hencoder
  obtain ⟨y, hy, hdefault⟩ := hunset
  obtain rfl : y = .component "flat" [] := (Except.ok.inj hy).symm
  refine ⟨c, s, v, rfl, hbuilt, rfl, hv, (hset _).2.1 _ rfl, ((hset _).2.2 _ rfl).1, hdefault, ?_⟩
  have hm : Parameter.integer "m" 16 (0 < ·) ∈ c.parameters := .head _
  exact ((hsets _ hm (by decide) _ _).2 _ _ rfl rfl).1

end VectorIndex
