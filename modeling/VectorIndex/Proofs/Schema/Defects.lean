import VectorIndex.Proofs.Schema.Construction
import VectorIndex.Proofs.Schema.Resolution

/-!
# What construction comes to

A schema is refused for its first defect only, whatever others it has. Here the
outcome of a construction is read off what was given to it, for any calls on a
builder and any alternatives of a choice.

* `FirstRepeated`: the first of some names that stands there a second time.
  `firstRepeated?_eq_some_iff` says that the search finds it.
* `Call.added`, `Call.described`, `Call.trained`: what some calls leave in a
  builder (`after_eq`), which is all that matters of their order.
* `Component.Builder.Builds`, `Parameter.Chooses`: the outcome of building and of
  offering a choice, one case for each defect and one for none.
* `Parameter.checked_scalar`: the outcome for the parameters that have no
  alternatives.

`construction_names_first_defect` is the main statement.
-/

namespace VectorIndex

/-! ## The first repeated name -/

/-- The first of the names that occurs before: those in front of it are distinct, and
it is one of them. -/
def FirstRepeated (names : List String) (k : String) : Prop :=
  ∃ front back, names = front ++ k :: back ∧ front.Nodup ∧ k ∈ front

/-- The search passes over names that are distinct and have not been seen. -/
theorem firstRepeated?_append {seen front : List String} (hnodup : front.Nodup)
    (hnew : ∀ name ∈ front, name ∉ seen) (back : List String) :
    firstRepeated? seen (front ++ back) = firstRepeated? (front.reverse ++ seen) back := by
  induction front generalizing seen with
  | nil => rfl
  | cons name rest ih =>
    obtain ⟨hfirst, hrest⟩ := List.nodup_cons.1 hnodup
    have hname : ¬seen.contains name = true := by
      rw [List.contains_iff_mem]
      exact hnew name List.mem_cons_self
    rw [List.cons_append, firstRepeated?, if_neg hname, ih hrest, List.reverse_cons,
      List.append_assoc, List.singleton_append]
    intro other hother hseen
    rcases List.mem_cons.1 hseen with rfl | hseen
    · exact hfirst hother
    · exact hnew other (List.mem_cons_of_mem _ hother) hseen

/-- Where the search ends, the names behind which it ends are new and distinct. -/
theorem exists_of_firstRepeated?_eq_some {seen names : List String} {k : String}
    (h : firstRepeated? seen names = some k) :
    ∃ front back, names = front ++ k :: back ∧ front.Nodup ∧ (∀ name ∈ front, name ∉ seen) ∧
      (k ∈ front ∨ k ∈ seen) := by
  induction names generalizing seen with
  | nil => cases h
  | cons name rest ih =>
    rw [firstRepeated?] at h
    by_cases hname : seen.contains name = true
    · rw [if_pos hname, Option.some.injEq] at h
      subst h
      exact ⟨[], rest, rfl, .nil, List.forall_mem_nil _, .inr (List.contains_iff_mem.1 hname)⟩
    · rw [if_neg hname] at h
      rw [List.contains_iff_mem] at hname
      obtain ⟨front, back, rfl, hnodup, hnew, hk⟩ := ih h
      refine ⟨name :: front, back, rfl, ?_, ?_, ?_⟩
      · exact List.nodup_cons.2 ⟨fun hmem => hnew name hmem List.mem_cons_self, hnodup⟩
      · refine List.forall_mem_cons.2 ⟨hname, fun other hother hseen => ?_⟩
        exact hnew other hother (List.mem_cons_of_mem _ hseen)
      · rcases hk with hk | hk
        · exact .inl (List.mem_cons_of_mem _ hk)
        · rcases List.mem_cons.1 hk with rfl | hk
          · exact .inl List.mem_cons_self
          · exact .inr hk

theorem firstRepeated?_eq_some_iff {names : List String} {k : String} :
    firstRepeated? [] names = some k ↔ FirstRepeated names k := by
  constructor
  · intro h
    obtain ⟨front, back, heq, hnodup, -, hk⟩ := exists_of_firstRepeated?_eq_some h
    exact ⟨front, back, heq, hnodup, hk.resolve_right List.not_mem_nil⟩
  · rintro ⟨front, back, rfl, hnodup, hk⟩
    have hseen : (front.reverse ++ []).contains k = true := by simpa using hk
    rw [firstRepeated?_append hnodup (fun _ _ => List.not_mem_nil), firstRepeated?, if_pos hseen]

/-- Names are distinct, or one of them is the first that is repeated. -/
theorem nodup_or_exists_firstRepeated (names : List String) :
    names.Nodup ∨ ∃ k, FirstRepeated names k := by
  cases h : firstRepeated? [] names with
  | none => exact .inl (firstRepeated?_eq_none_iff.1 h).1
  | some k => exact .inr ⟨k, firstRepeated?_eq_some_iff.1 h⟩

/-! ## What calls leave in a builder -/

namespace Component.Builder

namespace Call

/-- The parameter that a call adds. -/
def parameter? : Call → Option Parameter
  | add p => some p
  | _ => none

/-- The template that a call sets. -/
def template? : Call → Option Template
  | describe t => some t
  | _ => none

/-- What a call says about training. -/
def training? : Call → Option Bool
  | train training => some training
  | _ => none

/-- The parameters that calls add, in the order of the calls. -/
def added (calls : List Call) : List Parameter :=
  calls.filterMap parameter?

/-- The template that calls set last. -/
def described (calls : List Call) : Option Template :=
  (calls.filterMap template?).getLast?

/-- What calls say last about training. -/
def trained (calls : List Call) : Option Bool :=
  (calls.filterMap training?).getLast?

end Call

/-- What is in a builder after some calls: what they leave, or else what was there. -/
theorem foldl_call_eq (b : Builder) (calls : List Call) :
    calls.foldl call b =
      ⟨b.name, b.parameters ++ Call.added calls, (Call.described calls).or b.template,
        (Call.trained calls).getD b.training⟩ := by
  induction calls generalizing b with
  | nil => simp [Call.added, Call.described, Call.trained]
  | cons c rest ih =>
    rw [List.foldl_cons, ih]
    cases c <;>
      simp [call, add, describe, train, Call.added, Call.described, Call.trained,
        Call.parameter?, Call.template?, Call.training?, List.filterMap_cons, List.getLast?_cons]

theorem after_eq (name : String) (calls : List Call) :
    after name calls =
      ⟨name, Call.added calls, Call.described calls, (Call.trained calls).getD false⟩ := by
  rw [after, foldl_call_eq]
  simp [empty]

end Component.Builder

/-! ## Building -/

/-- What building comes to after some calls. A repeated parameter comes before a slot
that no parameter fills. -/
inductive Component.Builder.Builds (name : String) (calls : List Call) :
    Except Defect Component → Prop where
  | duplicateParameter {k} :
      FirstRepeated ((Call.added calls).map Parameter.name) k →
      Builds name calls (.error (.duplicateParameter name k))
  | undeclaredSlot {t front slot back} :
      ((Call.added calls).map Parameter.name).Nodup → Call.described calls = some t →
      t.slots = front ++ slot :: back →
      (∀ shown ∈ front, shown.name ∈ (Call.added calls).map Parameter.name) →
      slot.name ∉ (Call.added calls).map Parameter.name →
      Builds name calls (.error (.undeclaredSlot name slot.name))
  | built :
      ((Call.added calls).map Parameter.name).Nodup →
      (∀ t, Call.described calls = some t → ∀ slot ∈ t.slots,
        slot.name ∈ (Call.added calls).map Parameter.name) →
      Builds name calls
        (.ok (.mk name (Call.added calls) (Call.described calls) ((Call.trained calls).getD false)))

namespace Component.Builder

theorem undeclaredSlot?_eq_some_iff {b : Builder} {slot : Slot} :
    b.undeclaredSlot? = some slot ↔
      ∃ t front back, b.template = some t ∧ t.slots = front ++ slot :: back ∧
        (∀ shown ∈ front, shown.name ∈ b.parameters.map Parameter.name) ∧
        slot.name ∉ b.parameters.map Parameter.name := by
  unfold undeclaredSlot?
  cases b.template with
  | none => simp
  | some t =>
    have hdeclared : ∀ shown : Slot, b.parameters.any (·.name == shown.name) = true ↔
        shown.name ∈ b.parameters.map Parameter.name := by simp
    simp only [Option.bind_some, List.find?_eq_some_iff_append, Bool.not_not, Bool.not_eq_true',
      ← Bool.not_eq_true, hdeclared, Option.some.injEq, exists_and_left, exists_eq_left']
    constructor
    · rintro ⟨hslot, front, back, hslots, hfront⟩
      exact ⟨front, back, hslots, hfront, hslot⟩
    · rintro ⟨front, back, hslots, hfront, hslot⟩
      exact ⟨hslot, front, back, hslots, hfront⟩

theorem Builds.build_eq {name : String} {calls : List Call} {outcome : Except Defect Component}
    (h : Builds name calls outcome) : (after name calls).build = outcome := by
  rw [after_eq]
  cases h with
  | duplicateParameter hrepeated =>
    rw [build, firstRepeated?_eq_some_iff.2 hrepeated]
  | undeclaredSlot hnodup hdescribed hslots hfront hslot =>
    have hundeclared := undeclaredSlot?_eq_some_iff
      (b := ⟨name, Call.added calls, Call.described calls, (Call.trained calls).getD false⟩).2
      ⟨_, _, _, hdescribed, hslots, hfront, hslot⟩
    rw [build, firstRepeated?_of_nodup hnodup, hundeclared]
  | built hnodup hdeclared =>
    exact build_eq_ok_iff.2 ⟨hnodup, hdeclared, rfl⟩

theorem builds_build (name : String) (calls : List Call) :
    Builds name calls (after name calls).build := by
  rcases nodup_or_exists_firstRepeated ((Call.added calls).map Parameter.name) with
    hnodup | ⟨k, hrepeated⟩
  · cases hslot : (after name calls).undeclaredSlot? with
    | none =>
      rw [after_eq, undeclaredSlot?_eq_none_iff] at hslot
      have hbuilt : Builds name calls _ := .built hnodup hslot
      rwa [hbuilt.build_eq]
    | some slot =>
      rw [after_eq, undeclaredSlot?_eq_some_iff] at hslot
      obtain ⟨t, front, back, hdescribed, hslots, hfront, hslot⟩ := hslot
      have hundeclared : Builds name calls _ :=
        .undeclaredSlot hnodup hdescribed hslots hfront hslot
      rwa [hundeclared.build_eq]
  · have hduplicate : Builds name calls _ := .duplicateParameter hrepeated
    rwa [hduplicate.build_eq]

end Component.Builder

/-! ## Offering a choice -/

/-- What offering some alternatives comes to. The default is checked by the alternative
it names, and only if it is the only one of its name. -/
inductive Parameter.Chooses (name : String) (default : Selection)
    (alternatives : List Component) : Except Defect Parameter → Prop where
  | noAlternatives :
      alternatives = [] → Chooses name default alternatives (.error (.noAlternatives name))
  | duplicateAlternative {k} :
      FirstRepeated (alternatives.map Component.name) k →
      Chooses name default alternatives (.error (.duplicateAlternative name k))
  | unknownDefault :
      alternatives ≠ [] → (alternatives.map Component.name).Nodup →
      default.name ∉ alternatives.map Component.name →
      Chooses name default alternatives (.error (.unknownDefault name default.name))
  | invalidDefault {a e} :
      (alternatives.map Component.name).Nodup → a ∈ alternatives → a.name = default.name →
      a.validate default = .error e →
      Chooses name default alternatives (.error (.invalidDefault name))
  | chosen {a v} :
      (alternatives.map Component.name).Nodup → a ∈ alternatives → a.name = default.name →
      a.validate default = .ok v →
      Chooses name default alternatives (.ok (.choice name default alternatives))

namespace Parameter

/-- A scalar is refused if its own check does not admit its default. -/
theorem checked_scalar {p : Parameter} (h : p.kind ≠ .choice) :
    checked p = if p.admits p.default then .ok p else .error (.invalidDefault p.name) := by
  rw [checked, accepts, resolve_scalar h]
  by_cases hadmits : p.admits p.default = true <;> simp [hadmits, Except.isOk, Except.toBool]

/-- A choice is refused if the alternative that the default names does not accept it. -/
theorem checked_choice {name : String} {default : Selection} {alternatives : List Component}
    (hnodup : (alternatives.map Component.name).Nodup) {a : Component} (ha : a ∈ alternatives)
    (hname : a.name = default.name) :
    checked (choice name default alternatives) =
      if (a.validate default).isOk then .ok (choice name default alternatives)
      else .error (.invalidDefault name) := by
  have hfound : (choice name default alternatives).alternative? default.name = some a :=
    (find?_eq_some_iff_mem hnodup).2 ⟨ha, hname⟩
  have hresolve : (choice name default alternatives).resolve default.setting =
      (a.validate default).map Values.setting := by
    rw [Selection.setting, resolve_choice_component, hfound]
  rw [checked, accepts, Parameter.default, hresolve]
  cases a.validate default <;> rfl

/-- The alternatives of a choice are looked at before its default is checked. -/
theorem ofChoice_of_nodup {name : String} {default : Selection} {alternatives : List Component}
    (hsome : alternatives ≠ []) (hnodup : (alternatives.map Component.name).Nodup) :
    ofChoice name default alternatives =
      if default.name ∈ alternatives.map Component.name then
        checked (choice name default alternatives)
      else .error (.unknownDefault name default.name) := by
  rw [ofChoice, if_neg (by simpa using hsome), firstRepeated?_of_nodup hnodup]
  simp only [List.contains_iff_mem]

theorem Chooses.ofChoice_eq {name : String} {default : Selection} {alternatives : List Component}
    {outcome : Except Defect Parameter} (h : Chooses name default alternatives outcome) :
    ofChoice name default alternatives = outcome := by
  cases h with
  | noAlternatives hempty =>
    subst hempty
    rfl
  | duplicateAlternative hrepeated =>
    have hsome : ¬(alternatives.map Component.name).isEmpty = true := by
      obtain ⟨front, back, heq, -⟩ := hrepeated
      simp [heq]
    rw [ofChoice, if_neg hsome, firstRepeated?_eq_some_iff.2 hrepeated]
  | unknownDefault hsome hnodup hunknown =>
    rw [ofChoice_of_nodup hsome hnodup, if_neg hunknown]
  | invalidDefault hnodup ha hname herror =>
    rw [ofChoice_of_nodup (List.ne_nil_of_mem ha) hnodup,
      if_pos (hname ▸ List.mem_map_of_mem ha), checked_choice hnodup ha hname, herror]
    rfl
  | chosen hnodup ha hname hvalid =>
    rw [ofChoice_of_nodup (List.ne_nil_of_mem ha) hnodup,
      if_pos (hname ▸ List.mem_map_of_mem ha), checked_choice hnodup ha hname, hvalid]
    rfl

theorem chooses_ofChoice (name : String) (default : Selection) (alternatives : List Component) :
    Chooses name default alternatives (ofChoice name default alternatives) := by
  by_cases hempty : alternatives = []
  · have hnone : Chooses name default alternatives _ := .noAlternatives hempty
    rwa [hnone.ofChoice_eq]
  rcases nodup_or_exists_firstRepeated (alternatives.map Component.name) with
    hnodup | ⟨k, hrepeated⟩
  · by_cases hnamed : default.name ∈ alternatives.map Component.name
    · obtain ⟨a, ha, hname⟩ := List.mem_map.1 hnamed
      cases hvalid : a.validate default with
      | error e =>
        have hinvalid : Chooses name default alternatives _ :=
          .invalidDefault hnodup ha hname hvalid
        rwa [hinvalid.ofChoice_eq]
      | ok v =>
        have hchosen : Chooses name default alternatives _ := .chosen hnodup ha hname hvalid
        rwa [hchosen.ofChoice_eq]
    · have hunknown : Chooses name default alternatives _ := .unknownDefault hempty hnodup hnamed
      rwa [hunknown.ofChoice_eq]
  · have hduplicate : Chooses name default alternatives _ := .duplicateAlternative hrepeated
    rwa [hduplicate.ofChoice_eq]

end Parameter

/-! ## The first defect -/

/-- Construction comes to the first defect of what it is given, and to the schema that
was described if there is none: for any calls on a builder, for any alternatives and
default of a choice, and for any default and check of a scalar. -/
theorem construction_names_first_defect (name : String) :
    (∀ calls outcome, (Component.Builder.after name calls).build = outcome ↔
      Component.Builder.Builds name calls outcome) ∧
    (∀ default alternatives outcome, Parameter.ofChoice name default alternatives = outcome ↔
      Parameter.Chooses name default alternatives outcome) ∧
    (∀ n accepts, Parameter.ofInteger name n accepts =
      if accepts n then .ok (.integer name n accepts) else .error (.invalidDefault name)) ∧
    (∀ s accepts, Parameter.ofText name s accepts =
      if accepts s then .ok (.text name s accepts) else .error (.invalidDefault name)) ∧
    (∀ b accepts, Parameter.ofBoolean name b accepts =
      if accepts b then .ok (.boolean name b accepts) else .error (.invalidDefault name)) := by
  refine ⟨fun calls outcome => ⟨?_, fun h => h.build_eq⟩,
    fun default alternatives outcome => ⟨?_, fun h => h.ofChoice_eq⟩, ?_, ?_, ?_⟩
  · rintro rfl
    exact Component.Builder.builds_build name calls
  · rintro rfl
    exact Parameter.chooses_ofChoice name default alternatives
  · exact fun n accepts => Parameter.checked_scalar (by simp [Parameter.kind])
  · exact fun s accepts => Parameter.checked_scalar (by simp [Parameter.kind])
  · exact fun b accepts => Parameter.checked_scalar (by simp [Parameter.kind])

end VectorIndex
