import VectorIndex.Proofs.Schema.Selected
import VectorIndex.Schema.Description

/-!
# Descriptions of a component's own values

A template is filled slot by slot. When the values are those that the component
returned, every slot has a value and every choice its alternative, at each level
below, so the text is the plain concatenation and nothing is left out for want
of a value.

* `Slot.Shows`: what a slot shows, said for each kind of value.
* `Component.Owns.description_eq`: the description as a concatenation.
* `Component.Owns.gaps_eq_nil`: no slot without a value, at any depth.
-/

namespace VectorIndex

/-! ## Texts by name -/

/-- The keyword and then what each slot is filled with. -/
theorem Template.fill_eq_join (t : Template) (texts : List (String × Option String)) :
    t.fill texts = t.keyword ++ String.join (t.slots.map (·.fill texts)) := by
  unfold fill
  generalize t.keyword = front
  induction t.slots generalizing front with
  | nil => simp
  | cons slot rest ih =>
    rw [List.foldl_cons, ih, List.map_cons, String.join_cons, String.append_assoc]

theorem settingTexts_eq_map (c : Component) (entries : List (String × Setting)) :
    settingTexts c entries =
      entries.map fun entry => (entry.1, settingText c entry.1 entry.2) := by
  induction entries with
  | nil => rfl
  | cons entry rest ih => rw [settingTexts, ih, List.map_cons]

/-- The text of a component is the description of the selected alternative. -/
theorem settingText_component (c : Component) (k selected : String)
    (inner : List (String × Setting)) :
    settingText c k (.component selected inner) =
      (c.select? k selected).bind fun a => a.description ⟨selected, inner⟩ := by
  rw [settingText]
  rfl

/-- The decimal text of a 64-bit integer is that of the number. -/
theorem Decimal.ofInt64_eq_toString (n : Int64) : Decimal.ofInt64 n = toString n.toInt := by
  unfold Decimal.ofInt64 Decimal.ofInt Decimal.ofNat
  cases n.toInt with
  | ofNat m => rfl
  | negSucc m =>
    rw [if_pos (Int.negSucc_lt_zero m), ← List.singleton_append, String.ofList_append]
    rfl

/-! ## What a slot shows -/

/-- What a slot of a component shows of the values: between its literal texts the
word for a truth value, the decimal text of an integer, a text as it is, or the
description of the alternative that is selected. Nothing is shown of an
alternative without a template, not even the literal texts. -/
inductive Slot.Shows (c : Component) (v : Values) (slot : Slot) : String → Prop where
  | boolean {b} : v.get? slot.name = some (.boolean b) →
      Shows c v slot (slot.before ++ (if b then "true" else "false") ++ slot.after)
  | integer {n} : v.get? slot.name = some (.integer n) →
      Shows c v slot (slot.before ++ toString n.toInt ++ slot.after)
  | text {s} : v.get? slot.name = some (.text s) →
      Shows c v slot (slot.before ++ s ++ slot.after)
  | described {selected inner a text} :
      v.get? slot.name = some (.component selected inner) →
      c.select? slot.name selected = some a →
      a.description ⟨selected, inner⟩ = some text →
      Shows c v slot (slot.before ++ text ++ slot.after)
  | bare {selected inner a} :
      v.get? slot.name = some (.component selected inner) →
      c.select? slot.name selected = some a → a.template = none →
      Shows c v slot ""

namespace Component

/-- A slot that has a text is filled with it. -/
theorem fill_slot {c : Component} {v : Values} {slot : Slot} {x : Setting}
    (hx : v.get? slot.name = some x) :
    slot.fill (settingTexts c v.entries) =
      match settingText c slot.name x with
      | some text => slot.before ++ text ++ slot.after
      | none => "" := by
  unfold Slot.fill
  rw [settingTexts_eq_map, lookup_map_snd (settingText c), ← Values.get?, hx, Option.map_some]
  cases settingText c slot.name x <;> rfl

/-- A declared slot of a component that owns the values shows its value. -/
theorem Owns.shows {c : Component} {v : Values} (h : c.Owns v) {slot : Slot}
    (hslot : slot.name ∈ c.parameters.map Parameter.name) :
    slot.Shows c v (slot.fill (settingTexts c v.entries)) := by
  obtain ⟨x, hx⟩ := h.filled.exists_lookup hslot
  change v.get? slot.name = some x at hx
  rw [fill_slot hx]
  cases x with
  | boolean b => exact .boolean hx
  | integer n =>
    rw [settingText, Setting.display, Decimal.ofInt64_eq_toString]
    · exact .integer hx
    · exact nofun
  | text s => exact .text hx
  | component selected inner =>
    obtain ⟨-, -, a, -, hselect, -⟩ := h.exists_select (mem_of_lookup hx)
    rw [settingText_component, hselect, Option.bind_some]
    cases ht : a.template with
    | none =>
      rw [show a.description ⟨selected, inner⟩ = none by rw [description, ht, Option.map_none]]
      exact .bare hx hselect ht
    | some t =>
      obtain ⟨text, htext⟩ : ∃ text, a.description ⟨selected, inner⟩ = some text := by
        rw [description, ht, Option.map_some]
        exact ⟨_, rfl⟩
      rw [htext]
      exact .described hx hselect htext

/-- The description is the keyword and then what each slot shows, in the order
of the template. -/
theorem Owns.description_eq {c : Component} {v : Values} (h : c.Owns v) {t : Template}
    (ht : c.template = some t) :
    ∃ pieces, List.Forall₂ (Slot.Shows c v) t.slots pieces ∧
      c.description v = some (t.keyword ++ String.join pieces) := by
  refine ⟨t.slots.map (·.fill (settingTexts c v.entries)), ?_, ?_⟩
  · rw [List.forall₂_map_right_iff, List.forall₂_same]
    exact fun slot hslot => h.shows (h.sound.slot_declared ht hslot)
  · rw [description, ht, Option.map_some, Template.fill_eq_join]

/-! ## No gaps -/

theorem settingsGaps_eq_map (c : Component) (entries : List (String × Setting)) :
    settingsGaps c entries =
      entries.map fun entry => (entry.1, settingGaps c entry.1 entry.2) := by
  induction entries with
  | nil => rfl
  | cons entry rest ih => rw [settingsGaps, ih, List.map_cons]

/-- The gaps in the text of a component are those in the description of the
selected alternative. -/
theorem settingGaps_component {c a : Component} {k selected : String}
    (ha : c.select? k selected = some a) (inner : List (String × Setting)) :
    settingGaps c k (.component selected inner) = a.gaps ⟨selected, inner⟩ := by
  rw [settingGaps, ha]
  rfl

/-- No slot is without a value, in the description of a component's own values
or in the descriptions that it takes in. -/
theorem Owns.gaps_eq_nil {c : Component} {v : Values} (h : c.Owns v) : c.gaps v = [] := by
  induction c using Component.induction generalizing v with
  | step c ih =>
    unfold gaps
    cases ht : c.template with
    | none => rfl
    | some t =>
      refine List.flatMap_eq_nil_iff.2 fun slot hslot => ?_
      obtain ⟨x, hx⟩ := h.filled.exists_lookup (h.sound.slot_declared ht hslot)
      rw [settingsGaps_eq_map, lookup_map_snd (settingGaps c), hx, Option.map_some]
      cases x with
      | boolean | integer | text => simp [settingGaps]
      | component selected inner =>
        obtain ⟨p, hp, a, ha, hselect, howns⟩ := h.exists_select (mem_of_lookup hx)
        simp only [settingGaps_component hselect]
        exact ih p hp a ha howns

end Component

end VectorIndex
