import VectorIndex.Proofs.Definition.Meaning
import VectorIndex.Proofs.Setting.RoundTrip

/-!
# Definitions that are written and read again

A written definition comes back sorted (`Definition.ofText_json_eq_ok_iff`),
and one that has been read is sorted already. So definitions, selections and
settings return from their texts unchanged, and texts of equal definitions are
equal (`json_round_trip`).
-/

namespace VectorIndex

open Json

namespace Definition

/-- How many components stand inside each other in a definition, itself
counted. -/
def depth (d : Definition) : Nat :=
  d.selection.setting.depth

/-- Every component in the definition, itself counted, holds its settings in
the order of their names. -/
def Ordered (d : Definition) : Prop :=
  d.selection.setting.Ordered

/-- The definition with the settings of every component in the order of their
names. -/
def sorted (d : Definition) : Definition :=
  ⟨d.name, d.space, Keyed.ofList (sortedSettings d.settings)⟩

theorem Ordered.sorted_eq {d : Definition} (h : d.Ordered) : d.sorted = d := by
  have hsettings : Keyed.ofList (sortedSettings d.settings) = d.settings :=
    ofList_sortedSettings h
  rw [sorted, hsettings]

/-! ## What is written -/

/-- The JSON value of a definition means the sorted definition. -/
theorem means_json (d : Definition) : d.json.MeansDefinition d.sorted := by
  obtain ⟨name, space, settings⟩ := d
  have hsettings := (membersMean_settingsJson settings).settings
  cases space with
  | none => exact .mk (.byName (by simp) (by simp)) rfl .absent hsettings
  | some s => exact .mk (.byName (by simp) (by simp)) rfl .name hsettings

theorem exact_json (d : Definition) : d.json.Exact := by
  obtain ⟨name, space, settings⟩ := d
  have hsettings := membersExact_settingsJson settings
  cases space with
  | none => exact ⟨trivial, hsettings, trivial⟩
  | some s => exact ⟨trivial, trivial, hsettings, trivial⟩

theorem nesting_json (d : Definition) : d.json.nesting = 2 * d.depth := by
  obtain ⟨name, space, settings⟩ := d
  cases space <;>
    simp [json, nesting, membersNesting, Space.json, depth, selection, Selection.setting,
      Setting.depth, membersNesting_settingsJson] <;> omega

/-! ## What is read -/

/-- A definition that has been read is sorted. -/
theorem ordered_of_ofText {text : String} {d : Definition} (h : ofText text = .ok d) :
    d.Ordered := by
  obtain ⟨j, -, -, hread⟩ := readText_eq_ok_iff.1 (mapError_eq_ok_iff.1 h)
  obtain ⟨-, -, -, hsettings⟩ := read_draft_eq_ok_iff.1 hread
  exact hsettings.ordered

/-- A written definition is read as the sorted definition, up to 63 components
deep. -/
theorem ofText_json_eq_ok_iff {d e : Definition} :
    ofText d.json.compact = .ok e ↔ d.depth ≤ 63 ∧ e = d.sorted := by
  have hmeans := read_draft_eq_ok_iff.2 d.means_json
  unfold ofText
  rw [mapError_eq_ok_iff, readText_eq_ok_iff_of_text (text_compact d.exact_json), d.nesting_json,
    Reader.maxDepth, hmeans, Except.ok.injEq]
  exact and_congr (by omega) eq_comm

/-- A sorted definition that is not too deep returns from its text. -/
theorem Ordered.ofText_json {d : Definition} (h : d.Ordered) (hdepth : d.depth ≤ 63) :
    ofText d.json.compact = .ok d :=
  ofText_json_eq_ok_iff.2 ⟨hdepth, h.sorted_eq.symm⟩

end Definition

/-! ## Round trips -/

/-- What returns up to a bound does not return beyond it. -/
theorem returns_and_fails {ε α : Type} {outcome : Except ε α} {n : Nat} {a : α}
    (h : ∀ b, outcome = .ok b ↔ n ≤ 63 ∧ b = a) :
    (n ≤ 63 → outcome = .ok a) ∧ (64 ≤ n → ∃ e, outcome = .error e) := by
  refine ⟨fun hn => (h a).2 ⟨hn, rfl⟩, fun hn => ?_⟩
  cases outcome with
  | error e => exact ⟨e, rfl⟩
  | ok b =>
    have hn' := ((h b).1 rfl).1
    omega

/-- Selections, settings and definitions, whose components hold their settings
in the order of names, return from their compact texts if they are at most 63
components deep, and are refused otherwise; scalars have no depth. So a
definition that has been read returns from its text, and two of them are the
same exactly if their texts are. -/
theorem json_round_trip :
    (∀ s : Selection, s.setting.Ordered →
      (s.setting.depth ≤ 63 → readText Selection.read s.json.compact = .ok s) ∧
      (64 ≤ s.setting.depth → ∃ e, readText Selection.read s.json.compact = .error e)) ∧
    (∀ x : Setting, x.Ordered →
      (x.depth ≤ 63 → readText Setting.read x.json.compact = .ok x) ∧
      (64 ≤ x.depth → ∃ e, readText Setting.read x.json.compact = .error e)) ∧
    (∀ d : Definition, d.Ordered →
      (d.depth ≤ 63 → Definition.ofText d.json.compact = .ok d) ∧
      (64 ≤ d.depth → ∃ e, Definition.ofText d.json.compact = .error e)) ∧
    (∀ text d, Definition.ofText text = .ok d → d.depth ≤ 63 →
      Definition.ofText d.json.compact = .ok d) ∧
    (∀ text text' d d', Definition.ofText text = .ok d → Definition.ofText text' = .ok d' →
      d.depth ≤ 63 → d'.depth ≤ 63 → (d = d' ↔ d.json.compact = d'.json.compact)) := by
  refine ⟨fun s h => returns_and_fails fun t => ?_, fun x h => returns_and_fails fun y => ?_,
    fun d h => returns_and_fails fun e => ?_, fun text d h hdepth => ?_,
    fun text text' d d' h h' hdepth hdepth' => ⟨fun heq => heq ▸ rfl, fun heq => ?_⟩⟩
  · rw [Selection.readText_json_eq_ok_iff, Selection.sorted_eq h]
  · rw [Setting.readText_json_eq_ok_iff, h.sorted_eq]
  · rw [Definition.ofText_json_eq_ok_iff, h.sorted_eq]
  · exact (Definition.ordered_of_ofText h).ofText_json hdepth
  · have hreturns := (Definition.ordered_of_ofText h).ofText_json hdepth
    rw [heq, (Definition.ordered_of_ofText h').ofText_json hdepth'] at hreturns
    exact (Except.ok.inj hreturns).symm

@[simp] theorem Setting.depth_within (path : List (String × String)) (x : Setting) :
    (x.within path).depth = path.length + x.depth := by
  induction path with
  | nil => simp [Setting.within]
  | cons step path ih =>
    simp [Setting.within, Setting.depth, settingsDepth, ih]
    omega

@[simp] theorem Setting.ordered_within (path : List (String × String)) (x : Setting) :
    (x.within path).Ordered ↔ x.Ordered := by
  induction path with
  | nil => rfl
  | cons step path ih =>
    simp [Setting.within, Setting.Ordered, SettingsOrdered, Keyed.Ordered, ih]

/-- A chain of 63 components returns, one of 64 does not. Definitions that differ
in their space differ in their texts. -/
theorem json_round_trip_chain :
    let chain := fun n => (Setting.component "flat" []).within
      (List.replicate n ("ivf", "quantizer"))
    let d := fun space => Definition.mk "ivf" space [("quantizer", chain 61)]
    readText Setting.read (chain 62).json.compact = .ok (chain 62) ∧
      (∃ e, readText Setting.read (chain 63).json.compact = .error e) ∧
      Definition.ofText (d none).json.compact = .ok (d none) ∧
      Definition.ofText (d (some .l2)).json.compact = .ok (d (some .l2)) ∧
      (d none).json.compact ≠ (d (some .l2)).json.compact := by
  intro chain d
  obtain ⟨-, hsetting, hdefinition, -, htexts⟩ := json_round_trip
  have hchain : ∀ n, (chain n).Ordered ∧ (chain n).depth = n + 1 := by
    intro n
    simp [chain, Setting.Ordered, SettingsOrdered, Keyed.Ordered, Setting.depth, settingsDepth]
  have hd : ∀ space, (d space).Ordered ∧ (d space).depth ≤ 63 := fun space =>
    ⟨(hchain 62).1, Nat.le_of_eq (hchain 62).2⟩
  have hreturns : ∀ space, Definition.ofText (d space).json.compact = .ok (d space) :=
    fun space => (hdefinition (d space) (hd space).1).1 (hd space).2
  refine ⟨(hsetting _ (hchain 62).1).1 (Nat.le_of_eq (hchain 62).2),
    (hsetting _ (hchain 63).1).2 (Nat.le_of_eq (hchain 63).2.symm), hreturns _, hreturns _,
    fun heq => ?_⟩
  have hsame := (htexts _ _ _ _ (hreturns _) (hreturns _) (hd _).2 (hd _).2).2 heq
  cases (Definition.mk.inj hsame).2.1

end VectorIndex
