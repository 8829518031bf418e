import VectorIndex.Proofs.Setting.RoundTrip
import VectorIndex.Proofs.Text.Utf8Order

/-!
# Settings that are written one after another

A selection may be put together by setting one parameter after another, or be read
from an object whose members give the settings one after another. Either way the last
write to a parameter stands, and nothing else of the order of the writes is left.

* `LastWrite`: the last of several writes to a key.
* `Selection.ofWrites`: the selection that some writes come to.
* `Selection.ofWrites_eq_iff`: what of the writes it depends on.
* `Json.Lists`: the objects that list the writes under the name of the component.
  `Json.Lists.readText_eq_ok_iff` says what is read from their texts.
* `last_write_stands`: all of that together.
-/

namespace VectorIndex

open Json

/-! ## The last write to a key -/

/-- Of several writes the last one to `k` is of `x`. -/
def LastWrite {α : Type} (writes : List (String × α)) (k : String) (x : α) : Prop :=
  ∃ before after, writes = before ++ (k, x) :: after ∧ k ∉ after.map Prod.fst

section

variable {α : Type} {writes : List (String × α)} {k : String} {x : α}

/-- The last write is the first one that is found from the end. -/
theorem lookup_reverse_eq_some_iff : writes.reverse.lookup k = some x ↔ LastWrite writes k x := by
  rw [List.lookup_eq_some_iff]
  constructor
  · intro h
    obtain ⟨after, before, hwrites, hafter⟩ := h
    refine ⟨before.reverse, after.reverse, ?_, fun hk => ?_⟩
    · rw [← List.reverse_reverse writes, hwrites]
      simp
    · obtain ⟨w, hw, rfl⟩ := List.mem_map.1 hk
      simpa using hafter w (List.mem_reverse.1 hw)
  · intro h
    obtain ⟨before, after, rfl, hafter⟩ := h
    refine ⟨after.reverse, before.reverse, by simp, fun w hw => bne_iff_ne.2 fun hk => hafter ?_⟩
    rw [hk]
    exact List.mem_map_of_mem (List.mem_reverse.1 hw)

theorem lookup_reverse_eq_none_iff : writes.reverse.lookup k = none ↔ k ∉ writes.map Prod.fst := by
  rw [lookup_eq_none_iff_not_mem_keys, List.map_reverse, List.mem_reverse]

end

/-! ## Setting one parameter after another -/

namespace Selection

/-- The selection of `name` after some writes in their order. -/
def ofWrites (name : String) (writes : List (String × Setting)) : Selection :=
  writes.foldl (fun s write => s.set write.1 write.2) (plain name)

variable {name : String} {writes others : List (String × Setting)}

/-- One write after another changes the settings alone. -/
theorem foldl_set_eq (s : Selection) :
    writes.foldl (fun s write => s.set write.1 write.2) s =
      ⟨s.name, writes.foldl (fun m write => Keyed.insert write.1 write.2 m) s.settings⟩ := by
  induction writes generalizing s with
  | nil => rfl
  | cons write rest ih => exact ih (s.set write.1 write.2)

/-- What the writes come to is what they give each key, sorted. -/
theorem ofWrites_eq : ofWrites name writes = ⟨name, Keyed.ofList writes⟩ :=
  foldl_set_eq (plain name)

theorem get?_ofWrites (k : String) : (ofWrites name writes).get? k = writes.reverse.lookup k := by
  rw [ofWrites_eq, get?, Keyed.lookup_ofList]

/-- Writes come to the same if and only if they have the same last write to every key. -/
theorem ofWrites_eq_iff :
    ofWrites name writes = ofWrites name others ↔
      ∀ k x, LastWrite writes k x ↔ LastWrite others k x := by
  simp only [← lookup_reverse_eq_some_iff]
  constructor
  · intro h k x
    have hget : (ofWrites name writes).get? k = (ofWrites name others).get? k := by rw [h]
    rw [get?_ofWrites, get?_ofWrites] at hget
    rw [hget]
  · intro h
    have hsame : Keyed.ofList writes = Keyed.ofList others :=
      Keyed.eq_of_lookup_eq (Keyed.ordered_ofList _) (Keyed.ordered_ofList _) fun k => by
        rw [Keyed.lookup_ofList, Keyed.lookup_ofList, Option.ext (h k)]
    rw [ofWrites_eq, ofWrites_eq, hsame]

end Selection

theorem keys_settingsJson (settings : List (String × Setting)) :
    (settingsJson settings).map Prod.fst = settings.map Prod.fst := by
  induction settings with
  | nil => rfl
  | cons entry rest ih =>
    obtain ⟨k, x⟩ := entry
    rw [settingsJson, List.map_cons, List.map_cons, ih]

/-- The keys of sorted settings come in the order of their bytes. -/
theorem Keyed.Ordered.utf8 {α : Type} {m : List (String × α)} (h : Keyed.Ordered m) :
    (m.map Prod.fst).Pairwise fun k l => Text.utf8 k < Text.utf8 l :=
  List.Pairwise.imp Text.utf8_lt_iff.2 h

/-! ## Listing the settings in an object -/

theorem settingsDepth_le_iff {settings : List (String × Setting)} {n : Nat} :
    settingsDepth settings ≤ n ↔ ∀ entry ∈ settings, entry.2.depth ≤ n := by
  induction settings with
  | nil => simp [settingsDepth]
  | cons entry rest ih =>
    rw [settingsDepth, Nat.max_le, ih, List.forall_mem_cons]

/-- The object names a component and has a member for every write, in the order of the
writes. The name stands in front of them or behind them. -/
inductive Json.Lists (name : String) (writes : List (String × Setting)) : Json → Prop where
  | nameFirst : Json.Lists name writes
      (.object [("name", .string name), ("parameters", .object (settingsJson writes))])
  | nameLast : Json.Lists name writes
      (.object [("parameters", .object (settingsJson writes)), ("name", .string name)])

namespace Json.Lists

variable {name : String} {writes : List (String × Setting)} {j : Json}

theorem exact (h : j.Lists name writes) : j.Exact := by
  have hwrites := membersExact_settingsJson writes
  cases h with
  | nameFirst => exact ⟨trivial, hwrites, trivial⟩
  | nameLast => exact ⟨hwrites, trivial, trivial⟩

theorem nesting_eq (h : j.Lists name writes) : j.nesting = 2 * settingsDepth writes + 2 := by
  have hwrites := membersNesting_settingsJson writes
  cases h with
  | nameFirst | nameLast => simp [nesting, membersNesting, hwrites]

/-- Listed writes mean the selection that they come to. -/
theorem means (h : j.Lists name writes) (hordered : ∀ write ∈ writes, write.2.Ordered) :
    j.MeansSelection (.ofWrites name writes) := by
  have hwrites := membersMean_settingsJson writes
  rw [sortedSettings_eq (settingsOrdered_iff.2 fun k x hx => hordered (k, x) hx)] at hwrites
  rw [Selection.ofWrites_eq]
  cases h with
  | nameFirst => exact .mk (.byName (by simp) (by simp)) rfl hwrites.settings
  | nameLast => exact .mk (.byName (by simp) (by simp)) rfl hwrites.settings

/-- From a text that lists writes the selection is read that they come to, unless a
component in them is nested too deeply. -/
theorem readText_eq_ok_iff (h : j.Lists name writes)
    (hordered : ∀ write ∈ writes, write.2.Ordered) {text : String} (htext : Grammar.Text text j)
    {s : Selection} :
    readText Selection.read text = .ok s ↔
      (∀ write ∈ writes, write.2.depth ≤ 62) ∧ s = .ofWrites name writes := by
  have hmeans := h.means hordered
  rw [readText_eq_ok_iff_of_text htext, Selection.read_draft_eq_ok_iff, h.nesting_eq,
    Reader.maxDepth, ← settingsDepth_le_iff]
  refine and_congr (by omega) ⟨fun hs => hs.unique hmeans, ?_⟩
  intro hs
  subst hs
  exact hmeans

end Json.Lists

/-- The last write to a parameter stands, and a parameter that is not written is not set.
Writes in another order, or in another number, come to the same selection if and only if
they have the same last write to every parameter; then its texts are the same too. Its
JSON value lists the settings in the order of the bytes of their names. An object that
lists the writes one after another, repeated ones included and with the name in front or
behind, is read as that very selection, from any of its texts, and from no text if some
setting is nested too deeply. -/
theorem last_write_stands (name : String) (writes : List (String × Setting)) :
    (∀ k x, (Selection.ofWrites name writes).get? k = some x ↔ LastWrite writes k x) ∧
    (∀ k, (Selection.ofWrites name writes).get? k = none ↔ k ∉ writes.map Prod.fst) ∧
    (∀ others, Selection.ofWrites name writes = .ofWrites name others ↔
      ∀ k x, LastWrite writes k x ↔ LastWrite others k x) ∧
    (∀ others, (∀ k x, LastWrite writes k x ↔ LastWrite others k x) →
      (Selection.ofWrites name writes).display = (Selection.ofWrites name others).display ∧
      (Selection.ofWrites name writes).json.compact =
        (Selection.ofWrites name others).json.compact) ∧
    (∃ members, (Selection.ofWrites name writes).json =
        .object [("name", .string name), ("parameters", .object members)] ∧
      (members.map Prod.fst).Pairwise fun k l => Text.utf8 k < Text.utf8 l) ∧
    ((∀ write ∈ writes, write.2.Ordered) → ∀ j, Json.Lists name writes j →
      Grammar.Text j.compact j ∧
      ∀ text, Grammar.Text text j → ∀ s, readText Selection.read text = .ok s ↔
        (∀ write ∈ writes, write.2.depth ≤ 62) ∧ s = .ofWrites name writes) := by
  refine ⟨fun k x => ?_, fun k => ?_, fun others => Selection.ofWrites_eq_iff,
    fun others h => ?_, ?_, fun hordered j hlists => ⟨text_compact hlists.exact, ?_⟩⟩
  · rw [Selection.get?_ofWrites, lookup_reverse_eq_some_iff]
  · rw [Selection.get?_ofWrites, lookup_reverse_eq_none_iff]
  · rw [Selection.ofWrites_eq_iff.2 h]
    exact ⟨rfl, rfl⟩
  · rw [Selection.ofWrites_eq]
    refine ⟨_, rfl, ?_⟩
    rw [keys_settingsJson]
    exact (Keyed.ordered_ofList writes).utf8
  · exact fun text htext s => hlists.readText_eq_ok_iff hordered htext

/-- The format of the 16-bit encoder, written twice and at last in the way of another
order of writes. The text names the encoder behind its settings. -/
theorem last_write_stands_format :
    let writes := [("type", .text "fp16"), ("clip", .boolean true), ("type", .text "bf16")]
    let others := [("clip", .boolean true), ("type", .text "bf16")]
    let j := Json.object [("parameters", .object (settingsJson writes)), ("name", .string "sq")]
    Selection.ofWrites "sq" writes = ⟨"sq", others⟩ ∧
      LastWrite writes "type" (.text "bf16") ∧
      (∀ k x, LastWrite writes k x ↔ LastWrite others k x) ∧
      (Selection.ofWrites "sq" writes).json.compact =
        (Selection.ofWrites "sq" others).json.compact ∧
      readText Selection.read j.compact = .ok ⟨"sq", others⟩ := by
  intro writes others j
  have hwrites : Selection.ofWrites "sq" writes = ⟨"sq", others⟩ := by decide
  have hothers : Selection.ofWrites "sq" others = ⟨"sq", others⟩ := by decide
  obtain ⟨hget, -, hsame, htexts, -, hread⟩ := last_write_stands "sq" writes
  have hlast := (hsame others).1 (hwrites.trans hothers.symm)
  have hordered : ∀ write ∈ writes, write.2.Ordered := by simp [writes, Setting.Ordered]
  have hdepth : ∀ write ∈ writes, write.2.depth ≤ 62 := by simp [writes, Setting.depth]
  obtain ⟨htext, hread⟩ := hread hordered j .nameLast
  refine ⟨hwrites, (hget _ _).1 ?_, hlast, (htexts others hlast).2,
    (hread _ htext _).2 ⟨hdepth, hwrites.symm⟩⟩
  rw [hwrites]
  rfl

end VectorIndex
