import VectorIndex.Defaults
import VectorIndex.Proofs.Json.Printer
import VectorIndex.Proofs.Setting.Meaning

/-!
# What a file of defaults says

Which defaults a JSON value stands for, stated without the reader: a record of integers,
each of which may be left out. A field that is given has that very integer, whatever the
others are, and a field that is left out has a default of its own.

* `Json.MeansInteger`, `Json.MeansDefaults`: the relations.
* `Defaults.readText_eq_ok_iff`: a text is read as defaults exactly if it spells a value
  that means them. Such a value is never nested too deeply.
* `Json.meansDefaults_perm_iff`, `Json.meansDefaults_array_iff`: the ways to write one
  record.
* `defaults_read_exactly`: all of that, and that written defaults return.
-/

namespace VectorIndex

open Json

/-! ## The relations -/

/-- The fields of defaults in their order. -/
def Defaults.fieldNames : List String :=
  ["algo_param_m", "algo_param_ef_construction", "algo_param_ef_search"]

/-- The value, if there is one, is an integer of 64 bits, and means that integer. Without
a value the integer is `standard`. -/
inductive Json.MeansInteger (standard : Int64) : Option Json → Int64 → Prop where
  | absent : Json.MeansInteger standard none standard
  | integer {n : Int64} : Json.MeansInteger standard (some (.number (.integer n.toInt))) n

/-- The value means the defaults: it gives some of the fields, and an integer for each. -/
inductive Json.MeansDefaults : Json → Defaults → Prop where
  | mk {j given m efConstruction efSearch} :
      j.Gives Defaults.fieldNames given →
      Json.MeansInteger 16 (given "algo_param_m") m →
      Json.MeansInteger 100 (given "algo_param_ef_construction") efConstruction →
      Json.MeansInteger 100 (given "algo_param_ef_search") efSearch →
      Json.MeansDefaults j ⟨m, efConstruction, efSearch⟩

/-! ## Integers -/

@[simp] theorem Json.meansInteger_none_iff {standard n : Int64} :
    MeansInteger standard none n ↔ n = standard := by
  constructor
  · intro h
    cases h
    rfl
  · intro h
    subst h
    exact .absent

@[simp] theorem Json.meansInteger_some_iff {standard n : Int64} {j : Json} :
    MeansInteger standard (some j) n ↔ j = .number (.integer n.toInt) := by
  constructor
  · intro h
    cases h
    rfl
  · intro h
    subst h
    exact .integer

/-- The integers of 64 bits are those between the two ends. -/
theorem exists_toInt_eq_iff {i : Int} :
    (∃ n : Int64, n.toInt = i) ↔ -2 ^ 63 ≤ i ∧ i ≤ 2 ^ 63 - 1 := by
  constructor
  · intro h
    obtain ⟨n, rfl⟩ := h
    have hlow := n.le_toInt
    have hhigh := n.toInt_lt
    omega
  · intro h
    exact ⟨.ofInt i, Int64.toInt_ofInt_of_le (by omega) (by omega)⟩

/-- The literal of an integer of 64 bits has no fraction, no exponent and no minus sign in
front of zero. It is its digits, however many, that tell the integer. -/
theorem Json.Grammar.number_integer_iff {text rest : List Char} {i : Int} (hlow : -2 ^ 63 ≤ i)
    (hhigh : i ≤ 2 ^ 63 - 1) :
    Grammar.Number text (.integer i) rest ↔ ∃ ds, Grammar.Whole ds ∧
      (text = ds ++ rest ∧ i = Decimal.value ds ∨
        text = '-' :: (ds ++ rest) ∧ i = -(Decimal.value ds : Int) ∧ i ≠ 0) := by
  constructor
  · intro h
    cases h with
    | @natural ds _ hw => exact ⟨ds, hw, .inl ⟨rfl, rfl⟩⟩
    | @negative ds _ hw hpos => exact ⟨ds, hw, .inr ⟨rfl, rfl, by omega⟩⟩
  · intro h
    obtain ⟨ds, hw, ⟨rfl, rfl⟩ | ⟨rfl, rfl, hne⟩⟩ := h
    · exact .natural hw (by omega)
    · exact .negative hw (by omega) (by omega)

/-- A field can be read if nothing or an integer of 64 bits is given for it. -/
theorem Json.exists_meansInteger_iff {standard : Int64} {given : Option Json} :
    (∃ n, MeansInteger standard given n) ↔
      ∀ j, given = some j →
        ∃ i : Int, j = .number (.integer i) ∧ -2 ^ 63 ≤ i ∧ i ≤ 2 ^ 63 - 1 := by
  cases given with
  | none => simp
  | some j =>
    simp only [meansInteger_some_iff, Option.some.injEq, forall_eq', ← exists_toInt_eq_iff]
    constructor
    · intro h
      obtain ⟨n, rfl⟩ := h
      exact ⟨_, rfl, n, rfl⟩
    · intro h
      obtain ⟨_, rfl, n, rfl⟩ := h
      exact ⟨n, rfl⟩

/-- An integer of 64 bits is read from a value exactly if the value is that integer. -/
theorem readInt64_draft_eq_ok_iff {j : Json} {n : Int64} :
    readInt64 j.draft = .ok n ↔ j = .number (.integer n.toInt) := by
  cases j with
  | number x =>
    cases x with
    | integer i =>
      rw [draft, readInt64, number.injEq, Number.integer.injEq, ← int64OfInt?_eq_some_iff]
      cases Decimal.int64OfInt? i <;> simp
    | real x => simp [draft, readInt64]
  | null | boolean | string | array | object => simp [draft, readInt64]

/-! ## Reading -/

namespace Defaults

theorem record_regular : record.Regular := by
  refine ⟨.cons ?_ (List.pairwise_pair.2 ?_), by decide⟩
  · refine List.forall_mem_cons.2 ⟨?_, List.forall_mem_singleton.2 ?_⟩
    · exact Field.commutes_of_store (fun _ _ => rfl) (fun _ _ => rfl) fun _ _ _ => rfl
    · exact Field.commutes_of_store (fun _ _ => rfl) (fun _ _ => rfl) fun _ _ _ => rfl
  · exact Field.commutes_of_store (fun _ _ => rfl) (fun _ _ => rfl) fun _ _ _ => rfl

/-- The fields of defaults are stored if each has the integer that is given for it, or is
left as it was. -/
theorem storeFields_eq_ok_iff {given : String → Option Json} {d : Defaults} :
    storeFields record.fields (fun k => (given k).map draft) record.start = .ok d ↔
      MeansInteger 16 (given "algo_param_m") d.m ∧
        MeansInteger 100 (given "algo_param_ef_construction") d.efConstruction ∧
        MeansInteger 100 (given "algo_param_ef_search") d.efSearch := by
  obtain ⟨m, efConstruction, efSearch⟩ := d
  simp only [record, storeFields]
  cases given "algo_param_m" <;> cases given "algo_param_ef_construction" <;>
    cases given "algo_param_ef_search" <;>
    simp [bind_eq_ok_iff, pure, Except.pure, readInt64_draft_eq_ok_iff, builtIn] <;> grind

/-- Defaults are read from a value exactly if the value means them. -/
theorem read_draft_eq_ok_iff {j : Json} {d : Defaults} :
    record.read j.draft = .ok d ↔ j.MeansDefaults d := by
  rw [Record.read_draft_eq_ok_iff record_regular]
  simp only [storeFields_eq_ok_iff]
  constructor
  · intro h
    obtain ⟨given, hgives, s, ⟨hm, hconstruction, hsearch⟩, hfinish⟩ := h
    cases hfinish
    exact .mk hgives hm hconstruction hsearch
  · intro h
    obtain ⟨hgives, hm, hconstruction, hsearch⟩ := h
    exact ⟨_, hgives, _, ⟨hm, hconstruction, hsearch⟩, rfl⟩

end Defaults

/-- A value means some defaults if it gives nothing but fields, and integers of 64 bits. -/
theorem Json.exists_meansDefaults_iff {j : Json} :
    (∃ d, j.MeansDefaults d) ↔ ∃ given, j.Gives Defaults.fieldNames given ∧
      ∀ k ∈ Defaults.fieldNames, ∀ v, given k = some v →
        ∃ i : Int, v = .number (.integer i) ∧ -2 ^ 63 ≤ i ∧ i ≤ 2 ^ 63 - 1 := by
  constructor
  · intro h
    obtain ⟨_, ⟨hgives, hm, hconstruction, hsearch⟩⟩ := h
    refine ⟨_, hgives, List.forall_mem_cons.2 ⟨?_, List.forall_mem_cons.2 ⟨?_, ?_⟩⟩⟩
    · exact exists_meansInteger_iff.1 ⟨_, hm⟩
    · exact exists_meansInteger_iff.1 ⟨_, hconstruction⟩
    · exact List.forall_mem_singleton.2 (exists_meansInteger_iff.1 ⟨_, hsearch⟩)
  · intro h
    obtain ⟨given, hgives, hfields⟩ := h
    obtain ⟨m, hm⟩ := exists_meansInteger_iff.2 (hfields _ List.mem_cons_self)
    obtain ⟨efConstruction, hconstruction⟩ :=
      exists_meansInteger_iff.2 (hfields "algo_param_ef_construction" (by decide))
    obtain ⟨efSearch, hsearch⟩ :=
      exists_meansInteger_iff.2 (hfields "algo_param_ef_search" (by decide))
    exact ⟨_, .mk hgives hm hconstruction hsearch⟩

/-- Integers are not nested, so a value that means defaults holds them directly. -/
theorem Json.MeansDefaults.nesting_le {j : Json} {d : Defaults} (h : j.MeansDefaults d) :
    j.nesting ≤ 1 := by
  obtain ⟨given, hgives, hfields⟩ := exists_meansDefaults_iff.1 ⟨d, h⟩
  refine hgives.nesting_le (by decide) fun k hk v hv => ?_
  obtain ⟨i, rfl, -⟩ := hfields k hk v hv
  exact Nat.le_refl 0

/-- A text is read as defaults exactly if it spells a value that means them. -/
theorem Defaults.readText_eq_ok_iff {text : String} {d : Defaults} :
    readText record.read text = .ok d ↔ ∃ j, Grammar.Text text j ∧ j.MeansDefaults d := by
  simp only [Json.readText_eq_ok_iff, read_draft_eq_ok_iff]
  constructor
  · intro h
    obtain ⟨j, htext, -, hmeans⟩ := h
    exact ⟨j, htext, hmeans⟩
  · intro h
    obtain ⟨j, htext, hmeans⟩ := h
    exact ⟨j, htext, Nat.le_trans hmeans.nesting_le (by decide), hmeans⟩

theorem Defaults.readText_eq_ok_iff_of_text {text : String} {j : Json} {d : Defaults}
    (htext : Grammar.Text text j) : readText record.read text = .ok d ↔ j.MeansDefaults d := by
  rw [readText_eq_ok_iff]
  constructor
  · intro h
    obtain ⟨i, hi, hmeans⟩ := h
    rwa [htext.unique hi]
  · intro h
    exact ⟨j, htext, h⟩

/-! ## One record in several ways -/

/-- The order of members does not matter. -/
theorem Json.meansDefaults_perm_iff {members members' : List (String × Json)}
    (hperm : members.Perm members') {d : Defaults} :
    (object members).MeansDefaults d ↔ (object members').MeansDefaults d := by
  constructor
  · intro h
    obtain ⟨hgives, hm, hconstruction, hsearch⟩ := h
    exact .mk (hgives.of_perm hperm) hm hconstruction hsearch
  · intro h
    obtain ⟨hgives, hm, hconstruction, hsearch⟩ := h
    exact .mk (hgives.of_perm hperm.symm) hm hconstruction hsearch

/-- An array stands for the object that names its items. -/
theorem Json.meansDefaults_array_iff {items : List Json} (hlength : items.length ≤ 3)
    {d : Defaults} :
    (array items).MeansDefaults d ↔
      (object (Defaults.fieldNames.zip items)).MeansDefaults d := by
  have hgives : ∀ given, (array items).Gives Defaults.fieldNames given ↔
      (object (Defaults.fieldNames.zip items)).Gives Defaults.fieldNames given :=
    fun given => gives_array_iff (by decide) hlength
  constructor
  · intro h
    obtain ⟨hitems, hm, hconstruction, hsearch⟩ := h
    exact .mk ((hgives _).1 hitems) hm hconstruction hsearch
  · intro h
    obtain ⟨hmembers, hm, hconstruction, hsearch⟩ := h
    exact .mk ((hgives _).2 hmembers) hm hconstruction hsearch

/-! ## Writing and reading again -/

/-- The JSON value of defaults means them. -/
theorem Defaults.means_json (d : Defaults) : d.json.MeansDefaults d :=
  .mk (.byName (by simp) (by simp [fieldNames])) .integer .integer .integer

theorem Defaults.exact_json (d : Defaults) : d.json.Exact := by
  have hexact : ∀ n : Int64, -2 ^ 63 ≤ n.toInt ∧ n.toInt < 2 ^ 64 := fun n =>
    ⟨n.le_toInt, Int.lt_trans n.toInt_lt (by decide)⟩
  exact ⟨hexact _, hexact _, hexact _, trivial⟩

/-- Written defaults return. -/
theorem Defaults.readText_json (d : Defaults) : readText record.read d.json.compact = .ok d :=
  (readText_eq_ok_iff_of_text (text_compact d.exact_json)).2 d.means_json

/-- Defaults are read exactly, and field by field. A text is read as defaults if and only if
it spells a value that means them: an object with some of the fields in any order, each
once, or an array of the first few of them, and in either case with integers of 64 bits
for values. These are written with digits alone, and a minus sign if they are negative.
Each field has the very integer that is given for it, and one of its own if none is given.
So the order of members does not matter, an array stands for the object that names its
items, written defaults return, and a file of defaults is read for the text in it. -/
theorem defaults_read_exactly :
    (∀ text d, readText Defaults.record.read text = .ok d ↔
      ∃ j, Grammar.Text text j ∧ j.MeansDefaults d) ∧
    (∀ text, (∃ d, readText Defaults.record.read text = .ok d) ↔
      ∃ j given, Grammar.Text text j ∧ j.Gives Defaults.fieldNames given ∧
        ∀ k ∈ Defaults.fieldNames, ∀ v, given k = some v →
          ∃ i : Int, v = .number (.integer i) ∧ -2 ^ 63 ≤ i ∧ i ≤ 2 ^ 63 - 1) ∧
    (∀ (text rest : List Char) (i : Int), -2 ^ 63 ≤ i → i ≤ 2 ^ 63 - 1 →
      (Grammar.Number text (.integer i) rest ↔ ∃ ds, Grammar.Whole ds ∧
        (text = ds ++ rest ∧ i = Decimal.value ds ∨
          text = '-' :: (ds ++ rest) ∧ i = -(Decimal.value ds : Int) ∧ i ≠ 0))) ∧
    (∀ text text' members members', Grammar.Text text (.object members) →
      Grammar.Text text' (.object members') → members.Perm members' →
      ∀ d, readText Defaults.record.read text = .ok d ↔
        readText Defaults.record.read text' = .ok d) ∧
    (∀ text text' items, Grammar.Text text (.array items) → items.length ≤ 3 →
      Grammar.Text text' (.object (Defaults.fieldNames.zip items)) →
      ∀ d, readText Defaults.record.read text = .ok d ↔
        readText Defaults.record.read text' = .ok d) ∧
    (∀ d : Defaults, readText Defaults.record.read d.json.compact = .ok d) ∧
    (∀ f d, Defaults.load f = .ok d ↔
      ∃ text, f.text = .ok text ∧ readText Defaults.record.read text = .ok d) := by
  refine ⟨fun text d => Defaults.readText_eq_ok_iff, fun text => ?_,
    fun text rest i hlow hhigh => Grammar.number_integer_iff hlow hhigh,
    fun text text' members members' htext htext' hperm d => ?_,
    fun text text' items htext hlength htext' d => ?_, Defaults.readText_json, fun f d => ?_⟩
  · simp only [Defaults.readText_eq_ok_iff]
    rw [exists_comm]
    simp only [exists_and_left, Json.exists_meansDefaults_iff]
  · rw [Defaults.readText_eq_ok_iff_of_text htext, Defaults.readText_eq_ok_iff_of_text htext',
      Json.meansDefaults_perm_iff hperm]
  · rw [Defaults.readText_eq_ok_iff_of_text htext, Defaults.readText_eq_ok_iff_of_text htext',
      Json.meansDefaults_array_iff hlength]
  · unfold Defaults.load File.read
    cases f.text with
    | error problem => simp
    | ok text => simp [mapError_eq_ok_iff]

/-- Two fields in either order, the smallest integer of 64 bits in one of them; the other as
an array of one item and as an object; and the integer beyond the greatest one. -/
theorem defaults_read_exactly_ends :
    let m := Json.number (.integer 8)
    let efSearch := Json.number (.integer (-9223372036854775808))
    readText Defaults.record.read
        (Json.object [("algo_param_ef_search", efSearch), ("algo_param_m", m)]).compact =
      .ok ⟨8, 100, -9223372036854775808⟩ ∧
    readText Defaults.record.read
        (Json.object [("algo_param_m", m), ("algo_param_ef_search", efSearch)]).compact =
      .ok ⟨8, 100, -9223372036854775808⟩ ∧
    readText Defaults.record.read (Json.array [m]).compact = .ok ⟨8, 100, 100⟩ ∧
    readText Defaults.record.read (Json.object [("algo_param_m", m)]).compact =
      .ok ⟨8, 100, 100⟩ ∧
    Grammar.Number "-9223372036854775808".toList (.integer (-9223372036854775808)) [] ∧
    ¬∃ d, readText Defaults.record.read
      (Json.array [.number (.integer 9223372036854775808)]).compact = .ok d := by
  intro m efSearch
  obtain ⟨hread, hreadable, hliteral, hperm, harray, -, -⟩ := defaults_read_exactly
  have hm : Exact m := by simp [m, Exact]
  have hsearch : Exact efSearch := by simp [efSearch, Exact]
  have hfields : Grammar.Text _ _ := text_compact
    (j := .object [("algo_param_ef_search", efSearch), ("algo_param_m", m)])
    ⟨hsearch, hm, trivial⟩
  have hswapped : Grammar.Text _ _ := text_compact
    (j := .object [("algo_param_m", m), ("algo_param_ef_search", efSearch)])
    ⟨hm, hsearch, trivial⟩
  have hitem : Grammar.Text _ _ := text_compact (j := .array [m]) ⟨hm, trivial⟩
  have hmember : Grammar.Text _ _ :=
    text_compact (j := .object [("algo_param_m", m)]) ⟨hm, trivial⟩
  have hfields' := (hread _ ⟨8, 100, -9223372036854775808⟩).2 ⟨_, hfields,
    .mk (.byName (by simp) (by simp [Defaults.fieldNames])) (.integer (n := 8)) .absent
      (.integer (n := -9223372036854775808))⟩
  have hitem' := (hread _ ⟨8, 100, 100⟩).2 ⟨_, hitem,
    .mk (.byPosition (by decide)) (.integer (n := 8)) .absent .absent⟩
  refine ⟨hfields', (hperm _ _ _ _ hfields hswapped (.swap _ _ _) _).1 hfields', hitem',
    (harray _ _ _ hitem (by decide) hmember _).1 hitem', ?_, fun hbeyond => ?_⟩
  · have hwhole : Grammar.Whole "9223372036854775808".toList := ⟨⟨by decide, by simp⟩, by simp⟩
    exact (hliteral _ _ _ (by decide) (by decide)).2
      ⟨_, hwhole, .inr ⟨rfl, by decide, by decide⟩⟩
  · obtain ⟨j, given, htext, hgives, hvalues⟩ := (hreadable _).1 hbeyond
    obtain rfl := htext.unique (text_compact (by simp [Exact, ItemsExact]))
    cases hgives
    obtain ⟨i, hi, -, hhigh⟩ := hvalues "algo_param_m" (by decide) _ rfl
    cases hi
    exact absurd hhigh (by decide)

end VectorIndex
