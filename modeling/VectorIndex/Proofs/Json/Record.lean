import VectorIndex.Proofs.Keyed
import VectorIndex.Proofs.Json.Reader

/-!
# Reading records

A record may be written by name, in any order, or by position. Either way it
comes to storing its fields one after another in the order of declaration, each
with the value given to it, if there is one (`storeFields`).

* `Field.Commutes`: two fields may be stored in either order.
* `storeMembers_eq_ok_iff`: the members of an object.
* `storeItems_eq_ok_iff`: the items of an array.
* `Json.Gives`: what a value gives for each field, however it is written.
* `Record.read_draft_eq_ok_iff`: a record is read by storing what is given.
* `gives_array_iff`, `Gives.of_perm`: an array gives what an object gives, and the order of
  members does not matter.
-/

namespace VectorIndex.Json

variable {σ : Type}

/-- Stores the fields in their order, each with the value given to it. -/
def storeFields : List (Field σ) → (String → Option Draft) → σ → Except ReadError σ
  | [], _, s => .ok s
  | field :: fields, given, s =>
    match given field.name with
    | none => storeFields fields given s
    | some d => field.store d s >>= storeFields fields given

/-- It does not matter which of two fields is stored first. -/
def Field.Commutes (f g : Field σ) : Prop :=
  ∀ d e s s', (f.store d s >>= g.store e) = .ok s' ↔ (g.store e s >>= f.store d) = .ok s'

theorem storeFields_congr {fields : List (Field σ)} {given given' : String → Option Draft}
    (h : ∀ field ∈ fields, given field.name = given' field.name) (s : σ) :
    storeFields fields given s = storeFields fields given' s := by
  induction fields generalizing s with
  | nil => rfl
  | cons field fields ih =>
    have hrest := ih fun f hf => h f (List.mem_cons_of_mem _ hf)
    have hsame : storeFields fields given = storeFields fields given' := funext hrest
    simp only [storeFields, h field List.mem_cons_self, hsame]

/-- A value given to one field more may as well be stored before all others. -/
theorem storeFields_given {fields : List (Field σ)} {given given' : String → Option Draft}
    (hcommutes : fields.Pairwise Field.Commutes) (hnodup : (fields.map (·.name)).Nodup)
    {field : Field σ} (hfield : field ∈ fields) {d : Draft} (hnone : given field.name = none)
    (hsome : given' field.name = some d) (hothers : ∀ k ≠ field.name, given' k = given k)
    {s s' : σ} :
    storeFields fields given' s = .ok s' ↔
      (field.store d s >>= storeFields fields given) = .ok s' := by
  induction fields generalizing s with
  | nil => exact absurd hfield List.not_mem_nil
  | cons f fields ih =>
    rw [List.pairwise_cons] at hcommutes
    rw [List.map_cons, List.nodup_cons] at hnodup
    rcases List.mem_cons.1 hfield with rfl | hmem
    · have hsame : storeFields fields given' = storeFields fields given := by
        refine funext (storeFields_congr fun g hg => hothers _ fun heq => ?_)
        exact hnodup.1 (heq ▸ List.mem_map_of_mem hg)
      simp [storeFields, hnone, hsome, hsame]
    · have hne : f.name ≠ field.name := fun heq =>
        hnodup.1 (heq ▸ List.mem_map_of_mem hmem)
      have hrest := fun t => ih hcommutes.2 hnodup.2 hmem (s := t)
      cases hf : given f.name with
      | none => simpa [storeFields, hothers _ hne, hf] using hrest s
      | some e =>
        have hswap : ∀ t, (f.store e s >>= field.store d) = .ok t ↔
            (field.store d s >>= f.store e) = .ok t := hcommutes.1 field hmem e d s
        simp only [bind_eq_ok_iff] at hswap hrest
        simp only [storeFields, hothers _ hne, hf, bind_eq_ok_iff, hrest]
        constructor
        · intro h
          obtain ⟨t, ht, u, hu, hs'⟩ := h
          obtain ⟨t', ht', hu'⟩ := (hswap u).1 ⟨t, ht, hu⟩
          exact ⟨t', ht', u, hu', hs'⟩
        · intro h
          obtain ⟨t', ht', u, hu', hs'⟩ := h
          obtain ⟨t, ht, hu⟩ := (hswap u).2 ⟨t', ht', hu'⟩
          exact ⟨t, ht, u, hu, hs'⟩

/-! ## Objects and arrays -/

theorem storeFields_none {fields : List (Field σ)} {given : String → Option Draft}
    (h : ∀ field ∈ fields, given field.name = none) (s : σ) :
    storeFields fields given s = .ok s := by
  induction fields with
  | nil => rfl
  | cons field fields ih =>
    rw [storeFields, h field List.mem_cons_self]
    exact ih fun f hf => h f (List.mem_cons_of_mem _ hf)

/-- The first of several members may be stored before the others. -/
theorem storeFields_lookup_cons {fields : List (Field σ)}
    (hcommutes : fields.Pairwise Field.Commutes) (hnodup : (fields.map (·.name)).Nodup)
    {field : Field σ} (hfield : field ∈ fields) {d : Draft} {rest : List (String × Draft)}
    (hnew : field.name ∉ rest.map Prod.fst) {s s' : σ} :
    storeFields fields (((field.name, d) :: rest).lookup ·) s = .ok s' ↔
      ∃ t, field.store d s = .ok t ∧ storeFields fields (rest.lookup ·) t = .ok s' := by
  rw [← bind_eq_ok_iff]
  refine storeFields_given hcommutes hnodup hfield
    (lookup_eq_none_iff_not_mem_keys.2 hnew) (by simp) fun k hk => ?_
  rw [Keyed.lookup_cons, if_neg hk]

/-- The members of an object are stored if each has the name of a field, and
none has the name of another or one seen before. -/
theorem storeMembers_eq_ok_iff {fields : List (Field σ)}
    (hcommutes : fields.Pairwise Field.Commutes) (hnodup : (fields.map (·.name)).Nodup)
    {seen : List String} {s s' : σ} {members : List (String × Draft)} :
    storeMembers fields seen s members = .ok s' ↔
      (members.map Prod.fst).Nodup ∧ (∀ k ∈ members.map Prod.fst, k ∉ seen) ∧
      members.map Prod.fst ⊆ fields.map (·.name) ∧
      storeFields fields (members.lookup ·) s = .ok s' := by
  induction members generalizing seen s with
  | nil => simp [storeMembers, storeFields_none]
  | cons member rest ih =>
    obtain ⟨name, d⟩ := member
    simp only [List.map_cons, List.nodup_cons, List.forall_mem_cons, List.cons_subset]
    unfold storeMembers
    cases hfind : fields.find? (·.name == name) with
    | none =>
      have hname : name ∉ fields.map (·.name) := by
        simpa [List.find?_eq_none] using hfind
      simp [hname]
    | some field =>
      obtain ⟨hfield, rfl⟩ := (find?_eq_some_iff_mem hnodup).1 hfind
      have hknown : field.name ∈ fields.map (·.name) := List.mem_map_of_mem hfield
      by_cases hseen : field.name ∈ seen
      · simp [hseen]
      · have hcontains : seen.contains field.name = false := by simpa using hseen
        simp only [hcontains, Bool.false_eq_true, if_false, bind_eq_ok_iff, ih]
        constructor
        · intro h
          obtain ⟨t, ht, hrest, hnew, hothers, hstore⟩ := h
          have hfirst : field.name ∉ rest.map Prod.fst := fun hk =>
            hnew _ hk List.mem_cons_self
          refine ⟨⟨hfirst, hrest⟩, ⟨hseen, fun k hk hk' => ?_⟩, ⟨hknown, hothers⟩, ?_⟩
          · exact hnew k hk (List.mem_cons_of_mem _ hk')
          · exact (storeFields_lookup_cons hcommutes hnodup hfield hfirst).2 ⟨t, ht, hstore⟩
        · intro h
          obtain ⟨⟨hfirst, hrest⟩, ⟨-, hnew⟩, ⟨-, hothers⟩, hstore⟩ := h
          obtain ⟨t, ht, hstore⟩ :=
            (storeFields_lookup_cons hcommutes hnodup hfield hfirst).1 hstore
          refine ⟨t, ht, hrest, fun k hk hk' => ?_, hothers, hstore⟩
          rcases List.mem_cons.1 hk' with rfl | hk'
          · exact hfirst hk
          · exact hnew k hk hk'

/-- The items of an array are stored if there are not more of them than
fields. -/
theorem storeItems_eq_ok_iff {fields : List (Field σ)} (hnodup : (fields.map (·.name)).Nodup)
    {s s' : σ} {items : List Draft} :
    storeItems fields s items none = .ok s' ↔
      items.length ≤ fields.length ∧
      storeFields fields (((fields.map (·.name)).zip items).lookup ·) s = .ok s' := by
  induction fields generalizing s items with
  | nil =>
    cases items with
    | nil => simp [storeItems, arrayEnd, storeFields, bind, Except.bind, pure, Except.pure]
    | cons d rest => simp [storeItems, arrayEnd, bind, Except.bind]
  | cons field fields ih =>
    rw [List.map_cons, List.nodup_cons] at hnodup
    cases items with
    | nil => simp [storeItems, ending, storeFields_none, bind, Except.bind, pure, Except.pure]
    | cons d rest =>
      have hothers : storeFields fields
            ((((field :: fields).map (·.name)).zip (d :: rest)).lookup ·) =
          storeFields fields (((fields.map (·.name)).zip rest).lookup ·) := by
        refine funext (storeFields_congr fun f hf => ?_)
        have hne : f.name ≠ field.name := fun heq => hnodup.1 (heq ▸ List.mem_map_of_mem hf)
        rw [List.map_cons, List.zip_cons_cons, Keyed.lookup_cons, if_neg hne]
      have hfirst : (((field :: fields).map (·.name)).zip (d :: rest)).lookup field.name =
          some d := by simp
      simp only [storeItems, storeFields, hothers, hfirst, bind_eq_ok_iff, ih hnodup.2,
        List.length_cons, Nat.succ_le_succ_iff]
      constructor
      · intro h
        obtain ⟨t, ht, hlength, hrest⟩ := h
        exact ⟨hlength, t, ht, hrest⟩
      · intro h
        obtain ⟨hlength, t, ht, hrest⟩ := h
        exact ⟨t, ht, hlength, hrest⟩

/-! ## Records -/

/-- A value gives some of the named fields: by name in any order, each once at
most, or by position, as many as there are items. -/
inductive Gives (names : List String) : Json → (String → Option Json) → Prop where
  | byName {members} :
      (members.map Prod.fst).Nodup → members.map Prod.fst ⊆ names →
      Gives names (.object members) (members.lookup ·)
  | byPosition {items} :
      items.length ≤ names.length → Gives names (.array items) ((names.zip items).lookup ·)

/-- How the fields of a record are written in a value. -/
def layout : Json → Layout
  | array _ => .byPosition
  | _ => .byName

/-- The fields of a record have different names and may be stored in any order. -/
structure Record.Regular {α : Type} (r : Record σ α) : Prop where
  commutes : r.fields.Pairwise Field.Commutes
  nodup : (r.fields.map (·.name)).Nodup

theorem memberDrafts_eq_map (members : List (String × Json)) :
    memberDrafts members = members.map fun m => (m.1, m.2.draft) := by
  induction members with
  | nil => rfl
  | cons m rest ih => rw [memberDrafts, ih]; rfl

theorem itemDrafts_eq_map (items : List Json) : itemDrafts items = items.map draft := by
  induction items with
  | nil => rfl
  | cons j rest ih => rw [itemDrafts, ih]; rfl

theorem lookup_memberDrafts (members : List (String × Json)) (k : String) :
    (memberDrafts members).lookup k = (members.lookup k).map draft := by
  rw [memberDrafts_eq_map]
  exact lookup_map_snd (fun _ j => j.draft) k members

theorem lookup_zip_itemDrafts (names : List String) (items : List Json) (k : String) :
    (names.zip (itemDrafts items)).lookup k = ((names.zip items).lookup k).map draft := by
  rw [itemDrafts_eq_map, List.zip_map_right]
  exact lookup_map_snd (fun _ j => j.draft) k (names.zip items)

/-- A record is read from a value exactly if the value gives some of its
fields, and each of these can be stored. -/
theorem Record.read_draft_eq_ok_iff {α : Type} {r : Record σ α} (hr : r.Regular) {j : Json}
    {a : α} :
    r.read j.draft = .ok a ↔
      ∃ given, j.Gives (r.fields.map (·.name)) given ∧
        ∃ s, storeFields r.fields (fun k => (given k).map draft) r.start = .ok s ∧
          r.finish j.layout s = .ok a := by
  constructor
  · intro h
    cases j with
    | null | boolean | number | string => exact nomatch h
    | array items =>
      obtain ⟨s, hs, hfinish⟩ := bind_eq_ok_iff.1 h
      obtain ⟨hlength, hstore⟩ := (storeItems_eq_ok_iff hr.nodup).1 hs
      simp only [lookup_zip_itemDrafts] at hstore
      rw [itemDrafts_eq_map, List.length_map, ← List.length_map (f := Field.name)] at hlength
      exact ⟨_, .byPosition hlength, s, hstore, hfinish⟩
    | object members =>
      obtain ⟨s, hs, hfinish⟩ := bind_eq_ok_iff.1 h
      obtain ⟨hnodup, -, hknown, hstore⟩ := (storeMembers_eq_ok_iff hr.commutes hr.nodup).1 hs
      simp only [lookup_memberDrafts] at hstore
      simp only [memberDrafts_eq_map, List.map_map, Function.comp_def] at hnodup hknown
      exact ⟨_, .byName hnodup hknown, s, hstore, hfinish⟩
  · intro h
    obtain ⟨given, hgives, s, hstore, hfinish⟩ := h
    cases hgives with
    | @byName members hnodup hknown =>
      have hs : storeMembers r.fields [] r.start (memberDrafts members) = .ok s := by
        refine (storeMembers_eq_ok_iff hr.commutes hr.nodup).2 ⟨?_, by simp, ?_, ?_⟩
        · simpa only [memberDrafts_eq_map, List.map_map, Function.comp_def] using hnodup
        · simpa only [memberDrafts_eq_map, List.map_map, Function.comp_def] using hknown
        · simpa only [lookup_memberDrafts] using hstore
      exact bind_eq_ok_iff.2 ⟨s, hs, hfinish⟩
    | @byPosition items hlength =>
      have hs : storeItems r.fields r.start (itemDrafts items) none = .ok s := by
        refine (storeItems_eq_ok_iff hr.nodup).2 ⟨?_, ?_⟩
        · simpa [itemDrafts_eq_map] using hlength
        · simpa only [lookup_zip_itemDrafts] using hstore
      exact bind_eq_ok_iff.2 ⟨s, hs, hfinish⟩

/-- A record is complete if the field that has to be there is. -/
theorem Record.required_eq_ok_iff {α : Type} {title : String} {fields : Nat} {name : String}
    {layout : Layout} {value : Option α} {a : α} :
    Record.required title fields name layout value = .ok a ↔ value = some a := by
  cases value with
  | none => cases layout <;> exact ⟨nofun, nofun⟩
  | some b => simp [Record.required]

/-! ## What is given -/

theorem keys_zip_sublist {α : Type} (names : List String) (items : List α) :
    ((names.zip items).map Prod.fst).Sublist names := by
  induction names generalizing items with
  | nil => exact .slnil
  | cons name names ih =>
    cases items with
    | nil => exact List.nil_sublist _
    | cons item items => exact (ih items).cons_cons name

theorem membersNesting_le_iff {members : List (String × Json)} {n : Nat} :
    membersNesting members ≤ n ↔ ∀ m ∈ members, m.2.nesting ≤ n := by
  induction members with
  | nil => simp [membersNesting]
  | cons m rest ih => rw [membersNesting, Nat.max_le, ih, List.forall_mem_cons]

theorem itemsNesting_le_iff {items : List Json} {n : Nat} :
    itemsNesting items ≤ n ↔ ∀ j ∈ items, j.nesting ≤ n := by
  induction items with
  | nil => simp [itemsNesting]
  | cons j rest ih => rw [itemsNesting, Nat.max_le, ih, List.forall_mem_cons]

section

variable {names : List String} {given : String → Option Json}

/-- An array gives what the object gives that names its items. -/
theorem gives_array_iff (hnodup : names.Nodup) {items : List Json}
    (hlength : items.length ≤ names.length) :
    (array items).Gives names given ↔ (object (names.zip items)).Gives names given := by
  have hkeys := keys_zip_sublist names items
  constructor
  · intro h
    cases h with
    | byPosition => exact .byName (hkeys.nodup hnodup) hkeys.subset
  · intro h
    cases h with
    | byName => exact .byPosition hlength

/-- The order of members does not matter to what they give. -/
theorem Gives.of_perm {members members' : List (String × Json)} (hperm : members.Perm members')
    (h : (object members).Gives names given) : (object members').Gives names given := by
  cases h with
  | byName hnodup hknown =>
    have hkeys := hperm.map Prod.fst
    rw [funext (lookup_eq_of_perm hperm hnodup)]
    exact .byName (hkeys.nodup_iff.1 hnodup) fun k hk => hknown (hkeys.mem_iff.2 hk)

/-- What is not nested deeply in any field is not nested deeply as a whole. -/
theorem Gives.nesting_le {j : Json} (hnodup : names.Nodup) (h : j.Gives names given) {n : Nat}
    (hgiven : ∀ k ∈ names, ∀ v, given k = some v → v.nesting ≤ n) : j.nesting ≤ n + 1 := by
  cases h with
  | @byName members hmembers hknown =>
    refine Nat.succ_le_succ (membersNesting_le_iff.2 fun m hm => ?_)
    exact hgiven m.1 (hknown (List.mem_map_of_mem hm)) m.2
      ((lookup_eq_some_iff_mem hmembers).2 hm)
  | @byPosition items hlength =>
    have hkeys := keys_zip_sublist names items
    refine Nat.succ_le_succ (itemsNesting_le_iff.2 fun j hj => ?_)
    rw [← List.map_snd_zip hlength] at hj
    obtain ⟨⟨k, v⟩, hmem, rfl⟩ := List.mem_map.1 hj
    exact hgiven k (hkeys.subset (List.mem_map_of_mem hmem)) v
      ((lookup_eq_some_iff_mem (hkeys.nodup hnodup)).2 hmem)

end

/-! ## Fields of their own -/

/-- Fields that are read without regard to the rest of the record, and stored
in different places, may be stored in either order. -/
theorem Field.commutes_of_store {α β : Type} {f g : Field σ}
    {readF : Draft → Except ReadError α} {readG : Draft → Except ReadError β}
    {setF : α → σ → σ} {setG : β → σ → σ}
    (hf : ∀ d s, f.store d s = readF d >>= fun a => pure (setF a s))
    (hg : ∀ d s, g.store d s = readG d >>= fun b => pure (setG b s))
    (hswap : ∀ a b s, setG b (setF a s) = setF a (setG b s)) : f.Commutes g := by
  intro d e s s'
  simp only [hf, hg, bind_assoc, pure_bind, bind_eq_ok_iff, hswap]
  constructor
  · intro h
    obtain ⟨a, ha, b, hb, hs'⟩ := h
    exact ⟨b, hb, a, ha, hs'⟩
  · intro h
    obtain ⟨b, hb, a, ha, hs'⟩ := h
    exact ⟨a, ha, b, hb, hs'⟩

end VectorIndex.Json
