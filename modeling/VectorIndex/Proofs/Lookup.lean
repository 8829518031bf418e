import Mathlib.Data.List.Forall2
import VectorIndex.Keyed

/-!
# Looking up among distinct names

Schemas and values are both searched by name, schemas with `List.find?` and
values with `List.lookup`.

* `find?_eq_some_iff_mem`: among distinct names the search for an item finds
  exactly the member of that name.
* `exists_lookup_iff_mem_keys`, `lookup_map_snd`: what the search for a value
  finds.
* `eq_of_keys_eq`: lists with the same distinct keys and the same value at
  every key are equal.
* `forall₂_iff_keys`: values that stand under the distinct names of some items,
  each related to its item.
-/

namespace VectorIndex

variable {α β : Type}

/-! ## Items by name -/

/-- A search by name, written for either side of the comparison. -/
theorem find?_name_some {name : α → String} {items : List α} {k : String} {x : α}
    (h : items.find? (name · == k) = some x) : x ∈ items ∧ name x = k :=
  ⟨List.mem_of_find?_eq_some h, by simpa using List.find?_some h⟩

/-- Among distinct names the search for a name finds the item that has it. -/
theorem find?_eq_some_iff_mem {name : α → String} {items : List α} {k : String} {x : α}
    (hnodup : (items.map name).Nodup) :
    items.find? (name · == k) = some x ↔ x ∈ items ∧ name x = k := by
  refine ⟨find?_name_some, fun h => ?_⟩
  obtain ⟨hx, rfl⟩ := h
  induction items with
  | nil => simp at hx
  | cons y rest ih =>
    rw [List.map_cons, List.nodup_cons] at hnodup
    rcases List.mem_cons.1 hx with rfl | hrest
    · simp
    · have hne : name y ≠ name x := fun h =>
        hnodup.1 (h ▸ List.mem_map_of_mem hrest)
      rw [List.find?_cons_of_neg (by simpa using hne)]
      exact ih hnodup.2 hrest

/-- Distinct names tell items apart. -/
theorem eq_of_name_eq {name : α → String} {items : List α} {x y : α}
    (hnodup : (items.map name).Nodup) (hx : x ∈ items) (hy : y ∈ items)
    (h : name x = name y) : x = y := by
  have hfind := (find?_eq_some_iff_mem hnodup).2 ⟨hx, h⟩
  rw [(find?_eq_some_iff_mem hnodup).2 ⟨hy, rfl⟩] at hfind
  exact (Option.some.inj hfind).symm

/-- Among distinct names the order does not matter to a search. -/
theorem find?_eq_of_perm {name : α → String} {xs ys : List α} (h : xs.Perm ys)
    (hnodup : (xs.map name).Nodup) (k : String) :
    xs.find? (name · == k) = ys.find? (name · == k) := by
  have hnodup' : (ys.map name).Nodup := (h.map name).nodup_iff.1 hnodup
  apply Option.ext
  intro x
  rw [find?_eq_some_iff_mem hnodup, find?_eq_some_iff_mem hnodup', h.mem_iff]

theorem exists_of_mem_forall₂ {R : α → β → Prop} {xs : List α} {ys : List β}
    (h : List.Forall₂ R xs ys) {x : α} (hx : x ∈ xs) : ∃ y ∈ ys, R x y := by
  induction h with
  | nil => exact absurd hx List.not_mem_nil
  | cons hxy _ ih =>
    rcases List.mem_cons.1 hx with rfl | hx
    · exact ⟨_, List.mem_cons_self, hxy⟩
    · obtain ⟨y, hy, hxy⟩ := ih hx
      exact ⟨y, List.mem_cons_of_mem _ hy, hxy⟩

theorem names_eq_of_forall₂ {name : α → String} {name' : β → String} {R : α → β → Prop}
    {xs : List α} {ys : List β} (hname : ∀ x y, R x y → name' y = name x)
    (h : List.Forall₂ R xs ys) : ys.map name' = xs.map name := by
  induction h with
  | nil => rfl
  | cons hxy _ ih => rw [List.map_cons, List.map_cons, hname _ _ hxy, ih]

/-- In lists whose items are related one by one and have the same names, searches
for a name find related items. -/
theorem rel_find?_of_forall₂ {name : α → String} {name' : β → String} {R : α → β → Prop}
    {xs : List α} {ys : List β} (hname : ∀ x y, R x y → name' y = name x)
    (h : List.Forall₂ R xs ys) (k : String) :
    Option.Rel R (xs.find? (name · == k)) (ys.find? (name' · == k)) := by
  induction h with
  | nil => exact .none
  | @cons x y _ _ hxy _ ih =>
    by_cases hk : name x = k
    · have hk' : name' y = k := (hname x y hxy).trans hk
      rw [List.find?_cons_of_pos (by simpa using hk), List.find?_cons_of_pos (by simpa using hk')]
      exact .some hxy
    · have hk' : name' y ≠ k := by rwa [hname x y hxy]
      rw [List.find?_cons_of_neg (by simpa using hk), List.find?_cons_of_neg (by simpa using hk')]
      exact ih

/-! ## Values by key -/

theorem mem_of_lookup {k : String} {v : α} {entries : List (String × α)}
    (h : entries.lookup k = some v) : (k, v) ∈ entries := by
  obtain ⟨front, back, rfl, -⟩ := List.lookup_eq_some_iff.1 h
  simp

/-- A key is found if it is listed. -/
theorem exists_lookup_iff_mem_keys {k : String} {entries : List (String × α)} :
    (∃ v, entries.lookup k = some v) ↔ k ∈ entries.map Prod.fst := by
  rw [← Option.isSome_iff_exists, List.lookup_isSome_iff]
  constructor
  · intro h
    obtain ⟨entry, hmem, hkey⟩ := h
    rw [beq_iff_eq] at hkey
    exact List.mem_map.2 ⟨entry, hmem, hkey.symm⟩
  · intro h
    obtain ⟨entry, hmem, rfl⟩ := List.mem_map.1 h
    exact ⟨entry, hmem, by simp⟩

/-- What stands at a key does not change when the values are mapped. -/
theorem lookup_map_snd (f : String → α → β) (k : String) (entries : List (String × α)) :
    (entries.map fun entry => (entry.1, f entry.1 entry.2)).lookup k =
      (entries.lookup k).map (f k) := by
  induction entries with
  | nil => rfl
  | cons entry rest ih =>
    rw [List.map_cons, Keyed.lookup_cons, ih, Keyed.lookup_cons]
    by_cases h : k = entry.1
    · simp [h]
    · simp [h]

/-- What stands at a key once another one is taken out. -/
theorem lookup_filter_ne (k l : String) (entries : List (String × α)) :
    (entries.filter fun entry => entry.1 != k).lookup l =
      if l = k then none else entries.lookup l := by
  induction entries with
  | nil => simp
  | cons entry rest ih =>
    obtain ⟨m, v⟩ := entry
    by_cases hkey : m = k
    · subst hkey
      rw [List.filter_cons_of_neg (by simp), ih, Keyed.lookup_cons]
      split <;> rfl
    · rw [List.filter_cons_of_pos (by simpa using hkey), Keyed.lookup_cons, ih, Keyed.lookup_cons]
      by_cases hl : l = m
      · subst hl
        simp [hkey]
      · simp [hl]

/-- Lists with the same distinct keys are equal if they agree at every key. -/
theorem eq_of_keys_eq {xs ys : List (String × α)} (hnodup : (xs.map Prod.fst).Nodup)
    (hkeys : xs.map Prod.fst = ys.map Prod.fst)
    (h : ∀ k v w, (k, v) ∈ xs → (k, w) ∈ ys → v = w) : xs = ys := by
  induction xs generalizing ys with
  | nil => simpa using hkeys.symm
  | cons x xs ih =>
    cases ys with
    | nil => simp at hkeys
    | cons y ys =>
      obtain ⟨k, v⟩ := x
      obtain ⟨l, w⟩ := y
      simp only [List.map_cons, List.cons.injEq] at hkeys
      obtain ⟨rfl, hrest⟩ := hkeys
      rw [List.map_cons, List.nodup_cons] at hnodup
      have hvalue : v = w := h k v w List.mem_cons_self List.mem_cons_self
      subst hvalue
      rw [ih hnodup.2 hrest fun l v w hv hw =>
        h l v w (List.mem_cons_of_mem _ hv) (List.mem_cons_of_mem _ hw)]

/-! ## Values under the names of items -/

variable {name : α → String} {R : α → β → Prop} {items : List α} {entries : List (String × β)}

/-- The first of the values, and the others. -/
theorem forall₂_cons_iff {x : α} :
    List.Forall₂ (fun x entry => entry.1 = name x ∧ R x entry.2) (x :: items) entries ↔
      ∃ v rest, entries = (name x, v) :: rest ∧ R x v ∧
        List.Forall₂ (fun x entry => entry.1 = name x ∧ R x entry.2) items rest := by
  rw [List.forall₂_cons_left_iff]
  constructor
  · intro h
    obtain ⟨⟨k, v⟩, rest, ⟨rfl, hv⟩, hrest, rfl⟩ := h
    exact ⟨v, rest, rfl, hv, hrest⟩
  · intro h
    obtain ⟨v, rest, rfl, hv, hrest⟩ := h
    exact ⟨(name x, v), rest, ⟨rfl, hv⟩, hrest, rfl⟩

theorem keys_of_forall₂
    (h : List.Forall₂ (fun x entry => entry.1 = name x ∧ R x entry.2) items entries) :
    entries.map Prod.fst = items.map name := by
  induction h with
  | nil => rfl
  | cons hentry _ ih => rw [List.map_cons, List.map_cons, hentry.1, ih]

/-- A value under a name stands for the item of that name. -/
theorem exists_item_of_mem (hkeys : entries.map Prod.fst = items.map name) {k : String} {v : β}
    (h : (k, v) ∈ entries) : ∃ x ∈ items, name x = k := by
  have hk : k ∈ items.map name := by
    rw [← hkeys]
    exact List.mem_map_of_mem (f := Prod.fst) h
  exact List.mem_map.1 hk

theorem forall₂_of_keys (hkeys : entries.map Prod.fst = items.map name)
    (h : ∀ x ∈ items, ∀ v, (name x, v) ∈ entries → R x v) :
    List.Forall₂ (fun x entry => entry.1 = name x ∧ R x entry.2) items entries := by
  induction items generalizing entries with
  | nil =>
    rw [List.map_nil, List.map_eq_nil_iff] at hkeys
    rw [hkeys]
    exact .nil
  | cons x rest ih =>
    match entries with
    | (k, v) :: others =>
      obtain ⟨rfl, hrest⟩ := List.cons.inj hkeys
      refine .cons ⟨rfl, h x List.mem_cons_self v List.mem_cons_self⟩ (ih hrest fun y hy w hw => ?_)
      exact h y (List.mem_cons_of_mem _ hy) w (List.mem_cons_of_mem _ hw)

/-- Items of distinct names are related to the values listed under their names in
the same order if each of them is related to every value under its name. -/
theorem forall₂_iff_keys (hnodup : (items.map name).Nodup) :
    List.Forall₂ (fun x entry => entry.1 = name x ∧ R x entry.2) items entries ↔
      entries.map Prod.fst = items.map name ∧
        ∀ x ∈ items, ∀ v, (name x, v) ∈ entries → R x v := by
  refine ⟨fun h => ⟨keys_of_forall₂ h, fun x hx v hv => ?_⟩, fun h => forall₂_of_keys h.1 h.2⟩
  obtain ⟨i, hi, hget⟩ := List.mem_iff_getElem.1 hv
  have hlength := h.length_eq
  have hzip : (items[i], (name x, v)) ∈ items.zip entries := by
    refine List.mem_iff_getElem.2 ⟨i, by simp; omega, ?_⟩
    rw [List.getElem_zip, hget]
  obtain ⟨hname, hrelated⟩ := List.forall₂_zip h hzip
  rw [eq_of_name_eq hnodup hx (List.getElem_mem _) hname]
  exact hrelated

end VectorIndex
