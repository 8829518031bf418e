import Mathlib.Data.List.Nodup
import VectorIndex.Proofs.Lookup

/-!
# Writing a list of pairs

A list sorted by key is known by what it has at every key
(`Keyed.eq_of_lookup_eq`), and writing pairs in turn leaves at every key the
last value written to it (`Keyed.lookup_ofList`). Together they say what
`Keyed.ofList` is, without its steps (`Keyed.eq_ofList_iff`). Where no key is
repeated, values may be left out before or after writing
(`Keyed.ofList_filterMap`).
-/

namespace VectorIndex

variable {α β : Type}

/-- Among distinct keys a search finds the value that stands at the key. -/
theorem lookup_eq_some_iff_mem {k : String} {v : α} {entries : List (String × α)}
    (hnodup : (entries.map Prod.fst).Nodup) : entries.lookup k = some v ↔ (k, v) ∈ entries := by
  refine ⟨mem_of_lookup, fun h => ?_⟩
  obtain ⟨w, hw⟩ := exists_lookup_iff_mem_keys.2 (List.mem_map_of_mem (f := Prod.fst) h)
  have hsame := eq_of_name_eq hnodup (mem_of_lookup hw) h rfl
  rw [hw, Option.some.injEq]
  exact (Prod.mk.inj hsame).2

theorem lookup_eq_none_iff_not_mem_keys {k : String} {entries : List (String × α)} :
    entries.lookup k = none ↔ k ∉ entries.map Prod.fst := by
  rw [← exists_lookup_iff_mem_keys]
  cases entries.lookup k <;> simp

/-- Among distinct keys the order does not matter to a search. -/
theorem lookup_eq_of_perm {xs ys : List (String × α)} (h : xs.Perm ys)
    (hnodup : (xs.map Prod.fst).Nodup) (k : String) : xs.lookup k = ys.lookup k := by
  have hnodup' : (ys.map Prod.fst).Nodup := (h.map Prod.fst).nodup_iff.1 hnodup
  apply Option.ext
  intro v
  rw [lookup_eq_some_iff_mem hnodup, lookup_eq_some_iff_mem hnodup', h.mem_iff]

/-- What is made of the values under the same distinct keys is the same up to the
order, if it is at every key. -/
theorem map_snd_perm_of_keys_perm (f : String → α → β) {xs ys : List (String × α)}
    (hnodup : (xs.map Prod.fst).Nodup) (hkeys : (xs.map Prod.fst).Perm (ys.map Prod.fst))
    (h : ∀ k v w, (k, v) ∈ xs → (k, w) ∈ ys → f k v = f k w) :
    (xs.map fun entry => (entry.1, f entry.1 entry.2)).Perm
      (ys.map fun entry => (entry.1, f entry.1 entry.2)) := by
  have hkeysOf : ∀ entries : List (String × α),
      (entries.map fun entry => (entry.1, f entry.1 entry.2)).map Prod.fst =
        entries.map Prod.fst := by
    intro entries
    simp [List.map_map, Function.comp_def]
  have hxs : ((xs.map fun entry => (entry.1, f entry.1 entry.2)).map Prod.fst).Nodup := by
    rwa [hkeysOf]
  have hys : ((ys.map fun entry => (entry.1, f entry.1 entry.2)).map Prod.fst).Nodup := by
    rwa [hkeysOf, ← hkeys.nodup_iff]
  refine (List.perm_ext_iff_of_nodup hxs.of_map hys.of_map).2 fun result => ?_
  simp only [List.mem_map]
  constructor
  · intro hresult
    obtain ⟨⟨k, v⟩, hv, rfl⟩ := hresult
    have hk := hkeys.mem_iff.1 (List.mem_map_of_mem (f := Prod.fst) hv)
    obtain ⟨⟨l, w⟩, hw, rfl⟩ := List.mem_map.1 hk
    exact ⟨(l, w), hw, by rw [h l v w hv hw]⟩
  · intro hresult
    obtain ⟨⟨k, w⟩, hw, rfl⟩ := hresult
    have hk := hkeys.mem_iff.2 (List.mem_map_of_mem (f := Prod.fst) hw)
    obtain ⟨⟨l, v⟩, hv, rfl⟩ := List.mem_map.1 hk
    exact ⟨(l, v), hv, by rw [h l v w hv hw]⟩

/-- What stands at a key when some of the values are left out. The keys are
distinct, so no second value of a key comes to light. -/
theorem lookup_filterMap_snd (f : String → α → Option β) (k : String)
    {entries : List (String × α)} (hnodup : (entries.map Prod.fst).Nodup) :
    (entries.filterMap fun entry => (f entry.1 entry.2).map (entry.1, ·)).lookup k =
      (entries.lookup k).bind (f k) := by
  induction entries with
  | nil => rfl
  | cons entry rest ih =>
    obtain ⟨l, v⟩ := entry
    rw [List.map_cons, List.nodup_cons] at hnodup
    rw [List.filterMap_cons, Keyed.lookup_cons]
    by_cases hkey : k = l
    · subst hkey
      have hrest : rest.lookup k = none := lookup_eq_none_iff_not_mem_keys.2 hnodup.1
      rw [if_pos rfl, Option.bind_some]
      cases hf : f k v with
      | none => simp only [Option.map_none, ih hnodup.2, hrest, Option.bind_none]
      | some w => simp only [Option.map_some, Keyed.lookup_cons, if_pos]
    · rw [if_neg hkey]
      cases hf : f l v with
      | none => simp only [Option.map_none, ih hnodup.2]
      | some w => simp only [Option.map_some, Keyed.lookup_cons, if_neg hkey, ih hnodup.2]

/-- Leaving values out leaves their keys out and keeps the order of the others. -/
theorem keys_filterMap_sublist (f : String → α → Option β) (entries : List (String × α)) :
    ((entries.filterMap fun entry => (f entry.1 entry.2).map (entry.1, ·)).map Prod.fst).Sublist
      (entries.map Prod.fst) := by
  induction entries with
  | nil => exact .slnil
  | cons entry rest ih =>
    rw [List.filterMap_cons]
    cases f entry.1 entry.2 with
    | none => exact .cons _ ih
    | some w => exact .cons_cons _ ih

namespace Keyed

theorem Ordered.nodup {m : List (String × α)} (h : Ordered m) : (m.map Prod.fst).Nodup := by
  refine List.Pairwise.imp ?_ h
  intro k l hlt heq
  exact String.lt_irrefl k (heq ▸ hlt)

/-- Sorted lists with the same value at every key are equal. -/
theorem eq_of_lookup_eq {xs ys : List (String × α)} (hxs : Ordered xs) (hys : Ordered ys)
    (h : ∀ k, xs.lookup k = ys.lookup k) : xs = ys := by
  have hmem : ∀ k, k ∈ xs.map Prod.fst ↔ k ∈ ys.map Prod.fst := by
    intro k
    rw [← exists_lookup_iff_mem_keys, ← exists_lookup_iff_mem_keys, h k]
  have hkeys : xs.map Prod.fst = ys.map Prod.fst :=
    ((List.perm_ext_iff_of_nodup hxs.nodup hys.nodup).2 hmem).eq_of_pairwise
      (fun _ _ _ _ hlt hgt => absurd hgt (String.lt_asymm hlt)) hxs hys
  refine eq_of_keys_eq hxs.nodup hkeys fun k v w hv hw => ?_
  have hk := h k
  rw [(lookup_eq_some_iff_mem hxs.nodup).2 hv, (lookup_eq_some_iff_mem hys.nodup).2 hw] at hk
  exact Option.some.inj hk

/-- Writing pairs in turn, each key has the last value written to it, or the
value it had before. -/
theorem lookup_foldl_insert (k : String) (pairs m : List (String × α)) :
    (pairs.foldl (fun m pair => insert pair.1 pair.2 m) m).lookup k =
      (pairs.reverse.lookup k).or (m.lookup k) := by
  induction pairs generalizing m with
  | nil => rfl
  | cons pair rest ih =>
    rw [List.foldl_cons, ih, List.reverse_cons, List.lookup_append, Option.or_assoc,
      lookup_insert, lookup_cons]
    by_cases h : k = pair.1 <;> simp [h]

/-- Each key has the last value that the pairs give it. -/
theorem lookup_ofList (k : String) (pairs : List (String × α)) :
    (ofList pairs).lookup k = pairs.reverse.lookup k := by
  rw [ofList, lookup_foldl_insert, List.lookup_nil, Option.or_none]

/-- The written list is the one sorted list with the last value of every key. -/
theorem eq_ofList_iff {m pairs : List (String × α)} :
    m = ofList pairs ↔ Ordered m ∧ ∀ k, m.lookup k = pairs.reverse.lookup k := by
  constructor
  · intro h
    subst h
    exact ⟨ordered_ofList pairs, fun k => lookup_ofList k pairs⟩
  · intro h
    obtain ⟨hordered, hlookup⟩ := h
    exact eq_of_lookup_eq hordered (ordered_ofList pairs) fun k => by
      rw [hlookup k, lookup_ofList]

/-- In particular it may be searched from the end. -/
theorem lookup_reverse {pairs : List (String × α)} (hnodup : (pairs.map Prod.fst).Nodup)
    (k : String) : pairs.reverse.lookup k = pairs.lookup k :=
  (lookup_eq_of_perm (List.reverse_perm pairs).symm hnodup k).symm

/-- Pairs of distinct keys may be written in any order. -/
theorem ofList_eq_of_perm {xs ys : List (String × α)} (h : xs.Perm ys)
    (hnodup : (xs.map Prod.fst).Nodup) : ofList xs = ofList ys := by
  have hnodup' : (ys.map Prod.fst).Nodup := (h.map Prod.fst).nodup_iff.1 hnodup
  refine eq_of_lookup_eq (ordered_ofList xs) (ordered_ofList ys) fun k => ?_
  rw [lookup_ofList, lookup_ofList, lookup_reverse hnodup, lookup_reverse hnodup',
    lookup_eq_of_perm h hnodup]

theorem mem_of_mem_ofList {entry : String × α} {pairs : List (String × α)}
    (h : entry ∈ ofList pairs) : entry ∈ pairs := by
  have hlookup := (lookup_eq_some_iff_mem (ordered_ofList pairs).nodup).2 h
  rw [lookup_ofList] at hlookup
  exact List.mem_reverse.1 (mem_of_lookup hlookup)

/-- Values of distinct keys may be left out before or after they are written. -/
theorem ofList_filterMap (f : String → α → Option β) {pairs : List (String × α)}
    (hnodup : (pairs.map Prod.fst).Nodup) :
    (ofList pairs).filterMap (fun entry => (f entry.1 entry.2).map (entry.1, ·)) =
      ofList (pairs.filterMap fun entry => (f entry.1 entry.2).map (entry.1, ·)) := by
  rw [eq_ofList_iff]
  refine ⟨List.Pairwise.sublist (keys_filterMap_sublist f _) (ordered_ofList pairs), fun k => ?_⟩
  rw [lookup_filterMap_snd f k (ordered_ofList pairs).nodup, lookup_ofList, lookup_reverse hnodup,
    lookup_reverse (List.Nodup.sublist (keys_filterMap_sublist f pairs) hnodup),
    lookup_filterMap_snd f k hnodup]

/-- A sorted list is what writing its pairs gives. -/
theorem Ordered.ofList_eq {m : List (String × α)} (h : Ordered m) : ofList m = m :=
  (eq_ofList_iff.2 ⟨h, fun k => (lookup_reverse h.nodup k).symm⟩).symm

end Keyed

end VectorIndex
