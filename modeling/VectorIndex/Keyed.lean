/-!
# Lists sorted by key

Key-value lists in ascending order of their keys, without repetition. Keys
are compared character by character, which is also the order of their UTF-8
bytes. Looking a key up is `List.lookup`.

* `insert` writes one key and keeps the order.
* `ofList` writes the pairs of a list in turn, so the last write of a key
  stands.
* `Ordered` is the invariant. It is kept by `insert` (`ordered_insert`), and
  `lookup_insert` says what a write does to every look-up.
-/

namespace VectorIndex.Keyed

variable {α : Type}

/-- Writes `k` with value `v`, replacing the value it had. -/
def insert (k : String) (v : α) : List (String × α) → List (String × α)
  | [] => [(k, v)]
  | (l, w) :: rest =>
    if k < l then (k, v) :: (l, w) :: rest
    else if k = l then (k, v) :: rest
    else (l, w) :: insert k v rest

/-- The keys of `pairs` in order, each with the last value `pairs` gives it. -/
def ofList (pairs : List (String × α)) : List (String × α) :=
  pairs.foldl (fun m pair => insert pair.1 pair.2 m) []

/-- Keys ascend, so none occurs twice. -/
def Ordered (pairs : List (String × α)) : Prop :=
  (pairs.map Prod.fst).Pairwise (· < ·)

/-! ## Looking up -/

theorem lookup_cons (l k : String) (v : α) (rest : List (String × α)) :
    ((k, v) :: rest).lookup l = if l = k then some v else rest.lookup l := by
  by_cases h : l = k
  · simp [h]
  · rw [List.lookup_cons, beq_false_of_ne h, if_neg h]

/-- A write is seen at its key and nowhere else. -/
@[simp] theorem lookup_insert (l k : String) (v : α) (m : List (String × α)) :
    (insert k v m).lookup l = if l = k then some v else m.lookup l := by
  induction m with
  | nil => simp [insert, lookup_cons]
  | cons pair rest ih =>
    obtain ⟨j, w⟩ := pair
    unfold insert
    split
    · rw [lookup_cons]
    · split
      · next h => subst h; grind [lookup_cons]
      · rw [lookup_cons, ih, lookup_cons]; grind

/-! ## The order of keys -/

theorem lt_of_not_lt_of_ne {k l : String} (h : ¬k < l) (hne : k ≠ l) : l < k :=
  Classical.byContradiction fun h' =>
    hne (String.le_antisymm (String.not_lt.1 h') (String.not_lt.1 h))

theorem mem_keys_insert {l k : String} {v : α} {m : List (String × α)} :
    l ∈ (insert k v m).map Prod.fst ↔ l = k ∨ l ∈ m.map Prod.fst := by
  induction m with
  | nil => simp [insert]
  | cons pair rest ih =>
    unfold insert
    grind

theorem ordered_insert {k : String} {v : α} {m : List (String × α)} (h : Ordered m) :
    Ordered (insert k v m) := by
  unfold Ordered at *
  induction m with
  | nil => simp [insert]
  | cons pair rest ih =>
    obtain ⟨j, w⟩ := pair
    rw [List.map_cons, List.pairwise_cons] at h
    unfold insert
    split
    · next hlt =>
      refine List.pairwise_cons.2 ⟨fun x hx => ?_, List.pairwise_cons.2 h⟩
      rcases List.mem_cons.1 hx with rfl | hx
      · exact hlt
      · exact String.lt_trans hlt (h.1 x hx)
    · split
      · next heq => subst heq; exact List.pairwise_cons.2 h
      · next hlt hne =>
        refine List.pairwise_cons.2 ⟨fun x hx => ?_, ih h.2⟩
        rcases mem_keys_insert.1 hx with rfl | hx
        · exact lt_of_not_lt_of_ne hlt hne
        · exact h.1 x hx

theorem ordered_ofList (pairs : List (String × α)) : Ordered (ofList pairs) := by
  suffices h : ∀ m, Ordered m →
      Ordered (pairs.foldl (fun m pair => insert pair.1 pair.2 m) m) from h [] .nil
  induction pairs with
  | nil => exact fun _ h => h
  | cons pair rest ih => exact fun m h => ih _ (ordered_insert h)

end VectorIndex.Keyed
