import VectorIndex.Keyed

/-!
# The order of UTF-8 bytes

Strings are compared character by character. UTF-8 is made so that the bytes of
two strings, compared byte by byte, come in the same order.

* `encodeChar_append_lt`: the bytes of the smaller of two characters come first,
  whatever follows either of them.
* `utf8_lt_iff`: the same for strings.
-/

namespace VectorIndex.Text

/-- The UTF-8 bytes of a text. -/
def utf8 (s : String) : List UInt8 :=
  s.toUTF8.data.toList

/-- The bytes of a text are those of its characters in turn. -/
theorem utf8_eq_flatMap (s : String) : utf8 s = s.toList.flatMap String.utf8EncodeChar := by
  have h := String.toByteArray_ofList (l := s.toList)
  rw [String.ofList_toList] at h
  rw [utf8, String.toUTF8_eq_toByteArray, h, List.utf8Encode, List.data_toByteArray,
    List.toList_toArray]

/-! ## Characters -/

theorem byte_cons_lt_cons_iff {a b : Nat} (ha : a < 256) (hb : b < 256) {xs ys : List UInt8} :
    UInt8.ofNat a :: xs < UInt8.ofNat b :: ys ↔ a < b ∨ a = b ∧ xs < ys := by
  rw [List.cons_lt_cons_iff, UInt8.lt_iff_toNat_lt, ← UInt8.toNat_inj,
    UInt8.toNat_ofNat_of_lt' ha, UInt8.toNat_ofNat_of_lt' hb]

/-- The bytes of a smaller character come first, whatever follows. -/
theorem encodeChar_append_lt {c d : Char} (h : c < d) (xs ys : List UInt8) :
    String.utf8EncodeChar c ++ xs < String.utf8EncodeChar d ++ ys := by
  have hlt : c.val.toNat < d.val.toNat := h
  have hbound : d.val.toNat < 0x110000 := by
    rcases d.valid with h | h <;> omega
  have hdigits : ∀ n : Nat, n / 4096 = n / 64 / 64 ∧ n / 262144 = n / 64 / 64 / 64 := by
    intro n
    omega
  simp only [String.utf8EncodeChar, hdigits]
  generalize c.val.toNat = v at hlt
  generalize d.val.toNat = w at hlt hbound
  -- A longer code starts with a greater byte, and codes of one length are the
  -- digits of the character in base 64.
  repeat' split
  all_goals
    simp (disch := omega) only [List.cons_append, byte_cons_lt_cons_iff]
    omega

/-! ## Strings -/

theorem flatMap_encodeChar_lt {cs ds : List Char} (h : cs < ds) :
    cs.flatMap String.utf8EncodeChar < ds.flatMap String.utf8EncodeChar := by
  induction cs generalizing ds with
  | nil =>
    cases ds with
    | nil => exact absurd h (List.not_lt_nil [])
    | cons d ds =>
      rw [List.flatMap_nil, List.flatMap_cons]
      cases hd : String.utf8EncodeChar d with
      | nil => exact absurd hd String.utf8EncodeChar_ne_nil
      | cons b bs => exact List.nil_lt_cons b _
  | cons c cs ih =>
    cases ds with
    | nil => exact absurd h (List.not_lt_nil _)
    | cons d ds =>
      rw [List.flatMap_cons, List.flatMap_cons]
      rcases List.cons_lt_cons_iff.1 h with hlt | ⟨rfl, hrest⟩
      · exact encodeChar_append_lt hlt _ _
      · exact List.append_left_lt (ih hrest)

theorem utf8_lt_of_lt {s t : String} (h : s < t) : utf8 s < utf8 t := by
  rw [utf8_eq_flatMap, utf8_eq_flatMap]
  exact flatMap_encodeChar_lt h

/-- Strings and their bytes come in the same order. -/
theorem utf8_lt_iff {s t : String} : utf8 s < utf8 t ↔ s < t := by
  refine ⟨fun h => ?_, utf8_lt_of_lt⟩
  by_cases hlt : s < t
  · exact hlt
  · by_cases heq : s = t
    · subst heq
      exact absurd h (List.lt_irrefl (utf8 s))
    · have hback := utf8_lt_of_lt (Keyed.lt_of_not_lt_of_ne hlt heq)
      exact absurd hback (List.lt_asymm h)

end VectorIndex.Text
