/-!
# Steps that may fail

When a composition of steps succeeds or fails, and with what; when two steps that
may fail have related outcomes (`Alike`).
-/

namespace VectorIndex

/-- A step and then another succeed if each of them does. -/
theorem bind_eq_ok_iff {ε α β : Type} {x : Except ε α} {f : α → Except ε β} {b : β} :
    x >>= f = .ok b ↔ ∃ a, x = .ok a ∧ f a = .ok b := by
  cases x with
  | error e => simp [bind, Except.bind]
  | ok a => simp [bind, Except.bind]

/-- A step and then another fail if the first fails, or the second after it. -/
theorem bind_eq_error_iff {ε α β : Type} {x : Except ε α} {f : α → Except ε β} {e : ε} :
    x >>= f = .error e ↔ x = .error e ∨ ∃ a, x = .ok a ∧ f a = .error e := by
  cases x with
  | error e => simp [bind, Except.bind]
  | ok a => simp [bind, Except.bind]

/-- A step whose result is mapped succeeds if the step does. -/
theorem map_eq_ok_iff {ε α β : Type} {x : Except ε α} {f : α → β} {b : β} :
    x.map f = .ok b ↔ ∃ a, x = .ok a ∧ f a = b := by
  cases x with
  | error e => simp [Except.map]
  | ok a => simp [Except.map]

/-- A step whose result is mapped fails if the step does. -/
theorem map_eq_error_iff {ε α β : Type} {x : Except ε α} {f : α → β} {e : ε} :
    x.map f = .error e ↔ x = .error e := by
  cases x with
  | error e => simp [Except.map]
  | ok a => simp [Except.map]

/-- A step whose error is mapped succeeds if the step does. -/
theorem mapError_eq_ok_iff {ε δ α : Type} {x : Except ε α} {f : ε → δ} {a : α} :
    x.mapError f = .ok a ↔ x = .ok a := by
  constructor
  · intro h
    cases x with
    | error e => cases h
    | ok b => cases h; rfl
  · intro h
    cases h
    rfl

/-- A step whose error is mapped fails if the step does. -/
theorem mapError_eq_error_iff {ε δ α : Type} {x : Except ε α} {f : ε → δ} {d : δ} :
    x.mapError f = .error d ↔ ∃ e, x = .error e ∧ f e = d := by
  constructor
  · intro h
    cases x with
    | error e => cases h; exact ⟨e, rfl, rfl⟩
    | ok a => cases h
  · intro h
    obtain ⟨e, rfl, rfl⟩ := h
    rfl

/-- A step that does not succeed fails. -/
theorem exists_error_of_ne_ok {ε α : Type} {x : Except ε α} (h : ∀ a, x ≠ .ok a) :
    ∃ e, x = .error e := by
  cases x with
  | error e => exact ⟨e, rfl⟩
  | ok a => exact absurd rfl (h a)

/-! ## Two outcomes -/

/-- Both outcomes are errors, or both are results and these are related. -/
def Alike {ε δ α β : Type} (R : α → β → Prop) (x : Except ε α) (y : Except δ β) : Prop :=
  ((∃ a, x = .ok a) ↔ ∃ b, y = .ok b) ∧ ∀ a b, x = .ok a → y = .ok b → R a b

section

variable {ε δ α β : Type} {R : α → β → Prop}

theorem alike_ok {a : α} {b : β} (h : R a b) :
    Alike R (.ok a : Except ε α) (.ok b : Except δ β) := by
  refine ⟨by simp, fun _ _ ha hb => ?_⟩
  cases ha
  cases hb
  exact h

theorem alike_error (e : ε) (d : δ) : Alike R (.error e) (.error d) :=
  ⟨by simp, nofun⟩

theorem Alike.map {γ κ : Type} {S : γ → κ → Prop} {x : Except ε α} {y : Except δ β}
    (h : Alike R x y) {f : α → γ} {g : β → κ} (hS : ∀ a b, R a b → S (f a) (g b)) :
    Alike S (x.map f) (y.map g) := by
  cases x with
  | error e =>
    cases y with
    | error d => exact alike_error e d
    | ok b =>
      obtain ⟨a, ha⟩ := h.1.2 ⟨b, rfl⟩
      exact nomatch ha
  | ok a =>
    cases y with
    | error d =>
      obtain ⟨b, hb⟩ := h.1.1 ⟨a, rfl⟩
      exact nomatch hb
    | ok b => exact alike_ok (hS a b (h.2 a b rfl rfl))

end

/-! ## Traversals -/

/-- What a successful traversal returns comes from the members it traversed. -/
theorem exists_of_mem_mapM {ε α β : Type} {f : α → Except ε β} {xs : List α} {ys : List β}
    (h : xs.mapM f = .ok ys) {y : β} (hy : y ∈ ys) : ∃ x ∈ xs, f x = .ok y := by
  induction xs generalizing ys with
  | nil =>
    rw [List.mapM_nil] at h
    cases h
    exact absurd hy List.not_mem_nil
  | cons x xs ih =>
    rw [List.mapM_cons, bind_eq_ok_iff] at h
    obtain ⟨z, hz, h⟩ := h
    obtain ⟨zs, hzs, h⟩ := bind_eq_ok_iff.1 h
    cases h
    rcases List.mem_cons.1 hy with rfl | hy
    · exact ⟨x, List.mem_cons_self, hz⟩
    · obtain ⟨w, hw, hfw⟩ := ih hzs hy
      exact ⟨w, List.mem_cons_of_mem _ hw, hfw⟩

end VectorIndex
