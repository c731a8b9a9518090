import Mathlib.Tactic.Common

/-!
# Outcomes in sequence

A computation that may stop early, by a trap or by an error, continues only with a result. These
lemmas take such sequences apart, and lists that are worked through from some position on.
-/

namespace AbiLayout

variable {ε α β : Type}

/-- What is left of a list from position `i` on starts with the element there. -/
theorem of_cons_eq_drop {all as : List α} {a : α} {i : Nat} (h : a :: as = all.drop i) :
    all[i]? = some a ∧ as = all.drop (i + 1) := by
  rw [← List.head?_drop, ← List.tail_drop, ← h]
  exact ⟨rfl, rfl⟩

/-- A sequence of computations that may trap has a result exactly when both have. -/
theorem except_bind_eq_ok_iff {x : Except ε α} {f : α → Except ε β} {b : β} :
    (x >>= f) = .ok b ↔ ∃ a, x = .ok a ∧ f a = .ok b := by
  cases x with
  | error e => exact ⟨fun h => (nomatch h), fun ⟨a, h, _⟩ => (nomatch h)⟩
  | ok a => exact ⟨fun h => ⟨a, rfl, h⟩, fun ⟨_, h, hf⟩ => by cases h; exact hf⟩

/-- A check and what follows it have a result exactly when the check is passed and the rest has. -/
theorem except_unit_bind_eq_ok_iff {x : Except ε Unit} {f : Unit → Except ε β} {b : β} :
    (x >>= f) = .ok b ↔ x = .ok () ∧ f () = .ok b :=
  except_bind_eq_ok_iff.trans ⟨fun ⟨_, hx, h⟩ => ⟨hx, h⟩, fun ⟨hx, h⟩ => ⟨(), hx, h⟩⟩

/-- A sequence of computations that may stop early stops in its first part or in its second. -/
theorem except_bind_eq_error_iff {x : Except ε α} {f : α → Except ε β} {e : ε} :
    (x >>= f) = .error e ↔ x = .error e ∨ ∃ a, x = .ok a ∧ f a = .error e := by
  cases x with
  | error e' =>
    constructor
    · intro h
      cases h
      exact .inl rfl
    · rintro (h | ⟨_, h, -⟩)
      · cases h
        rfl
      · cases h
  | ok a =>
    constructor
    · exact fun h => .inr ⟨a, rfl, h⟩
    · rintro (h | ⟨_, h, hf⟩)
      · cases h
      · cases h
        exact hf

/-- Where a fold stops early, one of its steps does. -/
theorem foldlM_eq_error {f : β → α → Except ε β} {xs : List α} {b : β} {e : ε}
    (h : xs.foldlM f b = .error e) : ∃ x ∈ xs, ∃ b', f b' x = .error e := by
  induction xs generalizing b with
  | nil => cases h
  | cons x xs ih =>
    rcases except_bind_eq_error_iff.mp h with h | ⟨b', -, h⟩
    · exact ⟨x, List.mem_cons_self, b, h⟩
    · obtain ⟨y, hy, hstop⟩ := ih h
      exact ⟨y, List.mem_cons_of_mem x hy, hstop⟩

/-- A list of computations succeeds, if each one does. -/
theorem exists_mapM_eq_ok {f : α → Except ε β} {xs : List α} (h : ∀ x ∈ xs, ∃ y, f x = .ok y) :
    ∃ ys, xs.mapM f = .ok ys := by
  induction xs with
  | nil => exact ⟨[], rfl⟩
  | cons x xs ih =>
    obtain ⟨⟨y, hy⟩, htail⟩ := List.forall_mem_cons.mp h
    obtain ⟨ys, hys⟩ := ih htail
    exact ⟨y :: ys, by rw [List.mapM_cons, hy, hys]; rfl⟩

/-- Where a list of computations succeeds, each one does, and the results are theirs. -/
theorem mapM_eq_ok {f : α → Except ε β} {xs : List α} {ys : List β} (h : xs.mapM f = .ok ys) :
    (∀ x ∈ xs, ∃ y, f x = .ok y) ∧ ∀ y, y ∈ ys ↔ ∃ x ∈ xs, f x = .ok y := by
  induction xs generalizing ys with
  | nil =>
    cases h
    exact ⟨fun _ hx => (nomatch hx), fun y => by simp⟩
  | cons x xs ih =>
    rw [List.mapM_cons] at h
    obtain ⟨y₀, hy₀, h⟩ := except_bind_eq_ok_iff.mp h
    obtain ⟨ys₀, hys₀, h⟩ := except_bind_eq_ok_iff.mp h
    cases h
    obtain ⟨hall, hmem⟩ := ih hys₀
    refine ⟨List.forall_mem_cons.mpr ⟨⟨y₀, hy₀⟩, hall⟩, fun y => ?_⟩
    simp only [List.mem_cons, exists_eq_or_imp, hmem, hy₀, Except.ok.injEq]
    exact or_congr_left eq_comm

/-- What does not stop has a result. -/
theorem except_exists_ok {x : Except ε α} (h : ∀ e, x ≠ .error e) : ∃ a, x = .ok a := by
  cases x with
  | error e => exact absurd rfl (h e)
  | ok a => exact ⟨a, rfl⟩

theorem except_map_fst_eq_error_iff {x : Except ε (α × β)} {e : ε} :
    x.map Prod.fst = .error e ↔ x = .error e := by
  cases x <;> simp [Except.map]

theorem except_map_fst_eq_ok_iff {x : Except ε (α × β)} {a : α} :
    x.map Prod.fst = .ok a ↔ ∃ b, x = .ok (a, b) := by
  cases x <;> simp [Except.map, Prod.ext_iff]

@[simp] theorem except_ok_bind (a : α) (f : α → Except ε β) :
    ((.ok a : Except ε α) >>= f) = f a := rfl

@[simp] theorem except_pure (a : α) : (pure a : Except ε α) = .ok a := rfl

end AbiLayout
