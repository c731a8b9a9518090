import AbiLayout.Layout.Record
import AbiLayout.Proofs.Outcome

/-!
# The value of a layout program

A session runs layout programs against a memory. This file gives the same programs a meaning without
one: `LayoutM.value answer p` is the result of `p` when every question is answered by `answer` and
reports are passed over. Answering the questions of a record's program by the values of the programs
of other records, to a bounded depth, gives the *answer* of the record
(`LayoutContext.answerWithin`), which depends on the schema and the profile alone.

## Main definitions

* `LayoutM.value`, `LayoutT.value`: the value of a program.
* `LayoutContext.answerWithin`, `LayoutContext.HasAnswer`: the answer of a record.

## Main results

* `LayoutM.value_bind`, `LayoutT.value_bind_eq_ok_iff`: values of programs in sequence.
* `LayoutM.value_mono`: a value is kept when more questions have answers.
* `LayoutContext.answerWithin_mono`, `LayoutContext.HasAnswer.unique`: the depth does not matter.
-/

namespace AbiLayout

variable {α β : Type}

/-! ### Programs -/

namespace LayoutM

/-- The result of a program whose questions are answered by `answer`. -/
def value (answer : RecordId → Except Trap Answer) : LayoutM α → Except Trap α
  | done a => .ok a
  | trap t => .error t
  | ask r next =>
    match answer r with
    | .error t => .error t
    | .ok a => (next a).value answer
  | report _ next => next.value answer

variable (answer : RecordId → Except Trap Answer)

@[simp] theorem value_pure (a : α) : (pure a : LayoutM α).value answer = .ok a := rfl

@[simp] theorem value_trap (t : Trap) : (trap t : LayoutM α).value answer = .error t := rfl

@[simp] theorem value_notify (d : Diagnostic) : (notify d).value answer = .ok () := rfl

@[simp] theorem value_request (r : RecordId) : (request r).value answer = answer r := by
  rw [request, value]
  cases answer r <;> rfl

@[simp] theorem value_ofExcept : (x : Except Trap α) → (ofExcept x).value answer = x
  | .ok _ => rfl
  | .error _ => rfl

@[simp] theorem value_liftM (x : Except Trap α) : (liftM x : LayoutM α).value answer = x :=
  value_ofExcept answer x

/-- A program in sequence has the values in sequence. -/
@[simp] theorem value_bind (f : α → LayoutM β) :
    (p : LayoutM α) → (p >>= f).value answer = p.value answer >>= fun a => (f a).value answer
  | done _ => rfl
  | trap _ => rfl
  | ask r next => by
    change (ask r fun a => next a >>= f).value answer = _
    simp only [value]
    cases answer r with
    | error t => rfl
    | ok a => exact value_bind f (next a)
  | report _ next => value_bind f next

@[simp] theorem value_map (f : α → β) (p : LayoutM α) :
    (f <$> p).value answer = p.value answer >>= fun a => .ok (f a) := by
  rw [map_eq_pure_bind, value_bind]
  rfl

/-- A value is kept when more questions have answers. -/
theorem value_mono {answer answer' : RecordId → Except Trap Answer}
    (h : ∀ r a, answer r = .ok a → answer' r = .ok a) {x : α} :
    (p : LayoutM α) → p.value answer = .ok x → p.value answer' = .ok x
  | done _, hp => hp
  | trap _, hp => hp
  | ask r next, hp => by
    rw [value] at hp ⊢
    cases ha : answer r with
    | error t =>
      rw [ha] at hp
      cases hp
    | ok a =>
      rw [ha] at hp
      rw [h r a ha]
      exact value_mono h (next a) hp
  | report _ next, hp => value_mono h next hp

end LayoutM

/-! ### Programs with layout errors -/

namespace LayoutT

/-- The result of a program that may end in a layout error. -/
def value (answer : RecordId → Except Trap Answer) (p : LayoutT α) :
    Except Trap (Except LayoutError α) :=
  LayoutM.value answer p.run

variable (answer : RecordId → Except Trap Answer)

@[simp] theorem value_pure (a : α) : value answer (pure a) = .ok (.ok a) := rfl

@[simp] theorem value_throw (e : LayoutError) :
    value answer (throw e : LayoutT α) = .ok (.error e) := rfl

@[simp] theorem value_trap (t : Trap) : value answer (trap t : LayoutT α) = .error t := rfl

@[simp] theorem value_layoutOf (r : RecordId) : value answer (layoutOf r) = answer r :=
  LayoutM.value_request answer r

theorem value_bind (p : LayoutT α) (f : α → LayoutT β) :
    value answer (p >>= f) = value answer p >>= fun
      | .ok a => value answer (f a)
      | .error e => .ok (.error e) := by
  rw [value, ExceptT.run_bind, LayoutM.value_bind]
  congr 1
  funext out
  cases out <;> rfl

@[simp] theorem value_liftM (x : Except Trap α) :
    value answer (liftM x : LayoutT α) = x >>= fun a => .ok (.ok a) := by
  cases x <;> rfl

@[simp] theorem value_lift (p : LayoutM α) :
    value answer (ExceptT.lift p) = p.value answer >>= fun a => .ok (.ok a) := by
  rw [value, ExceptT.run_lift, map_eq_pure_bind, LayoutM.value_bind]
  rfl

theorem value_tryCatch (p : LayoutT α) (handle : LayoutError → LayoutT α) :
    value answer (tryCatch p handle) = value answer p >>= fun
      | .ok a => .ok (.ok a)
      | .error e => value answer (handle e) := by
  change LayoutM.value answer (p.run >>= _) = _
  rw [LayoutM.value_bind]
  congr 1
  funext out
  cases out <;> rfl

@[simp] theorem value_map (f : α → β) (p : LayoutT α) :
    value answer (f <$> p) = value answer p >>= fun out => .ok (out.map f) := by
  rw [map_eq_pure_bind, value_bind]
  congr 1
  funext out
  cases out <;> rfl

/-- A program in sequence succeeds exactly when both parts do. -/
theorem value_bind_eq_ok_iff {p : LayoutT α} {f : α → LayoutT β} {b : β} :
    value answer (p >>= f) = .ok (.ok b) ↔
      ∃ a, value answer p = .ok (.ok a) ∧ value answer (f a) = .ok (.ok b) := by
  rw [value_bind, except_bind_eq_ok_iff]
  constructor
  · rintro ⟨out, hp, hf⟩
    cases out with
    | error e => cases hf
    | ok a => exact ⟨a, hp, hf⟩
  · rintro ⟨a, hp, hf⟩
    exact ⟨.ok a, hp, hf⟩

/-- A computation that may trap succeeds as a program with the result it has. -/
theorem value_liftM_eq_ok_iff {x : Except Trap α} {a : α} :
    value answer (liftM x : LayoutT α) = .ok (.ok a) ↔ x = .ok a := by
  cases x with
  | error t => exact ⟨fun h => (nomatch h), fun h => (nomatch h)⟩
  | ok b => exact ⟨fun h => by cases h; rfl, fun h => by cases h; rfl⟩

theorem value_mono {answer answer' : RecordId → Except Trap Answer}
    (h : ∀ r a, answer r = .ok a → answer' r = .ok a) {p : LayoutT α} {x : Except LayoutError α}
    (hp : value answer p = .ok x) : value answer' p = .ok x :=
  LayoutM.value_mono h p.run hp

end LayoutT

/-! ### The answer of a record -/

namespace LayoutContext

/-- The answer of a record, with records nested at most `depth` deep. -/
def answerWithin (c : LayoutContext) : (depth : Nat) → RecordId → Except Trap Answer
  | 0, _ => .error .bottomless
  | depth + 1, r => (c.recordLayout r).value (c.answerWithin depth)

/-- `a` is the answer of the record `r`: its layout, or why it has none. -/
def HasAnswer (c : LayoutContext) (r : RecordId) (a : Answer) : Prop :=
  ∃ depth, c.answerWithin depth r = .ok a

variable {c : LayoutContext} {r : RecordId} {a b : Answer}

theorem answerWithin_succ_of_eq_ok :
    (depth : Nat) → {r : RecordId} → {a : Answer} → c.answerWithin depth r = .ok a →
      c.answerWithin (depth + 1) r = .ok a
  | 0, _, _, h => nomatch h
  | depth + 1, r, _, h =>
    LayoutM.value_mono (fun _ _ => answerWithin_succ_of_eq_ok depth) (c.recordLayout r) h

/-- An answer found at some depth is found at every larger depth. -/
theorem answerWithin_mono {depth depth' : Nat} (hle : depth ≤ depth')
    (h : c.answerWithin depth r = .ok a) : c.answerWithin depth' r = .ok a := by
  induction hle with
  | refl => exact h
  | step _ ih => exact answerWithin_succ_of_eq_ok _ ih

/-- A record has at most one answer. -/
theorem HasAnswer.unique (ha : c.HasAnswer r a) (hb : c.HasAnswer r b) : a = b := by
  obtain ⟨i, hi⟩ := ha
  obtain ⟨j, hj⟩ := hb
  have hi' := answerWithin_mono (Nat.le_max_left i j) hi
  have hj' := answerWithin_mono (Nat.le_max_right i j) hj
  rw [hi'] at hj'
  cases hj'
  rfl

end LayoutContext

end AbiLayout
