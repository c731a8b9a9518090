import AbiLayout.Diagnostic
import AbiLayout.Layout.Basic
import AbiLayout.Layout.Error
import AbiLayout.Schema.Basic

/-!
# Layout programs

To lay out a record is to follow rules that now and then need the layout of another record, and that
report diagnostics on the way. A layout program writes this down without saying where the layouts of
other records come from: it is a tree whose nodes ask for a record, report a diagnostic, or end. A
session runs the same program against its memory; a theory of layouts may run it against any other
way of answering.

## Main definitions

* `Answer`: the layout of a record, or why there is none.
* `LayoutM α`: a program with a result of type `α`, with its monad structure.
* `LayoutT α`: a program whose result may be a layout error.
* `LayoutM.run`: the meaning of a program, for a given meaning of its questions and reports.
* `LayoutContext`: the schema and the profile that programs read; `LayoutContext.maxDepth` bounds
  how deep its records nest.

## Main results

* `LayoutM` is a lawful monad.
* `LayoutM.run_bind`: a program in sequence runs in sequence.
-/

namespace AbiLayout

/-- What is known of a record once it is asked for: its layout, or why there is none. -/
abbrev Answer := Except LayoutError RecordLayout

/-- A program that may ask for records, report diagnostics, and trap. -/
inductive LayoutM (α : Type) where
  | done (a : α)
  | trap (t : Trap)
  | ask (r : RecordId) (next : Answer → LayoutM α)
  | report (d : Diagnostic) (next : LayoutM α)

namespace LayoutM

variable {α β γ : Type}

/-- The program `p`, followed by `f` on its result. -/
def bind : LayoutM α → (α → LayoutM β) → LayoutM β
  | done a, f => f a
  | trap t, _ => trap t
  | ask r next, f => ask r fun a => (next a).bind f
  | report d next, f => report d (next.bind f)

instance : Monad LayoutM where
  pure := done
  bind := bind

theorem bind_done : (p : LayoutM α) → p.bind done = p
  | done _ => rfl
  | trap _ => rfl
  | ask r next => congrArg (ask r) (funext fun a => bind_done (next a))
  | report d next => congrArg (report d) (bind_done next)

theorem bind_assoc (f : α → LayoutM β) (g : β → LayoutM γ) :
    (p : LayoutM α) → (p.bind f).bind g = p.bind fun a => (f a).bind g
  | done _ => rfl
  | trap _ => rfl
  | ask r next => congrArg (ask r) (funext fun a => bind_assoc f g (next a))
  | report d next => congrArg (report d) (bind_assoc f g next)

instance : LawfulMonad LayoutM := LawfulMonad.mk'
  LayoutM
  (fun p => bind_done p)
  (fun _ _ => rfl)
  (fun p f g => bind_assoc f g p)

/-- A computation that may trap, as a program. -/
def ofExcept : Except Trap α → LayoutM α
  | .ok a => done a
  | .error t => trap t

instance : MonadLift (Except Trap) LayoutM := ⟨ofExcept⟩

/-- The program that asks for a record. -/
def request (r : RecordId) : LayoutM Answer := ask r done

/-- The program that reports a diagnostic. -/
def notify (d : Diagnostic) : LayoutM Unit := report d (done ())

/-- The meaning of a program over states `σ`, where `answer` says what a question returns and
`record` what a report does. -/
def run {σ : Type} (answer : RecordId → σ → Except Trap (Answer × σ))
    (record : Diagnostic → σ → σ) : LayoutM α → σ → Except Trap (α × σ)
  | done a, s => .ok (a, s)
  | trap t, _ => .error t
  | ask r next, s =>
    match answer r s with
    | .error t => .error t
    | .ok (a, s) => (next a).run answer record s
  | report d next, s => next.run answer record (record d s)

/-- A question is answered, and the rest runs on the answer. -/
theorem run_ask {σ : Type} (answer : RecordId → σ → Except Trap (Answer × σ))
    (record : Diagnostic → σ → σ) (r : RecordId) (next : Answer → LayoutM α) (s : σ) :
    (ask r next).run answer record s = answer r s >>= fun out =>
      (next out.1).run answer record out.2 := by
  rw [run]
  cases answer r s <;> rfl

/-- A program in sequence runs in sequence. -/
theorem run_bind {σ : Type} (answer : RecordId → σ → Except Trap (Answer × σ))
    (record : Diagnostic → σ → σ) (f : α → LayoutM β) :
    (p : LayoutM α) → (s : σ) → (p >>= f).run answer record s =
      match p.run answer record s with
      | .error t => .error t
      | .ok (a, s) => (f a).run answer record s
  | done _, _ => rfl
  | trap _, _ => rfl
  | ask r next, s => by
    change (ask r fun a => next a >>= f).run answer record s = _
    simp only [run]
    cases answer r s with
    | error t => rfl
    | ok as => exact run_bind answer record f (next as.1) as.2
  | report d next, s => run_bind answer record f next (record d s)

end LayoutM

/-- A layout program whose result may be a layout error. -/
abbrev LayoutT (α : Type) := ExceptT LayoutError LayoutM α

namespace LayoutT

/-- The program that needs the layout of a record. -/
def layoutOf (r : RecordId) : LayoutT RecordLayout := ExceptT.mk (LayoutM.request r)

/-- The program that traps. -/
def trap {α : Type} (t : Trap) : LayoutT α := ExceptT.mk (LayoutM.trap t)

end LayoutT

/-- What layout programs read. -/
structure LayoutContext where
  schema : Schema
  profile : Profile

/-- How deep records can nest: no chain of records that contain each other is longer than the number
of records. -/
def LayoutContext.maxDepth (c : LayoutContext) : Nat := c.schema.records.size + 1

end AbiLayout
