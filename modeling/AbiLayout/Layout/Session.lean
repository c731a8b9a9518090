import AbiLayout.Layout.Lookup
import AbiLayout.Layout.Record

/-!
# Layout sessions

A session answers questions about one schema under one profile. It remembers the answer for every
record, failures included, so each record is laid out at most once and its diagnostics are reported
at most once, however the record is reached. Diagnostics go to the session's sink.

A session runs layout programs: a question for a record is answered from memory, or else by running
the program of that record first, within the same session.

## Main definitions

* `Session`, `Session.start`, `Session.answer?`, `Session.remember`, `Session.report`.
* `Session.requestWithin`: the answer for a record, with a bound on how deep records nest.
* `Session.exec`: running a program.
* `Session.record`, `Session.typeLayout`, `Session.all`, `Session.locate`: the queries.
-/

namespace AbiLayout

/-- The state of the questions about one schema under one profile. -/
structure Session where
  context : LayoutContext
  /-- The answers so far, the latest first. -/
  memory : List (RecordId × Answer) := []
  sink : DiagnosticSink

namespace Session

/-- The session without answers. -/
def start (schema : Schema) (profile : Profile) (settings : SinkSettings) : Session :=
  ⟨⟨schema, profile⟩, [], ⟨settings, []⟩⟩

/-- The answer that the session remembers for a record. -/
def answer? (s : Session) (r : RecordId) : Option Answer := s.memory.lookup r

/-- The session with one more answer. -/
def remember (s : Session) (r : RecordId) (a : Answer) : Session :=
  { s with memory := (r, a) :: s.memory }

/-- The session after a diagnostic. -/
def report (d : Diagnostic) (s : Session) : Session := { s with sink := s.sink.push d }

/-- The answer for a record, from memory or by laying it out, with records nested at most `depth`
deep. -/
def requestWithin : (depth : Nat) → RecordId → Session → Except Trap (Answer × Session)
  | 0, _, _ => .error .bottomless
  | depth + 1, r, s =>
    match s.answer? r with
    | some a => .ok (a, s)
    | none => do
      let (a, s) ← (s.context.recordLayout r).run (requestWithin depth) report s
      return (a, s.remember r a)

/-- Runs a layout program. -/
def exec {α : Type} (p : LayoutM α) (s : Session) : Except Trap (α × Session) :=
  p.run (requestWithin s.context.maxDepth) report s

/-! ### Queries -/

/-- The layout of a record. -/
def record (r : RecordId) (s : Session) : Except Trap (Answer × Session) :=
  s.exec (LayoutM.request r)

/-- The layout of a type. -/
def typeLayout (ty : Ty) (s : Session) : Except Trap (Except LayoutError TypeLayout × Session) :=
  s.exec (s.context.typeLayout ty).run

/-- The layouts of all records. -/
def all (s : Session) : Except Trap (List (RecordId × Answer) × Session) :=
  s.exec s.context.allLayouts

/-- The member of a name in a record. -/
def locate (r : RecordId) (name : String) (s : Session) :
    Except Trap (Except LayoutError (Option MemberPlace) × Session) :=
  s.exec (s.context.locate r name).run

end Session

end AbiLayout
