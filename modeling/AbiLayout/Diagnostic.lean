/-!
# Diagnostics

What is worth reporting about a layout, and the sink that keeps it. A diagnostic has a severity, a
message and a subject, the record or the member that it is about. It also has a topic, which decides
whether a sink wants it: warnings about padding are on topics that can be switched off, everything
else is always wanted.

A sink either prints or collects. A printing sink keeps nothing.

## Main definitions

* `Severity`, `Subject`, `Diagnostic`, with their texts; `Diagnostic.render` writes a whole line.
* `Topic`, `SinkSettings`, `SinkSettings.wants`: the topics a sink keeps.
* `DiagnosticSink`, `DiagnosticSink.push`.
-/

namespace AbiLayout

/-- How serious a diagnostic is. -/
inductive Severity where
  | warning
  | error
deriving DecidableEq, Repr

/-- The record that a diagnostic is about, and possibly a member of it. -/
structure Subject where
  record : String
  member : Option String := none
deriving DecidableEq, Repr

/-- The record's name, followed by the member's after two colons. -/
def Subject.text : Subject → String
  | ⟨record, none⟩ => record
  | ⟨record, some member⟩ => record ++ "::" ++ member

instance : ToString Subject := ⟨Subject.text⟩

/-- What a diagnostic is about. -/
inductive Topic where
  /-- Anything that is always worth reporting. -/
  | general
  /-- Padding in front of a field. -/
  | paddedField
  /-- Padding in front of a bit-field. -/
  | paddedBitfield
  /-- Padding at the end of a record. -/
  | paddedRecord
deriving DecidableEq, Repr

/-- Something to report. -/
structure Diagnostic where
  severity : Severity
  topic : Topic := .general
  message : String
  subject : Subject
deriving DecidableEq, Repr

namespace Diagnostic

/-- The word that announces a severity. -/
def label : Severity → String
  | .warning => "warning:"
  | .error => "error:"

/-- The terminal color of a severity: bold yellow for a warning, bold red for an error. -/
def color : Severity → String
  | .warning => "1;33"
  | .error => "1;31"

/-- The line `subject: label message`, with the label colored on request. -/
def render (d : Diagnostic) (colored : Bool) : String :=
  let word := label d.severity
  let shown := if colored then s!"\x1b[{color d.severity}m{word}\x1b[0m" else word
  s!"{d.subject}: {shown} {d.message}"

end Diagnostic

/-- What a sink does with diagnostics. -/
structure SinkSettings where
  /-- Whether each diagnostic is printed and none is kept. -/
  printsOnly : Bool
  /-- Whether padding in front of a field is reported. -/
  paddedField : Bool
  /-- Whether padding in front of a bit-field is reported. -/
  paddedBitfield : Bool
  /-- Whether padding at the end of a record is reported. -/
  paddedRecord : Bool
deriving DecidableEq, Repr

namespace SinkSettings

/-- Keep everything, with all warnings on. -/
def keepAll : SinkSettings := ⟨false, true, true, true⟩

/-- Print what is always reported, with all warnings about padding off. -/
def printOnly : SinkSettings := ⟨true, false, false, false⟩

instance : Inhabited SinkSettings := ⟨printOnly⟩

/-- Whether diagnostics on a topic are switched on. -/
def wants (s : SinkSettings) : Topic → Bool
  | .general => true
  | .paddedField => s.paddedField
  | .paddedBitfield => s.paddedBitfield
  | .paddedRecord => s.paddedRecord

end SinkSettings

/-- The diagnostics collected so far, oldest first. -/
structure DiagnosticSink where
  settings : SinkSettings
  collected : List Diagnostic := []
deriving DecidableEq, Repr

namespace DiagnosticSink

/-- The sink after a diagnostic: longer by it, unless the sink prints or its topic is off. -/
def push (s : DiagnosticSink) (d : Diagnostic) : DiagnosticSink :=
  if s.settings.printsOnly || !s.settings.wants d.topic then s
  else { s with collected := s.collected ++ [d] }

/-- The number of diagnostics collected. -/
def length (s : DiagnosticSink) : Nat := s.collected.length

/-- Whether nothing was collected. -/
def isEmpty (s : DiagnosticSink) : Bool := s.length == 0

/-- How many of the collected diagnostics have a severity. -/
def count (s : DiagnosticSink) (severity : Severity) : Nat :=
  s.collected.countP fun d => d.severity == severity

/-- The collected messages with their severities, in order. -/
def messages (s : DiagnosticSink) : List (Severity × String) :=
  s.collected.map fun d => (d.severity, d.message)

@[simp] theorem settings_push (s : DiagnosticSink) (d : Diagnostic) :
    (s.push d).settings = s.settings := by
  unfold push
  split <;> rfl

end DiagnosticSink

end AbiLayout
