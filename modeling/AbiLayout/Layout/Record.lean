import AbiLayout.Layout.Struct
import AbiLayout.Layout.Union

/-!
# The layout of a record

A record is laid out as what it is, a struct or a union. A layout that is found is checked before it
is given out. An error is reported as a diagnostic about the record, unless it only passes on the
failure of another record, which has been reported already.

## Main definitions

* `LayoutContext.recordLayout`: the program that answers for a record.
* `LayoutContext.allLayouts`: the program that answers for every record of the schema.
-/

namespace AbiLayout

namespace LayoutContext

/-- The diagnostic of a record without a layout. -/
def failure (record : Record) (e : LayoutError) : Diagnostic :=
  ⟨.error, .general, e.message, ⟨record.label, none⟩⟩

/-- The layout of a record by its kind. -/
def layoutByKind (c : LayoutContext) (record : Record) : LayoutT RecordLayout :=
  match record.kind with
  | .struct => c.structLayout record
  | .union => c.unionLayout record

/-- The answer for a record. Traps on a record that the schema does not have, and on a layout that
does not pass its check. -/
def recordLayout (c : LayoutContext) (r : RecordId) : LayoutM Answer := do
  let record ← c.schema.record r
  match ← (c.layoutByKind record).run with
  | .ok layout =>
    match ← layout.flaw? with
    | none => return .ok layout
    | some _ => LayoutM.trap .flawedLayout
  | .error e => do
    if !e.isDependencyFailure then LayoutM.notify (failure record e)
    return .error e

/-- The answers for a list of records, in order. -/
def layoutsOf : List RecordId → LayoutM (List (RecordId × Answer))
  | [] => return []
  | r :: rs => do
    let answer ← LayoutM.request r
    let later ← layoutsOf rs
    return (r, answer) :: later

/-- The answers for all records of the schema, in the order of their declaration. -/
def allLayouts (c : LayoutContext) : LayoutM (List (RecordId × Answer)) :=
  layoutsOf c.schema.records.keys

end LayoutContext

end AbiLayout
