import AbiLayout.Schema.Syntax

/-!
# Records that contain themselves

A record contains its bases, the records of its record-typed fields and the records at the bottom of
its array fields; a pointer contains nothing. A table of records can be laid out only if following
containment never returns to the start.

The search runs depth first, in the order of the records and, within a record, of its members. It
keeps the records whose search is finished, and the path of records that it is inside of. A record
met again on the path closes a cycle, and the part of the path from that record on is the evidence.

## Main definitions

* `containedIn`: what a record of a table contains.
* `searchCycle`: the search from one record.
* `firstCycle?`: the first cycle in a table, as the list of records along it, the first one repeated
  at the end.
-/

namespace AbiLayout

/-- What a record of the table contains; a record that is not in the table contains nothing. -/
def containedIn (records : Arena RecordId Record) (r : RecordId) : List RecordId :=
  match records.get? r with
  | some record => record.contained
  | none => []

/-- Searches from `r`, inside of `path`, with the records in `finished` already searched. The
outcome is a cycle or the longer list of finished records. The path never repeats a record, so a
bound on the depth that exceeds the number of records is never reached. -/
def searchCycle (records : Arena RecordId Record) :
    (depth : Nat) → (path finished : List RecordId) → RecordId →
      Except (List RecordId) (List RecordId)
  | 0, _, finished, _ => .ok finished
  | depth + 1, path, finished, r =>
    if r ∈ finished then .ok finished
    else if r ∈ path then .error (path.dropWhile (· ≠ r) ++ [r])
    else do
      let finished ← (containedIn records r).foldlM
        (searchCycle records depth (path ++ [r])) finished
      return r :: finished

/-- The first cycle of containment. -/
def firstCycle? (records : Arena RecordId Record) : Option (List RecordId) :=
  match records.keys.foldlM (searchCycle records (records.size + 1) []) [] with
  | .ok _ => none
  | .error cycle => some cycle

end AbiLayout
