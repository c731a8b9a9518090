import AbiLayout.Layout.Program

/-!
# Members by name

A name is looked up the way a compiler sees it. The record's own fields come first, in declaration
order; a field that is an anonymous record is searched where it stands, as if its members stood
there. The bases come after the fields. Fields without a place are passed over.

The place of a member is relative to the start of the outermost record, and keeps the members that
were crossed on the way.

## Main definitions

* `MemberPlace`.
* `LayoutContext.locate`: the program that looks up a name.
-/

namespace AbiLayout

/-- Where a named member lies inside an outer record. -/
structure MemberPlace where
  /-- The members crossed on the way, from the outer record inwards. -/
  path : List Member
  offset : BitCount
  extent : Extent
  ty : Ty
deriving DecidableEq, Repr

/-- The place of a search: the members crossed so far, and the offset of the record reached. -/
structure SearchPlace where
  path : List Member := []
  offset : BitCount := .zero
deriving DecidableEq, Repr

/-- The place behind one more member; traps where the offset leaves the range. -/
def SearchPlace.into (p : SearchPlace) (m : PlacedMember) : Except Trap SearchPlace := do
  let offset ← p.offset.add m.offset
  return ⟨p.path ++ [m.member], offset⟩

namespace LayoutContext

/-- Searches the fields from position `i` on, by `search` in anonymous records. -/
def locateInFields (search : RecordId → SearchPlace → LayoutT (Option MemberPlace))
    (name : String) (layout : RecordLayout) (place : SearchPlace) :
    (i : Nat) → List Field → LayoutT (Option MemberPlace)
  | _, [] => pure none
  | i, field :: fields =>
    match layout.field? i with
    | none => locateInFields search name layout place (i + 1) fields
    | some member => do
      if field.name = some name then
        let inner ← place.into member
        return some ⟨inner.path, inner.offset, member.extent, field.ty⟩
      else
        match field.isAnonymous, field.ty.asRecord? with
        | true, some r => do
          let inner ← place.into member
          match ← search r inner with
          | some found => return some found
          | none => locateInFields search name layout place (i + 1) fields
        | _, _ => locateInFields search name layout place (i + 1) fields

/-- Searches the bases from position `i` on, by `search` in each. -/
def locateInBases (search : RecordId → SearchPlace → LayoutT (Option MemberPlace))
    (layout : RecordLayout) (place : SearchPlace) :
    (i : Nat) → List Base → LayoutT (Option MemberPlace)
  | _, [] => pure none
  | i, base :: bases =>
    match layout.base? i with
    | none => locateInBases search layout place (i + 1) bases
    | some member => do
      let inner ← place.into member
      match ← search base.record inner with
      | some found => return some found
      | none => locateInBases search layout place (i + 1) bases

/-- Searches a record and what it contains, to a given depth. -/
def locateWithin (c : LayoutContext) (name : String) :
    (depth : Nat) → RecordId → SearchPlace → LayoutT (Option MemberPlace)
  | 0, _, _ => LayoutT.trap .bottomless
  | depth + 1, r, place => do
    let layout ← LayoutT.layoutOf r
    let record ← c.schema.record r
    match ← locateInFields (c.locateWithin name depth) name layout place 0 record.fields with
    | some found => return some found
    | none => locateInBases (c.locateWithin name depth) layout place 0 record.bases

/-- Looks up a name in a record. -/
def locate (c : LayoutContext) (r : RecordId) (name : String) :
    LayoutT (Option MemberPlace) :=
  c.locateWithin name c.maxDepth r ⟨[], .zero⟩

end LayoutContext

end AbiLayout
