import AbiLayout.Profile
import AbiLayout.Schema.Basic

/-!
# Declaring records

Records are declared first and defined later, so that they can refer to each other. `Declarations`
collects them under one profile, and `Declarations.close` closes the set: it checks that every
record is defined, that every reference leads to a declared record, that unions neither have nor are
bases, that anonymous members are unnamed records, and that no record contains itself. The checks
run in that order, record by record where they concern one record, and the first failure is
reported.

## Main definitions

* `SchemaError`, `SchemaError.message`: what a set of declarations can get wrong.
* `Declarations`, `Declarations.declare`, `Declarations.define`, `Declarations.addRecord`.
* `Declarations.baseType`, `Declarations.primitive`, `Declarations.bitfield`,
  `Declarations.zeroWidthBitfield`: types from names.
* `Declarations.close`: the schema of the declarations.
-/

namespace AbiLayout

/-- Why a set of declarations describes no schema. -/
inductive SchemaError where
  | unknownBaseType (name : String)
  | undefinedRecord (record : String)
  | redefinedRecord (record : String)
  | malformedAnonymousField (record field : String)
  | unionBase (record base : String)
  | unionWithBases (record : String)
  | valueCycle (record : String) (path : List String)
deriving DecidableEq, Repr

/-- What a rejected declaration reports. -/
def SchemaError.message : SchemaError → String
  | unknownBaseType name => s!"Unknown base type `{name}`"
  | undefinedRecord record => s!"Record `{record}` is declared but never defined"
  | redefinedRecord record => s!"Record `{record}` is defined more than once"
  | malformedAnonymousField record field =>
    s!"Anonymous member `{field}` of `{record}` must be an unnamed struct or union"
  | unionBase record base => s!"Record `{record}` cannot inherit from union `{base}`"
  | unionWithBases record => s!"Union `{record}` cannot have base classes"
  | valueCycle record path =>
    let steps := " -> ".intercalate path
    s!"Record `{record}` contains itself by value ({steps})"

/-- A declared record, with its members once it is defined. -/
structure Declaration where
  name : Option String
  kind : RecordKind
  body : Option (List Base × List Field) := none
deriving DecidableEq, Repr

/-- How messages call a declared record. -/
def Declaration.label (d : Declaration) : String := labelOf d.name

/-- The record of a declaration, if it is defined. -/
def Declaration.record (d : Declaration) : Except SchemaError Record :=
  match d.body with
  | none => .error (.undefinedRecord d.label)
  | some (bases, fields) => .ok ⟨d.name, d.kind, bases, fields⟩

/-- The records declared so far, under one profile. -/
structure Declarations where
  profile : Profile
  records : Arena RecordId Declaration := .empty

namespace Declarations

/-! ### Types from names -/

/-- The base type of a name. -/
def baseType (d : Declarations) (name : String) : Except SchemaError Primitive :=
  match d.profile.baseType? name with
  | some p => .ok p
  | none => .error (.unknownBaseType name)

/-- The scalar type of a name. -/
def primitive (d : Declarations) (name : String) : Except SchemaError Ty :=
  .primitive <$> d.baseType name

/-- The bit-field of `width` bits over the base type of a name. -/
def bitfield (d : Declarations) (name : String) (width : BitCount) : Except SchemaError Ty :=
  (fun p => .bitfield (.ofWidth p width)) <$> d.baseType name

/-- The bit-field over the base type of a name that ends a storage unit. -/
def zeroWidthBitfield (d : Declarations) (name : String) : Except SchemaError Ty :=
  (fun p => .bitfield (.unitBreak p)) <$> d.baseType name

/-! ### Declaring and defining -/

/-- The declarations with one more record, not yet defined, and its id; traps when every id is in
use. -/
def declare (d : Declarations) (kind : RecordKind) (name : Option String) :
    Except Trap (RecordId × Declarations) := do
  let (r, records) ← d.records.push ⟨name, kind, none⟩
  return (r, { d with records })

/-- How messages call a record that was never declared. -/
def undeclared (r : RecordId) : SchemaError := .undefinedRecord s!"#{r}"

/-- The declarations with the members of a declared record. A record is defined at most once. -/
def define (d : Declarations) (r : RecordId) (bases : List Base) (fields : List Field) :
    Except SchemaError Declarations :=
  match d.records.get? r with
  | none => .error (undeclared r)
  | some declaration =>
    if declaration.body.isSome then .error (.redefinedRecord declaration.label)
    else
      .ok { d with
        records := d.records.modify r fun declaration =>
          { declaration with body := some (bases, fields) } }

/-- The declarations with one more record, defined at once, and its id; traps when every id is in
use. -/
def addRecord (d : Declarations) (kind : RecordKind) (name : Option String) (bases : List Base)
    (fields : List Field) : Except Trap (RecordId × Declarations) := do
  let (r, records) ← d.records.push ⟨name, kind, some (bases, fields)⟩
  return (r, { d with records })

/-- The declarations with one more struct, and its id. -/
def addStruct (d : Declarations) (name : String) (bases : List Base) (fields : List Field) :
    Except Trap (RecordId × Declarations) :=
  d.addRecord .struct (some name) bases fields

/-- The declarations with one more union, and its id. -/
def addUnion (d : Declarations) (name : Option String) (fields : List Field) :
    Except Trap (RecordId × Declarations) :=
  d.addRecord .union name [] fields

/-! ### Closing the set -/

/-- Every record that the type mentions, also behind pointers, is declared. -/
def checkMentions (records : Arena RecordId Record) : Ty → Except SchemaError Unit
  | .primitive _ | .bitfield _ | .voidPointer => .ok ()
  | .pointerTo pointee => checkMentions records pointee
  | .array element _ => checkMentions records element
  | .record r => if records.contains r then .ok () else .error (undeclared r)

/-- A base is a declared struct. -/
def checkBase (records : Arena RecordId Record) (record : Record) (base : Base) :
    Except SchemaError Unit :=
  match records.get? base.record with
  | none => .error (undeclared base.record)
  | some baseRecord =>
    if baseRecord.isUnion then .error (.unionBase record.label baseRecord.label)
    else .ok ()

/-- A field refers to declared records, and an anonymous one is an unnamed record. -/
def checkField (records : Arena RecordId Record) (record : Record) (i : Nat) (field : Field) :
    Except SchemaError Unit := do
  checkMentions records field.ty
  if field.isAnonymous && (field.isNamed || field.ty.asRecord?.isNone) then
    .error (.malformedAnonymousField record.label (field.label i))

/-- The checks of the fields from position `i` on. -/
def checkFields (records : Arena RecordId Record) (record : Record) :
    (i : Nat) → List Field → Except SchemaError Unit
  | _, [] => .ok ()
  | i, field :: fields => do
    checkField records record i field
    checkFields records record (i + 1) fields

/-- A union has no bases, every base is a declared struct, and every field is in order. -/
def checkRecord (records : Arena RecordId Record) (record : Record) :
    Except SchemaError Unit := do
  if record.isUnion && !record.bases.isEmpty then
    .error (.unionWithBases record.label)
  record.bases.forM (checkBase records record)
  checkFields records record 0 record.fields

/-- How messages call a record of the table. -/
def nameIn (records : Arena RecordId Record) (r : RecordId) : String :=
  match records.get? r with
  | some record => record.label
  | none => s!"#{r}"

/-- No record contains itself. -/
def checkAcyclic (records : Arena RecordId Record) : Except SchemaError Unit :=
  match firstCycle? records with
  | none => .ok ()
  | some cycle =>
    let path := cycle.map (nameIn records)
    .error (.valueCycle (path.headD "") path)

/-- The schema of the declarations. -/
def close (d : Declarations) : Except SchemaError Schema := do
  let records ← d.records.mapM fun _ declaration => declaration.record
  records.entries.forM fun (_, record) => checkRecord records record
  checkAcyclic records
  return ⟨records, d.profile.pointerSize, d.profile.pointerAlignment⟩

end Declarations

end AbiLayout
