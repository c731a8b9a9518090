import AbiLayout.Proofs.Lockstep

/-!
# Bit-fields in fields and in arrays

A bit-field that is the type of a field is checked before it is placed. One that is the type of the
elements of an array is not: the array is a member of whole bytes, the size of its elements is asked
for as that of any type, and there a bit-field counts as its base type. So what a bit-field declares
is not read inside an array. Programs are equal, question by question and report by report, with the
base type in its place.

## Main definitions

* `Ty.containedBitfield?`, `Bitfield.WellFormed`: the bit-fields that a field holds, and their
  rules.
* `Ty.plain`, `Field.plain`, `Record.plain`, `Schema.plain`: base types instead of the bit-fields in
  arrays.

## Main results

* `LayoutContext.resolveField_plain`, `LayoutContext.layoutByKind_plain`: the programs are equal.
* `LayoutContext.wellFormed_of_answer`: bit-fields that are types of fields are well-formed.
* `Session.Reachable.record_checksBitfields`: what a session checks of bit-fields.
* `Session.not_bitfieldsWellFormed_samples`: a struct with a layout and ill-formed bit-fields.
-/

namespace AbiLayout

/-- The bit-field that a value of the type holds: the type itself, or the type of the elements of an
array, at any depth. -/
def Ty.containedBitfield? : Ty → Option Bitfield
  | bitfield b => some b
  | array element _ => element.containedBitfield?
  | _ => none

/-- The rules of a bit-field in a field that is named or not: it is over an integer type, no wider
than that, marked as the form without bits only if it has none, and has none only in a field without
a name. -/
structure Bitfield.WellFormed (b : Bitfield) (isNamed : Bool) : Prop where
  isInteger : b.underlying.isInteger = true
  width_le : b.width.count ≤ 8 * b.underlying.size.count
  width_eq_zero : b.endsUnit = true → b.width.count = 0
  isNamed_eq_false : b.width.count = 0 → isNamed = false

instance (b : Bitfield) (isNamed : Bool) : Decidable (b.WellFormed isNamed) :=
  decidable_of_iff (b.underlying.isInteger = true ∧
      b.width.count ≤ 8 * b.underlying.size.count ∧ (b.endsUnit = true → b.width.count = 0) ∧
      (b.width.count = 0 → isNamed = false))
    ⟨fun ⟨h₁, h₂, h₃, h₄⟩ => ⟨h₁, h₂, h₃, h₄⟩, fun ⟨h₁, h₂, h₃, h₄⟩ => ⟨h₁, h₂, h₃, h₄⟩⟩

/-- Every bit-field that a field of the record holds is well-formed. -/
def Record.BitfieldsWellFormed (record : Record) : Prop :=
  ∀ field ∈ record.fields, ∀ b, field.ty.containedBitfield? = some b →
    b.WellFormed field.isNamed

/-- The base type of a bit-field instead of it, also as the type of elements. -/
def Ty.plain : Ty → Ty
  | bitfield b => primitive b.underlying
  | array element count => array element.plain count
  | ty => ty

/-- The field with base types instead of the bit-fields in arrays. -/
def Field.plain (field : Field) : Field :=
  match field.ty with
  | .array element count => { field with ty := .array element.plain count }
  | _ => field

/-- The record with base types instead of the bit-fields in arrays. -/
def Record.plain (record : Record) : Record :=
  { record with fields := record.fields.map Field.plain }

/-- The schema with base types instead of the bit-fields in arrays. -/
def Schema.plain (s : Schema) : Schema :=
  { s with records := ⟨s.records.values.map Record.plain, by
    rw [Array.size_map]
    exact s.records.size_le⟩ }

/-! ### Types -/

namespace Schema

variable {s : Schema}

theorem staticSize_plain (ty : Ty) : s.staticSize ty.plain = s.staticSize ty := by
  induction ty with
  | primitive | voidPointer | pointerTo | bitfield | record => rfl
  | array element count ih =>
    cases count with
    | none => rfl
    | some count => rw [Ty.plain, staticSize, staticSize, ih]

theorem typeName_plain (ty : Ty) : s.typeName ty.plain = s.typeName ty := by
  induction ty with
  | primitive | voidPointer | pointerTo | bitfield | record => rfl
  | array element count ih => cases count <;> rw [Ty.plain, typeName, typeName, ih]

theorem record_plain (r : RecordId) : s.plain.record r = (s.record r).map Record.plain := by
  have hget : s.plain.records.get? r = (s.records.get? r).map Record.plain := Array.getElem?_map
  rw [record, record, Arena.get, Arena.get, hget]
  cases s.records.get? r <;> rfl

theorem alike_plain (s : Schema) : s.Alike s.plain := by
  refine ⟨rfl, rfl, fun r => ?_⟩
  rw [record_plain]
  cases s.record r with
  | error t => exact .error t
  | ok record => exact .ok ⟨rfl, rfl⟩

end Schema

/-! ### Fields -/

namespace Field

theorem name_plain (field : Field) : field.plain.name = field.name := by
  rw [plain]
  split <;> rfl

theorem isNamed_plain (field : Field) : field.plain.isNamed = field.isNamed :=
  congrArg Option.isSome field.name_plain

theorem label_plain (field : Field) (i : Nat) : field.plain.label i = field.label i :=
  congrArg (·.getD s!"#{i}") field.name_plain

end Field

namespace LayoutContext

variable {c : LayoutContext} {record : Record}

theorem typeLayout_plain (ty : Ty) : c.typeLayout ty.plain = c.typeLayout ty := by
  induction ty with
  | primitive | voidPointer | pointerTo | bitfield | record => rfl
  | array element count ih =>
    have hstatic' := c.schema.staticSize_plain (.array element count)
    have htooLarge : (c.typeTooLarge (Ty.array element count).plain : LayoutT TypeLayout) =
        c.typeTooLarge (.array element count) := by
      rw [typeTooLarge, typeTooLarge, Schema.typeName_plain]
    cases hstatic : c.schema.staticSize (.array element count) with
    | known size alignment =>
      rw [typeLayout_of_known hstatic, typeLayout_of_known (hstatic'.trans hstatic)]
    | tooLarge =>
      rw [typeLayout_of_tooLarge hstatic, typeLayout_of_tooLarge (hstatic'.trans hstatic),
        htooLarge]
    | recordDependent | incomplete =>
      rw [typeLayout_array (by simp [hstatic])]
      rw [Ty.plain] at hstatic' htooLarge ⊢
      rw [typeLayout_array (by simp [hstatic', hstatic]), ih, htooLarge]

theorem resolveMember_plain (member : String) (ty : Ty) :
    c.resolveMember record.plain member ty.plain = c.resolveMember record member ty := by
  have hblame (cause : LayoutError) :
      (c.blameDependency record.plain ty.plain cause : LayoutT TypeLayout) =
        c.blameDependency record ty cause := by
    rw [blameDependency, blameDependency, Schema.typeName_plain]
    rfl
  rw [resolveMember, resolveMember, typeLayout_plain]
  simp only [hblame]
  rfl

theorem requireSizedElements_plain (member : String) (ty : Ty) :
    c.requireSizedElements record.plain member ty.plain =
      c.requireSizedElements record member ty := by
  induction ty with
  | primitive | voidPointer | pointerTo | bitfield | record => rfl
  | array element count ih =>
    rw [Ty.plain, requireSizedElements, requireSizedElements, resolveMember_plain, ih]
    rfl

theorem checkPosition_plain (i : Nat) (member : String) (layout : TypeLayout) :
    checkPosition record.plain i member layout = checkPosition record i member layout := by
  have hlast : record.plain.isLastField i = record.isLastField i := by
    rw [Record.isLastField, Record.isLastField, Record.plain, List.length_map]
  rw [checkPosition, checkPosition, hlast]
  rfl

/-- A field that is no bit-field is resolved as a member of whole bytes. -/
theorem resolveField_of_ne {i : Nat} {field : Field} (h : ∀ b, field.ty ≠ .bitfield b) :
    c.resolveField record i field = (do
      c.requireSizedElements record (field.label i) field.ty
      let layout ← c.resolveMember record (field.label i) field.ty
      match checkPosition record i (field.label i) layout with
      | .error e => throw e
      | .ok () => return .bytes layout) := by
  unfold resolveField
  split
  · exact absurd ‹_› (h _)
  · rfl

/-- **A field is resolved by the same program** with base types instead of the bit-fields in
arrays. -/
theorem resolveField_plain (i : Nat) (field : Field) :
    c.resolveField record.plain i field.plain = c.resolveField record i field := by
  by_cases hbitfield : ∃ b, field.ty = .bitfield b
  · obtain ⟨b, hb⟩ := hbitfield
    have hsame : field.plain = field := by rw [Field.plain, hb]
    rw [hsame, resolveField, resolveField, hb]
    rfl
  · have hne (b : Bitfield) : field.ty ≠ .bitfield b := fun hb => hbitfield ⟨b, hb⟩
    have hplain : field.plain = { field with ty := field.ty.plain } := by
      obtain ⟨name, ty, isAnonymous⟩ := field
      cases ty with
      | bitfield b => exact absurd rfl (hne b)
      | primitive | voidPointer | pointerTo | array | record => rfl
    have hne' (b : Bitfield) : field.plain.ty ≠ .bitfield b := by
      rw [hplain]
      cases hty : field.ty with
      | bitfield b' => exact absurd hty (hne b')
      | primitive | voidPointer | pointerTo | array | record => rintro ⟨⟩
    rw [resolveField_of_ne hne, resolveField_of_ne hne', hplain]
    dsimp only
    rw [requireSizedElements_plain, resolveMember_plain]
    simp only [checkPosition_plain]
    rfl

end LayoutContext

/-! ### Records -/

namespace StructDraft

variable {c : LayoutContext} {record : Record}

theorem resolveBases_plain (bases : List Base) :
    resolveBases c record.plain bases = resolveBases c record bases := by
  induction bases with
  | nil => rfl
  | cons base bases ih =>
    have hempty : record.plain.fields.isEmpty = record.fields.isEmpty := List.isEmpty_map
    rw [resolveBases, resolveBases, ih, hempty]
    rfl

theorem placeBases_plain (i : Nat) (bases : List ResolvedBase) (d : StructDraft) :
    placeBases record.plain i bases d = placeBases record i bases d := by
  induction bases generalizing i d with
  | nil => rfl
  | cons base bases ih =>
    rw [placeBases, placeBases]
    simp only [ih]
    rfl

theorem addBases_plain (d : StructDraft) : addBases c record.plain d = addBases c record d := by
  have hbases : resolveBases c record.plain record.plain.bases =
      resolveBases c record record.bases := resolveBases_plain record.bases
  rw [addBases, addBases, hbases]
  simp only [placeBases_plain]
  rfl

theorem addField_plain (i : Nat) (field : Field) (d : StructDraft) :
    addField c record.plain i field.plain d = addField c record i field d := by
  have hwarning (placement : Placement) : paddedMember record.plain i field.plain placement =
      paddedMember record i field placement := by
    unfold paddedMember
    rw [field.label_plain]
    rfl
  rw [addField, addField, LayoutContext.resolveField_plain, field.label_plain, field.isNamed_plain]
  simp only [hwarning]
  rfl

theorem addFieldsFrom_plain (i : Nat) (fields : List Field) (d : StructDraft) :
    addFieldsFrom c record.plain i (fields.map Field.plain) d =
      addFieldsFrom c record i fields d := by
  induction fields generalizing i d with
  | nil => rfl
  | cons field fields ih => simp only [List.map_cons, addFieldsFrom, addField_plain, ih]

end StructDraft

theorem UnionDraft.addFieldsFrom_plain {c : LayoutContext} {record : Record} (i : Nat)
    (fields : List Field) (d : UnionDraft) :
    addFieldsFrom c record.plain i (fields.map Field.plain) d =
      addFieldsFrom c record i fields d := by
  induction fields generalizing i d with
  | nil => rfl
  | cons field fields ih =>
    simp only [List.map_cons, addFieldsFrom, LayoutContext.resolveField_plain,
      field.isNamed_plain, ih]

namespace LayoutContext

variable {c : LayoutContext} {record : Record}

/-- **A record is laid out by the same program** with base types instead of the bit-fields in
arrays. -/
theorem layoutByKind_plain : c.layoutByKind record.plain = c.layoutByKind record := by
  have hkind : record.plain.kind = record.kind := rfl
  rw [layoutByKind, layoutByKind, hkind]
  cases record.kind with
  | struct =>
    have hfields (d : StructDraft) :
        StructDraft.addFields c record.plain d = StructDraft.addFields c record d :=
      StructDraft.addFieldsFrom_plain 0 record.fields d
    dsimp only
    rw [structLayout, structLayout, StructDraft.addMembers, StructDraft.addMembers,
      StructDraft.addBases_plain]
    simp only [hfields]
    rfl
  | union =>
    have hfields : UnionDraft.addFieldsFrom c record.plain 0 record.plain.fields .start =
        UnionDraft.addFieldsFrom c record 0 record.fields .start :=
      UnionDraft.addFieldsFrom_plain 0 record.fields .start
    dsimp only
    rw [unionLayout, unionLayout, hfields]
    rfl

/-- So is it over the schema with base types instead of the bit-fields in arrays. -/
theorem recordLayout_plain {schema : Schema} {profile : Profile} (r : RecordId) :
    recordLayout ⟨schema.plain, profile⟩ r = recordLayout ⟨schema, profile⟩ r := by
  have halike : (LayoutContext.mk schema profile).schema.Alike
      (LayoutContext.mk schema.plain profile).schema := schema.alike_plain
  have hprogram (record : Record) : layoutByKind ⟨schema.plain, profile⟩ record.plain =
      layoutByKind ⟨schema, profile⟩ record :=
    (layoutByKind_congr halike record.plain rfl).symm.trans layoutByKind_plain
  rw [recordLayout, recordLayout, Schema.record_plain]
  cases schema.record r with
  | error t => rfl
  | ok record =>
    change ((layoutByKind ⟨schema.plain, profile⟩ record.plain).run >>= _) =
      ((layoutByKind ⟨schema, profile⟩ record).run >>= _)
    rw [hprogram]
    rfl

/-- A bit-field that is the type of a field is well-formed, if its record has a layout. -/
theorem wellFormed_of_answer {r : RecordId} {l : RecordLayout} (hclosed : c.schema.Closed)
    (hrecord : c.schema.records.get? r = some record) (h : c.answer r = .ok (.ok l)) {field : Field}
    (hfield : field ∈ record.fields) {b : Bitfield} (hb : field.ty = .bitfield b) :
    b.WellFormed field.isNamed := by
  have hlayable := layable_of_answer hclosed hrecord h
  obtain ⟨i, hget⟩ := List.getElem?_of_mem hfield
  obtain ⟨hinteger, ⟨hzero, hname⟩ | ⟨hunmarked, hpos, hle⟩⟩ :=
    (hlayable.field i field hget).bitfield b hb
  · exact ⟨hinteger, hzero.trans_le (Nat.zero_le _), fun _ => hzero, fun _ => by
      rw [Field.isNamed, hname]
      rfl⟩
  · exact ⟨hinteger, hle, fun hends => by simp [hunmarked] at hends, fun hzero => by omega⟩

end LayoutContext

namespace Session.Reachable

open Relation

variable {d : Declarations} {schema : Schema} {profile : Profile} {settings : SinkSettings}
  {s : Session}

/-- **Bit-fields are checked as fields, and taken for base types in arrays.** In every session under
every profile: a bit-field that is the type of a field is well-formed, if the record has a layout.
With base types instead of the bit-fields in arrays, the session would answer for the record alike,
remember alike and push the same diagnostics, whatever these bit-fields declare. -/
theorem record_checksBitfields (hclose : d.close = .ok schema)
    (hs : Reachable schema profile settings s) (r : RecordId) :
    (∀ record l s', schema.records.get? r = some record → s.record r = .ok (.ok l, s') →
      ∀ field ∈ record.fields, ∀ b, field.ty = .bitfield b → b.WellFormed field.isNamed) ∧
    (s.inContext ⟨schema.plain, profile⟩).record r =
      (s.record r).map (andInContext · ⟨schema.plain, profile⟩) := by
  obtain ⟨hclosed, -⟩ := Declarations.close_closed hclose
  constructor
  · intro record l s' hrecord h field hfield b hb
    have hanswer := record_sound hs.sound h
    rw [hs.context_eq, LayoutContext.hasAnswer_iff hclosed] at hanswer
    exact LayoutContext.wellFormed_of_answer hclosed hrecord hanswer hfield hb
  · have hconfined : (LayoutM.request r).Confined (fun _ => True) fun _ => True :=
      ⟨trivial, fun _ => trivial⟩
    have hdepth : LayoutContext.maxDepth ⟨schema.plain, profile⟩ =
        LayoutContext.maxDepth ⟨schema, profile⟩ := congrArg (· + 1) Array.size_map
    exact exec_inContext hdepth hconfined
      (fun _ _ q _ => LayoutContext.recordLayout_plain q) hs.sound hs.context_eq

end Session.Reachable

/-- A struct with a bit-field, and one with arrays of bit-fields that break the rules: one over a
floating-point type, one that is too wide, one that is marked as the form without bits but has some,
and one that has none in a named field. -/
def Schema.samples : Schema where
  records := ⟨#[
    ⟨some "flag", .struct, [],
      [⟨some "urgent", .bitfield (.ofWidth ⟨"int", .of 4, .of 4, .signed⟩ (.of 3)), false⟩]⟩,
    ⟨some "samples", .struct, [],
      [⟨some "levels", .array
        (.bitfield (.ofWidth ⟨"float", .of 4, .of 4, .float⟩ (.of 3))) (some 2), false⟩,
       ⟨some "masks", .array
        (.array (.bitfield (.ofWidth ⟨"int", .of 4, .of 4, .signed⟩ (.of 40))) (some 2)) (some 3),
        false⟩,
       ⟨some "ends", .array
        (.bitfield ⟨⟨"int", .of 4, .of 4, .signed⟩, .of 3, true⟩) (some 2), false⟩,
       ⟨some "breaks", .array
        (.bitfield (.unitBreak ⟨"int", .of 4, .of 4, .signed⟩)) (some 2), false⟩]⟩],
    by decide⟩
  pointerSize := .of 8
  pointerAlignment := .of 8

/-- The declarations of the records of `Schema.samples`. -/
def Declarations.samples : Declarations where
  profile := .lp64
  records := ⟨(Schema.samples.records.values.toList.map fun record =>
    ⟨record.name, record.kind, some (record.bases, record.fields)⟩).toArray, by decide⟩

theorem Declarations.close_samples : samples.close = .ok Schema.samples := rfl

/-- The bit-field in the first struct of `Schema.samples` is well-formed. -/
theorem Session.Reachable.record_checksBitfields_samples :
    ∃ l s', (Session.start Schema.samples .lp64 .keepAll).record (.of 0) = .ok (.ok l, s') ∧
      (Bitfield.ofWidth ⟨"int", .of 4, .of 4, .signed⟩ (.of 3)).WellFormed true ∧
      ((Session.start Schema.samples .lp64 .keepAll).inContext
        ⟨Schema.samples.plain, .lp64⟩).record (.of 0) =
          .ok (.ok l, s'.inContext ⟨Schema.samples.plain, .lp64⟩) := by
  obtain ⟨l, s', h⟩ : ∃ l s', (Session.start Schema.samples .lp64 .keepAll).record (.of 0) =
      .ok (.ok l, s') := ⟨_, _, rfl⟩
  obtain ⟨hwellFormed, hplain⟩ := record_checksBitfields Declarations.close_samples .start (.of 0)
  refine ⟨l, s', h, ?_, ?_⟩
  · exact hwellFormed _ l s' rfl h _ List.mem_cons_self _ rfl
  · rw [hplain, h]
    rfl

/-- The second struct of `Schema.samples` has a layout, and none of the bit-fields that it holds is
well-formed. -/
theorem Session.not_bitfieldsWellFormed_samples :
    ∃ schema record l s', Declarations.samples.close = .ok schema ∧
      schema.records.get? (.of 1) = some record ∧
      (Session.start schema .lp64 .keepAll).record (.of 1) = .ok (.ok l, s') ∧
      l.size.count = 48 ∧ s'.sink.collected = [] ∧
      (∀ field ∈ record.fields, ∀ b, field.ty.containedBitfield? = some b →
        ¬b.WellFormed field.isNamed) ∧
      ¬record.BitfieldsWellFormed := by
  obtain ⟨record, l, s', hrecord, h, hsize, hsilent, hlength, hill⟩ : ∃ record l s',
      Schema.samples.records.get? (.of 1) = some record ∧
        (Session.start Schema.samples .lp64 .keepAll).record (.of 1) = .ok (.ok l, s') ∧
        l.size.count = 48 ∧ s'.sink.collected = [] ∧ record.fields.length = 4 ∧
        record.fields.all (fun field => field.ty.containedBitfield?.any fun b =>
          !decide (b.WellFormed field.isNamed)) = true :=
    ⟨_, _, _, rfl, rfl, rfl, rfl, rfl, by decide⟩
  have hnone (field : Field) (hfield : field ∈ record.fields) (b : Bitfield)
      (hb : field.ty.containedBitfield? = some b) : ¬b.WellFormed field.isNamed := by
    have hfalse := List.all_eq_true.mp hill field hfield
    rw [hb] at hfalse
    simpa using hfalse
  refine ⟨_, record, l, s', Declarations.close_samples, hrecord, h, hsize, hsilent, hnone,
    fun hall => ?_⟩
  obtain ⟨field, hfield⟩ := List.exists_mem_of_length_pos (l := record.fields) (by omega)
  obtain ⟨b, hb, -⟩ := (Option.any_eq_true _ _).mp (List.all_eq_true.mp hill field hfield)
  exact hnone field hfield b hb (hall field hfield b hb)

end AbiLayout
