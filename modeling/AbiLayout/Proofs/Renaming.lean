import AbiLayout.Proofs.Bitfields
import AbiLayout.Proofs.Memory
import AbiLayout.Proofs.Simulation
import AbiLayout.Proofs.Totality

/-!
# Layouts do not depend on names and numbers

A map of record ids renames one schema to another, if it maps every record to one of the same kind
with the same bases and fields, up to the map. What records and fields are called is left open, and
so are the order in which records are declared and which fields are anonymous; of a field only
whether it has a name counts, as an unnamed bit-field asks for no alignment. The programs of a
record and of its image then do the same step by step: they ask for a record and for its image, and
what they do with the answers does not depend on names. By induction along containment the answers
are the same layout, or errors that differ in names alone.

## Main definitions

* `Ty.rename`, `Base.rename`, `Record.RenamesTo`, `Schema.RenamesTo`: renaming records.
* `LayoutError.nameless`, `UpToNames`: what is left of an error without names, and outcomes that are
  the same but for names.
* `LayoutM.Renamed`, `LayoutT.Renamed`: programs that do the same over renamed records.

## Main results

* `LayoutM.Renamed.value`: their values are related, if the answers of the records are.
* `LayoutContext.renamed_recordLayout`: the programs of a record and of its image do the same.
* `LayoutContext.answer_upToNames`: so their answers are the same up to names.
* `Session.typeLayout_renamed`, `Session.record_renamed`: what sessions over a schema and over its
  image say of a type and of a record.
-/

namespace AbiLayout

variable {α α' β β' : Type}

/-! ### Renaming records -/

/-- The type with its records renamed, also behind pointers. -/
def Ty.rename (f : RecordId → RecordId) : Ty → Ty
  | primitive p => primitive p
  | voidPointer => voidPointer
  | pointerTo pointee => pointerTo (pointee.rename f)
  | array element count => array (element.rename f) count
  | bitfield b => bitfield b
  | record r => record (f r)

/-- The base with its record renamed. -/
def Base.rename (f : RecordId → RecordId) (base : Base) : Base :=
  { base with record := f base.record }

/-- The field has the renamed type of the other one, and has a name if the other one has. -/
structure Field.RenamesTo (f : RecordId → RecordId) (field field' : Field) : Prop where
  ty_eq : field'.ty = field.ty.rename f
  isNamed_eq : field'.isNamed = field.isNamed

/-- The record is of the same kind as the other one, and has its bases and fields, up to the names
of records and fields. -/
structure Record.RenamesTo (f : RecordId → RecordId) (record record' : Record) : Prop where
  kind_eq : record'.kind = record.kind
  bases_eq : record'.bases = record.bases.map (Base.rename f)
  fields : List.Forall₂ (Field.RenamesTo f) record.fields record'.fields

/-- Pointers are the same, and every record is renamed to a record of the other schema. The map need
not be one to one. -/
structure Schema.RenamesTo (f : RecordId → RecordId) (s s' : Schema) : Prop where
  pointerSize_eq : s'.pointerSize = s.pointerSize
  pointerAlignment_eq : s'.pointerAlignment = s.pointerAlignment
  record : ∀ r record, s.records.get? r = some record →
    ∃ record', s'.records.get? (f r) = some record' ∧ record.RenamesTo f record'

variable {f : RecordId → RecordId}

instance (field field' : Field) : Decidable (field.RenamesTo f field') :=
  decidable_of_iff (field'.ty = field.ty.rename f ∧ field'.isNamed = field.isNamed)
    ⟨fun ⟨hty, hnamed⟩ => ⟨hty, hnamed⟩, fun ⟨hty, hnamed⟩ => ⟨hty, hnamed⟩⟩

instance (record record' : Record) : Decidable (record.RenamesTo f record') :=
  decidable_of_iff (record'.kind = record.kind ∧
      record'.bases = record.bases.map (Base.rename f) ∧
      List.Forall₂ (Field.RenamesTo f) record.fields record'.fields)
    ⟨fun ⟨hkind, hbases, hfields⟩ => ⟨hkind, hbases, hfields⟩,
      fun ⟨hkind, hbases, hfields⟩ => ⟨hkind, hbases, hfields⟩⟩

instance (s s' : Schema) : Decidable (s.RenamesTo f s') :=
  decidable_of_iff (s'.pointerSize = s.pointerSize ∧ s'.pointerAlignment = s.pointerAlignment ∧
      ∀ entry ∈ s.records.entries, ∃ record' ∈ s'.records.get? (f entry.1),
        entry.2.RenamesTo f record')
    ⟨fun ⟨hsize, halignment, hrecord⟩ => ⟨hsize, halignment, fun r record hget =>
        hrecord (r, record) (Arena.mem_entries_iff.mpr hget)⟩,
      fun ⟨hsize, halignment, hrecord⟩ => ⟨hsize, halignment, fun entry hentry =>
        hrecord entry.1 entry.2 (Arena.mem_entries_iff.mp hentry)⟩⟩

theorem Ty.rename_ne_bitfield {ty : Ty} (h : ∀ b, ty ≠ bitfield b) (b : Bitfield) :
    ty.rename f ≠ bitfield b := by
  cases ty with
  | bitfield b' => exact absurd rfl (h b')
  | primitive | voidPointer | pointerTo | array | record => exact fun h => nomatch h

namespace Record

variable {record record' : Record}

theorem RenamesTo.isUnion_eq (h : record.RenamesTo f record') :
    record'.isUnion = record.isUnion := by rw [isUnion, isUnion, h.kind_eq]

theorem RenamesTo.isLastField_eq (h : record.RenamesTo f record') (i : Nat) :
    record'.isLastField i = record.isLastField i := by
  rw [isLastField, isLastField, h.fields.length_eq]

theorem RenamesTo.isEmpty_fields_eq (h : record.RenamesTo f record') :
    record'.fields.isEmpty = record.fields.isEmpty := by
  rw [Bool.eq_iff_iff, List.isEmpty_iff_length_eq_zero, List.isEmpty_iff_length_eq_zero,
    h.fields.length_eq]

end Record

namespace Schema

variable {s s' : Schema}

/-- What is known of the size of a type is the same. -/
theorem RenamesTo.staticSize_eq (h : s.RenamesTo f s') (ty : Ty) :
    s'.staticSize (ty.rename f) = s.staticSize ty := by
  induction ty with
  | primitive | bitfield | record => rfl
  | voidPointer | pointerTo =>
    rw [Ty.rename, staticSize, staticSize, h.pointerSize_eq, h.pointerAlignment_eq]
  | array element count ih =>
    cases count with
    | none => rfl
    | some count => rw [Ty.rename, staticSize, staticSize, ih]

theorem RenamesTo.contains (h : s.RenamesTo f s') {r : RecordId}
    (hr : s.records.contains r = true) : s'.records.contains (f r) = true := by
  obtain ⟨record, hget⟩ := Arena.contains_iff_get?.mp hr
  obtain ⟨record', hget', -⟩ := h.record r record hget
  exact Arena.contains_iff_get?.mpr ⟨record', hget'⟩

/-- A record is found on both sides. -/
theorem RenamesTo.get (h : s.RenamesTo f s') {r : RecordId} (hr : s.records.contains r = true) :
    TrapAlike (fun record record' => s.records.get? r = some record ∧ record.RenamesTo f record')
      (s.record r) (s'.record (f r)) := by
  obtain ⟨record, hget⟩ := Arena.contains_iff_get?.mp hr
  obtain ⟨record', hget', hrecord⟩ := h.record r record hget
  rw [Schema.record, Schema.record, Arena.get_eq_ok_iff.mpr hget, Arena.get_eq_ok_iff.mpr hget']
  exact .ok ⟨hget, hrecord⟩

theorem RenamesTo.declares (h : s.RenamesTo f s') {ty : Ty} (hty : s.Declares ty) :
    s'.Declares (ty.rename f) := by
  induction ty with
  | primitive | bitfield | voidPointer => trivial
  | pointerTo pointee ih => exact ih hty
  | array element count ih => exact ih hty
  | record r => exact h.contains hty

/-- A type has a name on both sides, whatever that is. -/
theorem RenamesTo.typeName (h : s.RenamesTo f s') {ty : Ty} (hty : s.Declares ty) :
    TrapAlike (fun _ _ => True) (s.typeName ty) (s'.typeName (ty.rename f)) := by
  obtain ⟨name, hname⟩ := hty.typeName_eq_ok
  obtain ⟨name', hname'⟩ := (h.declares hty).typeName_eq_ok
  rw [hname, hname']
  exact .ok trivial

end Schema

/-! ### Errors without names -/

namespace LayoutError

/-- The error without the names of records, fields and types. What it says of base types, of widths,
of counts and of the profile stays, and so do its causes. -/
def nameless : LayoutError → LayoutError
  | bitfieldTooWide _ _ underlying width max => bitfieldTooWide "" "" underlying width max
  | namedZeroWidthBitfield _ _ => namedZeroWidthBitfield "" ""
  | misdeclaredZeroWidthBitfield _ _ width => misdeclaredZeroWidthBitfield "" "" width
  | nonIntegerBitfield _ _ underlying => nonIntegerBitfield "" "" underlying
  | incompleteNotTrailing _ _ => incompleteNotTrailing "" ""
  | flexibleArrayInUnion _ _ => flexibleArrayInUnion "" ""
  | incompleteElement _ _ => incompleteElement "" ""
  | typeTooLarge _ => typeTooLarge ""
  | recordTooLarge _ _ => recordTooLarge "" ""
  | failedDependency _ _ cause => failedDependency "" "" cause.nameless
  | virtualBase _ _ => virtualBase "" ""
  | multipleInheritance _ count profile => multipleInheritance "" count profile

theorem nameless_eq_typeTooLarge_iff {e : LayoutError} :
    e.nameless = typeTooLarge "" ↔ ∃ name, e = typeTooLarge name := by
  cases e <;> simp [nameless]

@[simp] theorem isDependencyFailure_nameless (e : LayoutError) :
    e.nameless.isDependencyFailure = e.isDependencyFailure := by
  cases e <;> rfl

end LayoutError

/-- The outcomes are related by `R`, or errors that differ in names alone. -/
inductive UpToNames (R : α → α' → Prop) : Except LayoutError α → Except LayoutError α' → Prop
  | ok {a : α} {a' : α'} (h : R a a') : UpToNames R (.ok a) (.ok a')
  | error {e e' : LayoutError} (h : e.nameless = e'.nameless) : UpToNames R (.error e) (.error e')

/-! ### Programs over renamed records -/

namespace LayoutM

/-- The programs do the same over renamed records: they ask for a record and for its image, and go
on alike, if they are answered alike; they report at the same places, and meet the same trap or end
in results that are related by `R`. -/
inductive Renamed (f : RecordId → RecordId) (R : α → α' → Prop) : LayoutM α → LayoutM α' → Prop
  | done {a : α} {a' : α'} (h : R a a') : Renamed f R (done a) (done a')
  | trap (t : Trap) : Renamed f R (trap t) (trap t)
  | ask (r : RecordId) {next : Answer → LayoutM α} {next' : Answer → LayoutM α'}
      (h : ∀ a a', UpToNames Eq a a' → Renamed f R (next a) (next' a')) :
      Renamed f R (ask r next) (ask (f r) next')
  | report (d d' : Diagnostic) {next : LayoutM α} {next' : LayoutM α'}
      (h : Renamed f R next next') : Renamed f R (report d next) (report d' next')

variable {R : α → α' → Prop} {S : β → β' → Prop}

theorem Renamed.bind {p : LayoutM α} {p' : LayoutM α'} {q : α → LayoutM β} {q' : α' → LayoutM β'}
    (hp : Renamed f R p p') (hq : ∀ a a', R a a' → Renamed f S (q a) (q' a')) :
    Renamed f S (p >>= q) (p' >>= q') := by
  induction hp with
  | done h => exact hq _ _ h
  | trap t => exact .trap t
  | ask r _ ih => exact .ask r ih
  | report d d' _ ih => exact .report d d' ih

theorem renamed_liftM {x : Except Trap α} {x' : Except Trap α'} (h : TrapAlike R x x') :
    Renamed f R (liftM x) (liftM x') := by
  cases h with
  | ok h => exact .done h
  | error t => exact .trap t

/-- What follows one and the same computation starts from the same result. -/
theorem renamed_bind_same (x : Except Trap α) {q : α → LayoutM β} {q' : α → LayoutM β'}
    (hq : ∀ a, Renamed f S (q a) (q' a)) :
    Renamed f S ((liftM x : LayoutM α) >>= q) ((liftM x : LayoutM α) >>= q') := by
  cases x with
  | ok a => exact hq a
  | error t => exact .trap t

/-- **Programs over renamed records have related values**, if the records that they ask for are
answered the same up to names. -/
theorem Renamed.value {P : RecordId → Prop} {Q : Diagnostic → Prop}
    {answer answer' : RecordId → Except Trap Answer} {p : LayoutM α} {p' : LayoutM α'}
    (h : Renamed f R p p') (hp : p.Confined P Q)
    (hanswer : ∀ r, P r → TrapAlike (UpToNames Eq) (answer r) (answer' (f r))) :
    TrapAlike R (p.value answer) (p'.value answer') := by
  induction h with
  | done h => exact .ok h
  | trap t => exact .error t
  | ask r _ ih =>
    rw [LayoutM.value, LayoutM.value]
    have halike := hanswer r hp.1
    generalize answer r = x, answer' (f r) = x' at halike
    cases halike with
    | ok ha => exact ih _ _ ha (hp.2 _)
    | error t => exact .error t
  | report _ _ _ ih => exact ih hp.2

end LayoutM

namespace LayoutT

/-- The programs do the same over renamed records, and end in outcomes that are related by `R` or in
errors that differ in names alone. -/
abbrev Renamed (f : RecordId → RecordId) (R : α → α' → Prop) (p : LayoutT α) (p' : LayoutT α') :
    Prop :=
  LayoutM.Renamed f (UpToNames R) p.run p'.run

variable {R : α → α' → Prop} {S : β → β' → Prop}

theorem renamed_pure {a : α} {a' : α'} (h : R a a') :
    Renamed f R (pure a : LayoutT α) (pure a' : LayoutT α') := .done (.ok h)

theorem renamed_throw {e e' : LayoutError} (h : e.nameless = e'.nameless) :
    Renamed f R (throw e : LayoutT α) (throw e' : LayoutT α') := .done (.error h)

theorem renamed_layoutOf (r : RecordId) : Renamed f Eq (layoutOf r) (layoutOf (f r)) :=
  .ask r fun _ _ h => .done h

theorem Renamed.bind {p : LayoutT α} {p' : LayoutT α'} {q : α → LayoutT β} {q' : α' → LayoutT β'}
    (hp : Renamed f R p p') (hq : ∀ a a', R a a' → Renamed f S (q a) (q' a')) :
    Renamed f S (p >>= q) (p' >>= q') := by
  refine LayoutM.Renamed.bind hp fun out out' hout => ?_
  cases hout with
  | ok h => exact hq _ _ h
  | error h => exact .done (.error h)

/-- Behind programs with equal results, what follows starts from the same result. -/
theorem Renamed.bind_eq {p p' : LayoutT α} {q : α → LayoutT β} {q' : α → LayoutT β'}
    (hp : Renamed f Eq p p') (hq : ∀ a, Renamed f S (q a) (q' a)) :
    Renamed f S (p >>= q) (p' >>= q') :=
  hp.bind fun a _ ha => ha ▸ hq a

theorem renamed_liftM {x : Except Trap α} {x' : Except Trap α'} (h : TrapAlike R x x') :
    Renamed f R (liftM x : LayoutT α) (liftM x' : LayoutT α') := by
  cases h with
  | ok h => exact renamed_pure h
  | error t => exact .trap t

theorem renamed_bind_same (x : Except Trap α) {q : α → LayoutT β} {q' : α → LayoutT β'}
    (hq : ∀ a, Renamed f S (q a) (q' a)) :
    Renamed f S ((liftM x : LayoutT α) >>= q) ((liftM x : LayoutT α) >>= q') :=
  (renamed_liftM (.refl (fun _ => rfl) x)).bind_eq hq

theorem Renamed.tryCatch {p : LayoutT α} {p' : LayoutT α'} {handle : LayoutError → LayoutT α}
    {handle' : LayoutError → LayoutT α'} (hp : Renamed f R p p')
    (hhandle : ∀ e e', e.nameless = e'.nameless → Renamed f R (handle e) (handle' e')) :
    Renamed f R (tryCatch p handle) (tryCatch p' handle') := by
  refine LayoutM.Renamed.bind hp fun out out' hout => ?_
  cases hout with
  | ok h => exact renamed_pure h
  | error h => exact hhandle _ _ h

end LayoutT

/-! ### Resolution -/

namespace LayoutContext

open LayoutT

variable {c c' : LayoutContext} (h : c.schema.RenamesTo f c'.schema) {ty : Ty}

section Types

variable {R : α → α' → Prop}

include h

theorem renamed_typeTooLarge (hty : c.schema.Declares ty) :
    Renamed f R (c.typeTooLarge ty) (c'.typeTooLarge (ty.rename f)) :=
  (renamed_liftM (h.typeName hty)).bind fun _ _ _ => renamed_throw rfl

theorem renamed_blameDependency (record record' : Record) (hty : c.schema.Declares ty)
    {cause cause' : LayoutError} (hcause : cause.nameless = cause'.nameless) :
    Renamed f R (c.blameDependency record ty cause)
      (c'.blameDependency record' (ty.rename f) cause') :=
  (renamed_liftM (h.typeName hty)).bind fun _ _ _ =>
    renamed_throw (congrArg (LayoutError.failedDependency "" "") hcause)

/-- A type has the same layout. -/
theorem renamed_typeLayout (hty : c.schema.Declares ty) :
    Renamed f Eq (c.typeLayout ty) (c'.typeLayout (ty.rename f)) := by
  induction ty with
  | primitive | bitfield => exact renamed_pure rfl
  | voidPointer | pointerTo =>
    rw [Ty.rename, typeLayout_of_known rfl, typeLayout_of_known rfl, h.pointerSize_eq,
      h.pointerAlignment_eq]
    exact renamed_pure rfl
  | record r =>
    rw [Ty.rename, typeLayout_record, typeLayout_record, map_eq_pure_bind, map_eq_pure_bind]
    exact (renamed_layoutOf r).bind_eq fun _ => renamed_pure rfl
  | array element count ih =>
    have hstatic' := h.staticSize_eq (.array element count)
    cases hstatic : c.schema.staticSize (.array element count) with
    | known size alignment =>
      rw [typeLayout_of_known hstatic, typeLayout_of_known (hstatic'.trans hstatic)]
      exact renamed_pure rfl
    | tooLarge =>
      rw [typeLayout_of_tooLarge hstatic, typeLayout_of_tooLarge (hstatic'.trans hstatic)]
      exact renamed_typeTooLarge h hty
    | recordDependent | incomplete =>
      rw [hstatic] at hstatic'
      rw [Ty.rename] at hstatic' ⊢
      rw [typeLayout_array (by simp [hstatic]), typeLayout_array (by simp [hstatic'])]
      refine (ih hty).bind_eq fun layout => ?_
      cases arrayLayout? layout count with
      | some whole => exact renamed_pure rfl
      | none => exact renamed_typeTooLarge h hty

end Types

variable {record record' : Record} {i : Nat} {field field' : Field}

section Fields

include h

theorem renamed_resolveMember (member member' : String) (hty : c.schema.Declares ty) :
    Renamed f Eq (c.resolveMember record member ty)
      (c'.resolveMember record' member' (ty.rename f)) := by
  refine (renamed_typeLayout h hty).tryCatch fun e e' he => ?_
  have hiff : (∃ name, e = .typeTooLarge name) ↔ ∃ name, e' = .typeTooLarge name := by
    rw [← LayoutError.nameless_eq_typeTooLarge_iff, ← LayoutError.nameless_eq_typeTooLarge_iff, he]
  by_cases hlarge : ∃ name, e = .typeTooLarge name
  · obtain ⟨name', rfl⟩ := hiff.mp hlarge
    obtain ⟨name, rfl⟩ := hlarge
    exact renamed_throw rfl
  · split
    · exact absurd ⟨_, rfl⟩ hlarge
    split
    · exact absurd (hiff.mpr ⟨_, rfl⟩) hlarge
    exact renamed_blameDependency h record record' hty he

theorem renamed_requireSizedElements (member member' : String) (hty : c.schema.Declares ty) :
    Renamed f Eq (c.requireSizedElements record member ty)
      (c'.requireSizedElements record' member' (ty.rename f)) := by
  induction ty with
  | primitive | bitfield | voidPointer | pointerTo | record => exact renamed_pure rfl
  | array element count ih =>
    have hty : c.schema.Declares element := hty
    rw [Ty.rename, requireSizedElements, requireSizedElements]
    refine (renamed_resolveMember h member member' hty).bind_eq fun layout => ?_
    split
    · exact renamed_throw rfl
    · exact ih hty

omit h in
theorem renamed_resolveBitfield (hfield : field.RenamesTo f field') (b : Bitfield) :
    Renamed f Eq (resolveBitfield record i field b) (resolveBitfield record' i field' b) := by
  rw [resolveBitfield, resolveBitfield, hfield.isNamed_eq]
  split
  · exact renamed_throw rfl
  split
  · exact renamed_throw rfl
  split
  · split
    · exact renamed_throw rfl
    · exact renamed_pure rfl
  · refine renamed_bind_same _ fun max => ?_
    split
    · exact renamed_throw rfl
    · exact renamed_pure rfl

omit h in
theorem upToNames_checkPosition (hrecord : record.RenamesTo f record') (i : Nat)
    (member member' : String) (layout : TypeLayout) :
    UpToNames Eq (checkPosition record i member layout)
      (checkPosition record' i member' layout) := by
  rw [checkPosition, checkPosition, hrecord.isUnion_eq, hrecord.isLastField_eq]
  split
  · split
    · exact .error rfl
    · exact .ok rfl
  · split
    · exact .error rfl
    · exact .ok rfl

/-- **A field is resolved to the same placement**, or refused for the same reason. -/
theorem renamed_resolveField (hrecord : record.RenamesTo f record')
    (hfield : field.RenamesTo f field') (hty : c.schema.Declares field.ty) :
    Renamed f Eq (c.resolveField record i field) (c'.resolveField record' i field') := by
  by_cases hbits : ∃ b, field.ty = .bitfield b
  · obtain ⟨b, hb⟩ := hbits
    have hb' : field'.ty = .bitfield b := by rw [hfield.ty_eq, hb]; rfl
    rw [resolveField, resolveField, hb, hb']
    exact renamed_resolveBitfield hfield b
  · have hne : ∀ b, field.ty ≠ .bitfield b := fun b hb => hbits ⟨b, hb⟩
    have hne' : ∀ b, field'.ty ≠ .bitfield b := hfield.ty_eq ▸ Ty.rename_ne_bitfield hne
    rw [resolveField_of_ne hne, resolveField_of_ne hne', hfield.ty_eq]
    refine (renamed_requireSizedElements h _ _ hty).bind_eq fun _ => ?_
    refine (renamed_resolveMember h _ _ hty).bind_eq fun layout => ?_
    have hcheck := upToNames_checkPosition hrecord i (field.label i) (field'.label i) layout
    generalize checkPosition record i (field.label i) layout = out,
      checkPosition record' i (field'.label i) layout = out' at hcheck
    cases hcheck with
    | ok => exact renamed_pure rfl
    | error he => exact renamed_throw he

end Fields

end LayoutContext

/-! ### Structs -/

namespace StructDraft

open LayoutContext LayoutT

variable {c c' : LayoutContext} {record record' : Record} {i : Nat}

/-- The layouts are the same, whatever the bases are called. -/
def ResolvedBase.SameLayout (base base' : ResolvedBase) : Prop := base.layout = base'.layout

/-- The steps have the same outcome up to names, and lead to the same draft. -/
def EndAlike (out out' : Drafted) : Prop := UpToNames Eq out.1 out'.1 ∧ out.2 = out'.2

variable {bases bases' : List ResolvedBase}

theorem placeBases_upToNames (h : List.Forall₂ ResolvedBase.SameLayout bases bases')
    (d : StructDraft) :
    TrapAlike EndAlike (placeBases record i bases d) (placeBases record' i bases' d) := by
  induction h generalizing i d with
  | nil => exact .ok ⟨.ok rfl, rfl⟩
  | cons hbase _ ih =>
    have hbase : _ = _ := hbase
    rw [placeBases, placeBases, hbase]
    refine TrapAlike.bind_same _ fun out _ => ?_
    obtain ⟨step, after⟩ := out
    cases step with
    | tooLarge => exact .ok ⟨.error rfl, rfl⟩
    | skipped | placedAt => exact ih after

section Members

variable (h : c.schema.RenamesTo f c'.schema) (hrecord : record.RenamesTo f record')

include h hrecord

/-- **Bases are resolved to the same layouts**, or refused for the same reason. -/
theorem renamed_resolveBases {all : List Base}
    (hall : ∀ base ∈ all, c.schema.records.contains base.record = true) :
    Renamed f (List.Forall₂ ResolvedBase.SameLayout) (resolveBases c record all)
      (resolveBases c' record' (all.map (Base.rename f))) := by
  induction all with
  | nil => exact renamed_pure .nil
  | cons base all ih =>
    obtain ⟨hbase, htail⟩ := List.forall_mem_cons.mp hall
    rw [List.map_cons, resolveBases, resolveBases]
    refine (renamed_liftM (h.get hbase)).bind fun _ _ _ => ?_
    obtain ⟨r, isVirtual⟩ := base
    cases isVirtual with
    | true => exact renamed_throw rfl
    | false =>
      have hdeclared : c.schema.Declares (.record r) := hbase
      refine ((renamed_layoutOf r).tryCatch fun _ _ he =>
        renamed_blameDependency h record record' hdeclared he).bind_eq fun layout => ?_
      rw [List.isEmpty_map, hrecord.isEmpty_fields_eq]
      split
      · exact renamed_throw rfl
      · exact (ih htail).bind fun _ _ hlater => renamed_pure (.cons rfl hlater)

variable (hprofile : c'.profile = c.profile)

include hprofile

theorem renamed_addBases
    (hbases : ∀ base ∈ record.bases, c.schema.records.contains base.record = true)
    (d : StructDraft) :
    LayoutM.Renamed f EndAlike (addBases c record d) (addBases c' record' d) := by
  rw [addBases, addBases, hrecord.bases_eq, hprofile]
  refine LayoutM.Renamed.bind (renamed_resolveBases h hrecord hbases) fun out out' hout => ?_
  cases hout with
  | error he => exact .done ⟨.error he, rfl⟩
  | ok hsame =>
    dsimp only
    rw [nonEmptyBases_eq (hsame.imp fun _ _ h => congrArg RecordLayout.isEmpty h)]
    split
    · exact .done ⟨.error rfl, rfl⟩
    · exact LayoutM.renamed_liftM (placeBases_upToNames hsame d)

omit hprofile in
/-- A field is added alike. Padding in front of it is reported on both sides, under other names. -/
theorem renamed_addField {field field' : Field} (hfield : field.RenamesTo f field')
    (hty : c.schema.Declares field.ty) (d : StructDraft) :
    LayoutM.Renamed f EndAlike (addField c record i field d) (addField c' record' i field' d) := by
  rw [addField, addField, hfield.isNamed_eq]
  refine LayoutM.Renamed.bind (renamed_resolveField h hrecord hfield hty) fun out out' hout => ?_
  cases hout with
  | error he => exact .done ⟨.error he, rfl⟩
  | ok hplacement =>
    subst hplacement
    refine LayoutM.renamed_bind_same _ fun step => ?_
    obtain ⟨step, after⟩ := step
    cases step with
    | tooLarge => exact .done ⟨.error rfl, rfl⟩
    | skipped => exact .done ⟨.ok rfl, rfl⟩
    | placedAt offset =>
      dsimp only
      split
      · exact .report _ _ (.done ⟨.ok rfl, rfl⟩)
      · exact .done ⟨.ok rfl, rfl⟩

omit hprofile in
theorem renamed_addFieldsFrom {fields fields' : List Field}
    (hfields : List.Forall₂ (Field.RenamesTo f) fields fields')
    (htypes : ∀ field ∈ fields, c.schema.Declares field.ty) (d : StructDraft) :
    LayoutM.Renamed f EndAlike (addFieldsFrom c record i fields d)
      (addFieldsFrom c' record' i fields' d) := by
  induction hfields generalizing i d with
  | nil => exact .done ⟨.ok rfl, rfl⟩
  | cons hfield _ ih =>
    obtain ⟨hty, htypes⟩ := List.forall_mem_cons.mp htypes
    refine (renamed_addField h hrecord hfield hty d).bind ?_
    rintro ⟨out, after⟩ ⟨out', _⟩ ⟨hout, rfl⟩
    cases hout with
    | error he => exact .done ⟨.error he, rfl⟩
    | ok => exact ih htypes after

theorem renamed_addMembers
    (hbases : ∀ base ∈ record.bases, c.schema.records.contains base.record = true)
    (htypes : ∀ field ∈ record.fields, c.schema.Declares field.ty) (d : StructDraft) :
    LayoutM.Renamed f EndAlike (addMembers c record d) (addMembers c' record' d) := by
  refine (renamed_addBases h hrecord hprofile hbases d).bind ?_
  rintro ⟨out, after⟩ ⟨out', _⟩ ⟨hout, rfl⟩
  cases hout with
  | error he => exact .done ⟨.error he, rfl⟩
  | ok => exact renamed_addFieldsFrom h hrecord hrecord.fields htypes after

omit h hrecord in
/-- A draft has the same layout. -/
theorem renamed_finish (d : StructDraft) :
    Renamed f Eq (d.finish c record) (d.finish c' record') := by
  rw [finish, finish, hprofile]
  refine renamed_bind_same _ fun closed => ?_
  cases closed with
  | none => exact renamed_throw rfl
  | some closed =>
    refine renamed_bind_same _ fun size => ?_
    cases size with
    | none => exact renamed_throw rfl
    | some size =>
      refine renamed_bind_same _ fun sizeBits => ?_
      dsimp only
      split
      · refine renamed_bind_same _ fun padding => ?_
        refine .report _ _ ?_
        exact renamed_bind_same _ fun _ => renamed_pure rfl
      · exact renamed_bind_same _ fun _ => renamed_pure rfl

end Members

end StructDraft

/-! ### Unions and records -/

namespace LayoutContext

open LayoutT

variable {c c' : LayoutContext} {record record' : Record} {r : RecordId}
  (h : c.schema.RenamesTo f c'.schema) (hprofile : c'.profile = c.profile)

include h

theorem renamed_unionFieldsFrom (hrecord : record.RenamesTo f record') {i : Nat}
    {fields fields' : List Field} (hfields : List.Forall₂ (Field.RenamesTo f) fields fields')
    (htypes : ∀ field ∈ fields, c.schema.Declares field.ty) (d : UnionDraft) :
    Renamed f Eq (UnionDraft.addFieldsFrom c record i fields d)
      (UnionDraft.addFieldsFrom c' record' i fields' d) := by
  induction hfields generalizing i d with
  | nil => exact renamed_pure rfl
  | cons hfield _ ih =>
    obtain ⟨hty, htypes⟩ := List.forall_mem_cons.mp htypes
    rw [UnionDraft.addFieldsFrom, UnionDraft.addFieldsFrom, hfield.isNamed_eq]
    refine (renamed_resolveField h hrecord hfield hty).bind_eq fun placement => ?_
    exact renamed_bind_same _ fun d => ih htypes d

include hprofile

/-- **A record is laid out alike** under every name. -/
theorem renamed_layoutByKind (hrecord : record.RenamesTo f record')
    (hbases : ∀ base ∈ record.bases, c.schema.records.contains base.record = true)
    (htypes : ∀ field ∈ record.fields, c.schema.Declares field.ty) :
    Renamed f Eq (c.layoutByKind record) (c'.layoutByKind record') := by
  rw [layoutByKind, layoutByKind, hrecord.kind_eq]
  cases record.kind with
  | struct =>
    dsimp only
    rw [structLayout, structLayout, hprofile]
    refine (StructDraft.renamed_addMembers h hrecord hprofile hbases htypes _).bind ?_
    rintro ⟨out, d⟩ ⟨out', _⟩ ⟨hout, rfl⟩
    cases hout with
    | error he => exact .done (.error he)
    | ok => exact StructDraft.renamed_finish hprofile d
  | union =>
    refine (renamed_unionFieldsFrom h hrecord hrecord.fields htypes _).bind_eq fun d => ?_
    rw [UnionDraft.finish, UnionDraft.finish, hprofile]
    refine renamed_bind_same _ fun size => ?_
    cases size with
    | none => exact renamed_throw rfl
    | some size => exact renamed_bind_same _ fun _ => renamed_pure rfl

/-- **The programs of a record and of its image do the same.** -/
theorem renamed_recordLayout (hclosed : c.schema.Closed) (hr : c.schema.records.contains r = true) :
    LayoutM.Renamed f (UpToNames Eq) (c.recordLayout r) (c'.recordLayout (f r)) := by
  refine LayoutM.Renamed.bind (LayoutM.renamed_liftM (h.get hr)) ?_
  rintro record record' ⟨hget, hrecord⟩
  have hlayout : Renamed f Eq (c.layoutByKind record) (c'.layoutByKind record') :=
    renamed_layoutByKind h hprofile hrecord (hclosed.base r record hget)
      (hclosed.field r record hget)
  refine LayoutM.Renamed.bind hlayout fun out out' hout => ?_
  cases hout with
  | ok hsame =>
    subst hsame
    refine LayoutM.renamed_bind_same _ fun flaw => ?_
    cases flaw with
    | none => exact .done (.ok rfl)
    | some => exact .trap _
  | @error e e' he =>
    have hfailure : e'.isDependencyFailure = e.isDependencyFailure := by
      rw [← LayoutError.isDependencyFailure_nameless, ← he,
        LayoutError.isDependencyFailure_nameless]
    dsimp only
    rw [hfailure]
    split
    · exact .report _ _ (.done (.error he))
    · exact .done (.error he)

/-- **A record and its image have the same answer up to names.** -/
theorem answer_upToNames (hclosed : c.schema.Closed) (hclosed' : c'.schema.Closed)
    (hr : c.schema.records.contains r = true) :
    TrapAlike (UpToNames Eq) (c.answer r) (c'.answer (f r)) := by
  -- the programs of a record ask for what the record contains, where the induction applies
  induction r using hclosed.wellFounded.induction with
  | _ r ih =>
    rw [answer_eq hclosed r, answer_eq hclosed' (f r)]
    exact (renamed_recordLayout h hprofile hclosed hr).value (confined_recordLayout r)
      fun r' hr' => ih r' hr' (hclosed.contains hr')

end LayoutContext

/-! ### Sessions over renamed records -/

namespace Session

variable {d d' : Declarations} {schema schema' : Schema} {profile : Profile}
  {settings settings' : SinkSettings} {s s' : Session} {r : RecordId}

/-- A type and its image have the same layout, or there is none for the same reason. -/
theorem typeLayout_renamed (hclose : d.close = .ok schema) (hclose' : d'.close = .ok schema')
    (h : schema.RenamesTo f schema') (hs : Reachable schema profile settings s)
    (hs' : Reachable schema' profile settings' s') {ty : Ty} (hty : schema.Declares ty) :
    TrapAlike (UpToNames Eq) ((s.typeLayout ty).map Prod.fst)
      ((s'.typeLayout (ty.rename f)).map Prod.fst) := by
  have hclosed := (Declarations.close_closed hclose).1
  have hclosed' := (Declarations.close_closed hclose').1
  rw [typeLayout, typeLayout, exec_fst hclosed hs.sound hs.context_eq,
    exec_fst hclosed' hs'.sound hs'.context_eq, hs.context_eq, hs'.context_eq]
  have hasks := LayoutContext.within_typeLayout (c := ⟨schema, profile⟩) (Q := fun _ => True)
    (LayoutContext.names_of_forall (T := fun _ => True) (fun _ => trivial) ty)
    fun _ => hty.contains
  refine (LayoutContext.renamed_typeLayout h hty).value hasks.confined fun r hr => ?_
  exact LayoutContext.answer_upToNames h rfl hclosed hclosed' hr

/-- **Layouts do not depend on names and numbers.** Let a map rename the records of one schema to
records of another, of the same kind and with corresponding bases and fields. In sessions over the
two schemas under one profile, whatever was asked before, a record and its image have the same
layout, or errors that differ in names alone, down to the root cause, or both requests meet the same
trap. There are answers, if all base types are usable, no scalar is aligned to more than 2 ^ 60
bytes, and the pointer size is one that a table may have. -/
theorem record_renamed (hclose : d.close = .ok schema) (hclose' : d'.close = .ok schema')
    (h : schema.RenamesTo f schema') (hs : Reachable schema profile settings s)
    (hs' : Reachable schema' profile settings' s') (hr : schema.records.contains r = true) :
    TrapAlike (UpToNames Eq) ((s.record r).map Prod.fst) ((s'.record (f r)).map Prod.fst) ∧
    (schema.Usable → (∀ p, schema.Mentions p → p.alignment.count ≤ 2 ^ 60) →
      schema.pointerAlignment.count ≤ 2 ^ 60 → schema.pointerSize.fitsInBits = true →
      ∃ a a' t t', s.record r = .ok (a, t) ∧ s'.record (f r) = .ok (a', t') ∧
        UpToNames Eq a a') := by
  have hclosed := (Declarations.close_closed hclose).1
  have hclosed' := (Declarations.close_closed hclose').1
  have halike : TrapAlike (UpToNames Eq) ((s.record r).map Prod.fst)
      ((s'.record (f r)).map Prod.fst) := by
    rw [record, record, exec_fst hclosed hs.sound hs.context_eq,
      exec_fst hclosed' hs'.sound hs'.context_eq, LayoutM.value_request, LayoutM.value_request]
    exact LayoutContext.answer_upToNames h rfl hclosed hclosed' hr
  refine ⟨halike, fun husable primitive pointerAlignment pointerSize => ?_⟩
  obtain ⟨a, ha⟩ := LayoutContext.exists_answerWithin_maxDepth (c := ⟨schema, profile⟩) hclosed
    husable (Schema.scalarsFit_of_le primitive pointerAlignment pointerSize) hr
  rw [← hs.context_eq] at ha
  obtain ⟨t, ht⟩ := record_eq_ok hs.sound ha
  rw [ht] at halike
  obtain ⟨a', ha', hsame⟩ := halike.exists_eq_ok rfl
  obtain ⟨t', ht'⟩ := except_map_fst_eq_ok_iff.mp ha'
  exact ⟨a, a', t, t', ht, ht', hsame⟩

end Session

/-- Two records with a layout, one a base of the other, and two without, one for the sake of the
other. -/
def Schema.stacked : Schema where
  records := ⟨#[
    ⟨some "head", .struct, [],
      [⟨some "level", .bitfield (.ofWidth ⟨"int", .of 4, .of 4, .signed⟩ (.of 3)), false⟩,
       ⟨some "next", .pointerTo (.record (.of 3)), false⟩]⟩,
    ⟨some "body", .struct, [⟨.of 0, false⟩],
      [⟨none, .bitfield (.ofWidth ⟨"int", .of 4, .of 4, .signed⟩ (.of 5)), false⟩]⟩,
    ⟨some "wide", .union, [],
      [⟨some "bits", .bitfield (.ofWidth ⟨"int", .of 4, .of 4, .signed⟩ (.of 40)), false⟩]⟩,
    ⟨some "tail", .struct, [],
      [⟨some "rows", .array (.record (.of 2)) (some 4), false⟩]⟩],
    by decide⟩
  pointerSize := .of 8
  pointerAlignment := .of 8

/-- The records of `Schema.stacked` in reverse order, all under one name, as are their fields. -/
def Schema.restacked : Schema where
  records := ⟨#[
    ⟨some "it", .struct, [],
      [⟨some "it", .array (.record (.of 1)) (some 4), false⟩]⟩,
    ⟨some "it", .union, [],
      [⟨some "it", .bitfield (.ofWidth ⟨"int", .of 4, .of 4, .signed⟩ (.of 40)), false⟩]⟩,
    ⟨some "it", .struct, [⟨.of 3, false⟩],
      [⟨none, .bitfield (.ofWidth ⟨"int", .of 4, .of 4, .signed⟩ (.of 5)), false⟩]⟩,
    ⟨some "it", .struct, [],
      [⟨some "it", .bitfield (.ofWidth ⟨"int", .of 4, .of 4, .signed⟩ (.of 3)), false⟩,
       ⟨some "it", .pointerTo (.record (.of 0)), false⟩]⟩],
    by decide⟩
  pointerSize := .of 8
  pointerAlignment := .of 8

/-- The declarations of the records of a schema. -/
def Declarations.ofSchema (s : Schema) : Declarations where
  profile := .lp64
  records := ⟨(s.records.values.toList.map fun record =>
    ⟨record.name, record.kind, some (record.bases, record.fields)⟩).toArray,
    (List.length_map _).trans_le s.records.size_le⟩

theorem Declarations.close_stacked : (ofSchema .stacked).close = .ok Schema.stacked := rfl

theorem Declarations.close_restacked : (ofSchema .restacked).close = .ok Schema.restacked := rfl

/-- The reverse order of four records. -/
def RecordId.reverse (r : RecordId) : RecordId :=
  ⟨3 - r.index, Nat.lt_of_le_of_lt (Nat.sub_le 3 r.index) (by decide)⟩

theorem Schema.stacked_renamesTo : stacked.RenamesTo RecordId.reverse restacked := by decide

theorem Schema.stacked_usable : stacked.Usable := ⟨forall_mentions (by decide), ⟨3, rfl⟩⟩

/-- The second record has one layout under both numbers; the last one fails for the sake of another
record, and under another name. -/
theorem Session.record_renamed_restacked :
    (∃ l t t', (start Schema.stacked .lp64 .keepAll).record (.of 1) = .ok (.ok l, t) ∧
      l.size.count = 24 ∧
      (start Schema.restacked .lp64 .keepAll).record (.of 2) = .ok (.ok l, t')) ∧
    ∃ e e' t t', (start Schema.stacked .lp64 .keepAll).record (.of 3) = .ok (.error e, t) ∧
      e.isDependencyFailure = true ∧ e.nameless = e'.nameless ∧
      (start Schema.restacked .lp64 .keepAll).record (.of 0) = .ok (.error e', t') := by
  have hrenamed (r : RecordId) (hr : Schema.stacked.records.contains r = true) :=
    (record_renamed Declarations.close_stacked Declarations.close_restacked
      Schema.stacked_renamesTo (.start : Reachable _ .lp64 .keepAll _)
      (.start : Reachable _ _ .keepAll _) hr).2 Schema.stacked_usable
      (Schema.forall_mentions (by decide)) (by decide) (by decide)
  constructor
  · obtain ⟨l, t, hl, hsize⟩ : ∃ l t, (start Schema.stacked .lp64 .keepAll).record (.of 1) =
        .ok (.ok l, t) ∧ l.size.count = 24 := ⟨_, _, rfl, rfl⟩
    obtain ⟨a, a', s, s', hs, hs', hsame⟩ := hrenamed (.of 1) rfl
    cases hl.symm.trans hs
    cases hsame with
    | ok heq => exact ⟨l, t, s', hl, hsize, heq ▸ hs'⟩
  · obtain ⟨e, t, he, hpassed⟩ : ∃ e t, (start Schema.stacked .lp64 .keepAll).record (.of 3) =
        .ok (.error e, t) ∧ e.isDependencyFailure = true := ⟨_, _, rfl, rfl⟩
    obtain ⟨a, a', s, s', hs, hs', hsame⟩ := hrenamed (.of 3) rfl
    cases he.symm.trans hs
    cases hsame with
    | error heq => exact ⟨e, _, t, s', he, hpassed, heq, hs'⟩

end AbiLayout
