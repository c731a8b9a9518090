import AbiLayout.Proofs.Agreement.Traps
import AbiLayout.Proofs.Closing
import AbiLayout.Proofs.WellFormed

/-!
# Records that are always answered

Over a closed schema every record that a program asks for is there, and records nest no deeper than
there are records. If in addition the alignments of scalar types fit in bits, nothing in a layout
program traps but the size of a field that is a pointer. So where pointers fit in bits, every record
has an answer at the depth of the schema. Where they do not, a layout traps exactly if it comes to
such a field, with all in front of it accepted and placed.

## Main definitions

* `LayoutT.Completes`: a program ends in a result or a layout error.
* `Schema.AlignmentsFit`, `Schema.ScalarsFit`: the alignments of scalar types fit in bits, and so
  does the size of pointers.
* `LayoutContext.MeetsWidePointer`: the layout of a record comes to a pointer that does not fit in
  bits.

## Main results

* `LayoutContext.recordLayout_eq_error_iff`: where a record traps, if all that it contains is
  answered.
* `LayoutContext.exists_answerWithin_maxDepth`: every record of a closed schema is answered.
-/

namespace AbiLayout

/-! ### Programs that complete -/

namespace LayoutT

variable {α β : Type} {answer : RecordId → Except Trap Answer}

/-- The program ends in a result or a layout error, and does not trap. -/
def Completes (answer : RecordId → Except Trap Answer) (p : LayoutT α) : Prop :=
  ∃ out, value answer p = .ok out

theorem completes_pure (a : α) : Completes answer (pure a) := ⟨_, value_pure answer a⟩

theorem completes_throw (e : LayoutError) : Completes answer (throw e : LayoutT α) :=
  ⟨_, value_throw answer e⟩

theorem completes_liftM {x : Except Trap α} {a : α} (h : x = .ok a) :
    Completes answer (liftM x : LayoutT α) := by
  rw [h]
  exact ⟨_, rfl⟩

/-- A program in sequence completes, if its second part does on every result of the first. -/
theorem Completes.bind {p : LayoutT α} {f : α → LayoutT β} (hp : Completes answer p)
    (hf : ∀ a, value answer p = .ok (.ok a) → Completes answer (f a)) :
    Completes answer (p >>= f) := by
  obtain ⟨out, hout⟩ := hp
  rw [Completes, value_bind, hout, except_ok_bind]
  cases out with
  | error e => exact ⟨_, rfl⟩
  | ok a => exact hf a hout

theorem Completes.tryCatch {p : LayoutT α} {handle : LayoutError → LayoutT α}
    (hp : Completes answer p) (hhandle : ∀ e, Completes answer (handle e)) :
    Completes answer (tryCatch p handle) := by
  obtain ⟨out, hout⟩ := hp
  rw [Completes, value_tryCatch, hout, except_ok_bind]
  cases out with
  | error e => exact hhandle e
  | ok a => exact ⟨_, rfl⟩

end LayoutT

/-! ### Types and fields -/

/-- A type that mentions only records of the schema has a name. -/
theorem Schema.Declares.typeName_eq_ok {s : Schema} {ty : Ty} (h : s.Declares ty) :
    ∃ name, s.typeName ty = .ok name := by
  induction ty with
  | primitive | bitfield | voidPointer => exact ⟨_, rfl⟩
  | pointerTo pointee ih =>
    obtain ⟨name, hname⟩ := ih h
    exact ⟨_, by rw [typeName, hname]; rfl⟩
  | array element count ih =>
    obtain ⟨name, hname⟩ := ih h
    cases count <;> exact ⟨_, by rw [typeName, hname]; rfl⟩
  | record r =>
    obtain ⟨record, hget⟩ := Arena.contains_iff_get?.mp h
    exact ⟨_, by rw [typeName, Schema.record, Arena.get_eq_ok_iff.mpr hget]; rfl⟩

namespace LayoutContext

open LayoutT

variable {c : LayoutContext} {answer : RecordId → Except Trap Answer} {record : Record} {ty : Ty}

theorem completes_typeTooLarge {α : Type} (h : c.schema.Declares ty) :
    Completes answer (c.typeTooLarge ty : LayoutT α) := by
  obtain ⟨name, hname⟩ := h.typeName_eq_ok
  exact (completes_liftM hname).bind fun _ _ => completes_throw _

theorem completes_blameDependency {α : Type} (h : c.schema.Declares ty) (e : LayoutError) :
    Completes answer (c.blameDependency record ty e : LayoutT α) := by
  obtain ⟨name, hname⟩ := h.typeName_eq_ok
  exact (completes_liftM hname).bind fun _ _ => completes_throw _

/-- The record that a value of the type holds, if any, is answered. -/
def HoldsAnswered (answer : RecordId → Except Trap Answer) (ty : Ty) : Prop :=
  ∀ r, ty.containedRecord? = some r → ∃ a, answer r = .ok a

/-- The layout of a type is found, or a layout error, if the record that it holds is answered. -/
theorem completes_typeLayout (hdeclares : c.schema.Declares ty) (h : HoldsAnswered answer ty) :
    Completes answer (c.typeLayout ty) := by
  induction ty with
  | primitive | bitfield | voidPointer | pointerTo => exact completes_pure _
  | record r =>
    obtain ⟨a, ha⟩ := h r rfl
    exact ⟨_, by rw [typeLayout_record, value_map, value_layoutOf, ha]; rfl⟩
  | array element count ih =>
    cases hstatic : c.schema.staticSize (.array element count) with
    | known size alignment =>
      rw [typeLayout_of_known hstatic]
      exact completes_pure _
    | tooLarge =>
      rw [typeLayout_of_tooLarge hstatic]
      exact completes_typeTooLarge hdeclares
    | recordDependent | incomplete =>
      rw [typeLayout_array (by simp [hstatic])]
      refine (ih hdeclares h).bind fun layout _ => ?_
      cases arrayLayout? layout count with
      | none => exact completes_typeTooLarge hdeclares
      | some whole => exact completes_pure whole

theorem completes_resolveMember (member : String) (hdeclares : c.schema.Declares ty)
    (h : HoldsAnswered answer ty) : Completes answer (c.resolveMember record member ty) := by
  refine (completes_typeLayout hdeclares h).tryCatch fun e => ?_
  split
  · exact completes_throw _
  · exact completes_blameDependency hdeclares _

theorem completes_requireSizedElements (member : String) (hdeclares : c.schema.Declares ty)
    (h : HoldsAnswered answer ty) :
    Completes answer (c.requireSizedElements record member ty) := by
  induction ty with
  | primitive | bitfield | voidPointer | pointerTo | record => exact completes_pure _
  | array element count ih =>
    have hdeclares : c.schema.Declares element := hdeclares
    have h : HoldsAnswered answer element := h
    rw [requireSizedElements]
    refine (completes_resolveMember member hdeclares h).bind fun layout _ => ?_
    by_cases htail : layout.isTrailingOnly = true
    · rw [if_pos htail]
      exact completes_throw _
    · rw [if_neg htail]
      exact ih hdeclares h

theorem completes_resolveBitfield (i : Nat) (field : Field) {b : Bitfield}
    (h : b.underlying.Usable) : Completes answer (resolveBitfield record i field b) := by
  unfold resolveBitfield
  dsimp only
  split
  · exact completes_throw _
  split
  · exact completes_throw _
  split
  · split
    · exact completes_throw _
    · exact completes_pure _
  · refine (completes_liftM h.bits_eq_ok).bind fun max _ => ?_
    split
    · exact completes_throw _
    · exact completes_pure _

/-- A field is accepted or refused, if the record that it holds is answered. -/
theorem completes_resolveField (i : Nat) {field : Field} (hdeclares : c.schema.Declares field.ty)
    (husable : ∀ p ∈ field.ty.primitives, p.Usable) (h : HoldsAnswered answer field.ty) :
    Completes answer (c.resolveField record i field) := by
  unfold resolveField
  split
  · rename_i b hb
    rw [hb] at husable
    exact completes_resolveBitfield i field (husable b.underlying (List.mem_singleton_self _))
  · refine (completes_requireSizedElements _ hdeclares h).bind fun _ _ => ?_
    refine (completes_resolveMember _ hdeclares h).bind fun layout _ => ?_
    split
    · exact completes_throw _
    · exact completes_pure _

/-- The bases of a record are accepted or refused, if they are answered. -/
theorem completes_resolveBases {bases : List Base}
    (hdeclares : ∀ base ∈ bases, c.schema.records.contains base.record = true)
    (h : ∀ base ∈ bases, ∃ a, answer base.record = .ok a) :
    Completes answer (StructDraft.resolveBases c record bases) := by
  induction bases with
  | nil => exact completes_pure _
  | cons base bases ih =>
    obtain ⟨hhead, htail⟩ := List.forall_mem_cons.mp hdeclares
    obtain ⟨⟨a, ha⟩, hrest⟩ := List.forall_mem_cons.mp h
    obtain ⟨baseRecord, hget⟩ := Arena.contains_iff_get?.mp hhead
    refine (completes_liftM (Arena.get_eq_ok_iff.mpr hget)).bind fun baseRecord _ => ?_
    dsimp only
    split
    · exact completes_throw _
    have hdeclared : c.schema.Declares (.record base.record) := hhead
    have hlayout : Completes answer (layoutOf base.record) := ⟨a, by rw [value_layoutOf, ha]⟩
    refine (hlayout.tryCatch (completes_blameDependency hdeclared)).bind fun layout _ => ?_
    split
    · exact completes_throw _
    · exact (ih htail hrest).bind fun later _ => completes_pure _

end LayoutContext

/-! ### Records -/

/-- The alignments of scalar types fit in bits. -/
structure Schema.AlignmentsFit (s : Schema) : Prop where
  primitive : ∀ p, s.Mentions p → p.bitAlignment < 2 ^ 64
  pointerAlignment : 8 * s.pointerAlignment.count < 2 ^ 64

/-- The alignments of scalar types, and the size of pointers, fit in bits. The sizes of usable base
types do so anyway. -/
structure Schema.ScalarsFit (s : Schema) : Prop extends s.AlignmentsFit where
  pointerSize : 8 * s.pointerSize.count < 2 ^ 64

theorem Schema.alignmentsFit_of_le {s : Schema}
    (primitive : ∀ p, s.Mentions p → p.alignment.count ≤ 2 ^ 60)
    (pointerAlignment : s.pointerAlignment.count ≤ 2 ^ 60) : s.AlignmentsFit := by
  refine ⟨fun p hp => ?_, ?_⟩
  · have hle := primitive p hp
    rw [Primitive.bitAlignment]
    omega
  · omega

theorem Schema.scalarsFit_of_le {s : Schema}
    (primitive : ∀ p, s.Mentions p → p.alignment.count ≤ 2 ^ 60)
    (pointerAlignment : s.pointerAlignment.count ≤ 2 ^ 60)
    (pointerSize : s.pointerSize.fitsInBits = true) : s.ScalarsFit :=
  ⟨alignmentsFit_of_le primitive pointerAlignment, Quantity.fitsInBits_iff.mp pointerSize⟩

/-- The alignment of the layout is a power of two, and fits in bits, and so does the size. -/
structure RecordLayout.InRange (l : RecordLayout) : Prop where
  alignment_isPowerOfTwo : l.alignment.count.isPowerOfTwo
  alignment_lt : 8 * l.alignment.count < 2 ^ 64
  size_lt : 8 * l.size.count < 2 ^ 64

namespace LayoutContext

/-- The bases of a record and the first of its fields are accepted, and those of a struct are placed
in range. -/
structure PlacesBefore (c : LayoutContext) (answer : RecordId → Except Trap Answer)
    (record : Record) (before : List Field) (bases : List StructDraft.ResolvedBase)
    (placements : List Placement) : Prop where
  fieldsResolve : c.FieldsResolve answer record 0 before placements
  basesResolve : record.kind = .struct →
    LayoutT.value answer (StructDraft.resolveBases c record record.bases) = .ok (.ok bases)
  inheritance : record.kind = .struct →
    1 < StructDraft.nonEmptyBases bases → c.profile.allowsMultipleInheritance = true
  inRange : record.kind = .struct →
    (Ideal.structDraft c.profile.bitfieldPolicy { record with fields := before } bases
      placements).cursor.frontier < 2 ^ 64

/-- The bits of pointers do not fit in 64 bits, and the layout of the record comes to a field that
is a pointer: all in front of it is accepted and placed. -/
def MeetsWidePointer (c : LayoutContext) (answer : RecordId → Except Trap Answer)
    (record : Record) : Prop :=
  c.schema.pointerSize.fitsInBits = false ∧ ∃ before field after bases placements,
    record.fields = before ++ field :: after ∧ field.ty.isPointer = true ∧
    c.PlacesBefore answer record before bases placements

open LayoutT

variable {c : LayoutContext} {answer : RecordId → Except Trap Answer} {r : RecordId}
  {record : Record}

/-! A record answers as it is laid out: a layout passes its check, and errors and traps stay. -/

/-- A layout that passes its check is the answer of its record. -/
theorem value_recordLayout_of_ok {l : RecordLayout}
    (hrecord : c.schema.records.get? r = some record)
    (h : value answer (c.layoutByKind record) = .ok (.ok l)) (hflaw : l.flaw? = .ok none) :
    (c.recordLayout r).value answer = .ok (.ok l) := by
  rw [value] at h
  rw [recordLayout, LayoutM.value_bind, LayoutM.value_liftM, Schema.record,
    Arena.get_eq_ok_iff.mpr hrecord, except_ok_bind, LayoutM.value_bind, h, except_ok_bind]
  dsimp only
  rw [LayoutM.value_bind, LayoutM.value_liftM, hflaw, except_ok_bind]
  rfl

/-- A derived layout is the answer of its record. -/
theorem Derives.value_recordLayout {bases : List StructDraft.ResolvedBase}
    {placements : List Placement} {l : RecordLayout}
    (hderives : c.Derives answer record bases placements l)
    (hrecord : c.schema.records.get? r = some record)
    (h : value answer (c.layoutByKind record) = .ok (.ok l)) :
    (c.recordLayout r).value answer = .ok (.ok l) :=
  value_recordLayout_of_ok hrecord h hderives.flaw?_eq

/-- The error of a record is its answer. -/
theorem value_recordLayout_of_error {e : LayoutError}
    (hrecord : c.schema.records.get? r = some record)
    (h : value answer (c.layoutByKind record) = .ok (.error e)) :
    (c.recordLayout r).value answer = .ok (.error e) := by
  rw [value] at h
  rw [recordLayout, LayoutM.value_bind, LayoutM.value_liftM, Schema.record,
    Arena.get_eq_ok_iff.mpr hrecord, except_ok_bind, LayoutM.value_bind, h, except_ok_bind]
  dsimp only
  split <;> rfl

/-- Where the layout of a record traps, so does its answer. -/
theorem value_recordLayout_of_trap {t : Trap} (hrecord : c.schema.records.get? r = some record)
    (h : value answer (c.layoutByKind record) = .error t) :
    (c.recordLayout r).value answer = .error t := by
  rw [value] at h
  rw [recordLayout, LayoutM.value_bind, LayoutM.value_liftM, Schema.record,
    Arena.get_eq_ok_iff.mpr hrecord, except_ok_bind, LayoutM.value_bind, h]
  rfl

section Closed

variable (hclosed : c.schema.Closed) (husable : c.schema.Usable)
  (halign : c.schema.AlignmentsFit)

omit hclosed in
include husable halign in
/-- The layouts of records are in range. -/
theorem answerWithin_inRange {depth : Nat} (r : RecordId) (l : RecordLayout)
    (h : c.answerWithin depth r = .ok (.ok l)) : l.InRange := by
  obtain ⟨hpow, hlt⟩ := answerWithin_alignment (P := fun n => 8 * n < 2 ^ 64) husable (by decide)
    halign.primitive halign.pointerAlignment r l h
  obtain ⟨record, depth, bases, placements, -, hderives⟩ := HasAnswer.derives husable ⟨depth, h⟩
  exact ⟨hpow, hlt, hderives.bits_lt⟩

section Contained

variable (hrecord : c.schema.records.get? r = some record)
  (hanswers : ∀ r l, answer r = .ok (.ok l) → l.InRange)
  (hcontained : ∀ r' ∈ record.contained, ∃ a, answer r' = .ok a)

include hclosed hrecord hanswers hcontained

/-- Bases are accepted or refused, and what is accepted fits in bits. -/
theorem basesComplete : c.BasesComplete answer record := by
  obtain ⟨out, hout⟩ := completes_resolveBases (hclosed.base r record hrecord) fun base hbase =>
    hcontained base.record (List.mem_append_left _ (List.mem_map_of_mem hbase))
  refine ⟨out, hout, ?_⟩
  rintro bases rfl base hbase
  obtain ⟨i, hget⟩ := List.getElem?_of_mem hbase
  obtain ⟨declared, -, hanswer⟩ := resolveBases_getElem? hout hget
  have hrange := hanswers declared.record base.layout hanswer
  exact ⟨hrange.alignment_isPowerOfTwo, hrange.alignment_lt, hrange.size_lt⟩

include husable

/-- Fields are accepted or refused, and what is accepted is sound. -/
theorem fieldsComplete : c.FieldsComplete answer record 0 record.fields Placement.Sound := by
  intro i field hget
  have hfield := List.mem_of_getElem? hget
  have husable' (p : Primitive) (hp : p ∈ field.ty.primitives) : p.Usable :=
    husable.primitive p (mentions_of_mem hrecord hfield hp)
  have hholds : HoldsAnswered answer field.ty := fun r' hr' =>
    hcontained r' (List.mem_append_right _ (List.mem_filterMap.mpr ⟨field, hfield, hr'⟩))
  obtain ⟨out, hout⟩ := completes_resolveField (0 + i)
    (hclosed.field r record hrecord field hfield) husable' hholds
  refine ⟨out, hout, ?_⟩
  rintro placement rfl
  exact resolveField_sound husable.pointerAlignment
    (fun r l h => (hanswers r l h).alignment_isPowerOfTwo) husable' hout

omit hclosed hcontained in
include halign in
/-- The only fields that do not fit in bits are pointers, where pointers do not. -/
theorem fits_or_widePointer {i : Nat} {field : Field} {placement : Placement}
    (hfield : field ∈ record.fields)
    (h : value answer (c.resolveField record i field) = .ok (.ok placement)) :
    (∀ policy, placement.Fits policy) ∧ placement.Bounded ∨
      c.schema.pointerSize.fitsInBits = false ∧ field.ty.isPointer = true := by
  have hmentions (p : Primitive) (hp : p ∈ field.ty.primitives) : c.schema.Mentions p :=
    mentions_of_mem hrecord hfield hp
  by_cases hwide : c.schema.pointerSize.fitsInBits = false ∧ field.ty.isPointer = true
  · exact .inr hwide
  have hbounded : placement.Bounded := by
    refine resolveField_bounded (fun r l h => (hanswers r l h).size_lt) (fun hpointer => ?_)
      (fun p hp => (husable.primitive p (hmentions p hp)).bitSize_lt) h
    have hfits : c.schema.pointerSize.fitsInBits = true :=
      Bool.eq_true_of_not_eq_false fun hfits => hwide ⟨hfits, hpointer⟩
    exact Quantity.fitsInBits_iff.mp hfits
  have hlt := resolveField_typeAlignment (P := fun n => 8 * n < 2 ^ 64) halign.pointerAlignment
    (fun r l h => (hanswers r l h).alignment_lt)
    (fun p hp => halign.primitive p (hmentions p hp)) h
  exact .inl ⟨fun policy => placement.fits_of_bounded policy hlt hbounded, hbounded⟩

include halign

/-- **A layout traps exactly at a pointer that does not fit in bits.** -/
theorem layoutByKind_eq_error_iff {t : Trap} :
    value answer (c.layoutByKind record) = .error t ↔
      t = .overflow ∧ c.MeetsWidePointer answer record := by
  have hfields := fieldsComplete hclosed husable hrecord hanswers hcontained
  have hwide {before after : List Field} {field : Field} {placement : Placement} {i : Nat}
      (hsplit : record.fields = before ++ field :: after)
      (hvalue : value answer (c.resolveField record i field) = .ok (.ok placement)) :=
    fits_or_widePointer husable halign hrecord hanswers (hsplit ▸ List.mem_append_cons_self) hvalue
  have htooWide (h : c.schema.pointerSize.fitsInBits = false) :
      ¬8 * c.schema.pointerSize.count < 2 ^ 64 :=
    Nat.not_lt.mpr (Quantity.fitsInBits_eq_false_iff.mp h)
  rw [layoutByKind, MeetsWidePointer]
  cases hkind : record.kind with
  | struct =>
    have hbases := basesComplete hclosed hrecord hanswers hcontained
    refine (structLayout_eq_error_iff hbases hfields).trans (and_congr_right fun _ => ?_)
    constructor
    · rintro ⟨bases, hresolve, hinheritance, before, field, after, placements, placement, hsplit,
        hplacements, hvalue, hfits, hrange⟩
      obtain ⟨hpointerSize, hpointer⟩ :=
        (hwide hsplit hvalue).resolve_left fun h => hfits (h.1 _)
      exact ⟨hpointerSize, before, field, after, bases, placements, hsplit, hpointer,
        hplacements, fun _ => hresolve, fun _ => hinheritance, fun _ => hrange⟩
    · rintro ⟨hpointerSize, before, field, after, bases, placements, hsplit, hpointer, hplaces⟩
      refine ⟨bases, hplaces.basesResolve hkind, hplaces.inheritance hkind, before, field, after,
        placements, _, hsplit, hplaces.fieldsResolve, resolveField_of_isPointer hpointer, ?_,
        hplaces.inRange hkind⟩
      exact fun hfits => htooWide hpointerSize (hfits.2 (by simp))
  | union =>
    refine (unionLayout_eq_error_iff hfields).trans (and_congr_right fun _ => ?_)
    have hne (h : record.kind = .struct) : False := by cases hkind.symm.trans h
    constructor
    · rintro ⟨before, field, after, placements, placement, hsplit, hplacements, hvalue, hunbounded⟩
      obtain ⟨hpointerSize, hpointer⟩ :=
        (hwide hsplit hvalue).resolve_left fun h => hunbounded h.2
      exact ⟨hpointerSize, before, field, after, [], placements, hsplit, hpointer, hplacements,
        fun h => (hne h).elim, fun h => (hne h).elim, fun h => (hne h).elim⟩
    · rintro ⟨hpointerSize, before, field, after, bases, placements, hsplit, hpointer, hplaces⟩
      exact ⟨before, field, after, placements, _, hsplit, hplaces.fieldsResolve,
        resolveField_of_isPointer hpointer, htooWide hpointerSize⟩

/-- **So does a record**, if all that it contains is answered. -/
theorem recordLayout_eq_error_iff {t : Trap} :
    (c.recordLayout r).value answer = .error t ↔
      t = .overflow ∧ c.MeetsWidePointer answer record := by
  rw [← layoutByKind_eq_error_iff hclosed husable halign hrecord hanswers hcontained]
  cases hout : value answer (c.layoutByKind record) with
  | error t' => rw [value_recordLayout_of_trap hrecord hout]
  | ok out =>
    cases out with
    | ok l =>
      obtain ⟨bases, placements, hderives⟩ := derives_of_layoutByKind husable hrecord
        (fun r l h => (hanswers r l h).alignment_isPowerOfTwo) hout
      rw [hderives.value_recordLayout hrecord hout]
    | error e => rw [value_recordLayout_of_error hrecord hout]

end Contained

include hclosed husable

/-- **Every record of a closed schema is answered**, at the depth of the schema. -/
theorem exists_answerWithin_maxDepth (hfit : c.schema.ScalarsFit)
    (hr : c.schema.records.contains r = true) : ∃ a, c.answerWithin c.maxDepth r = .ok a := by
  refine hclosed.induction_on_depth (motive := fun r depth => ∃ a, c.answerWithin depth r = .ok a)
    (fun r depth hr ih => ?_) hr (Nat.le_succ _)
  obtain ⟨record, hrecord⟩ := Arena.contains_iff_get?.mp hr
  have hcontained (r' : RecordId) (hr' : r' ∈ record.contained) :
      ∃ a, c.answerWithin depth r' = .ok a :=
    ih r' (mem_containedIn_iff.mp (by rwa [containedIn, hrecord]))
  refine except_exists_ok fun t ht => ?_
  obtain ⟨-, hwide, -⟩ := (recordLayout_eq_error_iff hclosed husable hfit.toAlignmentsFit hrecord
    (answerWithin_inRange husable hfit.toAlignmentsFit) hcontained).mp ht
  rw [Quantity.fitsInBits_iff.mpr hfit.pointerSize] at hwide
  cases hwide

end Closed

end LayoutContext

end AbiLayout
