import AbiLayout.Proofs.Agreement.Record
import AbiLayout.Proofs.Cycles

/-!
# Layable records

The rules of a record, in terms of the answers of the records that it contains. The contained
records have layouts; no base is virtual; a base with a flexible tail is the last one, and the
record has no fields; several bases have storage only where the profile allows it; bit-fields are
well declared; the elements of arrays are complete, at every depth; in a struct, a field that is an
array of unknown length or a record with a flexible tail is the last one, and in a union no field is
an array of unknown length. Nothing is said of sizes. A record with a layout keeps all the rules.

## Main definitions

* `Ty.HasElement`, `Ty.Complete`, `Ty.EndsOpen`: the elements of an array type, and types with and
  without a known size.
* `Base.Admissible`, `Field.Admissible`: the rules of a base and of a field.
* `Record.Layable`: the rules of a record.

## Main results

* `LayoutContext.isComplete_iff_of_typeLayout`: the layout of a type says whether it is complete.
* `LayoutContext.Resolves.layable`: a record with accepted bases and fields is layable.
-/

namespace AbiLayout

/-! ### Types -/

namespace Ty

/-- The type is an array with elements of the given type, or with elements that have such elements
themselves. -/
inductive HasElement : Ty → Ty → Prop
  | outer (element : Ty) (count : Option Nat) : HasElement (.array element count) element
  | inner {element ty : Ty} (count : Option Nat) (h : HasElement element ty) :
      HasElement (.array element count) ty

/-- The size of the type is known, given the answers of records. That of an array of unknown length
is not, nor that of a record with a flexible tail. -/
def Complete (answer : RecordId → Except Trap Answer) : Ty → Prop
  | primitive _ | voidPointer | pointerTo _ | bitfield _ => True
  | array _ none => False
  | array element (some _) => element.Complete answer
  | record r => ∃ l, answer r = .ok (.ok l) ∧ l.hasFlexibleTail = false

/-- The type is an array of unknown length, or a record with a flexible tail. -/
def EndsOpen (answer : RecordId → Except Trap Answer) : Ty → Prop
  | array _ none => True
  | record r => ∃ l, answer r = .ok (.ok l) ∧ l.hasFlexibleTail = true
  | _ => False

end Ty

/-! ### The rules -/

variable {answer : RecordId → Except Trap Answer}

/-- The base has storage of its own. -/
def Base.hasStorage (answer : RecordId → Except Trap Answer) (base : Base) : Bool :=
  match answer base.record with
  | .ok (.ok l) => !l.isEmpty
  | _ => false

/-- The rules of the base at position `i` of a record. -/
structure Base.Admissible (answer : RecordId → Except Trap Answer) (record : Record) (i : Nat)
    (base : Base) : Prop where
  hasLayout : ∃ l, answer base.record = .ok (.ok l)
  notVirtual : base.isVirtual = false
  last : ∀ l, answer base.record = .ok (.ok l) → l.hasFlexibleTail = true →
    i + 1 = record.bases.length ∧ record.fields = []

/-- The rules of the field at position `i` of a record. -/
structure Field.Admissible (answer : RecordId → Except Trap Answer) (record : Record) (i : Nat)
    (field : Field) : Prop where
  hasLayout : ∀ r, field.ty.Holds r → ∃ l, answer r = .ok (.ok l)
  bitfield : ∀ b, field.ty = .bitfield b → b.underlying.isInteger = true ∧
    (b.width.count = 0 ∧ field.name = none ∨
      b.endsUnit = false ∧ 1 ≤ b.width.count ∧ b.width.count ≤ 8 * b.underlying.size.count)
  element : ∀ element, field.ty.HasElement element → element.Complete answer
  last : record.kind = .struct → field.ty.EndsOpen answer → i + 1 = record.fields.length
  ofUnion : record.kind = .union → ∀ element, field.ty ≠ .array element none

/-- The rules of a record under a profile, given the answers of the records that it contains. -/
structure Record.Layable (answer : RecordId → Except Trap Answer) (profile : Profile)
    (record : Record) : Prop where
  base : ∀ (i : Nat) (base : Base), record.bases[i]? = some base → base.Admissible answer record i
  inheritance : record.bases.countP (Base.hasStorage answer) ≤ 1 ∨
    profile.allowsMultipleInheritance = true
  field : ∀ (i : Nat) (field : Field), record.fields[i]? = some field →
    field.Admissible answer record i

/-- What a layable record contains has a layout. -/
theorem Record.Layable.exists_layout {profile : Profile} {record : Record}
    (h : record.Layable answer profile) {r : RecordId} (hr : r ∈ record.contained) :
    ∃ l, answer r = .ok (.ok l) := by
  rcases Record.mem_contained_iff.mp hr with ⟨base, hbase, rfl⟩ | ⟨field, hfield, hholds⟩
  · obtain ⟨i, hget⟩ := List.getElem?_of_mem hbase
    exact (h.base i base hget).hasLayout
  · obtain ⟨i, hget⟩ := List.getElem?_of_mem hfield
    exact (h.field i field hget).hasLayout r hholds

namespace LayoutContext

variable {c : LayoutContext} {record : Record} {ty : Ty} {l : TypeLayout}

/-! ### What a type layout says of its type -/

theorem complete_of_known {size alignment : ByteCount}
    (h : c.schema.staticSize ty = .known size alignment) : ty.Complete answer := by
  induction ty generalizing size alignment with
  | primitive | bitfield | voidPointer | pointerTo => trivial
  | record r => cases h
  | array element count ih =>
    cases count with
    | none => cases h
    | some count =>
      rw [Schema.staticSize] at h
      cases helement : c.schema.staticSize element with
      | known size₀ alignment₀ => exact ih helement
      | recordDependent | incomplete | tooLarge => simp [helement] at h

/-- A type whose size the schema knows holds no record. -/
theorem containedRecord?_of_known {size alignment : ByteCount}
    (h : c.schema.staticSize ty = .known size alignment) : ty.containedRecord? = none := by
  induction ty generalizing size alignment with
  | primitive | bitfield | voidPointer | pointerTo => rfl
  | record r => cases h
  | array element count ih =>
    cases count with
    | none => cases h
    | some count =>
      rw [Schema.staticSize] at h
      cases helement : c.schema.staticSize element with
      | known size₀ alignment₀ => exact ih helement
      | recordDependent | incomplete | tooLarge => simp [helement] at h

/-- The layout of an array follows that of its elements. -/
theorem arrayLayout?_isComplete {element : TypeLayout} {count : Option Nat}
    (h : arrayLayout? element count = some l) :
    l.isComplete = (count.isSome && element.isComplete) := by
  cases count with
  | none =>
    cases h
    rfl
  | some count =>
    rw [arrayLayout?] at h
    split at h
    · obtain ⟨width, -, rfl⟩ := Option.map_eq_some_iff.mp h
      rw [‹element.isComplete = true›]
      rfl
    · cases h
      rw [eq_false_of_ne_true ‹¬element.isComplete = true›]
      rfl

/-- **The layout of a type says whether the type is complete.** -/
theorem isComplete_iff_of_typeLayout
    (h : LayoutT.value answer (c.typeLayout ty) = .ok (.ok l)) :
    l.isComplete = true ↔ ty.Complete answer := by
  induction ty generalizing l with
  | primitive | bitfield | voidPointer | pointerTo =>
    cases h
    exact iff_of_true rfl trivial
  | record r =>
    obtain ⟨layout, hanswer, rfl⟩ := typeLayout_record_eq_ok h
    rw [Ty.Complete, hanswer]
    cases htail : layout.hasFlexibleTail <;>
      simp [RecordLayout.typeLayout, TypeLayout.isComplete, htail]
  | array element count ih =>
    rcases typeLayout_array_eq_ok h with ⟨size, alignment, hstatic, rfl⟩ | ⟨layout, hlayout, harray⟩
    · exact iff_of_true rfl (complete_of_known hstatic)
    · rw [arrayLayout?_isComplete harray, Bool.and_eq_true, ih hlayout]
      cases count <;> simp [Ty.Complete]

theorem not_isTrailingOnly_iff : l.isTrailingOnly = false ↔ l.isComplete = true := by
  rw [TypeLayout.isTrailingOnly, Bool.not_eq_false']

/-- Of a type whose elements are complete, the layout says whether it is an array of unknown
length. -/
theorem completeness_eq_incomplete_iff
    (h : LayoutT.value answer (c.typeLayout ty) = .ok (.ok l))
    (helements : ∀ element, ty.HasElement element → element.Complete answer) :
    l.completeness = .incomplete ↔ ∃ element, ty = .array element none := by
  cases ty with
  | primitive | bitfield | voidPointer | pointerTo =>
    cases h
    exact iff_of_false (fun h => nomatch h) fun ⟨_, h⟩ => nomatch h
  | record r =>
    obtain ⟨layout, -, rfl⟩ := typeLayout_record_eq_ok h
    cases htail : layout.hasFlexibleTail <;> simp [RecordLayout.typeLayout, htail]
  | array element count =>
    cases count with
    | none =>
      rcases typeLayout_array_eq_ok h with ⟨size, alignment, hstatic, -⟩ | ⟨layout, -, harray⟩
      · cases hstatic
      · cases harray
        exact iff_of_true rfl ⟨element, rfl⟩
    | some count =>
      have hcomplete := (isComplete_iff_of_typeLayout h).mpr (helements element (.outer element _))
      rw [TypeLayout.isComplete, beq_iff_eq] at hcomplete
      simp [hcomplete]

/-- Of a type whose elements are complete, the layout says whether it ends in an array of unknown
length. -/
theorem isTrailingOnly_iff_endsOpen
    (h : LayoutT.value answer (c.typeLayout ty) = .ok (.ok l))
    (helements : ∀ element, ty.HasElement element → element.Complete answer) :
    l.isTrailingOnly = true ↔ ty.EndsOpen answer := by
  rw [← Bool.not_eq_false, not_isTrailingOnly_iff, isComplete_iff_of_typeLayout h]
  cases ty with
  | primitive | bitfield | voidPointer | pointerTo => exact iff_of_false (fun h => h trivial) id
  | record r =>
    obtain ⟨layout, hanswer, -⟩ := typeLayout_record_eq_ok h
    rw [Ty.Complete, Ty.EndsOpen, hanswer]
    cases htail : layout.hasFlexibleTail <;> simp [htail]
  | array element count =>
    cases count with
    | none => exact iff_of_true id trivial
    | some count =>
      exact iff_of_false (fun h => h (helements element (.outer element _))) id

/-- The record that a type with a layout holds has a layout. -/
theorem layout_of_typeLayout {r : RecordId}
    (h : LayoutT.value answer (c.typeLayout ty) = .ok (.ok l)) (hr : ty.containedRecord? = some r) :
    ∃ l', answer r = .ok (.ok l') := by
  induction ty generalizing l with
  | primitive | bitfield | voidPointer | pointerTo => cases hr
  | record r' =>
    cases hr
    obtain ⟨layout, hanswer, -⟩ := typeLayout_record_eq_ok h
    exact ⟨layout, hanswer⟩
  | array element count ih =>
    rcases typeLayout_array_eq_ok h with ⟨size, alignment, hstatic, -⟩ | ⟨layout, hlayout, -⟩
    · rw [containedRecord?_of_known hstatic] at hr
      cases hr
    · exact ih hlayout hr

/-! ### Accepted fields -/

/-- Where the elements of an array pass their check, they are complete at every depth. -/
theorem complete_of_requireSizedElements {member : String} {u : Unit}
    (h : LayoutT.value answer (c.requireSizedElements record member ty) = .ok (.ok u)) :
    ∀ element, ty.HasElement element → element.Complete answer := by
  induction ty with
  | primitive | bitfield | voidPointer | pointerTo | record => exact fun _ h => nomatch h
  | array element count ih =>
    obtain ⟨layout, hlayout, h⟩ := (LayoutT.value_bind_eq_ok_iff answer).mp h
    by_cases htail : layout.isTrailingOnly = true
    · rw [if_pos htail] at h
      cases h
    · rw [if_neg htail] at h
      intro ty helement
      cases helement with
      | outer =>
        rw [Bool.not_eq_true, not_isTrailingOnly_iff] at htail
        exact (isComplete_iff_of_typeLayout (resolveMember_eq_ok_iff.mp hlayout)).mp htail
      | inner _ hinner => exact ih h ty hinner

/-- A member may stand at a position exactly if it is no array of unknown length in a union, and no
type without a known size in front of another field of a struct. -/
theorem checkPosition_eq_ok_iff {i : Nat} {member : String} :
    checkPosition record i member l = .ok () ↔
      (record.kind = .union → l.completeness ≠ .incomplete) ∧
      (record.kind = .struct → l.isTrailingOnly = true → i + 1 = record.fields.length) := by
  rw [checkPosition, Record.isUnion, Record.isLastField]
  cases record.kind <;> cases l.isTrailingOnly <;> simp

/-- An accepted bit-field keeps the rules. -/
theorem admissible_of_resolveBitfield {i : Nat} {name : Option String} {isAnonymous : Bool}
    {b : Bitfield} {placement : Placement}
    (h : LayoutT.value answer (resolveBitfield record i ⟨name, .bitfield b, isAnonymous⟩ b) =
      .ok (.ok placement)) :
    Field.Admissible answer record i ⟨name, .bitfield b, isAnonymous⟩ where
  hasLayout _ hr := nomatch hr
  bitfield _ hb := by
    cases hb
    obtain ⟨hinteger, ⟨-, hzero, hname⟩ | ⟨-, hends, hpos, hle⟩⟩ := resolveBitfield_eq_ok h
    · exact ⟨hinteger, .inl ⟨hzero, hname⟩⟩
    · exact ⟨hinteger, .inr ⟨hends, hpos, hle⟩⟩
  element _ he := nomatch he
  last _ hopen := hopen.elim
  ofUnion _ _ hty := nomatch hty

/-- **An accepted field keeps the rules.** -/
theorem admissible_of_resolveField {i : Nat} {field : Field} {placement : Placement}
    (h : LayoutT.value answer (c.resolveField record i field) = .ok (.ok placement)) :
    field.Admissible answer record i := by
  by_cases hty : ∃ b, field.ty = .bitfield b
  · obtain ⟨b, hb⟩ := hty
    obtain ⟨name, ty, isAnonymous⟩ := field
    cases hb
    exact admissible_of_resolveBitfield h
  · have hne (b : Bitfield) : field.ty ≠ .bitfield b := fun hb => hty ⟨b, hb⟩
    obtain ⟨helements, layout, -, hlayout, hposition⟩ := resolveField_eq_ok hne h
    have hcomplete := complete_of_requireSizedElements helements
    obtain ⟨hunion, hstruct⟩ := checkPosition_eq_ok_iff.mp hposition
    refine ⟨fun r hr => ?_, fun b hb => absurd hb (hne b), hcomplete, fun hkind hopen => ?_,
      fun hkind element hopen => ?_⟩
    · exact layout_of_typeLayout hlayout (Ty.containedRecord?_eq_some_iff.mpr hr)
    · exact hstruct hkind ((isTrailingOnly_iff_endsOpen hlayout hcomplete).mpr hopen)
    · exact hunion hkind ((completeness_eq_incomplete_iff hlayout hcomplete).mpr ⟨element, hopen⟩)

/-! ### Accepted bases -/

/-- A base is the last member exactly if no bases and no fields are left. -/
theorem isLastMember_iff {base : Base} {rest : List Base} {i : Nat}
    (h : base :: rest = record.bases.drop i) :
    (rest.isEmpty && record.fields.isEmpty) = true ↔
      i + 1 = record.bases.length ∧ record.fields = [] := by
  obtain ⟨hget, rfl⟩ := of_cons_eq_drop h
  have hlt := (List.getElem?_eq_some_iff.mp hget).1
  rw [Bool.and_eq_true, List.isEmpty_iff, List.isEmpty_iff, List.drop_eq_nil_iff]
  exact and_congr_left fun _ => ⟨fun hle => Nat.le_antisymm hlt hle, fun heq => heq.ge⟩

/-- **Accepted bases keep the rules.** -/
theorem admissible_of_resolveBases :
    {all : List Base} → {bases : List StructDraft.ResolvedBase} → {i : Nat} →
      all = record.bases.drop i →
      LayoutT.value answer (StructDraft.resolveBases c record all) = .ok (.ok bases) →
        ∀ (j : Nat) (base : Base), all[j]? = some base → base.Admissible answer record (i + j)
  | [], _, _, _, _, _, _, hget => by simp at hget
  | base :: rest, bases, i, hdrop, h, j, base', hget' => by
    obtain ⟨hget, hrest⟩ := of_cons_eq_drop hdrop
    obtain ⟨-, layout, later, -, hvirtual, hanswer, htail, hlater, -⟩ :=
      resolveBases_cons_eq_ok_iff.mp h
    cases j with
    | zero =>
      cases hget'
      refine ⟨⟨layout, hanswer⟩, hvirtual, fun l hl hopen => ?_⟩
      rw [hanswer] at hl
      cases hl
      rw [hopen, Bool.true_and, Bool.not_eq_false'] at htail
      exact (isLastMember_iff hdrop).mp htail
    | succ j =>
      have hadmissible := admissible_of_resolveBases hrest hlater j base' hget'
      rwa [Nat.add_right_comm i 1 j] at hadmissible

/-- The bases with storage are counted by their answers. -/
theorem nonEmptyBases_eq_countP :
    {all : List Base} → {bases : List StructDraft.ResolvedBase} →
      LayoutT.value answer (StructDraft.resolveBases c record all) = .ok (.ok bases) →
        StructDraft.nonEmptyBases bases = all.countP (Base.hasStorage answer)
  | [], _, h => by
    cases h
    rfl
  | base :: rest, _, h => by
    obtain ⟨_, layout, later, -, -, hanswer, -, hlater, rfl⟩ := resolveBases_cons_eq_ok_iff.mp h
    have hstorage : base.hasStorage answer = !layout.isEmpty := by
      rw [Base.hasStorage, hanswer]
    rw [StructDraft.nonEmptyBases, List.countP_cons, List.countP_cons, hstorage]
    exact congrArg (· + _) (nonEmptyBases_eq_countP hlater)

/-! ### Records -/

/-- **A record with accepted bases and fields is layable.** -/
theorem Resolves.layable {bases : List StructDraft.ResolvedBase} {placements : List Placement}
    (h : c.Resolves answer record bases placements)
    (hunion : record.kind = .union → record.bases = []) :
    record.Layable answer c.profile := by
  refine ⟨fun i base hget => ?_, ?_, fun i field hget => ?_⟩
  · cases hkind : record.kind with
    | struct =>
      have hall : record.bases = record.bases.drop 0 := rfl
      have hadmissible := admissible_of_resolveBases hall (h.basesResolve hkind) i base hget
      rwa [Nat.zero_add] at hadmissible
    | union => simp [hunion hkind] at hget
  · cases hkind : record.kind with
    | struct =>
      rw [← nonEmptyBases_eq_countP (h.basesResolve hkind)]
      by_cases hmany : 1 < StructDraft.nonEmptyBases bases
      · exact .inr (h.inheritance hkind hmany)
      · exact .inl (Nat.not_lt.mp hmany)
    | union =>
      rw [hunion hkind]
      exact .inl (Nat.zero_le 1)
  · obtain ⟨placement, -, hvalue⟩ := h.fieldsResolve.exists_getElem? hget
    rw [Nat.zero_add] at hvalue
    exact admissible_of_resolveField hvalue

end LayoutContext

end AbiLayout
