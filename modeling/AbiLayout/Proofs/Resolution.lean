import AbiLayout.Proofs.Agreement.Finish

/-!
# What resolution settles

A type layout is that of a base type, of a pointer or of a record that has an answer, repeated where
the type is an array (`LayoutContext.typeLayout_induction`). What holds of these, and is kept by
arrays, holds of the layout of every type: its alignment is a power of two, or below some bound. A
field that is accepted is resolved to a placement in accord with its type.

## Main definitions

* `LayoutContext.FieldsResolve`: the placements of accepted fields.
* `LayoutContext.FieldsComplete`: fields that are accepted or refused without a trap.
* `Ty.isPointer`: the pointer types.
* `Placement.typeAlignment`: the alignment of a field's type.

## Main results

* `LayoutContext.typeLayout_induction`: the sources of a type layout.
* `LayoutContext.resolveField_cases`: the forms of an accepted field.
* `LayoutContext.resolveField_sound`, `LayoutContext.resolveField_typeAlignment`,
  `LayoutContext.resolveField_bounded`: what is known of its placement.
-/

namespace AbiLayout

/-- The type is a pointer itself, not only an array of pointers. -/
def Ty.isPointer : Ty → Bool
  | voidPointer | pointerTo _ => true
  | _ => false

/-- The alignment of the type of a field. -/
def Placement.typeAlignment : Placement → ByteCount
  | zeroWidth underlying => underlying.alignment
  | bitfield b => b.underlying.alignment
  | bytes layout => layout.alignment

/-- A field whose alignment and size fit in bits fits under every policy. -/
theorem Placement.fits_of_bounded (policy : BitfieldPolicy) :
    {placement : Placement} → 8 * placement.typeAlignment.count < 2 ^ 64 → placement.Bounded →
      placement.Fits policy
  | zeroWidth _, h, _ => fun _ => h
  | bitfield _, _, _ => trivial
  | bytes _, h, hbounded => ⟨h, fun _ => hbounded⟩

namespace LayoutContext

variable {c : LayoutContext} {answer : RecordId → Except Trap Answer}

/-! ### Types -/

section Types

variable {P : TypeLayout → Prop}

theorem arrayLayout?_of_complete {size alignment : ByteCount} {count : Nat} :
    arrayLayout? ⟨size, alignment, .complete⟩ (some count) =
      (Schema.arraySize? size count).map fun width => ⟨width, alignment, .complete⟩ := rfl

/-- What the schema knows of a type comes from base types and pointers, by arrays. -/
theorem staticSize_induction (pointer : P ⟨c.schema.pointerSize, c.schema.pointerAlignment,
      .complete⟩)
    (array : ∀ element count l, P element → arrayLayout? element count = some l → P l) {ty : Ty}
    (primitive : ∀ p ∈ ty.primitives, P ⟨p.size, p.alignment, .complete⟩)
    {size alignment : ByteCount} (h : c.schema.staticSize ty = .known size alignment) :
    P ⟨size, alignment, .complete⟩ := by
  induction ty generalizing size alignment with
  | primitive p =>
    cases h
    exact primitive p (List.mem_singleton_self p)
  | bitfield b =>
    cases h
    exact primitive b.underlying (List.mem_singleton_self b.underlying)
  | voidPointer | pointerTo =>
    cases h
    exact pointer
  | record r => cases h
  | array element count ih =>
    cases count with
    | none => cases h
    | some count =>
      rw [Schema.staticSize] at h
      cases helement : c.schema.staticSize element with
      | known size₀ alignment₀ =>
        simp only [helement] at h
        cases hsize : Schema.arraySize? size₀ count with
        | none => simp [hsize] at h
        | some width =>
          simp only [hsize] at h
          cases h
          refine array _ (some count) _ (ih primitive helement) ?_
          rw [arrayLayout?_of_complete, hsize, Option.map_some]
      | recordDependent | incomplete | tooLarge => simp [helement] at h

/-! A type layout is what the schema knows, or follows the form of the type. -/

theorem typeLayout_of_known {ty : Ty} {size alignment : ByteCount}
    (h : c.schema.staticSize ty = .known size alignment) :
    c.typeLayout ty = pure ⟨size, alignment, .complete⟩ := by
  rw [typeLayout.eq_def, h]

theorem typeLayout_of_tooLarge {ty : Ty} (h : c.schema.staticSize ty = .tooLarge) :
    c.typeLayout ty = c.typeTooLarge ty := by
  rw [typeLayout.eq_def, h]

theorem typeLayout_record (r : RecordId) :
    c.typeLayout (.record r) = RecordLayout.typeLayout <$> LayoutT.layoutOf r := rfl

theorem typeLayout_array {element : Ty} {count : Option Nat}
    (h : c.schema.staticSize (.array element count) = .recordDependent ∨
      c.schema.staticSize (.array element count) = .incomplete) :
    c.typeLayout (.array element count) = (do
      let layout ← c.typeLayout element
      match arrayLayout? layout count with
      | some array => return array
      | none => c.typeTooLarge (.array element count)) := by
  rw [typeLayout.eq_def]
  generalize c.schema.staticSize (.array element count) = size at h ⊢
  rcases h with rfl | rfl <;> rfl

theorem value_typeTooLarge_ne {ty : Ty} {l : TypeLayout} :
    LayoutT.value answer (c.typeTooLarge ty : LayoutT TypeLayout) ≠ .ok (.ok l) := by
  rw [typeTooLarge, LayoutT.value_bind, LayoutT.value_liftM]
  cases c.schema.typeName ty <;> exact fun h => nomatch h

/-- The layout of an array type is known to the schema, or it is that of its elements, repeated. -/
theorem typeLayout_array_eq_ok {element : Ty} {count : Option Nat} {l : TypeLayout}
    (h : LayoutT.value answer (c.typeLayout (.array element count)) = .ok (.ok l)) :
    (∃ size alignment, c.schema.staticSize (.array element count) = .known size alignment ∧
      l = ⟨size, alignment, .complete⟩) ∨
    ∃ layout, LayoutT.value answer (c.typeLayout element) = .ok (.ok layout) ∧
      arrayLayout? layout count = some l := by
  cases hstatic : c.schema.staticSize (.array element count) with
  | known size alignment =>
    rw [typeLayout_of_known hstatic] at h
    cases h
    exact .inl ⟨size, alignment, rfl, rfl⟩
  | tooLarge =>
    rw [typeLayout_of_tooLarge hstatic] at h
    exact absurd h value_typeTooLarge_ne
  | recordDependent | incomplete =>
    rw [typeLayout_array (by simp [hstatic])] at h
    obtain ⟨layout, hlayout, h⟩ := (LayoutT.value_bind_eq_ok_iff answer).mp h
    cases harray : arrayLayout? layout count with
    | none =>
      simp only [harray] at h
      exact absurd h value_typeTooLarge_ne
    | some whole =>
      simp only [harray, LayoutT.value_pure, Except.ok.injEq] at h
      subst h
      exact .inr ⟨layout, hlayout, harray⟩

/-- The layout of a record type is that of the record. -/
theorem typeLayout_record_eq_ok {r : RecordId} {l : TypeLayout}
    (h : LayoutT.value answer (c.typeLayout (.record r)) = .ok (.ok l)) :
    ∃ layout, answer r = .ok (.ok layout) ∧ l = layout.typeLayout := by
  rw [typeLayout_record, LayoutT.value_map, LayoutT.value_layoutOf] at h
  obtain ⟨out, hanswer, h⟩ := except_bind_eq_ok_iff.mp h
  cases out with
  | error e => cases h
  | ok layout =>
    cases h
    exact ⟨layout, hanswer, rfl⟩

/-- **The sources of a type layout.** What holds of base types, of pointers and of the records that
are asked for, and is kept by arrays, holds of the layout of every type. -/
theorem typeLayout_induction (pointer : P ⟨c.schema.pointerSize, c.schema.pointerAlignment,
      .complete⟩)
    (record : ∀ r l, answer r = .ok (.ok l) → P l.typeLayout)
    (array : ∀ element count l, P element → arrayLayout? element count = some l → P l) {ty : Ty}
    (primitive : ∀ p ∈ ty.primitives, P ⟨p.size, p.alignment, .complete⟩) {l : TypeLayout}
    (h : LayoutT.value answer (c.typeLayout ty) = .ok (.ok l)) : P l := by
  induction ty generalizing l with
  | primitive | bitfield | voidPointer | pointerTo =>
    cases h
    exact staticSize_induction pointer array primitive rfl
  | record r =>
    obtain ⟨layout, hanswer, rfl⟩ := typeLayout_record_eq_ok h
    exact record r layout hanswer
  | array element count ih =>
    rcases typeLayout_array_eq_ok h with ⟨size, alignment, hstatic, rfl⟩ | ⟨layout, hlayout, harray⟩
    · exact staticSize_induction pointer array primitive hstatic
    · exact array layout count l (ih primitive hlayout) harray

end Types

/-! ### Sizes and alignments of types -/

/-- The alignment of a type is one of a base type, of pointers or of a record. -/
theorem typeLayout_alignment {P : Nat → Prop} (pointer : P c.schema.pointerAlignment.count)
    (record : ∀ r l, answer r = .ok (.ok l) → P l.alignment.count) {ty : Ty}
    (primitive : ∀ p ∈ ty.primitives, P p.alignment.count) {l : TypeLayout}
    (h : LayoutT.value answer (c.typeLayout ty) = .ok (.ok l)) : P l.alignment.count := by
  refine typeLayout_induction (P := fun l => P l.alignment.count) pointer record ?_ primitive h
  intro element count l hl harray
  cases count with
  | none =>
    cases harray
    exact hl
  | some count =>
    rw [arrayLayout?] at harray
    split at harray
    · obtain ⟨width, -, rfl⟩ := Option.map_eq_some_iff.mp harray
      exact hl
    · cases harray
      exact hl

theorem arraySize?_bounded {size width : ByteCount} {count : Nat}
    (h : Schema.arraySize? size count = some width) : 8 * width.count < 2 ^ 64 :=
  Quantity.fitsInBits_iff.mp (Option.filter_eq_some_iff.mp h).2

/-- The bits of an array fit in 64 bits, whatever its elements are. -/
theorem arrayLayout?_bounded {element l : TypeLayout} {count : Option Nat}
    (h : arrayLayout? element count = some l) : 8 * l.width.count < 2 ^ 64 := by
  cases count with
  | none =>
    cases h
    exact Nat.two_pow_pos 64
  | some count =>
    rw [arrayLayout?] at h
    split at h
    · obtain ⟨width, hwidth, rfl⟩ := Option.map_eq_some_iff.mp h
      exact arraySize?_bounded hwidth
    · cases h
      exact Nat.two_pow_pos 64

theorem staticSize_array_bounded {element : Ty} {count : Option Nat} {size alignment : ByteCount}
    (h : c.schema.staticSize (.array element count) = .known size alignment) :
    8 * size.count < 2 ^ 64 := by
  cases count with
  | none => cases h
  | some count =>
    rw [Schema.staticSize] at h
    cases helement : c.schema.staticSize element with
    | known size₀ alignment₀ =>
      simp only [helement] at h
      cases hsize : Schema.arraySize? size₀ count with
      | none => simp [hsize] at h
      | some width =>
        simp only [hsize] at h
        cases h
        exact arraySize?_bounded hsize
    | recordDependent | incomplete | tooLarge => simp [helement] at h

/-- The bits of a type fit in 64 bits, if it is no pointer or those of pointers do. -/
theorem typeLayout_bounded
    (record : ∀ r l, answer r = .ok (.ok l) → 8 * l.size.count < 2 ^ 64) {ty : Ty}
    (pointer : ty.isPointer = true → 8 * c.schema.pointerSize.count < 2 ^ 64)
    (primitive : ∀ p ∈ ty.primitives, p.bitSize < 2 ^ 64) {l : TypeLayout}
    (h : LayoutT.value answer (c.typeLayout ty) = .ok (.ok l)) : 8 * l.width.count < 2 ^ 64 := by
  cases ty with
  | primitive p =>
    cases h
    exact primitive p (List.mem_singleton_self p)
  | bitfield b =>
    cases h
    exact primitive b.underlying (List.mem_singleton_self b.underlying)
  | voidPointer | pointerTo =>
    cases h
    exact pointer rfl
  | record r =>
    obtain ⟨layout, hanswer, rfl⟩ := typeLayout_record_eq_ok h
    exact record r layout hanswer
  | array element count =>
    rcases typeLayout_array_eq_ok h with ⟨size, alignment, hstatic, rfl⟩ | ⟨layout, -, harray⟩
    · exact staticSize_array_bounded hstatic
    · exact arrayLayout?_bounded harray

/-! ### Members -/

theorem value_blameDependency_ne {α : Type} {record : Record} {ty : Ty} {e : LayoutError} {a : α} :
    LayoutT.value answer (c.blameDependency record ty e : LayoutT α) ≠ .ok (.ok a) := by
  rw [blameDependency, LayoutT.value_bind, LayoutT.value_liftM]
  cases c.schema.typeName ty <;> exact fun h => nomatch h

/-- A member is resolved to the layout of its type. -/
theorem resolveMember_eq_ok_iff {record : Record} {member : String} {ty : Ty} {l : TypeLayout} :
    LayoutT.value answer (c.resolveMember record member ty) = .ok (.ok l) ↔
      LayoutT.value answer (c.typeLayout ty) = .ok (.ok l) := by
  rw [resolveMember, LayoutT.value_tryCatch]
  constructor
  · intro h
    obtain ⟨out, hout, h⟩ := except_bind_eq_ok_iff.mp h
    cases out with
    | ok layout => exact hout.trans h
    | error e =>
      cases e with
      | typeTooLarge => cases h
      | _ => exact absurd h value_blameDependency_ne
  · intro h
    rw [h]
    rfl

/-- An accepted bit-field is over an integer type. It has neither bits nor a name, or it is not
marked as the form without bits, has some, and is no wider than its type. -/
theorem resolveBitfield_eq_ok {record : Record} {i : Nat} {field : Field} {b : Bitfield}
    {placement : Placement}
    (h : LayoutT.value answer (resolveBitfield record i field b) = .ok (.ok placement)) :
    b.underlying.isInteger = true ∧
      (placement = .zeroWidth b.underlying ∧ b.width.count = 0 ∧ field.name = none ∨
        placement = .bitfield b ∧ b.endsUnit = false ∧ 0 < b.width.count ∧
          b.width.count ≤ b.underlying.bitSize) := by
  unfold resolveBitfield at h
  dsimp only at h
  by_cases hinteger : (!b.underlying.isInteger) = true
  · rw [if_pos hinteger] at h
    cases h
  rw [if_neg hinteger] at h
  refine ⟨by simpa using hinteger, ?_⟩
  by_cases hends : (b.endsUnit && !b.width.isZero) = true
  · rw [if_pos hends] at h
    cases h
  rw [if_neg hends] at h
  by_cases hzero : b.width.isZero = true
  · rw [if_pos hzero] at h
    by_cases hnamed : field.isNamed = true
    · rw [if_pos hnamed] at h
      cases h
    · rw [if_neg hnamed] at h
      cases h
      exact .inl ⟨rfl, Quantity.isZero_iff.mp hzero, by simpa [Field.isNamed] using hnamed⟩
  · rw [if_neg hzero] at h
    obtain ⟨max, hmax, h⟩ := (LayoutT.value_bind_eq_ok_iff answer).mp h
    rw [LayoutT.value_liftM_eq_ok_iff, Primitive.bits, Quantity.toBits_eq_ok_iff] at hmax
    by_cases hwide : max < b.width
    · rw [if_pos hwide] at h
      cases h
    · rw [if_neg hwide] at h
      cases h
      have hunmarked : b.endsUnit = false := by simpa [hzero] using hends
      rw [Quantity.isZero_iff] at hzero
      rw [Quantity.lt_iff, Nat.not_lt, hmax] at hwide
      exact .inr ⟨rfl, hunmarked, Nat.pos_of_ne_zero hzero, hwide⟩

/-- An accepted field of another type passes the check of its elements, has the layout of its type,
and may stand where it does. -/
theorem resolveField_eq_ok {record : Record} {i : Nat} {field : Field} {placement : Placement}
    (hty : ∀ b, field.ty ≠ .bitfield b)
    (h : LayoutT.value answer (c.resolveField record i field) = .ok (.ok placement)) :
    LayoutT.value answer (c.requireSizedElements record (field.label i) field.ty) = .ok (.ok ()) ∧
      ∃ layout, placement = .bytes layout ∧
        LayoutT.value answer (c.typeLayout field.ty) = .ok (.ok layout) ∧
        checkPosition record i (field.label i) layout = .ok () := by
  unfold resolveField at h
  split at h
  · exact absurd ‹_› (hty _)
  obtain ⟨⟨⟩, helements, h⟩ := (LayoutT.value_bind_eq_ok_iff answer).mp h
  obtain ⟨layout, hlayout, h⟩ := (LayoutT.value_bind_eq_ok_iff answer).mp h
  cases hcheck : checkPosition record i (field.label i) layout with
  | error e =>
    rw [hcheck] at h
    cases h
  | ok =>
    rw [hcheck] at h
    cases h
    exact ⟨helements, layout, rfl, resolveMember_eq_ok_iff.mp hlayout, hcheck⟩

/-- **The forms of an accepted field.** It is a bit-field without bits, a bit-field that is no wider
than its type, or a member of whole bytes with the layout of its type. -/
theorem resolveField_cases {record : Record} {i : Nat} {field : Field} {motive : Placement → Prop}
    (zeroWidth : ∀ b, field.ty = .bitfield b → b.width.count = 0 →
      motive (.zeroWidth b.underlying))
    (bitfield : ∀ b, field.ty = .bitfield b → 0 < b.width.count →
      b.width.count ≤ b.underlying.bitSize → motive (.bitfield b))
    (bytes : ∀ layout, (∀ b, field.ty ≠ .bitfield b) →
      LayoutT.value answer (c.typeLayout field.ty) = .ok (.ok layout) →
      checkPosition record i (field.label i) layout = .ok () → motive (.bytes layout))
    {placement : Placement}
    (h : LayoutT.value answer (c.resolveField record i field) = .ok (.ok placement)) :
    motive placement := by
  by_cases hty : ∃ b, field.ty = .bitfield b
  · obtain ⟨b, hb⟩ := hty
    rw [resolveField, hb] at h
    rcases (resolveBitfield_eq_ok h).2 with ⟨rfl, hzero, -⟩ | ⟨rfl, -, hpos, hle⟩
    · exact zeroWidth b hb hzero
    · exact bitfield b hb hpos hle
  · have hne (b : Bitfield) : field.ty ≠ .bitfield b := fun hb => hty ⟨b, hb⟩
    obtain ⟨-, layout, rfl, hlayout, hcheck⟩ := resolveField_eq_ok hne h
    exact bytes layout hne hlayout hcheck

section Fields

variable {record : Record} {i : Nat} {field : Field} {placement : Placement}

/-- A placement is in accord with the type of its field. -/
theorem resolveField_matches
    (h : LayoutT.value answer (c.resolveField record i field) = .ok (.ok placement)) :
    placement.Matches field :=
  resolveField_cases (fun _ _ _ => trivial) (fun _ hb _ _ => hb) (fun _ hne _ _ => hne) h

/-- Over usable base types, the placement of an accepted field is sound. -/
theorem resolveField_sound (pointer : c.schema.pointerAlignment.count.isPowerOfTwo)
    (records : ∀ r l, answer r = .ok (.ok l) → l.alignment.count.isPowerOfTwo)
    (primitive : ∀ p ∈ field.ty.primitives, p.Usable)
    (h : LayoutT.value answer (c.resolveField record i field) = .ok (.ok placement)) :
    placement.Sound := by
  have hunderlying (b : Bitfield) (hb : field.ty = .bitfield b) : b.underlying.Usable :=
    primitive b.underlying (hb ▸ List.mem_singleton_self b.underlying)
  refine resolveField_cases (fun b hb _ => hunderlying b hb) ?_ ?_ h
  · exact fun b hb hpos hle => ⟨hunderlying b hb, hpos, hle⟩
  · intro layout _ hlayout _
    exact typeLayout_alignment (P := Nat.isPowerOfTwo) pointer records
      (fun p hp => (primitive p hp).isPowerOfTwo) hlayout

/-- The alignment of a field's type is one of a base type, of pointers or of a record. -/
theorem resolveField_typeAlignment {P : Nat → Prop} (pointer : P c.schema.pointerAlignment.count)
    (records : ∀ r l, answer r = .ok (.ok l) → P l.alignment.count)
    (primitive : ∀ p ∈ field.ty.primitives, P p.alignment.count)
    (h : LayoutT.value answer (c.resolveField record i field) = .ok (.ok placement)) :
    P placement.typeAlignment.count := by
  have hunderlying (b : Bitfield) (hb : field.ty = .bitfield b) :
      P b.underlying.alignment.count :=
    primitive b.underlying (hb ▸ List.mem_singleton_self b.underlying)
  refine resolveField_cases (motive := fun placement => P placement.typeAlignment.count)
    (fun b hb _ => hunderlying b hb) ?_ ?_ h
  · exact fun b hb _ _ => hunderlying b hb
  · exact fun _ _ hlayout _ => typeLayout_alignment pointer records primitive hlayout

/-- The size of a field fits in bits, if the field is no pointer or that of pointers does. -/
theorem resolveField_bounded (records : ∀ r l, answer r = .ok (.ok l) → 8 * l.size.count < 2 ^ 64)
    (pointer : field.ty.isPointer = true → 8 * c.schema.pointerSize.count < 2 ^ 64)
    (primitive : ∀ p ∈ field.ty.primitives, p.bitSize < 2 ^ 64)
    (h : LayoutT.value answer (c.resolveField record i field) = .ok (.ok placement)) :
    placement.Bounded := by
  refine resolveField_cases (fun _ _ _ => trivial) (fun _ _ _ _ => trivial) ?_ h
  exact fun _ _ hlayout _ => typeLayout_bounded records pointer primitive hlayout

/-- A pointer is always accepted. -/
theorem resolveField_of_isPointer (h : field.ty.isPointer = true) :
    LayoutT.value answer (c.resolveField record i field) =
      .ok (.ok (.bytes ⟨c.schema.pointerSize, c.schema.pointerAlignment, .complete⟩)) := by
  obtain ⟨name, ty, isAnonymous⟩ := field
  have hcheck : checkPosition record i (Field.label ⟨name, ty, isAnonymous⟩ i)
      ⟨c.schema.pointerSize, c.schema.pointerAlignment, .complete⟩ = .ok () := by
    rw [checkPosition]
    cases record.isUnion <;> simp [TypeLayout.isTrailingOnly, TypeLayout.isComplete]
  cases ty with
  | voidPointer | pointerTo =>
    refine (LayoutT.value_bind_eq_ok_iff answer).mpr ⟨(), rfl, ?_⟩
    refine (LayoutT.value_bind_eq_ok_iff answer).mpr ⟨_, resolveMember_eq_ok_iff.mpr rfl, ?_⟩
    rw [hcheck]
    rfl
  | primitive | array | bitfield | record => cases h

end Fields

/-! ### All members -/

/-- The fields from position `i` on are accepted, each with its placement. -/
def FieldsResolve (c : LayoutContext) (answer : RecordId → Except Trap Answer) (record : Record) :
    (i : Nat) → List Field → List Placement → Prop
  | _, [], [] => True
  | i, field :: fields, placement :: placements =>
    LayoutT.value answer (c.resolveField record i field) = .ok (.ok placement) ∧
      FieldsResolve c answer record (i + 1) fields placements
  | _, _, _ => False

variable {record : Record}

theorem FieldsResolve.getElem? :
    {fields : List Field} → {i : Nat} → {placements : List Placement} →
      FieldsResolve c answer record i fields placements → {j : Nat} → {field : Field} →
        {placement : Placement} → fields[j]? = some field → placements[j]? = some placement →
          LayoutT.value answer (c.resolveField record (i + j) field) = .ok (.ok placement)
  | [], _, _, _, _, _, _, hget, _ => by simp at hget
  | _ :: _, _, [], _, _, _, _, _, hget' => by simp at hget'
  | _ :: _, _, _ :: _, h, 0, _, _, hget, hget' => by
    cases hget
    cases hget'
    exact h.1
  | _ :: fields, i, _ :: _, h, j + 1, _, _, hget, hget' => by
    rw [List.getElem?_cons_succ] at hget hget'
    have htail := FieldsResolve.getElem? h.2 hget hget'
    rwa [Nat.add_right_comm i 1 j] at htail

/-- Every placement is that of a field. -/
theorem FieldsResolve.exists_field :
    {fields : List Field} → {i : Nat} → {placements : List Placement} →
      FieldsResolve c answer record i fields placements → {placement : Placement} →
        placement ∈ placements → ∃ j field, fields[j]? = some field ∧
          LayoutT.value answer (c.resolveField record (i + j) field) = .ok (.ok placement)
  | [], _, [], _, _, hmem => nomatch hmem
  | [], _, _ :: _, h, _, _ => h.elim
  | field :: fields, i, placement :: placements, h, _, hmem => by
    rcases List.mem_cons.mp hmem with rfl | hmem
    · exact ⟨0, field, rfl, h.1⟩
    · obtain ⟨j, later, hlater, hvalue⟩ := FieldsResolve.exists_field h.2 hmem
      rw [Nat.add_right_comm i 1 j] at hvalue
      exact ⟨j + 1, later, hlater, hvalue⟩

/-- Every field has a placement at its position. -/
theorem FieldsResolve.exists_getElem? :
    {fields : List Field} → {i : Nat} → {placements : List Placement} →
      FieldsResolve c answer record i fields placements → {j : Nat} → {field : Field} →
        fields[j]? = some field → ∃ placement, placements[j]? = some placement ∧
          LayoutT.value answer (c.resolveField record (i + j) field) = .ok (.ok placement)
  | [], _, _, _, _, _, hget => by simp at hget
  | _ :: _, _, [], h, _, _, _ => h.elim
  | _ :: _, _, placement :: _, h, 0, _, hget => by
    cases hget
    exact ⟨placement, rfl, h.1⟩
  | _ :: fields, i, _ :: placements, h, j + 1, _, hget => by
    rw [List.getElem?_cons_succ] at hget
    obtain ⟨later, hlater, hvalue⟩ := FieldsResolve.exists_getElem? h.2 hget
    rw [Nat.add_right_comm i 1 j] at hvalue
    exact ⟨later, hlater, hvalue⟩

/-- There are as many placements as fields. -/
theorem FieldsResolve.length_eq :
    {fields : List Field} → {i : Nat} → {placements : List Placement} →
      FieldsResolve c answer record i fields placements → placements.length = fields.length
  | [], _, [], _ => rfl
  | [], _, _ :: _, h => h.elim
  | _ :: _, _, [], h => h.elim
  | _ :: _, _, _ :: _, h => congrArg Nat.succ h.2.length_eq

/-- Each of the fields from position `i` on is accepted or refused, and `P` holds of the placement
of every field that is accepted. -/
def FieldsComplete (c : LayoutContext) (answer : RecordId → Except Trap Answer) (record : Record)
    (i : Nat) (fields : List Field) (P : Placement → Prop) : Prop :=
  ∀ j field, fields[j]? = some field → ∃ out,
    LayoutT.value answer (c.resolveField record (i + j) field) = .ok out ∧
      ∀ placement, out = .ok placement → P placement

section FieldsComplete

variable {i : Nat} {field : Field} {fields : List Field} {P Q : Placement → Prop}

theorem FieldsComplete.head (h : FieldsComplete c answer record i (field :: fields) P) :
    ∃ out, LayoutT.value answer (c.resolveField record i field) = .ok out ∧
      ∀ placement, out = .ok placement → P placement := h 0 field rfl

theorem FieldsComplete.tail (h : FieldsComplete c answer record i (field :: fields) P) :
    FieldsComplete c answer record (i + 1) fields P := by
  intro j later hget
  rw [Nat.add_right_comm i 1 j]
  exact h (j + 1) later hget

theorem FieldsComplete.imp (h : FieldsComplete c answer record i fields P)
    (hPQ : ∀ placement, P placement → Q placement) :
    FieldsComplete c answer record i fields Q := by
  intro j field hget
  obtain ⟨out, hout, haccepted⟩ := h j field hget
  exact ⟨out, hout, fun placement hp => hPQ placement (haccepted placement hp)⟩

/-- What holds of all that is accepted holds of the placements. -/
theorem FieldsResolve.forall_placement {placements : List Placement}
    (h : FieldsResolve c answer record i fields placements)
    (hcomplete : FieldsComplete c answer record i fields P) :
    ∀ placement ∈ placements, P placement := by
  intro placement hmem
  obtain ⟨j, field, hfield, hvalue⟩ := h.exists_field hmem
  obtain ⟨out, hout, haccepted⟩ := hcomplete j field hfield
  exact haccepted placement (Except.ok.inj (hout.symm.trans hvalue))

/-- What holds of the placements holds of all that is accepted. -/
theorem FieldsResolve.complete {placements : List Placement}
    (h : FieldsResolve c answer record i fields placements)
    (hP : ∀ placement ∈ placements, P placement) :
    FieldsComplete c answer record i fields P := by
  intro j field hget
  obtain ⟨placement, hplacement, hvalue⟩ := h.exists_getElem? hget
  refine ⟨.ok placement, hvalue, ?_⟩
  rintro _ ⟨⟩
  exact hP placement (List.mem_of_getElem? hplacement)

end FieldsComplete

/-- A base is resolved to the layout of its record. -/
theorem resolveBase_eq_ok_iff {r : RecordId} {ty : Ty} {l : RecordLayout} :
    LayoutT.value answer (tryCatch (LayoutT.layoutOf r) (c.blameDependency record ty)) =
      .ok (.ok l) ↔ answer r = .ok (.ok l) := by
  rw [LayoutT.value_tryCatch, LayoutT.value_layoutOf]
  constructor
  · intro h
    obtain ⟨out, hout, h⟩ := except_bind_eq_ok_iff.mp h
    cases out with
    | ok found =>
      cases h
      exact hout
    | error e => exact absurd h value_blameDependency_ne
  · intro h
    rw [h]
    rfl

/-- Bases are accepted one by one: the first is not virtual, has a layout, and stands where a
flexible tail may. -/
theorem resolveBases_cons_eq_ok_iff {base : Base} {rest : List Base}
    {bases : List StructDraft.ResolvedBase} :
    LayoutT.value answer (StructDraft.resolveBases c record (base :: rest)) = .ok (.ok bases) ↔
      ∃ baseRecord layout later, c.schema.record base.record = .ok baseRecord ∧
        base.isVirtual = false ∧ answer base.record = .ok (.ok layout) ∧
        (layout.hasFlexibleTail && !(rest.isEmpty && record.fields.isEmpty)) = false ∧
        LayoutT.value answer (StructDraft.resolveBases c record rest) = .ok (.ok later) ∧
        bases = ⟨baseRecord.label, layout⟩ :: later := by
  rw [StructDraft.resolveBases, LayoutT.value_bind_eq_ok_iff]
  constructor
  · rintro ⟨baseRecord, hbase, h⟩
    rw [LayoutT.value_liftM_eq_ok_iff] at hbase
    dsimp only at h
    cases hvirtual : base.isVirtual with
    | true =>
      rw [if_pos hvirtual] at h
      cases h
    | false =>
      rw [hvirtual, if_neg Bool.false_ne_true] at h
      obtain ⟨layout, hlayout, h⟩ := (LayoutT.value_bind_eq_ok_iff answer).mp h
      cases htail : layout.hasFlexibleTail && !(rest.isEmpty && record.fields.isEmpty) with
      | true =>
        rw [htail, if_pos rfl] at h
        cases h
      | false =>
        rw [htail, if_neg Bool.false_ne_true] at h
        obtain ⟨later, hlater, h⟩ := (LayoutT.value_bind_eq_ok_iff answer).mp h
        cases h
        exact ⟨baseRecord, layout, later, hbase, rfl, resolveBase_eq_ok_iff.mp hlayout, htail,
          hlater, rfl⟩
  · rintro ⟨baseRecord, layout, later, hbase, hvirtual, hanswer, htail, hlater, rfl⟩
    refine ⟨baseRecord, (LayoutT.value_liftM_eq_ok_iff answer).mpr hbase, ?_⟩
    dsimp only
    rw [hvirtual, if_neg Bool.false_ne_true, LayoutT.value_bind_eq_ok_iff]
    refine ⟨layout, resolveBase_eq_ok_iff.mpr hanswer, ?_⟩
    rw [htail, if_neg Bool.false_ne_true, LayoutT.value_bind_eq_ok_iff]
    exact ⟨later, hlater, rfl⟩

/-- An accepted base has a layout. -/
theorem resolveBases_getElem? {record : Record} :
    {all : List Base} → {bases : List StructDraft.ResolvedBase} →
      LayoutT.value answer (StructDraft.resolveBases c record all) = .ok (.ok bases) →
        {i : Nat} → {resolved : StructDraft.ResolvedBase} → bases[i]? = some resolved →
          ∃ base, all[i]? = some base ∧ answer base.record = .ok (.ok resolved.layout)
  | [], _, h, _, _, hget => by
    cases h
    simp at hget
  | base :: rest, bases, h, i, resolved, hget => by
    obtain ⟨baseRecord, layout, later, -, -, hanswer, -, hlater, rfl⟩ :=
      resolveBases_cons_eq_ok_iff.mp h
    cases i with
    | zero =>
      cases hget
      exact ⟨base, rfl, hanswer⟩
    | succ i => exact resolveBases_getElem? hlater hget

end LayoutContext

end AbiLayout
