import AbiLayout.Proofs.Ideal.Comparison
import AbiLayout.Proofs.Questions

/-!
# The same record under two profiles

The resolution of types, bases and fields reads the schema and the answers of records, and nothing
of the profile. So where it accepts something on some answers, it accepts the same on answers that
are within those: alignments, completeness and flexible tails are alike, and what is smaller fits
wherever the larger fits. The outcome then is within the other one.

## Main definitions

* `LayoutT.Simulates`: one program has a related result wherever another one has a result.
* `LayoutContext.AnswersWithin`: records have layouts within those that they have elsewhere.

## Main results

* `LayoutContext.simulates_typeLayout`, `LayoutContext.simulates_resolveField`,
  `LayoutContext.simulates_resolveBases`: resolution under one profile simulates resolution under
  another one.
* `LayoutContext.Resolves.exists_within`: bases and fields that are accepted under one profile are
  accepted under the other.
-/

namespace AbiLayout

/-! ### Simulation -/

namespace LayoutT

variable {α α' β β' : Type} {answer answer' : RecordId → Except Trap Answer}

/-- Wherever `p'` has a result on `answer'`, `p` has one on `answer`, related to it by `R`. -/
def Simulates (answer answer' : RecordId → Except Trap Answer) (R : α → α' → Prop)
    (p : LayoutT α) (p' : LayoutT α') : Prop :=
  ∀ a', value answer' p' = .ok (.ok a') → ∃ a, value answer p = .ok (.ok a) ∧ R a a'

variable {R : α → α' → Prop} {S : β → β' → Prop}

theorem simulates_pure {a : α} {a' : α'} (h : R a a') :
    Simulates answer answer' R (pure a) (pure a') := by
  rintro _ ⟨⟩
  exact ⟨a, rfl, h⟩

theorem simulates_throw (p : LayoutT α) (e : LayoutError) :
    Simulates answer answer' R p (throw e) := fun _ h => nomatch h

theorem simulates_refl (p : LayoutT α) : Simulates answer answer Eq p p := fun a h => ⟨a, h, rfl⟩

theorem simulates_layoutOf {R : RecordLayout → RecordLayout → Prop} {r : RecordId}
    (h : ∀ l', answer' r = .ok (.ok l') → ∃ l, answer r = .ok (.ok l) ∧ R l l') :
    Simulates answer answer' R (layoutOf r) (layoutOf r) := by
  intro l' hl'
  rw [value_layoutOf] at hl' ⊢
  exact h l' hl'

/-- Programs in sequence simulate if their parts do. -/
theorem Simulates.bind {p : LayoutT α} {p' : LayoutT α'} {f : α → LayoutT β}
    {f' : α' → LayoutT β'} (hp : Simulates answer answer' R p p')
    (hf : ∀ a a', R a a' → Simulates answer answer' S (f a) (f' a')) :
    Simulates answer answer' S (p >>= f) (p' >>= f') := by
  intro b' h
  obtain ⟨a', hp', hf'⟩ := (value_bind_eq_ok_iff answer').mp h
  obtain ⟨a, ha, hrel⟩ := hp a' hp'
  obtain ⟨b, hb, hrel⟩ := hf a a' hrel b' hf'
  exact ⟨b, (value_bind_eq_ok_iff answer).mpr ⟨a, ha, hb⟩, hrel⟩

/-- Behind one and the same check, it does not matter which error it ends in. -/
theorem Simulates.guard {p : LayoutT α} {p' : LayoutT α'} (h : Simulates answer answer' R p p')
    {P : Prop} [Decidable P] {e e' : LayoutError} :
    Simulates answer answer' R (if P then throw e else p) (if P then throw e' else p') := by
  split
  · exact simulates_throw _ e'
  · exact h

theorem Simulates.map {p : LayoutT α} {p' : LayoutT α'} {f : α → β} {f' : α' → β'}
    (hp : Simulates answer answer' R p p') (hf : ∀ a a', R a a' → S (f a) (f' a')) :
    Simulates answer answer' S (f <$> p) (f' <$> p') := by
  rw [map_eq_pure_bind, map_eq_pure_bind]
  exact hp.bind fun a a' hrel => simulates_pure (hf a a' hrel)

end LayoutT

/-! ### Arrays and bases -/

theorem Schema.arraySize?_eq_some_iff {size width : ByteCount} {count : Nat} :
    arraySize? size count = some width ↔
      width.count = size.count * count ∧ 8 * width.count < 2 ^ 64 := by
  rw [arraySize?, Option.filter_eq_some_iff, Quantity.scale?, Quantity.fit?_eq_some_iff]
  exact and_congr_right fun _ => Quantity.fitsInBits_iff

/-- An array of smaller elements is no larger. -/
theorem Schema.exists_arraySize? {size size' width' : ByteCount} {count : Nat}
    (h : Below size.count size'.count) (hw : arraySize? size' count = some width') :
    ∃ width, arraySize? size count = some width ∧ Below width.count width'.count := by
  obtain ⟨hcount, hlt⟩ := arraySize?_eq_some_iff.mp hw
  have hbelow := h.mul_left count
  rw [Nat.mul_comm, Nat.mul_comm count, ← hcount] at hbelow
  have hfits : 8 * (size.count * count) < 2 ^ 64 :=
    (Nat.mul_le_mul_left 8 hbelow.le).trans_lt hlt
  exact ⟨⟨size.count * count, by omega⟩, arraySize?_eq_some_iff.mpr ⟨rfl, hfits⟩, hbelow⟩

theorem LayoutContext.exists_arrayLayout? {l l' whole' : TypeLayout} {count : Option Nat}
    (h : l.Within l') (hwhole : arrayLayout? l' count = some whole') :
    ∃ whole, arrayLayout? l count = some whole ∧ whole.Within whole' := by
  have hunsized : (TypeLayout.incomplete l.alignment).Within (.incomplete l'.alignment) :=
    ⟨h.alignment_eq, rfl, .refl 0⟩
  cases count with
  | none =>
    cases hwhole
    exact ⟨_, rfl, hunsized⟩
  | some count =>
    rw [arrayLayout?] at hwhole ⊢
    rw [h.isComplete_eq]
    by_cases hcomplete : l'.isComplete = true
    · rw [if_pos hcomplete] at hwhole ⊢
      obtain ⟨width', hwidth', rfl⟩ := Option.map_eq_some_iff.mp hwhole
      obtain ⟨width, hwidth, hbelow⟩ := Schema.exists_arraySize? h.width hwidth'
      exact ⟨⟨width, l.alignment, .complete⟩, by rw [hwidth, Option.map_some],
        h.alignment_eq, rfl, hbelow⟩
    · rw [if_neg hcomplete] at hwhole ⊢
      cases hwhole
      exact ⟨_, rfl, hunsized⟩

/-- As many bases have storage on both sides. -/
theorem StructDraft.nonEmptyBases_eq {bases bases' : List ResolvedBase}
    (h : List.Forall₂ (fun base base' => base.layout.isEmpty = base'.layout.isEmpty) bases bases') :
    nonEmptyBases bases = nonEmptyBases bases' := by
  induction h with
  | nil => rfl
  | cons hbase _ ih =>
    rw [nonEmptyBases, nonEmptyBases, List.countP_cons, List.countP_cons, hbase]
    exact congrArg (· + _) ih

namespace LayoutContext

open LayoutT

/-- A record with a layout among the answers `answer'` has one within it among the answers
`answer`. -/
def AnswersWithin (answer answer' : RecordId → Except Trap Answer) : Prop :=
  ∀ r l', answer' r = .ok (.ok l') → ∃ l, answer r = .ok (.ok l) ∧ l.Within l'

variable {schema : Schema} {profile profile' : Profile}
  {answer answer' : RecordId → Except Trap Answer} {record : Record}

section Answers

variable (hanswers : AnswersWithin answer answer')

include hanswers

/-! ### Types and fields -/

/-- The layout of a type under one profile simulates that under another one. -/
theorem simulates_typeLayout (ty : Ty) :
    Simulates answer answer' TypeLayout.Within (typeLayout ⟨schema, profile⟩ ty)
      (typeLayout ⟨schema, profile'⟩ ty) := by
  have hknown {ty : Ty} {size alignment : ByteCount}
      (hstatic : schema.staticSize ty = .known size alignment) :
      Simulates answer answer' TypeLayout.Within (typeLayout ⟨schema, profile⟩ ty)
        (typeLayout ⟨schema, profile'⟩ ty) := by
    rw [typeLayout_of_known (c := ⟨schema, profile⟩) hstatic,
      typeLayout_of_known (c := ⟨schema, profile'⟩) hstatic]
    exact simulates_pure (.refl _)
  induction ty with
  | primitive | bitfield | voidPointer | pointerTo => exact hknown rfl
  | record r => exact (simulates_layoutOf (hanswers r)).map fun _ _ h => h.typeLayout
  | array element count ih =>
    cases hstatic : schema.staticSize (.array element count) with
    | known size alignment => exact hknown hstatic
    | tooLarge =>
      intro l' h
      rw [typeLayout_of_tooLarge (c := ⟨schema, profile'⟩) hstatic] at h
      exact absurd h value_typeTooLarge_ne
    | recordDependent | incomplete =>
      have hopen : schema.staticSize (.array element count) = .recordDependent ∨
          schema.staticSize (.array element count) = .incomplete := by simp [hstatic]
      rw [typeLayout_array (c := ⟨schema, profile⟩) hopen,
        typeLayout_array (c := ⟨schema, profile'⟩) hopen]
      refine ih.bind fun l l' hl => ?_
      cases hwhole : arrayLayout? l' count with
      | none => exact fun _ h => absurd h value_typeTooLarge_ne
      | some whole' =>
        obtain ⟨whole, hwhole, hwithin⟩ := exists_arrayLayout? hl hwhole
        rw [hwhole]
        exact simulates_pure hwithin

theorem simulates_resolveMember (member : String) (ty : Ty) :
    Simulates answer answer' TypeLayout.Within
      (resolveMember ⟨schema, profile⟩ record member ty)
      (resolveMember ⟨schema, profile'⟩ record member ty) := by
  intro l' h
  obtain ⟨l, hl, hwithin⟩ := simulates_typeLayout hanswers ty l' (resolveMember_eq_ok_iff.mp h)
  exact ⟨l, resolveMember_eq_ok_iff.mpr hl, hwithin⟩

theorem simulates_requireSizedElements (member : String) (ty : Ty) :
    Simulates answer answer' (fun _ _ => True)
      (requireSizedElements ⟨schema, profile⟩ record member ty)
      (requireSizedElements ⟨schema, profile'⟩ record member ty) := by
  induction ty with
  | primitive | bitfield | voidPointer | pointerTo | record => exact simulates_pure trivial
  | array element count ih =>
    rw [requireSizedElements, requireSizedElements]
    refine (simulates_resolveMember hanswers member element).bind fun l l' hl => ?_
    rw [hl.isTrailingOnly_eq]
    exact ih.guard

omit hanswers in
/-- A bit-field with bits is accepted without looking at any answer. -/
theorem simulates_resolveBitfield (i : Nat) (field : Field) {b : Bitfield}
    (hb : b.width.count ≠ 0) :
    Simulates answer answer' Placement.Within (resolveBitfield record i field b)
      (resolveBitfield record i field b) := by
  intro placement h
  have hconfined : Confined (fun _ => False) (fun _ => True) (resolveBitfield record i field b) :=
    (within_resolveBitfield (T := fun _ => True) (fun _ _ => trivial) i field b).confined
  have hvalue : value answer (resolveBitfield record i field b) =
      value answer' (resolveBitfield record i field b) :=
    LayoutM.Confined.value_congr hconfined fun _ hfalse => hfalse.elim
  refine ⟨placement, hvalue.trans h, ?_⟩
  rcases (resolveBitfield_eq_ok h).2 with ⟨-, hzero, -⟩ | ⟨rfl, -⟩
  · exact absurd hzero hb
  · exact .bitfield b

/-- A field that is no zero-width bit-field is accepted under one profile if it is under another
one. -/
theorem simulates_resolveField (i : Nat) {field : Field}
    (hbits : ∀ b, field.ty = .bitfield b → b.width.count ≠ 0) :
    Simulates answer answer' Placement.Within
      (resolveField ⟨schema, profile⟩ record i field)
      (resolveField ⟨schema, profile'⟩ record i field) := by
  unfold resolveField
  split
  · rename_i b hb
    exact simulates_resolveBitfield i field (hbits b hb)
  · refine (simulates_requireSizedElements hanswers _ _).bind fun _ _ _ => ?_
    refine (simulates_resolveMember hanswers _ _).bind fun l l' hl => ?_
    have hcheck : checkPosition record i (field.label i) l =
        checkPosition record i (field.label i) l' := by
      rw [checkPosition, checkPosition, hl.completeness_eq, hl.isTrailingOnly_eq]
    rw [hcheck]
    cases checkPosition record i (field.label i) l' with
    | error e => exact simulates_throw _ e
    | ok => exact simulates_pure (.bytes hl)

/-- Fields that are accepted under one profile are accepted under another one. -/
theorem FieldsResolve.exists_within :
    {fields : List Field} → (∀ field ∈ fields, ∀ b, field.ty = .bitfield b → b.width.count ≠ 0) →
      {i : Nat} → {placements' : List Placement} →
        FieldsResolve ⟨schema, profile'⟩ answer' record i fields placements' →
          ∃ placements, FieldsResolve ⟨schema, profile⟩ answer record i fields placements ∧
            List.Forall₂ Placement.Within placements placements'
  | [], _, _, [], _ => ⟨[], trivial, .nil⟩
  | [], _, _, _ :: _, h | _ :: _, _, _, [], h => h.elim
  | field :: fields, hbits, i, placement' :: placements', h => by
    obtain ⟨hhead, htail⟩ := List.forall_mem_cons.mp hbits
    obtain ⟨placement, hvalue, hwithin⟩ :=
      simulates_resolveField hanswers i hhead placement' h.1
    obtain ⟨placements, hresolve, hrest⟩ := FieldsResolve.exists_within htail h.2
    exact ⟨placement :: placements, ⟨hvalue, hresolve⟩, .cons hwithin hrest⟩

/-! ### Bases -/

theorem simulates_resolveBases (bases : List Base) :
    Simulates answer answer'
      (List.Forall₂ fun base base' => base.layout.Within base'.layout)
      (StructDraft.resolveBases ⟨schema, profile⟩ record bases)
      (StructDraft.resolveBases ⟨schema, profile'⟩ record bases) := by
  induction bases with
  | nil => exact simulates_pure .nil
  | cons base bases ih =>
    intro resolved' h
    obtain ⟨baseRecord, l', later', hbase, hvirtual, hl', htail, hlater', rfl⟩ :=
      resolveBases_cons_eq_ok_iff.mp h
    obtain ⟨l, hl, hwithin⟩ := hanswers base.record l' hl'
    obtain ⟨later, hlater, hrest⟩ := ih later' hlater'
    refine ⟨⟨baseRecord.label, l⟩ :: later, ?_, .cons hwithin hrest⟩
    rw [← hwithin.hasFlexibleTail_eq] at htail
    exact resolveBases_cons_eq_ok_iff.mpr
      ⟨baseRecord, l, later, hbase, hvirtual, hl, htail, hlater, rfl⟩

/-- Bases and fields that are accepted under one profile are accepted under another one, if this
allows as many bases with storage. -/
theorem Resolves.exists_within {bases' : List StructDraft.ResolvedBase}
    {placements' : List Placement}
    (hallows : profile.allowsMultipleInheritance = profile'.allowsMultipleInheritance)
    (hbits : ∀ field ∈ record.fields, ∀ b, field.ty = .bitfield b → b.width.count ≠ 0)
    (h : Resolves ⟨schema, profile'⟩ answer' record bases' placements') :
    ∃ bases placements, Resolves ⟨schema, profile⟩ answer record bases placements ∧
      List.Forall₂ (fun base base' => base.layout.Within base'.layout) bases bases' ∧
      List.Forall₂ Placement.Within placements placements' := by
  obtain ⟨placements, hfields, hplacements⟩ :
      ∃ placements, FieldsResolve ⟨schema, profile⟩ answer record 0 record.fields placements ∧
        List.Forall₂ Placement.Within placements placements' :=
    FieldsResolve.exists_within hanswers hbits h.fieldsResolve
  cases hkind : record.kind with
  | struct =>
    obtain ⟨bases, hbases, hwithin⟩ :=
      simulates_resolveBases hanswers record.bases bases' (h.basesResolve hkind)
    refine ⟨bases, placements, ⟨fun _ => hbases, fun _ hcount => ?_, ?_, hfields⟩, hwithin,
      hplacements⟩
    · rw [StructDraft.nonEmptyBases_eq (hwithin.imp fun _ _ h => h.isEmpty_eq)] at hcount
      exact hallows.trans (h.inheritance hkind hcount)
    · exact fun hunion => nomatch hkind.symm.trans hunion
  | union =>
    have hne (hstruct : record.kind = .struct) : False := nomatch hkind.symm.trans hstruct
    refine ⟨[], placements, ⟨fun hstruct => (hne hstruct).elim, fun hstruct => (hne hstruct).elim,
      fun _ => rfl, hfields⟩, ?_, hplacements⟩
    rw [h.unionBases hkind]
    exact .nil

end Answers

end LayoutContext

end AbiLayout
