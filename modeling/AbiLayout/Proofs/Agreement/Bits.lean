import AbiLayout.Proofs.Agreement.Traps

/-!
# Members that fit in bits

A layout asks for alignments and sizes of members in bits, and traps where these leave the 64-bit
range. Over accepted bases and fields it traps nowhere else: if all of them fit, the record has an
outcome (`LayoutContext.Resolves.exists_layoutByKind`). A record with a layout has members that fit
(`LayoutContext.Resolves.membersFit`).

## Main definitions

* `LayoutContext.MembersFit`: what is asked for in bits fits.
-/

namespace AbiLayout

/-- What fits under some policy fits under the strict one, which does not ask for the alignment of a
zero-width bit-field. -/
theorem Placement.Fits.strictUnits {policy : BitfieldPolicy} :
    {placement : Placement} → placement.Fits policy → placement.Fits .strictUnits
  | zeroWidth _, _ => fun h => nomatch h
  | bitfield _, _ => trivial
  | bytes _, h => h

namespace StructDraft

variable {c : LayoutContext} {answer : RecordId → Except Trap Answer} {record : Record}

/-- Bases that are all placed fit in bits. -/
theorem fits_of_placeBases_eq_ok {bases : List ResolvedBase} {i : Nat} {d d' : StructDraft}
    (h : placeBases record i bases d = .ok (.ok (), d')) :
    ∀ base ∈ bases,
      8 * base.layout.alignment.count < 2 ^ 64 ∧ 8 * base.layout.size.count < 2 ^ 64 := by
  induction bases generalizing i d with
  | nil => exact fun _ hmem => nomatch hmem
  | cons base bases ih =>
    obtain ⟨⟨step, after⟩, hplace, h⟩ := except_bind_eq_ok_iff.mp h
    refine List.forall_mem_cons.mpr ⟨fits_of_placeBase_eq_ok hplace, ?_⟩
    cases step with
    | tooLarge => cases h
    | skipped | placedAt => exact ih h

/-- Fields that are all added fit in bits. -/
theorem fits_of_addFieldsFrom_eq_ok {fields : List Field} {i : Nat} {placements : List Placement}
    (hresolve : c.FieldsResolve answer record i fields placements) {d d' : StructDraft}
    (h : (addFieldsFrom c record i fields d).value answer = .ok (.ok (), d')) :
    ∀ placement ∈ placements, placement.Fits .strictUnits := by
  induction fields generalizing i placements d with
  | nil =>
    cases placements with
    | nil => exact fun _ hmem => nomatch hmem
    | cons placement placements => exact hresolve.elim
  | cons field fields ih =>
    cases placements with
    | nil => exact hresolve.elim
    | cons placement placements =>
      obtain ⟨hvalue, hresolve⟩ := hresolve
      rw [addFieldsFrom, LayoutM.value_bind, value_addField, hvalue, except_ok_bind] at h
      obtain ⟨⟨result, after⟩, hfield, h⟩ := except_bind_eq_ok_iff.mp h
      obtain ⟨placed, hplace, -⟩ := except_bind_eq_ok_iff.mp hfield
      refine List.forall_mem_cons.mpr ⟨(fits_of_place_eq_ok hplace).strictUnits, ?_⟩
      cases result with
      | error e => cases h
      | ok => exact ih hresolve h

end StructDraft

namespace UnionDraft

variable {c : LayoutContext} {answer : RecordId → Except Trap Answer} {record : Record}

/-- A field is placed in a union without a trap only where its size fits in bits. -/
theorem bounded_of_place_eq_ok {i : Nat} {isNamed : Bool} {d d' : UnionDraft} :
    {placement : Placement} → d.place i isNamed placement = .ok d' → placement.Bounded
  | .zeroWidth _, _ | .bitfield _, _ => trivial
  | .bytes _, h => by
    obtain ⟨length, hlength, -⟩ := except_bind_eq_ok_iff.mp h
    rw [Quantity.toBits_eq_ok_iff] at hlength
    exact hlength.symm.trans_lt length.count_lt

/-- The sizes of fields that are all added to a union fit in bits. -/
theorem bounded_of_addFieldsFrom_eq_ok {fields : List Field} {i : Nat}
    {placements : List Placement} (hresolve : c.FieldsResolve answer record i fields placements)
    {d d' : UnionDraft}
    (h : LayoutT.value answer (addFieldsFrom c record i fields d) = .ok (.ok d')) :
    ∀ placement ∈ placements, placement.Bounded := by
  induction fields generalizing i placements d with
  | nil =>
    cases placements with
    | nil => exact fun _ hmem => nomatch hmem
    | cons placement placements => exact hresolve.elim
  | cons field fields ih =>
    cases placements with
    | nil => exact hresolve.elim
    | cons placement placements =>
      obtain ⟨hvalue, hresolve⟩ := hresolve
      rw [addFieldsFrom] at h
      obtain ⟨resolved, hresolved, h⟩ := (LayoutT.value_bind_eq_ok_iff answer).mp h
      cases hvalue.symm.trans hresolved
      obtain ⟨after, hafter, h⟩ := (LayoutT.value_bind_eq_ok_iff answer).mp h
      rw [LayoutT.value_liftM_eq_ok_iff] at hafter
      exact List.forall_mem_cons.mpr ⟨bounded_of_place_eq_ok hafter, ih hresolve h⟩

end UnionDraft

namespace LayoutContext

/-- What the layout of a record asks for in bits fits in 64 bits. These are the alignments and sizes
of the members of a struct, and the sizes of those of a union. -/
structure MembersFit (policy : BitfieldPolicy) (record : Record)
    (bases : List StructDraft.ResolvedBase) (placements : List Placement) : Prop where
  base : record.kind = .struct → ∀ base ∈ bases,
    8 * base.layout.alignment.count < 2 ^ 64 ∧ 8 * base.layout.size.count < 2 ^ 64
  field : record.kind = .struct → ∀ placement ∈ placements, placement.Fits policy
  unionField : record.kind = .union → ∀ placement ∈ placements, placement.Bounded

variable {c : LayoutContext} {answer : RecordId → Except Trap Answer} {record : Record}
  {bases : List StructDraft.ResolvedBase} {placements : List Placement}

/-- The members of a record with a layout fit in bits. -/
theorem Resolves.membersFit (h : c.Resolves answer record bases placements) {l : RecordLayout}
    (hl : LayoutT.value answer (c.layoutByKind record) = .ok (.ok l)) :
    MembersFit .strictUnits record bases placements := by
  rw [layoutByKind] at hl
  cases hkind : record.kind with
  | struct =>
    rw [hkind] at hl
    dsimp only at hl
    rw [StructDraft.value_structLayout, h.value_addBases hkind] at hl
    obtain ⟨⟨result, d⟩, hbases, hl⟩ := except_bind_eq_ok_iff.mp hl
    cases result with
    | error e => cases hl
    | ok =>
      obtain ⟨⟨result, d'⟩, hfields, hl⟩ := except_bind_eq_ok_iff.mp hl
      cases result with
      | error e => cases hl
      | ok =>
        refine ⟨fun _ => StructDraft.fits_of_placeBases_eq_ok hbases,
          fun _ => StructDraft.fits_of_addFieldsFrom_eq_ok h.fieldsResolve hfields, ?_⟩
        exact fun hunion => by cases hkind.symm.trans hunion
  | union =>
    rw [hkind] at hl
    obtain ⟨d, hadded, -⟩ := (LayoutT.value_bind_eq_ok_iff answer).mp hl
    have hne (hstruct : record.kind = .struct) : False := by cases hkind.symm.trans hstruct
    exact ⟨fun hstruct => (hne hstruct).elim, fun hstruct => (hne hstruct).elim,
      fun _ => UnionDraft.bounded_of_addFieldsFrom_eq_ok h.fieldsResolve hadded⟩

/-- A record is laid out without a trap over accepted members that fit in bits. -/
theorem Resolves.exists_layoutByKind (h : c.Resolves answer record bases placements)
    (hpow : ∀ base ∈ bases, base.layout.alignment.count.isPowerOfTwo)
    (hsound : ∀ placement ∈ placements, placement.Sound)
    (hfit : MembersFit c.profile.bitfieldPolicy record bases placements) :
    ∃ out, LayoutT.value answer (c.layoutByKind record) = .ok out := by
  rw [layoutByKind]
  cases hkind : record.kind with
  | struct =>
    refine structLayout_eq_ok ⟨_, h.basesResolve hkind, ?_⟩
      (h.fieldsResolve.complete fun placement hmem =>
        ⟨hsound placement hmem, hfit.field hkind placement hmem⟩)
    rintro _ ⟨⟩ base hmem
    exact ⟨hpow base hmem, hfit.base hkind base hmem⟩
  | union =>
    exact unionLayout_eq_ok (h.fieldsResolve.complete fun placement hmem =>
      ⟨hsound placement hmem, hfit.unionField hkind placement hmem⟩)

end LayoutContext

end AbiLayout
