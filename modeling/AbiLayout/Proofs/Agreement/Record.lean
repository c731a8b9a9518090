import AbiLayout.Proofs.Resolution

/-!
# Record layouts agree with ideal ones

The program of a record resolves its bases and fields and places each as soon as it is resolved.
Once all of them are accepted, its outcome is the ideal layout over the same bases and placements,
or the report that the record is too large (`LayoutContext.layoutByKind_agrees`). Conversely, a
record with a layout has accepted bases and fields (`LayoutContext.layoutByKind_resolves`).

## Main definitions

* `LayoutContext.Resolves`: the bases and fields of a record are accepted.
* `StructDraft.DraftAgrees`: the outcome of adding members agrees with an ideal draft.

## Main results

* `LayoutContext.layoutByKind_agrees`, `LayoutContext.layoutByKind_resolves`.
-/

namespace AbiLayout

namespace StructDraft

/-- Behind a run of steps the draft is the ideal one, or the record is reported as too large and the
frontier of the ideal draft is out of range. -/
def DraftAgrees (record : Record) (policy : BitfieldPolicy) (ideal : Ideal.StructDraft) :
    Drafted → Prop
  | (.ok (), d) => d.cursor.policy = policy ∧ d.toIdeal = ideal
  | (.error e, _) =>
    (∃ member, e = .pastRange record member) ∧ 2 ^ 64 ≤ ideal.cursor.frontier

variable {policy : BitfieldPolicy} {record : Record}

/-! ### Bases -/

/-- Placing bases agrees with the ideal steps. -/
theorem placeBases_agrees {bases : List ResolvedBase}
    (hpow : ∀ base ∈ bases, base.layout.alignment.count.isPowerOfTwo) {i : Nat} {d : StructDraft}
    (hd : d.cursor.toIdeal.Valid d.cursor.policy) (hpolicy : d.cursor.policy = policy)
    {out : Drafted} (h : placeBases record i bases d = .ok out) :
    DraftAgrees record policy (d.toIdeal.placeBases policy i bases) out := by
  induction bases generalizing i d with
  | nil =>
    cases h
    exact ⟨hpolicy, rfl⟩
  | cons base bases ih =>
    obtain ⟨hhead, htail⟩ := List.forall_mem_cons.mp hpow
    obtain ⟨⟨step, after⟩, hplace, h⟩ := except_bind_eq_ok_iff.mp h
    have hagrees := placeBase_agrees_of_eq_ok hd hhead hplace
    subst hpolicy
    have hvalid := (Ideal.StructDraft.advances_placeBase (d := d.toIdeal) hd i hhead).valid
    have hrest := Ideal.StructDraft.advances_placeBases bases (i := i + 1) hvalid htail
    cases step with
    | tooLarge =>
      cases h
      have hfrontier : 2 ^ 64 ≤ _ := hagrees
      exact ⟨⟨_, rfl⟩, hfrontier.trans (hrest.frontier_le hvalid)⟩
    | skipped | placedAt =>
      obtain ⟨hpolicy, hideal⟩ := hagrees
      rw [← hideal] at hvalid
      have hagrees := ih htail (hpolicy ▸ hvalid) hpolicy h
      rwa [hideal] at hagrees

/-! ### Fields -/

variable {c : LayoutContext} {answer : RecordId → Except Trap Answer}

/-- A field is resolved, and then placed; warnings do not change the outcome. -/
theorem value_addField (i : Nat) (field : Field) (d : StructDraft) :
    (addField c record i field d).value answer =
      LayoutT.value answer (c.resolveField record i field) >>= fun
        | .error e => .ok (.error e, d)
        | .ok placement => d.place i field.isNamed placement >>= fun
          | (.tooLarge, after) => .ok (.error (.pastRange record (field.label i)), after)
          | (_, after) => .ok (.ok (), after) := by
  rw [addField, LayoutM.value_bind]
  congr 1
  funext out
  cases out with
  | error e => rfl
  | ok placement =>
    dsimp only
    rw [LayoutM.value_bind, LayoutM.value_liftM]
    congr 1
    funext placed
    obtain ⟨step, after⟩ := placed
    cases step with
    | tooLarge | skipped => rfl
    | placedAt offset =>
      dsimp only
      split <;> rfl

/-- Adding accepted fields agrees with the ideal steps. -/
theorem addFieldsFrom_agrees {fields : List Field} {i : Nat} {placements : List Placement}
    (hresolve : c.FieldsResolve answer record i fields placements)
    (hsound : ∀ placement ∈ placements, placement.Sound) {d : StructDraft}
    (hd : d.cursor.toIdeal.Valid d.cursor.policy) (hpolicy : d.cursor.policy = policy)
    {out : Drafted} (h : (addFieldsFrom c record i fields d).value answer = .ok out) :
    DraftAgrees record policy
      (Ideal.placeEach (Ideal.StructDraft.place policy) i fields placements d.toIdeal) out := by
  induction fields generalizing i placements d with
  | nil =>
    cases placements with
    | nil =>
      cases h
      exact ⟨hpolicy, rfl⟩
    | cons placement placements => exact hresolve.elim
  | cons field fields ih =>
    cases placements with
    | nil => exact hresolve.elim
    | cons placement placements =>
      obtain ⟨hvalue, hresolve⟩ := hresolve
      obtain ⟨hhead, htail⟩ := List.forall_mem_cons.mp hsound
      rw [addFieldsFrom, LayoutM.value_bind, value_addField, hvalue, except_ok_bind] at h
      obtain ⟨⟨result, after⟩, hfield, h⟩ := except_bind_eq_ok_iff.mp h
      obtain ⟨⟨step, after'⟩, hplace, hfield⟩ := except_bind_eq_ok_iff.mp hfield
      have hagrees := place_agrees_of_eq_ok hd hhead hplace
      subst hpolicy
      have hvalid := (Ideal.StructDraft.advances_place (d := d.toIdeal) hd i field.isNamed
        hhead).valid
      have hrest := Ideal.StructDraft.advances_placeEach fields (i := i + 1) hvalid htail
      cases step with
      | tooLarge =>
        cases hfield
        cases h
        have hfrontier : 2 ^ 64 ≤ _ := hagrees
        exact ⟨⟨_, rfl⟩, hfrontier.trans (hrest.frontier_le hvalid)⟩
      | skipped | placedAt =>
        cases hfield
        obtain ⟨hpolicy, hideal⟩ := hagrees
        rw [← hideal] at hvalid
        have hagrees := ih hresolve htail (hpolicy ▸ hvalid) hpolicy h
        rwa [hideal] at hagrees

/-- Fields that are all added are all accepted. -/
theorem fieldsResolve_of_addFieldsFrom {fields : List Field} {i : Nat} {d d' : StructDraft}
    (h : (addFieldsFrom c record i fields d).value answer = .ok (.ok (), d')) :
    ∃ placements, c.FieldsResolve answer record i fields placements := by
  induction fields generalizing i d with
  | nil => exact ⟨[], trivial⟩
  | cons field fields ih =>
    rw [addFieldsFrom, LayoutM.value_bind, value_addField] at h
    obtain ⟨⟨result, after⟩, hfield, h⟩ := except_bind_eq_ok_iff.mp h
    obtain ⟨resolved, hvalue, -⟩ := except_bind_eq_ok_iff.mp hfield
    cases result with
    | error e => cases h
    | ok =>
      obtain ⟨placements, hresolve⟩ := ih h
      cases resolved with
      | error e =>
        rw [hvalue] at hfield
        cases hfield
      | ok placement => exact ⟨placement :: placements, hvalue, hresolve⟩

/-! ### Structs -/

/-- Bases are resolved, counted and then placed. -/
theorem value_addBases (d : StructDraft) :
    (addBases c record d).value answer =
      LayoutT.value answer (resolveBases c record record.bases) >>= fun
        | .error e => .ok (.error e, d)
        | .ok bases =>
          if 1 < nonEmptyBases bases && !c.profile.allowsMultipleInheritance then
            .ok (.error (.multipleInheritance record.label (nonEmptyBases bases) c.profile.name), d)
          else placeBases record 0 bases d := by
  rw [addBases, LayoutM.value_bind]
  congr 1
  funext out
  cases out with
  | error e => rfl
  | ok bases =>
    dsimp only
    split
    · rfl
    · rw [LayoutM.value_liftM]

theorem value_structLayout :
    LayoutT.value answer (c.structLayout record) =
      (addBases c record (.start c.profile.bitfieldPolicy)).value answer >>= fun
        | (.error e, _) => .ok (.error e)
        | (.ok (), d) => (addFields c record d).value answer >>= fun
          | (.error e, _) => .ok (.error e)
          | (.ok (), d) => LayoutT.value answer (d.finish c record) := by
  change LayoutM.value answer (addMembers c record _ >>= _) = _
  rw [addMembers, LayoutM.value_bind, LayoutM.value_bind, bind_assoc]
  congr 1
  funext out
  obtain ⟨result, d⟩ := out
  cases result with
  | error e => rfl
  | ok =>
    dsimp only
    congr 1
    funext out
    obtain ⟨result, d⟩ := out
    cases result <;> rfl

end StructDraft

namespace LayoutContext

variable {c : LayoutContext} {answer : RecordId → Except Trap Answer} {record : Record}

/-- The bases and fields of a record are accepted. The bases of a struct have layouts, and there are
not too many of them with storage; a union takes no bases over. -/
structure Resolves (c : LayoutContext) (answer : RecordId → Except Trap Answer) (record : Record)
    (bases : List StructDraft.ResolvedBase) (placements : List Placement) : Prop where
  basesResolve : record.kind = .struct →
    LayoutT.value answer (StructDraft.resolveBases c record record.bases) = .ok (.ok bases)
  inheritance : record.kind = .struct →
    1 < StructDraft.nonEmptyBases bases → c.profile.allowsMultipleInheritance = true
  unionBases : record.kind = .union → bases = []
  fieldsResolve : c.FieldsResolve answer record 0 record.fields placements

variable {bases : List StructDraft.ResolvedBase} {placements : List Placement}

/-- Accepted bases are placed. -/
theorem Resolves.value_addBases (h : c.Resolves answer record bases placements)
    (hkind : record.kind = .struct) (d : StructDraft) :
    (StructDraft.addBases c record d).value answer = StructDraft.placeBases record 0 bases d := by
  rw [StructDraft.value_addBases, h.basesResolve hkind, except_ok_bind]
  refine if_neg ?_
  simpa using h.inheritance hkind

/-- The layout of a struct agrees with the ideal one. -/
theorem structLayout_agrees (hkind : record.kind = .struct)
    (h : c.Resolves answer record bases placements)
    (hpow : ∀ base ∈ bases, base.layout.alignment.count.isPowerOfTwo)
    (hsound : ∀ placement ∈ placements, placement.Sound) {out : Answer}
    (hout : LayoutT.value answer (c.structLayout record) = .ok out) :
    RecordAgrees record (Ideal.structLayout c.profile record bases placements) out := by
  have hstart := Ideal.Cursor.valid_start c.profile.bitfieldPolicy
  have hbases := Ideal.StructDraft.advances_placeBases (i := 0) (d := {}) bases hstart hpow
  have hfields := Ideal.StructDraft.advances_placeEach record.fields (i := 0) hbases.valid hsound
  have hfilled : (Ideal.structDraft c.profile.bitfieldPolicy record bases placements).Filled
      c.profile.bitfieldPolicy bases record.fields placements :=
    Ideal.StructDraft.filled_structDraft hpow hsound
  have hsize := hfilled.frontier_le_size
  rw [StructDraft.value_structLayout, h.value_addBases hkind] at hout
  obtain ⟨⟨result, d⟩, hplaced, hout⟩ := except_bind_eq_ok_iff.mp hout
  have hagrees := StructDraft.placeBases_agrees hpow (d := .start c.profile.bitfieldPolicy)
    hstart rfl hplaced
  cases result with
  | error e =>
    cases hout
    exact ⟨hagrees.1, (hagrees.2.trans (hfields.frontier_le hbases.valid)).trans hsize⟩
  | ok =>
    obtain ⟨hpolicy, hideal⟩ := hagrees
    have hvalid : d.toIdeal.cursor.Valid d.cursor.policy := by
      rw [hideal, hpolicy]
      exact hbases.valid
    obtain ⟨⟨result, d'⟩, hadded, hout⟩ := except_bind_eq_ok_iff.mp hout
    have hagrees := StructDraft.addFieldsFrom_agrees h.fieldsResolve hsound hvalid hpolicy hadded
    rw [hideal] at hagrees
    cases result with
    | error e =>
      cases hout
      exact ⟨hagrees.1, hagrees.2.trans hsize⟩
    | ok =>
      obtain ⟨hpolicy', hideal'⟩ := hagrees
      have hfilled' : d'.toIdeal.Filled c.profile.bitfieldPolicy bases record.fields
          placements := by
        rw [hideal']
        exact hfilled
      obtain ⟨out', hout', hagrees⟩ := StructDraft.finish_agrees answer record hpolicy' hfilled'
      rw [hideal'] at hagrees
      cases hout.symm.trans hout'
      exact hagrees

/-- A struct with a layout has accepted bases and fields. -/
theorem structLayout_resolves {l : RecordLayout} (hkind : record.kind = .struct)
    (h : LayoutT.value answer (c.structLayout record) = .ok (.ok l)) :
    ∃ bases placements, c.Resolves answer record bases placements := by
  rw [StructDraft.value_structLayout] at h
  obtain ⟨⟨result, d⟩, hbases, h⟩ := except_bind_eq_ok_iff.mp h
  cases result with
  | error e => cases h
  | ok =>
    obtain ⟨⟨result, d'⟩, hfields, h⟩ := except_bind_eq_ok_iff.mp h
    cases result with
    | error e => cases h
    | ok =>
      obtain ⟨placements, hresolve⟩ := StructDraft.fieldsResolve_of_addFieldsFrom hfields
      rw [StructDraft.value_addBases] at hbases
      obtain ⟨resolved, hvalue, hbases⟩ := except_bind_eq_ok_iff.mp hbases
      cases resolved with
      | error e => cases hbases
      | ok bases =>
        dsimp only at hbases
        split at hbases
        · cases hbases
        · rename_i hcount
          refine ⟨bases, placements, fun _ => hvalue, fun _ => by simpa using hcount, ?_, hresolve⟩
          exact fun hunion => nomatch hkind.symm.trans hunion

end LayoutContext

/-! ### Unions -/

namespace UnionDraft

variable {c : LayoutContext} {answer : RecordId → Except Trap Answer} {record : Record}

theorem addFieldsFrom_agrees {fields : List Field} {i : Nat} {placements : List Placement}
    (hresolve : c.FieldsResolve answer record i fields placements) {d : UnionDraft}
    {out : Except LayoutError UnionDraft}
    (h : LayoutT.value answer (addFieldsFrom c record i fields d) = .ok out) :
    ∃ d', out = .ok d' ∧
      d'.toIdeal = Ideal.placeEach Ideal.UnionDraft.place i fields placements d.toIdeal := by
  induction fields generalizing i placements d with
  | nil =>
    cases placements with
    | nil =>
      cases h
      exact ⟨d, rfl, rfl⟩
    | cons placement placements => exact hresolve.elim
  | cons field fields ih =>
    cases placements with
    | nil => exact hresolve.elim
    | cons placement placements =>
      obtain ⟨hvalue, hresolve⟩ := hresolve
      rw [addFieldsFrom, LayoutT.value_bind, hvalue, except_ok_bind] at h
      dsimp only at h
      rw [LayoutT.value_bind, LayoutT.value_liftM] at h
      obtain ⟨placed, hplace, h⟩ := except_bind_eq_ok_iff.mp h
      obtain ⟨after, hafter, hplace⟩ := except_bind_eq_ok_iff.mp hplace
      cases hplace
      have hrest := ih hresolve h
      rwa [place_agrees hafter] at hrest

theorem fieldsResolve_of_addFieldsFrom {fields : List Field} {i : Nat} {d d' : UnionDraft}
    (h : LayoutT.value answer (addFieldsFrom c record i fields d) = .ok (.ok d')) :
    ∃ placements, c.FieldsResolve answer record i fields placements := by
  induction fields generalizing i d with
  | nil => exact ⟨[], trivial⟩
  | cons field fields ih =>
    rw [addFieldsFrom] at h
    obtain ⟨placement, hvalue, h⟩ := (LayoutT.value_bind_eq_ok_iff answer).mp h
    obtain ⟨after, -, h⟩ := (LayoutT.value_bind_eq_ok_iff answer).mp h
    obtain ⟨placements, hresolve⟩ := ih h
    exact ⟨placement :: placements, hvalue, hresolve⟩

end UnionDraft

namespace LayoutContext

variable {c : LayoutContext} {answer : RecordId → Except Trap Answer} {record : Record}
  {bases : List StructDraft.ResolvedBase} {placements : List Placement}

/-- Accepted fields are placed in accord with their types. -/
theorem Resolves.matches (h : c.Resolves answer record bases placements) (i : Nat) (field : Field)
    (placement : Placement) (hget : record.fields[i]? = some field)
    (hget' : placements[i]? = some placement) : placement.Matches field :=
  resolveField_matches (h.fieldsResolve.getElem? hget hget')

/-- The draft of a union over accepted fields satisfies the invariant. -/
theorem Resolves.filled_unionDraft (h : c.Resolves answer record bases placements)
    (hsound : ∀ placement ∈ placements, placement.Sound) :
    (Ideal.unionDraft record placements).Filled record.fields placements :=
  Ideal.UnionDraft.filled_unionDraft hsound h.matches

/-- The layout of a union agrees with the ideal one. -/
theorem unionLayout_agrees (h : c.Resolves answer record bases placements)
    (hsound : ∀ placement ∈ placements, placement.Sound) {out : Answer}
    (hout : LayoutT.value answer (c.unionLayout record) = .ok out) :
    RecordAgrees record (Ideal.unionLayout c.profile record placements) out := by
  rw [unionLayout, LayoutT.value_bind] at hout
  obtain ⟨added, hadded, hout⟩ := except_bind_eq_ok_iff.mp hout
  obtain ⟨d, rfl, hideal⟩ := UnionDraft.addFieldsFrom_agrees h.fieldsResolve hadded
  have hideal : d.toIdeal = Ideal.unionDraft record placements := hideal
  have hpow : d.toIdeal.alignment.isPowerOfTwo := by
    rw [hideal]
    exact (h.filled_unionDraft hsound).alignment_isPowerOfTwo
  obtain ⟨out', hout', hagrees⟩ := UnionDraft.finish_agrees answer c record hpow
  rw [hideal] at hagrees
  cases hout.symm.trans hout'
  exact hagrees

/-- A union with a layout has accepted fields. -/
theorem unionLayout_resolves {l : RecordLayout} (hkind : record.kind = .union)
    (h : LayoutT.value answer (c.unionLayout record) = .ok (.ok l)) :
    ∃ placements, c.Resolves answer record [] placements := by
  obtain ⟨d, hadded, -⟩ := (LayoutT.value_bind_eq_ok_iff answer).mp h
  obtain ⟨placements, hresolve⟩ := UnionDraft.fieldsResolve_of_addFieldsFrom hadded
  have hne (hstruct : record.kind = .struct) : False := nomatch hkind.symm.trans hstruct
  exact ⟨placements, fun hstruct => (hne hstruct).elim, fun hstruct => (hne hstruct).elim,
    fun _ => rfl, hresolve⟩

/-! ### Records -/

/-- **The layout of a record agrees with the ideal one.** If its bases and fields are accepted, the
outcome is the ideal layout over them where the bits of its size fit in 64 bits, and otherwise the
report that the record is too large. -/
theorem layoutByKind_agrees (h : c.Resolves answer record bases placements)
    (hpow : ∀ base ∈ bases, base.layout.alignment.count.isPowerOfTwo)
    (hsound : ∀ placement ∈ placements, placement.Sound) {out : Answer}
    (hout : LayoutT.value answer (c.layoutByKind record) = .ok out) :
    RecordAgrees record (Ideal.recordLayout c.profile record bases placements) out := by
  rw [layoutByKind] at hout
  rw [Ideal.recordLayout]
  cases hkind : record.kind with
  | struct =>
    rw [hkind] at hout
    exact structLayout_agrees hkind h hpow hsound hout
  | union =>
    rw [hkind] at hout
    exact unionLayout_agrees h hsound hout

/-- A record with a layout has accepted bases and fields. -/
theorem layoutByKind_resolves {l : RecordLayout}
    (h : LayoutT.value answer (c.layoutByKind record) = .ok (.ok l)) :
    ∃ bases placements, c.Resolves answer record bases placements := by
  rw [layoutByKind] at h
  cases hkind : record.kind with
  | struct =>
    rw [hkind] at h
    exact structLayout_resolves hkind h
  | union =>
    rw [hkind] at h
    exact ⟨[], unionLayout_resolves hkind h⟩

end LayoutContext

end AbiLayout
