import AbiLayout.Proofs.Agreement.Record

/-!
# Where layouts trap

A member that does not fit in bits is a trap, and an overflow is the only trap there is. The layout
of a record comes to such a member only where all in front of it is accepted and placed: a member
that is refused before, or that leaves the range before, is reported and ends the layout. So a
struct traps exactly where its fields lead to one that does not fit in bits, with the frontier of
the members in front of it in range. In a union all fields start at zero, so it is enough that the
fields lead to one whose size does not fit.

## Main definitions

* `LayoutContext.FieldsLeadTo`: a field is accepted, as all fields in front of it are.

## Main results

* `LayoutContext.structLayout_eq_error_iff`, `LayoutContext.unionLayout_eq_error_iff`: where the
  layouts of structs and of unions trap.
* `LayoutContext.structLayout_eq_ok`, `LayoutContext.unionLayout_eq_ok`: there is no trap where
  everything fits in bits.
-/

namespace AbiLayout

/-! ### Fields in front of a field -/

namespace LayoutContext

variable {c : LayoutContext} {answer : RecordId → Except Trap Answer} {record : Record}

/-- Some field from position `i` on is accepted, as all fields in front of it are, and `P` holds of
these, of their placements and of the placement of the field. -/
def FieldsLeadTo (c : LayoutContext) (answer : RecordId → Except Trap Answer) (record : Record)
    (i : Nat) (fields : List Field) (P : List Field → List Placement → Placement → Prop) : Prop :=
  ∃ before field after placements placement, fields = before ++ field :: after ∧
    FieldsResolve c answer record i before placements ∧
    LayoutT.value answer (c.resolveField record (i + before.length) field) = .ok (.ok placement) ∧
    P before placements placement

variable {i : Nat} {field : Field} {fields before after : List Field} {Q : Placement → Prop}
  {P : List Field → List Placement → Placement → Prop}

theorem not_fieldsLeadTo_nil : ¬FieldsLeadTo c answer record i [] P := by
  rintro ⟨before, field, after, -, -, h, -⟩
  simp at h

/-- The field that fields lead to is the first one, or the fields behind it lead there. -/
theorem fieldsLeadTo_cons_iff :
    FieldsLeadTo c answer record i (field :: fields) P ↔ ∃ placement,
      LayoutT.value answer (c.resolveField record i field) = .ok (.ok placement) ∧
        (P [] [] placement ∨ FieldsLeadTo c answer record (i + 1) fields fun before placements =>
          P (field :: before) (placement :: placements)) := by
  constructor
  · rintro ⟨before, met, after, placements, placement, hfields, hresolve, hvalue, hP⟩
    cases before with
    | nil =>
      cases hfields
      cases placements with
      | nil => exact ⟨placement, hvalue, .inl hP⟩
      | cons p ps => exact hresolve.elim
    | cons head before =>
      cases hfields
      cases placements with
      | nil => exact hresolve.elim
      | cons p ps =>
        rw [List.length_cons, ← Nat.add_assoc, Nat.add_right_comm] at hvalue
        exact ⟨p, hresolve.1,
          .inr ⟨before, met, after, ps, placement, rfl, hresolve.2, hvalue, hP⟩⟩
  · rintro ⟨p, hhead, hP | ⟨before, met, after, ps, placement, rfl, hresolve, hvalue, hP⟩⟩
    · exact ⟨[], field, fields, [], p, rfl, trivial, hhead, hP⟩
    · refine ⟨field :: before, met, after, p :: ps, placement, rfl, ⟨hhead, hresolve⟩, ?_, hP⟩
      rwa [List.length_cons, ← Nat.add_assoc, Nat.add_right_comm]

theorem FieldsComplete.of_append
    (h : FieldsComplete c answer record i (before ++ after) Q) :
    FieldsComplete c answer record i before Q := by
  intro j field hget
  have hlt := (List.getElem?_eq_some_iff.mp hget).1
  exact h j field ((List.getElem?_append_left hlt).trans hget)

/-- What holds of all that is accepted holds of the field that fields lead to, and of all in front
of it. -/
theorem FieldsLeadTo.forall_placement (h : FieldsLeadTo c answer record i fields P)
    (hcomplete : FieldsComplete c answer record i fields Q) :
    ∃ before placements placement, (∀ p ∈ placements, Q p) ∧ Q placement ∧
      P before placements placement := by
  obtain ⟨before, met, after, placements, placement, rfl, hresolve, hvalue, hP⟩ := h
  obtain ⟨out, hout, haccepted⟩ := hcomplete before.length met (by simp)
  exact ⟨before, placements, placement, hresolve.forall_placement hcomplete.of_append,
    haccepted placement (Except.ok.inj (hout.symm.trans hvalue)), hP⟩

end LayoutContext

/-! ### Structs -/

namespace StructDraft

variable {policy : BitfieldPolicy} {c : LayoutContext} {answer : RecordId → Except Trap Answer}
  {record : Record}

/-- Bases whose alignments and sizes fit in bits are placed without a trap. -/
theorem placeBases_eq_ok (record : Record) {bases : List ResolvedBase}
    (hpow : ∀ base ∈ bases, base.layout.alignment.count.isPowerOfTwo)
    (hfits : ∀ base ∈ bases, 8 * base.layout.alignment.count < 2 ^ 64 ∧
      8 * base.layout.size.count < 2 ^ 64) {i : Nat} {d : StructDraft}
    (hd : d.cursor.toIdeal.Valid d.cursor.policy) :
    ∃ out, placeBases record i bases d = .ok out := by
  induction bases generalizing i d with
  | nil => exact ⟨_, rfl⟩
  | cons base bases ih =>
    obtain ⟨hhead, htail⟩ := List.forall_mem_cons.mp hpow
    obtain ⟨⟨halign, hsize⟩, hfits⟩ := List.forall_mem_cons.mp hfits
    obtain ⟨⟨step, after⟩, hplace, hagrees⟩ := placeBase_agrees hd i hhead halign hsize
    have hvalid := (Ideal.StructDraft.advances_placeBase (d := d.toIdeal) hd i hhead).valid
    rw [placeBases, hplace, except_ok_bind]
    cases step with
    | tooLarge => exact ⟨_, rfl⟩
    | skipped | placedAt =>
      obtain ⟨hpolicy, hideal⟩ := hagrees
      rw [← hideal] at hvalid
      exact ih htail hfits (hpolicy ▸ hvalid)

/-- No field is met in range behind a draft that is out of range. -/
theorem not_fieldsLeadTo_of_le {fields : List Field} {i : Nat} {ideal : Ideal.StructDraft}
    (hvalid : ideal.cursor.Valid policy) (hle : 2 ^ 64 ≤ ideal.cursor.frontier)
    (htotal : c.FieldsComplete answer record i fields Placement.Sound) :
    ¬c.FieldsLeadTo answer record i fields fun before placements placement =>
      ¬placement.Fits policy ∧ (Ideal.placeEach (Ideal.StructDraft.place policy) i before placements
        ideal).cursor.frontier < 2 ^ 64 := by
  intro hlead
  obtain ⟨before, placements, placement, hsound, -, -, hlt⟩ := hlead.forall_placement htotal
  have hadvances := Ideal.StructDraft.advances_placeEach before (i := i) hvalid hsound
  exact absurd hlt (Nat.not_lt.mpr (hle.trans (hadvances.frontier_le hvalid)))

/-- **Fields trap exactly where they lead to one that does not fit in bits**, with the members in
front of it in range. -/
theorem addFieldsFrom_eq_error_iff {fields : List Field} {i : Nat}
    (htotal : c.FieldsComplete answer record i fields Placement.Sound) {d : StructDraft}
    (hd : d.cursor.toIdeal.Valid policy) (hpolicy : d.cursor.policy = policy) {t : Trap} :
    (addFieldsFrom c record i fields d).value answer = .error t ↔ t = .overflow ∧
      c.FieldsLeadTo answer record i fields fun before placements placement =>
        ¬placement.Fits policy ∧ (Ideal.placeEach (Ideal.StructDraft.place policy) i before
          placements d.toIdeal).cursor.frontier < 2 ^ 64 := by
  induction fields generalizing i d with
  | nil =>
    exact iff_of_false (by simp [addFieldsFrom]) fun h => LayoutContext.not_fieldsLeadTo_nil h.2
  | cons field fields ih =>
    obtain ⟨resolved, hvalue, hsound⟩ := htotal.head
    rw [addFieldsFrom, LayoutM.value_bind, value_addField, hvalue, except_ok_bind,
      LayoutContext.fieldsLeadTo_cons_iff]
    simp only [hvalue, Except.ok.injEq]
    cases resolved with
    | error e => exact iff_of_false (by simp) (by simp)
    | ok placement =>
      have hsound := hsound placement rfl
      subst hpolicy
      simp only [Except.ok.injEq, exists_eq_left']
      by_cases hfits : placement.Fits d.cursor.policy
      · obtain ⟨⟨step, after⟩, hplace, hagrees⟩ := place_agrees hd i field.isNamed hsound hfits
        have hvalid := (Ideal.StructDraft.advances_place (d := d.toIdeal) hd i field.isNamed
          hsound).valid
        rw [hplace, except_ok_bind]
        simp only [hfits, not_true_eq_false, false_and, false_or]
        cases step with
        | tooLarge =>
          refine iff_of_false (by simp) fun h => ?_
          exact not_fieldsLeadTo_of_le hvalid hagrees htotal.tail h.2
        | skipped | placedAt =>
          obtain ⟨hpolicy, hideal⟩ := hagrees
          rw [← hideal] at hvalid
          have hrest := ih htotal.tail hvalid hpolicy
          rwa [hideal] at hrest
      · have hhere : (Ideal.placeEach (Ideal.StructDraft.place d.cursor.policy) i [] []
            d.toIdeal).cursor.frontier < 2 ^ 64 := d.cursor.frontier_toIdeal_lt
        rw [place_eq_overflow hfits]
        constructor
        · rintro ⟨⟩
          exact ⟨rfl, .inl ⟨hfits, hhere⟩⟩
        · rintro ⟨rfl, -⟩
          rfl

/-- Behind accepted members that are all placed, a draft is finished without a trap. -/
theorem finish_eq_ok_of_addFields {bases : List ResolvedBase} {d d' : StructDraft}
    (hpow : ∀ base ∈ bases, base.layout.alignment.count.isPowerOfTwo)
    (hplaced : placeBases record 0 bases (.start c.profile.bitfieldPolicy) = .ok (.ok (), d))
    (hfields : c.FieldsComplete answer record 0 record.fields Placement.Sound)
    (hadded : (addFields c record d).value answer = .ok (.ok (), d')) :
    ∃ out, LayoutT.value answer (d'.finish c record) = .ok out := by
  have hstart := Ideal.Cursor.valid_start c.profile.bitfieldPolicy
  obtain ⟨hpolicy, hideal⟩ := placeBases_agrees hpow (d := .start c.profile.bitfieldPolicy)
    hstart rfl hplaced
  have hvalid : d.toIdeal.cursor.Valid d.cursor.policy := by
    rw [hideal, hpolicy]
    exact (Ideal.StructDraft.advances_placeBases (i := 0) (d := {}) bases hstart hpow).valid
  obtain ⟨placements, hresolve⟩ := fieldsResolve_of_addFieldsFrom hadded
  have hsound := hresolve.forall_placement hfields
  obtain ⟨hpolicy', hideal'⟩ := addFieldsFrom_agrees hresolve hsound hvalid hpolicy hadded
  have hfilled : d'.toIdeal.Filled c.profile.bitfieldPolicy bases record.fields placements := by
    rw [hideal', hideal]
    exact Ideal.StructDraft.filled_structDraft hpow hsound
  obtain ⟨out, hout, -⟩ := finish_agrees answer record hpolicy' hfilled
  exact ⟨out, hout⟩

/-- **Behind bases that are all placed**, a struct traps exactly where its fields do. -/
theorem addFields_finish_eq_error_iff {bases : List ResolvedBase} {d : StructDraft}
    (hpow : ∀ base ∈ bases, base.layout.alignment.count.isPowerOfTwo)
    (hplaced : placeBases record 0 bases (.start c.profile.bitfieldPolicy) = .ok (.ok (), d))
    (hfields : c.FieldsComplete answer record 0 record.fields Placement.Sound) {t : Trap} :
    ((addFields c record d).value answer >>= fun
      | (.error e, _) => .ok (.error e)
      | (.ok (), d) => LayoutT.value answer (d.finish c record)) = .error t ↔ t = .overflow ∧
        c.FieldsLeadTo answer record 0 record.fields fun before placements placement =>
          ¬placement.Fits c.profile.bitfieldPolicy ∧
          (Ideal.structDraft c.profile.bitfieldPolicy { record with fields := before } bases
            placements).cursor.frontier < 2 ^ 64 := by
  have hstart := Ideal.Cursor.valid_start c.profile.bitfieldPolicy
  obtain ⟨hpolicy, hideal⟩ := placeBases_agrees hpow (d := .start c.profile.bitfieldPolicy)
    hstart rfl hplaced
  have hideal : d.toIdeal = Ideal.StructDraft.placeBases c.profile.bitfieldPolicy 0 bases {} :=
    hideal
  have hvalid := (Ideal.StructDraft.advances_placeBases (i := 0) (d := {}) bases hstart hpow).valid
  rw [← hideal] at hvalid
  have hiff := addFieldsFrom_eq_error_iff hfields hvalid hpolicy (t := t)
  rw [hideal] at hiff
  rw [except_bind_eq_error_iff]
  refine Iff.trans (or_iff_left ?_) hiff
  rintro ⟨⟨result, d'⟩, hadded, hfinish⟩
  cases result with
  | error e => cases hfinish
  | ok =>
    obtain ⟨out, hout⟩ := finish_eq_ok_of_addFields hpow hplaced hfields hadded
    cases hout.symm.trans hfinish

end StructDraft

namespace LayoutContext

variable {c : LayoutContext} {answer : RecordId → Except Trap Answer} {record : Record}

/-- The bases of a struct are accepted or refused, and what is accepted is aligned to powers of two
and fits in bits. -/
def BasesComplete (c : LayoutContext) (answer : RecordId → Except Trap Answer) (record : Record) :
    Prop :=
  ∃ out, LayoutT.value answer (StructDraft.resolveBases c record record.bases) = .ok out ∧
    ∀ bases, out = .ok bases → ∀ base ∈ bases, base.layout.alignment.count.isPowerOfTwo ∧
      8 * base.layout.alignment.count < 2 ^ 64 ∧ 8 * base.layout.size.count < 2 ^ 64

/-- **Where a struct traps.** Its bases are accepted, and its fields lead to one that does not fit
in bits, with the members in front of it in range. -/
theorem structLayout_eq_error_iff (hbases : c.BasesComplete answer record)
    (hfields : c.FieldsComplete answer record 0 record.fields Placement.Sound) {t : Trap} :
    LayoutT.value answer (c.structLayout record) = .error t ↔ t = .overflow ∧ ∃ bases,
      LayoutT.value answer (StructDraft.resolveBases c record record.bases) = .ok (.ok bases) ∧
      (1 < StructDraft.nonEmptyBases bases → c.profile.allowsMultipleInheritance = true) ∧
      c.FieldsLeadTo answer record 0 record.fields fun before placements placement =>
        ¬placement.Fits c.profile.bitfieldPolicy ∧
        (Ideal.structDraft c.profile.bitfieldPolicy { record with fields := before } bases
          placements).cursor.frontier < 2 ^ 64 := by
  obtain ⟨resolved, hresolved, hfits⟩ := hbases
  rw [StructDraft.value_structLayout, StructDraft.value_addBases, hresolved, except_ok_bind]
  simp only [Except.ok.injEq]
  cases resolved with
  | error e => exact iff_of_false (by simp) (by simp)
  | ok bases =>
    have hbases := hfits bases rfl
    have hpow (base : StructDraft.ResolvedBase) (hbase : base ∈ bases) := (hbases base hbase).1
    have hstart := Ideal.Cursor.valid_start c.profile.bitfieldPolicy
    simp only [Except.ok.injEq, exists_eq_left']
    by_cases hmany : (1 < StructDraft.nonEmptyBases bases &&
        !c.profile.allowsMultipleInheritance) = true
    · obtain ⟨hcount, hforbidden⟩ : 1 < StructDraft.nonEmptyBases bases ∧
          c.profile.allowsMultipleInheritance = false := by simpa using hmany
      rw [if_pos hmany]
      refine iff_of_false (by simp) fun h => ?_
      exact Bool.false_ne_true (hforbidden.symm.trans (h.2.1 hcount))
    rw [if_neg hmany]
    have hallowed : 1 < StructDraft.nonEmptyBases bases →
        c.profile.allowsMultipleInheritance = true := by simpa using hmany
    obtain ⟨⟨result, d⟩, hplaced⟩ := StructDraft.placeBases_eq_ok record hpow
      (fun base hbase => (hbases base hbase).2) (i := 0) (d := .start c.profile.bitfieldPolicy)
      hstart
    rw [hplaced, except_ok_bind]
    cases result with
    | error e =>
      have hagrees := StructDraft.placeBases_agrees hpow (d := .start c.profile.bitfieldPolicy)
        hstart rfl hplaced
      have hvalid :=
        (Ideal.StructDraft.advances_placeBases (i := 0) (d := {}) bases hstart hpow).valid
      exact iff_of_false (by simp) fun h =>
        StructDraft.not_fieldsLeadTo_of_le hvalid hagrees.2 hfields h.2.2
    | ok =>
      refine (StructDraft.addFields_finish_eq_error_iff hpow hplaced hfields).trans ?_
      exact and_congr_right fun _ => (and_iff_right hallowed).symm

/-- A struct is laid out without a trap, if what is accepted fits in bits. -/
theorem structLayout_eq_ok (hbases : c.BasesComplete answer record)
    (hfields : c.FieldsComplete answer record 0 record.fields fun placement =>
      placement.Sound ∧ placement.Fits c.profile.bitfieldPolicy) :
    ∃ out, LayoutT.value answer (c.structLayout record) = .ok out := by
  refine except_exists_ok fun t ht => ?_
  obtain ⟨-, bases, -, -, hlead⟩ :=
    (structLayout_eq_error_iff hbases (hfields.imp fun _ hp => hp.1)).mp ht
  obtain ⟨before, placements, placement, -, hfits, hwide, -⟩ := hlead.forall_placement hfields
  exact hwide hfits.2

end LayoutContext

/-! ### Unions -/

namespace UnionDraft

variable {c : LayoutContext} {answer : RecordId → Except Trap Answer} {record : Record}
  {fields : List Field} {i : Nat} {d : UnionDraft}

/-- **Fields trap exactly where they lead to one whose size does not fit in bits.** -/
theorem addFieldsFrom_eq_error_iff {Q : Placement → Prop}
    (htotal : c.FieldsComplete answer record i fields Q) {t : Trap} :
    LayoutT.value answer (addFieldsFrom c record i fields d) = .error t ↔ t = .overflow ∧
      c.FieldsLeadTo answer record i fields fun _ _ placement => ¬placement.Bounded := by
  induction fields generalizing i d with
  | nil =>
    exact iff_of_false (by simp [addFieldsFrom]) fun h => LayoutContext.not_fieldsLeadTo_nil h.2
  | cons field fields ih =>
    obtain ⟨resolved, hvalue, -⟩ := htotal.head
    rw [addFieldsFrom, LayoutT.value_bind, hvalue, except_ok_bind,
      LayoutContext.fieldsLeadTo_cons_iff]
    simp only [hvalue, Except.ok.injEq]
    cases resolved with
    | error e => exact iff_of_false (by simp) (by simp)
    | ok placement =>
      simp only [Except.ok.injEq, exists_eq_left', LayoutT.value_bind, LayoutT.value_liftM]
      by_cases hbounded : placement.Bounded
      · obtain ⟨after, hafter⟩ := place_eq_ok (d := d) i field.isNamed hbounded
        simp only [hbounded, not_true_eq_false, false_or, hafter]
        exact ih htotal.tail
      · rw [place_eq_overflow hbounded]
        constructor
        · rintro ⟨⟩
          exact ⟨rfl, .inl hbounded⟩
        · rintro ⟨rfl, -⟩
          rfl

theorem addFieldsFrom_eq_ok (htotal : c.FieldsComplete answer record i fields Placement.Bounded) :
    ∃ out, LayoutT.value answer (addFieldsFrom c record i fields d) = .ok out := by
  refine except_exists_ok fun t ht => ?_
  obtain ⟨-, hlead⟩ := (addFieldsFrom_eq_error_iff htotal).mp ht
  obtain ⟨before, placements, placement, -, hbounded, hwide⟩ := hlead.forall_placement htotal
  exact hwide hbounded

/-- Behind accepted fields, a draft is finished without a trap. -/
theorem finish_eq_ok_of_addFields
    (hfields : c.FieldsComplete answer record 0 record.fields Placement.Sound)
    (hadded : LayoutT.value answer (addFieldsFrom c record 0 record.fields .start) = .ok (.ok d)) :
    ∃ out, LayoutT.value answer (d.finish c record) = .ok out := by
  obtain ⟨placements, hresolve⟩ := fieldsResolve_of_addFieldsFrom hadded
  obtain ⟨d', hd', hideal⟩ := addFieldsFrom_agrees hresolve hadded
  cases hd'
  have hpow : d.toIdeal.alignment.isPowerOfTwo := by
    rw [hideal]
    have hsound := hresolve.forall_placement hfields
    refine (Ideal.UnionDraft.filled_unionDraft hsound ?_).alignment_isPowerOfTwo
    exact fun i field placement hget hget' =>
      LayoutContext.resolveField_matches (hresolve.getElem? hget hget')
  obtain ⟨out, hout, -⟩ := finish_agrees answer c record hpow
  exact ⟨out, hout⟩

end UnionDraft

namespace LayoutContext

variable {c : LayoutContext} {answer : RecordId → Except Trap Answer} {record : Record}

/-- **Where a union traps.** Its fields lead to one whose size does not fit in bits. -/
theorem unionLayout_eq_error_iff
    (hfields : c.FieldsComplete answer record 0 record.fields Placement.Sound) {t : Trap} :
    LayoutT.value answer (c.unionLayout record) = .error t ↔ t = .overflow ∧
      c.FieldsLeadTo answer record 0 record.fields fun _ _ placement => ¬placement.Bounded := by
  rw [← UnionDraft.addFieldsFrom_eq_error_iff (d := .start) hfields, unionLayout,
    LayoutT.value_bind, except_bind_eq_error_iff]
  refine or_iff_left ?_
  rintro ⟨added, hadded, hfinish⟩
  cases added with
  | error e => cases hfinish
  | ok d =>
    obtain ⟨out, hout⟩ := UnionDraft.finish_eq_ok_of_addFields hfields hadded
    cases hout.symm.trans hfinish

/-- A union is laid out without a trap, if the sizes of what is accepted fit in bits. -/
theorem unionLayout_eq_ok
    (hfields : c.FieldsComplete answer record 0 record.fields fun placement =>
      placement.Sound ∧ placement.Bounded) :
    ∃ out, LayoutT.value answer (c.unionLayout record) = .ok out := by
  refine except_exists_ok fun t ht => ?_
  obtain ⟨-, hlead⟩ := (unionLayout_eq_error_iff (hfields.imp fun _ hp => hp.1)).mp ht
  obtain ⟨before, placements, placement, -, hbounded, hwide⟩ := hlead.forall_placement hfields
  exact hwide hbounded.2

end LayoutContext

end AbiLayout
