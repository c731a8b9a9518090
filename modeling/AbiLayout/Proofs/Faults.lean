import AbiLayout.Proofs.Layable
import AbiLayout.Proofs.Memory

/-!
# Where errors come from

The error of a record is its own, or it passes on the error of a record that it contains and that
its program asked for. Its own error says that it is too large, or that it breaks one of its rules:
a layable record fails only by its size. A type that is too large is no error of a record: the
record of which it is a member is too large. Conversely, a record with a layout has asked for all
that it contains, and that has layouts.

## Main definitions

* `LayoutError.isOwn`: an error that a record may report of itself.
* `LayoutT.FailsIn`: the errors that a program may end in, on given answers.
* `Fault`: where the error of a record comes from.

## Main results

* `Fault.tooLarge_of_layable`: a layable record fails only by being too large.
* `LayoutContext.failsIn_resolveField`, `LayoutContext.failsIn_resolveBases`: a member that is
  refused breaks its rules.
* `LayoutContext.failsIn_layoutByKind`: every error of a record comes from it or from a record that
  it contains.
* `LayoutContext.fault_of_answer`: the answer at fault is one that was asked for.
* `LayoutContext.layout_of_contains`: what a record with a layout contains has a layout.
-/

namespace AbiLayout

/-- Whether the error is a rule that a record itself breaks: neither the failure of another record
nor that of a type. -/
def LayoutError.isOwn : LayoutError → Bool
  | failedDependency .. | typeTooLarge _ => false
  | _ => true

theorem LayoutError.isDependencyFailure_of_isOwn {e : LayoutError} (h : e.isOwn = true) :
    e.isDependencyFailure = false := by
  cases e with
  | failedDependency => cases h
  | _ => rfl

/-- Where the error of a record comes from: the record is too large, or it breaks one of its rules,
or it passes on the error of a record that it contains. -/
inductive Fault (answer : RecordId → Except Trap Answer) (profile : Profile) (record : Record) :
    LayoutError → Prop
  | tooLarge (member : String) : Fault answer profile record (.pastRange record member)
  | rule {e : LayoutError} (isOwn : e.isOwn = true) (broken : ¬record.Layable answer profile) :
      Fault answer profile record e
  | dependency {r : RecordId} {cause : LayoutError} (name : String)
      (contained : r ∈ record.contained) (answered : answer r = .ok (.error cause)) :
      Fault answer profile record (.failedDependency record.label name cause)

/-- A layable record fails only by being too large. -/
theorem Fault.tooLarge_of_layable {answer : RecordId → Except Trap Answer} {profile : Profile}
    {record : Record} {e : LayoutError} (h : Fault answer profile record e)
    (hlayable : record.Layable answer profile) : ∃ member, e = .pastRange record member := by
  cases h with
  | tooLarge member => exact ⟨member, rfl⟩
  | rule _ broken => exact absurd hlayable broken
  | dependency _ contained answered =>
    obtain ⟨l, hl⟩ := hlayable.exists_layout contained
    rw [answered] at hl
    cases hl

/-! ### The errors of a program -/

namespace LayoutT

variable {α β : Type} {answer : RecordId → Except Trap Answer} {E : LayoutError → Prop}

/-- An error that the program ends in, if it does, is in `E`. -/
def FailsIn (answer : RecordId → Except Trap Answer) (E : LayoutError → Prop) (p : LayoutT α) :
    Prop :=
  ∀ e, value answer p = .ok (.error e) → E e

theorem failsIn_pure (a : α) : FailsIn answer E (pure a) := fun _ h => nomatch h

theorem failsIn_throw {e : LayoutError} (h : E e) : FailsIn answer E (throw e : LayoutT α) :=
  fun _ he => Except.error.inj (Except.ok.inj he) ▸ h

theorem failsIn_liftM : (x : Except Trap α) → FailsIn answer E (liftM x : LayoutT α)
  | .ok _ => fun _ h => nomatch h
  | .error _ => fun _ h => nomatch h

theorem failsIn_lift (p : LayoutM α) : FailsIn answer E (ExceptT.lift p) := by
  intro e h
  rw [value_lift] at h
  obtain ⟨a, -, h⟩ := except_bind_eq_ok_iff.mp h
  cases h

theorem FailsIn.bind {p : LayoutT α} {f : α → LayoutT β} (hp : FailsIn answer E p)
    (hf : ∀ a, value answer p = .ok (.ok a) → FailsIn answer E (f a)) :
    FailsIn answer E (p >>= f) := by
  intro e h
  rw [value_bind] at h
  obtain ⟨out, hout, h⟩ := except_bind_eq_ok_iff.mp h
  cases out with
  | error e' =>
    cases h
    exact hp e hout
  | ok a => exact hf a hout e h

/-- A program with a handler ends in the errors of the handler. -/
theorem failsIn_tryCatch {p : LayoutT α} {handle : LayoutError → LayoutT α}
    (h : ∀ e, value answer p = .ok (.error e) → FailsIn answer E (handle e)) :
    FailsIn answer E (tryCatch p handle) := by
  intro e he
  rw [value_tryCatch] at he
  obtain ⟨out, hout, he⟩ := except_bind_eq_ok_iff.mp he
  cases out with
  | error e' => exact h e' hout e he
  | ok a => cases he

end LayoutT

namespace LayoutContext

open LayoutT

variable {c : LayoutContext} {answer : RecordId → Except Trap Answer} {record : Record} {ty : Ty}

/-! ### Types and fields -/

/-- Where the error of a type comes from: the type or one of its elements is too large, or the error
is that of the record that the type holds. -/
def TypeFault (answer : RecordId → Except Trap Answer) (ty : Ty) (e : LayoutError) : Prop :=
  (∃ name, e = .typeTooLarge name) ∨ ∃ r, ty.containedRecord? = some r ∧ answer r = .ok (.error e)

theorem failsIn_typeTooLarge {α : Type} (ty ty' : Ty) :
    FailsIn answer (TypeFault answer ty) (c.typeTooLarge ty' : LayoutT α) :=
  (failsIn_liftM _).bind fun name _ => failsIn_throw (.inl ⟨name, rfl⟩)

theorem failsIn_typeLayout : FailsIn answer (TypeFault answer ty) (c.typeLayout ty) := by
  induction ty with
  | primitive | bitfield | voidPointer | pointerTo => exact failsIn_pure _
  | record r =>
    intro e h
    rw [typeLayout_record, value_map, value_layoutOf] at h
    obtain ⟨out, hanswer, h⟩ := except_bind_eq_ok_iff.mp h
    cases out with
    | error e' =>
      cases h
      exact .inr ⟨r, rfl, hanswer⟩
    | ok l => cases h
  | array element count ih =>
    cases hstatic : c.schema.staticSize (.array element count) with
    | known size alignment =>
      rw [typeLayout_of_known hstatic]
      exact failsIn_pure _
    | tooLarge =>
      rw [typeLayout_of_tooLarge hstatic]
      exact failsIn_typeTooLarge _ _
    | recordDependent | incomplete =>
      rw [typeLayout_array (by simp [hstatic])]
      refine FailsIn.bind ih fun layout _ => ?_
      cases arrayLayout? layout count with
      | none => exact failsIn_typeTooLarge _ _
      | some whole => exact failsIn_pure whole

theorem isOwn_of_checkPosition {i : Nat} {member : String} {layout : TypeLayout} {e : LayoutError}
    (h : checkPosition record i member layout = .error e) : e.isOwn = true := by
  unfold checkPosition at h
  split at h
  · split at h
    · cases h
      exact rfl
    · cases h
  · split at h
    · cases h
      exact rfl
    · cases h

theorem failsIn_pastRange {α : Type} (member : String) :
    FailsIn answer (Fault answer c.profile record)
      (throw (.pastRange record member) : LayoutT α) :=
  failsIn_throw (.tooLarge member)

theorem failsIn_blameDependency {α : Type} {r : RecordId} {cause : LayoutError}
    (hcontained : r ∈ record.contained) (hanswer : answer r = .ok (.error cause)) :
    FailsIn answer (Fault answer c.profile record)
      (c.blameDependency record ty cause : LayoutT α) :=
  (failsIn_liftM _).bind fun name _ => failsIn_throw (.dependency name hcontained hanswer)

/-- A type that is too large makes the record too large; any other error is that of the record that
the type holds. -/
theorem failsIn_resolveMember (member : String)
    (h : ∀ r, ty.containedRecord? = some r → r ∈ record.contained) :
    FailsIn answer (Fault answer c.profile record) (c.resolveMember record member ty) := by
  refine failsIn_tryCatch fun cause hcause => ?_
  split
  · exact failsIn_pastRange member
  · rename_i hne
    rcases failsIn_typeLayout cause hcause with ⟨name, hname⟩ | ⟨r, hr, hanswer⟩
    · exact absurd hname (hne name)
    · exact failsIn_blameDependency (h r hr) hanswer

section Fields

variable {i : Nat} {field : Field} (hget : record.fields[i]? = some field)

include hget

/-- A field that breaks its rules is a fault of the record. -/
theorem fault_of_not_admissible {e : LayoutError} (isOwn : e.isOwn = true)
    (h : ¬field.Admissible answer record i) : Fault answer c.profile record e :=
  .rule isOwn fun hlayable => h (hlayable.field i field hget)

/-- The elements of a field fail their check where they are too large, hold a record without a
layout, or are incomplete. -/
theorem failsIn_requireSizedElements (member : String)
    (hheld : ∀ r, ty.containedRecord? = some r → r ∈ record.contained)
    (helement : ∀ element, ty.HasElement element → field.ty.HasElement element) :
    FailsIn answer (Fault answer c.profile record) (c.requireSizedElements record member ty) := by
  -- along the elements the field stays the same, so that they remain elements of its type
  induction ty with
  | primitive | bitfield | voidPointer | pointerTo | record => exact failsIn_pure _
  | array element count ih =>
    have hheld : ∀ r, element.containedRecord? = some r → r ∈ record.contained := hheld
    rw [requireSizedElements]
    refine (failsIn_resolveMember member hheld).bind fun layout hlayout => ?_
    by_cases htail : layout.isTrailingOnly = true
    · rw [if_pos htail]
      refine failsIn_throw (fault_of_not_admissible hget rfl fun hfield => ?_)
      have hcomplete := hfield.element element (helement element (.outer element count))
      rw [← isComplete_iff_of_typeLayout (resolveMember_eq_ok_iff.mp hlayout),
        ← not_isTrailingOnly_iff, htail] at hcomplete
      cases hcomplete
    · rw [if_neg htail]
      exact ih hheld fun ty h => helement ty (.inner count h)

/-- A bit-field that is refused breaks its rules. -/
theorem failsIn_resolveBitfield {b : Bitfield} (hb : field.ty = .bitfield b) :
    FailsIn answer (Fault answer c.profile record) (resolveBitfield record i field b) := by
  have hbroken {e : LayoutError} (isOwn : e.isOwn = true)
      (h : ¬(b.underlying.isInteger = true ∧ (b.width.count = 0 ∧ field.name = none ∨
        b.endsUnit = false ∧ 1 ≤ b.width.count ∧
          b.width.count ≤ 8 * b.underlying.size.count))) : Fault answer c.profile record e :=
    fault_of_not_admissible hget isOwn fun hfield => h (hfield.bitfield b hb)
  unfold resolveBitfield
  dsimp only
  split
  · rename_i hinteger
    refine failsIn_throw (hbroken rfl ?_)
    rintro ⟨hinteger', -⟩
    rw [hinteger'] at hinteger
    cases hinteger
  split
  · rename_i hends
    refine failsIn_throw (hbroken rfl ?_)
    rw [Bool.and_eq_true, Bool.not_eq_true', ← Bool.not_eq_true, Quantity.isZero_iff] at hends
    rintro ⟨-, ⟨hzero, -⟩ | ⟨hunmarked, -⟩⟩
    · exact hends.2 hzero
    · rw [hunmarked] at hends
      cases hends.1
  split
  · rename_i hzero
    split
    · rename_i hnamed
      refine failsIn_throw (hbroken rfl ?_)
      rw [Quantity.isZero_iff] at hzero
      rintro ⟨-, ⟨-, hname⟩ | ⟨-, hpos, -⟩⟩
      · rw [Field.isNamed, hname] at hnamed
        cases hnamed
      · omega
    · exact failsIn_pure _
  · rename_i hzero
    refine (failsIn_liftM _).bind fun max hmax => ?_
    split
    · rename_i hwide
      refine failsIn_throw (hbroken rfl ?_)
      rw [value_liftM_eq_ok_iff, Primitive.bits, Quantity.toBits_eq_ok_iff] at hmax
      rw [Quantity.lt_iff, hmax] at hwide
      rintro ⟨-, ⟨hzero', -⟩ | ⟨-, -, hle⟩⟩
      · exact hzero (Quantity.isZero_iff.mpr hzero')
      · omega
    · exact failsIn_pure _

/-- A field that is refused for its position breaks its rules. -/
theorem fault_of_checkPosition {member : String} {layout : TypeLayout} {e : LayoutError}
    (hlayout : LayoutT.value answer (c.typeLayout field.ty) = .ok (.ok layout))
    (h : checkPosition record i member layout = .error e) :
    Fault answer c.profile record e := by
  refine fault_of_not_admissible hget (isOwn_of_checkPosition h) fun hfield => ?_
  have hok : checkPosition record i member layout = .ok () := by
    refine checkPosition_eq_ok_iff.mpr ⟨fun hkind hopen => ?_, fun hkind hopen => ?_⟩
    · obtain ⟨element, hty⟩ := (completeness_eq_incomplete_iff hlayout hfield.element).mp hopen
      exact hfield.ofUnion hkind element hty
    · exact hfield.last hkind ((isTrailingOnly_iff_endsOpen hlayout hfield.element).mp hopen)
  rw [hok] at h
  cases h

/-- **A field that is refused breaks its rules**, unless it makes the record too large or holds a
record without a layout. -/
theorem failsIn_resolveField :
    FailsIn answer (Fault answer c.profile record) (c.resolveField record i field) := by
  have hheld (r : RecordId) (hr : field.ty.containedRecord? = some r) : r ∈ record.contained :=
    record.mem_contained_of_field (List.mem_of_getElem? hget) hr
  unfold resolveField
  split
  · rename_i b hb
    exact failsIn_resolveBitfield hget hb
  · refine (failsIn_requireSizedElements hget _ hheld fun _ => id).bind fun _ _ => ?_
    refine (failsIn_resolveMember _ hheld).bind fun layout hlayout => ?_
    split
    · exact failsIn_throw (fault_of_checkPosition hget (resolveMember_eq_ok_iff.mp hlayout) ‹_›)
    · exact failsIn_pure _

end Fields

/-! ### Structs -/

/-- A base that is refused breaks its rules, or has no layout. -/
theorem failsIn_resolveBases {bases : List Base} {i : Nat} (h : bases = record.bases.drop i) :
    FailsIn answer (Fault answer c.profile record) (StructDraft.resolveBases c record bases) := by
  induction bases generalizing i with
  | nil => exact failsIn_pure _
  | cons base bases ih =>
    obtain ⟨hget, hrest⟩ := of_cons_eq_drop h
    have hbroken {e : LayoutError} (isOwn : e.isOwn = true)
        (hbase : ¬base.Admissible answer record i) : Fault answer c.profile record e :=
      .rule isOwn fun hlayable => hbase (hlayable.base i base hget)
    refine (failsIn_liftM _).bind fun baseRecord _ => ?_
    dsimp only
    split
    · rename_i hvirtual
      refine failsIn_throw (hbroken rfl fun hbase => ?_)
      rw [hbase.notVirtual] at hvirtual
      cases hvirtual
    refine FailsIn.bind (failsIn_tryCatch fun cause hcause => ?_) fun layout hlayout => ?_
    · rw [value_layoutOf] at hcause
      exact failsIn_blameDependency
        (record.mem_contained_of_base (List.mem_of_getElem? hget)) hcause
    split
    · rename_i htail
      refine failsIn_throw (hbroken rfl fun hbase => ?_)
      rw [Bool.and_eq_true, Bool.not_eq_true'] at htail
      have hlast := (isLastMember_iff h).mpr
        (hbase.last layout (resolveBase_eq_ok_iff.mp hlayout) htail.1)
      rw [hlast] at htail
      cases htail.2
    · exact (ih hrest).bind fun later _ => failsIn_pure _

theorem pastRange_of_placeBases {bases : List StructDraft.ResolvedBase} {i : Nat}
    {d d' : StructDraft} {e : LayoutError}
    (h : StructDraft.placeBases record i bases d = .ok (.error e, d')) :
    ∃ member, e = .pastRange record member := by
  induction bases generalizing i d with
  | nil => cases h
  | cons base bases ih =>
    obtain ⟨⟨step, after⟩, -, h⟩ := except_bind_eq_ok_iff.mp h
    cases step with
    | tooLarge =>
      cases h
      exact ⟨_, rfl⟩
    | skipped | placedAt => exact ih h

theorem fault_of_addBases {d d' : StructDraft} {e : LayoutError}
    (h : (StructDraft.addBases c record d).value answer = .ok (.error e, d')) :
    Fault answer c.profile record e := by
  have hall : record.bases = record.bases.drop 0 := rfl
  rw [StructDraft.value_addBases] at h
  obtain ⟨out, hout, h⟩ := except_bind_eq_ok_iff.mp h
  cases out with
  | error e' =>
    cases h
    exact failsIn_resolveBases hall e hout
  | ok bases =>
    dsimp only at h
    split at h
    · rename_i hmany
      cases h
      rw [nonEmptyBases_eq_countP hout, Bool.and_eq_true, decide_eq_true_eq,
        Bool.not_eq_true'] at hmany
      refine .rule rfl fun hlayable => ?_
      rcases hlayable.inheritance with hfew | hallowed
      · exact absurd hmany.1 (Nat.not_lt.mpr hfew)
      · rw [hallowed] at hmany
        cases hmany.2
    · obtain ⟨member, rfl⟩ := pastRange_of_placeBases h
      exact .tooLarge member

theorem fault_of_addField {i : Nat} {field : Field} (hget : record.fields[i]? = some field)
    {d d' : StructDraft} {e : LayoutError}
    (h : (StructDraft.addField c record i field d).value answer = .ok (.error e, d')) :
    Fault answer c.profile record e := by
  rw [StructDraft.value_addField] at h
  obtain ⟨out, hout, h⟩ := except_bind_eq_ok_iff.mp h
  cases out with
  | error e' =>
    cases h
    exact failsIn_resolveField hget e hout
  | ok placement =>
    obtain ⟨⟨step, after⟩, -, h⟩ := except_bind_eq_ok_iff.mp h
    cases step with
    | tooLarge =>
      cases h
      exact .tooLarge _
    | skipped | placedAt => cases h

theorem fault_of_addFieldsFrom {fields : List Field} {i : Nat}
    (hdrop : fields = record.fields.drop i) {d d' : StructDraft} {e : LayoutError}
    (h : (StructDraft.addFieldsFrom c record i fields d).value answer = .ok (.error e, d')) :
    Fault answer c.profile record e := by
  induction fields generalizing i d with
  | nil => cases h
  | cons field fields ih =>
    obtain ⟨hget, hrest⟩ := of_cons_eq_drop hdrop
    rw [StructDraft.addFieldsFrom, LayoutM.value_bind] at h
    obtain ⟨⟨result, after⟩, hfield, h⟩ := except_bind_eq_ok_iff.mp h
    cases result with
    | error e' =>
      cases h
      exact fault_of_addField hget hfield
    | ok => exact ih hrest h

theorem failsIn_finish (d : StructDraft) :
    FailsIn answer (Fault answer c.profile record) (d.finish c record) := by
  refine (failsIn_liftM _).bind fun closed _ => ?_
  split
  · exact failsIn_pastRange _
  refine (failsIn_liftM _).bind fun size _ => ?_
  split
  · exact failsIn_pastRange _
  refine (failsIn_liftM _).bind fun sizeBits _ => ?_
  dsimp only
  split
  · refine (failsIn_liftM _).bind fun padding _ => ?_
    refine (failsIn_lift _).bind fun _ _ => ?_
    exact (failsIn_liftM _).bind fun _ _ => failsIn_pure _
  · exact (failsIn_liftM _).bind fun _ _ => failsIn_pure _

theorem failsIn_structLayout :
    FailsIn answer (Fault answer c.profile record) (c.structLayout record) := by
  have hall : record.fields = record.fields.drop 0 := rfl
  intro e h
  rw [StructDraft.value_structLayout] at h
  obtain ⟨⟨result, d⟩, hbases, h⟩ := except_bind_eq_ok_iff.mp h
  cases result with
  | error e' =>
    cases h
    exact fault_of_addBases hbases
  | ok =>
    obtain ⟨⟨result, d'⟩, hfields, h⟩ := except_bind_eq_ok_iff.mp h
    cases result with
    | error e' =>
      cases h
      exact fault_of_addFieldsFrom hall hfields
    | ok => exact failsIn_finish d' e h

/-! ### Unions and records -/

theorem failsIn_unionFieldsFrom {fields : List Field} {i : Nat}
    (hdrop : fields = record.fields.drop i) (d : UnionDraft) :
    FailsIn answer (Fault answer c.profile record)
      (UnionDraft.addFieldsFrom c record i fields d) := by
  induction fields generalizing i d with
  | nil => exact failsIn_pure d
  | cons field fields ih =>
    obtain ⟨hget, hrest⟩ := of_cons_eq_drop hdrop
    refine (failsIn_resolveField hget).bind fun placement _ => ?_
    exact (failsIn_liftM _).bind fun d _ => ih hrest d

theorem failsIn_unionLayout :
    FailsIn answer (Fault answer c.profile record) (c.unionLayout record) := by
  have hall : record.fields = record.fields.drop 0 := rfl
  refine (failsIn_unionFieldsFrom hall _).bind fun d _ => ?_
  refine (failsIn_liftM _).bind fun size _ => ?_
  split
  · exact failsIn_pastRange _
  · exact (failsIn_liftM _).bind fun _ _ => failsIn_pure _

/-- **Every error of a record comes from it or from a record that it contains**: it is too large, or
breaks one of its rules, or passes on the error of another record. -/
theorem failsIn_layoutByKind :
    FailsIn answer (Fault answer c.profile record) (c.layoutByKind record) := by
  rw [layoutByKind]
  cases record.kind with
  | struct => exact failsIn_structLayout
  | union => exact failsIn_unionLayout

/-! ### Answers that were asked for -/

/-- The answers that the program of the record `r` asks for; any other question traps. -/
def seen (c : LayoutContext) (r r' : RecordId) : Except Trap Answer :=
  if r' ∈ (c.recordLayout r).asked c.answer then c.answer r' else .error .bottomless

variable {r r' : RecordId}

theorem seen_eq_ok {a : Answer} (h : c.seen r r' = .ok a) :
    c.Asks r r' ∧ c.answer r' = .ok a := by
  rw [seen] at h
  split at h
  · exact ⟨‹_›, h⟩
  · cases h

section Closed

variable (hclosed : c.schema.Closed)

include hclosed

/-- The answer of a record is the outcome for its kind, on the answers that it asks for. -/
theorem exists_record_of_answer {a : Answer} (h : c.answer r = .ok a) :
    ∃ record, c.schema.records.get? r = some record ∧
      LayoutT.value (c.seen r) (c.layoutByKind record) = .ok a := by
  have hseen : (c.recordLayout r).value (c.seen r) = .ok a := by
    rw [← h, answer_eq hclosed]
    exact LayoutM.value_eq_of_asked fun r' hr' => if_pos hr'
  exact recordLayout_eq_ok hseen

/-- **The error of a record is its own, or that of a record that it contains** and has asked for. -/
theorem fault_of_answer {e : LayoutError} (h : c.answer r = .ok (.error e)) :
    ∃ record, c.schema.records.get? r = some record ∧
      (e.isOwn = true ∨ ∃ r' name cause, e = .failedDependency record.label name cause ∧
        Contains c.schema.records r r' ∧ c.Asks r r' ∧ c.answer r' = .ok (.error cause)) := by
  obtain ⟨record, hrecord, hvalue⟩ := exists_record_of_answer hclosed h
  refine ⟨record, hrecord, ?_⟩
  cases failsIn_layoutByKind e hvalue with
  | tooLarge member => exact .inl rfl
  | rule isOwn _ => exact .inl isOwn
  | @dependency r' cause name contained answered =>
    obtain ⟨hasks, hanswer⟩ := seen_eq_ok answered
    exact .inr ⟨r', name, cause, rfl, hasks.contains, hasks, hanswer⟩

/-- What a record with a layout contains was asked for, and has a layout. -/
theorem layout_of_contains {l : RecordLayout} (h : c.answer r = .ok (.ok l))
    (hr' : Contains c.schema.records r r') :
    c.Asks r r' ∧ ∃ l', c.answer r' = .ok (.ok l') := by
  obtain ⟨record, hrecord, hvalue⟩ := exists_record_of_answer hclosed h
  have hmem : r' ∈ record.contained := by
    rw [← mem_containedIn_iff, containedIn, hrecord] at hr'
    exact hr'
  obtain ⟨bases, placements, hresolves⟩ := layoutByKind_resolves hvalue
  obtain ⟨l', hl'⟩ :=
    (hresolves.layable (hclosed.unionBases r record hrecord)).exists_layout hmem
  obtain ⟨hasks, hanswer⟩ := seen_eq_ok hl'
  exact ⟨hasks, l', hanswer⟩

end Closed

end LayoutContext

end AbiLayout
