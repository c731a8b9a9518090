import AbiLayout.Proofs.Overflow

/-!
# Which profiles never trap

A profile is accepted when it is the LP64 profile or that of a table, with further base types,
another policy and other rules of inheritance. All of its base types are usable, so the sizes that
enter a layout fit in bits. Alignments are not held to that: a base type without storage may be
aligned to 2 ^ 61 bytes or more, and the layout of a struct with such a member traps. This is the
only way in which an accepted profile can trap.

## Main definitions

* `Profile.Accepted`: how profiles are made.
* `Profile.Lawful`: what all of them satisfy.
* `Profile.AnswersAll`: every query for a record is answered.

## Main results

* `Profile.Accepted.lawful`: accepted profiles are lawful.
* `Profile.Accepted.answersAll_iff`: an accepted profile answers all queries exactly when the
  alignments of its base types fit in bits.
-/

namespace AbiLayout

namespace Profile

variable {p q : Profile} {b : Primitive}

/-! ### Accepted profiles -/

/-- The profiles that are made from the LP64 profile or a table by adding base types and choosing
the policy and the rule of inheritance. -/
inductive Accepted : Profile → Prop
  | lp64 : Accepted lp64
  | ofTable {name : String} {pointerSize : ByteCount} {rows : List Primitive} {p : Profile}
      (h : ofTable name pointerSize rows = .ok p) : Accepted p
  | addBaseType {p q : Profile} {b : Primitive} (hp : Accepted p) (h : p.addBaseType b = .ok q) :
      Accepted q
  | bitfieldPolicy {p : Profile} (hp : Accepted p) (policy : BitfieldPolicy) :
      Accepted { p with bitfieldPolicy := policy }
  | multipleInheritance {p : Profile} (hp : Accepted p) (allowed : Bool) :
      Accepted { p with allowsMultipleInheritance := allowed }

/-- Base types are usable, and pointers have a size and an alignment that fit in bits. -/
structure Lawful (p : Profile) : Prop where
  usable : ∀ b ∈ p.baseTypes, b.Usable
  pointerAlignment_isPowerOfTwo : p.pointerAlignment.count.isPowerOfTwo
  pointerAlignment_lt : 8 * p.pointerAlignment.count < 2 ^ 64
  pointerSize_lt : 8 * p.pointerSize.count < 2 ^ 64

theorem mem_insertBaseType {c : Primitive} {table : List Primitive}
    (h : c ∈ insertBaseType b table) : c = b ∨ c ∈ table := by
  induction table with
  | nil => exact .inl (List.mem_singleton.mp h)
  | cons first table ih =>
    rw [insertBaseType] at h
    by_cases hname : first.name = b.name
    · rw [if_pos hname] at h
      rcases List.mem_cons.mp h with rfl | h
      · exact .inl rfl
      · exact .inr (List.mem_cons_of_mem first h)
    · rw [if_neg hname] at h
      rcases List.mem_cons.mp h with rfl | h
      · exact .inr List.mem_cons_self
      · exact (ih h).imp_right (List.mem_cons_of_mem first)

/-- One more base type keeps a profile lawful. -/
theorem Lawful.addBaseType (hp : p.Lawful) (h : p.addBaseType b = .ok q) : q.Lawful := by
  obtain ⟨hb, rfl⟩ := addBaseType_eq_ok_iff.mp h
  refine { hp with usable := ?_ }
  intro c hc
  rcases mem_insertBaseType hc with rfl | hc
  · exact hb
  · exact hp.usable c hc

/-- So do all rows of a table. -/
theorem Lawful.addBaseTypes {rows : List Primitive} (hp : p.Lawful)
    (h : rows.foldlM Profile.addBaseType p = .ok q) : q.Lawful := by
  induction rows generalizing p with
  | nil =>
    cases h
    exact hp
  | cons b rows ih =>
    obtain ⟨next, hnext, h⟩ := except_bind_eq_ok_iff.mp h
    exact ih (hp.addBaseType hnext) h

theorem lawful_lp64 : lp64.Lawful where
  usable := by decide
  pointerAlignment_isPowerOfTwo := ⟨3, rfl⟩
  pointerAlignment_lt := by decide
  pointerSize_lt := by decide

/-- **Accepted profiles are lawful.** -/
theorem Accepted.lawful (hp : p.Accepted) : p.Lawful := by
  induction hp with
  | lp64 => exact lawful_lp64
  | @ofTable name pointerSize rows p h =>
    rw [Profile.ofTable] at h
    split at h
    · cases h
    · rename_i hpointer
      simp only [Bool.or_eq_true, Bool.not_eq_true', not_or, Bool.not_eq_false] at hpointer
      obtain ⟨hpow, hfits⟩ := hpointer
      have hlt := Quantity.fitsInBits_iff.mp hfits
      have hbare : (bare name pointerSize).Lawful :=
        ⟨fun _ hb => (nomatch hb), Quantity.isPowerOfTwo_iff.mp hpow, hlt, hlt⟩
      exact hbare.addBaseTypes h
  | addBaseType _ h ih => exact ih.addBaseType h
  | bitfieldPolicy _ policy ih => exact { ih with }
  | multipleInheritance _ allowed ih => exact { ih with }

/-! ### Queries that are answered -/

/-- Every query for a record is answered, in every session under the profile, over every schema that
is declared under it with its base types. Over accepted bases and fields the answer is the ideal
layout, or that the record is too large. -/
def AnswersAll (p : Profile) : Prop :=
  ∀ (d : Declarations) (schema : Schema) (settings : SinkSettings) (s : Session) (r : RecordId)
    (record : Record), d.profile = p → d.close = .ok schema →
    (∀ b, schema.Mentions b → b ∈ p.baseTypes) → Session.Reachable schema p settings s →
    schema.records.get? r = some record →
    ∃ a s', s.record r = .ok (a, s') ∧ ∀ bases placements,
      s.context.Resolves (s.context.answerWithin s.context.maxDepth) record bases placements →
        RecordAgrees record (Ideal.recordLayout p record bases placements) a

/-- A lawful profile whose alignments fit in bits answers all queries. -/
theorem Lawful.answersAll (hp : p.Lawful) (hfit : ∀ b ∈ p.baseTypes, b.bitAlignment < 2 ^ 64) :
    p.AnswersAll := by
  rintro d schema settings s r record rfl hclose hmentions hs hrecord
  obtain ⟨hclosed, hsize, halignment⟩ := Declarations.close_closed hclose
  have husable : schema.Usable :=
    ⟨fun b hb => hp.usable b (hmentions b hb), halignment ▸ hp.pointerAlignment_isPowerOfTwo⟩
  have hscalars : schema.ScalarsFit :=
    ⟨⟨fun b hb => hfit b (hmentions b hb), halignment ▸ hp.pointerAlignment_lt⟩,
      hsize ▸ hp.pointerSize_lt⟩
  obtain ⟨a, ha⟩ := LayoutContext.exists_answerWithin_maxDepth (c := ⟨schema, d.profile⟩)
    hclosed husable hscalars (Arena.contains_iff_get?.mpr ⟨record, hrecord⟩)
  have hfst := Session.record_fst (c := ⟨schema, d.profile⟩) hclosed r hs.sound hs.context_eq
  obtain ⟨s', hrun⟩ := except_map_fst_eq_ok_iff.mp (hfst.trans ha)
  refine ⟨a, s', hrun, fun bases placements h => ?_⟩
  rw [hs.context_eq] at h
  exact h.answer_agrees husable hrecord ha

/-! ### A base type that traps -/

/-- A struct with one field, of a given base type. -/
def wrapper (b : Primitive) : Record :=
  ⟨some "S", .struct, [], [⟨some "x", .primitive b, false⟩]⟩

/-- The declaration of a struct with one field. -/
def wrap (p : Profile) (b : Primitive) : Declarations where
  profile := p
  records := ⟨#[⟨some "S", .struct, some ((wrapper b).bases, (wrapper b).fields)⟩],
    Nat.le_add_left 1 _⟩

/-- The schema of a struct with one field. -/
def wrapped (p : Profile) (b : Primitive) : Schema :=
  ⟨⟨#[wrapper b], Nat.le_add_left 1 _⟩, p.pointerSize, p.pointerAlignment⟩

theorem close_wrap (p : Profile) (b : Primitive) : (p.wrap b).close = .ok (p.wrapped b) := rfl

theorem mentions_wrapped {c : Primitive} (h : (p.wrapped b).Mentions c) : c = b := by
  refine Schema.forall_mentions (P := fun c => c = b) ?_ c h
  simp [wrapped, wrapper, Ty.primitives]

/-- A struct whose field is of a given base type has an answer only if the alignment of the base
type fits in bits. -/
theorem bitAlignment_lt_of_wrapper {c : LayoutContext} {answer : RecordId → Except Trap Answer}
    {out : Answer} (h : LayoutT.value answer (c.layoutByKind (wrapper b)) = .ok out) :
    b.bitAlignment < 2 ^ 64 := by
  have hform : LayoutT.value answer (c.layoutByKind (wrapper b)) =
    LayoutT.value answer (c.structLayout (wrapper b)) := rfl
  rw [hform, StructDraft.value_structLayout] at h
  obtain ⟨⟨result, d⟩, hbases, h⟩ := except_bind_eq_ok_iff.mp h
  cases hbases
  obtain ⟨⟨result, d⟩, hfields, -⟩ := except_bind_eq_ok_iff.mp h
  rw [StructDraft.addFields, wrapper, StructDraft.addFieldsFrom, LayoutM.value_bind,
    StructDraft.value_addField] at hfields
  obtain ⟨⟨result, d⟩, hfield, -⟩ := except_bind_eq_ok_iff.mp hfields
  obtain ⟨resolved, hresolved, hfield⟩ := except_bind_eq_ok_iff.mp hfield
  cases hresolved
  obtain ⟨placed, hplaced, -⟩ := except_bind_eq_ok_iff.mp hfield
  exact (StructDraft.fits_of_place_eq_ok hplaced).1

/-- **Which profiles never trap.** An accepted profile answers every query for a record exactly when
the alignments of its base types fit in bits. -/
theorem Accepted.answersAll_iff (hp : p.Accepted) :
    p.AnswersAll ↔ ∀ b ∈ p.baseTypes, 8 * b.alignment.count < 2 ^ 64 := by
  constructor
  · intro h b hb
    obtain ⟨a, s', hrun, -⟩ := h (p.wrap b) (p.wrapped b) .keepAll _ (.of 0) (wrapper b) rfl
      (close_wrap p b) (fun c hc => mentions_wrapped hc ▸ hb) .start rfl
    obtain ⟨depth, hanswer⟩ := Session.record_sound (Session.sound_start _ _ _) hrun
    cases depth with
    | zero => cases hanswer
    | succ depth =>
      obtain ⟨record, hrecord, hvalue⟩ := LayoutContext.recordLayout_eq_ok hanswer
      cases hrecord
      exact bitAlignment_lt_of_wrapper hvalue
  · exact hp.lawful.answersAll

theorem Accepted.answersAll_lp64 :
    ∃ a s', (Session.start Schema.mixed .lp64 .keepAll).record (.of 2) = .ok (a, s') := by
  obtain ⟨record, hrecord⟩ : ∃ record, Schema.mixed.records.get? (.of 2) = some record := ⟨_, rfl⟩
  obtain ⟨a, s', hrun, -⟩ := (answersAll_iff .lp64).mpr (by decide) Declarations.mixed Schema.mixed
    .keepAll _ (.of 2) record rfl Declarations.close_mixed (Schema.forall_mentions (by decide))
    .start hrecord
  exact ⟨a, s', hrun⟩

/-- A base type without storage, aligned to 2 ^ 61 bytes. -/
def overaligned : Primitive := ⟨"z", .zero, .of 0x2000_0000_0000_0000, .unsigned⟩

/-- A table may hold it, and a struct with a field of it traps. -/
theorem not_answersAll_overaligned :
    ∃ p, ofTable "t" (.of 8) [overaligned] = .ok p ∧ p.Accepted ∧
      (p.wrap overaligned).close = .ok (p.wrapped overaligned) ∧
      (∀ b, (p.wrapped overaligned).Mentions b → b ∈ p.baseTypes) ∧
      (Session.start (p.wrapped overaligned) p .keepAll).record (.of 0) = .error .overflow := by
  obtain ⟨p, hp⟩ : ∃ p, ofTable "t" (.of 8) [overaligned] = .ok p := ⟨_, rfl⟩
  refine ⟨p, hp, .ofTable hp, close_wrap p _, ?_, ?_⟩
  · cases hp
    exact fun b hb => mentions_wrapped hb ▸ List.mem_singleton_self _
  · cases hp
    rfl

end Profile

end AbiLayout
