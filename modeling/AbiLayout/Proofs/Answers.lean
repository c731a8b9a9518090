import AbiLayout.Proofs.Agreement.Record

/-!
# The answers of records

Over a usable schema, a record that has a layout has the ideal one, over accepted bases and fields
whose own layouts are answers again. By induction on how deep records nest, every alignment in such
an answer is one byte or that of a base type or of a pointer.

## Main definitions

* `LayoutContext.Derives`: a layout comes from accepted bases and placements.

## Main results

* `LayoutContext.answerWithin_alignment`: the alignments of answers.
* `LayoutContext.HasAnswer.derives`: every layout of a record is the ideal one.
-/

namespace AbiLayout

/-- The alignment of an ideal layout is one byte or comes from a base or from the type of a field.
-/
theorem Ideal.recordLayout_alignment {P : Nat → Prop} {profile : Profile} {record : Record}
    {bases : List StructDraft.ResolvedBase} {placements : List Placement} (one : P 1)
    (hbases : ∀ base ∈ bases, P base.layout.alignment.count)
    (hplacements : ∀ placement ∈ placements, P placement.typeAlignment.count) :
    P (Ideal.recordLayout profile record bases placements).alignment := by
  have hmax {a b : Nat} (ha : P a) (hb : P b) : P (max a b) := by
    rcases Nat.le_total a b with h | h
    · rwa [Nat.max_eq_right h]
    · rwa [Nat.max_eq_left h]
  have hasked (b : Bitfield) (isNamed : Bool) (hb : P b.underlying.alignment.count) :
      P (b.askedAlignment isNamed).count := by
    rw [Bitfield.askedAlignment]
    split
    · exact hb
    · exact one
  rw [recordLayout]
  cases record.kind with
  | struct =>
    refine structDraft_induction (motive := fun d => P d.alignment) one ?_ ?_
    · exact fun d i base hget hd => hmax hd (hbases base (List.mem_of_getElem? hget))
    · intro d i field placement _ hget hd
      have hplacement := hplacements placement (List.mem_of_getElem? hget)
      cases placement with
      | zeroWidth underlying => exact hd
      | bitfield b => exact hmax hd (hasked b field.isNamed hplacement)
      | bytes layout => exact hmax hd hplacement
  | union =>
    refine unionDraft_induction (motive := fun d => P d.alignment) one ?_
    intro d i field placement _ hget hd
    have hplacement := hplacements placement (List.mem_of_getElem? hget)
    cases placement with
    | zeroWidth underlying => exact hd
    | bitfield b => exact hmax hd (hasked b field.isNamed hplacement)
    | bytes layout => exact hmax hd hplacement

namespace LayoutContext

variable {c : LayoutContext} {answer : RecordId → Except Trap Answer} {r : RecordId}
  {record : Record} {bases : List StructDraft.ResolvedBase} {placements : List Placement}
  {l : RecordLayout}

/-- A record with an answer is in the schema, and its answer is the outcome for its kind. -/
theorem recordLayout_eq_ok {a : Answer} (h : (c.recordLayout r).value answer = .ok a) :
    ∃ record, c.schema.records.get? r = some record ∧
      LayoutT.value answer (c.layoutByKind record) = .ok a := by
  rw [recordLayout, LayoutM.value_bind, LayoutM.value_liftM] at h
  obtain ⟨record, hrecord, h⟩ := except_bind_eq_ok_iff.mp h
  rw [LayoutM.value_bind] at h
  obtain ⟨out, hout, h⟩ := except_bind_eq_ok_iff.mp h
  refine ⟨record, Arena.get_eq_ok_iff.mp hrecord, ?_⟩
  cases out with
  | ok layout =>
    dsimp only at h
    rw [LayoutM.value_bind, LayoutM.value_liftM] at h
    obtain ⟨flaw, -, h⟩ := except_bind_eq_ok_iff.mp h
    cases flaw with
    | none =>
      cases h
      exact hout
    | some flaw => cases h
  | error e =>
    dsimp only at h
    split at h <;> cases h <;> exact hout

/-- The layout is the ideal one over accepted bases and placements, and its bits fit. -/
structure Derives (c : LayoutContext) (answer : RecordId → Except Trap Answer) (record : Record)
    (bases : List StructDraft.ResolvedBase) (placements : List Placement) (l : RecordLayout) :
    Prop where
  resolves : c.Resolves answer record bases placements
  bases_isPowerOfTwo : ∀ base ∈ bases, base.layout.alignment.count.isPowerOfTwo
  sound : ∀ placement ∈ placements, placement.Sound
  toIdeal_eq : l.toIdeal = Ideal.recordLayout c.profile record bases placements
  bits_lt : 8 * l.size.count < 2 ^ 64

/-- A base type in a field of a record of the schema is one of the schema. -/
theorem mentions_of_mem {field : Field} {p : Primitive}
    (hrecord : c.schema.records.get? r = some record) (hfield : field ∈ record.fields)
    (hp : p ∈ field.ty.primitives) : c.schema.Mentions p :=
  ⟨r, record, field, hrecord, hfield, hp⟩

section Usable

variable (husable : c.schema.Usable)

include husable

omit husable in
/-- What holds of the answers that are asked for holds of accepted bases. -/
theorem Resolves.of_mem_bases {Q : RecordLayout → Prop}
    (h : c.Resolves answer record bases placements) (hQ : ∀ r l, answer r = .ok (.ok l) → Q l) :
    ∀ base ∈ bases, Q base.layout := by
  intro base hmem
  cases hkind : record.kind with
  | struct =>
    obtain ⟨i, hget⟩ := List.getElem?_of_mem hmem
    obtain ⟨declared, -, hanswer⟩ := resolveBases_getElem? (h.basesResolve hkind) hget
    exact hQ declared.record base.layout hanswer
  | union =>
    rw [h.unionBases hkind] at hmem
    cases hmem

/-- The placements of accepted fields are sound. -/
theorem Resolves.sound (h : c.Resolves answer record bases placements)
    (hrecord : c.schema.records.get? r = some record)
    (hpow : ∀ r l, answer r = .ok (.ok l) → l.alignment.count.isPowerOfTwo) :
    ∀ placement ∈ placements, placement.Sound := by
  intro placement hmem
  obtain ⟨j, field, hget, hvalue⟩ := h.fieldsResolve.exists_field hmem
  have hfield := List.mem_of_getElem? hget
  exact resolveField_sound husable.pointerAlignment hpow
    (fun p hp => husable.primitive p (mentions_of_mem hrecord hfield hp)) hvalue

/-- A layout of a record is derived, if the answers that it asks for are aligned to powers of two.
-/
theorem derives_of_layoutByKind (hrecord : c.schema.records.get? r = some record)
    (hpow : ∀ r l, answer r = .ok (.ok l) → l.alignment.count.isPowerOfTwo)
    (h : LayoutT.value answer (c.layoutByKind record) = .ok (.ok l)) :
    ∃ bases placements, c.Derives answer record bases placements l := by
  obtain ⟨bases, placements, hresolves⟩ := layoutByKind_resolves h
  have hbases := hresolves.of_mem_bases hpow
  have hsound := hresolves.sound husable hrecord hpow
  obtain ⟨hideal, hbits⟩ := layoutByKind_agrees hresolves hbases hsound h
  rw [← hideal] at hbits
  exact ⟨bases, placements, hresolves, hbases, hsound, hideal, hbits⟩

/-- What holds of one byte and of the alignments of base types and pointers holds of the alignment
of every layout, and that is a power of two. -/
theorem answerWithin_alignment {P : Nat → Prop} (one : P 1)
    (primitive : ∀ p, c.schema.Mentions p → P p.alignment.count)
    (pointer : P c.schema.pointerAlignment.count) {depth : Nat} :
    ∀ r l, c.answerWithin depth r = .ok (.ok l) →
      l.alignment.count.isPowerOfTwo ∧ P l.alignment.count := by
  induction depth with
  | zero => exact fun _ _ h => nomatch h
  | succ depth ih =>
    intro r l h
    obtain ⟨record, hrecord, h⟩ := recordLayout_eq_ok h
    obtain ⟨bases, placements, hderives⟩ := derives_of_layoutByKind husable hrecord
      (fun r l h => (ih r l h).1) h
    have hideal : l.alignment.count =
        (Ideal.recordLayout c.profile record bases placements).alignment := by
      rw [← hderives.toIdeal_eq]
      rfl
    rw [hideal]
    constructor
    · refine Ideal.recordLayout_alignment (P := Nat.isPowerOfTwo) Nat.isPowerOfTwo_one
        hderives.bases_isPowerOfTwo ?_
      intro placement hmem
      have hsound := hderives.sound placement hmem
      cases placement with
      | zeroWidth underlying => exact hsound.isPowerOfTwo
      | bitfield b => exact hsound.1.isPowerOfTwo
      | bytes layout => exact hsound
    · refine Ideal.recordLayout_alignment one
        (hderives.resolves.of_mem_bases fun r l h => (ih r l h).2) ?_
      intro placement hmem
      obtain ⟨j, field, hget, hvalue⟩ := hderives.resolves.fieldsResolve.exists_field hmem
      have hfield := List.mem_of_getElem? hget
      exact resolveField_typeAlignment pointer (fun r l h => (ih r l h).2)
        (fun p hp => primitive p (mentions_of_mem hrecord hfield hp)) hvalue

/-- The alignment of every layout is a power of two. -/
theorem answerWithin_isPowerOfTwo {depth : Nat} (r : RecordId) (l : RecordLayout)
    (h : c.answerWithin depth r = .ok (.ok l)) : l.alignment.count.isPowerOfTwo :=
  (answerWithin_alignment (P := fun _ => True) husable trivial (fun _ _ => trivial) trivial r l h).1

/-- **Every layout of a record is the ideal one** over accepted bases and placements. -/
theorem HasAnswer.derives (h : c.HasAnswer r (.ok l)) :
    ∃ record depth bases placements, c.schema.records.get? r = some record ∧
      c.Derives (c.answerWithin depth) record bases placements l := by
  obtain ⟨depth, h⟩ := h
  cases depth with
  | zero => cases h
  | succ depth =>
    obtain ⟨record, hrecord, h⟩ := recordLayout_eq_ok h
    obtain ⟨bases, placements, hderives⟩ := derives_of_layoutByKind husable hrecord
      (answerWithin_isPowerOfTwo husable) h
    exact ⟨record, depth, bases, placements, hrecord, hderives⟩

end Usable

end LayoutContext

end AbiLayout
