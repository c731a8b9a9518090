import AbiLayout.Proofs.Greedy

/-!
# Unions overlay their members

A union is made of three maxima: of the alignments and of the sizes that its members ask for, and of
the bits that they use. A bit-field asks for the whole of its base type, but for its alignment only
if it is named. The size is the largest of the sizes, rounded up to the alignment, and the only
padding is what the rounding adds.

## Main definitions

* `Record.AsksBytes`: the sizes that a union is asked for.
* `RecordLayout.Overlays`: the layout of a union, as three maxima.

## Main results

* `Ideal.isGreatest_placeEach`: what fields raise one by one is in the end the greatest of what they
  ask for.
* `LayoutContext.Resolves.mem_zip_iff`: a field is placed as its type says, wherever it is declared.
* `LayoutContext.overlays_of_answer`: every layout of a union is of this form.
-/

namespace AbiLayout

/-! ### Three maxima -/

/-- The bytes that a field of a union asks for: all of its type, also for a bit-field. A zero-width
bit-field asks for none. -/
def Placement.askedSize : Placement → Nat
  | zeroWidth _ => 0
  | bitfield b => b.underlying.size.count
  | bytes layout => layout.width.count

namespace Ideal

/-- What each field raises to what it asks for is in the end the greatest of these. -/
theorem isGreatest_placeEach {δ : Type} {place : δ → Nat → Bool → Placement → δ} (value : δ → Nat)
    (asked : Bool → Placement → Nat)
    (hstep : ∀ d i isNamed placement,
      value (place d i isNamed placement) = max (value d) (asked isNamed placement))
    (i : Nat) (fields : List Field) (placements : List Placement) (d : δ) :
    IsGreatest {a | a = value d ∨ ∃ z ∈ fields.zip placements, a = asked z.1.isNamed z.2}
      (value (placeEach place i fields placements d)) := by
  have hfold : value (placeEach place i fields placements d) =
      ((fields.zip placements).map fun z => asked z.1.isNamed z.2).foldl max (value d) := by
    induction fields generalizing i placements d with
    | nil => rw [placeEach.eq_def]; rfl
    | cons field fields ih =>
      cases placements with
      | nil => rfl
      | cons placement placements =>
        rw [placeEach, ih, hstep]
        rfl
  rw [hfold]
  simpa [eq_comm] using isGreatest_foldl_max (value d)
    ((fields.zip placements).map fun z => asked z.1.isNamed z.2)

namespace UnionDraft

variable (record : Record) (placements : List Placement)

theorem isGreatest_size :
    IsGreatest {n | n = 0 ∨ ∃ z ∈ record.fields.zip placements, n = z.2.askedSize}
      (unionDraft record placements).size := by
  refine isGreatest_placeEach size (fun _ placement => placement.askedSize) ?_ 0 record.fields
    placements {}
  intro d i isNamed placement
  cases placement with
  | zeroWidth p => exact (Nat.max_zero _).symm
  | bitfield | bytes => rfl

theorem isGreatest_alignment :
    IsGreatest {a | a = 1 ∨ ∃ z ∈ record.fields.zip placements, a = z.2.asked z.1.isNamed}
      (unionDraft record placements).alignment := by
  refine isGreatest_placeEach alignment (fun isNamed placement => placement.asked isNamed) ?_ 0
    record.fields placements {}
  intro d i isNamed placement
  cases placement with
  | zeroWidth p => exact (Nat.max_zero _).symm
  | bitfield | bytes => rfl

/-- One more member raises the used bits to its own. -/
theorem isGreatest_dataSize_push {d : UnionDraft}
    (h : IsGreatest {n | n = 0 ∨ ∃ s ∈ d.members, n = s.counted} d.dataSize)
    (i length size asked : Nat) (tail : Bool) :
    IsGreatest {n | n = 0 ∨ ∃ s ∈ (d.push i length size asked tail).members, n = s.counted}
      (d.push i length size asked tail).dataSize := by
  have hunion : {n | n = 0 ∨ ∃ s ∈ (d.push i length size asked tail).members, n = s.counted} =
      {n | n = 0 ∨ ∃ s ∈ d.members, n = s.counted} ∪ {length} := by
    ext n
    simp only [push, List.mem_append, List.mem_singleton, or_and_right, exists_or, exists_eq_left,
      Set.mem_ofPred_eq, Set.mem_union, Set.mem_singleton_iff, or_assoc]
    rfl
  rw [hunion]
  exact h.union isGreatest_singleton

/-- The used bits are those of the longest member. -/
theorem isGreatest_dataSize :
    IsGreatest {n | n = 0 ∨ ∃ s ∈ (unionDraft record placements).members, n = s.counted}
      (unionDraft record placements).dataSize := by
  refine unionDraft_induction
    (motive := fun d => IsGreatest {n | n = 0 ∨ ∃ s ∈ d.members, n = s.counted} d.dataSize) ?_ ?_
  · simp [isGreatest_singleton]
  · intro d i field placement _ _ hd
    cases placement with
    | zeroWidth p => exact hd
    | bitfield | bytes => exact isGreatest_dataSize_push hd _ _ _ _ _

/-- All members of a union start at zero. -/
theorem offset_eq_zero : ∀ s ∈ (unionDraft record placements).members, s.offset = 0 := by
  refine unionDraft_induction (motive := fun d => ∀ s ∈ d.members, s.offset = 0)
    (fun _ hs => nomatch hs) ?_
  intro d i field placement _ _ hd
  have hpush (length : Nat) (s : Slot) (hs : s ∈ d.members ++ [⟨.field i, 0, some length⟩]) :
      s.offset = 0 := by
    rcases List.mem_append.mp hs with hs | hs
    · exact hd s hs
    · rw [List.mem_singleton.mp hs]
  cases placement with
  | zeroWidth p => exact hd
  | bitfield | bytes => exact hpush _

variable {record record' : Record} {placements placements' : List Placement}
  (hzip : ∀ z, z ∈ record'.fields.zip placements' ↔ z ∈ record.fields.zip placements)

include hzip

/-- Unions that place the same fields take the same size. -/
theorem size_congr :
    (unionDraft record' placements').size = (unionDraft record placements).size := by
  have hgreatest := isGreatest_size record' placements'
  simp only [hzip] at hgreatest
  exact hgreatest.unique (isGreatest_size record placements)

/-- Unions that place the same fields are aligned alike. -/
theorem alignment_congr :
    (unionDraft record' placements').alignment = (unionDraft record placements).alignment := by
  have hgreatest := isGreatest_alignment record' placements'
  simp only [hzip] at hgreatest
  exact hgreatest.unique (isGreatest_alignment record placements)

end UnionDraft

end Ideal

namespace UnionDraft

variable {record : Record} {placements : List Placement} {d : UnionDraft}
  (hideal : d.toIdeal = Ideal.unionDraft record placements)

include hideal

theorem isGreatest_dataSize_of_toIdeal :
    IsGreatest {n | n = 0 ∨ ∃ m ∈ d.members, n = m.extent.counted.count} d.dataSize.count := by
  have hgreatest := Ideal.UnionDraft.isGreatest_dataSize record placements
  rw [← hideal] at hgreatest
  simpa [toIdeal] using hgreatest

theorem offset_eq_zero_of_toIdeal : ∀ m ∈ d.members, m.offset.count = 0 := by
  have hzero := Ideal.UnionDraft.offset_eq_zero record placements
  rw [← hideal] at hzero
  exact fun m hm => hzero m.toIdeal (List.mem_map_of_mem hm)

/-- Unions that place the same fields take the same size and are aligned alike. -/
theorem congr_of_toIdeal {record' : Record} {placements' : List Placement} {d' : UnionDraft}
    (hideal' : d'.toIdeal = Ideal.unionDraft record' placements')
    (hzip : ∀ z, z ∈ record'.fields.zip placements' ↔ z ∈ record.fields.zip placements) :
    d'.size = d.size ∧ d'.alignment = d.alignment := by
  have hsize := Ideal.UnionDraft.size_congr hzip
  have halignment := Ideal.UnionDraft.alignment_congr hzip
  rw [← hideal, ← hideal'] at hsize halignment
  exact ⟨Quantity.ext hsize, Quantity.ext halignment⟩

end UnionDraft

/-! ### What a union is asked for -/

/-- The bytes that a union is asked for, given what is answered for types: the size of each field
that is no bit-field, and the whole base type of each bit-field with bits. -/
inductive Record.AsksBytes (types : Ty → Except Trap (Except LayoutError TypeLayout))
    (record : Record) : Nat → Prop where
  | field {field : Field} {layout : TypeLayout} : field ∈ record.fields →
      (∀ b, field.ty ≠ .bitfield b) → types field.ty = .ok (.ok layout) →
        AsksBytes types record layout.width.count
  | bitfield {field : Field} {b : Bitfield} : field ∈ record.fields → field.ty = .bitfield b →
      b.width.count ≠ 0 → AsksBytes types record b.underlying.size.count

/-- The layout of a union is made of three maxima, given what is answered for records and types, of
which `largest` is that of the sizes. The alignment is the largest one asked for; a union has no
bases. The size is the least multiple of it that covers the largest member, or an empty record if
there is none. The used bits are those of the longest member, and the only padding is between the
largest member and the size. -/
structure RecordLayout.Overlays (answer : RecordId → Except Trap Answer)
    (types : Ty → Except Trap (Except LayoutError TypeLayout)) (profile : Profile) (record : Record)
    (largest : Nat) (l : RecordLayout) : Prop where
  alignment : IsGreatest {a | record.AsksFor answer types a} l.alignment.count
  fullSize : IsGreatest {n | n = 0 ∨ record.AsksBytes types n} largest
  size : IsLeast {n | l.alignment.count ∣ n ∧
    if largest = 0 then profile.emptyRecordSize.count ≤ n else largest ≤ n} l.size.count
  dataSize : IsGreatest {n | n = 0 ∨ ∃ m ∈ l.members, n = m.extent.counted.count} l.dataSize.count
  padding : l.padding.map (fun p => (p.offset.count, p.offset.count + p.length.count)) =
    if largest < l.size.count then [(8 * largest, 8 * l.size.count)] else []

namespace LayoutContext

variable {c : LayoutContext} {answer : RecordId → Except Trap Answer} {record : Record}
  {bases : List StructDraft.ResolvedBase} {placements : List Placement} {l : RecordLayout}

/-- **A field is placed as its type says**, wherever it is declared. -/
theorem Resolves.mem_zip_iff (h : c.Resolves answer record bases placements)
    {z : Field × Placement} : z ∈ record.fields.zip placements ↔ z.1 ∈ record.fields ∧
      z.1.placement? (fun ty => LayoutT.value answer (c.typeLayout ty)) = some z.2 := by
  constructor
  · intro hz
    obtain ⟨i, hget⟩ := List.getElem?_of_mem hz
    obtain ⟨hfield, hplacement⟩ := List.getElem?_zip_eq_some.mp hget
    exact ⟨List.mem_of_getElem? hfield,
      resolveField_placement? (h.fieldsResolve.getElem? hfield hplacement)⟩
  · rintro ⟨hmem, hz⟩
    obtain ⟨i, hget⟩ := List.getElem?_of_mem hmem
    obtain ⟨placement, hplacement, hvalue⟩ := h.exists_placement hget
    cases hz.symm.trans (resolveField_placement? hvalue)
    exact List.mem_of_getElem? (List.getElem?_zip_eq_some.mpr ⟨hget, hplacement⟩)

/-- What is asked for when the fields are placed is what the union is asked for. -/
theorem Resolves.asksBytes_iff (h : c.Resolves answer record bases placements) {n : Nat} :
    (n = 0 ∨ ∃ z ∈ record.fields.zip placements, n = z.2.askedSize) ↔
      n = 0 ∨ record.AsksBytes (fun ty => LayoutT.value answer (c.typeLayout ty)) n := by
  constructor
  · rintro (hzero | ⟨⟨field, placement⟩, hz, rfl⟩)
    · exact .inl hzero
    · obtain ⟨i, hget⟩ := List.getElem?_of_mem hz
      obtain ⟨hfield, hplacement⟩ := List.getElem?_zip_eq_some.mp hget
      have hmem := List.mem_of_getElem? hfield
      refine resolveField_cases (motive := fun placement => placement.askedSize = 0 ∨
        record.AsksBytes _ placement.askedSize) ?_ ?_ ?_
        (h.fieldsResolve.getElem? hfield hplacement)
      · exact fun _ _ _ => .inl rfl
      · exact fun b hty hpos _ => .inr (.bitfield hmem hty hpos.ne')
      · exact fun layout hne hlayout _ => .inr (.field hmem hne hlayout)
  · rintro (hzero | hasks)
    · exact .inl hzero
    · refine .inr ?_
      cases hasks with
      | @field field layout hmem hne hlayout =>
        refine ⟨(field, .bytes layout), h.mem_zip_iff.mpr ⟨hmem, ?_⟩, rfl⟩
        rw [Field.placement?]
        split
        · exact absurd ‹_› (hne _)
        · rw [hlayout]
      | @bitfield field b hmem hty hwidth =>
        refine ⟨(field, .bitfield b), h.mem_zip_iff.mpr ⟨hmem, ?_⟩, rfl⟩
        rw [Field.placement?, hty]
        exact congrArg some (if_neg (mt Quantity.isZero_iff.mp hwidth))

/-- The layout of a union is that of the ideal draft. -/
theorem Resolves.exists_unionDraft (h : c.Resolves answer record bases placements)
    (hkind : record.kind = .union)
    (hl : LayoutT.value answer (c.layoutByKind record) = .ok (.ok l)) :
    ∃ d : UnionDraft, d.toIdeal = Ideal.unionDraft record placements ∧ d.Finishes c.profile l := by
  rw [layoutByKind, hkind] at hl
  obtain ⟨d, hadded, hfinish⟩ := (LayoutT.value_bind_eq_ok_iff answer).mp hl
  obtain ⟨d', hd', hideal⟩ := UnionDraft.addFieldsFrom_agrees h.fieldsResolve hadded
  cases hd'
  exact ⟨d, hideal, UnionDraft.finish_eq_ok_iff.mp hfinish⟩

/-- Fields whose sizes fit in bits are all placed, and what the draft is finished to is the
layout. -/
theorem Resolves.exists_unionDraft_of_bounded (h : c.Resolves answer record bases placements)
    (hkind : record.kind = .union) (hbounded : ∀ placement ∈ placements, placement.Bounded) :
    ∃ d : UnionDraft, d.toIdeal = Ideal.unionDraft record placements ∧
      ∀ l, d.Finishes c.profile l →
        LayoutT.value answer (c.layoutByKind record) = .ok (.ok l) := by
  obtain ⟨added, hadded⟩ := UnionDraft.addFieldsFrom_eq_ok (d := .start)
    (h.fieldsResolve.complete hbounded)
  obtain ⟨d, rfl, hideal⟩ := UnionDraft.addFieldsFrom_agrees h.fieldsResolve hadded
  refine ⟨d, hideal, fun l hfinishes => ?_⟩
  rw [layoutByKind, hkind]
  exact (LayoutT.value_bind_eq_ok_iff answer).mpr
    ⟨d, hadded, UnionDraft.finish_eq_ok_iff.mpr hfinishes⟩

/-- The padding of a union is all that lies behind its largest member. -/
theorem padding_ends {d : UnionDraft} (hfinishes : d.Finishes c.profile l)
    (hbits : 8 * l.size.count < 2 ^ 64) :
    l.padding.map (fun p => (p.offset.count, p.offset.count + p.length.count)) =
      if d.size.count < l.size.count then [(8 * d.size.count, 8 * l.size.count)] else [] := by
  obtain ⟨padding, hpadding, hmap⟩ := UnionDraft.padding_eq_ok (d := d) hbits
  cases hpadding.symm.trans hfinishes.padding_eq
  have hends : l.padding.map (fun p => (p.offset.count, p.offset.count + p.length.count)) =
      (l.padding.map BitRange.toIdeal).map fun p => (p.offset, p.offset + p.length) := by
    rw [List.map_map]
    rfl
  rw [hends, hmap, Ideal.gap]
  by_cases hlt : d.size.count < l.size.count
  · have hend : 8 * d.size.count + (8 * l.size.count - 8 * d.size.count) = 8 * l.size.count :=
      Nat.add_sub_of_le (by omega)
    rw [if_pos hlt, if_pos (by omega), List.map_singleton]
    dsimp only
    rw [hend]
  · rw [if_neg hlt, if_neg (by omega), List.map_nil]

/-- **Every layout of a union is made of three maxima.** -/
theorem overlays_of_answer {r : RecordId} (hclosed : c.schema.Closed)
    (hrecord : c.schema.records.get? r = some record) (hkind : record.kind = .union)
    (h : c.answer r = .ok (.ok l)) : ∃ largest, l.Overlays c.answer
      (fun ty => LayoutT.value c.answer (c.typeLayout ty)) c.profile record largest := by
  have hl := value_layoutByKind_of_answer hclosed hrecord h
  have haccounted : l.Accounted := HasAnswer.accounted ((hasAnswer_iff hclosed).mpr h)
  obtain ⟨bases, placements, hresolves⟩ := layoutByKind_resolves hl
  obtain ⟨d, hideal, hfinishes⟩ := hresolves.exists_unionDraft hkind hl
  have hsize : d.size.count = (Ideal.unionDraft record placements).size :=
    congrArg Ideal.UnionDraft.size hideal
  have halignment : d.alignment.count = (Ideal.unionDraft record placements).alignment :=
    congrArg Ideal.UnionDraft.alignment hideal
  refine ⟨d.size.count, ?_, ?_, ?_, ?_, padding_ends hfinishes haccounted.bits_lt⟩
  · have hgreatest := Ideal.UnionDraft.isGreatest_alignment record placements
    rw [← halignment, ← hfinishes.alignment_eq] at hgreatest
    refine hresolves.isGreatest_asksFor (hclosed.unionBases r record hrecord) ?_
    simpa [hresolves.unionBases hkind] using hgreatest
  · have hgreatest := Ideal.UnionDraft.isGreatest_size record placements
    simp only [hresolves.asksBytes_iff] at hgreatest
    rwa [hsize]
  · have hpow := haccounted.alignment_isPowerOfTwo
    have hcount := Profile.eq_of_recordSize?_eq_some hfinishes.size_eq
      (hfinishes.alignment_eq ▸ hpow)
    rw [hcount, ← hfinishes.alignment_eq]
    exact isLeast_recordSize _ _ (Nat.pos_of_isPowerOfTwo hpow)
  · rw [hfinishes.dataSize_eq, hfinishes.members_eq]
    exact UnionDraft.isGreatest_dataSize_of_toIdeal hideal

end LayoutContext

end AbiLayout
