import AbiLayout.Proofs.Ideal.Comparison
import AbiLayout.Proofs.Positions

/-!
# Appending fields moves nothing

Take two structs with the same bases, the fields of the one being the first fields of the other.
What is placed for a field is settled by its type, and a step has one outcome, so both are put
together in the same drafts up to the last field that they share. From there on the longer one only
adds: it appends members, its alignment does not shrink, and its cursor does not move back. What the
shorter one does at its end, closing the unit of a run and rounding up, happens to its size alone,
and the size of the longer one covers as much.

## Main definitions

* `StructDraft.Continues`: a draft that another one leads to.

## Main results

* `StructDraft.Course.filled_eq`: both structs have the same drafts as far as they share fields.
* `StructDraft.Course.continues_filled`: later drafts continue earlier ones.
* `Ideal.recordSize_mono`: the size covers what a smaller one covers.
* `Session.Reachable.record_appended`: what two sessions say of the two structs.
-/

namespace AbiLayout

/-- A size that covers more, and is a multiple of more, is no smaller, if an empty record takes no
more than one byte. -/
theorem Ideal.recordSize_mono {profile : Profile} (hempty : profile.emptyRecordSize.count ≤ 1)
    {x y a b : Nat} (hxy : x ≤ y) (ha : 0 < a) (hb : 0 < b) (hab : a ∣ b) :
    recordSize profile x a ≤ recordSize profile y b := by
  have hleast : (if x = 0 then profile.emptyRecordSize.count else x) ≤
      if y = 0 then profile.emptyRecordSize.count else y := by
    split <;> split <;> omega
  exact nextMultiple_le ha (hab.trans (dvd_nextMultiple _ b)) (hleast.trans (le_nextMultiple _ hb))

namespace LayoutContext

variable {c : LayoutContext} {answer : RecordId → Except Trap Answer} {record record' : Record}

/-- The layouts of bases do not depend on the record that has them. -/
theorem resolveBases_unique {bases : List Base} {resolved resolved' : List StructDraft.ResolvedBase}
    (h : LayoutT.value answer (StructDraft.resolveBases c record bases) = .ok (.ok resolved))
    (h' : LayoutT.value answer (StructDraft.resolveBases c record' bases) = .ok (.ok resolved')) :
    resolved = resolved' := by
  induction bases generalizing resolved resolved' with
  | nil =>
    cases h
    cases h'
    rfl
  | cons base bases ih =>
    obtain ⟨baseRecord, l, later, hbase, -, hl, -, hlater, rfl⟩ :=
      resolveBases_cons_eq_ok_iff.mp h
    obtain ⟨baseRecord', l', later', hbase', -, hl', -, hlater', rfl⟩ :=
      resolveBases_cons_eq_ok_iff.mp h'
    cases hbase.symm.trans hbase'
    cases hl.symm.trans hl'
    rw [ih hlater hlater']

end LayoutContext

namespace StructDraft

/-! ### Steps -/

variable {d d₁ d₂ : StructDraft} {i : Nat}

/-- A step that places a base has one outcome. -/
theorem PlacesBase.unique {layout : RecordLayout} (h : d.PlacesBase i layout d₁)
    (h' : d.PlacesBase i layout d₂) : d₁ = d₂ := by
  obtain ⟨step, -, h⟩ := h
  obtain ⟨step', -, h'⟩ := h'
  cases h.symm.trans h'
  rfl

/-- A step that places a field has one outcome. -/
theorem Places.unique {isNamed : Bool} {placement : Placement}
    (h : d.Places i isNamed placement d₁) (h' : d.Places i isNamed placement d₂) : d₁ = d₂ := by
  obtain ⟨step, -, h⟩ := h
  obtain ⟨step', -, h'⟩ := h'
  cases h.symm.trans h'
  rfl

/-- The draft `d'` has all members of `d` where they are, and is no less aligned and filled. -/
structure Continues (policy : BitfieldPolicy) (d d' : StructDraft) : Prop where
  members : d.members <+: d'.members
  alignment_le : d.alignment.count ≤ d'.alignment.count
  cursor : Ideal.Cursor.Grows policy d.cursor.toIdeal d'.cursor.toIdeal

variable {policy : BitfieldPolicy}

theorem Continues.refl (d : StructDraft) : Continues policy d d :=
  ⟨List.prefix_rfl, le_rfl, .refl _⟩

theorem Continues.trans {d₃ : StructDraft} (h : Continues policy d₁ d₂)
    (h' : Continues policy d₂ d₃) : Continues policy d₁ d₃ :=
  ⟨h.members.trans h'.members, h.alignment_le.trans h'.alignment_le, h.cursor.trans h'.cursor⟩

namespace Course

/-! ### The drafts that two structs share -/

section Shared

variable {c : LayoutContext} {answer : RecordId → Except Trap Answer} {record record' : Record}
  {bases : List ResolvedBase} {placements placements' : List Placement} {l l' : RecordLayout}
  (k : Course c.profile record bases placements l)
  (k' : Course c.profile record' bases placements' l')

/-- Structs with the same bases have the same drafts among them. -/
theorem based_eq {i : Nat} (hi : i ≤ bases.length) : k.based i = k'.based i := by
  induction i with
  | zero => rw [k.based_zero, k'.based_zero]
  | succ i ih =>
    have hget : bases[i]? = some bases[i] := List.getElem?_eq_getElem hi
    have hstep := k.placesBase hget
    rw [ih (Nat.le_of_succ_le hi)] at hstep
    exact hstep.unique (k'.placesBase hget)

/-- **Two structs have the same drafts as far as they share fields.** -/
theorem filled_eq (h : c.Resolves answer record bases placements)
    (h' : c.Resolves answer record' bases placements') (hfields : record.fields <+: record'.fields)
    {i : Nat} (hi : i ≤ record.fields.length) : k.filled i = k'.filled i := by
  obtain ⟨rest, hrest⟩ := hfields
  induction i with
  | zero => rw [k.filled_zero, k'.filled_zero, k.based_eq k' le_rfl]
  | succ i ih =>
    have hget : record.fields[i]? = some record.fields[i] := List.getElem?_eq_getElem hi
    have hget' : record'.fields[i]? = some record.fields[i] := by
      rw [← hrest, List.getElem?_append_left hi, hget]
    obtain ⟨placement, hplacement, hvalue⟩ := h.exists_placement hget
    obtain ⟨placement', hplacement', hvalue'⟩ := h'.exists_placement hget'
    obtain rfl : placement = placement' := Option.some.inj
      ((LayoutContext.resolveField_placement? hvalue).symm.trans
        (LayoutContext.resolveField_placement? hvalue'))
    have hstep := k.places hget hplacement
    rw [ih (Nat.le_of_succ_le hi)] at hstep
    exact hstep.unique (k'.places hget' hplacement')

end Shared

/-! ### Later drafts -/

section Later

variable {c : LayoutContext} {answer : RecordId → Except Trap Answer} {record : Record}
  {bases : List ResolvedBase} {placements : List Placement} {l : RecordLayout}
  (k : Course c.profile record bases placements l)
  (h : c.Resolves answer record bases placements)
  (hframed : ∀ placement ∈ placements, placement.Framed)

include h hframed

/-- No field moves the cursor back, or takes room away. -/
theorem grows_succ {i : Nat} (hi : i < record.fields.length) :
    Ideal.Cursor.Grows c.profile.bitfieldPolicy (k.cursorAt i) (k.cursorAt (i + 1)) := by
  obtain ⟨-, hvalid⟩ := k.valid_cursorAt h hframed hi.le
  obtain ⟨-, hvalid'⟩ := k.valid_cursorAt (i := i + 1) h hframed hi
  have hget : record.fields[i]? = some record.fields[i] := List.getElem?_eq_getElem hi
  obtain ⟨placement, hplacement, -⟩ := h.exists_placement hget
  have hmem := hframed placement (List.mem_of_getElem? hplacement)
  cases placement with
  | zeroWidth p =>
    rw [k.break_step h hframed hplacement]
    exact Ideal.Cursor.grows_breakRun hvalid hmem
  | bitfield b =>
    obtain ⟨m, -, -, -, hbits⟩ := k.bits_step h hframed hplacement
    have hgrows : Ideal.Cursor.Grows c.profile.bitfieldPolicy (k.cursorAt i)
        ((k.cursorAt i).placeBits c.profile.bitfieldPolicy b.underlying b.width.count).2 :=
      Ideal.Cursor.grows_placeBits hvalid hmem.1
    rw [hbits] at hgrows
    exact hgrows
  | bytes layout =>
    obtain ⟨m, -, -, -, hroom, -, hcursor⟩ := k.whole_step h hframed hplacement
    have hstart := Ideal.Cursor.dataSize_le_room hvalid
    have hstop := Ideal.Cursor.dataSize_le_room hvalid'
    have hend : (k.cursorAt (i + 1)).dataSize = m.offset.count + m.extent.counted.count :=
      congrArg Ideal.Cursor.dataSize hcursor
    exact ⟨by omega, by omega⟩

/-- **Later drafts continue earlier ones.** -/
theorem continues_filled {i j : Nat} (hij : i ≤ j) (hj : j ≤ record.fields.length) :
    Continues c.profile.bitfieldPolicy (k.filled i) (k.filled j) := by
  induction j, hij using Nat.le_induction with
  | base => exact .refl _
  | succ j hij ih =>
    have hget : record.fields[j]? = some record.fields[j] := List.getElem?_eq_getElem hj
    obtain ⟨placement, hplacement, -⟩ := h.exists_placement hget
    have hplaces := k.places hget hplacement
    refine (ih (Nat.le_of_succ_le hj)).trans ⟨hplaces.adds.isPrefix, ?_, k.grows_succ h hframed hj⟩
    rw [hplaces.alignment_eq]
    exact Nat.le_max_left _ _

end Later

end Course

end StructDraft

/-! ### Two layouts -/

namespace LayoutContext

variable {c : LayoutContext} {r r' : RecordId} {record record' : Record} {l l' : RecordLayout}

/-- **Appending fields moves nothing** in the layouts of two structs with the same bases. -/
theorem appended_of_answers (hclosed : c.schema.Closed)
    (primitive : ∀ p, c.schema.Mentions p → p.Usable)
    (hempty : c.profile.emptyRecordSize.count ≤ 1)
    (hrecord : c.schema.records.get? r = some record)
    (hrecord' : c.schema.records.get? r' = some record') (hkind : record.kind = .struct)
    (hkind' : record'.kind = .struct) (hbases : record.bases = record'.bases)
    (hfields : record.fields <+: record'.fields) (h : c.answer r = .ok (.ok l))
    (h' : c.answer r' = .ok (.ok l')) :
    l.members <+: l'.members ∧ l.alignment ≤ l'.alignment ∧ l.dataSize ≤ l'.dataSize ∧
      l.size ≤ l'.size := by
  have hl := value_layoutByKind_of_answer hclosed hrecord h
  have hl' := value_layoutByKind_of_answer hclosed hrecord' h'
  obtain ⟨bases, placements, hresolves⟩ := layoutByKind_resolves hl
  obtain ⟨bases', placements', hresolves'⟩ := layoutByKind_resolves hl'
  obtain rfl : bases = bases' :=
    resolveBases_unique (hresolves.basesResolve hkind) (hbases ▸ hresolves'.basesResolve hkind')
  obtain ⟨k⟩ := hresolves.nonempty_course hkind hl
  obtain ⟨k'⟩ := hresolves'.nonempty_course hkind' hl'
  have hframed' := hresolves'.framed hrecord' primitive
  have hshared := k.filled_eq k' hresolves hresolves' hfields le_rfl
  have hcontinues := k'.continues_filled hresolves' hframed' hfields.length_le le_rfl
  rw [← hshared] at hcontinues
  have halign : l.alignment.count ≤ l'.alignment.count := by
    rw [k.finishes.alignment_eq, k'.finishes.alignment_eq]
    exact hcontinues.alignment_le
  refine ⟨?_, halign, ?_, ?_⟩
  · rw [k.finishes.members_eq, k'.finishes.members_eq]
    exact hcontinues.members
  · rw [k.finishes.dataSize_eq, k'.finishes.dataSize_eq]
    exact hcontinues.cursor.dataSize_le
  · have hpow (q : RecordId) (lq : RecordLayout) (hq : c.answer q = .ok (.ok lq)) :
        lq.alignment.count.isPowerOfTwo :=
      (HasAnswer.accounted ((hasAnswer_iff hclosed).mpr hq)).alignment_isPowerOfTwo
    obtain ⟨hpolicy, hvalid⟩ :=
      k.valid_cursorAt hresolves (hresolves.framed hrecord primitive) le_rfl
    obtain ⟨hpolicy', hvalid'⟩ := k'.valid_cursorAt hresolves' hframed' le_rfl
    rw [Quantity.le_iff, k.finishes.size_count_eq (hpolicy ▸ hvalid) (hpow r l h),
      k'.finishes.size_count_eq (hpolicy' ▸ hvalid') (hpow r' l' h'), hpolicy, hpolicy']
    refine Ideal.recordSize_mono hempty ?_ (Nat.pos_of_isPowerOfTwo (hpow r l h))
      (Nat.pos_of_isPowerOfTwo (hpow r' l' h'))
      (dvd_of_isPowerOfTwo_of_le (hpow r l h) (hpow r' l' h') halign)
    exact Nat.div_le_div_right (Nat.add_le_add_right hcontinues.cursor.room_le 7)

end LayoutContext

namespace Session.Reachable

variable {d : Declarations} {schema : Schema} {profile : Profile}
  {settings settings' : SinkSettings} {s s' t t' : Session} {r r' : RecordId}
  {record record' : Record} {l l' : RecordLayout}

/-- **Appending fields moves nothing.** Let all base types be usable, and an empty record take no
more than one byte. In every session under every profile, take two structs of one schema with the
same bases, the fields of the first being the first fields of the second. If both are laid out, the
members of the first are the first members of the second, where they are there, and the alignment,
the data size and the size of the first are at most those of the second. -/
theorem record_appended (hclose : d.close = .ok schema)
    (primitive : ∀ p, schema.Mentions p → p.Usable) (hempty : profile.emptyRecordSize.count ≤ 1)
    (hs : Reachable schema profile settings s) (hs' : Reachable schema profile settings' s')
    (hrecord : schema.records.get? r = some record)
    (hrecord' : schema.records.get? r' = some record') (hkind : record.kind = .struct)
    (hkind' : record'.kind = .struct) (hbases : record.bases = record'.bases)
    (hfields : record.fields <+: record'.fields) (h : s.record r = .ok (.ok l, t))
    (h' : s'.record r' = .ok (.ok l', t')) :
    l.members <+: l'.members ∧ l.alignment ≤ l'.alignment ∧ l.dataSize ≤ l'.dataSize ∧
      l.size ≤ l'.size := by
  obtain ⟨hclosed, -⟩ := Declarations.close_closed hclose
  have hanswer := record_sound hs.sound h
  have hanswer' := record_sound hs'.sound h'
  rw [hs.context_eq, LayoutContext.hasAnswer_iff hclosed] at hanswer
  rw [hs'.context_eq, LayoutContext.hasAnswer_iff hclosed] at hanswer'
  exact LayoutContext.appended_of_answers hclosed primitive hempty hrecord hrecord' hkind hkind'
    hbases hfields hanswer hanswer'

end Session.Reachable

/-- A struct, and two with it as their base, of which the second has more fields. -/
def Schema.grown : Schema where
  records := ⟨#[
    ⟨some "header", .struct, [],
      [⟨some "kind", .primitive ⟨"int", .of 4, .of 4, .signed⟩, false⟩]⟩,
    ⟨some "short", .struct, [⟨.of 0, false⟩],
      [⟨some "urgent", .bitfield (.ofWidth ⟨"int", .of 4, .of 4, .signed⟩ (.of 3)), false⟩]⟩,
    ⟨some "long", .struct, [⟨.of 0, false⟩],
      [⟨some "urgent", .bitfield (.ofWidth ⟨"int", .of 4, .of 4, .signed⟩ (.of 3)), false⟩,
       ⟨some "level", .bitfield (.ofWidth ⟨"int", .of 4, .of 4, .signed⟩ (.of 5)), false⟩,
       ⟨some "next", .voidPointer, false⟩]⟩],
    by decide⟩
  pointerSize := .of 8
  pointerAlignment := .of 8

/-- The declarations of the records of `Schema.grown`. -/
def Declarations.grown : Declarations where
  profile := .lp64
  records := ⟨(Schema.grown.records.values.toList.map fun record =>
    ⟨record.name, record.kind, some (record.bases, record.fields)⟩).toArray, by decide⟩

theorem Declarations.close_grown : grown.close = .ok Schema.grown := rfl

/-- Under the strict policy, the unit that ends the shorter struct of `Schema.grown` takes one more
bit-field in the longer one. -/
theorem Session.Reachable.record_appended_grown :
    ∃ l l' t t', (Session.start Schema.grown (Profile.lp64.withPolicy .strictUnits) .keepAll).record
        (.of 1) = .ok (.ok l, t) ∧ l.size.count = 8 ∧ l.members.length = 2 ∧
      (Session.start Schema.grown (Profile.lp64.withPolicy .strictUnits) .keepAll).record
        (.of 2) = .ok (.ok l', t') ∧ l'.size.count = 16 ∧
      l.members <+: l'.members ∧ l.alignment ≤ l'.alignment ∧ l.dataSize ≤ l'.dataSize ∧
      l.size ≤ l'.size := by
  obtain ⟨l, t, h, hsize, hlength⟩ : ∃ l t, (Session.start Schema.grown
      (Profile.lp64.withPolicy .strictUnits) .keepAll).record (.of 1) = .ok (.ok l, t) ∧
        l.size.count = 8 ∧ l.members.length = 2 := ⟨_, _, rfl, rfl, rfl⟩
  obtain ⟨l', t', h', hsize'⟩ : ∃ l' t', (Session.start Schema.grown
      (Profile.lp64.withPolicy .strictUnits) .keepAll).record (.of 2) = .ok (.ok l', t') ∧
        l'.size.count = 16 := ⟨_, _, rfl, rfl⟩
  obtain ⟨record, record', hrecord, hrecord', hkind, hkind', hbases, hfields⟩ :
      ∃ record record', Schema.grown.records.get? (.of 1) = some record ∧
        Schema.grown.records.get? (.of 2) = some record' ∧ record.kind = .struct ∧
        record'.kind = .struct ∧ record.bases = record'.bases ∧
        record.fields <+: record'.fields := ⟨_, _, rfl, rfl, rfl, rfl, rfl, _, rfl⟩
  exact ⟨l, l', t, t', h, hsize, hlength, h', hsize', record_appended Declarations.close_grown
    (Schema.forall_mentions (by decide)) le_rfl .start .start hrecord hrecord' hkind hkind' hbases
    hfields h h'⟩

end AbiLayout
