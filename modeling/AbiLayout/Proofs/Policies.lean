import AbiLayout.Proofs.Agreement.Bits
import AbiLayout.Proofs.Overflow
import AbiLayout.Proofs.Simulation

/-!
# The Itanium policy never takes more room

Take two sessions over one schema without zero-width bit-fields, under profiles that differ in the
bit-field policy alone. By induction on how deep records nest, every record that is laid out under
the strict policy is laid out under the Itanium policy, and within the strict layout. Nothing has to
be asked of pointers or of the alignments of base types: a strict layout shows that whatever it asks
for in bits fits, and the Itanium policy asks for no more.

## Main results

* `LayoutContext.layoutByKind_within`: a record over records that are laid out within others.
* `LayoutContext.answersWithin_answerWithin`: all records, to any depth.
* `Session.Reachable.itanium_le_strictUnits`: what two sessions say of a record.
-/

namespace AbiLayout

/-- What related elements take over from the right holds on the left. -/
theorem forall_mem_of_forall₂ {α β : Type} {R : α → β → Prop} {P : α → Prop} {Q : β → Prop}
    (hR : ∀ a b, R a b → Q b → P a) {as : List α} {bs : List β} (h : List.Forall₂ R as bs)
    (hQ : ∀ b ∈ bs, Q b) : ∀ a ∈ as, P a := by
  induction h with
  | nil => exact fun _ hmem => nomatch hmem
  | cons hab _ ih =>
    obtain ⟨hhead, htail⟩ := List.forall_mem_cons.mp hQ
    exact List.forall_mem_cons.mpr ⟨hR _ _ hab hhead, ih htail⟩

/-- No field of the schema is a zero-width bit-field. -/
def Schema.NoZeroWidth (s : Schema) : Prop :=
  ∀ r record, s.records.get? r = some record → ∀ field ∈ record.fields, ∀ b,
    field.ty = .bitfield b → b.width.count ≠ 0

namespace Placement.Within

variable {p p' : Placement}

/-- A member that fits under the strict policy fits under the Itanium policy, unless it is a
zero-width bit-field. -/
theorem fits (h : p.Within p') (hp' : p'.Fits .strictUnits) : p.Fits .itanium := by
  cases h with
  | bitfield b => trivial
  | @bytes l l' hl =>
    obtain ⟨halign, hwidth⟩ := hp'
    refine ⟨by rwa [hl.alignment_eq], fun hsized => ?_⟩
    rw [hl.completeness_eq] at hsized
    exact (Nat.mul_le_mul_left 8 hl.width.le).trans_lt (hwidth hsized)

theorem bounded (h : p.Within p') (hp' : p'.Bounded) : p.Bounded := by
  cases h with
  | bitfield b => trivial
  | bytes hl => exact (Nat.mul_le_mul_left 8 hl.width.le).trans_lt hp'

end Placement.Within

namespace LayoutContext

variable {schema : Schema} {profile : Profile} {answer answer' : RecordId → Except Trap Answer}
  {r : RecordId} {record : Record} {bases bases' : List StructDraft.ResolvedBase}
  {placements placements' : List Placement} {l' : RecordLayout}

/-- Members fit in bits if they are within others that do. -/
theorem MembersFit.of_within
    (hbases : List.Forall₂ (fun base base' => base.layout.Within base'.layout) bases bases')
    (hplacements : List.Forall₂ Placement.Within placements placements')
    (h : MembersFit .strictUnits record bases' placements') :
    MembersFit .itanium record bases placements where
  base hkind := by
    refine forall_mem_of_forall₂ (fun base base' hbase hfits => ?_) hbases (h.base hkind)
    rw [hbase.alignment_eq]
    exact ⟨hfits.1, (Nat.mul_le_mul_left 8 hbase.size.le).trans_lt hfits.2⟩
  field hkind := forall_mem_of_forall₂ (fun _ _ hp => hp.fits) hplacements (h.field hkind)
  unionField hkind :=
    forall_mem_of_forall₂ (fun _ _ hp => hp.bounded) hplacements (h.unionField hkind)

/-- **A record is laid out within its strict layout**, over records that are. -/
theorem layoutByKind_within (husable : schema.Usable) (hbits : schema.NoZeroWidth)
    (hrecord : schema.records.get? r = some record) (hanswers : AnswersWithin answer answer')
    (hpow : ∀ r l, answer r = .ok (.ok l) → l.alignment.count.isPowerOfTwo)
    (hpow' : ∀ r l, answer' r = .ok (.ok l) → l.alignment.count.isPowerOfTwo)
    (h : LayoutT.value answer'
      (layoutByKind ⟨schema, profile.withPolicy .strictUnits⟩ record) = .ok (.ok l')) :
    ∃ l bases placements,
      LayoutT.value answer
        (layoutByKind ⟨schema, profile.withPolicy .itanium⟩ record) = .ok (.ok l) ∧
      Derives ⟨schema, profile.withPolicy .itanium⟩ answer record bases placements l ∧
      l.Within l' := by
  obtain ⟨bases', placements', hderives'⟩ := derives_of_layoutByKind husable hrecord hpow' h
  obtain ⟨bases, placements, hresolves, hbases, hplacements⟩ :
      ∃ bases placements,
        Resolves ⟨schema, profile.withPolicy .itanium⟩ answer record bases placements ∧
        List.Forall₂ (fun base base' => base.layout.Within base'.layout) bases bases' ∧
        List.Forall₂ Placement.Within placements placements' := by
    refine hderives'.resolves.exists_within hanswers ?_ (hbits r record hrecord)
    rfl
  have hbasesPow := hresolves.of_mem_bases hpow
  have hsound := hresolves.sound husable hrecord hpow
  have hwithin : (Ideal.recordLayout (profile.withPolicy .itanium) record bases
      placements).Within l'.toIdeal := by
    rw [hderives'.toIdeal_eq]
    exact Ideal.recordLayout_within hbases hplacements hderives'.bases_isPowerOfTwo
      hderives'.sound hderives'.resolves.matches
  obtain ⟨out, hout⟩ := hresolves.exists_layoutByKind hbasesPow hsound
    ((hderives'.resolves.membersFit h).of_within hbases hplacements)
  have hagrees := layoutByKind_agrees hresolves hbasesPow hsound hout
  cases out with
  | error e =>
    -- too large for the Itanium policy would be too large for the strict one
    have hlt := (Nat.mul_le_mul_left 8 hwithin.size.le).trans_lt hderives'.bits_lt
    exact absurd hagrees.2 (Nat.not_le.mpr hlt)
  | ok l =>
    obtain ⟨hideal, hlt⟩ := hagrees
    have hbitsLt : 8 * l.size.count < 2 ^ 64 := by
      rw [← hideal] at hlt
      exact hlt
    rw [← hideal] at hwithin
    exact ⟨l, bases, placements, hout, ⟨hresolves, hbasesPow, hsound, hideal, hbitsLt⟩,
      RecordLayout.within_of_toIdeal hwithin⟩

/-- To any depth, the layouts under the Itanium policy are within those under the strict one. -/
theorem answersWithin_answerWithin (husable : schema.Usable) (hbits : schema.NoZeroWidth)
    (depth : Nat) :
    AnswersWithin
      (answerWithin ⟨schema, profile.withPolicy .itanium⟩ depth)
      (answerWithin ⟨schema, profile.withPolicy .strictUnits⟩ depth) := by
  induction depth with
  | zero => exact fun _ _ h => nomatch h
  | succ depth ih =>
    intro r l' h
    obtain ⟨record, hrecord, hlayout⟩ := recordLayout_eq_ok h
    obtain ⟨l, bases, placements, hl, hderives, hwithin⟩ := layoutByKind_within husable hbits
      hrecord ih (answerWithin_isPowerOfTwo husable) (answerWithin_isPowerOfTwo husable) hlayout
    exact ⟨l, hderives.value_recordLayout hrecord hl, hwithin⟩

end LayoutContext

namespace Session.Reachable

variable {d : Declarations} {schema : Schema} {profile : Profile}
  {settings settings' : SinkSettings} {s s' t' : Session} {r : RecordId} {l' : RecordLayout}

/-- **The Itanium policy never takes more room than the strict one.** Let all base types be usable,
and no field be a zero-width bit-field. In two sessions whose profiles differ in the bit-field
policy alone, a record with a strict layout has an Itanium layout: with the same alignment, flexible
tail and emptiness and the same members in the same order, none of them past its strict place, and
with a data size and a size that are at most the strict ones. -/
theorem itanium_le_strictUnits (hclose : d.close = .ok schema) (husable : schema.Usable)
    (hbits : schema.NoZeroWidth)
    (hs : Reachable schema (profile.withPolicy .itanium) settings s)
    (hs' : Reachable schema (profile.withPolicy .strictUnits) settings' s')
    (h : s'.record r = .ok (.ok l', t')) :
    ∃ l t, s.record r = .ok (.ok l, t) ∧
      l.alignment = l'.alignment ∧
      l.hasFlexibleTail = l'.hasFlexibleTail ∧
      l.isEmpty = l'.isEmpty ∧
      List.Forall₂ (fun m m' => m.member = m'.member ∧ m.offset ≤ m'.offset) l.members l'.members ∧
      l.dataSize ≤ l'.dataSize ∧
      l.size ≤ l'.size := by
  have hclosed := (Declarations.close_closed hclose).1
  have hanswer' := record_sound hs'.sound h
  rw [hs'.context_eq, LayoutContext.hasAnswer_iff hclosed] at hanswer'
  obtain ⟨l, hanswer, hwithin⟩ :
      ∃ l, LayoutContext.answer ⟨schema, profile.withPolicy .itanium⟩ r = .ok (.ok l) ∧
        l.Within l' :=
    LayoutContext.answersWithin_answerWithin husable hbits _ r l' hanswer'
  rw [← hs.context_eq] at hanswer
  obtain ⟨t, hrun⟩ := record_eq_ok hs.sound hanswer
  exact ⟨l, t, hrun, hwithin.alignment_eq, hwithin.hasFlexibleTail_eq, hwithin.isEmpty_eq,
    hwithin.members, hwithin.dataSize.le, hwithin.size.le⟩

end Session.Reachable

/-- A struct with a bit-field and a letter, and one with three of them. -/
def Schema.packed : Schema where
  records := ⟨#[
    ⟨some "cell", .struct, [],
      [⟨some "level", .bitfield (.ofWidth ⟨"int", .of 4, .of 4, .signed⟩ (.of 3)), false⟩,
       ⟨some "letter", .primitive ⟨"char", .of 1, .of 1, .signedChar⟩, false⟩]⟩,
    ⟨some "row", .struct, [], [⟨some "cells", .array (.record (.of 0)) (some 3), false⟩]⟩],
    by decide⟩
  pointerSize := .of 8
  pointerAlignment := .of 8

/-- The declarations of the records of `Schema.packed`. -/
def Declarations.packed : Declarations where
  profile := .lp64
  records := ⟨(Schema.packed.records.values.toList.map fun record =>
    ⟨record.name, record.kind, some (record.bases, record.fields)⟩).toArray, by decide⟩

theorem Declarations.close_packed : packed.close = .ok Schema.packed := rfl

theorem Schema.packed_usable : packed.Usable := ⟨forall_mentions (by decide), ⟨3, rfl⟩⟩

theorem Schema.packed_noZeroWidth : packed.NoZeroWidth := by
  have hall : ∀ record ∈ packed.records.values.toList, ∀ field ∈ record.fields, ∀ b,
      field.ty = .bitfield b → b.width.count ≠ 0 := by
    simp [packed, Bitfield.ofWidth, Quantity.of]
  intro r record hrecord
  exact hall record (Array.mem_toList_iff.mpr (Array.mem_of_getElem? hrecord))

theorem Session.Reachable.itanium_le_strictUnits_packed :
    ∃ l' t', (Session.start Schema.packed (Profile.lp64.withPolicy .strictUnits) .keepAll).record
        (.of 1) = .ok (.ok l', t') ∧ l'.size.count = 24 ∧
      ∃ l t, (Session.start Schema.packed (Profile.lp64.withPolicy .itanium) .keepAll).record
        (.of 1) = .ok (.ok l, t) ∧ l.alignment = l'.alignment ∧ l.size ≤ l'.size := by
  obtain ⟨l', t', h, hsize⟩ : ∃ l' t', (Session.start Schema.packed
      (Profile.lp64.withPolicy .strictUnits) .keepAll).record (.of 1) = .ok (.ok l', t') ∧
        l'.size.count = 24 := ⟨_, _, rfl, rfl⟩
  obtain ⟨l, t, hrun, halign, -, -, -, -, hle⟩ := itanium_le_strictUnits
    Declarations.close_packed Schema.packed_usable Schema.packed_noZeroWidth .start .start h
  exact ⟨l', t', h, hsize, l, t, hrun, halign, hle⟩

end AbiLayout
