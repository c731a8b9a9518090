import AbiLayout.Proofs.Layable
import AbiLayout.Proofs.Totality

/-!
# Overflow is reported exactly

A record whose bases and fields are all accepted has the ideal layout over them if the bits of the
ideal size fit in 64 bits, and otherwise it is reported as too large. Nothing that fits is refused,
and no step on the way leaves the range unnoticed, but one: the size of a field that is a pointer is
taken to fit in bits. Tables are held to that, a profile is not. Where the layout of a record comes
to a pointer that does not fit, it traps, and the overflow is not reported.

## Main results

* `LayoutContext.answer_eq_error_iff_of_layable`: a layable record has an answer, unless its layout
  comes to a pointer that does not fit in bits.
* `LayoutContext.Resolves.two_pow_le_size`: then the ideal layout is out of range.
* `LayoutContext.Resolves.answer_agrees`: an answer agrees with the ideal layout.
* `Session.Reachable.record_overflow`: the same for what a session says of the record.
-/

namespace AbiLayout

namespace LayoutContext

variable {c : LayoutContext} {r : RecordId} {record : Record}
  {bases : List StructDraft.ResolvedBase} {placements : List Placement}

/-- A layable record traps exactly where its layout comes to a pointer that does not fit in bits. -/
theorem answer_eq_error_iff_of_layable (hclosed : c.schema.Closed) (husable : c.schema.Usable)
    (halign : c.schema.AlignmentsFit) (hrecord : c.schema.records.get? r = some record)
    (hlayable : record.Layable c.answer c.profile) {t : Trap} :
    c.answer r = .error t ↔ t = .overflow ∧ c.MeetsWidePointer c.answer record := by
  rw [answer_eq hclosed]
  refine recordLayout_eq_error_iff hclosed husable halign hrecord
    (answerWithin_inRange husable halign) fun r' hr' => ?_
  obtain ⟨l, hl⟩ := hlayable.exists_layout hr'
  exact ⟨_, hl⟩

section Resolves

variable (husable : c.schema.Usable) (hrecord : c.schema.records.get? r = some record)
  (h : c.Resolves (c.answerWithin c.maxDepth) record bases placements)

include husable hrecord h

/-- The answer of a record over accepted bases and fields agrees with the ideal layout over them. -/
theorem Resolves.answer_agrees {a : Answer} (ha : c.answerWithin c.maxDepth r = .ok a) :
    RecordAgrees record (Ideal.recordLayout c.profile record bases placements) a := by
  have hpow (r : RecordId) (l : RecordLayout) (h : c.answerWithin c.maxDepth r = .ok (.ok l)) :=
    answerWithin_isPowerOfTwo husable r l h
  -- one level deeper, the record asks for what is accepted
  obtain ⟨record', hrecord', hvalue⟩ := recordLayout_eq_ok (answerWithin_succ_of_eq_ok _ ha)
  cases hrecord.symm.trans hrecord'
  exact layoutByKind_agrees h (h.of_mem_bases hpow) (h.sound husable hrecord hpow) hvalue

/-- A record that comes to a pointer too wide for bits is too large. -/
theorem Resolves.two_pow_le_size
    (hmeets : c.MeetsWidePointer (c.answerWithin c.maxDepth) record) :
    2 ^ 64 ≤ 8 * (Ideal.recordLayout c.profile record bases placements).size := by
  have hpow (r : RecordId) (l : RecordLayout) (h : c.answerWithin c.maxDepth r = .ok (.ok l)) :=
    answerWithin_isPowerOfTwo husable r l h
  obtain ⟨hwide, before, field, after, -, -, hsplit, hpointer, -⟩ := hmeets
  have hget : record.fields[before.length]? = some field := by simp [hsplit]
  obtain ⟨placement, hget', hvalue⟩ := h.fieldsResolve.exists_getElem? hget
  cases hvalue.symm.trans (resolveField_of_isPointer hpointer)
  have hplaced : (field, _) ∈ record.fields.zip placements :=
    List.mem_of_getElem? (List.getElem?_zip_eq_some.mpr ⟨hget, hget'⟩)
  have hle := Ideal.wholeBits_le_size c.profile (h.of_mem_bases hpow)
    (h.sound husable hrecord hpow) h.matches _ hplaced
  exact (Quantity.fitsInBits_eq_false_iff.mp hwide).trans hle

end Resolves

end LayoutContext

/-- The declarations of the records of `Schema.mixed`. -/
def Declarations.mixed : Declarations where
  profile := .lp64
  records := ⟨(Schema.mixed.records.values.toList.map fun record =>
    ⟨record.name, record.kind, some (record.bases, record.fields)⟩).toArray, by decide⟩

theorem Declarations.close_mixed : mixed.close = .ok Schema.mixed := rfl

namespace Session.Reachable

variable {d : Declarations} {schema : Schema} {profile : Profile} {settings : SinkSettings}
  {s : Session} {r : RecordId} {record : Record} {bases : List StructDraft.ResolvedBase}
  {placements : List Placement}

/-- **Overflow is reported exactly, but at pointers that do not fit in bits.** Let all base types be
usable, and no scalar be aligned to more than 2 ^ 60 bytes. In every session under every profile, a
record over accepted bases and fields has the ideal layout if the bits of the ideal size fit in 64
bits. Otherwise it is too large, unless the layout comes to a field that is a pointer and pointers
do not fit in bits: then it traps. -/
theorem record_overflow (hclose : d.close = .ok schema) (husable : schema.Usable)
    (primitive : ∀ p, schema.Mentions p → p.alignment.count ≤ 2 ^ 60)
    (pointerAlignment : schema.pointerAlignment.count ≤ 2 ^ 60)
    (hs : Reachable schema profile settings s) (hrecord : schema.records.get? r = some record)
    (h : s.context.Resolves (s.context.answerWithin s.context.maxDepth) record bases placements) :
    (8 * (Ideal.recordLayout profile record bases placements).size < 2 ^ 64 →
      ∃ l s', s.record r = .ok (.ok l, s') ∧
        l.toIdeal = Ideal.recordLayout profile record bases placements) ∧
    (2 ^ 64 ≤ 8 * (Ideal.recordLayout profile record bases placements).size →
      ¬s.context.MeetsWidePointer (s.context.answerWithin s.context.maxDepth) record →
      ∃ member s', s.record r = .ok (.error (.recordTooLarge record.label member), s')) ∧
    (s.context.MeetsWidePointer (s.context.answerWithin s.context.maxDepth) record →
      s.record r = .error .overflow) := by
  obtain ⟨hclosed, -⟩ := Declarations.close_closed hclose
  have halign := Schema.alignmentsFit_of_le primitive pointerAlignment
  have hfst := record_fst (c := ⟨schema, profile⟩) hclosed r hs.sound hs.context_eq
  rw [hs.context_eq] at h ⊢
  have hlayable : record.Layable (LayoutContext.answer ⟨schema, profile⟩) profile :=
    h.layable (hclosed.unionBases r record hrecord)
  have htraps {t : Trap} := LayoutContext.answer_eq_error_iff_of_layable (c := ⟨schema, profile⟩)
    hclosed husable halign hrecord hlayable (t := t)
  by_cases hmeets : LayoutContext.MeetsWidePointer ⟨schema, profile⟩
      (LayoutContext.answer ⟨schema, profile⟩) record
  · have hlarge := h.two_pow_le_size husable hrecord hmeets
    refine ⟨fun hlt => absurd hlt (Nat.not_lt.mpr hlarge), fun _ hnot => absurd hmeets hnot, ?_⟩
    intro _
    rw [← except_map_fst_eq_error_iff, hfst]
    exact htraps.mpr ⟨rfl, hmeets⟩
  · obtain ⟨a, ha⟩ := except_exists_ok fun t ht => hmeets (htraps.mp ht).2
    have hagrees := h.answer_agrees husable hrecord ha
    obtain ⟨s', hrun⟩ := except_map_fst_eq_ok_iff.mp (hfst.trans ha)
    refine ⟨fun hlt => ?_, fun hle _ => ?_, fun h => absurd h hmeets⟩
    · cases a with
      | ok l => exact ⟨l, s', hrun, hagrees.1⟩
      | error e => exact absurd hlt (Nat.not_lt.mpr hagrees.2)
    · cases a with
      | ok l => exact absurd hagrees.2 (Nat.not_lt.mpr hle)
      | error e =>
        obtain ⟨member, rfl⟩ := hagrees.1
        exact ⟨member, s', hrun⟩

theorem record_overflow_mixed :
    ∃ l s', (Session.start Schema.mixed .lp64 .keepAll).record (.of 2) = .ok (.ok l, s') ∧
      l.toIdeal.size = 12 := by
  have h : LayoutContext.Resolves ⟨Schema.mixed, .lp64⟩
      (LayoutContext.answerWithin ⟨Schema.mixed, .lp64⟩ 4)
      ⟨some "token", .struct, [⟨.of 1, false⟩],
        [⟨none, .record (.of 0), true⟩,
         ⟨some "flags", .bitfield (.ofWidth ⟨"int", .of 4, .of 4, .signed⟩ (.of 3)), false⟩]⟩
      [⟨"tag", ⟨.struct, .of 1, .of 1, .of 8, [⟨.field 0, .of 0, .bits (.of 8)⟩], [], false⟩⟩]
      [.bytes ⟨.of 4, .of 4, .complete⟩,
       .bitfield (.ofWidth ⟨"int", .of 4, .of 4, .signed⟩ (.of 3))] :=
    ⟨fun _ => by rfl, fun _ h => absurd h (by decide), by decide, by rfl, by rfl, trivial⟩
  obtain ⟨l, s', hrun, hideal⟩ := (record_overflow Declarations.close_mixed
    Schema.mixed_usable (Schema.forall_mentions (by decide)) (by decide) .start (r := .of 2) rfl
    h).1 (by decide)
  exact ⟨l, s', hrun, by rw [hideal]; rfl⟩

end Session.Reachable

/-! ### A pointer that does not fit in bits -/

/-- The LP64 profile with pointers of 2 ^ 61 bytes. No table may have them. -/
def Profile.widePointers : Profile := { lp64 with pointerSize := .of 0x2000_0000_0000_0000 }

/-- A struct with a pointer. -/
def Record.link : Record := ⟨some "S", .struct, [], [⟨some "p", .voidPointer, false⟩]⟩

/-- The declaration of the struct, for pointers of 2 ^ 61 bytes. -/
def Declarations.link : Declarations where
  profile := .widePointers
  records := ⟨#[⟨some "S", .struct, some (Record.link.bases, Record.link.fields)⟩], by decide⟩

/-- The schema of the struct. -/
def Schema.link : Schema := ⟨⟨#[.link], by decide⟩, .of 0x2000_0000_0000_0000, .of 8⟩

theorem Declarations.close_link : link.close = .ok Schema.link := rfl

theorem Schema.link_usable : link.Usable := ⟨forall_mentions (by decide), ⟨3, rfl⟩⟩

/-- The pointer is accepted, with all of its bytes. -/
theorem LayoutContext.resolves_link (answer : RecordId → Except Trap Answer) :
    Resolves ⟨Schema.link, .widePointers⟩ answer .link []
      [.bytes ⟨.of 0x2000_0000_0000_0000, .of 8, .complete⟩] where
  basesResolve _ := rfl
  inheritance _ h := absurd h (by decide)
  unionBases _ := rfl
  fieldsResolve := ⟨resolveField_of_isPointer rfl, trivial⟩

/-- The struct is over accepted members, and the bits of its ideal size do not fit in 64 bits. It is
not reported as too large: it traps. -/
theorem Session.not_tooLarge_link :
    Declarations.link.close = .ok Schema.link ∧ Schema.link.Usable ∧
      (∀ p, Schema.link.Mentions p → p.alignment.count ≤ 2 ^ 60) ∧
      Schema.link.pointerAlignment.count ≤ 2 ^ 60 ∧
      Schema.link.records.get? (.of 0) = some .link ∧
      ∃ placements, LayoutContext.Resolves ⟨Schema.link, .widePointers⟩
          (LayoutContext.answerWithin ⟨Schema.link, .widePointers⟩ 2) .link [] placements ∧
        8 * (Ideal.recordLayout .widePointers .link [] placements).size = 2 ^ 64 ∧
        (start Schema.link .widePointers .keepAll).record (.of 0) = .error .overflow :=
  ⟨Declarations.close_link, Schema.link_usable, Schema.forall_mentions (by decide), by decide, rfl,
    _, LayoutContext.resolves_link _, by decide, rfl⟩

end AbiLayout
