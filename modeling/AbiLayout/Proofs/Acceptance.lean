import AbiLayout.Proofs.Faults
import AbiLayout.Proofs.Overflow

/-!
# Exactly the layable records are laid out

A record with a layout keeps all the rules of a layable record. Conversely a layable record, whose
base types and pointers are aligned to at most 2 ^ 60 bytes, has a layout, or is too large: no rule
is checked that is not one of these, and no other error hides a record that keeps them. The one way
out is a pointer that does not fit in bits: where the layout comes to one, it traps.

## Main definitions

* `Session.answers`: what a session answers for a record.

## Main results

* `LayoutContext.layable_of_answer`, `LayoutContext.pastRange_of_layable`: the two directions, for
  the answers without a memory.
* `Session.Reachable.record_layable`: the same for what a session says of a record.
-/

namespace AbiLayout

namespace LayoutContext

variable {c : LayoutContext} (hclosed : c.schema.Closed) {r : RecordId} {record : Record}

include hclosed

/-- The answer of a record is the outcome for its kind, on the answers of others. -/
theorem value_layoutByKind_of_answer (hrecord : c.schema.records.get? r = some record) {a : Answer}
    (h : c.answer r = .ok a) : LayoutT.value c.answer (c.layoutByKind record) = .ok a := by
  rw [answer_eq hclosed] at h
  obtain ⟨record', hrecord', hvalue⟩ := recordLayout_eq_ok h
  cases hrecord.symm.trans hrecord'
  exact hvalue

/-- A record with a layout is layable. -/
theorem layable_of_answer (hrecord : c.schema.records.get? r = some record) {l : RecordLayout}
    (h : c.answer r = .ok (.ok l)) : record.Layable c.answer c.profile := by
  obtain ⟨bases, placements, hresolves⟩ :=
    layoutByKind_resolves (value_layoutByKind_of_answer hclosed hrecord h)
  exact hresolves.layable (hclosed.unionBases r record hrecord)

/-- A layable record without a layout is too large. -/
theorem pastRange_of_layable (hrecord : c.schema.records.get? r = some record) {e : LayoutError}
    (h : c.answer r = .ok (.error e)) (hlayable : record.Layable c.answer c.profile) :
    ∃ member, e = .pastRange record member := by
  have hfault : Fault c.answer c.profile record e :=
    failsIn_layoutByKind e (value_layoutByKind_of_answer hclosed hrecord h)
  exact hfault.tooLarge_of_layable hlayable

end LayoutContext

namespace Session

/-- What the session answers for a record, as it is now. -/
def answers (s : Session) (r : RecordId) : Except Trap Answer := (s.record r).map Prod.fst

/-- A session answers what is computed without a memory. -/
theorem answers_eq {c : LayoutContext} (hclosed : c.schema.Closed) {s : Session} (hs : s.Sound)
    (hc : s.context = c) : s.answers = c.answer := funext fun r => record_fst hclosed r hs hc

theorem answers_eq_ok_iff {s : Session} {r : RecordId} {a : Answer} :
    s.answers r = .ok a ↔ ∃ s', s.record r = .ok (a, s') := except_map_fst_eq_ok_iff

namespace Reachable

variable {d : Declarations} {schema : Schema} {profile : Profile} {settings : SinkSettings}
  {s : Session} {r : RecordId} {record : Record}

/-- **Exactly the layable records are laid out, but for pointers that do not fit in bits.** Let all
base types be usable, and no scalar be aligned to more than 2 ^ 60 bytes. In every session under
every profile, a record with a layout is layable, and a layable record has a layout or is too large,
unless its layout comes to a field that is a pointer and pointers do not fit in bits: then it
traps. -/
theorem record_layable (hclose : d.close = .ok schema) (husable : schema.Usable)
    (primitive : ∀ p, schema.Mentions p → p.alignment.count ≤ 2 ^ 60)
    (pointerAlignment : schema.pointerAlignment.count ≤ 2 ^ 60)
    (hs : Reachable schema profile settings s) (hrecord : schema.records.get? r = some record) :
    ((∃ l s', s.record r = .ok (.ok l, s')) → record.Layable s.answers profile) ∧
    (record.Layable s.answers profile →
      (¬s.context.MeetsWidePointer s.answers record →
        (∃ l s', s.record r = .ok (.ok l, s')) ∨
        ∃ member s', s.record r = .ok (.error (.recordTooLarge record.label member), s')) ∧
      (s.context.MeetsWidePointer s.answers record → s.record r = .error .overflow)) := by
  obtain ⟨hclosed, -⟩ := Declarations.close_closed hclose
  have halign := Schema.alignmentsFit_of_le primitive pointerAlignment
  have hfst := record_fst (c := ⟨schema, profile⟩) hclosed r hs.sound hs.context_eq
  rw [answers_eq hclosed hs.sound hs.context_eq, hs.context_eq]
  refine ⟨fun ⟨l, hl⟩ => ?_, fun hlayable => ?_⟩
  · exact LayoutContext.layable_of_answer hclosed hrecord
      (hfst.symm.trans (except_map_fst_eq_ok_iff.mpr hl))
  have htraps {t : Trap} := LayoutContext.answer_eq_error_iff_of_layable (c := ⟨schema, profile⟩)
    hclosed husable halign hrecord hlayable (t := t)
  refine ⟨fun hmeets => ?_, fun hmeets => ?_⟩
  · obtain ⟨a, ha⟩ := except_exists_ok fun t ht => hmeets (htraps.mp ht).2
    have hrun := except_map_fst_eq_ok_iff.mp (hfst.trans ha)
    cases a with
    | ok l => exact .inl ⟨l, hrun⟩
    | error e =>
      obtain ⟨member, rfl⟩ := LayoutContext.pastRange_of_layable hclosed hrecord ha hlayable
      exact .inr ⟨member, hrun⟩
  · rw [← except_map_fst_eq_error_iff, hfst]
    exact htraps.mpr ⟨rfl, hmeets⟩

theorem record_layable_mixed :
    ∃ record, Schema.mixed.records.get? (.of 2) = some record ∧
      record.Layable (Session.start Schema.mixed .lp64 .keepAll).answers .lp64 ∧
      ((∃ l s', (Session.start Schema.mixed .lp64 .keepAll).record (.of 2) = .ok (.ok l, s')) ∨
        ∃ member s', (Session.start Schema.mixed .lp64 .keepAll).record (.of 2) =
          .ok (.error (.recordTooLarge record.label member), s')) := by
  obtain ⟨hsound, hcomplete⟩ := record_layable Declarations.close_mixed Schema.mixed_usable
    (Schema.forall_mentions (by decide)) (by decide)
    (.start : Reachable Schema.mixed .lp64 .keepAll _) (r := .of 2) rfl
  have hlayable := hsound ⟨_, _, rfl⟩
  exact ⟨_, rfl, hlayable, (hcomplete hlayable).1 fun h => Bool.false_ne_true h.1.symm⟩

end Reachable

/-- A struct with a pointer keeps all the rules also where the pointer does not fit in bits. It is
neither laid out nor reported as too large: it traps. -/
theorem not_laidOut_link :
    Declarations.link.close = .ok Schema.link ∧ Schema.link.Usable ∧
      (∀ p, Schema.link.Mentions p → p.alignment.count ≤ 2 ^ 60) ∧
      Schema.link.pointerAlignment.count ≤ 2 ^ 60 ∧
      Schema.link.records.get? (.of 0) = some .link ∧
      Record.link.Layable (start Schema.link .widePointers .keepAll).answers .widePointers ∧
      (start Schema.link .widePointers .keepAll).record (.of 0) = .error .overflow :=
  ⟨Declarations.close_link, Schema.link_usable, Schema.forall_mentions (by decide), by decide, rfl,
    (LayoutContext.resolves_link _).layable fun h => (nomatch h), rfl⟩

end Session

end AbiLayout
