import AbiLayout.Proofs.Lookup
import AbiLayout.Proofs.Overflow
import AbiLayout.Proofs.Queries

/-!
# Memory is transparent

A session replies to any sequence of queries as it would without a memory, and what it leaves behind
does not depend on their order. Every query about the records of a usable schema has a reply, if
scalars fit in bits: the search for a name stays within the record that it starts from, so that no
offset on the way leaves the range.

## Main definitions

* `Query.Declared`: a query about the records of the schema.
* `LayoutContext.StaysInRange`: a record ends in range when it is laid at a place.

## Main results

* `LayoutContext.completes_locateStep`, `LayoutContext.completes_locateWithin`: one step of the
  search for a name completes, and the whole search does.
* `LayoutContext.exists_reply`: a query about the records of a usable schema has a reply.
* `Session.askAll_transparent`: memory is transparent, and the order of queries does not matter.
-/

namespace AbiLayout

/-! ### Queries about the records of the schema -/

/-- The query is about records of the schema. -/
def Query.Declared (schema : Schema) : Query → Prop
  | record r => schema.records.contains r = true
  | typeLayout ty => schema.Declares ty
  | all => True
  | locate r _ => schema.records.contains r = true

theorem LayoutM.exists_value_map {α β : Type} {answer : RecordId → Except Trap Answer} (f : α → β)
    {p : LayoutM α} (h : ∃ a, p.value answer = .ok a) : ∃ b, (f <$> p).value answer = .ok b := by
  obtain ⟨a, ha⟩ := h
  exact ⟨f a, by rw [LayoutM.value_map, ha]; rfl⟩

namespace LayoutContext

open LayoutT

variable {c : LayoutContext} {answer : RecordId → Except Trap Answer}

/-- The records of a list are answered, if each of them is. -/
theorem exists_value_layoutsOf : {rs : List RecordId} → (∀ r ∈ rs, ∃ a, answer r = .ok a) →
    ∃ answers, (layoutsOf rs).value answer = .ok answers
  | [], _ => ⟨[], rfl⟩
  | r :: rs, h => by
    obtain ⟨⟨a, ha⟩, htail⟩ := List.forall_mem_cons.mp h
    obtain ⟨answers, hanswers⟩ := exists_value_layoutsOf htail
    refine ⟨(r, a) :: answers, ?_⟩
    rw [layoutsOf, LayoutM.value_bind, LayoutM.value_request, ha, except_ok_bind,
      LayoutM.value_bind, hanswers]
    rfl

section Search

variable {l : RecordLayout} {name : String} {place : SearchPlace}
  {search : RecordId → SearchPlace → LayoutT (Option MemberPlace)}

/-- The search in fields completes, if the offsets on the way stay in range and the searches in
anonymous fields complete. -/
theorem completes_locateInFields {all : List Field}
    (hfields : ∀ (j : Nat) (field : Field) (m : PlacedMember), all[j]? = some field →
      l.field? j = some m → ∃ inner, place.into m = .ok inner ∧
        ∀ r, field.isAnonymous = true → field.ty.asRecord? = some r →
          Completes answer (search r inner)) :
    (fields : List Field) → {i : Nat} → fields = all.drop i →
      Completes answer (locateInFields search name l place i fields)
  | [], _, _ => completes_pure _
  | field :: fields, i, hdrop => by
    obtain ⟨hget, htail⟩ := of_cons_eq_drop hdrop
    have hrest : Completes answer (locateInFields search name l place (i + 1) fields) :=
      completes_locateInFields hfields fields htail
    rw [locateInFields]
    cases hm : l.field? i with
    | none => exact hrest
    | some m =>
      obtain ⟨inner, hinner, hsearch⟩ := hfields i field m hget hm
      dsimp only
      split
      · exact (completes_liftM hinner).bind fun _ _ => completes_pure _
      split
      · rename_i r hanonymous hr
        refine (completes_liftM hinner).bind fun inner' hinner' => ?_
        rw [value_liftM_eq_ok_iff, hinner] at hinner'
        cases hinner'
        refine (hsearch r hanonymous hr).bind fun result _ => ?_
        cases result with
        | some found => exact completes_pure _
        | none => exact hrest
      · exact hrest

/-- The search in bases completes, if the offsets on the way stay in range and the searches in bases
complete. -/
theorem completes_locateInBases {all : List Base}
    (hbases : ∀ (j : Nat) (base : Base) (m : PlacedMember), all[j]? = some base →
      l.base? j = some m → ∃ inner, place.into m = .ok inner ∧
        Completes answer (search base.record inner)) :
    (bases : List Base) → {i : Nat} → bases = all.drop i →
      Completes answer (locateInBases search l place i bases)
  | [], _, _ => completes_pure _
  | base :: bases, i, hdrop => by
    obtain ⟨hget, htail⟩ := of_cons_eq_drop hdrop
    rw [locateInBases]
    cases hm : l.base? i with
    | none => exact completes_locateInBases hbases bases htail
    | some m =>
      obtain ⟨inner, hinner, hsearch⟩ := hbases i base m hget hm
      refine (completes_liftM hinner).bind fun inner' hinner' => ?_
      rw [value_liftM_eq_ok_iff, hinner] at hinner'
      cases hinner'
      refine hsearch.bind fun result _ => ?_
      cases result with
      | some found => exact completes_pure _
      | none => exact completes_locateInBases hbases bases htail

end Search

theorem exists_into {place : SearchPlace} {m : PlacedMember}
    (h : place.offset.count + m.offset.count < 2 ^ 64) : ∃ inner, place.into m = .ok inner := by
  rw [SearchPlace.into, Quantity.add, Quantity.fit_eq_ok h]
  exact ⟨_, rfl⟩

/-- The record, if it has a layout, ends in range when it is laid at the place. -/
def StaysInRange (c : LayoutContext) (r : RecordId) (place : SearchPlace) : Prop :=
  ∀ l, c.answer r = .ok (.ok l) → place.offset.count + 8 * l.size.count < 2 ^ 64

/-- **One step of the search for a name completes**, if the searches that it starts in contained
records do. What it goes into lies within the record, so that no offset leaves the range. -/
theorem completes_locateStep (husable : c.schema.Usable) {name : String} {depth : Nat}
    {r : RecordId} {a : Answer} {record : Record} {place : SearchPlace} (ha : c.answer r = .ok a)
    (hrecord : c.schema.records.get? r = some record) (hplace : c.StaysInRange r place)
    (hsearch : ∀ r', Contains c.schema.records r r' → ∀ inner, c.StaysInRange r' inner →
      Completes c.answer (c.locateWithin name depth r' inner)) :
    Completes c.answer (c.locateWithin name (depth + 1) r place) := by
  refine Completes.bind ⟨a, by rw [value_layoutOf, ha]⟩ fun l hl => ?_
  rw [value_layoutOf] at hl
  have hanswer : c.HasAnswer r (.ok l) := ⟨_, hl⟩
  have hroom := hplace l hl
  refine (completes_liftM (Arena.get_eq_ok_iff.mpr hrecord)).bind fun record' hrecord' => ?_
  rw [value_liftM_eq_ok_iff] at hrecord'
  cases (Arena.get_eq_ok_iff.mp hrecord').symm.trans hrecord
  have hinto {m : PlacedMember} (hm : m ∈ l.members) : ∃ inner, place.into m = .ok inner := by
    have hstop := (Leads.here r).stop_le husable hanswer hanswer hm
    rw [offsetOf, List.map_nil, List.sum_nil] at hstop
    exact exists_into (by omega)
  have hstays {m : PlacedMember} {r' : RecordId} {inner : SearchPlace}
      (hcrosses : c.Crosses r m r') (hinner : place.into m = .ok inner) :
      c.StaysInRange r' inner := by
    intro l' hl'
    obtain ⟨-, -, hnested⟩ := hcrosses.nests husable hanswer ⟨_, hl'⟩
    have hoffset := (into_eq_ok hinner).2
    omega
  refine (completes_locateInFields ?_ record.fields rfl).bind fun result _ => ?_
  · intro j field m hget hm
    obtain ⟨inner, hinner⟩ := hinto (RecordLayout.mem_of_member? hm).1
    refine ⟨inner, hinner, fun r' hanonymous hr' => hsearch r' ?_ inner ?_⟩
    · exact contains_of_asRecord? hrecord (List.mem_of_getElem? hget) hr'
    · exact hstays (.field hanswer hrecord hget hanonymous hr' hm) hinner
  · cases result with
    | some found => exact completes_pure _
    | none =>
      refine completes_locateInBases ?_ record.bases rfl
      intro j base m hget hm
      obtain ⟨inner, hinner⟩ := hinto (RecordLayout.mem_of_member? hm).1
      refine ⟨inner, hinner, hsearch base.record ?_ inner ?_⟩
      · exact .base hrecord (List.mem_of_getElem? hget)
      · exact hstays (.base hanswer hrecord hget rfl hm) hinner

section Closed

variable (hclosed : c.schema.Closed) (husable : c.schema.Usable) (hfit : c.schema.ScalarsFit)

include hclosed husable hfit

/-- The search for a name completes, from a place where the record that it starts in stays in
range. -/
theorem completes_locateWithin {name : String} {r : RecordId}
    (hr : c.schema.records.contains r = true) {place : SearchPlace}
    (hplace : c.StaysInRange r place) :
    Completes c.answer (c.locateWithin name c.maxDepth r place) := by
  refine hclosed.induction_on_depth
    (motive := fun r depth => ∀ place, c.StaysInRange r place →
      Completes c.answer (c.locateWithin name depth r place))
    (fun r depth hr ih place hplace => ?_) hr (Nat.le_succ _) place hplace
  obtain ⟨a, ha⟩ := exists_answerWithin_maxDepth hclosed husable hfit hr
  obtain ⟨record, hrecord⟩ := Arena.contains_iff_get?.mp hr
  exact completes_locateStep husable ha hrecord hplace ih

/-- **A query about the records of the schema has a reply.** -/
theorem exists_reply {q : Query} (hq : q.Declared c.schema) : ∃ reply, c.reply q = .ok reply := by
  have hanswer (r : RecordId) (hr : c.schema.records.contains r = true) :
      ∃ a, c.answer r = .ok a := exists_answerWithin_maxDepth hclosed husable hfit hr
  cases q with
  | record r =>
    refine LayoutM.exists_value_map _ ?_
    rw [LayoutM.value_request]
    exact hanswer r hq
  | typeLayout ty =>
    have hty : c.schema.Declares ty := hq
    exact LayoutM.exists_value_map _
      (completes_typeLayout hty fun r hr => hanswer r (hty.contains hr))
  | all =>
    exact LayoutM.exists_value_map _
      (exists_value_layoutsOf fun r hr => hanswer r (Arena.mem_keys_iff.mp hr))
  | locate r name =>
    refine LayoutM.exists_value_map _
      (completes_locateWithin hclosed husable hfit hq fun l hl => ?_)
    have hsize := (answerWithin_inRange husable hfit.toAlignmentsFit r l hl).size_lt
    change 0 + 8 * l.size.count < 2 ^ 64
    omega

end Closed

end LayoutContext

namespace Session

/-- **Memory is transparent, and the order of queries does not matter.** The answer of a record is
the value of its program on the answers of the records that it asks for. A sequence of queries is
replied to as without a memory, or traps alike. In a session that was asked such a sequence, each
record has been computed at most once, the sink holds the diagnostics of the records computed, and
any other sequence of the same queries gets the same replies and leaves the same diagnostics, in
some order. Queries about the records of the schema have replies, if all base types are usable, no
scalar is aligned to more than 2 ^ 60 bytes, and the pointer size is one that a table may have. -/
theorem askAll_transparent {d : Declarations} {schema : Schema} (hclose : d.close = .ok schema)
    (profile : Profile) (settings : SinkSettings) :
    (∀ r, LayoutContext.answer ⟨schema, profile⟩ r =
      (LayoutContext.recordLayout ⟨schema, profile⟩ r).value
        (LayoutContext.answer ⟨schema, profile⟩)) ∧
    (∀ qs, ((start schema profile settings).askAll qs).map Prod.fst =
      qs.mapM fun q => return (q, ← LayoutContext.reply ⟨schema, profile⟩ q)) ∧
    (schema.Usable → (∀ p, schema.Mentions p → p.alignment.count ≤ 2 ^ 60) →
      schema.pointerAlignment.count ≤ 2 ^ 60 → schema.pointerSize.fitsInBits = true →
      ∀ qs, (∀ q ∈ qs, q.Declared schema) →
        ∃ replies s, (start schema profile settings).askAll qs = .ok (replies, s)) ∧
    ∀ qs replies s, (start schema profile settings).askAll qs = .ok (replies, s) →
      s.computed.Nodup ∧
      s.sink.collected.Perm ((s.computed.flatMap
        (LayoutContext.ownReports ⟨schema, profile⟩)).filter settings.keeps) ∧
      ∀ qs', (∀ q, q ∈ qs' ↔ q ∈ qs) → ∃ replies' s',
        (start schema profile settings).askAll qs' = .ok (replies', s') ∧
        (∀ x, x ∈ replies' ↔ x ∈ replies) ∧ s'.sink.collected.Perm s.sink.collected := by
  obtain ⟨hclosed, -⟩ := Declarations.close_closed hclose
  have hsound := sound_start schema profile settings
  refine ⟨fun r => LayoutContext.answer_eq hclosed r, fun qs => askAll_fst hclosed qs hsound rfl,
    fun husable primitive pointerAlignment pointerSize qs hqs => ?_, fun qs replies s h => ?_⟩
  · have hfit := Schema.scalarsFit_of_le primitive pointerAlignment pointerSize
    exact (exists_askAll_iff (c := ⟨schema, profile⟩) hclosed qs hsound rfl).mpr fun q hq =>
      LayoutContext.exists_reply hclosed husable hfit (hqs q hq)
  · refine ⟨nodup_computed_askAll hclosed h, collected_askAll hclosed h, fun qs' hqs' => ?_⟩
    have hreplies := (exists_askAll_iff hclosed qs hsound rfl).mp ⟨replies, s, h⟩
    obtain ⟨replies', s', h'⟩ := (exists_askAll_iff hclosed qs' hsound rfl).mpr fun q hq =>
      hreplies q ((hqs' q).mp hq)
    refine ⟨replies', s', h', fun ⟨q, reply⟩ => ?_, (perm_of_same_queries hclosed h h' hqs').2⟩
    rw [mem_replies_iff hclosed hsound rfl h', mem_replies_iff hclosed hsound rfl h, hqs']

theorem askAll_transparent_mixed :
    ∃ replies s replies' s',
      (start Schema.mixed .lp64 .keepAll).askAll [.all, .locate (.of 2) "letter"] =
        .ok (replies, s) ∧
      (start Schema.mixed .lp64 .keepAll).askAll [.locate (.of 2) "letter", .all, .all] =
        .ok (replies', s') ∧
      s.computed = [.of 2, .of 1, .of 0] ∧ s.sink.length = 2 ∧
      s'.sink.collected.Perm s.sink.collected ∧ ∀ x, x ∈ replies' ↔ x ∈ replies := by
  obtain ⟨-, -, hreplies, hruns⟩ :=
    askAll_transparent Declarations.close_mixed .lp64 .keepAll
  obtain ⟨replies, s, h⟩ := hreplies Schema.mixed_usable (Schema.forall_mentions (by decide))
    (by decide) (by decide) [.all, .locate (.of 2) "letter"]
    (List.forall_mem_cons.mpr ⟨trivial, List.forall_mem_singleton.mpr rfl⟩)
  obtain ⟨-, -, hsame⟩ := hruns _ replies s h
  obtain ⟨replies', s', h', hmem, hperm⟩ := hsame [.locate (.of 2) "letter", .all, .all]
    fun q => by simp [or_comm]
  have hleft : ((start Schema.mixed .lp64 .keepAll).askAll
      [.all, .locate (.of 2) "letter"]).map (fun out => (out.2.computed, out.2.sink.length)) =
        .ok ([.of 2, .of 1, .of 0], 2) := by rfl
  rw [h] at hleft
  obtain ⟨hcomputed, hlength⟩ := Prod.mk.inj (Except.ok.inj hleft)
  exact ⟨replies, s, replies', s', h, h', hcomputed, hlength, hperm, hmem⟩

end Session

end AbiLayout
