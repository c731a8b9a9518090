import AbiLayout.Proofs.Alike
import AbiLayout.Proofs.Policies
import AbiLayout.Proofs.Positions

/-!
# Where the bit-field policy matters

Only a struct with a bit-field looks at the bit-field policy. In any other struct all members are of
whole bytes, so that its cursor stays on a byte boundary with no unit open, and ending a run of
bit-fields leaves it as it is, under either policy; a union has no cursor. So the programs of such a
record are equal under both policies, question by question and report by report, whatever the
records that it asks for are answered. Sessions that run equal programs go in lockstep: they answer
alike, trap alike, remember alike and push the same diagnostics in the same order.

Nothing has to be asked of base types or pointers: rounding up to a multiple of eight bits clears
the low bits also where the alignment is no power of two.

## Main definitions

* `Cursor.OnByte`: a byte boundary with no unit open; `Cursor.InStep`, `StructDraft.InStep`: cursors
  and drafts that differ in the policy alone.
* `Record.HasRun`: the record is a struct with a bit-field.
* `Session.inContext`: a session with another schema or profile.

## Main results

* `LayoutContext.recordLayout_withPolicy`: the program of a record without runs does not depend on
  the policy.
* `Session.exec_inContext`: sessions that run equal programs go in lockstep.
* `Session.record_policyFree`: what two sessions under the two policies say of a record.
-/

namespace AbiLayout

variable {α : Type}

/-! ### Cursors on a byte boundary -/

namespace Cursor

/-- The cursor is on a byte boundary, and no unit is open. -/
structure OnByte (c : Cursor) : Prop where
  aligned : 8 ∣ c.dataSize.count
  closed : c.openUnit = none

/-- Ending a run leaves a cursor on a byte boundary where it is, under either policy. A multiple of
eight bits is far enough from the end of the range to be rounded up. -/
theorem OnByte.endRun_eq {c : Cursor} (h : c.OnByte) : c.endRun = .ok (some c) := by
  obtain ⟨policy, dataSize, openUnit⟩ := c
  obtain ⟨haligned, rfl⟩ := h
  cases policy with
  | itanium =>
    have hfit : Quantity.fit? (g := .bit) (nextMultiple dataSize.count 8) = some dataSize := by
      rw [nextMultiple_of_dvd (by decide) haligned]
      exact Quantity.fit?_eq_some dataSize.count_lt
    have hround : dataSize.roundUp? (.of 8) = .ok (some dataSize) :=
      (Quantity.roundUp?_eq dataSize ⟨3, rfl⟩).trans (congrArg Except.ok hfit)
    rw [endRun]
    dsimp only
    rw [hround]
    rfl
  | strictUnits => rfl

/-- The cursors are at one and the same byte boundary, under whatever policies. -/
structure InStep (c c' : Cursor) : Prop where
  left : c.OnByte
  right : c'.OnByte
  dataSize_eq : c.dataSize = c'.dataSize

variable {c c' : Cursor}

/-- Members of whole bytes are placed alike. -/
theorem InStep.placeWhole (h : c.InStep c') {alignment width : BitCount} (ha : 8 ∣ alignment.count)
    (hw : 8 ∣ width.count) :
    TrapAlike (fun placed placed' => placed.1 = placed'.1 ∧ placed.2.InStep placed'.2)
      (c.placeWhole alignment width) (c'.placeWhole alignment width) := by
  rw [Cursor.placeWhole, Cursor.placeWhole, h.left.endRun_eq, h.right.endRun_eq]
  simp only [except_ok_bind]
  rw [placeAligned, placeAligned, h.dataSize_eq]
  refine TrapAlike.bind_same _ fun rounded hrounded => ?_
  cases rounded with
  | none => exact .ok ⟨rfl, h⟩
  | some offset =>
    have hoffset := Quantity.eight_dvd_of_roundUp?_eq_some hrounded ha
    refine .ok ?_
    rw [placeAt, placeAt]
    cases hstop : offset.add? width with
    | none => exact ⟨rfl, h⟩
    | some stop =>
      rw [Quantity.add?, Quantity.fit?_eq_some_iff] at hstop
      have haligned : 8 ∣ stop.count := hstop ▸ Nat.dvd_add hoffset hw
      exact ⟨rfl, ⟨haligned, h.left.closed⟩, ⟨haligned, h.right.closed⟩, rfl⟩

end Cursor

/-! ### Drafts side by side -/

namespace StructDraft

/-- The drafts are on a byte boundary and differ in the policy of the cursor alone. -/
structure InStep (d d' : StructDraft) : Prop where
  cursor : d.cursor.InStep d'.cursor
  alignment_eq : d.alignment = d'.alignment
  members_eq : d.members = d'.members
  hasFlexibleTail_eq : d.hasFlexibleTail = d'.hasFlexibleTail

/-- The steps have the same outcome, and lead to drafts in step. -/
def StepsAlike (out out' : α × StructDraft) : Prop := out.1 = out'.1 ∧ out.2.InStep out'.2

variable {d d' : StructDraft} {i : Nat}

theorem inStep_start (policy policy' : BitfieldPolicy) : (start policy).InStep (start policy') :=
  ⟨⟨⟨Nat.dvd_zero 8, rfl⟩, ⟨Nat.dvd_zero 8, rfl⟩, rfl⟩, rfl, rfl, rfl⟩

theorem InStep.settle (h : d.InStep d') {member : Member} {extent : Extent} {asked : ByteCount}
    {tail tail' : Bool} (htail : tail = tail') {placed placed' : Option BitCount × Cursor}
    (hplaced : placed.1 = placed'.1 ∧ placed.2.InStep placed'.2) :
    TrapAlike StepsAlike (d.settle member extent asked tail placed)
      (d'.settle member extent asked tail' placed') := by
  obtain ⟨offset, cursor⟩ := placed
  obtain ⟨offset', cursor'⟩ := placed'
  obtain ⟨rfl, hcursor⟩ := hplaced
  cases offset with
  | none => exact .ok ⟨rfl, hcursor, h.alignment_eq, h.members_eq, h.hasFlexibleTail_eq⟩
  | some offset =>
    rw [StructDraft.settle, StructDraft.settle, h.alignment_eq, h.members_eq]
    refine TrapAlike.bind_same _ fun raised _ => ?_
    exact .ok ⟨rfl, hcursor, rfl, rfl, htail⟩

theorem InStep.placeBase (h : d.InStep d') (layout : RecordLayout) :
    TrapAlike StepsAlike (d.placeBase i layout) (d'.placeBase i layout) := by
  refine TrapAlike.bind_same _ fun alignment halign => ?_
  refine TrapAlike.bind_same _ fun size hsize => ?_
  rw [Quantity.toBits_eq_ok_iff] at halign hsize
  exact (h.cursor.placeWhole (halign ▸ Nat.dvd_mul_right 8 _)
    (hsize ▸ Nat.dvd_mul_right 8 _)).bind fun _ _ hplaced => h.settle rfl hplaced

theorem InStep.placeWhole (h : d.InStep d') (layout : TypeLayout) :
    TrapAlike StepsAlike (d.placeWhole i layout) (d'.placeWhole i layout) := by
  refine TrapAlike.bind_same _ fun alignment halign => ?_
  refine TrapAlike.bind_same _ fun size hsize => ?_
  rw [Quantity.toBits_eq_ok_iff] at halign hsize
  exact (h.cursor.placeWhole (halign ▸ Nat.dvd_mul_right 8 _)
    (hsize ▸ Nat.dvd_mul_right 8 _)).bind fun _ _ hplaced =>
      h.settle (by rw [h.hasFlexibleTail_eq]) hplaced

theorem InStep.placeBases (record : Record) {bases : List ResolvedBase} (h : d.InStep d') :
    TrapAlike StepsAlike (placeBases record i bases d) (placeBases record i bases d') := by
  induction bases generalizing i d d' with
  | nil => exact .ok ⟨rfl, h⟩
  | cons base bases ih =>
    refine (h.placeBase base.layout).bind ?_
    rintro ⟨step, after⟩ ⟨_, after'⟩ ⟨rfl, hafter⟩
    cases step with
    | tooLarge => exact .ok ⟨rfl, hafter⟩
    | skipped | placedAt => exact ih hafter

end StructDraft

/-! ### Records without runs -/

/-- The record is a struct with a bit-field. Any bit-field starts or ends a run. -/
def Record.HasRun (record : Record) : Prop :=
  record.kind = .struct ∧ ∃ field ∈ record.fields, ∃ b, field.ty = .bitfield b

namespace LayoutContext

variable {schema : Schema} {profile : Profile} {record : Record}

open LayoutM StructDraft

/-- Resolution is the same under all policies. -/
theorem alike_withPolicy (policy : BitfieldPolicy) :
    (LayoutContext.mk schema profile).schema.Alike
      (LayoutContext.mk schema (profile.withPolicy policy)).schema := .refl schema

/-- Bases are added alike under both policies. -/
theorem parallel_addBases (policy : BitfieldPolicy) {d d' : StructDraft} (h : d.InStep d') :
    Parallel StepsAlike (addBases ⟨schema, profile⟩ record d)
      (addBases ⟨schema, profile.withPolicy policy⟩ record d') := by
  rw [addBases, addBases, resolveBases_congr (alike_withPolicy policy)]
  refine (Parallel.refl (R := Eq) (fun _ => rfl) _).bind ?_
  rintro out _ rfl
  cases out with
  | error e => exact .done ⟨rfl, h⟩
  | ok bases =>
    have hallows : (profile.withPolicy policy).allowsMultipleInheritance =
        profile.allowsMultipleInheritance := rfl
    dsimp only
    rw [hallows]
    split
    · exact .done ⟨rfl, h⟩
    · exact (h.placeBases record).parallel

/-- A field that is no bit-field resolves to a member of whole bytes. -/
theorem parallel_resolveField (policy : BitfieldPolicy) (i : Nat) {field : Field}
    (hfield : ∀ b, field.ty ≠ .bitfield b) :
    Parallel (fun out out' => out = out' ∧ ∀ placement, out = .ok placement →
        ∃ layout, placement = .bytes layout)
      (resolveField ⟨schema, profile⟩ record i field).run
      (resolveField ⟨schema, profile.withPolicy policy⟩ record i field).run := by
  rw [resolveField_congr (alike_withPolicy policy)]
  unfold resolveField
  split
  · rename_i b hb
    exact absurd hb (hfield b)
  have herror (e : LayoutError) : (Except.error e : Except LayoutError Placement) = .error e ∧
      ∀ placement, Except.error e = Except.ok placement →
        ∃ layout, placement = Placement.bytes layout :=
    ⟨rfl, fun _ h => nomatch h⟩
  refine Parallel.bindT (.refl (fun _ => rfl) _) herror fun _ => ?_
  refine Parallel.bindT (.refl (fun _ => rfl) _) herror fun layout => ?_
  split
  · exact .done (herror _)
  · refine .done ⟨rfl, ?_⟩
    rintro _ ⟨⟩
    exact ⟨layout, rfl⟩

/-- A field of whole bytes is added alike under both policies. -/
theorem parallel_addField (policy : BitfieldPolicy) (i : Nat) {field : Field}
    (hfield : ∀ b, field.ty ≠ .bitfield b) {d d' : StructDraft} (h : d.InStep d') :
    Parallel StepsAlike (addField ⟨schema, profile⟩ record i field d)
      (addField ⟨schema, profile.withPolicy policy⟩ record i field d') := by
  refine (parallel_resolveField policy i hfield).bind ?_
  rintro out _ ⟨rfl, hbytes⟩
  cases out with
  | error e => exact .done ⟨rfl, h⟩
  | ok placement =>
    obtain ⟨layout, rfl⟩ := hbytes placement rfl
    refine (h.placeWhole layout).parallel.bind ?_
    rintro ⟨step, after⟩ ⟨_, after'⟩ ⟨rfl, hafter⟩
    cases step with
    | tooLarge | skipped => exact .done ⟨rfl, hafter⟩
    | placedAt offset =>
      dsimp only
      rw [h.cursor.dataSize_eq]
      split
      · exact .report _ (.done ⟨rfl, hafter⟩)
      · exact .done ⟨rfl, hafter⟩

theorem parallel_addFieldsFrom (policy : BitfieldPolicy) {fields : List Field}
    (hfields : ∀ field ∈ fields, ∀ b, field.ty ≠ .bitfield b) (i : Nat) {d d' : StructDraft}
    (h : d.InStep d') :
    Parallel StepsAlike (addFieldsFrom ⟨schema, profile⟩ record i fields d)
      (addFieldsFrom ⟨schema, profile.withPolicy policy⟩ record i fields d') := by
  induction fields generalizing i d d' with
  | nil => exact .done ⟨rfl, h⟩
  | cons field fields ih =>
    obtain ⟨hhead, htail⟩ := List.forall_mem_cons.mp hfields
    refine (parallel_addField policy i hhead h).bind ?_
    rintro ⟨out, after⟩ ⟨_, after'⟩ ⟨rfl, hafter⟩
    cases out with
    | error e => exact .done ⟨rfl, hafter⟩
    | ok => exact ih htail (i + 1) hafter

/-- Drafts in step have the same layout. -/
theorem finish_withPolicy (policy : BitfieldPolicy) {d d' : StructDraft} (h : d.InStep d') :
    d.finish ⟨schema, profile⟩ record =
      d'.finish ⟨schema, profile.withPolicy policy⟩ record := by
  rw [finish, finish, h.cursor.left.endRun_eq, h.cursor.right.endRun_eq]
  obtain ⟨⟨policy, dataSize, openUnit⟩, alignment, members, tail⟩ := d
  obtain ⟨⟨policy', dataSize', openUnit'⟩, alignment', members', tail'⟩ := d'
  obtain ⟨⟨-, -, rfl⟩, rfl, rfl, rfl⟩ := h
  rfl

/-- A struct without bit-fields is laid out alike under both policies. -/
theorem structLayout_withPolicy (policy : BitfieldPolicy)
    (hfields : ∀ field ∈ record.fields, ∀ b, field.ty ≠ .bitfield b) :
    structLayout ⟨schema, profile⟩ record =
      structLayout ⟨schema, profile.withPolicy policy⟩ record := by
  refine Parallel.eq (Parallel.bind (R := StepsAlike) ?_ ?_)
  · refine (parallel_addBases policy (inStep_start _ _)).bind ?_
    rintro ⟨out, d⟩ ⟨_, d'⟩ ⟨rfl, hd⟩
    cases out with
    | error e => exact .done ⟨rfl, hd⟩
    | ok => exact parallel_addFieldsFrom policy hfields 0 hd
  · rintro ⟨out, d⟩ ⟨_, d'⟩ ⟨rfl, hd⟩
    cases out with
    | error e => exact .done rfl
    | ok =>
      dsimp only
      rw [finish_withPolicy policy hd]
      exact .refl (fun _ => rfl) _

/-- A union has no cursor, and is laid out alike under both policies. -/
theorem unionLayout_withPolicy (policy : BitfieldPolicy) :
    unionLayout ⟨schema, profile⟩ record =
      unionLayout ⟨schema, profile.withPolicy policy⟩ record := by
  rw [unionLayout, unionLayout, unionFieldsFrom_congr (alike_withPolicy policy)]
  rfl

/-- **The program of a record without runs does not depend on the policy.** -/
theorem recordLayout_withPolicy (policy : BitfieldPolicy) {r : RecordId}
    (h : ∀ record, schema.records.get? r = some record → ¬record.HasRun) :
    recordLayout ⟨schema, profile⟩ r = recordLayout ⟨schema, profile.withPolicy policy⟩ r := by
  refine Parallel.eq (Parallel.bind_same _ fun record hrecord => ?_)
  rw [Schema.record, Arena.get_eq_ok_iff] at hrecord
  have hlayout : layoutByKind ⟨schema, profile⟩ record =
      layoutByKind ⟨schema, profile.withPolicy policy⟩ record := by
    rw [layoutByKind, layoutByKind]
    cases hkind : record.kind with
    | struct =>
      exact structLayout_withPolicy policy fun field hfield b hb =>
        h record hrecord ⟨hkind, field, hfield, b, hb⟩
    | union => exact unionLayout_withPolicy policy
  rw [hlayout]
  exact .refl (fun _ => rfl) _

end LayoutContext

/-! ### Sessions side by side -/

namespace Session

open Relation

/-- The session over another schema or profile, with the same memory and the same sink. -/
def inContext (s : Session) (c : LayoutContext) : Session := { s with context := c }

variable {c c' : LayoutContext}

/-- What a run leaves behind, over another schema or profile. -/
def andInContext (out : α × Session) (c : LayoutContext) : α × Session := (out.1, out.2.inContext c)

/-- A program runs in lockstep, if the requests that it makes do. -/
theorem run_inContext {depth : Nat} {P : RecordId → Prop} {Q : Diagnostic → Prop}
    (hrequest : ∀ r, P r → ∀ s : Session, s.Sound → s.context = c →
      requestWithin depth r (s.inContext c') = (requestWithin depth r s).map (andInContext · c'))
    {p : LayoutM α} (hp : p.Confined P Q) {s : Session} (hs : s.Sound) (hc : s.context = c) :
    p.run (requestWithin depth) report (s.inContext c') =
      (p.run (requestWithin depth) report s).map (andInContext · c') := by
  induction p generalizing s with
  | done | trap => rfl
  | ask r next ih =>
    rw [LayoutM.run, LayoutM.run, hrequest r hp.1 s hs hc]
    cases hr : requestWithin depth r s with
    | error t => rfl
    | ok out =>
      obtain ⟨a, s'⟩ := out
      have hfollows := follows_of_requestWithin depth r s a s' hs hr
      exact ih a (hp.2 a) hfollows.sound (hfollows.context_eq.trans hc)
  | report d next ih => exact ih hp.2 (hs.report d) hc

/-- A record is answered in lockstep, if it and all that it contains have equal programs. -/
theorem requestWithin_inContext (depth : Nat) {r : RecordId}
    (hsame : ∀ q, ReflTransGen (Contains c.schema.records) r q →
      c'.recordLayout q = c.recordLayout q) {s : Session} (hs : s.Sound) (hc : s.context = c) :
    requestWithin depth r (s.inContext c') =
      (requestWithin depth r s).map (andInContext · c') := by
  induction depth generalizing r s with
  | zero => rfl
  | succ depth ih =>
    have hmemory : (s.inContext c').answer? r = s.answer? r := rfl
    rw [requestWithin, requestWithin, hmemory]
    cases s.answer? r with
    | some a => rfl
    | none =>
      have hrun : (c'.recordLayout r).run (requestWithin depth) report (s.inContext c') =
          ((c.recordLayout r).run (requestWithin depth) report s).map (andInContext · c') := by
        rw [hsame r .refl]
        exact run_inContext (fun r' hr' s hs hc => ih (fun q hq => hsame q (.head hr' hq)) hs hc)
          (LayoutContext.confined_recordLayout r) hs hc
      dsimp only
      rw [hc]
      change (c'.recordLayout r).run (requestWithin depth) report (s.inContext c') >>= _ = _
      rw [hrun]
      cases (c.recordLayout r).run (requestWithin depth) report s <;> rfl

/-- **Sessions that run equal programs go in lockstep.** Over schemas of one depth, a program that
asks for records in `P` has the same result or the same trap, with the same memory and the same
diagnostics afterwards, if these records and all that they contain have equal programs. -/
theorem exec_inContext (hdepth : c'.maxDepth = c.maxDepth) {P : RecordId → Prop}
    {Q : Diagnostic → Prop} {p : LayoutM α} (hp : p.Confined P Q)
    (hsame : ∀ r, P r → ∀ q, ReflTransGen (Contains c.schema.records) r q →
      c'.recordLayout q = c.recordLayout q) {s : Session} (hs : s.Sound) (hc : s.context = c) :
    (s.inContext c').exec p = (s.exec p).map (andInContext · c') := by
  have hdepth : (s.inContext c').context.maxDepth = s.context.maxDepth := hc ▸ hdepth
  rw [exec, exec, hdepth]
  exact run_inContext (fun r hr s hs hc => requestWithin_inContext _ (hsame r hr) hs hc) hp hs hc

variable {schema : Schema} {profile : Profile} {r : RecordId}

/-- Under two policies, a session goes in lockstep with itself on a record that holds no run. -/
theorem record_withPolicy (profile : Profile)
    (hplain : ∀ q record, ReflTransGen (Contains schema.records) r q →
      schema.records.get? q = some record → ¬record.HasRun) (settings : SinkSettings)
    (policy policy' : BitfieldPolicy) :
    (start schema (profile.withPolicy policy') settings).record r =
      ((start schema (profile.withPolicy policy) settings).record r).map
        (andInContext · ⟨schema, profile.withPolicy policy'⟩) := by
  have hconfined : (LayoutM.request r).Confined (· = r) fun _ => True := ⟨rfl, fun _ => trivial⟩
  have hsame (q : RecordId) (hq : ReflTransGen (Contains schema.records) r q) :
      LayoutContext.recordLayout ⟨schema, profile.withPolicy policy⟩ q =
        LayoutContext.recordLayout ⟨schema, profile.withPolicy policy'⟩ q :=
    LayoutContext.recordLayout_withPolicy policy' fun record => hplain q record hq
  have hdepth : LayoutContext.maxDepth ⟨schema, profile.withPolicy policy'⟩ =
      LayoutContext.maxDepth ⟨schema, profile.withPolicy policy⟩ := rfl
  exact exec_inContext hdepth hconfined (fun _ hr q hq => (hsame q (hr ▸ hq)).symm)
    (sound_start schema (profile.withPolicy policy) settings) rfl

/-- **The bit-field policy only matters where a struct has a bit-field.** Let neither a record nor
any that it contains, directly or through others, be a struct with a bit-field. In two new sessions
whose profiles differ in the bit-field policy alone, the record has the same answer, or the request
traps alike, and the sinks are the same afterwards. There is an answer, if all base types are
usable, no scalar is aligned to more than 2 ^ 60 bytes, and the pointer size is one that a table may
have. -/
theorem record_policyFree {d : Declarations} (hclose : d.close = .ok schema)
    (hplain : ∀ q record, ReflTransGen (Contains schema.records) r q →
      schema.records.get? q = some record → ¬record.HasRun) (settings : SinkSettings) :
    ((start schema (profile.withPolicy .strictUnits) settings).record r).map
        (fun out => (out.1, out.2.sink)) =
      ((start schema (profile.withPolicy .itanium) settings).record r).map
        (fun out => (out.1, out.2.sink)) ∧
    (schema.Usable → (∀ p, schema.Mentions p → p.alignment.count ≤ 2 ^ 60) →
      schema.pointerAlignment.count ≤ 2 ^ 60 → schema.pointerSize.fitsInBits = true →
      schema.records.contains r = true →
      ∃ a s s', (start schema (profile.withPolicy .itanium) settings).record r = .ok (a, s) ∧
        (start schema (profile.withPolicy .strictUnits) settings).record r = .ok (a, s') ∧
        s'.sink = s.sink) := by
  have hlockstep := record_withPolicy profile hplain settings .itanium .strictUnits
  constructor
  · rw [hlockstep]
    cases (start schema (profile.withPolicy .itanium) settings).record r <;> rfl
  · intro husable primitive pointerAlignment pointerSize hr
    obtain ⟨a, ha⟩ := LayoutContext.exists_answerWithin_maxDepth
      (c := ⟨schema, profile.withPolicy .itanium⟩) (Declarations.close_closed hclose).1 husable
      (Schema.scalarsFit_of_le primitive pointerAlignment pointerSize) hr
    obtain ⟨s, hs⟩ := record_eq_ok (sound_start schema (profile.withPolicy .itanium) settings) ha
    refine ⟨a, s, s.inContext ⟨schema, profile.withPolicy .strictUnits⟩, hs, ?_, rfl⟩
    rw [hlockstep, hs]
    rfl

end Session

/-- A union with a bit-field, and a struct that holds an array of it behind a letter. -/
def Schema.variant : Schema where
  records := ⟨#[
    ⟨some "word", .union, [],
      [⟨some "level", .bitfield (.ofWidth ⟨"int", .of 4, .of 4, .signed⟩ (.of 3)), false⟩,
       ⟨some "letter", .primitive ⟨"char", .of 1, .of 1, .signedChar⟩, false⟩]⟩,
    ⟨some "row", .struct, [],
      [⟨some "tag", .primitive ⟨"char", .of 1, .of 1, .signedChar⟩, false⟩,
       ⟨some "words", .array (.record (.of 0)) (some 3), false⟩]⟩],
    by decide⟩
  pointerSize := .of 8
  pointerAlignment := .of 8

/-- The declarations of the records of `Schema.variant`. -/
def Declarations.variant : Declarations where
  profile := .lp64
  records := ⟨(Schema.variant.records.values.toList.map fun record =>
    ⟨record.name, record.kind, some (record.bases, record.fields)⟩).toArray, by decide⟩

theorem Declarations.close_variant : variant.close = .ok Schema.variant := rfl

theorem Schema.variant_usable : variant.Usable := ⟨forall_mentions (by decide), ⟨3, rfl⟩⟩

/-- No struct of `Schema.variant` has a bit-field. -/
theorem Schema.variant_not_hasRun {r : RecordId} {record : Record}
    (h : variant.records.get? r = some record) : ¬record.HasRun := by
  have hall : ∀ record ∈ variant.records.values.toList, ¬record.HasRun := by
    simp [variant, Record.HasRun]
  exact hall record (Array.mem_toList_iff.mpr (Array.mem_of_getElem? h))

theorem Session.record_policyFree_variant :
    ∃ l s s', (start Schema.variant (Profile.lp64.withPolicy .itanium) .keepAll).record (.of 1) =
        .ok (.ok l, s) ∧
      l.size.count = 16 ∧ s.sink.collected.length = 1 ∧
      (start Schema.variant (Profile.lp64.withPolicy .strictUnits) .keepAll).record (.of 1) =
        .ok (.ok l, s') ∧
      s'.sink = s.sink := by
  obtain ⟨l, s, h, hsize, hwarned⟩ : ∃ l s, (start Schema.variant
      (Profile.lp64.withPolicy .itanium) .keepAll).record (.of 1) = .ok (.ok l, s) ∧
        l.size.count = 16 ∧ s.sink.collected.length = 1 := ⟨_, _, rfl, rfl, rfl⟩
  obtain ⟨a, t, s', ht, ht', hsink⟩ := (record_policyFree (r := .of 1) Declarations.close_variant
    (fun _ _ _ => Schema.variant_not_hasRun) .keepAll).2 Schema.variant_usable
    (Schema.forall_mentions (by decide)) (by decide) (by decide) rfl
  cases h.symm.trans ht
  exact ⟨l, s, s', h, hsize, hwarned, ht', hsink⟩

end AbiLayout
