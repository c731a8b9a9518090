import AbiLayout.Proofs.Faults
import AbiLayout.Proofs.Queries

/-!
# Failures and their reports

A record fails for a reason of its own, or because a record that it contains fails. Following the
causes of an error leads along containment to the record at fault, whose own error is at the end. In
a session that collects diagnostics, each record that fails for a reason of its own has contributed
one error, and no other record has.

## Main definitions

* `LayoutError.causes`: an error, its cause, the cause of that, and so on.
* `LayoutContext.ownErrors`, `Session.contributed`: the error diagnostic of a record, if it fails
  for a reason of its own.
* `Reply.Gives`: the answers for records that a reply gives.
* `Session.Accounts`: what a session remembers and has reported of failures.

## Main results

* `exists_path`: the causes of an error lie along containment.
* `LayoutContext.filter_ownReports`: a record reports its own error and no other one.
* `Session.askAll_accounts`: a session accounts for all failures.
-/

namespace AbiLayout

open Relation

/-! ### Causes -/

namespace LayoutError

/-- The error, its cause, the cause of that, and so on. -/
def causes : LayoutError → List LayoutError
  | failedDependency record dependency cause =>
    failedDependency record dependency cause :: cause.causes
  | e => [e]

theorem causes_of_isOwn {e : LayoutError} (h : e.isOwn = true) : e.causes = [e] := by
  cases e with
  | failedDependency => cases h
  | _ => rfl

theorem rootCause_of_isOwn {e : LayoutError} (h : e.isOwn = true) : e.rootCause = e := by
  cases e with
  | failedDependency => cases h
  | _ => rfl

end LayoutError

section Causes

/-! Let each failing record fail for a reason of its own, or pass on the failure of a record that it
contains. -/

variable {records : Arena RecordId Record} {Fails : RecordId → LayoutError → Prop}
  (hfails : ∀ r e, Fails r e → e.isOwn = true ∨ ∃ r' name dependency cause,
    e = .failedDependency name dependency cause ∧ Contains records r r' ∧ Fails r' cause)

include hfails

/-- **The causes of an error lie along containment**: each is the error of a record that the one
before it contains. -/
theorem exists_path {e : LayoutError} {r : RecordId} (h : Fails r e) :
    ∃ rest, (r :: rest).IsChain (Contains records) ∧ List.Forall₂ Fails (r :: rest) e.causes := by
  rcases hfails r e h with hown | ⟨r', name, dependency, cause, rfl, hcontains, hcause⟩
  · rw [LayoutError.causes_of_isOwn hown]
    exact ⟨[], .singleton r, .cons h .nil⟩
  · obtain ⟨rest, hchain, hpath⟩ := exists_path hcause
    exact ⟨r' :: rest, .cons_cons hcontains hchain, .cons h hpath⟩

/-- At the end of the causes is the own error of a record that containment leads to. -/
theorem exists_root {e : LayoutError} {r : RecordId} (h : Fails r e) :
    ∃ r₀, ReflTransGen (Contains records) r r₀ ∧ Fails r₀ e.rootCause ∧
      e.rootCause.isOwn = true := by
  rcases hfails r e h with hown | ⟨r', name, dependency, cause, rfl, hcontains, hcause⟩
  · rw [LayoutError.rootCause_of_isOwn hown]
    exact ⟨r, .refl, h, hown⟩
  · obtain ⟨r₀, hreached, hroot⟩ := exists_root hcause
    exact ⟨r₀, .head hcontains hreached, hroot⟩

/-- None of the causes is that a type is too large. -/
theorem ne_typeTooLarge_of_mem_causes {e : LayoutError} {r : RecordId} (h : Fails r e) :
    ∀ e' ∈ e.causes, ∀ name, e' ≠ .typeTooLarge name := by
  rcases hfails r e h with hown | ⟨r', name, dependency, cause, rfl, hcontains, hcause⟩
  · rw [LayoutError.causes_of_isOwn hown]
    rintro e' he' name rfl
    cases List.mem_singleton.mp he'
    cases hown
  · refine List.forall_mem_cons.mpr ⟨fun name h => (nomatch h), ?_⟩
    exact ne_typeTooLarge_of_mem_causes hcause

end Causes

/-! ### Reports of failures -/

/-- Whether the diagnostic is an error. -/
def Diagnostic.isError (d : Diagnostic) : Bool := d.severity == .error

theorem Diagnostic.IsWarning.isError_eq {d : Diagnostic} (h : d.IsWarning) : d.isError = false := by
  rw [isError, h]
  rfl

/-- A computation that may trap reports nothing. -/
theorem LayoutM.reports_liftM_bind {α β : Type} (answer : RecordId → Except Trap Answer)
    {x : Except Trap α} {a : α} (h : x = .ok a) (f : α → LayoutM β) :
    ((liftM x : LayoutM α) >>= f).reports answer = (f a).reports answer := by
  subst h
  rfl

/-- Nor does it in a computation that may fail. -/
theorem LayoutT.reports_liftM_bind {α β : Type} (answer : RecordId → Except Trap Answer)
    {x : Except Trap α} {a : α} (h : x = .ok a) (f : α → LayoutT β) :
    ((liftM x : LayoutT α) >>= f).run.reports answer = (f a).run.reports answer := by
  subst h
  rfl

namespace LayoutContext

/-- The error diagnostic of a record with the given answer, if it fails for a reason of its own. -/
def ownErrors (record : Record) : Answer → List Diagnostic
  | .ok _ => []
  | .error e => if e.isDependencyFailure then [] else [failure record e]

/-- A sink that collects keeps every error of a record. -/
theorem filter_ownErrors {settings : SinkSettings} (h : settings.printsOnly = false)
    (record : Record) (a : Answer) :
    (ownErrors record a).filter settings.keeps = ownErrors record a := by
  have hkeeps (e : LayoutError) : settings.keeps (failure record e) = true := by
    rw [SinkSettings.keeps, h]
    rfl
  cases a with
  | ok l => rfl
  | error e =>
    rw [ownErrors]
    split
    · rfl
    · exact List.filter_cons_of_pos (hkeeps e)

variable {c : LayoutContext} {r : RecordId} {record : Record} {a : Answer}

/-- A record reports what its program does for its kind, and then its own error. -/
theorem ownReports_eq (hclosed : c.schema.Closed)
    (hrecord : c.schema.records.get? r = some record) (h : c.answer r = .ok a) :
    c.ownReports r = (c.layoutByKind record).run.reports c.answer ++ ownErrors record a := by
  have hget : c.schema.record r = .ok record := Arena.get_eq_ok_iff.mpr hrecord
  rw [answer_eq hclosed, recordLayout, LayoutM.value_bind, LayoutM.value_liftM, hget,
    except_ok_bind, LayoutM.value_bind] at h
  obtain ⟨out, hout, h⟩ := except_bind_eq_ok_iff.mp h
  rw [ownReports, recordLayout, LayoutM.reports_liftM_bind _ hget, LayoutM.reports_bind _ hout]
  congr 1
  cases out with
  | ok l =>
    dsimp only at h ⊢
    rw [LayoutM.value_bind, LayoutM.value_liftM] at h
    obtain ⟨flaw, hflaw, h⟩ := except_bind_eq_ok_iff.mp h
    rw [LayoutM.reports_liftM_bind _ hflaw]
    cases flaw with
    | none =>
      cases h
      rfl
    | some flaw => cases h
  | error e =>
    dsimp only at h ⊢
    cases hdependency : e.isDependencyFailure with
    | true =>
      rw [hdependency] at h
      cases h
      rw [ownErrors, hdependency]
      rfl
    | false =>
      rw [hdependency] at h
      cases h
      rw [ownErrors, hdependency]
      rfl

/-- **A record reports its own error and no other one.** -/
theorem filter_ownReports (hclosed : c.schema.Closed)
    (hrecord : c.schema.records.get? r = some record) (h : c.answer r = .ok a) :
    (c.ownReports r).filter Diagnostic.isError = ownErrors record a := by
  have hconfined : (c.layoutByKind record).run.Confined (fun _ => True) record.Warns :=
    confined_layoutByKind fun _ _ => trivial
  have hwarnings : ((c.layoutByKind record).run.reports c.answer).filter Diagnostic.isError = [] :=
    List.filter_eq_nil_iff.mpr fun d hd => by
      simp [(hconfined.of_mem_reports d hd).isWarning.isError_eq]
  have herrors : (ownErrors record a).filter Diagnostic.isError = ownErrors record a := by
    cases a with
    | ok l => rfl
    | error e =>
      rw [ownErrors]
      split <;> rfl
  rw [ownReports_eq hclosed hrecord h, List.filter_append, hwarnings, herrors, List.nil_append]

end LayoutContext

/-! ### What a session accounts for -/

/-- The answers for records that a reply gives: to a query for the record, or for all records. -/
inductive Reply.Gives : Query × Reply → RecordId → Answer → Prop
  | record (r : RecordId) (a : Answer) : Gives (.record r, .record a) r a
  | all {answers : List (RecordId × Answer)} {r : RecordId} {a : Answer} (h : (r, a) ∈ answers) :
      Gives (.all, .all answers) r a

namespace LayoutContext

variable {c : LayoutContext} {answer : RecordId → Except Trap Answer}

/-- The records of a list are asked for, and their answers returned. -/
theorem value_layoutsOf_eq_ok {answers : List (RecordId × Answer)} :
    {rs : List RecordId} → (layoutsOf rs).value answer = .ok answers →
      ∀ x ∈ answers, x.1 ∈ (layoutsOf rs).asked answer ∧ answer x.1 = .ok x.2
  | [], h, x, hx => by
    cases h
    cases hx
  | r :: rs, h, x, hx => by
    rw [layoutsOf, LayoutM.value_bind] at h
    obtain ⟨a, ha, h⟩ := except_bind_eq_ok_iff.mp h
    rw [LayoutM.value_bind] at h
    obtain ⟨later, hlater, h⟩ := except_bind_eq_ok_iff.mp h
    cases h
    rw [layoutsOf, LayoutM.asked_bind _ ha, LayoutM.asked_bind _ hlater, LayoutM.asked_request]
    rcases List.mem_cons.mp hx with rfl | hx
    · rw [LayoutM.value_request] at ha
      exact ⟨List.mem_append_left _ (List.mem_singleton_self _), ha⟩
    · obtain ⟨hasked, hanswer⟩ := value_layoutsOf_eq_ok hlater x hx
      exact ⟨List.mem_append_right _ (List.mem_append_left _ hasked), hanswer⟩

/-- An answer that a reply gives is that of a record that the query asks for. -/
theorem mem_roots_of_gives {x : Query × Reply} {r : RecordId} {a : Answer}
    (hgives : Reply.Gives x r a) (h : c.reply x.1 = .ok x.2) :
    r ∈ c.roots x.1 ∧ c.answer r = .ok a := by
  cases hgives with
  | record =>
    rw [reply, Query.program, LayoutM.value_map] at h
    obtain ⟨a', ha', h⟩ := except_bind_eq_ok_iff.mp h
    cases h
    rw [roots, Query.program, LayoutM.asked_map _ ha', LayoutM.asked_request]
    rw [LayoutM.value_request] at ha'
    exact ⟨List.mem_singleton_self r, ha'⟩
  | all hmem =>
    rw [reply, Query.program, LayoutM.value_map] at h
    obtain ⟨answers, hanswers, h⟩ := except_bind_eq_ok_iff.mp h
    cases h
    obtain ⟨hasked, hanswer⟩ := value_layoutsOf_eq_ok hanswers _ hmem
    refine ⟨?_, hanswer⟩
    rw [roots, Query.program, LayoutM.asked_map _ hanswers]
    exact hasked

end LayoutContext

namespace Session

/-- What a record has contributed to the errors of a session: its error diagnostic, if it is
remembered to fail for a reason of its own. -/
def contributed (s : Session) (r : RecordId) : List Diagnostic :=
  match s.context.schema.records.get? r, s.answer? r with
  | some record, some a => LayoutContext.ownErrors record a
  | _, _ => []

/-- What a session remembers and has reported of failures. -/
structure Accounts (schema : Schema) (s : Session) : Prop where
  /-- What is remembered is what the session says. -/
  record_eq : ∀ r a, s.answer? r = some a → s.record r = .ok (a, s)
  /-- What a record with a layout contains, directly or not, has a layout. -/
  layout_of_contains : ∀ r l, s.answer? r = some (.ok l) → ∀ r',
    TransGen (Contains schema.records) r r' → ∃ l', s.answer? r' = some (.ok l')
  /-- The cause of a failed dependency is the error of a record that is directly contained. -/
  cause_eq : ∀ r name dependency cause,
    s.answer? r = some (.error (.failedDependency name dependency cause)) →
      ∃ r', Contains schema.records r r' ∧ s.answer? r' = some (.error cause)
  /-- The causes of an error are those of the records along a path of containment. -/
  path : ∀ r e, s.answer? r = some (.error e) →
    ∃ rest, (r :: rest).IsChain (Contains schema.records) ∧
      List.Forall₂ (fun r e => s.answer? r = some (.error e)) (r :: rest) e.causes
  /-- At the end of a path is a record with an error of its own, of which one diagnostic tells. -/
  root : ∀ r e, s.answer? r = some (.error e) → ∃ r₀ record,
    ReflTransGen (Contains schema.records) r r₀ ∧
      schema.records.get? r₀ = some record ∧
      s.answer? r₀ = some (.error e.rootCause) ∧ e.rootCause.isDependencyFailure = false ∧
      s.contributed r₀ = [LayoutContext.failure record e.rootCause]
  /-- No error is, or comes from, that of a type. -/
  ne_typeTooLarge : ∀ r e, s.answer? r = some (.error e) → ∀ e' ∈ e.causes, ∀ name,
    e' ≠ .typeTooLarge name
  /-- Each record is computed once, and the errors in the sink are those that the records computed
  have contributed. -/
  nodup : s.computed.Nodup
  errors : (s.sink.collected.filter Diagnostic.isError).Perm (s.computed.flatMap s.contributed)

section AskAll

variable {schema : Schema} (hclosed : schema.Closed) {profile : Profile} {settings : SinkSettings}
  {qs : List Query} {replies : List (Query × Reply)} {s : Session}
  (h : (start schema profile settings).askAll qs = .ok (replies, s))

include hclosed h

/-- What is remembered are the answers of the records computed. -/
theorem answer?_eq_some_iff {r : RecordId} {a : Answer} :
    s.answer? r = some a ↔ r ∈ s.computed ∧ LayoutContext.answer ⟨schema, profile⟩ r = .ok a := by
  obtain ⟨hfollows, -⟩ := extends_of_askAll hclosed (sound_start _ _ _) rfl h
  have hanswer {a : Answer} (ha : s.answer? r = some a) :
      LayoutContext.answer ⟨schema, profile⟩ r = .ok a := by
    have hhas := hfollows.sound r a ha
    rw [hfollows.context_eq] at hhas
    exact (LayoutContext.hasAnswer_iff hclosed).mp hhas
  constructor
  · exact fun ha => ⟨mem_computed_iff.mpr ⟨a, ha⟩, hanswer ha⟩
  · rintro ⟨hr, ha⟩
    obtain ⟨b, hb⟩ := mem_computed_iff.mp hr
    cases ha.symm.trans (hanswer hb)
    exact hb

/-- What a computed record asks for is computed. -/
theorem mem_computed_of_asks {r r' : RecordId} (hr : r ∈ s.computed)
    (hasks : LayoutContext.Asks ⟨schema, profile⟩ r r') : r' ∈ s.computed := by
  rw [mem_computed_askAll_iff hclosed h] at hr ⊢
  obtain ⟨q, hq, r₀, hr₀, hreached⟩ := hr
  exact ⟨q, hq, r₀, hr₀, hreached.tail hasks⟩

/-- The replies give what is remembered. -/
theorem answer?_of_gives {x : Query × Reply} (hx : x ∈ replies) {r : RecordId} {a : Answer}
    (hgives : Reply.Gives x r a) : s.answer? r = some a := by
  have hsound := sound_start schema profile settings
  rw [answer?_eq_some_iff hclosed h, mem_computed_askAll_iff hclosed h]
  obtain ⟨hq, hreply⟩ := (mem_replies_iff hclosed hsound rfl h x.1 x.2).mp hx
  obtain ⟨hroot, hanswer⟩ := LayoutContext.mem_roots_of_gives hgives hreply
  exact ⟨⟨x.1, hq, r, hroot, .refl⟩, hanswer⟩

/-- A record that is remembered to fail for a reason of its own has contributed one diagnostic. -/
theorem contributed_eq {r : RecordId} {record : Record} {a : Answer}
    (hrecord : schema.records.get? r = some record) (ha : s.answer? r = some a) :
    s.contributed r = LayoutContext.ownErrors record a := by
  obtain ⟨hfollows, -⟩ := extends_of_askAll hclosed (sound_start _ _ _) rfl h
  have hcontext : s.context.schema = schema := congrArg LayoutContext.schema hfollows.context_eq
  rw [contributed, hcontext, hrecord, ha]

/-- The errors in the sink are those that the records computed have contributed. -/
theorem errors_askAll (hcollects : settings.printsOnly = false) :
    (s.sink.collected.filter Diagnostic.isError).Perm (s.computed.flatMap s.contributed) := by
  refine ((collected_askAll hclosed h).filter _).trans (.of_eq ?_)
  rw [List.filter_flatMap, List.filter_flatMap]
  refine List.flatMap_congr fun r hr => ?_
  obtain ⟨a, ha⟩ := mem_computed_iff.mp hr
  obtain ⟨-, hanswer⟩ := (answer?_eq_some_iff hclosed h).mp ha
  obtain ⟨record, hrecord, -⟩ := LayoutContext.exists_record_of_answer hclosed hanswer
  rw [contributed_eq hclosed h hrecord ha, List.filter_comm,
    LayoutContext.filter_ownReports hclosed hrecord hanswer]
  exact LayoutContext.filter_ownErrors hcollects record a

/-- A record that is remembered to fail does so for a reason of its own, or passes on what is
remembered of a record that it contains. -/
theorem fails_of_answer? (r : RecordId) (e : LayoutError) (he : s.answer? r = some (.error e)) :
    e.isOwn = true ∨ ∃ r' name dependency cause, e = .failedDependency name dependency cause ∧
      Contains schema.records r r' ∧ s.answer? r' = some (.error cause) := by
  obtain ⟨hr, hanswer⟩ := (answer?_eq_some_iff hclosed h).mp he
  obtain ⟨record, -, hown | ⟨r', name, cause, rfl, hcontains, hasks, hcause⟩⟩ :=
    LayoutContext.fault_of_answer hclosed hanswer
  · exact .inl hown
  · exact .inr ⟨r', _, name, cause, rfl, hcontains,
      (answer?_eq_some_iff hclosed h).mpr ⟨mem_computed_of_asks hclosed h hr hasks, hcause⟩⟩

/-- A record that is remembered to have a layout contains only records that are, too. -/
theorem layout_of_transGen {r r' : RecordId} (hr' : TransGen (Contains schema.records) r r')
    (hr : ∃ l, s.answer? r = some (.ok l)) : ∃ l', s.answer? r' = some (.ok l') := by
  have hstep {r r' : RecordId} (hcontains : Contains schema.records r r')
      (hr : ∃ l, s.answer? r = some (.ok l)) : ∃ l', s.answer? r' = some (.ok l') := by
    obtain ⟨l, hl⟩ := hr
    obtain ⟨hr, hanswer⟩ := (answer?_eq_some_iff hclosed h).mp hl
    obtain ⟨hasks, l', hl'⟩ := LayoutContext.layout_of_contains hclosed hanswer hcontains
    exact ⟨l', (answer?_eq_some_iff hclosed h).mpr ⟨mem_computed_of_asks hclosed h hr hasks, hl'⟩⟩
  induction hr' with
  | single hcontains => exact hstep hcontains hr
  | tail _ hcontains ih => exact hstep hcontains ih

end AskAll

/-- An answer in memory is given as it is. -/
theorem record_eq_of_answer? {s : Session} {r : RecordId} {a : Answer} (h : s.answer? r = some a) :
    s.record r = .ok (a, s) := by
  have hrequest : requestWithin s.context.maxDepth r s = .ok (a, s) := by
    rw [LayoutContext.maxDepth, requestWithin, h]
  rw [record, exec, LayoutM.request, LayoutM.run, hrequest]
  rfl

/-- **A session accounts for all failures.** Whatever a session that collects diagnostics was asked,
what it replied is in its memory; what a record with a layout contains has a layout; the causes of
an error are the errors of records along a path of containment, at the end of which is a record with
an error of its own; and the errors in the sink are one for each record computed that has an error
of its own, about that record and with its text. -/
theorem askAll_accounts {d : Declarations} {schema : Schema} (hclose : d.close = .ok schema)
    {profile : Profile} {settings : SinkSettings} (hcollects : settings.printsOnly = false)
    {qs : List Query} {replies : List (Query × Reply)} {s : Session}
    (h : (start schema profile settings).askAll qs = .ok (replies, s)) :
    (∀ x ∈ replies, ∀ r a, Reply.Gives x r a → s.answer? r = some a) ∧ Accounts schema s := by
  obtain ⟨hclosed, -⟩ := Declarations.close_closed hclose
  have hfails := fails_of_answer? hclosed h
  refine ⟨fun x hx r a hgives => answer?_of_gives hclosed h hx hgives, ?_⟩
  exact {
    record_eq := fun r a => record_eq_of_answer?
    layout_of_contains := fun r l hl r' hr' => layout_of_transGen hclosed h hr' ⟨l, hl⟩
    cause_eq := by
      intro r name dependency cause he
      rcases hfails r _ he with hown | ⟨r', _, _, _, heq, hcontains, hcause⟩
      · cases hown
      · cases heq
        exact ⟨r', hcontains, hcause⟩
    path := fun r e he => exists_path hfails he
    root := by
      intro r e he
      obtain ⟨r₀, hreached, hroot, hown⟩ := exists_root hfails he
      have hdependency := LayoutError.isDependencyFailure_of_isOwn hown
      obtain ⟨-, hanswer⟩ := (answer?_eq_some_iff hclosed h).mp hroot
      obtain ⟨record, hrecord, -⟩ := LayoutContext.exists_record_of_answer hclosed hanswer
      refine ⟨r₀, record, hreached, hrecord, hroot, hdependency, ?_⟩
      rw [contributed_eq hclosed h hrecord hroot, LayoutContext.ownErrors, hdependency]
      rfl
    ne_typeTooLarge := fun r e he => ne_typeTooLarge_of_mem_causes hfails he
    nodup := nodup_computed_askAll hclosed h
    errors := errors_askAll hclosed h hcollects }

end Session

/-- A struct with a bit-field that is too wide, one with an array of it, and one derived from the
latter. -/
def Schema.faulty : Schema where
  records := ⟨#[
    ⟨some "flags", .struct, [],
      [⟨some "all", .bitfield (.ofWidth ⟨"int", .of 4, .of 4, .signed⟩ (.of 40)), false⟩]⟩,
    ⟨some "table", .struct, [], [⟨some "rows", .array (.record (.of 0)) (some 4), false⟩]⟩,
    ⟨some "view", .struct, [⟨.of 1, false⟩], []⟩], by decide⟩
  pointerSize := .of 8
  pointerAlignment := .of 8

/-- The declarations of the records of `Schema.faulty`. -/
def Declarations.faulty : Declarations where
  profile := .lp64
  records := ⟨(Schema.faulty.records.values.toList.map fun record =>
    ⟨record.name, record.kind, some (record.bases, record.fields)⟩).toArray, by decide⟩

theorem Declarations.close_faulty : faulty.close = .ok Schema.faulty := rfl

theorem Session.askAll_accounts_faulty :
    ∃ replies s e r₀ record,
      (start Schema.faulty .lp64 .keepAll).askAll [.record (.of 2), .all] = .ok (replies, s) ∧
      s.answer? (.of 2) = some (.error e) ∧ e.causes.length = 3 ∧
      ReflTransGen (Contains Schema.faulty.records) (.of 2) r₀ ∧
      s.answer? r₀ = some (.error (.bitfieldTooWide "flags" "all" "int" (.of 40) (.of 32))) ∧
      s.contributed r₀ = [LayoutContext.failure record
        (.bitfieldTooWide "flags" "all" "int" (.of 40) (.of 32))] ∧
      s.computed.length = 3 ∧ s.sink.length = 1 := by
  have hrun : ((start Schema.faulty .lp64 .keepAll).askAll [.record (.of 2), .all]).map
      (fun out => (out.2.answer? (.of 2), out.2.computed.length, out.2.sink.length)) =
        .ok (some (.error (.failedDependency "view" "struct table"
          (.failedDependency "table" "struct flags"
            (.bitfieldTooWide "flags" "all" "int" (.of 40) (.of 32))))), 3, 1) := by rfl
  cases h : (start Schema.faulty .lp64 .keepAll).askAll [.record (.of 2), .all] with
  | error t =>
    rw [h] at hrun
    cases hrun
  | ok out =>
    obtain ⟨replies, s⟩ := out
    obtain ⟨-, haccounts⟩ := askAll_accounts Declarations.close_faulty rfl h
    rw [h] at hrun
    obtain ⟨hanswer, hlengths⟩ := Prod.mk.inj (Except.ok.inj hrun)
    obtain ⟨hcomputed, hsink⟩ := Prod.mk.inj hlengths
    obtain ⟨r₀, record, hreached, -, hroot, -, hcontributed⟩ := haccounts.root _ _ hanswer
    exact ⟨replies, s, _, r₀, record, rfl, hanswer, rfl, hreached, hroot, hcontributed, hcomputed,
      hsink⟩

end AbiLayout
