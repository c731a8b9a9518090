import AbiLayout.Proofs.Alike
import AbiLayout.Proofs.Failures
import AbiLayout.Proofs.Transparency

/-!
# What the settings of a sink decide

The settings of a session's sink are not seen by the programs that it runs. Two sessions that are
asked the same answer alike, whatever their sinks keep; and a session collects, in order, what one
that keeps everything collects and its own settings select: the errors, and the warnings of the
kinds that are switched on. A session that prints collects nothing.

The proof runs the two sessions side by side. That one of them is the other with another sink
(`Session.Filtered`) is kept by each report and by each new answer, and so by every run.

A sink tells diagnostics apart by their topics (`SinkSettings.keeps`), a reader by their texts
(`SinkSettings.selects`). On the diagnostics that records give both come to the same: errors are on
a topic that is always wanted, and each warning is on the topic of its kind.

## Main definitions

* `Diagnostic.warns`, `SinkSettings.selects`: diagnostics, told apart by severity and text.
* `Session.Filtered`: a session with another sink, which has kept what its settings want.

## Main results

* `Record.Reports.keeps_eq`: topics agree with texts.
* `Session.run_filtered`, `Session.exec_filtered`, `Session.askAll_filtered`: a session goes side by
  side with one that keeps everything.
* `Session.askAll_settings`: what the settings decide.
-/

namespace AbiLayout

variable {α : Type}

/-! ### Topics and texts -/

/-- Whether the diagnostic is a warning with a message that starts with `words`. -/
def Diagnostic.warns (d : Diagnostic) (words : String) : Bool :=
  !d.isError && decide (words.toList <+: d.message.toList)

/-- Whether the settings select a diagnostic: an error, or a warning of a kind that is switched
on. -/
def SinkSettings.selects (s : SinkSettings) (d : Diagnostic) : Bool :=
  d.isError || s.paddedField && d.warns "Padded field" ||
    s.paddedBitfield && d.warns "Padded bitfield" || s.paddedRecord && d.warns "Padded type"

namespace Record

variable {record : Record} {d : Diagnostic}

/-- The topic of a warning is that of its kind. -/
theorem Warns.wants_eq (h : record.Warns d) (settings : SinkSettings) :
    settings.wants d.topic = settings.selects d := by
  simp only [SinkSettings.selects, Diagnostic.warns, h.isWarning.isError_eq]
  cases h with
  | member i field placement =>
    cases placement <;> simp [StructDraft.paddedMember, SinkSettings.wants, toString]
  | tail padding => simp [StructDraft.paddedRecord, SinkSettings.wants, toString]

/-- **A sink that collects keeps what its settings select.** -/
theorem Reports.keeps_eq (h : record.Reports d) {settings : SinkSettings}
    (hcollects : settings.printsOnly = false) : settings.keeps d = settings.selects d := by
  rw [SinkSettings.keeps, hcollects, Bool.not_false, Bool.true_and]
  cases h with
  | warning h => exact h.wants_eq settings
  | failure e => rfl

end Record

namespace Session

/-! ### Two sessions side by side -/

/-- The session `s` keeps every diagnostic, and `t` is the same session but for its sink, which has
kept what the settings want of what the sink of `s` has collected. -/
structure Filtered (settings : SinkSettings) (s t : Session) : Prop where
  keepsAll : s.sink.settings = .keepAll
  eq : t = { s with sink := ⟨settings, s.sink.collected.filter settings.keeps⟩ }

/-- The runs have the same result, and leave sessions side by side. -/
def EndFiltered (settings : SinkSettings) (out out' : α × Session) : Prop :=
  out.1 = out'.1 ∧ Filtered settings out.2 out'.2

variable {settings : SinkSettings} {s t : Session}

theorem filtered_start (schema : Schema) (profile : Profile) (settings : SinkSettings) :
    Filtered settings (start schema profile .keepAll) (start schema profile settings) := ⟨rfl, rfl⟩

theorem Filtered.context_eq (h : Filtered settings s t) : t.context = s.context := by rw [h.eq]

theorem Filtered.answer?_eq (h : Filtered settings s t) (r : RecordId) :
    t.answer? r = s.answer? r := by
  rw [h.eq]
  rfl

/-- A sink keeps of one more diagnostic what its settings want. -/
theorem Filtered.report (h : Filtered settings s t) (d : Diagnostic) :
    Filtered settings (s.report d) (t.report d) := by
  obtain ⟨hkeeps, rfl⟩ := h
  refine ⟨(s.sink.settings_push d).trans hkeeps, ?_⟩
  rw [Session.report, Session.report, DiagnosticSink.push_eq, DiagnosticSink.push_eq, hkeeps,
    SinkSettings.filter_keepAll, List.filter_append]

theorem Filtered.remember (h : Filtered settings s t) (r : RecordId) (a : Answer) :
    Filtered settings (s.remember r a) (t.remember r a) := by
  obtain ⟨hkeeps, rfl⟩ := h
  exact ⟨hkeeps, rfl⟩

/-- A program runs side by side, if the requests that it makes do. -/
theorem run_filtered {depth : Nat} (hrequest : ∀ r s t, Filtered settings s t →
      TrapAlike (EndFiltered settings) (requestWithin depth r s) (requestWithin depth r t)) :
    (p : LayoutM α) → {s t : Session} → Filtered settings s t →
      TrapAlike (EndFiltered settings) (p.run (requestWithin depth) Session.report s)
        (p.run (requestWithin depth) Session.report t)
  | .done _, _, _, h => .ok ⟨rfl, h⟩
  | .trap e, _, _, _ => .error e
  | .ask r next, s, t, h => by
    rw [LayoutM.run_ask, LayoutM.run_ask]
    refine (hrequest r s t h).bind ?_
    rintro ⟨a, s'⟩ ⟨_, t'⟩ ⟨rfl, h'⟩
    exact run_filtered hrequest (next a) h'
  | .report d next, _, _, h => run_filtered hrequest next (h.report d)

/-- A request is answered side by side, from memory or by laying the record out. -/
theorem requestWithin_filtered : (depth : Nat) → (r : RecordId) → (s t : Session) →
    Filtered settings s t →
      TrapAlike (EndFiltered settings) (requestWithin depth r s) (requestWithin depth r t)
  | 0, _, _, _, _ => .error _
  | depth + 1, r, s, t, h => by
    rw [requestWithin, requestWithin, h.answer?_eq, h.context_eq]
    cases s.answer? r with
    | some a => exact .ok ⟨rfl, h⟩
    | none =>
      refine (run_filtered (requestWithin_filtered depth) _ h).bind ?_
      rintro ⟨a, s'⟩ ⟨_, t'⟩ ⟨rfl, h'⟩
      exact .ok ⟨rfl, h'.remember r a⟩

/-- **A program runs side by side.** -/
theorem exec_filtered (p : LayoutM α) (h : Filtered settings s t) :
    TrapAlike (EndFiltered settings) (s.exec p) (t.exec p) := by
  rw [exec, exec, h.context_eq]
  exact run_filtered (requestWithin_filtered _) p h

/-- **A sequence of queries is replied to side by side.** -/
theorem askAll_filtered (qs : List Query) (h : Filtered settings s t) :
    TrapAlike (EndFiltered settings) (s.askAll qs) (t.askAll qs) := by
  induction qs generalizing s t with
  | nil => exact .ok ⟨rfl, h⟩
  | cons q qs ih =>
    rw [askAll, askAll, ask_eq_exec, ask_eq_exec, h.context_eq]
    refine (exec_filtered _ h).bind ?_
    rintro ⟨reply, s₁⟩ ⟨_, t₁⟩ ⟨rfl, h₁⟩
    refine (ih h₁).bind ?_
    rintro ⟨replies, s₂⟩ ⟨_, t₂⟩ ⟨rfl, h₂⟩
    exact .ok ⟨rfl, h₂⟩

/-! ### What the settings decide -/

/-- What a session that keeps everything collects are diagnostics that records may give. -/
theorem exists_reports_of_mem_collected {schema : Schema} (hclosed : schema.Closed)
    {profile : Profile} {qs : List Query} {replies : List (Query × Reply)}
    (h : (start schema profile settings).askAll qs = .ok (replies, s)) {d : Diagnostic}
    (hd : d ∈ s.sink.collected) : ∃ record : Record, record.Reports d := by
  have hreported := (List.mem_filter.mp ((collected_askAll hclosed h).mem_iff.mp hd)).1
  obtain ⟨r, -, hown⟩ := List.mem_flatMap.mp hreported
  obtain ⟨record, -, hreports⟩ := (LayoutContext.confined_recordLayout r).of_mem_reports d hown
  exact ⟨record, hreports⟩

/-- What the settings keep of what a session has collected is what they select of it. -/
theorem filter_keeps_collected {schema : Schema} (hclosed : schema.Closed) {profile : Profile}
    {qs : List Query} {replies : List (Query × Reply)} {full : SinkSettings}
    (h : (start schema profile full).askAll qs = .ok (replies, s)) (settings : SinkSettings) :
    s.sink.collected.filter settings.keeps =
      if settings.printsOnly then [] else s.sink.collected.filter settings.selects := by
  split
  · rename_i hprints
    exact List.filter_eq_nil_iff.mpr fun d _ => by simp [SinkSettings.keeps, hprints]
  · rename_i hcollects
    refine List.filter_congr fun d hd => ?_
    obtain ⟨record, hreports⟩ := exists_reports_of_mem_collected hclosed h hd
    exact hreports.keeps_eq (Bool.eq_false_iff.mpr hcollects)

/-- **The settings of the sink decide what is collected, and nothing else.** A sequence of queries
has the same replies, or traps alike, in two new sessions whose sinks have whatever settings. Where
it is replied to, a session that prints has collected nothing, and any other has collected, in
order, what its settings select of all that a session that keeps everything has collected. There
are replies, if all base types are usable, no scalar is aligned to more than 2 ^ 60 bytes, the
pointer size is one that a table may have, and the queries are about records of the schema. -/
theorem askAll_settings {d : Declarations} {schema : Schema} (hclose : d.close = .ok schema)
    (profile : Profile) (qs : List Query) :
    (∀ settings settings' : SinkSettings,
      ((start schema profile settings).askAll qs).map Prod.fst =
        ((start schema profile settings').askAll qs).map Prod.fst) ∧
    (∀ replies full, (start schema profile .keepAll).askAll qs = .ok (replies, full) →
      ∀ settings : SinkSettings, ∃ s, (start schema profile settings).askAll qs = .ok (replies, s) ∧
        s.sink.collected =
          if settings.printsOnly then [] else full.sink.collected.filter settings.selects) ∧
    (schema.Usable → (∀ p, schema.Mentions p → p.alignment.count ≤ 2 ^ 60) →
      schema.pointerAlignment.count ≤ 2 ^ 60 → schema.pointerSize.fitsInBits = true →
      (∀ q ∈ qs, q.Declared schema) →
        ∃ replies full, (start schema profile .keepAll).askAll qs = .ok (replies, full)) := by
  obtain ⟨hclosed, -⟩ := Declarations.close_closed hclose
  have hsideBySide (settings : SinkSettings) : TrapAlike (EndFiltered settings)
      ((start schema profile .keepAll).askAll qs) ((start schema profile settings).askAll qs) :=
    askAll_filtered qs (filtered_start schema profile settings)
  refine ⟨fun settings settings' => ?_, fun replies full hfull settings => ?_, ?_⟩
  · have hfst (settings : SinkSettings) : ((start schema profile .keepAll).askAll qs).map Prod.fst =
        ((start schema profile settings).askAll qs).map Prod.fst :=
      (hsideBySide settings).map_eq fun _ _ h => h.1
    exact (hfst settings).symm.trans (hfst settings')
  · obtain ⟨⟨_, s⟩, hrun, rfl, hfiltered⟩ := (hsideBySide settings).exists_eq_ok hfull
    have hcollected : s.sink.collected = full.sink.collected.filter settings.keeps :=
      congrArg (·.sink.collected) hfiltered.eq
    exact ⟨s, hrun, hcollected.trans (filter_keeps_collected hclosed hfull settings)⟩
  · intro husable primitive pointerAlignment pointerSize hqs
    have hfit := Schema.scalarsFit_of_le primitive pointerAlignment pointerSize
    exact (exists_askAll_iff (c := ⟨schema, profile⟩) hclosed qs
      (sound_start schema profile .keepAll) rfl).mpr fun q hq =>
        LayoutContext.exists_reply hclosed husable hfit (hqs q hq)

end Session

/-- A struct that has no layout, and one with padding in front of a bit-field, in front of a field,
and at its end. -/
def Schema.padded : Schema where
  records := ⟨#[
    ⟨some "flags", .struct, [],
      [⟨some "all", .bitfield (.ofWidth ⟨"int", .of 4, .of 4, .signed⟩ (.of 40)), false⟩]⟩,
    ⟨some "token", .struct, [],
      [⟨some "tag", .primitive ⟨"char", .of 1, .of 1, .signedChar⟩, false⟩,
       ⟨some "level", .bitfield (.ofWidth ⟨"int", .of 4, .of 4, .signed⟩ (.of 30)), false⟩,
       ⟨some "letter", .primitive ⟨"char", .of 1, .of 1, .signedChar⟩, false⟩]⟩], by decide⟩
  pointerSize := .of 8
  pointerAlignment := .of 8

/-- The declarations of the records of `Schema.padded`. -/
def Declarations.padded : Declarations where
  profile := .lp64
  records := ⟨(Schema.padded.records.values.toList.map fun record =>
    ⟨record.name, record.kind, some (record.bases, record.fields)⟩).toArray, by decide⟩

theorem Declarations.close_padded : padded.close = .ok Schema.padded := rfl

theorem Schema.padded_usable : padded.Usable := ⟨forall_mentions (by decide), ⟨3, rfl⟩⟩

theorem Session.askAll_settings_padded :
    ∃ replies full s printed,
      (start Schema.padded .lp64 .keepAll).askAll [.all, .record (.of 1)] = .ok (replies, full) ∧
      (start Schema.padded .lp64 ⟨false, false, true, false⟩).askAll [.all, .record (.of 1)] =
        .ok (replies, s) ∧
      (start Schema.padded .lp64 .printOnly).askAll [.all, .record (.of 1)] =
        .ok (replies, printed) ∧
      full.sink.collected.map (·.topic) =
        [.general, .paddedBitfield, .paddedField, .paddedRecord] ∧
      s.sink.collected.map (·.topic) = [.general, .paddedBitfield] ∧
      s.sink.collected = full.sink.collected.filter
        (SinkSettings.selects ⟨false, false, true, false⟩) ∧
      printed.sink.collected = [] := by
  obtain ⟨-, hfilters, hreplies⟩ :=
    askAll_settings Declarations.close_padded .lp64 [.all, .record (.of 1)]
  obtain ⟨replies, full, hfull⟩ := hreplies Schema.padded_usable
    (Schema.forall_mentions (by decide)) (by decide) (by decide)
    (List.forall_mem_cons.mpr ⟨trivial, List.forall_mem_singleton.mpr rfl⟩)
  obtain ⟨s, hs, hcollected⟩ := hfilters replies full hfull ⟨false, false, true, false⟩
  obtain ⟨printed, hprinted, hempty⟩ := hfilters replies full hfull .printOnly
  have htopics : ((start Schema.padded .lp64 .keepAll).askAll [.all, .record (.of 1)]).map
      (·.2.sink.collected.map (·.topic)) =
        .ok [.general, .paddedBitfield, .paddedField, .paddedRecord] := by rfl
  have htopics' : ((start Schema.padded .lp64 ⟨false, false, true, false⟩).askAll
      [.all, .record (.of 1)]).map (·.2.sink.collected.map (·.topic)) =
        .ok [.general, .paddedBitfield] := by rfl
  rw [hfull] at htopics
  rw [hs] at htopics'
  exact ⟨replies, full, s, printed, hfull, hs, hprinted, Except.ok.inj htopics,
    Except.ok.inj htopics', hcollected, hempty⟩

end AbiLayout
