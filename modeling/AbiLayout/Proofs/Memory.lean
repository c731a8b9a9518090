import AbiLayout.Proofs.Questions
import AbiLayout.Proofs.Sessions
import Mathlib.Data.List.Perm.Basic

/-!
# What a session computes

A run of a program answers what the value of the program answers, traps included: the memory of a
session is not seen in its answers. What the run adds to the session is described by two lists, the
records that the program asks for and the diagnostics that it reports: the run computes the records
that the asked ones lead to and that are not in memory, each one once, and the diagnostics in the
sink are those of the program and of the records computed.

## Main definitions

* `LayoutM.asked`, `LayoutM.reports`: what a program asks and reports, on given answers.
* `LayoutContext.Asks`, `LayoutContext.ownReports`: what the program of a record asks and reports.
* `Session.computed`: the records computed in a session.
* `Session.Extends`: what a run adds to a session.

## Main results

* `Session.exec_fst`: a run has the value of its program.
* `Session.run_adds`: a run adds what its program asks and reports.
* `Session.extends_of_exec`: what a run adds to the records computed and to the sink.
-/

namespace AbiLayout

open Relation

variable {α β : Type}

/-! ### What a program asks and reports -/

namespace LayoutM

/-- The records that the program asks for, in order, when its questions are answered by `answer`. -/
def asked (answer : RecordId → Except Trap Answer) : LayoutM α → List RecordId
  | done _ | trap _ => []
  | ask r next =>
    r :: match answer r with
      | .ok a => (next a).asked answer
      | .error _ => []
  | report _ next => next.asked answer

/-- The diagnostics that the program reports, in order. -/
def reports (answer : RecordId → Except Trap Answer) : LayoutM α → List Diagnostic
  | done _ | trap _ => []
  | ask r next =>
    match answer r with
    | .ok a => (next a).reports answer
    | .error _ => []
  | report d next => d :: next.reports answer

variable {answer : RecordId → Except Trap Answer} {P : RecordId → Prop} {Q : Diagnostic → Prop}

theorem Confined.of_mem_asked {p : LayoutM α} (h : p.Confined P Q) : ∀ r ∈ p.asked answer, P r := by
  induction p with
  | done | trap => exact fun _ hr => nomatch hr
  | ask r next ih =>
    intro r' hr'
    rw [asked] at hr'
    rcases List.mem_cons.mp hr' with rfl | hr'
    · exact h.1
    · split at hr'
      · exact ih _ (h.2 _) r' hr'
      · cases hr'
  | report d next ih => exact ih h.2

theorem Confined.of_mem_reports {p : LayoutM α} (h : p.Confined P Q) :
    ∀ d ∈ p.reports answer, Q d := by
  induction p with
  | done | trap => exact fun _ hd => nomatch hd
  | ask r next ih =>
    intro d hd
    rw [reports] at hd
    split at hd
    · exact ih _ (h.2 _) d hd
    · cases hd
  | report d next ih => exact List.forall_mem_cons.mpr ⟨h.1, ih h.2⟩

/-- The value of a program depends only on the answers that it asks for. -/
theorem value_eq_of_asked {answer' : RecordId → Except Trap Answer} {p : LayoutM α}
    (h : ∀ r ∈ p.asked answer, answer' r = answer r) : p.value answer' = p.value answer := by
  induction p with
  | done | trap => rfl
  | ask r next ih =>
    rw [asked] at h
    obtain ⟨hr, hnext⟩ := List.forall_mem_cons.mp h
    rw [value, value, hr]
    cases ha : answer r with
    | error t => rfl
    | ok a =>
      rw [ha] at hnext
      exact ih a hnext
  | report d next ih => exact ih h

/-- A program that may report nothing reports nothing. -/
theorem Confined.reports_eq_nil {p : LayoutM α} (h : p.Confined P fun _ => False) :
    p.reports answer = [] :=
  List.eq_nil_iff_forall_not_mem.mpr h.of_mem_reports

/-- Programs in sequence ask in sequence, as far as they get. -/
theorem asked_bind {p : LayoutM α} (f : α → LayoutM β) {a : α} (h : p.value answer = .ok a) :
    (p >>= f).asked answer = p.asked answer ++ (f a).asked answer := by
  induction p with
  | done b =>
    cases h
    rfl
  | trap t => cases h
  | ask r next ih =>
    change (ask r fun b => next b >>= f).asked answer = _
    rw [value] at h
    rw [asked, asked]
    cases hr : answer r with
    | error t =>
      rw [hr] at h
      cases h
    | ok b =>
      rw [hr] at h
      exact congrArg (r :: ·) (ih b h)
  | report d next ih => exact ih h

theorem asked_map (f : α → β) {p : LayoutM α} {a : α} (h : p.value answer = .ok a) :
    (f <$> p).asked answer = p.asked answer := by
  rw [map_eq_pure_bind, asked_bind _ h]
  exact List.append_nil _

@[simp] theorem asked_request (r : RecordId) : (request r).asked answer = [r] := by
  rw [request, asked]
  cases answer r <;> rfl

/-- Programs in sequence report in sequence, as far as they get. -/
theorem reports_bind {p : LayoutM α} (f : α → LayoutM β) {a : α} (h : p.value answer = .ok a) :
    (p >>= f).reports answer = p.reports answer ++ (f a).reports answer := by
  induction p with
  | done b =>
    cases h
    rfl
  | trap t => cases h
  | ask r next ih =>
    change (ask r fun b => next b >>= f).reports answer = _
    rw [value] at h
    rw [reports, reports]
    cases hr : answer r with
    | error t =>
      rw [hr] at h
      cases h
    | ok b =>
      rw [hr] at h
      exact ih b h
  | report d next ih => exact congrArg (d :: ·) (ih h)

end LayoutM

namespace LayoutContext

/-- The program of the record `r`, on the answers of other records, asks for `r'`. -/
def Asks (c : LayoutContext) (r r' : RecordId) : Prop := r' ∈ (c.recordLayout r).asked c.answer

/-- What the program of a record reports: warnings about the record, and its own error. -/
def ownReports (c : LayoutContext) (r : RecordId) : List Diagnostic :=
  (c.recordLayout r).reports c.answer

theorem Asks.contains {c : LayoutContext} {r r' : RecordId} (h : c.Asks r r') :
    Contains c.schema.records r r' :=
  (confined_recordLayout r).of_mem_asked r' h

end LayoutContext

/-! ### The sink -/

/-- Whether a sink with these settings keeps a diagnostic. -/
def SinkSettings.keeps (s : SinkSettings) (d : Diagnostic) : Bool :=
  !s.printsOnly && s.wants d.topic

theorem SinkSettings.keeps_keepAll (d : Diagnostic) : keepAll.keeps d = true := by
  rw [keeps]
  cases d.topic <;> rfl

/-- A sink that keeps everything leaves nothing out. -/
theorem SinkSettings.filter_keepAll (ds : List Diagnostic) : ds.filter keepAll.keeps = ds :=
  List.filter_eq_self.mpr fun d _ => keeps_keepAll d

theorem DiagnosticSink.push_eq (s : DiagnosticSink) (d : Diagnostic) :
    s.push d = ⟨s.settings, s.collected ++ [d].filter s.settings.keeps⟩ := by
  rw [push]
  cases hprints : s.settings.printsOnly <;> cases hwants : s.settings.wants d.topic <;>
    simp [SinkSettings.keeps, hprints, hwants]

theorem DiagnosticSink.collected_push (s : DiagnosticSink) (d : Diagnostic) :
    (s.push d).collected = s.collected ++ [d].filter s.settings.keeps :=
  congrArg DiagnosticSink.collected (s.push_eq d)

namespace Session

/-- A program runs alike where the requests that it makes are answered alike. -/
theorem run_congr {c : LayoutContext} {P : RecordId → Prop} {Q : Diagnostic → Prop}
    {f g : RecordId → Session → Except Trap (Answer × Session)}
    (hfollows : ∀ r s a s', s.Sound → f r s = .ok (a, s') → Follows s s')
    (heq : ∀ r, P r → ∀ s, s.Sound → s.context = c → f r s = g r s) {p : LayoutM α}
    (hp : p.Confined P Q) {s : Session} (hs : s.Sound) (hc : s.context = c) :
    p.run f report s = p.run g report s := by
  induction p generalizing s with
  | done | trap => rfl
  | ask r next ih =>
    rw [LayoutM.run, LayoutM.run, ← heq r hp.1 s hs hc]
    cases hr : f r s with
    | error t => rfl
    | ok out =>
      obtain ⟨a, s'⟩ := out
      have hfollows' := hfollows r s a s' hs hr
      exact ih a (hp.2 a) hfollows'.sound (hfollows'.context_eq.trans hc)
  | report d next ih => exact ih hp.2 (hs.report d) hc

/-- What a request leaves is sound, and of the same schema and profile. -/
theorem follows_of_requestWithin (depth : Nat) (r : RecordId) (s : Session) (a : Answer)
    (s' : Session) (hs : s.Sound) (h : requestWithin depth r s = .ok (a, s')) : Follows s s' :=
  (requestWithin_sound depth r s a s' hs h).1

/-! ### Answers -/

section Answers

variable {c : LayoutContext}

/-- A run has the value of its program, if the requests that it makes are answered by the answers of
records. -/
theorem run_fst {depth : Nat} {P : RecordId → Prop} {Q : Diagnostic → Prop}
    (hrequest : ∀ r, P r → ∀ s : Session, s.Sound → s.context = c →
      (requestWithin depth r s).map Prod.fst = c.answer r) {p : LayoutM α} (hp : p.Confined P Q)
    {s : Session} (hs : s.Sound) (hc : s.context = c) :
    (p.run (requestWithin depth) report s).map Prod.fst = p.value c.answer := by
  induction p generalizing s with
  | done | trap => rfl
  | ask r next ih =>
    have hr := hrequest r hp.1 s hs hc
    rw [LayoutM.run, LayoutM.value, ← hr]
    cases h : requestWithin depth r s with
    | error t => rfl
    | ok out =>
      obtain ⟨a, s'⟩ := out
      obtain ⟨hfollows, -⟩ := requestWithin_sound depth r s a s' hs h
      exact ih a (hp.2 a) hfollows.sound (hfollows.context_eq.trans hc)
  | report d next ih => exact ih hp.2 (hs.report d) hc

variable (hclosed : c.schema.Closed)

include hclosed

/-- A request has the answer of its record, if the requests for the records that it contains do. -/
theorem requestWithin_succ_fst {depth : Nat} {r : RecordId}
    (hrequest : ∀ r', Contains c.schema.records r r' → ∀ s : Session, s.Sound → s.context = c →
      (requestWithin depth r' s).map Prod.fst = c.answer r') {s : Session} (hs : s.Sound)
    (hc : s.context = c) : (requestWithin (depth + 1) r s).map Prod.fst = c.answer r := by
  rw [requestWithin]
  split
  · rename_i a ha
    exact ((LayoutContext.hasAnswer_iff hclosed).mp (hc ▸ hs r a ha)).symm
  · have hrun := run_fst hrequest (LayoutContext.confined_recordLayout r) hs hc
    rw [hc, LayoutContext.answer_eq hclosed, ← hrun]
    cases (c.recordLayout r).run (requestWithin depth) report s <;> rfl

/-- A request at the depth of the schema has the answer of its record. -/
theorem requestWithin_fst (r : RecordId) {s : Session} (hs : s.Sound) (hc : s.context = c) :
    (requestWithin c.maxDepth r s).map Prod.fst = c.answer r := by
  refine requestWithin_succ_fst hclosed (fun r' hr' => ?_) hs hc
  exact hclosed.induction_on_depth
    (motive := fun r depth => ∀ s : Session, s.Sound → s.context = c →
      (requestWithin depth r s).map Prod.fst = c.answer r)
    (fun _ _ _ ih _ hs hc => requestWithin_succ_fst hclosed ih hs hc) (hclosed.contains hr')
    (Nat.le_refl _)

/-- **A run has the value of its program**, or traps where that does: what the session remembers is
not seen. -/
theorem exec_fst {p : LayoutM α} {s : Session} (hs : s.Sound) (hc : s.context = c) :
    (s.exec p).map Prod.fst = p.value c.answer := by
  have hp := p.confined_of_forall (fun _ => trivial) fun _ => trivial
  rw [exec, hc]
  exact run_fst (fun r (_ : True) _ hs hc => requestWithin_fst hclosed r hs hc) hp hs hc

/-- A record has the answer that is computed without a memory. -/
theorem record_fst (r : RecordId) {s : Session} (hs : s.Sound) (hc : s.context = c) :
    (s.record r).map Prod.fst = c.answer r := by
  have hvalue : (s.record r).map Prod.fst = (LayoutM.request r).value c.answer :=
    exec_fst hclosed hs hc
  rwa [LayoutM.value_request] at hvalue

end Answers

/-! ### What a run adds -/

/-- The records that the session has computed, the latest first. Each run of the program of a record
puts its record in front, also where it is there already. -/
def computed (s : Session) : List RecordId := s.memory.map Prod.fst

/-- What a run that asks for `roots` and reports `own` adds to a session: the records `new`, which
the roots lead to, each one once, with all that these ask for; and their diagnostics and its own. -/
structure Extends (s : Session) (roots : List RecordId) (own : List Diagnostic)
    (new : List RecordId) (s' : Session) : Prop where
  context_eq : s'.context = s.context
  settings_eq : s'.sink.settings = s.sink.settings
  computed_eq : s'.computed = new ++ s.computed
  nodup : s.computed.Nodup → s'.computed.Nodup
  reached : ∀ r ∈ new, ∃ r₀ ∈ roots, ReflTransGen s.context.Asks r₀ r
  roots_mem : ∀ r ∈ roots, r ∈ s'.computed
  asked_mem : ∀ r ∈ new, ∀ r', s.context.Asks r r' → r' ∈ s'.computed
  collected : s'.sink.collected.Perm (s.sink.collected ++
    (own ++ new.flatMap s.context.ownReports).filter s.sink.settings.keeps)

theorem Extends.refl (s : Session) : s.Extends [] [] [] s where
  context_eq := rfl
  settings_eq := rfl
  computed_eq := rfl
  nodup := id
  reached _ hr := nomatch hr
  roots_mem _ hr := nomatch hr
  asked_mem _ hr := nomatch hr
  collected := by simp

/-- A request answered from memory adds nothing. -/
theorem extends_of_mem {s : Session} {r : RecordId} (h : r ∈ s.computed) :
    s.Extends [r] [] [] s where
  context_eq := rfl
  settings_eq := rfl
  computed_eq := rfl
  nodup := id
  reached _ hr' := nomatch hr'
  roots_mem _ hr' := List.mem_singleton.mp hr' ▸ h
  asked_mem _ hr' := nomatch hr'
  collected := by simp

/-- Runs in sequence add one after the other. -/
theorem Extends.trans {s₁ s₂ s₃ : Session} {roots roots' : List RecordId}
    {own own' : List Diagnostic} {new new' : List RecordId} (h : s₁.Extends roots own new s₂)
    (h' : s₂.Extends roots' own' new' s₃) :
    s₁.Extends (roots ++ roots') (own ++ own') (new' ++ new) s₃ where
  context_eq := h'.context_eq.trans h.context_eq
  settings_eq := h'.settings_eq.trans h.settings_eq
  computed_eq := by rw [h'.computed_eq, h.computed_eq, List.append_assoc]
  nodup hs := h'.nodup (h.nodup hs)
  reached r hr := by
    rcases List.mem_append.mp hr with hr | hr
    · obtain ⟨r₀, hr₀, hreached⟩ := h'.reached r hr
      exact ⟨r₀, List.mem_append_right _ hr₀, h.context_eq ▸ hreached⟩
    · obtain ⟨r₀, hr₀, hreached⟩ := h.reached r hr
      exact ⟨r₀, List.mem_append_left _ hr₀, hreached⟩
  roots_mem r hr := by
    rcases List.mem_append.mp hr with hr | hr
    · exact h'.computed_eq ▸ List.mem_append_right _ (h.roots_mem r hr)
    · exact h'.roots_mem r hr
  asked_mem r hr r' hr' := by
    rcases List.mem_append.mp hr with hr | hr
    · exact h'.asked_mem r hr r' (h.context_eq ▸ hr')
    · exact h'.computed_eq ▸ List.mem_append_right _ (h.asked_mem r hr r' hr')
  collected := by
    have hfirst := h.collected
    have hsecond := h'.collected
    rw [h.context_eq, h.settings_eq] at hsecond
    rw [List.perm_iff_count] at hfirst hsecond ⊢
    intro d
    specialize hfirst d
    specialize hsecond d
    simp only [List.filter_append, List.flatMap_append, List.count_append] at hfirst hsecond ⊢
    omega

theorem extends_report (s : Session) (d : Diagnostic) : s.Extends [] [d] [] (s.report d) where
  context_eq := rfl
  settings_eq := s.sink.settings_push d
  computed_eq := rfl
  nodup := id
  reached _ hr := nomatch hr
  roots_mem _ hr := nomatch hr
  asked_mem _ hr := nomatch hr
  collected := by
    rw [report, s.sink.collected_push d, List.flatMap_nil, List.append_nil]

/-- The records computed are those with an answer in memory. -/
theorem mem_computed_iff {s : Session} {r : RecordId} :
    r ∈ s.computed ↔ ∃ a, s.answer? r = some a := by
  rw [← Option.isSome_iff_exists, answer?, List.lookup_isSome_iff, computed, List.mem_map]
  constructor
  · rintro ⟨entry, hentry, rfl⟩
    exact ⟨entry, hentry, beq_self_eq_true _⟩
  · rintro ⟨entry, hentry, heq⟩
    exact ⟨entry, hentry, (eq_of_beq heq).symm⟩

section Adds

variable {c : LayoutContext} (hclosed : c.schema.Closed)

include hclosed

/-- A record that was not in memory is new, besides what its program adds. It is not among the
latter, because no record leads to itself. -/
theorem Extends.remember {s s' : Session} {r : RecordId} {new : List RecordId} (hc : s.context = c)
    (hr : r ∉ s.computed) (a : Answer)
    (h : s.Extends ((c.recordLayout r).asked c.answer) (c.ownReports r) new s') :
    s.Extends [r] [] (r :: new) (s'.remember r a) where
  context_eq := h.context_eq
  settings_eq := h.settings_eq
  computed_eq := congrArg (r :: ·) h.computed_eq
  nodup hs := by
    refine List.nodup_cons.mpr ⟨fun hmem => ?_, h.nodup hs⟩
    rw [← computed, h.computed_eq] at hmem
    obtain ⟨r₀, hr₀, hreached⟩ := h.reached r ((List.mem_append.mp hmem).resolve_right hr)
    rw [hc] at hreached
    have hback : ReflTransGen (Contains c.schema.records) r₀ r :=
      ReflTransGen.mono (fun _ _ hasks => hasks.contains) _ _ hreached
    exact not_transGen_self hclosed.wellFounded r (.head' (LayoutContext.Asks.contains hr₀) hback)
  reached r' hr' := by
    refine ⟨r, List.mem_singleton_self r, ?_⟩
    rcases List.mem_cons.mp hr' with rfl | hr'
    · exact .refl
    · obtain ⟨r₀, hr₀, hreached⟩ := h.reached r' hr'
      exact .head (hc ▸ hr₀) hreached
  roots_mem r' hr' := List.mem_singleton.mp hr' ▸ List.mem_cons_self
  asked_mem r' hr' r'' hr'' := by
    refine List.mem_cons_of_mem r ?_
    rcases List.mem_cons.mp hr' with rfl | hr'
    · exact h.roots_mem r'' (hc ▸ hr'')
    · exact h.asked_mem r' hr' r'' hr''
  collected := by
    subst hc
    exact h.collected

/-- **A run adds what its program asks and reports**, in any sense `R` in which requests add their
records, reports their diagnostics, and runs in sequence one after the other. -/
theorem run_adds {R : Session → List RecordId → List Diagnostic → Session → Prop}
    (hrefl : ∀ s, R s [] [] s)
    (htrans : ∀ s₁ s₂ s₃ roots roots' own own', R s₁ roots own s₂ → R s₂ roots' own' s₃ →
      R s₁ (roots ++ roots') (own ++ own') s₃)
    (hreport : ∀ s d, R s [] [d] (s.report d)) {depth : Nat}
    (hrequest : ∀ r (s : Session) a s', s.Sound → s.context = c →
      requestWithin depth r s = .ok (a, s') → R s [r] [] s') {x : α} :
    (p : LayoutM α) → {s s' : Session} → s.Sound → s.context = c →
      p.run (requestWithin depth) report s = .ok (x, s') →
        R s (p.asked c.answer) (p.reports c.answer) s'
  | .done _, s, _, _, _, h => by
    cases h
    exact hrefl s
  | .trap _, _, _, _, _, h => nomatch h
  | .ask r next, s, s', hs, hc, h => by
    rw [LayoutM.run_ask] at h
    obtain ⟨⟨a, s₁⟩, hr, h⟩ := except_bind_eq_ok_iff.mp h
    obtain ⟨hfollows, hanswer⟩ := requestWithin_sound depth r s a s₁ hs hr
    have hnext := run_adds hrefl htrans hreport hrequest (next a) hfollows.sound
      (hfollows.context_eq.trans hc) h
    rw [LayoutM.asked, LayoutM.reports, (LayoutContext.hasAnswer_iff hclosed).mp (hc ▸ hanswer)]
    exact htrans _ _ _ _ _ _ _ (hrequest r s a s₁ hs hc hr) hnext
  | .report d next, s, s', hs, hc, h =>
    htrans _ _ _ _ _ _ _ (hreport s d)
      (run_adds hrefl htrans hreport hrequest next (hs.report d) hc h)

/-- A run extends the session, if the requests that it makes do. -/
theorem run_extends {depth : Nat}
    (hrequest : ∀ r (s : Session) a s', s.Sound → s.context = c →
      requestWithin depth r s = .ok (a, s') → ∃ new, s.Extends [r] [] new s') {x : α}
    (p : LayoutM α) {s s' : Session} (hs : s.Sound) (hc : s.context = c)
    (h : p.run (requestWithin depth) report s = .ok (x, s')) :
    ∃ new, s.Extends (p.asked c.answer) (p.reports c.answer) new s' := by
  refine run_adds hclosed (R := fun s roots own s' => ∃ new, s.Extends roots own new s')
    (fun s => ⟨[], .refl s⟩) ?_ (fun s d => ⟨[], s.extends_report d⟩) hrequest p hs hc h
  rintro s₁ s₂ s₃ roots roots' own own' ⟨new, hnew⟩ ⟨new', hnew'⟩
  exact ⟨new' ++ new, hnew.trans hnew'⟩

/-- A request adds its record, unless it is in memory, and what that leads to. -/
theorem requestWithin_extends :
    (depth : Nat) → (r : RecordId) → (s : Session) → (a : Answer) → (s' : Session) → s.Sound →
      s.context = c → requestWithin depth r s = .ok (a, s') → ∃ new, s.Extends [r] [] new s'
  | 0, _, _, _, _, _, _, h => nomatch h
  | depth + 1, r, s, a, s', hs, hc, h => by
    obtain ⟨hb, rfl⟩ | ⟨hmiss, s₁, hrun, rfl⟩ := requestWithin_cases h
    · exact ⟨[], extends_of_mem (mem_computed_iff.mpr ⟨a, hb⟩)⟩
    · rw [hc] at hrun
      obtain ⟨new, hnew⟩ := run_extends hclosed (requestWithin_extends depth) _ hs hc hrun
      refine ⟨r :: new, hnew.remember hclosed hc (fun hmem => ?_) a⟩
      obtain ⟨b, hb⟩ := mem_computed_iff.mp hmem
      rw [hmiss] at hb
      cases hb

/-- **What a run adds** to a session are the records that its program leads to, each one computed
once, with their reports. -/
theorem extends_of_exec {p : LayoutM α} {s s' : Session} {x : α} (hs : s.Sound) (hc : s.context = c)
    (h : s.exec p = .ok (x, s')) :
    ∃ new, s.Extends (p.asked c.answer) (p.reports c.answer) new s' :=
  run_extends hclosed (requestWithin_extends hclosed _) p hs hc h

end Adds

/-- The settings of the sink stay as they are. -/
theorem Reachable.settings_eq {schema : Schema} (hclosed : schema.Closed) {profile : Profile}
    {settings : SinkSettings} {s : Session} (h : Reachable schema profile settings s) :
    s.sink.settings = settings := by
  induction h with
  | start => rfl
  | @exec s₁ s₂ _ p x hs hexec ih =>
    obtain ⟨new, hnew⟩ :=
      extends_of_exec (c := ⟨schema, profile⟩) hclosed hs.sound hs.context_eq hexec
    exact hnew.settings_eq.trans ih

end Session

end AbiLayout
