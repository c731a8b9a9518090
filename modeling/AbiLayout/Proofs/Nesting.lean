import AbiLayout.Proofs.Transparency

/-!
# Queries stay within the schema

Over a closed schema, no query about its records loses its way. It looks up declared records only,
never asks for the size of a type that has none, and nests no deeper than records contain each
other. While a record is laid out, only records that it directly contains are asked for, so that no
record is asked for while it is being laid out itself. A session that refuses all other requests
therefore gives the same replies.

Nothing is assumed about base types, pointers or profiles: where these make a count leave its range,
the query ends in a trap of arithmetic.

## Main definitions

* `Session.admits`, `Session.guardedWithin`: requests that are refused out of order.

## Main results

* `Query.within_program`: the program of a query does not lose its way.
* `Session.not_isStray_of_requestWithin`: nor does a request.
* `Session.guardedWithin_eq`: requests come in order.
* `Session.Reachable.ask_stays`: all of this, for every query to every session.
-/

namespace AbiLayout

open Relation

/-! ### Programs of queries -/

section Programs

variable {c : LayoutContext} {Q : Diagnostic → Prop}

/-- A declared type is named without a trap. -/
theorem Schema.Declares.names {T : Trap → Prop} {ty : Ty} (h : c.schema.Declares ty) :
    c.Names T ty := by
  intro t ht
  obtain ⟨name, hname⟩ := h.typeName_eq_ok
  rw [hname] at ht
  cases ht

variable (hclosed : c.schema.Closed)

include hclosed

/-- The members of a record of a closed schema are named without a trap. -/
theorem Schema.Closed.namesMembers {T : Trap → Prop} {r : RecordId} {record : Record}
    (hrecord : c.schema.records.get? r = some record) : c.NamesMembers T record where
  base base hbase := by
    have hdeclared : c.schema.Declares (.record base.record) :=
      hclosed.base r record hrecord base hbase
    exact hdeclared.names
  field field hfield := (hclosed.field r record hrecord field hfield).names

/-- The program of a record asks for what the record contains, and does not lose its way. -/
theorem LayoutContext.within_recordLayout_of_closed {r : RecordId}
    (hr : c.schema.records.contains r = true) :
    (c.recordLayout r).Within (Contains c.schema.records r) (c.MayReport r) (¬·.IsStray) := by
  have hdeclared : c.schema.Declares (.record r) := hr
  exact within_recordLayout (fun _ => id) hdeclared.names fun _ => hclosed.namesMembers

/-- The search for a name stays within the records of the schema, and ends. -/
theorem LayoutContext.within_locateWithin_maxDepth {name : String} {r : RecordId}
    (hr : c.schema.records.contains r = true) (place : SearchPlace) :
    LayoutT.Within (c.schema.records.contains · = true) Q (¬·.IsStray)
      (c.locateWithin name c.maxDepth r place) := by
  refine hclosed.induction_on_depth
    (motive := fun r depth => ∀ place, LayoutT.Within (c.schema.records.contains · = true) Q
      (¬·.IsStray) (c.locateWithin name depth r place))
    (fun r depth hr ih place => ?_) hr (Nat.le_succ _) place
  have hdeclared : c.schema.Declares (.record r) := hr
  exact within_locateStep (fun _ => id) hdeclared.names hr ih

/-- **The program of a query about the schema asks for records of the schema**, reports nothing, and
does not lose its way. -/
theorem Query.within_program {q : Query} (hq : q.Declared c.schema) :
    (q.program c).Within (c.schema.records.contains · = true) Q (¬·.IsStray) := by
  cases q with
  | record r => exact .map _ (LayoutM.within_request hq)
  | typeLayout ty =>
    have hty : c.schema.Declares ty := hq
    exact .map _ (LayoutContext.within_typeLayout hty.names fun r => hty.contains)
  | all => exact .map _ (LayoutContext.within_layoutsOf fun r => Arena.mem_keys_iff.mp)
  | locate r name => exact .map _ (LayoutContext.within_locateWithin_maxDepth hclosed hq _)

end Programs

/-! ### Requests -/

namespace Session

variable {α : Type} {c : LayoutContext}

/-- A run meets only the traps of its program and of the requests that it makes. -/
theorem run_eq_error {P : RecordId → Prop} {Q : Diagnostic → Prop} {T : Trap → Prop} {depth : Nat}
    (hrequest : ∀ r, P r → ∀ s : Session, s.Sound → s.context = c → ∀ t,
      requestWithin depth r s = .error t → T t) {p : LayoutM α} (hp : p.Within P Q T) {s : Session}
    (hs : s.Sound) (hc : s.context = c) {t : Trap}
    (h : p.run (requestWithin depth) report s = .error t) : T t := by
  induction p generalizing s with
  | done a => cases h
  | trap t' =>
    cases h
    exact hp
  | ask r next ih =>
    rw [LayoutM.run] at h
    cases hr : requestWithin depth r s with
    | error t' =>
      rw [hr] at h
      cases h
      exact hrequest r hp.1 s hs hc t hr
    | ok out =>
      obtain ⟨a, s'⟩ := out
      rw [hr] at h
      have hfollows := follows_of_requestWithin depth r s a s' hs hr
      exact ih a (hp.2 a) hfollows.sound (hfollows.context_eq.trans hc) h
  | report d next ih => exact ih hp.2 (hs.report d) hc h

section Closed

variable (hclosed : c.schema.Closed)

include hclosed

/-- A request for a record of the schema does not lose its way. -/
theorem not_isStray_of_requestWithin {r : RecordId} (hr : c.schema.records.contains r = true)
    {depth : Nat} (hdepth : c.schema.records.size ≤ depth) {s : Session} (hs : s.Sound)
    (hc : s.context = c) {t : Trap} (h : requestWithin depth r s = .error t) : ¬t.IsStray := by
  refine hclosed.induction_on_depth
    (motive := fun r depth => ∀ s : Session, s.Sound → s.context = c →
      ∀ t, requestWithin depth r s = .error t → ¬t.IsStray)
    (fun r depth hr ih s hs hc t h => ?_) hr hdepth s hs hc t h
  rw [requestWithin] at h
  split at h
  · cases h
  · rcases except_bind_eq_error_iff.mp h with hrun | ⟨_, -, hreturn⟩
    · rw [hc] at hrun
      exact run_eq_error ih (LayoutContext.within_recordLayout_of_closed hclosed hr) hs hc hrun
    · cases hreturn

/-- Requests for records of the schema do not depend on the depth, from that of the schema on. -/
theorem requestWithin_eq_of_le {r : RecordId} (hr : c.schema.records.contains r = true)
    {depth : Nat} (hdepth : c.maxDepth ≤ depth) {s : Session} (hs : s.Sound) (hc : s.context = c) :
    requestWithin depth r s = requestWithin c.maxDepth r s := by
  refine hclosed.induction_on_depth
    (motive := fun r n => ∀ depth, n ≤ depth → ∀ s : Session, s.Sound → s.context = c →
      requestWithin depth r s = requestWithin n r s)
    (fun r n _ ih depth hdepth s hs hc => ?_) hr (Nat.le_succ _) depth hdepth s hs hc
  cases depth with
  | zero => cases hdepth
  | succ depth =>
    have hrun := run_congr (follows_of_requestWithin depth)
      (fun r' hr' => ih r' hr' depth (Nat.le_of_succ_le_succ hdepth))
      (LayoutContext.confined_recordLayout r) hs hc
    rw [requestWithin, requestWithin, hc, hrun]

end Closed

/-! ### Requests in order -/

/-- Whether a record may be asked for while others are being laid out, the innermost first: it is
directly contained in the innermost one, and it is none of them. -/
def admits (c : LayoutContext) (pending : List RecordId) (r : RecordId) : Bool :=
  match pending with
  | [] => true
  | outer :: _ => decide (r ∈ containedIn c.schema.records outer) && decide (r ∉ pending)

/-- The answer for a record, from memory or by laying it out, while others are being laid out. A
request that is not admitted is refused. -/
def guardedWithin :
    (depth : Nat) → (pending : List RecordId) → RecordId → Session → Except Trap (Answer × Session)
  | 0, _, _, _ => .error .bottomless
  | depth + 1, pending, r, s =>
    if admits s.context pending r then
      match s.answer? r with
      | some a => .ok (a, s)
      | none => do
        let (a, s) ←
          (s.context.recordLayout r).run (guardedWithin depth (r :: pending)) report s
        return (a, s.remember r a)
    else .error .bottomless

/-- A record is not among those that lead to it. -/
theorem not_mem_of_isChain (hclosed : c.schema.Closed) {r : RecordId} {pending : List RecordId}
    (h : (r :: pending).IsChain (Function.swap (Contains c.schema.records))) : r ∉ pending := by
  intro hr
  obtain ⟨front, back, rfl⟩ := List.append_of_mem hr
  have hcycle : (r :: front ++ [r]).IsChain (Function.swap (Contains c.schema.records)) :=
    h.prefix ⟨back, by simp⟩
  exact not_transGen_self hclosed.wellFounded r
    (Relation.transGen_swap.mp (transGen_of_isChain front hcycle))

/-- **Requests come in order.** While records are laid out, each contained in the one around it, the
guard refuses nothing. -/
theorem guardedWithin_eq (hclosed : c.schema.Closed) {depth : Nat} {pending : List RecordId}
    {r : RecordId} {s : Session}
    (h : (r :: pending).IsChain (Function.swap (Contains c.schema.records))) (hs : s.Sound)
    (hc : s.context = c) : guardedWithin depth pending r s = requestWithin depth r s := by
  induction depth generalizing pending r s with
  | zero => rfl
  | succ depth ih =>
    have hadmits : admits c pending r = true := by
      cases pending with
      | nil => rfl
      | cons outer pending =>
        -- a record that is pending already would lead to itself
        have hcontains : r ∈ containedIn c.schema.records outer :=
          mem_containedIn_iff.mpr (List.isChain_cons_cons.mp h).1
        have hnew := not_mem_of_isChain hclosed h
        rw [admits, decide_eq_true hcontains, decide_eq_true hnew]
        rfl
    have hrun := run_congr (follows_of_requestWithin depth)
      (fun r' hr' s hs hc => (ih (List.isChain_cons_cons.mpr ⟨hr', h⟩) hs hc).symm)
      (LayoutContext.confined_recordLayout r) hs hc
    rw [guardedWithin, requestWithin, hc, if_pos hadmits]
    cases s.answer? r with
    | some a => rfl
    | none => rw [hrun]

/-! ### Queries -/

namespace Reachable

variable {d : Declarations} {schema : Schema} {profile : Profile} {settings : SinkSettings}
  {s : Session}

/-- **Queries end, and stay within the schema.** In a table that is accepted, containment by value
is well founded, and the types over its records have names. No session, under any profile, loses its
way in a query about its records. It does the same when requests are refused unless each one, made
while a record is laid out, is for a record directly contained in that one and not being laid out
itself, and when records may nest deeper than there are records. -/
theorem ask_stays (hclose : d.close = .ok schema) (hs : Reachable schema profile settings s) :
    WellFounded (Function.swap (Contains schema.records)) ∧
    (∀ ty, schema.Declares ty → ∃ name, schema.typeName ty = .ok name) ∧
    ∀ q : Query, q.Declared schema →
      (∀ t, s.ask q = .error t → ¬t.IsStray) ∧
      ∀ depth, s.context.maxDepth ≤ depth →
        (q.program s.context).run (guardedWithin depth []) report s = s.ask q := by
  obtain ⟨hclosed, -⟩ := Declarations.close_closed hclose
  refine ⟨hclosed.wellFounded, fun ty hty => hty.typeName_eq_ok, fun q hq => ?_⟩
  have hprogram : (q.program ⟨schema, profile⟩).Within (schema.records.contains · = true)
      (fun _ => True) (¬·.IsStray) :=
    Query.within_program (c := ⟨schema, profile⟩) hclosed hq
  rw [ask_eq_exec, Session.exec, hs.context_eq]
  refine ⟨fun t ht => ?_, fun depth hdepth => ?_⟩
  · exact run_eq_error (fun r hr s hs hc t => not_isStray_of_requestWithin hclosed hr
      (Nat.le_succ _) hs hc) hprogram hs.sound hs.context_eq ht
  · refine (run_congr (follows_of_requestWithin _) (fun r hr s hs hc => ?_) hprogram.confined
      hs.sound hs.context_eq).symm
    -- a query itself asks while nothing is pending
    rw [guardedWithin_eq hclosed (List.isChain_singleton r) hs hc]
    exact (requestWithin_eq_of_le hclosed hr hdepth hs hc).symm

theorem ask_stays_mixed :
    ∃ reply s', (Session.start Schema.mixed .lp64 .keepAll).ask (.locate (.of 2) "letter") =
        .ok (reply, s') ∧
      ((Query.locate (.of 2) "letter").program ⟨Schema.mixed, .lp64⟩).run
        (guardedWithin 7 []) report (Session.start Schema.mixed .lp64 .keepAll) =
          .ok (reply, s') := by
  obtain ⟨-, -, hqueries⟩ := ask_stays Declarations.close_mixed
    (.start : Reachable Schema.mixed .lp64 .keepAll _)
  obtain ⟨-, hguarded⟩ := hqueries (.locate (.of 2) "letter") rfl
  have hask : ∃ reply s', (Session.start Schema.mixed .lp64 .keepAll).ask
      (.locate (.of 2) "letter") = .ok (reply, s') := ⟨_, _, rfl⟩
  obtain ⟨reply, s', hask⟩ := hask
  exact ⟨reply, s', hask, (hguarded 7 (by decide)).trans hask⟩

end Reachable

end Session

end AbiLayout
