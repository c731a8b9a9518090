import AbiLayout.Layout.Session
import AbiLayout.Proofs.Evaluation

/-!
# Sessions compute values

Whatever a session has been asked before, what it says is the value of the program that it runs: its
memory only holds answers of records (`Session.Sound`), and running a program keeps that.

## Main definitions

* `Session.Sound`: every remembered answer is the answer of its record.
* `Session.Reachable`: the sessions that runs of programs lead to.

## Main results

* `Session.requestWithin_cases`: how a request is answered.
* `Session.exec_sound`: a run that succeeds computes a value and keeps the memory sound.
* `Session.exec_eq_ok`: a program with a value at the depth of the schema runs without a trap.
* `Session.Reachable.sound`: every reachable session is sound.
-/

namespace AbiLayout

namespace Session

variable {α : Type}

/-- Every remembered answer is the answer of its record. -/
def Sound (s : Session) : Prop := ∀ r a, s.answer? r = some a → s.context.HasAnswer r a

theorem sound_start (schema : Schema) (profile : Profile) (settings : SinkSettings) :
    (start schema profile settings).Sound := fun _ _ h => nomatch h

theorem Sound.report {s : Session} (hs : s.Sound) (d : Diagnostic) : (s.report d).Sound := hs

theorem Sound.remember {s : Session} (hs : s.Sound) {r : RecordId} {a : Answer}
    (ha : s.context.HasAnswer r a) : (s.remember r a).Sound := by
  intro r' a' h
  rw [answer?, Session.remember, List.lookup_cons] at h
  by_cases hr : r' = r
  · subst hr
    rw [beq_self_eq_true] at h
    cases h
    exact ha
  · rw [beq_false_of_ne hr] at h
    exact hs r' a' h

/-! ### Runs compute values -/

/-- What a session at hand gains from a run: the context stays, and so does soundness. -/
structure Follows (s s' : Session) : Prop where
  context_eq : s'.context = s.context
  sound : s'.Sound

theorem Follows.refl {s : Session} (hs : s.Sound) : Follows s s := ⟨rfl, hs⟩

theorem Follows.trans {s₁ s₂ s₃ : Session} (h : Follows s₁ s₂) (h' : Follows s₂ s₃) :
    Follows s₁ s₃ := ⟨h'.context_eq.trans h.context_eq, h'.sound⟩

/-- A run computes a value, if the requests that it makes are answered by answers. -/
theorem run_sound {depth : Nat}
    (hrequest : ∀ r s a s', s.Sound → requestWithin depth r s = .ok (a, s') →
      Follows s s' ∧ s.context.HasAnswer r a) {x : α} :
    (p : LayoutM α) → {s s' : Session} → s.Sound →
      p.run (requestWithin depth) report s = .ok (x, s') →
        Follows s s' ∧ ∃ d, p.value (s.context.answerWithin d) = .ok x
  | .done _, _, _, hs, h => by
    cases h
    exact ⟨.refl hs, 0, rfl⟩
  | .trap _, _, _, _, h => nomatch h
  | .ask r next, s, s', hs, h => by
    rw [LayoutM.run_ask] at h
    obtain ⟨⟨a, s₁⟩, hr, h⟩ := except_bind_eq_ok_iff.mp h
    obtain ⟨hfollows, d₁, hd₁⟩ := hrequest r s a s₁ hs hr
    obtain ⟨hfollows', d₂, hd₂⟩ := run_sound hrequest (next a) hfollows.sound h
    refine ⟨hfollows.trans hfollows', max d₁ d₂, ?_⟩
    rw [hfollows.context_eq] at hd₂
    rw [LayoutM.value, LayoutContext.answerWithin_mono (Nat.le_max_left d₁ d₂) hd₁]
    exact LayoutM.value_mono
      (fun _ _ => LayoutContext.answerWithin_mono (Nat.le_max_right d₁ d₂)) (next a) hd₂
  | .report d next, _, _, hs, h => by
    obtain ⟨hfollows, hvalue⟩ := run_sound hrequest next (hs.report d) h
    exact ⟨⟨hfollows.context_eq, hfollows.sound⟩, hvalue⟩

/-- A request is answered from memory, or by the program of the record, and then remembered. -/
theorem requestWithin_cases {depth : Nat} {r : RecordId} {s s' : Session} {a : Answer}
    (h : requestWithin (depth + 1) r s = .ok (a, s')) :
    (s.answer? r = some a ∧ s' = s) ∨
      (s.answer? r = none ∧ ∃ s₁,
        (s.context.recordLayout r).run (requestWithin depth) report s = .ok (a, s₁) ∧
        s' = s₁.remember r a) := by
  rw [requestWithin] at h
  cases hmemory : s.answer? r with
  | some b =>
    rw [hmemory] at h
    cases h
    exact .inl ⟨rfl, rfl⟩
  | none =>
    rw [hmemory] at h
    obtain ⟨⟨b, s₁⟩, hrun, hret⟩ := except_bind_eq_ok_iff.mp h
    cases hret
    exact .inr ⟨rfl, s₁, hrun, rfl⟩

/-- A request that is answered is answered by the answer of the record. -/
theorem requestWithin_sound :
    (depth : Nat) → (r : RecordId) → (s : Session) → (a : Answer) → (s' : Session) → s.Sound →
      requestWithin depth r s = .ok (a, s') → Follows s s' ∧ s.context.HasAnswer r a
  | 0, _, _, _, _, _, h => nomatch h
  | depth + 1, r, s, a, s', hs, h => by
    obtain ⟨hb, rfl⟩ | ⟨-, s₁, hrun, rfl⟩ := requestWithin_cases h
    · exact ⟨.refl hs, hs r a hb⟩
    · obtain ⟨hfollows, d, hd⟩ := run_sound (requestWithin_sound depth) _ hs hrun
      have ha : s.context.HasAnswer r a := ⟨d + 1, hd⟩
      exact ⟨⟨hfollows.context_eq, hfollows.sound.remember (hfollows.context_eq ▸ ha)⟩, ha⟩

/-- A run that succeeds computes a value, and keeps the memory sound. -/
theorem exec_sound {p : LayoutM α} {s s' : Session} {x : α} (hs : s.Sound)
    (h : s.exec p = .ok (x, s')) :
    Follows s s' ∧ ∃ d, p.value (s.context.answerWithin d) = .ok x :=
  run_sound (requestWithin_sound _) p hs h

/-- The layout or the error that a session reports for a record is its answer. -/
theorem record_sound {s s' : Session} {r : RecordId} {a : Answer} (hs : s.Sound)
    (h : s.record r = .ok (a, s')) : s.context.HasAnswer r a := by
  obtain ⟨-, d, hd⟩ := exec_sound hs h
  rw [LayoutM.value_request] at hd
  exact ⟨d, hd⟩

/-! ### Values are computed -/

/-- A program with a value runs, if the requests for records with answers do. -/
theorem run_eq_ok {c : LayoutContext} {depth : Nat}
    (hrequest : ∀ r s a, s.Sound → s.context = c → c.answerWithin depth r = .ok a →
      ∃ s', requestWithin depth r s = .ok (a, s') ∧ Follows s s') {x : α} :
    (p : LayoutM α) → {s : Session} → s.Sound → s.context = c →
      p.value (c.answerWithin depth) = .ok x →
        ∃ s', p.run (requestWithin depth) report s = .ok (x, s') ∧ Follows s s'
  | .done _, s, hs, _, h => by
    cases h
    exact ⟨s, rfl, .refl hs⟩
  | .trap _, _, _, _, h => nomatch h
  | .ask r next, s, hs, hc, h => by
    rw [LayoutM.value] at h
    split at h
    · cases h
    · rename_i a ha
      obtain ⟨s₁, hr, hfollows⟩ := hrequest r s a hs hc ha
      obtain ⟨s₂, hrun, hfollows'⟩ := run_eq_ok hrequest (next a) hfollows.sound
        (hfollows.context_eq.trans hc) h
      refine ⟨s₂, ?_, hfollows.trans hfollows'⟩
      rw [LayoutM.run, hr]
      exact hrun
  | .report d next, s, hs, hc, h => by
    obtain ⟨s', hrun, hfollows⟩ := run_eq_ok hrequest next (hs.report d) hc h
    exact ⟨s', hrun, ⟨hfollows.context_eq, hfollows.sound⟩⟩

/-- A record with an answer at some depth is answered within that depth, by memory or anew. -/
theorem requestWithin_eq_ok {c : LayoutContext} :
    (depth : Nat) → (r : RecordId) → (s : Session) → (a : Answer) → s.Sound → s.context = c →
      c.answerWithin depth r = .ok a → ∃ s', requestWithin depth r s = .ok (a, s') ∧ Follows s s'
  | 0, _, _, _, _, _, h => nomatch h
  | depth + 1, r, s, a, hs, hc, h => by
    rw [requestWithin]
    split
    · rename_i b hb
      have hba : b = a := (hs r b hb).unique (hc ▸ ⟨depth + 1, h⟩)
      exact ⟨s, by rw [hba], .refl hs⟩
    · subst hc
      obtain ⟨s₁, hrun, hfollows⟩ := run_eq_ok (requestWithin_eq_ok depth) _ hs rfl h
      refine ⟨s₁.remember r a, ?_, hfollows.context_eq, ?_⟩
      · rw [hrun]
        rfl
      · refine hfollows.sound.remember ?_
        rw [hfollows.context_eq]
        exact ⟨depth + 1, h⟩

/-- A program with a value at the depth of the schema runs to that value, from any sound session. -/
theorem exec_eq_ok {p : LayoutM α} {s : Session} {x : α} (hs : s.Sound)
    (h : p.value (s.context.answerWithin s.context.maxDepth) = .ok x) :
    ∃ s', s.exec p = .ok (x, s') ∧ Follows s s' :=
  run_eq_ok (requestWithin_eq_ok _) p hs rfl h

/-- A record with an answer at the depth of the schema is answered, by any sound session. -/
theorem record_eq_ok {s : Session} {r : RecordId} {a : Answer} (hs : s.Sound)
    (h : s.context.answerWithin s.context.maxDepth r = .ok a) :
    ∃ s', s.record r = .ok (a, s') := by
  obtain ⟨s', hexec, -⟩ := exec_eq_ok (p := LayoutM.request r) hs
    (by rwa [LayoutM.value_request])
  exact ⟨s', hexec⟩

/-! ### Reachable sessions -/

/-- The sessions over a schema and a profile that runs of programs lead to, one after the other. The
queries for a record, a type, all records and a name are such runs. -/
inductive Reachable (schema : Schema) (profile : Profile) (settings : SinkSettings) :
    Session → Prop
  | start : Reachable schema profile settings (Session.start schema profile settings)
  | exec {s s' : Session} {α : Type} {p : LayoutM α} {x : α}
      (h : Reachable schema profile settings s) (hexec : s.exec p = .ok (x, s')) :
      Reachable schema profile settings s'

namespace Reachable

variable {schema : Schema} {profile : Profile} {settings : SinkSettings} {s s' : Session}

theorem sound_and_context_eq (h : Reachable schema profile settings s) :
    s.Sound ∧ s.context = ⟨schema, profile⟩ := by
  induction h with
  | start => exact ⟨sound_start schema profile settings, rfl⟩
  | exec _ hexec ih =>
    obtain ⟨hfollows, -⟩ := exec_sound ih.1 hexec
    exact ⟨hfollows.sound, hfollows.context_eq.trans ih.2⟩

theorem sound (h : Reachable schema profile settings s) : s.Sound := h.sound_and_context_eq.1

theorem context_eq (h : Reachable schema profile settings s) : s.context = ⟨schema, profile⟩ :=
  h.sound_and_context_eq.2

end Reachable

end Session

end AbiLayout
