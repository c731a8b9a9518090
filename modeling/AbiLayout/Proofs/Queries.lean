import AbiLayout.Proofs.Memory

/-!
# Sequences of queries

A session is asked for records, for types, for all records and for members by name, in any order and
any number of times. Each reply is the one that is computed without a memory. What a sequence of
queries leaves behind depends on the set of its queries only: the records computed are those that
the queries lead to, each one once, and the sink holds their diagnostics, in some order.

## Main definitions

* `Query`, `Reply`, `Session.ask`, `Session.askAll`: the queries of a session, alone and in a
  sequence.
* `LayoutContext.reply`: the reply to a query, computed without a memory.
* `LayoutContext.roots`: the records that a query asks for.

## Main results

* `LayoutContext.within_locateStep`: the search for a name goes on in records that its record
  contains.
* `Session.askAll_fst`: the replies are those computed without a memory.
* `Session.mem_computed_askAll_iff`, `Session.collected_askAll`: what a sequence of queries leaves
  behind.
* `Session.perm_of_same_queries`: the order of queries does not matter.
-/

namespace AbiLayout

open Relation

/-! ### Queries -/

/-- A query to a session. -/
inductive Query where
  | record (r : RecordId)
  | typeLayout (ty : Ty)
  | all
  | locate (r : RecordId) (name : String)
deriving DecidableEq, Repr

/-- The reply to a query. -/
inductive Reply where
  | record (answer : Answer)
  | typeLayout (out : Except LayoutError TypeLayout)
  | all (answers : List (RecordId × Answer))
  | locate (out : Except LayoutError (Option MemberPlace))

/-- The program that replies to a query. -/
def Query.program (c : LayoutContext) : Query → LayoutM Reply
  | record r => Reply.record <$> LayoutM.request r
  | typeLayout ty => Reply.typeLayout <$> (c.typeLayout ty).run
  | all => Reply.all <$> c.allLayouts
  | locate r name => Reply.locate <$> (c.locate r name).run

/-- The reply to a query, computed without a memory. -/
def LayoutContext.reply (c : LayoutContext) (q : Query) : Except Trap Reply :=
  (q.program c).value c.answer

namespace Session

/-- Asks a query. -/
def ask (q : Query) (s : Session) : Except Trap (Reply × Session) :=
  match q with
  | .record r => do
    let (answer, s) ← s.record r
    return (.record answer, s)
  | .typeLayout ty => do
    let (out, s) ← s.typeLayout ty
    return (.typeLayout out, s)
  | .all => do
    let (answers, s) ← s.all
    return (.all answers, s)
  | .locate r name => do
    let (out, s) ← s.locate r name
    return (.locate out, s)

/-- Asks queries one after the other. Each one comes back with its reply. -/
def askAll : List Query → Session → Except Trap (List (Query × Reply) × Session)
  | [], s => return ([], s)
  | q :: qs, s => do
    let (reply, s) ← s.ask q
    let (replies, s) ← askAll qs s
    return ((q, reply) :: replies, s)

theorem exec_map {α β : Type} (f : α → β) (p : LayoutM α) (s : Session) :
    s.exec (f <$> p) = (do
      let (a, s) ← s.exec p
      return (f a, s)) := by
  rw [exec, map_eq_pure_bind, LayoutM.run_bind, exec]
  cases p.run (requestWithin s.context.maxDepth) report s <;> rfl

/-- A query is the run of its program. -/
theorem ask_eq_exec (q : Query) (s : Session) : s.ask q = s.exec (q.program s.context) := by
  cases q with
  | record | typeLayout | all | locate => exact (exec_map _ _ s).symm

/-! ### Replies -/

section Replies

variable {c : LayoutContext} (hclosed : c.schema.Closed)

include hclosed

/-- **The replies to a sequence of queries are those computed without a memory.** -/
theorem askAll_fst (qs : List Query) {s : Session} (hs : s.Sound) (hc : s.context = c) :
    (s.askAll qs).map Prod.fst = qs.mapM fun q => return (q, ← c.reply q) := by
  induction qs generalizing s with
  | nil => rfl
  | cons q qs ih =>
    have hreply : (s.ask q).map Prod.fst = c.reply q := by
      rw [ask_eq_exec, hc]
      exact exec_fst hclosed hs hc
    rw [askAll, List.mapM_cons, ← hreply]
    cases hask : s.ask q with
    | error t => rfl
    | ok out =>
      obtain ⟨reply, s₁⟩ := out
      rw [ask_eq_exec] at hask
      obtain ⟨hfollows, -⟩ := exec_sound hs hask
      have hrest := ih hfollows.sound (hfollows.context_eq.trans hc)
      change Except.map Prod.fst (askAll qs s₁ >>= fun out => .ok ((q, reply) :: out.1, out.2)) =
        (qs.mapM fun q => return (q, ← c.reply q)) >>= fun replies => .ok ((q, reply) :: replies)
      rw [← hrest]
      cases askAll qs s₁ <;> rfl

/-- A sequence of queries runs exactly when each of them has a reply. -/
theorem exists_askAll_iff (qs : List Query) {s : Session} (hs : s.Sound) (hc : s.context = c) :
    (∃ replies s', s.askAll qs = .ok (replies, s')) ↔ ∀ q ∈ qs, ∃ reply, c.reply q = .ok reply := by
  have hfst := askAll_fst hclosed qs hs hc
  constructor
  · rintro ⟨replies, s', h⟩ q hq
    rw [h] at hfst
    obtain ⟨x, hx⟩ := (mapM_eq_ok hfst.symm).1 q hq
    obtain ⟨reply, hreply, -⟩ := except_bind_eq_ok_iff.mp hx
    exact ⟨reply, hreply⟩
  · intro h
    obtain ⟨replies, hreplies⟩ := exists_mapM_eq_ok
      (f := fun q => do return (q, ← c.reply q)) fun q hq => by
        obtain ⟨reply, hreply⟩ := h q hq
        exact ⟨(q, reply), by rw [hreply]; rfl⟩
    rw [hreplies] at hfst
    cases hask : s.askAll qs with
    | error t =>
      rw [hask] at hfst
      cases hfst
    | ok out => exact ⟨out.1, out.2, rfl⟩

/-- The replies to a sequence of queries are the replies to its queries. -/
theorem mem_replies_iff {qs : List Query} {s s' : Session} {replies : List (Query × Reply)}
    (hs : s.Sound) (hc : s.context = c) (h : s.askAll qs = .ok (replies, s')) (q : Query)
    (reply : Reply) : (q, reply) ∈ replies ↔ q ∈ qs ∧ c.reply q = .ok reply := by
  have hfst := askAll_fst hclosed qs hs hc
  rw [h] at hfst
  rw [(mapM_eq_ok hfst.symm).2]
  constructor
  · rintro ⟨q', hq', h⟩
    obtain ⟨reply', hreply', h⟩ := except_bind_eq_ok_iff.mp h
    cases h
    exact ⟨hq', hreply'⟩
  · rintro ⟨hq, hreply⟩
    exact ⟨q, hq, by rw [hreply]; rfl⟩

end Replies

end Session

/-! ### Queries report nothing -/

section Silent

variable {P : RecordId → Prop} {Q : Diagnostic → Prop} {T : Trap → Prop}

namespace LayoutContext

open LayoutT

variable {c : LayoutContext} {l : RecordLayout} {name : String} {place : SearchPlace}
  {search : RecordId → SearchPlace → LayoutT (Option MemberPlace)}

theorem contains_of_asRecord? {r r' : RecordId} {record : Record} {field : Field}
    (hrecord : c.schema.records.get? r = some record) (hfield : field ∈ record.fields)
    (hr' : field.ty.asRecord? = some r') : Contains c.schema.records r r' := by
  refine .field hrecord hfield (Ty.containedRecord?_eq_some_iff.mp ?_)
  cases hty : field.ty with
  | record => rwa [hty] at hr'
  | primitive | voidPointer | pointerTo | array | bitfield =>
    rw [hty] at hr'
    cases hr'

theorem within_layoutsOf : {rs : List RecordId} → (∀ r ∈ rs, P r) → (layoutsOf rs).Within P Q T
  | [], _ => trivial
  | _ :: _, h => (LayoutM.within_request (h _ List.mem_cons_self)).bind fun _ =>
      (within_layoutsOf fun r hr => h r (List.mem_cons_of_mem _ hr)).bind fun _ =>
        LayoutM.within_pure _

section Steady

variable (hT : ∀ t, ¬t.IsStray → T t)

include hT

theorem within_locateInFields (i : Nat) {fields : List Field}
    (hsearch : ∀ field ∈ fields, ∀ r, field.ty.asRecord? = some r → ∀ place,
      Within P Q T (search r place)) :
    Within P Q T (locateInFields search name l place i fields) := by
  induction fields generalizing i with
  | nil => exact within_pure _
  | cons field fields ih =>
    obtain ⟨hhead, htail⟩ := List.forall_mem_cons.mp hsearch
    rw [locateInFields]
    split
    · exact ih (i + 1) htail
    split
    · exact (within_steadyT hT (place.steady_into _)).bind fun inner => within_pure _
    split
    · rename_i r _ hr
      refine (within_steadyT hT (place.steady_into _)).bind fun inner => ?_
      refine (hhead r hr inner).bind fun result => ?_
      cases result with
      | some found => exact within_pure _
      | none => exact ih (i + 1) htail
    · exact ih (i + 1) htail

theorem within_locateInBases (i : Nat) {bases : List Base}
    (hsearch : ∀ base ∈ bases, ∀ place, Within P Q T (search base.record place)) :
    Within P Q T (locateInBases search l place i bases) := by
  induction bases generalizing i with
  | nil => exact within_pure _
  | cons base bases ih =>
    obtain ⟨hhead, htail⟩ := List.forall_mem_cons.mp hsearch
    rw [locateInBases]
    split
    · exact ih (i + 1) htail
    · refine (within_steadyT hT (place.steady_into _)).bind fun inner => ?_
      refine (hhead inner).bind fun result => ?_
      cases result with
      | some found => exact within_pure _
      | none => exact ih (i + 1) htail

/-- One step of the search for a name goes on in records that its record contains. -/
theorem within_locateStep {depth : Nat} {r : RecordId} (hname : c.Names T (.record r)) (hr : P r)
    (hsearch : ∀ r', Contains c.schema.records r r' → ∀ place,
      Within P Q T (c.locateWithin name depth r' place)) :
    Within P Q T (c.locateWithin name (depth + 1) r place) := by
  refine (within_layoutOf hr).bind fun l => within_liftM_bind hname.get fun record hrecord => ?_
  rw [Schema.record, Arena.get_eq_ok_iff] at hrecord
  refine (within_locateInFields hT 0 fun field hfield r' hr' =>
    hsearch r' (contains_of_asRecord? hrecord hfield hr')).bind fun result => ?_
  cases result with
  | some found => exact within_pure _
  | none => exact within_locateInBases hT 0 fun base hbase => hsearch _ (.base hrecord hbase)

end Steady

theorem within_locateWithin (hP : ∀ r, P r) (hT : ∀ t, T t) (depth : Nat) (r : RecordId)
    (place : SearchPlace) : Within P Q T (c.locateWithin name depth r place) := by
  induction depth generalizing r place with
  | zero => exact within_trap (hT _)
  | succ depth ih =>
    exact within_locateStep (fun t _ => hT t) (names_of_forall hT _) (hP r)
      fun r' _ place => ih r' place

end LayoutContext

/-- The program of a query asks for records, and reports nothing. -/
theorem Query.confined_program (c : LayoutContext) (q : Query) :
    (q.program c).Confined (fun _ => True) fun _ => False := by
  have hnames (ty : Ty) : c.Names (fun _ => True) ty :=
    LayoutContext.names_of_forall (fun _ => trivial) ty
  refine LayoutM.Within.confined (T := fun _ => True) ?_
  cases q with
  | record r => exact .map _ (LayoutM.within_request trivial)
  | typeLayout ty => exact .map _ (LayoutContext.within_typeLayout (hnames ty) fun _ _ => trivial)
  | all => exact .map _ (LayoutContext.within_layoutsOf fun _ _ => trivial)
  | locate r name =>
    exact .map _ (LayoutContext.within_locateWithin (fun _ => trivial) (fun _ => trivial) _ r _)

end Silent

/-! ### What queries leave behind -/

/-- The records that a query asks for. -/
def LayoutContext.roots (c : LayoutContext) (q : Query) : List RecordId :=
  (q.program c).asked c.answer

namespace Session

/-- A sequence of queries adds what the queries ask for, and what that leads to. -/
theorem extends_of_askAll {c : LayoutContext} (hclosed : c.schema.Closed) {qs : List Query}
    {s s' : Session} {replies : List (Query × Reply)} (hs : s.Sound) (hc : s.context = c)
    (h : s.askAll qs = .ok (replies, s')) :
    Follows s s' ∧ ∃ new, s.Extends (qs.flatMap c.roots) [] new s' := by
  induction qs generalizing s replies with
  | nil =>
    cases h
    exact ⟨.refl hs, [], .refl _⟩
  | cons q qs ih =>
    obtain ⟨⟨reply, s₁⟩, hask, h⟩ := except_bind_eq_ok_iff.mp h
    obtain ⟨⟨rest, s₂⟩, hrest, h⟩ := except_bind_eq_ok_iff.mp h
    cases h
    rw [ask_eq_exec, hc] at hask
    obtain ⟨hfollows, -⟩ := exec_sound hs hask
    obtain ⟨new, hnew⟩ := extends_of_exec hclosed hs hc hask
    obtain ⟨hfollows', new', hnew'⟩ := ih hfollows.sound (hfollows.context_eq.trans hc) hrest
    rw [(q.confined_program c).reports_eq_nil] at hnew
    exact ⟨hfollows.trans hfollows', new' ++ new, hnew.trans hnew'⟩

section Start

variable {schema : Schema} (hclosed : schema.Closed) {profile : Profile} {settings : SinkSettings}
  {qs : List Query} {replies : List (Query × Reply)} {s : Session}
  (h : (start schema profile settings).askAll qs = .ok (replies, s))

include hclosed h

/-- Each record is computed at most once. -/
theorem nodup_computed_askAll : s.computed.Nodup := by
  obtain ⟨-, new, hnew⟩ := extends_of_askAll hclosed (sound_start _ _ _) rfl h
  exact hnew.nodup List.nodup_nil

/-- The records computed are those that the queries lead to. -/
theorem mem_computed_askAll_iff {r : RecordId} :
    r ∈ s.computed ↔ ∃ q ∈ qs, ∃ r₀ ∈ LayoutContext.roots ⟨schema, profile⟩ q,
      ReflTransGen (LayoutContext.Asks ⟨schema, profile⟩) r₀ r := by
  obtain ⟨-, new, hnew⟩ := extends_of_askAll hclosed (sound_start _ _ _) rfl h
  have hcomputed : s.computed = new := hnew.computed_eq.trans (List.append_nil new)
  constructor
  · intro hr
    obtain ⟨r₀, hr₀, hreached⟩ := hnew.reached r (hcomputed ▸ hr)
    obtain ⟨q, hq, hr₀⟩ := List.mem_flatMap.mp hr₀
    exact ⟨q, hq, r₀, hr₀, hreached⟩
  · rintro ⟨q, hq, r₀, hr₀, hreached⟩
    induction hreached with
    | refl => exact hnew.roots_mem r₀ (List.mem_flatMap.mpr ⟨q, hq, hr₀⟩)
    | tail _ hasks ih => exact hnew.asked_mem _ (hcomputed ▸ ih) _ hasks

/-- The sink holds the diagnostics of the records computed. -/
theorem collected_askAll :
    s.sink.collected.Perm ((s.computed.flatMap (LayoutContext.ownReports ⟨schema, profile⟩)).filter
      settings.keeps) := by
  obtain ⟨-, new, hnew⟩ := extends_of_askAll hclosed (sound_start _ _ _) rfl h
  rw [hnew.computed_eq.trans (List.append_nil new)]
  exact hnew.collected

end Start

/-- Sequences of the same queries compute the same records and collect the same diagnostics. -/
theorem perm_of_same_queries {schema : Schema} (hclosed : schema.Closed) {profile : Profile}
    {settings : SinkSettings} {qs qs' : List Query} {replies replies' : List (Query × Reply)}
    {s s' : Session} (h : (start schema profile settings).askAll qs = .ok (replies, s))
    (h' : (start schema profile settings).askAll qs' = .ok (replies', s'))
    (hqs : ∀ q, q ∈ qs' ↔ q ∈ qs) :
    s'.computed.Perm s.computed ∧ s'.sink.collected.Perm s.sink.collected := by
  have hperm : s'.computed.Perm s.computed := by
    rw [List.perm_ext_iff_of_nodup (nodup_computed_askAll hclosed h')
      (nodup_computed_askAll hclosed h)]
    intro r
    simp only [mem_computed_askAll_iff hclosed h', mem_computed_askAll_iff hclosed h, hqs]
  refine ⟨hperm, (collected_askAll hclosed h').trans (.trans ?_ (collected_askAll hclosed h).symm)⟩
  exact (hperm.flatMap_right _).filter _

end Session

end AbiLayout
