import AbiLayout.Proofs.Closing
import Mathlib.Algebra.Order.Ring.Nat

/-!
# Histories of declarations

A set of declarations is made by calls that declare a record, define it, or do both at once. Each
call has a reply: the id of the new record, or that the definition is taken, or why it is refused.
The calls with their replies are a history, and the history alone tells what is declared: the record
of each id has the kind and the name of the call that declared it, and the members that it was given
first. A refused definition leaves no trace.

## Main definitions

* `Declarations.Call`, `Declarations.Reply`, `Declarations.call`, `Declarations.callAll`.
* `Declarations.History`, with `headers`, `body?` and `definitionReply`: what a history tells.
* `Declarations.History.Tells`: that declarations are as a history tells.

## Main results

* `Declarations.History.Tells.callAll`: declarations stay as their history tells.
* `Declarations.History.Tells.exists_callAll`: calls succeed as long as there are ids.
* `Declarations.History.Tells.definition`: when a definition is taken, and that a refused one
  changes nothing.
* `Declarations.callAll_append_cons`: a history can be cut at each of its calls.
* `Declarations.definition_of_callAll`: a definition behind other calls, and that the history is the
  same without it if it is refused.
-/

namespace AbiLayout.Declarations

open ArenaKey

/-! ### Calls -/

/-- No declarations yet, under a profile. -/
def start (profile : Profile) : Declarations := { profile }

/-- A call that adds to a set of declarations. -/
inductive Call where
  | declare (kind : RecordKind) (name : Option String)
  | define (r : RecordId) (bases : List Base) (fields : List Field)
  | record (kind : RecordKind) (name : Option String) (bases : List Base) (fields : List Field)
deriving DecidableEq

/-- What a call answers. -/
inductive Reply where
  | declared (r : RecordId)
  | defined
  | refused (e : SchemaError)
deriving DecidableEq

/-- The calls on a set of declarations, each with its reply. -/
abbrev History := List (Call × Reply)

/-- The reply to a call, and the declarations behind it. -/
def call (d : Declarations) : Call → Except Trap (Reply × Declarations)
  | .declare kind name => do
    let (r, d) ← d.declare kind name
    return (.declared r, d)
  | .define r bases fields =>
    match d.define r bases fields with
    | .ok d => .ok (.defined, d)
    | .error e => .ok (.refused e, d)
  | .record kind name bases fields => do
    let (r, d) ← d.addRecord kind name bases fields
    return (.declared r, d)

/-- The history of calls in order, and the declarations behind them. -/
def callAll (d : Declarations) : List Call → Except Trap (History × Declarations)
  | [] => .ok ([], d)
  | c :: cs => do
    let (reply, d) ← d.call c
    let (history, d) ← d.callAll cs
    return ((c, reply) :: history, d)

/-! ### Definitions -/

section Definitions

variable {d : Declarations} {r : RecordId} {bases : List Base} {fields : List Field}
  {declaration : Declaration}

/-- The declarations with the members of a record. -/
def withBody (d : Declarations) (r : RecordId) (body : List Base × List Field) : Declarations :=
  { d with records := d.records.modify r fun declaration => { declaration with body := some body } }

theorem define_of_undeclared (hget : d.records.get? r = none) :
    d.define r bases fields = .error (undeclared r) := by
  rw [define, hget]

theorem define_of_defined {body : List Base × List Field}
    (hget : d.records.get? r = some declaration) (hbody : declaration.body = some body) :
    d.define r bases fields = .error (.redefinedRecord declaration.label) := by
  rw [define, hget]
  dsimp only
  rw [hbody, Option.isSome_some, if_pos rfl]

theorem define_of_undefined (hget : d.records.get? r = some declaration)
    (hbody : declaration.body = none) :
    d.define r bases fields = .ok (d.withBody r (bases, fields)) := by
  rw [define, hget]
  dsimp only
  rw [hbody, Option.isSome_none, if_neg Bool.false_ne_true]
  rfl

end Definitions

/-! ### What a history tells -/

/-- The kind and the name of the record that a call declares. -/
def Call.header? : Call → Option (RecordKind × Option String)
  | declare kind name | record kind name _ _ => some (kind, name)
  | define _ _ _ => none

/-- The members that a record is given by a call. -/
def given? : Call × Reply → Option (RecordId × List Base × List Field)
  | (.define r bases fields, .defined) => some (r, bases, fields)
  | (.record _ _ bases fields, .declared r) => some (r, bases, fields)
  | _ => none

/-- **What a call does.** It stores a declaration, or it takes a definition, or it refuses one. -/
theorem call_cases {d d' : Declarations} {c : Call} {reply : Reply}
    (hcall : d.call c = .ok (reply, d')) :
    (∃ declaration r records, d.records.push declaration = .ok (r, records) ∧
      c.header? = some (declaration.kind, declaration.name) ∧
      given? (c, .declared r) = declaration.body.map (r, ·) ∧
      reply = .declared r ∧ d' = { d with records }) ∨
    (∃ r bases fields declaration, c = .define r bases fields ∧
      d.records.get? r = some declaration ∧ declaration.body = none ∧
      reply = .defined ∧ d' = d.withBody r (bases, fields)) ∨
    ∃ r bases fields e, c = .define r bases fields ∧ reply = .refused e ∧ d' = d := by
  cases c with
  | declare kind name =>
    obtain ⟨⟨r, d₁⟩, hdeclare, hcall⟩ := except_bind_eq_ok_iff.mp hcall
    obtain ⟨⟨r', records⟩, hpush, hdeclare⟩ := except_bind_eq_ok_iff.mp hdeclare
    cases hdeclare
    cases hcall
    exact .inl ⟨_, _, _, hpush, rfl, rfl, rfl, rfl⟩
  | define r bases fields =>
    rw [call] at hcall
    cases hget : d.records.get? r with
    | none =>
      rw [define_of_undeclared hget] at hcall
      cases hcall
      exact .inr (.inr ⟨r, bases, fields, _, rfl, rfl, rfl⟩)
    | some declaration =>
      cases hbody : declaration.body with
      | none =>
        rw [define_of_undefined hget hbody] at hcall
        cases hcall
        exact .inr (.inl ⟨r, bases, fields, declaration, rfl, hget, hbody, rfl, rfl⟩)
      | some body =>
        rw [define_of_defined hget hbody] at hcall
        cases hcall
        exact .inr (.inr ⟨r, bases, fields, _, rfl, rfl, rfl⟩)
  | record kind name bases fields =>
    obtain ⟨⟨r, d₁⟩, hadd, hcall⟩ := except_bind_eq_ok_iff.mp hcall
    obtain ⟨⟨r', records⟩, hpush, hadd⟩ := except_bind_eq_ok_iff.mp hadd
    cases hadd
    cases hcall
    exact .inl ⟨_, _, _, hpush, rfl, rfl, rfl, rfl⟩

/-- Calls succeed one after the other. -/
theorem callAll_cons_eq_ok_iff {d d' : Declarations} {c : Call} {cs : List Call} {h : History} :
    d.callAll (c :: cs) = .ok (h, d') ↔ ∃ reply d₁ h₁,
      d.call c = .ok (reply, d₁) ∧ d₁.callAll cs = .ok (h₁, d') ∧ h = (c, reply) :: h₁ := by
  rw [callAll, except_bind_eq_ok_iff]
  constructor
  · rintro ⟨⟨reply, d₁⟩, hfirst, hcall⟩
    obtain ⟨⟨h₁, d₂⟩, hrest, hcall⟩ := except_bind_eq_ok_iff.mp hcall
    cases hcall
    exact ⟨reply, d₁, h₁, hfirst, hrest, rfl⟩
  · rintro ⟨reply, d₁, h₁, hfirst, hrest, rfl⟩
    exact ⟨(reply, d₁), hfirst, except_bind_eq_ok_iff.mpr ⟨(h₁, d'), hrest, rfl⟩⟩

namespace History

/-- The kinds and names of the records, in the order in which they are declared. -/
def headers (h : History) : List (RecordKind × Option String) := h.filterMap (·.1.header?)

/-- The members that a record is given first. -/
def body? (h : History) (r : RecordId) : Option (List Base × List Field) :=
  (h.filterMap given?).lookup r

/-- The reply to a definition that comes next: it is taken exactly for a record that is declared and
not yet defined. -/
def definitionReply (h : History) (r : RecordId) : Reply :=
  match h.headers[r.index]?, h.body? r with
  | none, _ => .refused (undeclared r)
  | some _, none => .defined
  | some (_, name), some _ => .refused (.redefinedRecord (labelOf name))

theorem headers_append (h h' : History) : headers (h ++ h') = h.headers ++ h'.headers :=
  List.filterMap_append

/-- A call that gives no members changes nothing about them. -/
theorem body?_append_of_given?_eq_none (h : History) {x : Call × Reply} (hx : given? x = none)
    (r : RecordId) : body? (h ++ [x]) r = h.body? r := by
  rw [body?, List.filterMap_append, List.filterMap_cons_none hx, List.filterMap_nil,
    List.append_nil, body?]

/-- A record keeps the members that it was given first. -/
theorem body?_append_of_given?_eq_some (h : History) {x : Call × Reply} {r : RecordId}
    {body : List Base × List Field} (hx : given? x = some (r, body)) (r' : RecordId) :
    body? (h ++ [x]) r' = (h.body? r').or (if r' = r then some body else none) := by
  have hlast : [(r, body)].lookup r' = if r' = r then some body else none := by
    rw [List.lookup_cons, List.lookup_nil]
    by_cases hr : r' = r
    · rw [hr, beq_self_eq_true, if_pos rfl]
    · rw [beq_false_of_ne hr, if_neg hr]
  rw [body?, List.filterMap_append, List.lookup_append, List.filterMap_cons_some hx,
    List.filterMap_nil, hlast, body?]

/-- The declared records have the kinds, the names and the members that the history tells. -/
structure Tells (h : History) (d : Declarations) : Prop where
  headers_eq : h.headers = d.records.values.toList.map fun x => (x.kind, x.name)
  body?_eq : ∀ r, h.body? r = (d.records.get? r).bind (·.body)

variable {h : History} {d d' : Declarations} {c : Call} {reply : Reply}

theorem Tells.length_headers (hd : h.Tells d) : h.headers.length = d.records.size := by
  rw [hd.headers_eq, List.length_map, Array.length_toList, Arena.size]

/-- The header of a record in the history is that of its declaration. -/
theorem Tells.header_eq (hd : h.Tells d) (r : RecordId) :
    h.headers[r.index]? = (d.records.get? r).map fun x => (x.kind, x.name) := by
  rw [hd.headers_eq, List.getElem?_map, Array.getElem?_toList]
  rfl

/-- A refused definition tells nothing. -/
theorem Tells.refused (hd : h.Tells d) {r : RecordId} {bases : List Base} {fields : List Field}
    {e : SchemaError} : Tells (h ++ [(.define r bases fields, .refused e)]) d := by
  constructor
  · have hlast : headers [(.define r bases fields, .refused e)] = [] := rfl
    rw [headers_append, hlast, List.append_nil, hd.headers_eq]
  · intro j
    rw [body?_append_of_given?_eq_none h rfl, hd.body?_eq]

/-- At the start nothing is told. -/
theorem tells_start (profile : Profile) : Tells [] (start profile) :=
  ⟨rfl, fun _ => rfl⟩

/-- Storing a declaration tells its header, and its members if it has any. -/
theorem Tells.push (hd : h.Tells d) {declaration : Declaration} {r : RecordId}
    {records : Arena RecordId Declaration} (hpush : d.records.push declaration = .ok (r, records))
    (hheader : c.header? = some (declaration.kind, declaration.name))
    (hgiven : given? (c, .declared r) = declaration.body.map (r, ·)) :
    Tells (h ++ [(c, .declared r)]) { d with records } := by
  obtain ⟨hindex, hvalues⟩ := Arena.push_eq_ok_iff.mp hpush
  constructor
  · have hlast : headers [(c, .declared r)] = [(declaration.kind, declaration.name)] := by
      simp [headers, hheader]
    rw [headers_append, hlast, hd.headers_eq, hvalues]
    simp
  · intro j
    have hnone (hj : index j = index r) : d.records.get? j = none := by
      rw [Arena.get?_eq_none_iff, Bool.eq_false_iff, ne_eq, Arena.contains_iff, hj, hindex]
      exact Nat.lt_irrefl _
    rw [Arena.get?_push hpush]
    cases hbody : declaration.body with
    | none =>
      rw [hbody] at hgiven
      rw [body?_append_of_given?_eq_none h hgiven, hd.body?_eq]
      by_cases hj : index j = index r
      · rw [if_pos hj, hnone hj]
        exact hbody.symm
      · rw [if_neg hj]
    | some body =>
      rw [hbody] at hgiven
      rw [body?_append_of_given?_eq_some h hgiven, hd.body?_eq]
      by_cases hj : index j = index r
      · rw [if_pos hj, hnone hj, if_pos (index_inj.mp hj)]
        exact hbody.symm
      · rw [if_neg hj, if_neg (mt (congrArg index) hj), Option.or_none]

/-- A definition that is taken tells the members of its record. -/
theorem Tells.define (hd : h.Tells d) {r : RecordId} {bases : List Base} {fields : List Field}
    {declaration : Declaration} (hget : d.records.get? r = some declaration)
    (hbody : declaration.body = none) :
    Tells (h ++ [(.define r bases fields, .defined)]) (d.withBody r (bases, fields)) := by
  constructor
  · have hlast : headers [(.define r bases fields, .defined)] = [] := rfl
    rw [headers_append, hlast, List.append_nil, hd.headers_eq]
    refine List.ext_getElem? fun i => ?_
    rw [List.getElem?_map, List.getElem?_map, Array.getElem?_toList, Array.getElem?_toList,
      withBody, Arena.modify, Array.getElem?_modify]
    split
    · rw [Option.map_map]
      rfl
    · rfl
  · intro j
    rw [body?_append_of_given?_eq_some h rfl, hd.body?_eq, withBody, Arena.get?_modify]
    by_cases hj : j = r
    · rw [hj, if_pos rfl, if_pos rfl, hget, Option.bind_some, hbody]
      rfl
    · rw [if_neg hj, Option.or_none, if_neg fun h => hj (index_inj.mp h).symm]

/-- **A call is told by its reply.** -/
theorem Tells.call (hd : h.Tells d) (hcall : d.call c = .ok (reply, d')) :
    Tells (h ++ [(c, reply)]) d' := by
  obtain ⟨declaration, r, records, hpush, hheader, hgiven, rfl, rfl⟩ |
    ⟨r, bases, fields, declaration, rfl, hget, hbody, rfl, rfl⟩ |
    ⟨r, bases, fields, e, rfl, rfl, rfl⟩ := call_cases hcall
  · exact hd.push hpush hheader hgiven
  · exact hd.define hget hbody
  · exact hd.refused

/-- **Declarations are as their history tells.** -/
theorem Tells.callAll (hd : h.Tells d) {cs : List Call} {h' : History}
    (hcall : d.callAll cs = .ok (h', d')) : Tells (h ++ h') d' := by
  induction cs generalizing h h' d with
  | nil =>
    cases hcall
    rwa [List.append_nil]
  | cons c cs ih =>
    obtain ⟨reply, d₁, h₁, hfirst, hrest, rfl⟩ := callAll_cons_eq_ok_iff.mp hcall
    rw [List.append_cons]
    exact ih (hd.call hfirst) hrest

/-- A definition is taken exactly for a record that is declared and not yet defined, and otherwise
leaves the declarations as they were. -/
theorem Tells.definition (hd : h.Tells d) {r : RecordId} {bases : List Base} {fields : List Field}
    (hcall : d.call (.define r bases fields) = .ok (reply, d')) :
    reply = h.definitionReply r ∧ (reply ≠ .defined → d' = d) := by
  have hheader := hd.header_eq r
  have hbody := hd.body?_eq r
  rw [Declarations.call] at hcall
  rw [definitionReply]
  cases hget : d.records.get? r with
  | none =>
    rw [define_of_undeclared hget] at hcall
    rw [hheader, hget]
    cases hcall
    exact ⟨rfl, fun _ => rfl⟩
  | some declaration =>
    rw [hget, Option.bind_some] at hbody
    rw [hheader, hget, hbody]
    cases hdefined : declaration.body with
    | none =>
      rw [define_of_undefined hget hdefined] at hcall
      cases hcall
      exact ⟨rfl, fun hne => absurd rfl hne⟩
    | some body =>
      rw [define_of_defined hget hdefined] at hcall
      cases hcall
      exact ⟨rfl, fun _ => rfl⟩

/-! ### Runs -/

/-- A call succeeds, if there is an id for the record that it declares. -/
theorem Tells.exists_call (hd : h.Tells d)
    (hle : c.header?.isSome = true → h.headers.length < 2 ^ 32) :
    ∃ reply d', d.call c = .ok (reply, d') := by
  rw [hd.length_headers] at hle
  have hpush (declaration : Declaration) (hheader : c.header?.isSome = true) :
      ∃ r records, d.records.push declaration = .ok (r, records) :=
    Arena.exists_push_eq_ok declaration (Nat.le_sub_one_of_lt (hle hheader))
  cases c with
  | declare kind name =>
    obtain ⟨r, records, hpush⟩ := hpush ⟨name, kind, none⟩ rfl
    exact ⟨_, _, by rw [Declarations.call, declare, hpush]; rfl⟩
  | define r bases fields =>
    rw [Declarations.call]
    cases d.define r bases fields with
    | ok d' => exact ⟨_, _, rfl⟩
    | error e => exact ⟨_, _, rfl⟩
  | record kind name bases fields =>
    obtain ⟨r, records, hpush⟩ := hpush ⟨name, kind, some (bases, fields)⟩ rfl
    exact ⟨_, _, by rw [Declarations.call, addRecord, hpush]; rfl⟩

/-- **Calls succeed as long as there are ids** for the records that they declare. -/
theorem Tells.exists_callAll (hd : h.Tells d) {cs : List Call}
    (hle : h.headers.length + cs.countP (·.header?.isSome) ≤ 2 ^ 32) :
    ∃ h' d', d.callAll cs = .ok (h', d') := by
  induction cs generalizing h d with
  | nil => exact ⟨_, _, rfl⟩
  | cons c cs ih =>
    rw [List.countP_cons] at hle
    obtain ⟨reply, d₁, hfirst⟩ := hd.exists_call fun hheader => by
      rw [if_pos hheader] at hle
      omega
    have hlength : (headers [(c, reply)]).length = if c.header?.isSome then 1 else 0 := by
      cases hheader : c.header? <;> simp [headers, hheader]
    obtain ⟨h', d', hrest⟩ := ih (hd.call hfirst) (by
      rw [headers_append, List.length_append, hlength]
      omega)
    exact ⟨_, d', callAll_cons_eq_ok_iff.mpr ⟨reply, d₁, h', hfirst, hrest, rfl⟩⟩

end History

variable {d d' : Declarations}

/-- A history has the calls that it is the history of. -/
theorem map_fst_of_callAll {cs : List Call} {h : History} (hcall : d.callAll cs = .ok (h, d')) :
    h.map Prod.fst = cs := by
  induction cs generalizing d h with
  | nil =>
    cases hcall
    rfl
  | cons c cs ih =>
    obtain ⟨reply, d₁, h₁, -, hrest, rfl⟩ := callAll_cons_eq_ok_iff.mp hcall
    rw [List.map_cons, ih hrest]

/-- Calls keep the profile. -/
theorem profile_of_callAll {cs : List Call} {h : History} (hcall : d.callAll cs = .ok (h, d')) :
    d'.profile = d.profile := by
  induction cs generalizing d h with
  | nil =>
    cases hcall
    rfl
  | cons c cs ih =>
    obtain ⟨reply, d₁, h₁, hfirst, hrest, rfl⟩ := callAll_cons_eq_ok_iff.mp hcall
    rw [ih hrest]
    obtain ⟨_, _, _, -, -, -, -, rfl⟩ | ⟨_, _, _, _, -, -, -, -, rfl⟩ | ⟨_, _, _, _, -, -, rfl⟩ :=
      call_cases hfirst <;> rfl

/-- A history that is cut at a call comes from the calls in front of it, the call and the calls
behind it. -/
theorem callAll_append_cons {cs : List Call} {h₁ h₂ : History} {c : Call} {reply : Reply}
    (hcall : d.callAll cs = .ok (h₁ ++ (c, reply) :: h₂, d')) :
    ∃ d₁ d₂, d.callAll (h₁.map Prod.fst) = .ok (h₁, d₁) ∧ d₁.call c = .ok (reply, d₂) ∧
      d₂.callAll (h₂.map Prod.fst) = .ok (h₂, d') := by
  induction h₁ generalizing d cs with
  | nil =>
    cases cs with
    | nil => cases hcall
    | cons c' cs =>
      obtain ⟨reply', d₁, h', hfirst, hrest, heq⟩ := callAll_cons_eq_ok_iff.mp hcall
      cases heq
      rw [map_fst_of_callAll hrest]
      exact ⟨d, d₁, rfl, hfirst, hrest⟩
  | cons x h₁ ih =>
    cases cs with
    | nil => cases hcall
    | cons c' cs =>
      obtain ⟨reply', d₁, h', hfirst, hrest, heq⟩ := callAll_cons_eq_ok_iff.mp hcall
      cases heq
      obtain ⟨d₃, d₄, hfront, hmiddle, hback⟩ := ih hrest
      have hwhole := callAll_cons_eq_ok_iff.mpr ⟨reply', d₁, h₁, hfirst, hfront, rfl⟩
      exact ⟨d₃, d₄, hwhole, hmiddle, hback⟩

/-- Calls that follow others continue their history. -/
theorem callAll_append {cs cs' : List Call} {h h' : History} {d₁ : Declarations}
    (hfront : d.callAll cs = .ok (h, d₁)) (hback : d₁.callAll cs' = .ok (h', d')) :
    d.callAll (cs ++ cs') = .ok (h ++ h', d') := by
  induction cs generalizing d h with
  | nil =>
    cases hfront
    exact hback
  | cons c cs ih =>
    obtain ⟨reply, d₂, h₁, hfirst, hrest, rfl⟩ := callAll_cons_eq_ok_iff.mp hfront
    exact callAll_cons_eq_ok_iff.mpr ⟨reply, d₂, h₁ ++ h', hfirst, ih hrest, rfl⟩

/-- A call that declares a record answers with the next id. -/
theorem declared_of_callAll {profile : Profile} {cs : List Call} {h₁ h₂ : History} {c : Call}
    {reply : Reply} (hcall : (start profile).callAll cs = .ok (h₁ ++ (c, reply) :: h₂, d))
    (hheader : c.header?.isSome = true) :
    ∃ r, reply = .declared r ∧ r.index = h₁.headers.length := by
  obtain ⟨d₁, d₂, hfront, hfirst, -⟩ := callAll_append_cons hcall
  have hd₁ := (History.tells_start profile).callAll hfront
  rw [List.nil_append] at hd₁
  obtain ⟨_, r, _, hpush, -, -, rfl, -⟩ | ⟨_, _, _, _, rfl, -⟩ | ⟨_, _, _, _, rfl, -⟩ :=
    call_cases hfirst
  · exact ⟨r, rfl, (Arena.push_eq_ok_iff.mp hpush).1.trans hd₁.length_headers.symm⟩
  · cases hheader
  · cases hheader

/-- **When a definition is taken.** Behind the calls in front of it, the reply is the one that their
history gives; and if it is refused, leaving it out changes neither the other replies nor the
declarations. -/
theorem definition_of_callAll {profile : Profile} {cs : List Call} {h₁ h₂ : History} {r : RecordId}
    {bases : List Base} {fields : List Field} {reply : Reply}
    (hcall : (start profile).callAll cs =
      .ok (h₁ ++ (.define r bases fields, reply) :: h₂, d)) :
    reply = h₁.definitionReply r ∧
    (reply ≠ .defined → (start profile).callAll ((h₁ ++ h₂).map Prod.fst) =
      .ok (h₁ ++ h₂, d)) := by
  obtain ⟨d₁, d₂, hfront, hdefine, hback⟩ := callAll_append_cons hcall
  obtain ⟨hreply, hsame⟩ := ((History.tells_start profile).callAll hfront).definition hdefine
  refine ⟨hreply, fun hne => ?_⟩
  rw [hsame hne] at hback
  rw [List.map_append]
  exact callAll_append hfront hback

end AbiLayout.Declarations
