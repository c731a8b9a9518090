import AbiLayout.Proofs.Cycles
import AbiLayout.Proofs.Histories

/-!
# Which declarations make a schema

Closing a set of declarations accepts exactly the well-formed ones and keeps them as they are. What
is well formed is said of the history of the declarations, without the table that they are collected
in: every declared record is given members, unions have no bases, bases are declared structs, fields
mention declared records only, anonymous fields are unnamed records, and no record contains itself.

## Main definitions

* `Declarations.History.Describes`, `Declarations.History.Contains`: the records of a history.
* `Declarations.History.WellFormed`.

## Main results

* `Declarations.History.Tells.exists_close_iff`: the histories whose declarations can be closed.
* `Declarations.History.Tells.get?_close`: the records of the schema are those described.
* `Declarations.callAll_close`: both, for every sequence of calls.
-/

namespace AbiLayout

open Relation

/-- What a value of a type holds is mentioned by the type. -/
theorem Ty.Holds.mentions {ty : Ty} {r : RecordId} (h : ty.Holds r) : ty.Mentions r := by
  induction h with
  | record r => exact .record r
  | element count _ ih => exact .element count ih

namespace Declarations

namespace History

/-! ### Well-formed histories -/

/-- A call of the history declares the record. -/
def Declares (h : History) (r : RecordId) : Prop := r.index < h.headers.length

/-- The record is declared with the kind and the name, and first given the bases and fields. -/
def Describes (h : History) (r : RecordId) (record : Record) : Prop :=
  h.headers[r.index]? = some (record.kind, record.name) ∧
    h.body? r = some (record.bases, record.fields)

/-- A described record contains another one by value: as a base, or in a field. -/
def Contains (h : History) (r r' : RecordId) : Prop :=
  ∃ record, h.Describes r record ∧
    ((∃ base ∈ record.bases, base.record = r') ∨ ∃ field ∈ record.fields, field.ty.Holds r')

/-- The rules for declarations. -/
structure WellFormed (h : History) : Prop where
  /-- Every declared record is defined. -/
  defined : ∀ r, h.Declares r → ∃ record, h.Describes r record
  unionBases : ∀ r record, h.Describes r record → record.kind = .union → record.bases = []
  /-- Every base is a declared struct. -/
  base : ∀ r record, h.Describes r record → ∀ base ∈ record.bases,
    ∃ name, h.headers[base.record.index]? = some (.struct, name)
  mentions : ∀ r record, h.Describes r record → ∀ field ∈ record.fields,
    ∀ r', field.ty.Mentions r' → h.Declares r'
  /-- An anonymous field is unnamed, and a record. -/
  anonymous : ∀ r record, h.Describes r record → ∀ field ∈ record.fields,
    field.isAnonymous = true → field.name = none ∧ ∃ r', field.ty = .record r'
  acyclic : ∀ r, ¬TransGen h.Contains r r

/-! ### The table of a history -/

variable {h : History} {d : Declarations} {records : Arena RecordId Record}

/-- The records of a table are those that a history describes, and all that it declares. -/
structure Fills (h : History) (records : Arena RecordId Record) : Prop where
  get?_iff : ∀ r record, records.get? r = some record ↔ h.Describes r record
  contains_iff : ∀ r, records.contains r = true ↔ h.Declares r

theorem Tells.declares_iff (hd : h.Tells d) {r : RecordId} :
    h.Declares r ↔ ∃ declaration, d.records.get? r = some declaration := by
  rw [Declares, hd.length_headers, ← Arena.contains_iff_get?]
  exact (Arena.contains_iff (a := d.records)).symm

/-- A described record is one that is declared and defined. -/
theorem Tells.describes_iff (hd : h.Tells d) {r : RecordId} {record : Record} :
    h.Describes r record ↔
      ∃ declaration, d.records.get? r = some declaration ∧ declaration.record = .ok record := by
  rw [Describes, hd.header_eq, hd.body?_eq]
  cases hget : d.records.get? r with
  | none => simp
  | some declaration =>
    obtain ⟨name, kind, body⟩ := declaration
    obtain ⟨name', kind', bases, fields⟩ := record
    cases body with
    | none => simp [Declaration.record]
    | some body => simp [Declaration.record, Prod.ext_iff]; tauto

/-- The records of defined declarations fill a table. -/
theorem Tells.fills (hd : h.Tells d)
    (hrecords : d.records.mapM (fun _ declaration => declaration.record) = .ok records) :
    h.Fills records := by
  obtain ⟨hsize, hmap⟩ := Arena.mapM_eq_ok hrecords
  have hcontains (r : RecordId) : records.contains r = true ↔ h.Declares r := by
    rw [Arena.contains_iff, hsize, Declares, hd.length_headers]
    rfl
  refine ⟨fun r record => ?_, hcontains⟩
  rw [hd.describes_iff]
  constructor
  · intro hget
    obtain ⟨declaration, hdeclaration⟩ := hd.declares_iff.mp
      ((hcontains r).mp (Arena.contains_iff_get?.mpr ⟨record, hget⟩))
    obtain ⟨record', hrecord, hget'⟩ := hmap r declaration hdeclaration
    rw [hget] at hget'
    cases hget'
    exact ⟨declaration, hdeclaration, hrecord⟩
  · rintro ⟨declaration, hdeclaration, hrecord⟩
    obtain ⟨record', hrecord', hget⟩ := hmap r declaration hdeclaration
    rw [hrecord] at hrecord'
    cases hrecord'
    exact hget

/-- The containment of a history is that of its table. -/
theorem Fills.contains_eq (hf : h.Fills records) : AbiLayout.Contains records = h.Contains := by
  ext r r'
  constructor
  · rintro (⟨hget, hbase⟩ | ⟨hget, hfield, hholds⟩)
    · exact ⟨_, (hf.get?_iff r _).mp hget, .inl ⟨_, hbase, rfl⟩⟩
    · exact ⟨_, (hf.get?_iff r _).mp hget, .inr ⟨_, hfield, hholds⟩⟩
  · rintro ⟨record, hdescribes, ⟨base, hbase, rfl⟩ | ⟨field, hfield, hholds⟩⟩
    · exact .base ((hf.get?_iff r record).mpr hdescribes) hbase
    · exact .field ((hf.get?_iff r record).mpr hdescribes) hfield hholds

/-- Every record that a table's history declares is defined. -/
theorem Fills.defined (hf : h.Fills records) (r : RecordId) (hr : h.Declares r) :
    ∃ record, h.Describes r record := by
  obtain ⟨record, hget⟩ := Arena.contains_iff_get?.mp ((hf.contains_iff r).mpr hr)
  exact ⟨record, (hf.get?_iff r record).mp hget⟩

/-- A record is a struct of the table exactly where it is declared as a struct. -/
theorem Fills.exists_struct_iff (hf : h.Fills records) {r : RecordId} :
    (∃ record, records.get? r = some record ∧ record.kind = .struct) ↔
      ∃ name, h.headers[r.index]? = some (.struct, name) := by
  constructor
  · rintro ⟨record, hget, hkind⟩
    have hheader := ((hf.get?_iff r record).mp hget).1
    rw [hkind] at hheader
    exact ⟨record.name, hheader⟩
  · rintro ⟨name, hheader⟩
    obtain ⟨record, hdescribes⟩ := hf.defined r (List.getElem?_eq_some_iff.mp hheader).1
    have heq := hheader.symm.trans hdescribes.1
    exact ⟨record, (hf.get?_iff r record).mpr hdescribes,
      (congrArg Prod.fst (Option.some.inj heq)).symm⟩

/-- A table keeps the rules exactly where its history does. -/
theorem Fills.wellFormed_iff (hf : h.Fills records) : h.WellFormed ↔
    (∀ r record, records.get? r = some record → record.InOrder records) ∧
      ∀ r, ¬TransGen (AbiLayout.Contains records) r r := by
  rw [hf.contains_eq]
  constructor
  · intro hwell
    refine ⟨fun r record hget => ?_, hwell.acyclic⟩
    have hdescribes := (hf.get?_iff r record).mp hget
    exact ⟨hwell.unionBases r record hdescribes,
      fun base hbase => hf.exists_struct_iff.mpr (hwell.base r record hdescribes base hbase),
      fun field hfield r' hr' =>
        (hf.contains_iff r').mpr (hwell.mentions r record hdescribes field hfield r' hr'),
      hwell.anonymous r record hdescribes⟩
  · rintro ⟨horder, hacyclic⟩
    have hinOrder (r : RecordId) (record : Record) (hdescribes : h.Describes r record) :
        record.InOrder records :=
      horder r record ((hf.get?_iff r record).mpr hdescribes)
    exact ⟨hf.defined, fun r record hr => (hinOrder r record hr).unionBases,
      fun r record hr base hbase =>
        hf.exists_struct_iff.mp ((hinOrder r record hr).base base hbase),
      fun r record hr field hfield r' hr' =>
        (hf.contains_iff r').mp ((hinOrder r record hr).mentions field hfield r' hr'),
      fun r record hr => (hinOrder r record hr).anonymous, hacyclic⟩

/-! ### Closing -/

/-- What a record contains is in the table, if its records are in order. -/
theorem contains_of_inOrder
    (horder : ∀ r record, records.get? r = some record → record.InOrder records) {r r' : RecordId}
    (hcontains : AbiLayout.Contains records r r') : records.contains r' = true := by
  obtain ⟨hget, hbase⟩ | ⟨hget, hfield, hholds⟩ := hcontains
  · obtain ⟨baseRecord, hbaseRecord, -⟩ := (horder r _ hget).base _ hbase
    exact Arena.contains_iff_get?.mpr ⟨baseRecord, hbaseRecord⟩
  · exact (horder r _ hget).mentions _ hfield r' hholds.mentions

/-- **The declarations of a history can be closed exactly if it is well formed.** -/
theorem Tells.exists_close_iff (hd : h.Tells d) : (∃ s, d.close = .ok s) ↔ h.WellFormed := by
  constructor
  · rintro ⟨s, hclose⟩
    obtain ⟨hrecords, horder, hcycle, -⟩ := close_eq_ok_iff.mp hclose
    have hacyclic := (firstCycle?_eq_none_iff fun _ _ => contains_of_inOrder horder).mp hcycle
    exact (hd.fills hrecords).wellFormed_iff.mpr ⟨horder, hacyclic⟩
  · intro hwell
    have hdefined (r : RecordId) (declaration : Declaration)
        (hget : d.records.get? r = some declaration) :
        ∃ record, declaration.record = .ok record := by
      obtain ⟨record, hdescribes⟩ := hwell.defined r (hd.declares_iff.mpr ⟨declaration, hget⟩)
      obtain ⟨declaration', hget', hrecord⟩ := hd.describes_iff.mp hdescribes
      rw [hget] at hget'
      cases hget'
      exact ⟨record, hrecord⟩
    obtain ⟨records, hrecords⟩ := Arena.exists_mapM_eq_ok hdefined
    obtain ⟨horder, hacyclic⟩ := (hd.fills hrecords).wellFormed_iff.mp hwell
    have hcycle := (firstCycle?_eq_none_iff fun _ _ => contains_of_inOrder horder).mpr hacyclic
    exact ⟨⟨records, d.profile.pointerSize, d.profile.pointerAlignment⟩,
      close_eq_ok_iff.mpr ⟨hrecords, horder, hcycle, rfl, rfl⟩⟩

/-- The schema has one record for each declared one, in their order, as the history describes
them. -/
theorem Tells.get?_close (hd : h.Tells d) {s : Schema} (hclose : d.close = .ok s) :
    s.records.size = h.headers.length ∧
      ∀ r record, s.records.get? r = some record ↔ h.Describes r record := by
  obtain ⟨hrecords, -⟩ := close_eq_ok_iff.mp hclose
  exact ⟨(Arena.mapM_eq_ok hrecords).1.trans hd.length_headers.symm, (hd.fills hrecords).get?_iff⟩

end History

/-- **Closing accepts exactly the well-formed declarations and keeps them as they are.** Every
sequence of calls that declares fewer than `2 ^ 32` records runs to its end, and the records get
their ids in order. A definition is taken exactly if its record is declared in front of it and not
yet defined there; otherwise it is refused, and without it the other calls would be answered alike
and lead to the same declarations. These can be closed exactly if their history is well formed, and
then the schema has one record for each declared one, in their order, of the kind and name that it
is declared with and with the members that it is given first, and the pointers of the profile. -/
theorem callAll_close (profile : Profile) (calls : List Call)
    (hids : calls.countP (·.header?.isSome) < 2 ^ 32) :
    ∃ (h : History) (d : Declarations),
      (start profile).callAll calls = .ok (h, d) ∧ h.map Prod.fst = calls ∧
      (∀ (h₁ h₂ : History) c reply, h = h₁ ++ (c, reply) :: h₂ → c.header?.isSome = true →
        ∃ r, reply = .declared r ∧ r.index = h₁.headers.length) ∧
      (∀ (h₁ h₂ : History) r bases fields reply, h = h₁ ++ (.define r bases fields, reply) :: h₂ →
        reply = h₁.definitionReply r ∧ (reply ≠ .defined →
          (start profile).callAll ((h₁ ++ h₂).map Prod.fst) = .ok (h₁ ++ h₂, d))) ∧
      ((∃ s, d.close = .ok s) ↔ h.WellFormed) ∧
      ∀ s, d.close = .ok s → s.records.size = h.headers.length ∧
        (∀ r record, s.records.get? r = some record ↔ h.Describes r record) ∧
        s.pointerSize = profile.pointerSize ∧ s.pointerAlignment = profile.pointerAlignment := by
  have hstart := History.tells_start profile
  have hfree : (History.headers []).length + calls.countP (·.header?.isSome) ≤ 2 ^ 32 := by
    rw [History.headers, List.filterMap_nil, List.length_nil, Nat.zero_add]
    exact hids.le
  obtain ⟨h, d, hcall⟩ := hstart.exists_callAll hfree
  have hd : h.Tells d := hstart.callAll hcall
  refine ⟨h, d, hcall, map_fst_of_callAll hcall, ?_, ?_, hd.exists_close_iff, fun s hclose => ?_⟩
  · rintro h₁ h₂ c reply rfl hheader
    exact declared_of_callAll hcall hheader
  · rintro h₁ h₂ r bases fields reply rfl
    exact definition_of_callAll hcall
  · obtain ⟨hsize, hget⟩ := hd.get?_close hclose
    obtain ⟨-, -, -, hpointerSize, hpointerAlignment⟩ := close_eq_ok_iff.mp hclose
    rw [profile_of_callAll hcall] at hpointerSize hpointerAlignment
    exact ⟨hsize, hget, hpointerSize, hpointerAlignment⟩

/-- Two structs that refer to each other, one of them declared first and defined later, with two
definitions that are refused. -/
def linked : List Call :=
  [.declare .struct (some "node"),
   .define (.of 7) [] [],
   .record .struct (some "list") [⟨.of 0, false⟩]
     [⟨some "tail", .pointerTo (.record (.of 0)), false⟩],
   .define (.of 0) [] [⟨some "owner", .array (.pointerTo (.record (.of 1))) none, false⟩],
   .define (.of 0) [] []]

theorem callAll_close_linked : linked.countP (·.header?.isSome) < 2 ^ 32 ∧
    ∃ (h : History) (d : Declarations) (s : Schema),
      (start .lp64).callAll linked = .ok (h, d) ∧
      h.map Prod.snd = [.declared (.of 0), .refused (undeclared (.of 7)), .declared (.of 1),
        .defined, .refused (.redefinedRecord "node")] ∧
      h.WellFormed ∧ d.close = .ok s ∧ s.records.size = h.headers.length ∧
      ∀ r record, s.records.get? r = some record ↔ h.Describes r record := by
  have hids : linked.countP (·.header?.isSome) < 2 ^ 32 := by decide
  obtain ⟨h, d, hcall, -, -, -, hclose, hschema⟩ := callAll_close .lp64 linked hids
  have hreplies : ((start .lp64).callAll linked).map (·.1.map Prod.snd) =
      .ok [.declared (.of 0), .refused (undeclared (.of 7)), .declared (.of 1),
        .defined, .refused (.redefinedRecord "node")] := rfl
  have hcloses : ((start .lp64).callAll linked).map (·.2.close.isOk) = .ok true := rfl
  rw [hcall] at hreplies hcloses
  cases hs : d.close with
  | error e => simp [Except.map, hs, Except.isOk, Except.toBool] at hcloses
  | ok s =>
    obtain ⟨hsize, hget, -⟩ := hschema s hs
    exact ⟨hids, h, d, s, hcall, Except.ok.inj hreplies, hclose.mp ⟨s, hs⟩, hs, hsize, hget⟩

end Declarations

end AbiLayout
