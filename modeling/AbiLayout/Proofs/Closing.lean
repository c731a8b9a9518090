import AbiLayout.Proofs.Arenas
import AbiLayout.Proofs.Outcome
import AbiLayout.Schema.Declarations

/-!
# Closed schemas

What the checks of a set of declarations establish: every reference leads to a record of the schema,
a union has no bases, and the records can be listed so that each contains only records behind it.
The depth-first search yields this list: it finishes a record only behind all that it contains, and
never runs out of depth, because its path does not repeat a record.

## Main definitions

* `Layered`: a list of records that contain only what is behind them.
* `Ty.Mentions`, `Schema.Declares`: the records that a type mentions, also behind pointers, and that
  all of them are in the schema.
* `Record.InOrder`: what a record must satisfy besides containing no cycle.
* `Schema.Closed`.

## Main results

* `firstCycle?_layered`: where the search finds no cycle, the table has a layered list.
* `Declarations.close_eq_ok_iff`: the declarations that are accepted, and their schema.
* `Declarations.close_closed`: the schema of a set of declarations is closed.
-/

namespace AbiLayout

/-! ### The search for cycles -/

section Search

variable {records : Arena RecordId Record}

/-- Every record of the list is in the table, and contains only records behind it. -/
def Layered (records : Arena RecordId Record) : List RecordId → Prop
  | [] => True
  | r :: rs => records.contains r = true ∧ (∀ r' ∈ containedIn records r, r' ∈ rs) ∧
      Layered records rs

theorem Layered.contains {rs : List RecordId} (h : Layered records rs) :
    ∀ r ∈ rs, records.contains r = true := by
  induction rs with
  | nil => exact fun _ hr => nomatch hr
  | cons r rs ih =>
    obtain ⟨hcontains, -, htail⟩ := h
    exact List.forall_mem_cons.mpr ⟨hcontains, ih htail⟩

/-- A record that is listed twice is listed early enough by its later occurrence. -/
theorem Layered.exists_nodup {rs : List RecordId} (h : Layered records rs) :
    ∃ order, Layered records order ∧ order.Nodup ∧ ∀ r, r ∈ rs ↔ r ∈ order := by
  induction rs with
  | nil => exact ⟨[], h, List.nodup_nil, fun _ => Iff.rfl⟩
  | cons r rs ih =>
    obtain ⟨hcontains, hbehind, htail⟩ := h
    obtain ⟨order, horder, hnodup, hmem⟩ := ih htail
    by_cases hr : r ∈ order
    · refine ⟨order, horder, hnodup, fun r' => ?_⟩
      rw [List.mem_cons, hmem]
      exact or_iff_right_of_imp fun heq => heq ▸ hr
    · refine ⟨r :: order, ⟨hcontains, ?_, horder⟩, List.nodup_cons.mpr ⟨hr, hnodup⟩, fun r' => ?_⟩
      · exact fun r' hr' => (hmem r').mp (hbehind r' hr')
      · rw [List.mem_cons, List.mem_cons, hmem]

/-- Searching a list of records finishes all of them, if searching each one does. -/
theorem foldlM_layered {search : List RecordId → RecordId → Except (List RecordId) (List RecordId)}
    {rs finished result : List RecordId}
    (hsearch : ∀ r ∈ rs, ∀ finished result, Layered records finished →
      search finished r = .ok result → Layered records result ∧ finished ⊆ result ∧ r ∈ result)
    (hfinished : Layered records finished) (h : rs.foldlM search finished = .ok result) :
    Layered records result ∧ finished ⊆ result ∧ ∀ r ∈ rs, r ∈ result := by
  induction rs generalizing finished with
  | nil =>
    cases h
    exact ⟨hfinished, List.Subset.refl _, fun _ hr => nomatch hr⟩
  | cons r rs ih =>
    obtain ⟨next, hnext, h⟩ := except_bind_eq_ok_iff.mp h
    obtain ⟨hlayered, hsub, hmem⟩ := hsearch r List.mem_cons_self _ _ hfinished hnext
    obtain ⟨hlayered', hsub', hmem'⟩ :=
      ih (fun r' hr' => hsearch r' (List.mem_cons_of_mem r hr')) hlayered h
    refine ⟨hlayered', List.Subset.trans hsub hsub', ?_⟩
    intro r' hr'
    rcases List.mem_cons.mp hr' with rfl | hr'
    · exact hsub' hmem
    · exact hmem' r' hr'

/-- A search that meets no cycle finishes its record behind all that the record contains. The path
never repeats a record, so that the depth does not run out. -/
theorem searchCycle_layered
    (hown : ∀ r r', r' ∈ containedIn records r → records.contains r' = true) {depth : Nat}
    {path finished result : List RecordId} {r : RecordId} (hr : records.contains r = true)
    (hnodup : path.Nodup) (hpath : ∀ k ∈ path, records.contains k = true)
    (hdepth : depth + path.length = records.size + 1) (hfinished : Layered records finished)
    (h : searchCycle records depth path finished r = .ok result) :
    Layered records result ∧ finished ⊆ result ∧ r ∈ result := by
  induction depth generalizing path finished result r with
  | zero =>
    have hle := Arena.length_le_size hnodup hpath
    omega
  | succ depth ih =>
    rw [searchCycle] at h
    by_cases hdone : r ∈ finished
    · rw [if_pos hdone] at h
      cases h
      exact ⟨hfinished, List.Subset.refl _, hdone⟩
    rw [if_neg hdone] at h
    by_cases hcycle : r ∈ path
    · rw [if_pos hcycle] at h
      cases h
    rw [if_neg hcycle] at h
    obtain ⟨finished', hsearch, h⟩ := except_bind_eq_ok_iff.mp h
    cases h
    have hnodup' : (path ++ [r]).Nodup :=
      List.nodup_append.mpr ⟨hnodup, List.pairwise_singleton _ r, by
        intro a ha b hb heq
        rw [List.mem_singleton.mp hb] at heq
        exact hcycle (heq ▸ ha)⟩
    have hpath' (k : RecordId) (hk : k ∈ path ++ [r]) : records.contains k = true := by
      rcases List.mem_append.mp hk with hk | hk
      · exact hpath k hk
      · rwa [List.mem_singleton.mp hk]
    have hdepth' : depth + (path ++ [r]).length = records.size + 1 := by
      rw [List.length_append, List.length_singleton]
      omega
    obtain ⟨hlayered, hsub, hmem⟩ := foldlM_layered
      (fun r' hr' _ _ hf hs => ih (hown r r' hr') hnodup' hpath' hdepth' hf hs) hfinished hsearch
    exact ⟨⟨hr, hmem, hlayered⟩, fun k hk => List.mem_cons_of_mem r (hsub hk), List.mem_cons_self⟩

/-- Where the search finds no cycle, the records of the table are layered. -/
theorem firstCycle?_layered
    (hown : ∀ r r', r' ∈ containedIn records r → records.contains r' = true)
    (h : firstCycle? records = none) :
    ∃ order, Layered records order ∧ order.Nodup ∧ ∀ r, records.contains r = true → r ∈ order := by
  unfold firstCycle? at h
  split at h
  · rename_i order horder
    obtain ⟨hlayered, -, hmem⟩ := foldlM_layered
      (fun r hr _ _ hf hs => searchCycle_layered hown (Arena.mem_keys_iff.mp hr) List.nodup_nil
        (fun _ hk => nomatch hk) rfl hf hs) (show Layered records [] from trivial) horder
    obtain ⟨order', hlayered', hnodup, hiff⟩ := hlayered.exists_nodup
    exact ⟨order', hlayered', hnodup, fun r hr =>
      (hiff r).mp (hmem r (Arena.mem_keys_iff.mpr hr))⟩
  · cases h

end Search

/-! ### The checks -/

/-- A type mentions a record: it is that record, or a pointer to a type that mentions it, or an
array of such a type. -/
inductive Ty.Mentions : Ty → RecordId → Prop
  | record (r : RecordId) : Mentions (.record r) r
  | pointee {pointee : Ty} {r : RecordId} (h : Mentions pointee r) : Mentions (.pointerTo pointee) r
  | element {element : Ty} {r : RecordId} (count : Option Nat) (h : Mentions element r) :
      Mentions (.array element count) r

namespace Ty

variable {r : RecordId}

@[simp] theorem mentions_record {r' : RecordId} : (record r').Mentions r ↔ r' = r :=
  ⟨fun | .record _ => rfl, fun h => h ▸ .record r'⟩

@[simp] theorem mentions_pointerTo {pointee : Ty} :
    (pointerTo pointee).Mentions r ↔ pointee.Mentions r :=
  ⟨fun | .pointee h => h, .pointee⟩

@[simp] theorem mentions_array {element : Ty} {count : Option Nat} :
    (array element count).Mentions r ↔ element.Mentions r :=
  ⟨fun | .element _ h => h, .element count⟩

end Ty

/-- What is checked of each record of a table: a union has no bases, every base is a struct of the
table, every record that a field mentions is in the table, and an anonymous field is an unnamed
record. -/
structure Record.InOrder (records : Arena RecordId Record) (record : Record) : Prop where
  unionBases : record.kind = .union → record.bases = []
  base : ∀ base ∈ record.bases, ∃ baseRecord,
    records.get? base.record = some baseRecord ∧ baseRecord.kind = .struct
  mentions : ∀ field ∈ record.fields, ∀ r, field.ty.Mentions r → records.contains r = true
  anonymous : ∀ field ∈ record.fields, field.isAnonymous = true →
    field.name = none ∧ ∃ r, field.ty = .record r

namespace Declarations

variable {records : Arena RecordId Record} {record : Record}

theorem forM_eq_ok_iff {ε α : Type} {f : α → Except ε Unit} {xs : List α} :
    xs.forM f = .ok () ↔ ∀ x ∈ xs, f x = .ok () := by
  induction xs with
  | nil => exact iff_of_true rfl fun _ hx => nomatch hx
  | cons x xs ih =>
    rw [List.forall_mem_cons, ← ih]
    exact except_unit_bind_eq_ok_iff

theorem checkMentions_eq_ok_iff {ty : Ty} :
    checkMentions records ty = .ok () ↔ ∀ r, ty.Mentions r → records.contains r = true := by
  induction ty with
  | primitive | voidPointer | bitfield => exact iff_of_true rfl fun _ h => nomatch h
  | pointerTo pointee ih => simpa only [checkMentions, Ty.mentions_pointerTo] using ih
  | array element count ih => simpa only [checkMentions, Ty.mentions_array] using ih
  | record r => simp [checkMentions]

theorem checkBase_eq_ok_iff {base : Base} : checkBase records record base = .ok () ↔
    ∃ baseRecord, records.get? base.record = some baseRecord ∧ baseRecord.kind = .struct := by
  rw [checkBase]
  cases hget : records.get? base.record with
  | none => simp
  | some baseRecord => cases hkind : baseRecord.kind <;> simp [Record.isUnion, hkind]

/-- A field passes its checks exactly where what it mentions is in the table, and it is an unnamed
record if it is anonymous. -/
theorem checkField_eq_ok_iff {field : Field} {i : Nat} :
    checkField records record i field = .ok () ↔
      (∀ r, field.ty.Mentions r → records.contains r = true) ∧
      (field.isAnonymous = true → field.name = none ∧ ∃ r, field.ty = .record r) := by
  have hrecord : field.ty.asRecord?.isNone = false ↔ ∃ r, field.ty = .record r := by
    cases field.ty <;> simp [Ty.asRecord?]
  have hnamed : field.isNamed = false ↔ field.name = none := by simp [Field.isNamed]
  rw [checkField, except_unit_bind_eq_ok_iff, checkMentions_eq_ok_iff, ← hnamed, ← hrecord]
  cases field.isAnonymous <;> cases field.isNamed <;> cases field.ty.asRecord?.isNone <;> simp

theorem checkFields_eq_ok_iff {fields : List Field} {i : Nat} :
    checkFields records record i fields = .ok () ↔ ∀ field ∈ fields,
      (∀ r, field.ty.Mentions r → records.contains r = true) ∧
      (field.isAnonymous = true → field.name = none ∧ ∃ r, field.ty = .record r) := by
  induction fields generalizing i with
  | nil => exact iff_of_true rfl fun _ hf => nomatch hf
  | cons field fields ih =>
    rw [List.forall_mem_cons, ← checkField_eq_ok_iff, ← ih]
    exact except_unit_bind_eq_ok_iff

/-- A record passes its checks exactly where it is in order. -/
theorem checkRecord_eq_ok_iff : checkRecord records record = .ok () ↔ record.InOrder records := by
  have hunion : (record.isUnion && !record.bases.isEmpty) = true ↔
      ¬(record.kind = .union → record.bases = []) := by
    simp [Record.isUnion]
  rw [checkRecord]
  by_cases hbases : record.kind = .union → record.bases = []
  · rw [if_neg fun h => hunion.mp h hbases]
    change (record.bases.forM (checkBase records record) >>= fun _ =>
      checkFields records record 0 record.fields) = .ok () ↔ _
    simp only [except_unit_bind_eq_ok_iff, forM_eq_ok_iff, checkBase_eq_ok_iff,
      checkFields_eq_ok_iff]
    constructor
    · rintro ⟨hbase, hfields⟩
      exact ⟨hbases, hbase, fun field hfield => (hfields field hfield).1,
        fun field hfield => (hfields field hfield).2⟩
    · intro h
      exact ⟨h.base, fun field hfield => ⟨h.mentions field hfield, h.anonymous field hfield⟩⟩
  · rw [if_pos (hunion.mpr hbases)]
    exact iff_of_false (fun h => nomatch h) fun h => hbases h.unionBases

end Declarations

/-! ### Closed schemas -/

/-- All records that the type mentions, also behind pointers, are in the schema. -/
def Schema.Declares (s : Schema) : Ty → Prop
  | .primitive _ | .bitfield _ | .voidPointer => True
  | .pointerTo pointee => s.Declares pointee
  | .array element _ => s.Declares element
  | .record r => s.records.contains r = true

/-- Every reference leads to a record of the schema, a union has no bases, and no record contains
itself: the records can be listed so that each contains only records behind it. -/
structure Schema.Closed (s : Schema) : Prop where
  base : ∀ r record, s.records.get? r = some record → ∀ base ∈ record.bases,
    s.records.contains base.record = true
  field : ∀ r record, s.records.get? r = some record → ∀ field ∈ record.fields,
    s.Declares field.ty
  unionBases : ∀ r record, s.records.get? r = some record → record.kind = .union →
    record.bases = []
  layered : ∃ order, Layered s.records order ∧ order.Nodup ∧
    ∀ r, s.records.contains r = true → r ∈ order

/-- A record that a type contains is one that it mentions. -/
theorem Schema.Declares.contains {s : Schema} {ty : Ty} (h : s.Declares ty) {r : RecordId}
    (hr : ty.containedRecord? = some r) : s.records.contains r = true := by
  induction ty with
  | primitive | voidPointer | pointerTo | bitfield => cases hr
  | array element count ih => exact ih h hr
  | record r' =>
    cases hr
    exact h

theorem Schema.declares_iff {s : Schema} {ty : Ty} :
    s.Declares ty ↔ ∀ r, ty.Mentions r → s.records.contains r = true := by
  induction ty with
  | primitive | voidPointer | bitfield => exact iff_of_true trivial fun _ h => nomatch h
  | pointerTo pointee ih => simpa only [Declares, Ty.mentions_pointerTo] using ih
  | array element count ih => simpa only [Declares, Ty.mentions_array] using ih
  | record r => simp [Declares]

namespace Declarations

/-- **What closing a set of declarations checks.** Every record is defined, every one is in order,
and the search finds no cycle. The schema has the records in their order, and the pointers of the
profile. -/
theorem close_eq_ok_iff {d : Declarations} {s : Schema} : d.close = .ok s ↔
    d.records.mapM (fun _ declaration => declaration.record) = .ok s.records ∧
    (∀ r record, s.records.get? r = some record → record.InOrder s.records) ∧
    firstCycle? s.records = none ∧
    s.pointerSize = d.profile.pointerSize ∧ s.pointerAlignment = d.profile.pointerAlignment := by
  have hentries (records : Arena RecordId Record) :
      (records.entries.forM fun entry => checkRecord records entry.2) = .ok () ↔
        ∀ r record, records.get? r = some record → record.InOrder records := by
    simp only [forM_eq_ok_iff, Prod.forall, Arena.mem_entries_iff, checkRecord_eq_ok_iff]
  constructor
  · intro h
    obtain ⟨records, hrecords, h⟩ := except_bind_eq_ok_iff.mp h
    obtain ⟨hchecked, h⟩ := except_unit_bind_eq_ok_iff.mp h
    obtain ⟨hacyclic, h⟩ := except_unit_bind_eq_ok_iff.mp h
    cases h
    refine ⟨hrecords, (hentries records).mp hchecked, ?_, rfl, rfl⟩
    rw [checkAcyclic] at hacyclic
    split at hacyclic
    · assumption
    · cases hacyclic
  · rintro ⟨hrecords, hchecked, hacyclic, hsize, halignment⟩
    rw [close, hrecords, except_ok_bind]
    refine except_unit_bind_eq_ok_iff.mpr ⟨(hentries s.records).mpr hchecked, ?_⟩
    rw [checkAcyclic, hacyclic]
    cases s
    cases hsize
    cases halignment
    rfl

/-- **The schema of a set of declarations is closed**, and its pointers are those of the profile. -/
theorem close_closed {d : Declarations} {s : Schema} (h : d.close = .ok s) :
    s.Closed ∧ s.pointerSize = d.profile.pointerSize ∧
      s.pointerAlignment = d.profile.pointerAlignment := by
  obtain ⟨-, hchecked, hacyclic, hsize, halignment⟩ := close_eq_ok_iff.mp h
  refine ⟨?_, hsize, halignment⟩
  have hbase (r : RecordId) (record : Record) (hget : s.records.get? r = some record) (base : Base)
      (hbase : base ∈ record.bases) : s.records.contains base.record = true := by
    obtain ⟨baseRecord, hbaseRecord, -⟩ := (hchecked r record hget).base base hbase
    exact Arena.contains_iff_get?.mpr ⟨baseRecord, hbaseRecord⟩
  have hfield (r : RecordId) (record : Record) (hget : s.records.get? r = some record)
      (field : Field) (hfield : field ∈ record.fields) : s.Declares field.ty :=
    Schema.declares_iff.mpr ((hchecked r record hget).mentions field hfield)
  refine ⟨hbase, hfield, fun r record hget => (hchecked r record hget).unionBases,
    firstCycle?_layered ?_ hacyclic⟩
  intro r r' hr'
  rw [containedIn] at hr'
  split at hr'
  · rename_i record hget
    rw [Record.contained, List.mem_append, List.mem_map, List.mem_filterMap] at hr'
    rcases hr' with ⟨base, hmem, rfl⟩ | ⟨field, hmem, hcontained⟩
    · exact hbase r record hget base hmem
    · exact (hfield r record hget field hmem).contains hcontained
  · cases hr'

end Declarations

end AbiLayout
