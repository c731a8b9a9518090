import AbiLayout.Proofs.Course
import AbiLayout.Proofs.Lookup

/-!
# The members of a layout

A layout lists the bases of its record and then the fields that take a place, each once and in
declaration order. A member is as long as its type, or as its bits for a bit-field. The one
exception is an array of unknown length, which is the last field of a struct and begins behind all
other members. A layout says that its record has a flexible tail exactly if the last member of a
struct is such an array or a record with a flexible tail, or some member of a union is one.

## Main definitions

* `Record.placedMembers`: the members that take a place.
* `Record.EndsOpen`: the record has a flexible tail, by what it declares last.
* `RecordLayout.Lists`: the members of a layout, over accepted bases and placements.
* `RecordLayout.Tabulates`: the members of a layout, in terms of types.
* `Session.typeLayouts`: what a session answers for a type.

## Main results

* `LayoutContext.Resolves.lists`: every layout lists its members.
* `LayoutContext.HasAnswer.accounted`: every answer passes the check of layouts.
* `Session.Reachable.record_tabulates`: the members and the flexible tail of every layout.
-/

namespace AbiLayout

/-! ### The members that take a place -/

/-- Whether the field is a bit-field without bits. -/
def Field.isZeroWidth (field : Field) : Bool :=
  match field.ty with
  | .bitfield b => b.width.isZero
  | _ => false

/-- What is to be placed for the field, if it is well declared and its type has a layout among
`types`. -/
def Field.placement? (types : Ty → Except Trap (Except LayoutError TypeLayout)) (field : Field) :
    Option Placement :=
  match field.ty with
  | .bitfield b => some (if b.width.isZero then .zeroWidth b.underlying else .bitfield b)
  | ty =>
    match types ty with
    | .ok (.ok layout) => some (.bytes layout)
    | _ => none

namespace Record

/-- Whether there is a field at position `i` that takes a place. -/
def placesField (record : Record) (i : Nat) : Bool :=
  record.fields[i]?.any fun field => !field.isZeroWidth

/-- The members that take a place: all bases, and then the fields that are no zero-width
bit-fields. -/
def placedMembers (record : Record) : List Member :=
  (List.range record.bases.length).map Member.base ++
    ((List.range record.fields.length).filter record.placesField).map Member.field

theorem nodup_placedMembers (record : Record) : record.placedMembers.Nodup := by
  refine List.nodup_append.mpr ⟨?_, ?_, ?_⟩
  · exact List.nodup_range.map fun i j h => Member.base.inj h
  · exact (List.nodup_range.filter _).map fun i j h => Member.field.inj h
  · intro x hx y hy hxy
    obtain ⟨i, -, rfl⟩ := List.mem_map.mp hx
    obtain ⟨j, -, rfl⟩ := List.mem_map.mp hy
    cases hxy

@[simp] theorem base_mem_placedMembers {record : Record} {i : Nat} :
    Member.base i ∈ record.placedMembers ↔ i < record.bases.length := by
  simp [placedMembers]

@[simp] theorem field_mem_placedMembers {record : Record} {i : Nat} :
    Member.field i ∈ record.placedMembers ↔ record.placesField i = true := by
  have hlt (h : record.placesField i = true) : i < record.fields.length := by
    by_contra hge
    rw [placesField, List.getElem?_eq_none (Nat.not_lt.mp hge)] at h
    cases h
  simpa [placedMembers] using hlt

/-- The record has a flexible tail: a struct that ends in an array of unknown length or in a record
with a flexible tail, which is a base only where there are no fields, or a union one of whose fields
is a record with a flexible tail. -/
def EndsOpen (answer : RecordId → Except Trap Answer) (record : Record) : Prop :=
  match record.kind with
  | .struct =>
    match record.fields.getLast? with
    | some field => field.ty.EndsOpen answer
    | none => ∃ base, record.bases.getLast? = some base ∧ (Ty.record base.record).EndsOpen answer
  | .union => ∃ field ∈ record.fields, ∃ r, field.ty = .record r ∧ field.ty.EndsOpen answer

end Record

/-! ### Steps that add members -/

namespace LayoutContext

variable {c : LayoutContext} {answer : RecordId → Except Trap Answer} {record : Record}
  {bases : List StructDraft.ResolvedBase} {placements : List Placement}

/-- Every field has a placement at its position. -/
theorem Resolves.exists_placement (h : c.Resolves answer record bases placements) {i : Nat}
    {field : Field} (hget : record.fields[i]? = some field) :
    ∃ placement, placements[i]? = some placement ∧
      LayoutT.value answer (c.resolveField record i field) = .ok (.ok placement) := by
  obtain ⟨placement, hplacement, hvalue⟩ := h.fieldsResolve.exists_getElem? hget
  rw [Nat.zero_add] at hvalue
  exact ⟨placement, hplacement, hvalue⟩

/-- Exactly the zero-width bit-fields take no place. -/
theorem resolveField_isZeroWidth {i : Nat} {field : Field} {placement : Placement}
    (h : LayoutT.value answer (c.resolveField record i field) = .ok (.ok placement)) :
    field.isZeroWidth = true ↔ ∃ p, placement = .zeroWidth p := by
  rw [Field.isZeroWidth]
  refine resolveField_cases (motive := fun placement => _ ↔ ∃ p, placement = .zeroWidth p) ?_ ?_
    ?_ h
  · intro b hty hzero
    rw [hty]
    exact iff_of_true (Quantity.isZero_iff.mpr hzero) ⟨_, rfl⟩
  · intro b hty hpos _
    rw [hty]
    exact iff_of_false (fun h => hpos.ne' (Quantity.isZero_iff.mp h)) fun ⟨_, h⟩ => nomatch h
  · intro layout hne _ _
    refine iff_of_false (fun h => ?_) fun ⟨_, h⟩ => nomatch h
    split at h
    · exact hne _ ‹_›
    · cases h

/-- What is placed for a field is settled by its type, whatever the record. -/
theorem resolveField_placement? {i : Nat} {field : Field} {placement : Placement}
    (h : LayoutT.value answer (c.resolveField record i field) = .ok (.ok placement)) :
    field.placement? (fun ty => LayoutT.value answer (c.typeLayout ty)) = some placement := by
  rw [Field.placement?]
  refine resolveField_cases (motive := fun placement => _ = some placement) ?_ ?_ ?_ h
  · intro b hty hzero
    rw [hty]
    exact congrArg some (if_pos (Quantity.isZero_iff.mpr hzero))
  · intro b hty hpos _
    rw [hty]
    exact congrArg some (if_neg (mt Quantity.isZero_iff.mp hpos.ne'))
  · intro layout hne hlayout _
    split
    · exact absurd ‹_› (hne _)
    · rw [hlayout]

/-- Exactly the fields that end in an array of unknown length have a type without a known size. -/
theorem resolveField_isTrailingOnly {i : Nat} {field : Field} {placement : Placement}
    (h : LayoutT.value answer (c.resolveField record i field) = .ok (.ok placement)) :
    placement.isTrailingOnly = true ↔ field.ty.EndsOpen answer := by
  have helements := (admissible_of_resolveField h).element
  refine resolveField_cases (motive := fun placement => placement.isTrailingOnly = true ↔ _) ?_ ?_
    ?_ h
  · intro b hty _
    rw [hty]
    exact iff_of_false (fun h => nomatch h) id
  · intro b hty _ _
    rw [hty]
    exact iff_of_false (fun h => nomatch h) id
  · exact fun layout _ hlayout _ => isTrailingOnly_iff_endsOpen hlayout helements

section Steps

variable (h : c.Resolves answer record bases placements) (ms : Nat → List PlacedMember)
  (hadds : ∀ (i : Nat) (field : Field) (placement : Placement), record.fields[i]? = some field →
    placements[i]? = some placement → placement.Adds i (ms i) (ms (i + 1)))

include h hadds

/-- Steps that add the fields one by one list the fields that take a place, in order. -/
theorem Resolves.map_member_of_adds {i : Nat} (hi : i ≤ record.fields.length) :
    (ms i).map PlacedMember.member = (ms 0).map PlacedMember.member ++
      ((List.range i).filter record.placesField).map Member.field := by
  induction i with
  | zero => simp
  | succ i ih =>
    have hget : record.fields[i]? = some record.fields[i] := List.getElem?_eq_getElem hi
    obtain ⟨placement, hplacement, hvalue⟩ := h.exists_placement hget
    have hstep := hadds i _ placement hget hplacement
    have hplaces : record.placesField i = !record.fields[i].isZeroWidth := by
      rw [Record.placesField, hget, Option.any_some]
    have hzero := resolveField_isZeroWidth hvalue
    rw [List.range_succ, List.filter_append, List.map_append, ← List.append_assoc,
      ← ih (Nat.le_of_succ_le hi), List.filter_singleton, hplaces]
    cases placement with
    | zeroWidth p =>
      rw [hzero.mpr ⟨p, rfl⟩, (hstep : ms (i + 1) = ms i)]
      simp
    | bitfield | bytes =>
      obtain ⟨offset, extent, -, hms⟩ := hstep
      rw [eq_false_of_ne_true (mt hzero.mp fun ⟨_, h⟩ => nomatch h), hms]
      simp

/-- A member that the steps add is a field, as long as it was resolved to be. -/
theorem Resolves.reaches_of_adds {i : Nat} (hi : i ≤ record.fields.length) {m : PlacedMember}
    (hm : m ∈ ms i) : m ∈ ms 0 ∨ ∃ j placement, m.member = .field j ∧
      placements[j]? = some placement ∧ placement.Reaches m.extent := by
  induction i with
  | zero => exact .inl hm
  | succ i ih =>
    have hget : record.fields[i]? = some record.fields[i] := List.getElem?_eq_getElem hi
    obtain ⟨placement, hplacement, -⟩ := h.exists_placement hget
    have hstep := hadds i _ placement hget hplacement
    cases placement with
    | zeroWidth p =>
      rw [(hstep : ms (i + 1) = ms i)] at hm
      exact ih (Nat.le_of_succ_le hi) hm
    | bitfield | bytes =>
      obtain ⟨offset, extent, hreaches, hms⟩ := hstep
      rw [hms] at hm
      rcases List.mem_append.mp hm with hm | hm
      · exact ih (Nat.le_of_succ_le hi) hm
      · cases List.mem_singleton.mp hm
        exact .inr ⟨i, _, rfl, hplacement, hreaches⟩

end Steps

/-- Steps that set a flag at every type without a known size set it where some field ends open. -/
theorem Resolves.flag_of_steps (h : c.Resolves answer record bases placements) (flag : Nat → Bool)
    (hstep : ∀ (i : Nat) (field : Field) (placement : Placement), record.fields[i]? = some field →
      placements[i]? = some placement → flag (i + 1) = (flag i || placement.isTrailingOnly))
    {i : Nat} (hi : i ≤ record.fields.length) :
    flag i = true ↔ flag 0 = true ∨
      ∃ j field, j < i ∧ record.fields[j]? = some field ∧ field.ty.EndsOpen answer := by
  induction i with
  | zero => simp
  | succ i ih =>
    have hget : record.fields[i]? = some record.fields[i] := List.getElem?_eq_getElem hi
    obtain ⟨placement, hplacement, hvalue⟩ := h.exists_placement hget
    rw [hstep i _ placement hget hplacement, Bool.or_eq_true, ih (Nat.le_of_succ_le hi), or_assoc,
      resolveField_isTrailingOnly hvalue]
    refine or_congr_right ⟨?_, ?_⟩
    · rintro (⟨j, field, hj, hfield, hopen⟩ | hopen)
      · exact ⟨j, field, Nat.lt_succ_of_lt hj, hfield, hopen⟩
      · exact ⟨i, _, Nat.lt_succ_self i, hget, hopen⟩
    · rintro ⟨j, field, hj, hfield, hopen⟩
      rcases Nat.lt_succ_iff_lt_or_eq.mp hj with hj | rfl
      · exact .inl ⟨j, field, hj, hfield, hopen⟩
      · cases hget.symm.trans hfield
        exact .inr hopen

/-- The bases of a struct are as many as it declares. -/
theorem resolveBases_length_eq {all : List Base}
    (h : LayoutT.value answer (StructDraft.resolveBases c record all) = .ok (.ok bases)) :
    bases.length = all.length := by
  induction all generalizing bases with
  | nil =>
    cases h
    rfl
  | cons base rest ih =>
    obtain ⟨-, -, later, -, -, -, -, hlater, rfl⟩ := resolveBases_cons_eq_ok_iff.mp h
    exact congrArg Nat.succ (ih hlater)

/-- Every base of a struct has a layout at its position. -/
theorem Resolves.exists_resolvedBase (h : c.Resolves answer record bases placements)
    (hkind : record.kind = .struct) {i : Nat} {base : Base} (hget : record.bases[i]? = some base) :
    ∃ resolved, bases[i]? = some resolved ∧ answer base.record = .ok (.ok resolved.layout) := by
  have hresolve := h.basesResolve hkind
  have hlt := (List.getElem?_eq_some_iff.mp hget).1
  rw [← resolveBases_length_eq hresolve] at hlt
  have hresolved : bases[i]? = some bases[i] := List.getElem?_eq_getElem hlt
  obtain ⟨base', hbase', hanswer⟩ := resolveBases_getElem? hresolve hresolved
  cases hget.symm.trans hbase'
  exact ⟨_, hresolved, hanswer⟩

end LayoutContext

/-! ### Layouts list their members -/

namespace RecordLayout

/-- The members are those that take a place, in order. A base is as long as its layout, and a field
as it was resolved to be. -/
structure Lists (record : Record) (bases : List StructDraft.ResolvedBase)
    (placements : List Placement) (l : RecordLayout) : Prop where
  members_eq : l.members.map PlacedMember.member = record.placedMembers
  ofBase : ∀ i, ∀ m ∈ l.members, m.member = .base i → ∃ base size, bases[i]? = some base ∧
    m.extent = .bits size ∧ size.count = 8 * base.layout.size.count
  ofField : ∀ i, ∀ m ∈ l.members, m.member = .field i → ∃ placement,
    placements[i]? = some placement ∧ placement.Reaches m.extent

variable {l : RecordLayout} {x : Member} {m : PlacedMember}

/-- Among members that are listed once, the one found is the only one. -/
theorem member?_eq_some_iff (hnodup : (l.members.map PlacedMember.member).Nodup) :
    l.member? x = some m ↔ m ∈ l.members ∧ m.member = x := by
  refine ⟨mem_of_member?, fun ⟨hm, hx⟩ => ?_⟩
  cases hfound : l.member? x with
  | none =>
    rw [member?, List.find?_eq_none] at hfound
    exact absurd (beq_iff_eq.mpr hx) (hfound m hm)
  | some m' =>
    obtain ⟨hm', hx'⟩ := mem_of_member? hfound
    rw [List.inj_on_of_nodup_map hnodup hm' hm (hx'.trans hx.symm)]

namespace Lists

variable {record : Record} {bases : List StructDraft.ResolvedBase} {placements : List Placement}

theorem member?_eq_some_iff (h : l.Lists record bases placements) :
    l.member? x = some m ↔ m ∈ l.members ∧ m.member = x :=
  RecordLayout.member?_eq_some_iff (h.members_eq ▸ record.nodup_placedMembers)

/-- Exactly the members that take a place are found. -/
theorem exists_member?_iff (h : l.Lists record bases placements) :
    (∃ m, l.member? x = some m) ↔ x ∈ record.placedMembers := by
  rw [← h.members_eq, List.mem_map]
  exact exists_congr fun m => h.member?_eq_some_iff

/-- A member is a base or a field that takes a place. -/
theorem member_mem (h : l.Lists record bases placements) (hm : m ∈ l.members) :
    m.member ∈ record.placedMembers := by
  rw [← h.members_eq]
  exact List.mem_map_of_mem hm

end Lists

end RecordLayout

/-! ### Structs -/

namespace StructDraft.Course

variable {profile : Profile} {record : Record} {bases : List ResolvedBase}
  {placements : List Placement} {l : RecordLayout}
  (k : Course profile record bases placements l)

/-- In front of each base, the members are the bases before it, as long as their layouts. -/
theorem members_based {i : Nat} (hi : i ≤ bases.length) :
    (k.based i).members.map PlacedMember.member = (List.range i).map Member.base ∧
    ∀ m ∈ (k.based i).members, ∃ j base size, m.member = .base j ∧ bases[j]? = some base ∧
      m.extent = .bits size ∧ size.count = 8 * base.layout.size.count := by
  induction i with
  | zero =>
    rw [k.based_zero]
    exact ⟨rfl, fun _ hm => nomatch hm⟩
  | succ i ih =>
    obtain ⟨hmap, hall⟩ := ih (Nat.le_of_succ_le hi)
    have hget : bases[i]? = some bases[i] := List.getElem?_eq_getElem hi
    obtain ⟨offset, size, hsize, hmembers⟩ := (k.placesBase hget).members_eq
    rw [hmembers]
    constructor
    · rw [List.map_append, hmap, List.range_succ, List.map_append]
      rfl
    · intro m hm
      rcases List.mem_append.mp hm with hm | hm
      · exact hall m hm
      · cases List.mem_singleton.mp hm
        exact ⟨i, _, size, rfl, hget, rfl, hsize⟩

/-- Behind the bases, the draft has the flexible tail of the last one. -/
theorem hasFlexibleTail_based :
    (k.based bases.length).hasFlexibleTail =
      (bases.getLast?.any fun base => base.layout.hasFlexibleTail) := by
  rcases Nat.eq_zero_or_pos bases.length with hzero | hpos
  · rw [hzero, k.based_zero, List.length_eq_zero_iff.mp hzero]
    rfl
  · have hlt : bases.length - 1 < bases.length := Nat.sub_lt hpos Nat.one_pos
    have hlast := (k.placesBase (List.getElem?_eq_getElem hlt)).hasFlexibleTail_eq
    rw [Nat.sub_add_cancel hpos] at hlast
    rw [hlast, List.getLast?_eq_getElem?, List.getElem?_eq_getElem hlt, Option.any_some]

include k in
/-- The layout of a struct lists its members. -/
theorem lists {c : LayoutContext} {answer : RecordId → Except Trap Answer}
    (h : c.Resolves answer record bases placements) (hkind : record.kind = .struct) :
    l.Lists record bases placements := by
  have hadds (i : Nat) (field : Field) (placement : Placement)
      (hget : record.fields[i]? = some field) (hget' : placements[i]? = some placement) :
      placement.Adds i (k.filled i).members (k.filled (i + 1)).members :=
    (k.places hget hget').adds
  obtain ⟨hbased, hbases⟩ := k.members_based le_rfl
  have hturn : (k.filled 0).members = (k.based bases.length).members := by rw [k.filled_zero]
  have hmap := h.map_member_of_adds (fun i => (k.filled i).members) hadds le_rfl
  have hall (m : PlacedMember) (hm : m ∈ l.members) :=
    h.reaches_of_adds (fun i => (k.filled i).members) hadds le_rfl
      (k.finishes.members_eq ▸ hm)
  refine ⟨?_, fun i m hm hmember => ?_, fun i m hm hmember => ?_⟩
  · rw [k.finishes.members_eq, hmap, hturn, hbased,
      LayoutContext.resolveBases_length_eq (h.basesResolve hkind)]
    rfl
  · rcases hall m hm with hm | ⟨j, placement, hj, -⟩
    · obtain ⟨j, base, size, hj, hget, hextent, hsize⟩ := hbases m (hturn ▸ hm)
      cases hmember.symm.trans hj
      exact ⟨base, size, hget, hextent, hsize⟩
    · cases hmember.symm.trans hj
  · rcases hall m hm with hm | ⟨j, placement, hj, hget, hreaches⟩
    · obtain ⟨j, base, size, hj, -⟩ := hbases m (hturn ▸ hm)
      cases hmember.symm.trans hj
    · cases hmember.symm.trans hj
      exact ⟨placement, hget, hreaches⟩

include k in
/-- A struct has a flexible tail if its last base has one, or one of its fields ends open. -/
theorem hasFlexibleTail_iff {c : LayoutContext} {answer : RecordId → Except Trap Answer}
    (h : c.Resolves answer record bases placements) :
    l.hasFlexibleTail = true ↔
      (bases.getLast?.any fun base => base.layout.hasFlexibleTail) = true ∨
      ∃ (i : Nat) (field : Field), record.fields[i]? = some field ∧ field.ty.EndsOpen answer := by
  rw [k.finishes.hasFlexibleTail_eq, ← k.hasFlexibleTail_based, ← k.filled_zero]
  refine (h.flag_of_steps (fun i => (k.filled i).hasFlexibleTail) (fun i field placement
    hget hget' => (k.places hget hget').hasFlexibleTail_eq) le_rfl).trans (or_congr_right ?_)
  refine exists_congr fun i => exists_congr fun field => and_iff_right_of_imp fun ⟨hget, _⟩ => ?_
  exact (List.getElem?_eq_some_iff.mp hget).1

end StructDraft.Course

/-! ### Unions -/

namespace UnionDraft

variable {d d' : UnionDraft} {i : Nat} {isNamed : Bool} {placement : Placement}

/-- A field that is no array of unknown length is added to a union as long as its type. -/
theorem adds_of_place (h : d.place i isNamed placement = .ok d')
    (hsized : ∀ layout, placement = .bytes layout → layout.completeness ≠ .incomplete) :
    placement.Adds i d.members d'.members := by
  cases placement with
  | zeroWidth p =>
    cases h
    rfl
  | bitfield b =>
    cases h
    exact ⟨_, _, rfl, rfl⟩
  | bytes layout =>
    obtain ⟨length, hlength, h⟩ := except_bind_eq_ok_iff.mp h
    cases h
    rw [Quantity.toBits_eq_ok_iff] at hlength
    exact ⟨_, .bits length, ⟨hsized layout rfl, hlength⟩, rfl⟩

/-- A union has a flexible tail once it has a member that does. -/
theorem hasFlexibleTail_of_place (h : d.place i isNamed placement = .ok d')
    (hsized : ∀ layout, placement = .bytes layout → layout.completeness ≠ .incomplete) :
    d'.hasFlexibleTail = (d.hasFlexibleTail || placement.isTrailingOnly) := by
  cases placement with
  | zeroWidth | bitfield =>
    cases h
    exact (Bool.or_false _).symm
  | bytes layout =>
    obtain ⟨length, -, h⟩ := except_bind_eq_ok_iff.mp h
    cases h
    have hne := hsized layout rfl
    change (d.hasFlexibleTail || layout.completeness == .flexibleTail) =
      (d.hasFlexibleTail || !(layout.completeness == .complete))
    cases hc : layout.completeness with
    | complete | flexibleTail => rfl
    | incomplete => exact absurd hc hne

end UnionDraft

namespace LayoutContext

variable {c : LayoutContext} {answer : RecordId → Except Trap Answer} {record : Record}
  {bases : List StructDraft.ResolvedBase} {placements : List Placement} {l : RecordLayout}

/-- No field of a union is an array of unknown length. -/
theorem Resolves.sized (h : c.Resolves answer record bases placements)
    (hkind : record.kind = .union) {i : Nat} {field : Field} {placement : Placement}
    (hget : record.fields[i]? = some field) (hget' : placements[i]? = some placement) :
    ∀ layout, placement = .bytes layout → layout.completeness ≠ .incomplete := by
  have hvalue := h.fieldsResolve.getElem? hget hget'
  refine resolveField_cases (motive := fun placement => ∀ layout, placement = .bytes layout →
    layout.completeness ≠ .incomplete) ?_ ?_ ?_ hvalue
  · exact fun _ _ _ _ h => nomatch h
  · exact fun _ _ _ _ _ h => nomatch h
  · rintro layout - - hposition _ ⟨⟩
    exact (checkPosition_eq_ok_iff.mp hposition).1 hkind

end LayoutContext

namespace UnionDraft.Course

variable {c : LayoutContext} {answer : RecordId → Except Trap Answer} {profile : Profile}
  {record : Record} {bases : List StructDraft.ResolvedBase} {placements : List Placement}
  {l : RecordLayout} (k : Course profile record placements l)
  (h : c.Resolves answer record bases placements) (hkind : record.kind = .union)

include k h hkind

/-- The layout of a union lists its members. -/
theorem lists (hbases : record.bases = []) : l.Lists record bases placements := by
  have hadds (i : Nat) (field : Field) (placement : Placement)
      (hget : record.fields[i]? = some field) (hget' : placements[i]? = some placement) :
      placement.Adds i (k.filled i).members (k.filled (i + 1)).members :=
    adds_of_place (k.place hget hget') (h.sized hkind hget hget')
  have hstart : (k.filled 0).members = [] := by rw [k.filled_zero]; rfl
  have hmap := h.map_member_of_adds (fun i => (k.filled i).members) hadds le_rfl
  have hall (m : PlacedMember) (hm : m ∈ l.members) : ∃ j placement, m.member = .field j ∧
      placements[j]? = some placement ∧ placement.Reaches m.extent := by
    rcases h.reaches_of_adds (fun i => (k.filled i).members) hadds le_rfl
      (k.finishes.members_eq ▸ hm) with hm | hm
    · rw [hstart] at hm
      cases hm
    · exact hm
  refine ⟨?_, fun i m hm hmember => ?_, fun i m hm hmember => ?_⟩
  · rw [k.finishes.members_eq, hmap, hstart, Record.placedMembers, hbases]
    rfl
  · obtain ⟨j, -, hj, -⟩ := hall m hm
    cases hmember.symm.trans hj
  · obtain ⟨j, placement, hj, hget, hreaches⟩ := hall m hm
    cases hmember.symm.trans hj
    exact ⟨placement, hget, hreaches⟩

/-- A union has a flexible tail if one of its fields ends open. -/
theorem hasFlexibleTail_iff : l.hasFlexibleTail = true ↔
    ∃ (i : Nat) (field : Field), record.fields[i]? = some field ∧ field.ty.EndsOpen answer := by
  have hstart : (k.filled 0).hasFlexibleTail = false := by rw [k.filled_zero]; rfl
  rw [k.finishes.hasFlexibleTail_eq]
  refine (h.flag_of_steps (fun i => (k.filled i).hasFlexibleTail) (fun i field placement
    hget hget' => hasFlexibleTail_of_place (k.place hget hget') (h.sized hkind hget hget'))
    le_rfl).trans ?_
  rw [hstart]
  simp only [Bool.false_eq_true, false_or]
  refine exists_congr fun i => exists_congr fun field => and_iff_right_of_imp fun ⟨hget, _⟩ => ?_
  exact (List.getElem?_eq_some_iff.mp hget).1

end UnionDraft.Course

/-! ### Records that end open -/

namespace Record

variable {answer : RecordId → Except Trap Answer} {record : Record}

/-- A struct that keeps the rules ends open if its last base or one of its fields does: only the
last field of a struct may end open, and no base in front of a field. -/
theorem Layable.endsOpen_iff_of_struct {profile : Profile}
    (h : record.Layable answer profile) (hkind : record.kind = .struct) :
    record.EndsOpen answer ↔
      (∃ base, record.bases.getLast? = some base ∧ (Ty.record base.record).EndsOpen answer) ∨
      ∃ (i : Nat) (field : Field), record.fields[i]? = some field ∧ field.ty.EndsOpen answer := by
  rw [Record.EndsOpen, hkind]
  cases hlast : record.fields.getLast? with
  | none =>
    rw [List.getLast?_eq_none_iff.mp hlast]
    simp
  | some last =>
    have hne : record.fields ≠ [] := fun hnil => by
      rw [hnil] at hlast
      cases hlast
    rw [List.getLast?_eq_getElem?] at hlast
    constructor
    · exact fun hopen => .inr ⟨_, last, hlast, hopen⟩
    · rintro (⟨base, hbase, layout, hanswer, htail⟩ | ⟨i, field, hget, hopen⟩)
      · rw [List.getLast?_eq_getElem?] at hbase
        exact absurd ((h.base _ base hbase).last layout hanswer htail).2 hne
      · have hi := (h.field i field hget).last hkind hopen
        rw [← hi, Nat.add_sub_cancel] at hlast
        cases hget.symm.trans hlast
        exact hopen

/-- A union that keeps the rules ends open if one of its fields does: none of them is an array of
unknown length. -/
theorem Layable.endsOpen_iff_of_union {profile : Profile}
    (h : record.Layable answer profile) (hkind : record.kind = .union) :
    record.EndsOpen answer ↔
      ∃ (i : Nat) (field : Field), record.fields[i]? = some field ∧ field.ty.EndsOpen answer := by
  rw [Record.EndsOpen, hkind]
  constructor
  · rintro ⟨field, hmem, r, -, hopen⟩
    obtain ⟨i, hget⟩ := List.getElem?_of_mem hmem
    exact ⟨i, field, hget, hopen⟩
  · rintro ⟨i, field, hget, hopen⟩
    refine ⟨field, List.mem_of_getElem? hget, ?_⟩
    have hsized := (h.field i field hget).ofUnion hkind
    cases hty : field.ty with
    | record r => exact ⟨r, rfl, hty ▸ hopen⟩
    | array element count =>
      cases count with
      | none => exact absurd hty (hsized element)
      | some count =>
        rw [hty] at hopen
        exact hopen.elim
    | primitive | voidPointer | pointerTo | bitfield =>
      rw [hty] at hopen
      exact hopen.elim

end Record

/-! ### Every layout -/

namespace LayoutContext

variable {c : LayoutContext} {answer : RecordId → Except Trap Answer} {record : Record}
  {bases : List StructDraft.ResolvedBase} {placements : List Placement} {l : RecordLayout}

/-- **Every layout lists its members.** -/
theorem Resolves.lists (h : c.Resolves answer record bases placements)
    (hunion : record.kind = .union → record.bases = [])
    (hl : LayoutT.value answer (c.layoutByKind record) = .ok (.ok l)) :
    l.Lists record bases placements := by
  cases hkind : record.kind with
  | struct =>
    obtain ⟨k⟩ := h.nonempty_course hkind hl
    exact k.lists h hkind
  | union =>
    obtain ⟨k⟩ := h.nonempty_unionCourse hkind hl
    exact k.lists h hkind (hunion hkind)

/-- The bases of a struct end in a flexible tail exactly if the record of the last one does. -/
theorem Resolves.getLast?_bases (h : c.Resolves answer record bases placements)
    (hkind : record.kind = .struct) :
    (bases.getLast?.any fun base => base.layout.hasFlexibleTail) = true ↔
      ∃ base, record.bases.getLast? = some base ∧ (Ty.record base.record).EndsOpen answer := by
  have hresolve := h.basesResolve hkind
  rw [List.getLast?_eq_getElem?, List.getLast?_eq_getElem?, resolveBases_length_eq hresolve,
    Option.any_eq_true]
  constructor
  · rintro ⟨resolved, hget, htail⟩
    obtain ⟨base, hbase, hanswer⟩ := resolveBases_getElem? hresolve hget
    exact ⟨base, hbase, resolved.layout, hanswer, htail⟩
  · rintro ⟨base, hbase, layout, hanswer, htail⟩
    obtain ⟨resolved, hget, hanswer'⟩ := h.exists_resolvedBase hkind hbase
    cases hanswer.symm.trans hanswer'
    exact ⟨resolved, hget, htail⟩

/-- **A layout has a flexible tail exactly if its record ends open.** -/
theorem Resolves.hasFlexibleTail_iff (h : c.Resolves answer record bases placements)
    (hunion : record.kind = .union → record.bases = [])
    (hl : LayoutT.value answer (c.layoutByKind record) = .ok (.ok l)) :
    l.hasFlexibleTail = true ↔ record.EndsOpen answer := by
  have hlayable := h.layable hunion
  cases hkind : record.kind with
  | struct =>
    obtain ⟨k⟩ := h.nonempty_course hkind hl
    rw [k.hasFlexibleTail_iff h, h.getLast?_bases hkind, hlayable.endsOpen_iff_of_struct hkind]
  | union =>
    obtain ⟨k⟩ := h.nonempty_unionCourse hkind hl
    rw [k.hasFlexibleTail_iff h hkind, hlayable.endsOpen_iff_of_union hkind]

/-- **Every answer passes the check of layouts.** -/
theorem accounted_of_recordLayout {r : RecordId}
    (h : (c.recordLayout r).value answer = .ok (.ok l)) : l.Accounted := by
  rw [recordLayout, LayoutM.value_bind, LayoutM.value_liftM] at h
  obtain ⟨record, -, h⟩ := except_bind_eq_ok_iff.mp h
  rw [LayoutM.value_bind] at h
  obtain ⟨out, -, h⟩ := except_bind_eq_ok_iff.mp h
  cases out with
  | error e =>
    dsimp only at h
    split at h <;> cases h
  | ok layout =>
    dsimp only at h
    rw [LayoutM.value_bind, LayoutM.value_liftM] at h
    obtain ⟨flaw, hflaw, h⟩ := except_bind_eq_ok_iff.mp h
    cases flaw with
    | none =>
      cases h
      exact RecordLayout.flaw?_eq_none_iff.mp hflaw
    | some flaw => cases h

theorem HasAnswer.accounted {r : RecordId} (h : c.HasAnswer r (.ok l)) : l.Accounted := by
  obtain ⟨depth, h⟩ := h
  cases depth with
  | zero => cases h
  | succ depth => exact accounted_of_recordLayout h

end LayoutContext

/-! ### The members in terms of types -/

namespace RecordLayout

/-- The members and the flexible tail of a layout, given what is answered for records and types. The
members are those that take a place, in order and each once, and a member is found by what it is. A
base or a field is as long as its type, and a bit-field as wide as declared, except that an array of
unknown length is unbounded; such an array is the last field of a struct and begins behind all other
members. -/
structure Tabulates (answer : RecordId → Except Trap Answer)
    (types : Ty → Except Trap (Except LayoutError TypeLayout)) (record : Record)
    (l : RecordLayout) : Prop where
  members_eq : l.members.map PlacedMember.member = record.placedMembers
  nodup : (l.members.map PlacedMember.member).Nodup
  find_iff : ∀ x m, l.member? x = some m ↔ m ∈ l.members ∧ m.member = x
  base : ∀ i base m, record.bases[i]? = some base → l.base? i = some m → ∃ layout length,
    types (.record base.record) = .ok (.ok layout) ∧ m.extent = .bits length ∧
      length.count = 8 * layout.width.count
  bitfield : ∀ i field b m, record.fields[i]? = some field → field.ty = .bitfield b →
    l.field? i = some m → m.extent = .bits b.width
  field : ∀ i field m, record.fields[i]? = some field → (∀ b, field.ty ≠ .bitfield b) →
    (∀ element, field.ty ≠ .array element none) → l.field? i = some m → ∃ layout length,
      types field.ty = .ok (.ok layout) ∧ m.extent = .bits length ∧
        length.count = 8 * layout.width.count
  unbounded_iff : ∀ m ∈ l.members, m.extent = .unbounded ↔ ∃ i field element,
    m.member = .field i ∧ record.fields[i]? = some field ∧ field.ty = .array element none
  last : ∀ m ∈ l.members, m.extent = .unbounded → record.kind = .struct ∧
    m.member = .field (record.fields.length - 1) ∧
    ∀ m' ∈ l.members, m' ≠ m → m'.offset.count + m'.extent.counted.count ≤ m.offset.count
  hasFlexibleTail_iff : l.hasFlexibleTail = true ↔ record.EndsOpen answer

end RecordLayout

namespace LayoutContext

variable {c : LayoutContext} {answer : RecordId → Except Trap Answer} {record : Record}
  {bases : List StructDraft.ResolvedBase} {placements : List Placement} {l : RecordLayout}

section Listed

variable (h : c.Resolves answer record bases placements) (hlists : l.Lists record bases placements)

include h hlists

/-- A base is as long as its type. -/
theorem Resolves.base_extent {i : Nat} {base : Base} {m : PlacedMember}
    (hget : record.bases[i]? = some base) (hm : l.base? i = some m) :
    ∃ inner length, answer base.record = .ok (.ok inner) ∧ m.extent = .bits length ∧
      length.count = 8 * inner.size.count := by
  obtain ⟨hmem, hmember⟩ := RecordLayout.mem_of_member? hm
  obtain ⟨resolved, size, hresolved, hextent, hsize⟩ := hlists.ofBase i m hmem hmember
  have hstruct : record.kind = .struct := by
    cases hkind : record.kind with
    | struct => rfl
    | union =>
      rw [h.unionBases hkind] at hresolved
      simp at hresolved
  obtain ⟨base', hbase', hanswer⟩ := resolveBases_getElem? (h.basesResolve hstruct) hresolved
  cases hget.symm.trans hbase'
  exact ⟨resolved.layout, size, hanswer, hextent, hsize⟩

/-- A field that takes a place is as long as it was resolved to be. -/
theorem Resolves.field_reaches {i : Nat} {field : Field} {m : PlacedMember}
    (hget : record.fields[i]? = some field) (hm : l.field? i = some m) :
    ∃ placement, LayoutT.value answer (c.resolveField record i field) = .ok (.ok placement) ∧
      placement.Reaches m.extent := by
  obtain ⟨hmem, hmember⟩ := RecordLayout.mem_of_member? hm
  obtain ⟨placement, hplacement, hreaches⟩ := hlists.ofField i m hmem hmember
  have hvalue := h.fieldsResolve.getElem? hget hplacement
  rw [Nat.zero_add] at hvalue
  exact ⟨placement, hvalue, hreaches⟩

/-- A bit-field is as wide as declared. -/
theorem Resolves.bitfield_extent {i : Nat} {field : Field} {b : Bitfield} {m : PlacedMember}
    (hget : record.fields[i]? = some field) (hty : field.ty = .bitfield b)
    (hm : l.field? i = some m) : m.extent = .bits b.width := by
  obtain ⟨placement, hvalue, hreaches⟩ := h.field_reaches hlists hget hm
  refine resolveField_cases (motive := fun placement => placement.Reaches m.extent → _) ?_ ?_ ?_
    hvalue hreaches
  · exact fun _ _ _ h => h.elim
  · intro b' hb' _ _ hextent
    cases hty.symm.trans hb'
    exact hextent
  · exact fun _ hne _ _ _ => absurd hty (hne b)

/-- Any other field has the length of its type, or is an array of unknown length. -/
theorem Resolves.field_extent {i : Nat} {field : Field} {m : PlacedMember}
    (hget : record.fields[i]? = some field) (hne : ∀ b, field.ty ≠ .bitfield b)
    (hm : l.field? i = some m) :
    ∃ layout, LayoutT.value answer (c.typeLayout field.ty) = .ok (.ok layout) ∧
      (m.extent = .unbounded ↔ ∃ element, field.ty = .array element none) ∧
      (m.extent ≠ .unbounded →
        ∃ length, m.extent = .bits length ∧ length.count = 8 * layout.width.count) := by
  obtain ⟨placement, hvalue, hreaches⟩ := h.field_reaches hlists hget hm
  obtain ⟨-, layout, rfl, hlayout, -⟩ := resolveField_eq_ok hne hvalue
  have hincomplete := completeness_eq_incomplete_iff hlayout
    (admissible_of_resolveField hvalue).element
  refine ⟨layout, hlayout, ?_⟩
  rw [← hincomplete]
  cases hm : m.extent with
  | bits length =>
    rw [hm] at hreaches
    exact ⟨iff_of_false (fun h => nomatch h) hreaches.1, fun _ => ⟨length, rfl, hreaches.2⟩⟩
  | unbounded =>
    rw [hm] at hreaches
    exact ⟨iff_of_true rfl hreaches, fun hne => absurd rfl hne⟩

/-- Exactly the arrays of unknown length are unbounded. -/
theorem Resolves.unbounded_iff {m : PlacedMember} (hmem : m ∈ l.members) :
    m.extent = .unbounded ↔ ∃ i field element,
      m.member = .field i ∧ record.fields[i]? = some field ∧ field.ty = .array element none := by
  cases hmember : m.member with
  | base i =>
    obtain ⟨-, size, -, hextent, -⟩ := hlists.ofBase i m hmem hmember
    rw [hextent]
    exact iff_of_false (fun h => nomatch h) fun ⟨_, _, _, h, _⟩ => nomatch h
  | field i =>
    have hplaced := hlists.member_mem hmem
    rw [hmember, Record.field_mem_placedMembers, Record.placesField] at hplaced
    obtain ⟨field, hget, -⟩ := (Option.any_eq_true _ _).mp hplaced
    have hm : l.field? i = some m := hlists.member?_eq_some_iff.mpr ⟨hmem, hmember⟩
    have hexists : (∃ j field' element, Member.field i = .field j ∧
        record.fields[j]? = some field' ∧ field'.ty = .array element none) ↔
          ∃ element, field.ty = .array element none := by
      constructor
      · rintro ⟨j, field', element, ⟨⟩, hget', hty⟩
        cases hget.symm.trans hget'
        exact ⟨element, hty⟩
      · rintro ⟨element, hty⟩
        exact ⟨i, field, element, rfl, hget, hty⟩
    rw [hexists]
    by_cases hty : ∃ b, field.ty = .bitfield b
    · obtain ⟨b, hb⟩ := hty
      rw [h.bitfield_extent hlists hget hb hm, hb]
      exact iff_of_false (fun h => nomatch h) fun ⟨_, h⟩ => nomatch h
    · obtain ⟨-, -, hunbounded, -⟩ :=
        h.field_extent hlists hget (fun b hb => hty ⟨b, hb⟩) hm
      exact hunbounded

/-- An unbounded member is the last field of a struct. -/
theorem Resolves.last_of_unbounded (hunion : record.kind = .union → record.bases = [])
    {m : PlacedMember} (hm : m ∈ l.members) (hextent : m.extent = .unbounded) :
    record.kind = .struct ∧ ∃ i, m.member = .field i ∧ i + 1 = record.fields.length := by
  obtain ⟨i, field, element, hmember, hget, hty⟩ := (h.unbounded_iff hlists hm).mp hextent
  have hadmissible := (h.layable hunion).field i field hget
  have hstruct : record.kind = .struct := by
    cases hkind : record.kind with
    | struct => rfl
    | union => exact absurd hty (hadmissible.ofUnion hkind element)
  exact ⟨hstruct, i, hmember, hadmissible.last hstruct (by rw [hty]; trivial)⟩

end Listed

/-- The layout of a record is of the kind of the record. -/
theorem kind_eq_of_layoutByKind
    (hl : LayoutT.value answer (c.layoutByKind record) = .ok (.ok l)) : l.kind = record.kind := by
  obtain ⟨bases, placements, h⟩ := layoutByKind_resolves hl
  cases hkind : record.kind with
  | struct =>
    obtain ⟨k⟩ := h.nonempty_course hkind hl
    exact k.finishes.kind_eq
  | union =>
    obtain ⟨k⟩ := h.nonempty_unionCourse hkind hl
    exact k.finishes.kind_eq

/-- The field at the last position is the last member, and all others end in front of it. -/
theorem stop_le_of_last (hlists : l.Lists record bases placements) (htallied : l.Tallied) {i : Nat}
    (hi : i + 1 = record.fields.length) {m : PlacedMember} (hm : m ∈ l.members)
    (hmember : m.member = .field i) {m' : PlacedMember} (hm' : m' ∈ l.members) (hne : m' ≠ m) :
    m'.offset.count + m'.extent.counted.count ≤ m.offset.count := by
  have hplaced := hlists.member_mem hm
  rw [hmember, Record.field_mem_placedMembers] at hplaced
  have hmap := hlists.members_eq
  rw [Record.placedMembers, ← hi, List.range_succ, List.filter_append, List.filter_singleton,
    hplaced, cond_true, List.map_append, ← List.append_assoc] at hmap
  obtain ⟨before, rest, hsplit, -, hrest⟩ := List.map_eq_append_iff.mp hmap
  obtain ⟨last, hlast, hfield⟩ := List.map_eq_singleton_iff.mp hrest
  have hmem : last ∈ l.members := by simp [hsplit, hlast]
  have heq : last = m := by
    have hfound := hlists.member?_eq_some_iff.mpr ⟨hmem, hfield⟩
    rw [hlists.member?_eq_some_iff.mpr ⟨hm, hmember⟩] at hfound
    exact (Option.some.inj hfound).symm
  have hsorted := htallied.members_sorted
  rw [hsplit, hlast, heq] at hsorted hm'
  rcases List.mem_append.mp hm' with hm' | hm'
  · exact (List.pairwise_append.mp hsorted).2.2 m' hm' m (List.mem_singleton_self m)
  · exact absurd (List.mem_singleton.mp hm') hne

section Closed

variable (hclosed : c.schema.Closed) {r : RecordId}

include hclosed

/-- **The members and the flexible tail of every layout.** -/
theorem tabulates_of_answer (hrecord : c.schema.records.get? r = some record)
    (h : c.answer r = .ok (.ok l)) :
    l.Tabulates c.answer (fun ty => LayoutT.value c.answer (c.typeLayout ty)) record := by
  have hl := value_layoutByKind_of_answer hclosed hrecord h
  have hunion := hclosed.unionBases r record hrecord
  have haccounted : l.Accounted := HasAnswer.accounted ((hasAnswer_iff hclosed).mpr h)
  obtain ⟨bases, placements, hresolves⟩ := layoutByKind_resolves hl
  have hlists := hresolves.lists hunion hl
  refine ⟨hlists.members_eq, hlists.members_eq ▸ record.nodup_placedMembers,
    fun x m => hlists.member?_eq_some_iff, fun i base m hget hm => ?_,
    fun i field b m hget hty hm => hresolves.bitfield_extent hlists hget hty hm,
    fun i field m hget hne hsized hm => ?_, fun m hm => hresolves.unbounded_iff hlists hm,
    fun m hm hextent => ?_, hresolves.hasFlexibleTail_iff hunion hl⟩
  · obtain ⟨inner, length, hanswer, hextent, hlength⟩ := hresolves.base_extent hlists hget hm
    refine ⟨inner.typeLayout, length, ?_, hextent, hlength⟩
    rw [typeLayout_record, LayoutT.value_map, LayoutT.value_layoutOf, hanswer]
    rfl
  · obtain ⟨layout, hlayout, hunbounded, hbounded⟩ := hresolves.field_extent hlists hget hne hm
    obtain ⟨length, hextent, hlength⟩ :=
      hbounded (mt hunbounded.mp fun ⟨element, hty⟩ => hsized element hty)
    exact ⟨layout, length, hlayout, hextent, hlength⟩
  · obtain ⟨hstruct, i, hmember, hi⟩ := hresolves.last_of_unbounded hlists hunion hm hextent
    have htallied := haccounted.tallied ((kind_eq_of_layoutByKind hl).trans hstruct)
    refine ⟨hstruct, by rw [hmember, ← hi, Nat.add_sub_cancel], fun m' hm' hne => ?_⟩
    exact stop_le_of_last hlists htallied hi hm hmember hm' hne

end Closed

end LayoutContext

/-- A struct with a base, two bit-fields, a zero-width bit-field, a letter and an array of unknown
length. -/
def Schema.message : Schema where
  records := ⟨#[
    ⟨some "header", .struct, [],
      [⟨some "kind", .primitive ⟨"int", .of 4, .of 4, .signed⟩, false⟩]⟩,
    ⟨some "message", .struct, [⟨.of 0, false⟩],
      [⟨some "urgent", .bitfield (.ofWidth ⟨"int", .of 4, .of 4, .signed⟩ (.of 3)), false⟩,
       ⟨some "level", .bitfield (.ofWidth ⟨"int", .of 4, .of 4, .signed⟩ (.of 5)), false⟩,
       ⟨none, .bitfield (.unitBreak ⟨"int", .of 4, .of 4, .signed⟩), false⟩,
       ⟨some "letter", .primitive ⟨"char", .of 1, .of 1, .signedChar⟩, false⟩,
       ⟨some "text", .array (.primitive ⟨"char", .of 1, .of 1, .signedChar⟩) none, false⟩]⟩],
    by decide⟩
  pointerSize := .of 8
  pointerAlignment := .of 8

/-- The declarations of the records of `Schema.message`. -/
def Declarations.message : Declarations where
  profile := .lp64
  records := ⟨(Schema.message.records.values.toList.map fun record =>
    ⟨record.name, record.kind, some (record.bases, record.fields)⟩).toArray, by decide⟩

theorem Declarations.close_message : message.close = .ok Schema.message := rfl

namespace Session

/-- What the session answers for a type, as it is now. -/
def typeLayouts (s : Session) (ty : Ty) : Except Trap (Except LayoutError TypeLayout) :=
  (s.typeLayout ty).map Prod.fst

/-- A session answers for types what is computed without a memory. -/
theorem typeLayouts_eq {c : LayoutContext} (hclosed : c.schema.Closed) {s : Session} (hs : s.Sound)
    (hc : s.context = c) :
    s.typeLayouts = fun ty => LayoutT.value c.answer (c.typeLayout ty) := by
  funext ty
  rw [typeLayouts, typeLayout, hc]
  exact exec_fst hclosed hs hc

namespace Reachable

variable {d : Declarations} {schema : Schema} {profile : Profile} {settings : SinkSettings}
  {s s' : Session} {r : RecordId} {record : Record} {l : RecordLayout}

/-- **The member table is complete, and flexible tails are tracked exactly.** In every session over
a built schema, a layout lists the bases and then the fields that are no zero-width bit-fields, each
once, in order, and as long as their types. Exactly an array of unknown length is unbounded; it is
the last field of a struct and begins behind all other members. The layout has a flexible tail
exactly if its record ends open. -/
theorem record_tabulates (hclose : d.close = .ok schema)
    (hs : Reachable schema profile settings s) (hrecord : schema.records.get? r = some record)
    (h : s.record r = .ok (.ok l, s')) : l.Tabulates s.answers s.typeLayouts record := by
  obtain ⟨hclosed, -⟩ := Declarations.close_closed hclose
  rw [typeLayouts_eq hclosed hs.sound hs.context_eq]
  have hanswer : s.answers r = .ok (.ok l) := answers_eq_ok_iff.mpr ⟨s', h⟩
  rw [answers_eq hclosed hs.sound hs.context_eq] at hanswer ⊢
  exact LayoutContext.tabulates_of_answer hclosed hrecord hanswer

theorem record_tabulates_message :
    ∃ l s', (Session.start Schema.message .lp64 .keepAll).record (.of 1) = .ok (.ok l, s') ∧
      l.members.map PlacedMember.member =
        [.base 0, .field 0, .field 1, .field 3, .field 4] ∧
      l.hasFlexibleTail = true := by
  obtain ⟨l, s', h⟩ : ∃ l s', (Session.start Schema.message .lp64 .keepAll).record (.of 1) =
      .ok (.ok l, s') := ⟨_, _, rfl⟩
  have htabulates := record_tabulates Declarations.close_message .start rfl h
  exact ⟨l, s', h, htabulates.members_eq, htabulates.hasFlexibleTail_iff.mpr trivial⟩

end Reachable

end Session

end AbiLayout
