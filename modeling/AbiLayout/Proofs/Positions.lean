import AbiLayout.Proofs.Members

/-!
# Where the steps of a course put members

Each step of the course of a struct puts a member of its layout somewhere, and leaves the cursor at
its end. Read as numbers, a step that places a bit-field or ends a run is the ideal one, if base
types are usable. One that places whole bytes is the ideal one for an alignment that is a power of
two; for any other alignment the member is still behind all room taken before.

## Main definitions

* `Record.bitfieldAt?`, `Record.breakAt?`: the bit-fields with bits and those without.
* `StructDraft.Course.cursorAt`: the cursor in front of a field, as numbers.

## Main results

* `StructDraft.Course.valid_cursorAt`: the cursors of a course are valid.
* `StructDraft.Course.whole_step`, `StructDraft.Course.bits_step`,
  `StructDraft.Course.break_step`: where the fields of a struct are.
* `StructDraft.Course.stop_le_based`: the bases are in front of all fields.
-/

namespace AbiLayout

/-! ### Bit-fields -/

/-- The bit-field at position `i`, if there is one there that has bits. -/
def Record.bitfieldAt? (record : Record) (i : Nat) : Option Bitfield :=
  match record.fields[i]? with
  | some ⟨_, .bitfield b, _⟩ => if b.width.isZero then none else some b
  | _ => none

/-- The base type of the zero-width bit-field at position `i`, if there is one there. -/
def Record.breakAt? (record : Record) (i : Nat) : Option Primitive :=
  match record.fields[i]? with
  | some ⟨_, .bitfield b, _⟩ => if b.width.isZero then some b.underlying else none
  | _ => none

theorem Record.lt_of_bitfieldAt? {record : Record} {i : Nat} {b : Bitfield}
    (h : record.bitfieldAt? i = some b) : i < record.fields.length := by
  by_contra hge
  rw [bitfieldAt?, List.getElem?_eq_none (Nat.not_lt.mp hge)] at h
  cases h

/-- The bit-field that is placed, if it has bits. -/
def Placement.bitfield? : Placement → Option Bitfield
  | bitfield b => some b
  | _ => none

/-- The base type of the zero-width bit-field that is placed. -/
def Placement.break? : Placement → Option Primitive
  | zeroWidth underlying => some underlying
  | _ => none

/-- What is declared is placed: a bit-field with bits, a zero-width bit-field, or neither. -/
theorem LayoutContext.Resolves.bitfieldAt?_eq {c : LayoutContext}
    {answer : RecordId → Except Trap Answer} {record : Record}
    {bases : List StructDraft.ResolvedBase} {placements : List Placement}
    (h : c.Resolves answer record bases placements) {i : Nat} {placement : Placement}
    (hplacement : placements[i]? = some placement) :
    record.bitfieldAt? i = placement.bitfield? ∧ record.breakAt? i = placement.break? := by
  have hlt := (List.getElem?_eq_some_iff.mp hplacement).1
  rw [h.fieldsResolve.length_eq] at hlt
  have hget : record.fields[i]? = some record.fields[i] := List.getElem?_eq_getElem hlt
  obtain ⟨placement', hplacement', hvalue⟩ := h.exists_placement hget
  cases hplacement.symm.trans hplacement'
  generalize record.fields[i] = field at hget hvalue
  obtain ⟨name, ty, isAnonymous⟩ := field
  rw [Record.bitfieldAt?, Record.breakAt?, hget]
  refine resolveField_cases (motive := fun placement => _ = placement.bitfield? ∧
    _ = placement.break?) ?_ ?_ ?_ hvalue
  · rintro b rfl hzero
    simp [Quantity.isZero, hzero, Placement.bitfield?, Placement.break?]
  · rintro b rfl hpos -
    simp [Quantity.isZero, hpos.ne', Placement.bitfield?, Placement.break?]
  · intro layout hne _ _
    cases ty with
    | bitfield b => exact absurd rfl (hne b)
    | primitive | voidPointer | pointerTo | array | record => exact ⟨rfl, rfl⟩

/-- The bit-fields with bits are those that are placed as bit-fields. -/
theorem LayoutContext.Resolves.bitfieldAt?_eq_some_iff {c : LayoutContext}
    {answer : RecordId → Except Trap Answer} {record : Record}
    {bases : List StructDraft.ResolvedBase} {placements : List Placement}
    (h : c.Resolves answer record bases placements) {i : Nat} {b : Bitfield} :
    record.bitfieldAt? i = some b ↔ placements[i]? = some (.bitfield b) := by
  constructor
  · intro hb
    have hget := List.getElem?_eq_getElem (Record.lt_of_bitfieldAt? hb)
    obtain ⟨placement, hplacement, -⟩ := h.exists_placement hget
    rw [(h.bitfieldAt?_eq hplacement).1] at hb
    cases placement with
    | bitfield b' =>
      cases hb
      exact hplacement
    | zeroWidth | bytes => cases hb
  · exact fun hplacement => (h.bitfieldAt?_eq hplacement).1

/-- Over usable base types, the bit-fields of a record are within their types. -/
theorem LayoutContext.Resolves.framed {c : LayoutContext}
    {answer : RecordId → Except Trap Answer} {r : RecordId} {record : Record}
    {bases : List StructDraft.ResolvedBase} {placements : List Placement}
    (h : c.Resolves answer record bases placements)
    (hrecord : c.schema.records.get? r = some record)
    (primitive : ∀ p, c.schema.Mentions p → p.Usable) :
    ∀ placement ∈ placements, placement.Framed := by
  intro placement hmem
  obtain ⟨j, field, hget, hvalue⟩ := h.fieldsResolve.exists_field hmem
  have hunderlying (b : Bitfield) (hb : field.ty = .bitfield b) : b.underlying.Usable :=
    primitive b.underlying (mentions_of_mem hrecord (List.mem_of_getElem? hget)
      (hb ▸ List.mem_singleton_self b.underlying))
  refine resolveField_cases (motive := Placement.Framed) (fun b hb _ => hunderlying b hb) ?_ ?_
    hvalue
  · exact fun b hb hpos hle => ⟨hunderlying b hb, hpos, hle⟩
  · exact fun _ _ _ _ => trivial

/-! ### The cursors of a course -/

namespace StructDraft.Course

variable {c : LayoutContext} {answer : RecordId → Except Trap Answer} {record : Record}
  {bases : List ResolvedBase} {placements : List Placement} {l : RecordLayout}
  (k : Course c.profile record bases placements l)

/-- The cursor in front of the field at position `i`, as numbers. -/
def cursorAt (i : Nat) : Ideal.Cursor := (k.filled i).cursor.toIdeal

/-! ### Bases -/

/-- The cursor in front of each base is valid. -/
theorem valid_based {i : Nat} (hi : i ≤ bases.length) :
    (k.based i).cursor.policy = c.profile.bitfieldPolicy ∧
      (k.based i).cursor.toIdeal.Valid c.profile.bitfieldPolicy := by
  induction i with
  | zero =>
    rw [k.based_zero]
    exact ⟨rfl, Ideal.Cursor.valid_start c.profile.bitfieldPolicy⟩
  | succ i ih =>
    obtain ⟨hpolicy, hvalid⟩ := ih (Nat.le_of_succ_le hi)
    have hplaces := k.placesBase (List.getElem?_eq_getElem hi)
    obtain ⟨hpolicy', hvalid'⟩ := hplaces.valid (hpolicy ▸ hvalid)
    rw [hpolicy', hpolicy] at hvalid'
    exact ⟨hpolicy'.trans hpolicy, hvalid'⟩

/-- A base starts behind the room taken so far, at the next multiple if its alignment is a power of
two, and the cursor is at its end. -/
theorem base_step {i : Nat} {base : ResolvedBase} (hget : bases[i]? = some base) :
    ∃ (offset : BitCount) (extent : Extent),
      (k.based (i + 1)).members = (k.based i).members ++ [⟨.base i, offset, extent⟩] ∧
      (k.based i).cursor.toIdeal.room c.profile.bitfieldPolicy ≤ offset.count ∧
      (base.layout.alignment.count.isPowerOfTwo → offset.count =
        nextMultiple ((k.based i).cursor.toIdeal.room c.profile.bitfieldPolicy)
          (8 * base.layout.alignment.count)) ∧
      (k.based (i + 1)).cursor.toIdeal = ⟨offset.count + extent.counted.count, none⟩ := by
  obtain ⟨hpolicy, hvalid⟩ := k.valid_based (List.getElem?_eq_some_iff.mp hget).1.le
  obtain ⟨alignment, size, offset, cursor, halign, hsize, hplaced, asked, -, hnext⟩ :=
    (k.placesBase hget).gains
  obtain ⟨-, hroom, -, hexact, hideal⟩ :=
    Cursor.placeWhole_eq_some (hpolicy ▸ hvalid) (halign ▸ Nat.dvd_mul_right 8 _) hplaced
  rw [hpolicy, halign] at hexact
  rw [hnext]
  exact ⟨offset, .bits size, rfl, hpolicy ▸ hroom,
    fun hpow => hexact (isPowerOfTwo_eight_mul hpow), hideal⟩

/-- Among the bases no unit is open, and all bases placed so far end in front of the cursor. -/
theorem stop_le_based {i : Nat} (hi : i ≤ bases.length) :
    (k.based i).cursor.toIdeal.openUnit = none ∧ ∀ m ∈ (k.based i).members,
      m.offset.count + m.extent.counted.count ≤ (k.based i).cursor.toIdeal.dataSize := by
  induction i with
  | zero =>
    rw [k.based_zero]
    exact ⟨rfl, fun _ hm => nomatch hm⟩
  | succ i ih =>
    obtain ⟨-, hstops⟩ := ih (Nat.le_of_succ_le hi)
    obtain ⟨-, hvalid⟩ := k.valid_based (Nat.le_of_succ_le hi)
    obtain ⟨offset, extent, hmembers, hroom, -, hcursor⟩ :=
      k.base_step (List.getElem?_eq_getElem hi)
    rw [hmembers, hcursor]
    refine ⟨rfl, fun m hm => ?_⟩
    rcases List.mem_append.mp hm with hm | hm
    · have hstop := hstops m hm
      have hle := Ideal.Cursor.dataSize_le_room hvalid
      exact ((hstop.trans hle).trans hroom).trans (Nat.le_add_right _ _)
    · cases List.mem_singleton.mp hm
      exact le_rfl

/-! ### Fields -/

section Fields

variable (h : c.Resolves answer record bases placements)
  (hframed : ∀ placement ∈ placements, placement.Framed)

include h

/-- What is placed in front of some field is a member of the layout. -/
theorem mem_members_of_mem_filled {i : Nat} (hi : i ≤ record.fields.length) {m : PlacedMember}
    (hm : m ∈ (k.filled i).members) : m ∈ l.members := by
  rw [k.finishes.members_eq]
  refine Nat.le_induction (P := fun j _ => j ≤ record.fields.length → m ∈ (k.filled j).members)
    (fun _ => hm) (fun j _ ih hj => ?_) record.fields.length hi le_rfl
  have hget : record.fields[j]? = some record.fields[j] := List.getElem?_eq_getElem hj
  obtain ⟨placement, hplacement, -⟩ := h.exists_placement hget
  exact (k.places hget hplacement).adds.isPrefix.subset (ih (Nat.le_of_succ_le hj))

/-- What is placed in front of some base is a member of the layout. -/
theorem mem_members_of_mem_based {i : Nat} (hi : i ≤ bases.length) {m : PlacedMember}
    (hm : m ∈ (k.based i).members) : m ∈ l.members := by
  refine k.mem_members_of_mem_filled h (Nat.zero_le _) ?_
  rw [k.filled_zero]
  refine Nat.le_induction (P := fun j _ => j ≤ bases.length → m ∈ (k.based j).members)
    (fun _ => hm) (fun j _ ih hj => ?_) bases.length hi le_rfl
  obtain ⟨offset, size, -, hmembers⟩ := (k.placesBase (List.getElem?_eq_getElem hj)).members_eq
  rw [hmembers]
  exact List.mem_append_left _ (ih (Nat.le_of_succ_le hj))

/-- The bases of the layout are placed in front of all fields. -/
theorem mem_filled_zero_of_base {m : PlacedMember} (hm : m ∈ l.members) {i : Nat}
    (hmember : m.member = .base i) : m ∈ (k.filled 0).members := by
  rw [k.finishes.members_eq] at hm
  rcases h.reaches_of_adds (fun i => (k.filled i).members)
    (fun _ _ _ hget hget' => (k.places hget hget').adds) le_rfl hm with hm | ⟨j, -, hj, -⟩
  · exact hm
  · cases hmember.symm.trans hj

/-- A placement is that of a field, and its step is taken. -/
theorem exists_places {i : Nat} {placement : Placement}
    (hplacement : placements[i]? = some placement) : i < record.fields.length ∧
      ∃ isNamed, (k.filled i).Places i isNamed placement (k.filled (i + 1)) := by
  have hlt := (List.getElem?_eq_some_iff.mp hplacement).1
  rw [h.fieldsResolve.length_eq] at hlt
  exact ⟨hlt, _, k.places (List.getElem?_eq_getElem hlt) hplacement⟩

include hframed

/-- **The cursors of a course are valid**, if bit-fields are over usable base types. -/
theorem valid_cursorAt {i : Nat} (hi : i ≤ record.fields.length) :
    (k.filled i).cursor.policy = c.profile.bitfieldPolicy ∧
      (k.cursorAt i).Valid c.profile.bitfieldPolicy := by
  induction i with
  | zero =>
    rw [cursorAt, k.filled_zero]
    exact k.valid_based le_rfl
  | succ i ih =>
    obtain ⟨hpolicy, hvalid⟩ := ih (Nat.le_of_succ_le hi)
    have hget : record.fields[i]? = some record.fields[i] := List.getElem?_eq_getElem hi
    obtain ⟨placement, hplacement, -⟩ := h.exists_placement hget
    obtain ⟨hpolicy', hvalid'⟩ := (k.places hget hplacement).valid
      (hframed _ (List.mem_of_getElem? hplacement)) (hpolicy ▸ hvalid)
    rw [hpolicy', hpolicy] at hvalid'
    exact ⟨hpolicy'.trans hpolicy, hvalid'⟩

/-- A member of whole bytes starts behind all room taken so far, at the next multiple if its
alignment is a power of two, and the cursor is at its end. -/
theorem whole_step {i : Nat} {layout : TypeLayout}
    (hplacement : placements[i]? = some (.bytes layout)) :
    ∃ m ∈ l.members, m.member = .field i ∧ (Placement.bytes layout).Reaches m.extent ∧
      (k.cursorAt i).room c.profile.bitfieldPolicy ≤ m.offset.count ∧
      (layout.alignment.count.isPowerOfTwo → m.offset.count =
        nextMultiple ((k.cursorAt i).room c.profile.bitfieldPolicy) (8 * layout.alignment.count)) ∧
      k.cursorAt (i + 1) = ⟨m.offset.count + m.extent.counted.count, none⟩ := by
  obtain ⟨hi, isNamed, hplaces⟩ := k.exists_places h hplacement
  obtain ⟨hpolicy, hvalid⟩ := k.valid_cursorAt h hframed hi.le
  obtain ⟨alignment, offset, extent, cursor, halign, hreaches, hplaced, asked, -, hnext⟩ :=
    hplaces.bytes
  obtain ⟨-, hroom, -, hexact, hideal⟩ :=
    Cursor.placeWhole_eq_some (hpolicy ▸ hvalid) (halign ▸ Nat.dvd_mul_right 8 _) hplaced
  rw [hpolicy, halign] at hexact
  refine ⟨⟨.field i, offset, extent⟩, k.mem_members_of_mem_filled h hi (by simp [hnext]), rfl,
    hreaches, hpolicy ▸ hroom, fun hpow => hexact (isPowerOfTwo_eight_mul hpow), ?_⟩
  rw [cursorAt, hnext]
  exact hideal

/-- A bit-field is where the ideal step puts it. -/
theorem bits_step {i : Nat} {b : Bitfield} (hplacement : placements[i]? = some (.bitfield b)) :
    ∃ m ∈ l.members, m.member = .field i ∧ m.extent = .bits b.width ∧
      (k.cursorAt i).placeBits c.profile.bitfieldPolicy b.underlying b.width.count =
        (m.offset.count, k.cursorAt (i + 1)) := by
  obtain ⟨hi, isNamed, hplaces⟩ := k.exists_places h hplacement
  obtain ⟨hpolicy, hvalid⟩ := k.valid_cursorAt h hframed hi.le
  obtain ⟨hp, hpos, hw⟩ := hframed _ (List.mem_of_getElem? hplacement)
  obtain ⟨offset, cursor, hplaced, asked, -, hnext⟩ := hplaces.bitfield
  obtain ⟨-, hoffset, hideal⟩ :=
    Cursor.placeBits_eq_some (hpolicy ▸ hvalid) hp hpos hw hplaced
  refine ⟨⟨.field i, offset, .bits b.width⟩,
    k.mem_members_of_mem_filled h hi (by simp [hnext]), rfl, rfl, ?_⟩
  rw [← hpolicy, cursorAt, cursorAt, hnext]
  exact Prod.ext hoffset.symm hideal.symm

/-- A zero-width bit-field moves the cursor as the ideal step does. -/
theorem break_step {i : Nat} {p : Primitive} (hplacement : placements[i]? = some (.zeroWidth p)) :
    k.cursorAt (i + 1) = (k.cursorAt i).breakRun c.profile.bitfieldPolicy p := by
  obtain ⟨hi, isNamed, hplaces⟩ := k.exists_places h hplacement
  obtain ⟨hpolicy, hvalid⟩ := k.valid_cursorAt h hframed hi.le
  obtain ⟨cursor, hbreak, hnext⟩ := hplaces.zeroWidth
  obtain ⟨-, hideal⟩ := Cursor.breakRun_eq_some (hpolicy ▸ hvalid)
    (hframed _ (List.mem_of_getElem? hplacement)) hbreak
  rw [← hpolicy, cursorAt, cursorAt, hnext]
  exact hideal

/-- The size covers the room that the members take. -/
theorem room_le : (k.cursorAt record.fields.length).room c.profile.bitfieldPolicy ≤
    8 * l.size.count := by
  obtain ⟨hpolicy, hvalid⟩ := k.valid_cursorAt h hframed le_rfl
  rw [← hpolicy]
  exact k.finishes.room_le (hpolicy ▸ hvalid)

end Fields

end StructDraft.Course

end AbiLayout
