import AbiLayout.Proofs.Agreement.Bits
import AbiLayout.Proofs.Alike
import AbiLayout.Proofs.Building
import AbiLayout.Proofs.Overlays
import AbiLayout.Proofs.Simulation

/-!
# The fields of a union in another order

Take a schema, and the same schema with the fields of one union in another order. The records that
the union contains are the same in both, since none of them contains the union, and are laid out by
the same programs. A field of a union is accepted or refused wherever it is declared, and the three
maxima do not depend on the order. So the union has a layout in both schemas or in neither, and the
two layouts are the same up to the numbers of the fields.

## Main definitions

* `Record.Reorders`: a record with its fields in another order.
* `Schema.withRecord`: a schema with one record exchanged.
* `RecordLayout.Reorders`: a layout with its fields renumbered.

## Main results

* `LayoutContext.simulates_resolveField_of_union`: a union accepts a field at every position.
* `LayoutContext.exists_reorders`: from the layout of a union to that in another order.
* `Declarations.close_withBody`: declarations are accepted in every order of fields.
* `LayoutContext.answerWithin_withRecord`: other records are answered alike.
* `Session.Reachable.record_overlays`: unions overlay their members, in every order alike.
-/

namespace AbiLayout

/-! ### Another order -/

/-- The record `record'` is `record` with its fields in another order: the field at position `i` of
`record` is at position `σ i`. -/
structure Record.Reorders (σ : Equiv.Perm Nat) (record record' : Record) : Prop where
  name_eq : record'.name = record.name
  kind_eq : record'.kind = record.kind
  bases_eq : record'.bases = record.bases
  getElem?_eq : ∀ i, record'.fields[σ i]? = record.fields[i]?

namespace Record.Reorders

variable {σ : Equiv.Perm Nat} {record record' : Record}

theorem refl (record : Record) : Reorders (Equiv.refl Nat) record record :=
  ⟨rfl, rfl, rfl, fun _ => rfl⟩

theorem symm (h : Reorders σ record record') : Reorders σ.symm record' record where
  name_eq := h.name_eq.symm
  kind_eq := h.kind_eq.symm
  bases_eq := h.bases_eq.symm
  getElem?_eq i := by rw [← h.getElem?_eq, Equiv.apply_symm_apply]

/-- The fields are the same. -/
theorem mem_fields_iff (h : Reorders σ record record') {field : Field} :
    field ∈ record'.fields ↔ field ∈ record.fields := by
  rw [List.mem_iff_getElem?, List.mem_iff_getElem?]
  exact (σ.exists_congr fun i => by rw [h.getElem?_eq]).symm

/-- A field that takes a place takes one at its new position. -/
theorem placesField_eq (h : Reorders σ record record') (i : Nat) :
    record'.placesField (σ i) = record.placesField i := by
  rw [placesField, placesField, h.getElem?_eq]

/-- The contained records are the same. -/
theorem mem_contained_iff (h : Reorders σ record record') {r : RecordId} :
    r ∈ record'.contained ↔ r ∈ record.contained := by
  rw [Record.mem_contained_iff, Record.mem_contained_iff, h.bases_eq]
  simp only [h.mem_fields_iff]

end Record.Reorders

/-- The permutation that keeps the first position and moves those behind it. -/
def keepFirst (σ : Equiv.Perm Nat) : Equiv.Perm Nat where
  toFun
    | 0 => 0
    | i + 1 => σ i + 1
  invFun
    | 0 => 0
    | i + 1 => σ.symm i + 1
  left_inv i := by cases i <;> simp
  right_inv i := by cases i <;> simp

/-- The entries of a list in another order are found where a permutation leads. -/
theorem exists_getElem?_eq_of_perm {α : Type} {xs ys : List α} (h : xs.Perm ys) :
    ∃ σ : Equiv.Perm Nat, ∀ i, ys[σ i]? = xs[i]? := by
  induction h with
  | nil => exact ⟨Equiv.refl Nat, fun _ => rfl⟩
  | cons x _ ih =>
    obtain ⟨σ, hσ⟩ := ih
    refine ⟨keepFirst σ, fun i => ?_⟩
    cases i with
    | zero => rfl
    | succ i => exact hσ i
  | swap x y xs =>
    refine ⟨Equiv.swap 0 1, fun i => ?_⟩
    match i with
    | 0 => rfl
    | 1 => rfl
    | i + 2 => rw [Equiv.swap_apply_of_ne_of_ne (by omega) (by omega)]; rfl
  | trans _ _ ih₁ ih₂ =>
    obtain ⟨σ, hσ⟩ := ih₁
    obtain ⟨τ, hτ⟩ := ih₂
    exact ⟨σ.trans τ, fun i => (hτ (σ i)).trans (hσ i)⟩

/-- Every list of the same fields is another order. -/
theorem Record.exists_reorders_of_perm (record : Record) {fields : List Field}
    (h : record.fields.Perm fields) : ∃ σ, record.Reorders σ { record with fields } := by
  obtain ⟨σ, hσ⟩ := exists_getElem?_eq_of_perm h
  exact ⟨σ, rfl, rfl, rfl, hσ⟩

/-- The member, with fields renumbered. -/
def Member.renumber (f : Nat → Nat) : Member → Member
  | base i => base i
  | field i => field (f i)

/-- The member where it is, with fields renumbered. -/
def PlacedMember.renumber (f : Nat → Nat) (m : PlacedMember) : PlacedMember :=
  { m with member := m.member.renumber f }

/-- Renumbering is undone by renumbering back. -/
theorem PlacedMember.renumber_symm_renumber (σ : Equiv.Perm Nat) (m : PlacedMember) :
    (m.renumber σ).renumber σ.symm = m := by
  obtain ⟨member, offset, extent⟩ := m
  cases member with
  | base i => rfl
  | field i => simp [renumber, Member.renumber]

theorem PlacedMember.renumber_injective (σ : Equiv.Perm Nat) :
    Function.Injective (PlacedMember.renumber σ) :=
  Function.LeftInverse.injective (renumber_symm_renumber σ)

/-- The layout `l'` is `l` with the field at each position `i` at position `σ i`. -/
structure RecordLayout.Reorders (σ : Equiv.Perm Nat) (l l' : RecordLayout) : Prop where
  kind_eq : l'.kind = l.kind
  size_eq : l'.size = l.size
  alignment_eq : l'.alignment = l.alignment
  dataSize_eq : l'.dataSize = l.dataSize
  members_perm : l'.members.Perm (l.members.map (PlacedMember.renumber σ))
  padding_eq : l'.padding = l.padding
  hasFlexibleTail_eq : l'.hasFlexibleTail = l.hasFlexibleTail

/-- A placed field has one extent. -/
theorem Placement.Reaches.unique {placement : Placement} {extent extent' : Extent}
    (h : placement.Reaches extent) (h' : placement.Reaches extent') : extent = extent' := by
  cases placement with
  | zeroWidth p => exact h.elim
  | bitfield b => exact h.trans h'.symm
  | bytes layout =>
    cases extent with
    | bits length =>
      cases extent' with
      | bits length' => exact congrArg Extent.bits (Quantity.ext (h.2.trans h'.2.symm))
      | unbounded => exact absurd h' h.1
    | unbounded =>
      cases extent' with
      | bits length' => exact absurd h h'.1
      | unbounded => rfl

/-! ### Fields at other positions -/

namespace LayoutContext

open LayoutT

variable {c : LayoutContext} {answer : RecordId → Except Trap Answer} {record record' : Record}

/-- A bit-field is accepted in every record and at every position, or in none. -/
theorem simulates_resolveBitfield_of_eq (i i' : Nat) (field : Field) (b : Bitfield) :
    Simulates answer answer Eq (resolveBitfield record i field b)
      (resolveBitfield record' i' field b) := by
  unfold resolveBitfield
  refine .guard (.guard ?_)
  split
  · exact (simulates_refl _).guard
  · refine (simulates_refl _).bind ?_
    rintro max _ rfl
    exact (simulates_refl _).guard

theorem simulates_resolveMember_of_eq (member member' : String) (ty : Ty) :
    Simulates answer answer Eq (c.resolveMember record member ty)
      (c.resolveMember record' member' ty) :=
  fun l h => ⟨l, resolveMember_eq_ok_iff.mpr (resolveMember_eq_ok_iff.mp h), rfl⟩

theorem simulates_requireSizedElements_of_eq (member member' : String) (ty : Ty) :
    Simulates answer answer Eq (c.requireSizedElements record member ty)
      (c.requireSizedElements record' member' ty) := by
  induction ty with
  | primitive | bitfield | voidPointer | pointerTo | record => exact simulates_refl _
  | array element count ih =>
    refine (simulates_resolveMember_of_eq member member' element).bind ?_
    rintro layout _ rfl
    exact ih.guard

/-- **A union accepts a field at every position** or at none. -/
theorem simulates_resolveField_of_union (hkind : record.kind = .union)
    (hkind' : record'.kind = .union) (i i' : Nat) (field : Field) :
    Simulates answer answer Eq (c.resolveField record i field)
      (c.resolveField record' i' field) := by
  unfold resolveField
  split
  · exact simulates_resolveBitfield_of_eq i i' field _
  · refine (simulates_requireSizedElements_of_eq _ _ _).bind fun _ _ _ => ?_
    refine (simulates_resolveMember_of_eq _ _ _).bind ?_
    rintro layout _ rfl
    cases hcheck : checkPosition record' i' (field.label i') layout with
    | error e => exact simulates_throw _ e
    | ok =>
      have hsized := (checkPosition_eq_ok_iff.mp hcheck).1 hkind'
      have hposition : checkPosition record i (field.label i) layout = .ok () :=
        checkPosition_eq_ok_iff.mpr
          ⟨fun _ => hsized, fun hstruct => nomatch hkind.symm.trans hstruct⟩
      rw [hposition]
      exact simulates_refl _

/-- Fields that are accepted one by one are accepted. -/
theorem exists_fieldsResolve {fields : List Field} {i : Nat}
    (h : ∀ j field, fields[j]? = some field → ∃ placement,
      value answer (c.resolveField record (i + j) field) = .ok (.ok placement)) :
    ∃ placements, c.FieldsResolve answer record i fields placements := by
  induction fields generalizing i with
  | nil => exact ⟨[], trivial⟩
  | cons field fields ih =>
    obtain ⟨placement, hplacement⟩ := h 0 field rfl
    obtain ⟨placements, hrest⟩ := ih (i := i + 1) fun j later hget => by
      rw [Nat.add_right_comm i 1 j]
      exact h (j + 1) later hget
    exact ⟨placement :: placements, hplacement, hrest⟩

variable {σ : Equiv.Perm Nat} {bases : List StructDraft.ResolvedBase} {placements : List Placement}
  {l : RecordLayout}

/-- The fields of a union are accepted in every order, or in none. -/
theorem Resolves.exists_resolves (h : c.Resolves answer record bases placements)
    (hkind : record.kind = .union) (hreorders : record.Reorders σ record') :
    ∃ placements', c.Resolves answer record' [] placements' := by
  have hkind' : record'.kind = .union := hreorders.kind_eq.trans hkind
  obtain ⟨placements', hfields⟩ :
      ∃ placements', c.FieldsResolve answer record' 0 record'.fields placements' := by
    refine exists_fieldsResolve fun j field hget => ?_
    obtain ⟨i, hi⟩ :=
      List.getElem?_of_mem (hreorders.mem_fields_iff.mp (List.mem_of_getElem? hget))
    obtain ⟨placement, -, hvalue⟩ := h.exists_placement hi
    obtain ⟨_, hvalue', -⟩ :=
      simulates_resolveField_of_union hkind' hkind (0 + j) i field placement hvalue
    exact ⟨_, hvalue'⟩
  have hne (hstruct : record'.kind = .struct) : False := nomatch hkind'.symm.trans hstruct
  exact ⟨placements', fun hstruct => (hne hstruct).elim, fun hstruct => (hne hstruct).elim,
    fun _ => rfl, hfields⟩

/-- In another order, the fields are placed as they were. -/
theorem Resolves.mem_zip_iff_of_reorders {bases' : List StructDraft.ResolvedBase}
    {placements' : List Placement} (h : c.Resolves answer record bases placements)
    (h' : c.Resolves answer record' bases' placements') (hreorders : record.Reorders σ record')
    {z : Field × Placement} :
    z ∈ record'.fields.zip placements' ↔ z ∈ record.fields.zip placements := by
  rw [h'.mem_zip_iff, h.mem_zip_iff, hreorders.mem_fields_iff]

/-! ### Layouts in another order -/

section Members

variable {bases' : List StructDraft.ResolvedBase} {placements' : List Placement}
  {l' : RecordLayout} (h : c.Resolves answer record bases placements)
  (h' : c.Resolves answer record' bases' placements') (hreorders : record.Reorders σ record')
  (hbases : record.bases = []) (hlists : l.Lists record bases placements)
  (hlists' : l'.Lists record' bases' placements')
  (hoffset : ∀ m ∈ l.members, m.offset.count = 0)
  (hoffset' : ∀ m ∈ l'.members, m.offset.count = 0)

include h h' hreorders hbases hlists hlists' hoffset hoffset'

/-- A member of a union is in the layout in another order, under its new position. -/
theorem Resolves.renumber_mem {m : PlacedMember} (hm : m ∈ l.members) :
    m.renumber σ ∈ l'.members := by
  have hplaced := hlists.member_mem hm
  cases hmember : m.member with
  | base i =>
    rw [hmember, Record.base_mem_placedMembers, hbases] at hplaced
    cases hplaced
  | field i =>
    rw [hmember, Record.field_mem_placedMembers] at hplaced
    obtain ⟨field, hget, -⟩ := (Option.any_eq_true _ _).mp hplaced
    rw [← hreorders.placesField_eq, ← Record.field_mem_placedMembers,
      ← hlists'.exists_member?_iff] at hplaced
    obtain ⟨m', hfound⟩ := hplaced
    obtain ⟨hm', hmember'⟩ := RecordLayout.mem_of_member? hfound
    obtain ⟨placement, hvalue, hreaches⟩ :=
      h.field_reaches hlists hget (hlists.member?_eq_some_iff.mpr ⟨hm, hmember⟩)
    obtain ⟨placement', hvalue', hreaches'⟩ :=
      h'.field_reaches hlists' ((hreorders.getElem?_eq i).trans hget) hfound
    obtain rfl : placement = placement' := Option.some.inj
      ((resolveField_placement? hvalue).symm.trans (resolveField_placement? hvalue'))
    have heq : m' = m.renumber σ := by
      obtain ⟨member, offset, extent⟩ := m
      obtain ⟨member', offset', extent'⟩ := m'
      obtain rfl : offset = offset' := Quantity.ext ((hoffset _ hm).trans (hoffset' _ hm').symm)
      obtain rfl : extent = extent' := hreaches.unique hreaches'
      cases hmember
      cases hmember'
      rfl
    exact heq ▸ hm'

/-- The members of a union in another order are those it has, renumbered. -/
theorem Resolves.members_perm : l'.members.Perm (l.members.map (PlacedMember.renumber σ)) := by
  have hnodup : l.members.Nodup := .of_map _ (hlists.members_eq ▸ record.nodup_placedMembers)
  have hnodup' : l'.members.Nodup := .of_map _ (hlists'.members_eq ▸ record'.nodup_placedMembers)
  refine (List.perm_ext_iff_of_nodup hnodup'
    (hnodup.map (PlacedMember.renumber_injective σ))).mpr fun m' => ?_
  rw [List.mem_map]
  constructor
  · intro hm'
    exact ⟨m'.renumber σ.symm, h'.renumber_mem h hreorders.symm (hreorders.bases_eq.trans hbases)
      hlists' hlists hoffset' hoffset hm', PlacedMember.renumber_symm_renumber σ.symm m'⟩
  · rintro ⟨m, hm, rfl⟩
    exact h.renumber_mem h' hreorders hbases hlists hlists' hoffset hoffset' hm

end Members

/-- Unions whose members are the same up to their numbers use the same bits. -/
theorem dataSize_eq_of_perm {placements' : List Placement} {d d' : UnionDraft}
    (hideal : d.toIdeal = Ideal.unionDraft record placements)
    (hideal' : d'.toIdeal = Ideal.unionDraft record' placements')
    (hperm : d'.members.Perm (d.members.map (PlacedMember.renumber σ))) :
    d'.dataSize = d.dataSize := by
  have hgreatest := UnionDraft.isGreatest_dataSize_of_toIdeal hideal
  have hgreatest' := UnionDraft.isGreatest_dataSize_of_toIdeal hideal'
  have hmembers (n : Nat) : (∃ m ∈ d'.members, n = m.extent.counted.count) ↔
      ∃ m ∈ d.members, n = m.extent.counted.count := by
    simp [hperm.mem_iff, PlacedMember.renumber]
  simp only [hmembers] at hgreatest'
  exact Quantity.ext (hgreatest'.unique hgreatest)

/-- **From the layout of a union to that in another order.** -/
theorem exists_reorders (hkind : record.kind = .union) (hbases : record.bases = [])
    (hreorders : record.Reorders σ record')
    (hl : value answer (c.layoutByKind record) = .ok (.ok l)) :
    ∃ l', value answer (c.layoutByKind record') = .ok (.ok l') ∧ l.Reorders σ l' := by
  have hkind' : record'.kind = .union := hreorders.kind_eq.trans hkind
  obtain ⟨bases, placements, h⟩ := layoutByKind_resolves hl
  obtain ⟨placements', h'⟩ := h.exists_resolves hkind hreorders
  have hzip (z : Field × Placement) := h.mem_zip_iff_of_reorders h' hreorders (z := z)
  have hbounded : ∀ placement ∈ placements', placement.Bounded := by
    intro placement hmem
    obtain ⟨j, field, hget, hvalue⟩ := h'.fieldsResolve.exists_field hmem
    have hz : (field, placement) ∈ record'.fields.zip placements' :=
      h'.mem_zip_iff.mpr ⟨List.mem_of_getElem? hget, resolveField_placement? hvalue⟩
    exact (h.membersFit hl).unionField hkind placement (List.of_mem_zip ((hzip _).mp hz)).2
  obtain ⟨d, hideal, hfinishes⟩ := h.exists_unionDraft hkind hl
  obtain ⟨d', hideal', hfinishes'⟩ := h'.exists_unionDraft_of_bounded hkind' hbounded
  -- the size and the alignment are the same, and the rest of the layout follows from them
  obtain ⟨hsize, halignment⟩ := UnionDraft.congr_of_toIdeal hideal hideal' hzip
  let l' : RecordLayout :=
    ⟨.union, l.size, d'.alignment, d'.dataSize, d'.members, l.padding, d'.hasFlexibleTail⟩
  have hl' : value answer (c.layoutByKind record') = .ok (.ok l') := by
    refine hfinishes' l' ⟨rfl, rfl, rfl, rfl, rfl, ?_, ?_⟩
    · rw [hsize, halignment]
      exact hfinishes.size_eq
    · rw [UnionDraft.padding, hsize]
      exact hfinishes.padding_eq
  have hunion (_ : record.kind = .union) := hbases
  have hunion' (_ : record'.kind = .union) := hreorders.bases_eq.trans hbases
  have hperm : l'.members.Perm (l.members.map (PlacedMember.renumber σ)) := by
    refine h.members_perm h' hreorders hbases (h.lists hunion hl) (h'.lists hunion' hl') ?_
      (UnionDraft.offset_eq_zero_of_toIdeal hideal')
    rw [hfinishes.members_eq]
    exact UnionDraft.offset_eq_zero_of_toIdeal hideal
  refine ⟨l', hl', hfinishes.kind_eq.symm, rfl, ?_, ?_, hperm, rfl, ?_⟩
  · exact halignment.trans hfinishes.alignment_eq.symm
  · rw [hfinishes.members_eq] at hperm
    exact (dataSize_eq_of_perm hideal hideal' hperm).trans hfinishes.dataSize_eq.symm
  · rw [Bool.eq_iff_iff, h.hasFlexibleTail_iff hunion hl, h'.hasFlexibleTail_iff hunion' hl',
      Record.EndsOpen, Record.EndsOpen, hkind, hkind']
    simp only [hreorders.mem_fields_iff]

end LayoutContext

/-- A union in another order passes the check of layouts if it passed it before. -/
theorem RecordLayout.Reorders.accounted {σ : Equiv.Perm Nat} {l l' : RecordLayout}
    (h : l.Reorders σ l') (hkind : l.kind = .union) (hl : l.Accounted) : l'.Accounted where
  alignment_isPowerOfTwo := h.alignment_eq ▸ hl.alignment_isPowerOfTwo
  alignment_dvd := h.alignment_eq ▸ h.size_eq ▸ hl.alignment_dvd
  bits_lt := h.size_eq ▸ hl.bits_lt
  padding_stop_le := h.padding_eq ▸ h.size_eq ▸ hl.padding_stop_le
  tallied hstruct := nomatch (h.kind_eq.trans hkind).symm.trans hstruct
  offset_eq _ m' hm' := by
    obtain ⟨m, hm, rfl⟩ := List.mem_map.mp (h.members_perm.mem_iff.mp hm')
    exact hl.offset_eq hkind m hm

/-! ### One record exchanged -/

/-- The schema with one record exchanged. -/
def Schema.withRecord (s : Schema) (r : RecordId) (record : Record) : Schema :=
  { s with records := s.records.modify r fun _ => record }

/-- Records that are layered stay so, if none of them contains more. -/
theorem Layered.mono {records records' : Arena RecordId Record} {rs : List RecordId}
    (h : Layered records rs)
    (hcontains : ∀ r, records.contains r = true → records'.contains r = true)
    (hcontained : ∀ r, ∀ r' ∈ containedIn records' r, r' ∈ containedIn records r) :
    Layered records' rs := by
  induction rs with
  | nil => trivial
  | cons r rs ih =>
    obtain ⟨hr, hbehind, htail⟩ := h
    exact ⟨hcontains r hr, fun r' hr' => hbehind r' (hcontained r r' hr'), ih htail⟩

namespace Schema

variable {s : Schema} {r : RecordId} {record record' : Record} {σ : Equiv.Perm Nat}

theorem get?_withRecord_of_ne {q : RecordId} (hq : q ≠ r) :
    (s.withRecord r record').records.get? q = s.records.get? q := by
  rw [withRecord, Arena.get?_modify, if_neg (mt ArenaKey.index_inj.mp hq.symm)]

theorem contains_withRecord (q : RecordId) :
    (s.withRecord r record').records.contains q = s.records.contains q := by
  rw [Arena.contains, Arena.contains, Arena.size, Arena.size, withRecord, Arena.modify,
    Array.size_modify]

section Reordered

variable (hrecord : s.records.get? r = some record) (hreorders : record.Reorders σ record')

include hrecord

theorem get?_withRecord_self : (s.withRecord r record').records.get? r = some record' := by
  rw [withRecord, Arena.get?_modify, if_pos rfl, hrecord, Option.map_some]

include hreorders

/-- A record is what it was, or the one that is exchanged. -/
theorem exists_of_get?_withRecord {q : RecordId} {found' : Record}
    (h : (s.withRecord r record').records.get? q = some found') :
    ∃ found σ, s.records.get? q = some found ∧ found.Reorders σ found' := by
  by_cases hq : q = r
  · subst hq
    cases (get?_withRecord_self hrecord).symm.trans h
    exact ⟨record, σ, hrecord, hreorders⟩
  · rw [get?_withRecord_of_ne hq] at h
    exact ⟨found', Equiv.refl Nat, h, .refl found'⟩

/-- Every record contains what it contained. -/
theorem containedIn_withRecord (q q' : RecordId)
    (h : q' ∈ containedIn (s.withRecord r record').records q) : q' ∈ containedIn s.records q := by
  rw [containedIn] at h ⊢
  split at h
  · rename_i found' hfound'
    obtain ⟨found, σ, hfound, hreorders⟩ := exists_of_get?_withRecord hrecord hreorders hfound'
    rw [hfound]
    exact hreorders.mem_contained_iff.mp h
  · cases h

/-- The schema stays closed. -/
theorem Closed.withRecord (hclosed : s.Closed) : (s.withRecord r record').Closed := by
  refine ⟨fun q found' hfound' base hbase => ?_, fun q found' hfound' field hfield => ?_,
    fun q found' hfound' hkind => ?_, ?_⟩
  · obtain ⟨found, σ, hfound, hreorders⟩ := exists_of_get?_withRecord hrecord hreorders hfound'
    rw [contains_withRecord]
    exact hclosed.base q found hfound base (hreorders.bases_eq ▸ hbase)
  · obtain ⟨found, σ, hfound, hreorders⟩ := exists_of_get?_withRecord hrecord hreorders hfound'
    have hdeclares := hclosed.field q found hfound field (hreorders.mem_fields_iff.mp hfield)
    rw [declares_iff] at hdeclares ⊢
    simpa only [contains_withRecord] using hdeclares
  · obtain ⟨found, σ, hfound, hreorders⟩ := exists_of_get?_withRecord hrecord hreorders hfound'
    exact hreorders.bases_eq.trans
      (hclosed.unionBases q found hfound (hreorders.kind_eq.symm.trans hkind))
  · obtain ⟨order, horder, hnodup, hmem⟩ := hclosed.layered
    exact ⟨order, horder.mono (fun q => (contains_withRecord q).trans)
      (containedIn_withRecord hrecord hreorders), hnodup,
      fun q hq => hmem q ((contains_withRecord q).symm.trans hq)⟩

/-- The schemas are alike. -/
theorem alike_withRecord : s.Alike (s.withRecord r record') := by
  refine ⟨rfl, rfl, fun q => ?_⟩
  rw [Schema.record, Schema.record, Arena.get, Arena.get]
  by_cases hq : q = r
  · subst hq
    rw [hrecord, get?_withRecord_self hrecord]
    exact .ok ⟨hreorders.kind_eq.symm, by rw [Record.label, Record.label, hreorders.name_eq]⟩
  · rw [get?_withRecord_of_ne hq]
    exact .refl (fun _ => ⟨rfl, rfl⟩) _

/-- A record is there as it was, or in another order. -/
theorem exists_get?_withRecord {q : RecordId} {found : Record}
    (h : s.records.get? q = some found) : ∃ found' σ,
      (s.withRecord r record').records.get? q = some found' ∧ found.Reorders σ found' := by
  by_cases hq : q = r
  · subst hq
    cases hrecord.symm.trans h
    exact ⟨record', σ, get?_withRecord_self hrecord, hreorders⟩
  · exact ⟨found, Equiv.refl Nat, (get?_withRecord_of_ne hq).trans h, .refl found⟩

/-- Records in order are so in every order of their fields. -/
theorem inOrder_withRecord {found found' : Record} {τ : Equiv.Perm Nat}
    (hfound : found.Reorders τ found') (h : found.InOrder s.records) :
    found'.InOrder (s.withRecord r record').records where
  unionBases hkind := hfound.bases_eq.trans (h.unionBases (hfound.kind_eq.symm.trans hkind))
  base base hbase := by
    obtain ⟨baseRecord, hget, hkind⟩ := h.base base (hfound.bases_eq ▸ hbase)
    obtain ⟨baseRecord', σ, hget', hbaseRecord⟩ := exists_get?_withRecord hrecord hreorders hget
    exact ⟨baseRecord', hget', hbaseRecord.kind_eq.trans hkind⟩
  mentions field hfield q hq :=
    (contains_withRecord q).trans (h.mentions field (hfound.mem_fields_iff.mp hfield) q hq)
  anonymous field hfield := h.anonymous field (hfound.mem_fields_iff.mp hfield)

end Reordered

end Schema

section Declared

variable {d : Declarations} {s : Schema} {r : RecordId} {record record' : Record}
  {σ : Equiv.Perm Nat} (hrecord : s.records.get? r = some record)
  (hreorders : record.Reorders σ record')

include hrecord hreorders

/-- The declarations with one record in another order describe it in that order, and all others as
they were. -/
theorem Declarations.mapM_withBody
    (h : d.records.mapM (fun _ declaration => declaration.record) = .ok s.records) :
    (d.withBody r (record'.bases, record'.fields)).records.mapM
        (fun _ declaration => declaration.record) =
      .ok (s.withRecord r record').records := by
  obtain ⟨hlength, hmap⟩ := Arena.mapM_eq_ok h
  refine Arena.mapM_eq_ok_iff.mpr ⟨?_, fun q declaration hget => ?_⟩
  · simpa [Schema.withRecord, withBody, Arena.size, Arena.modify] using hlength
  · rw [withBody, Arena.get?_modify] at hget
    by_cases hq : r = q
    · subst hq
      rw [if_pos rfl] at hget
      obtain ⟨⟨name, kind, body⟩, hdeclared, rfl⟩ := Option.map_eq_some_iff.mp hget
      obtain ⟨found, hfound, hget⟩ := hmap r _ hdeclared
      cases hrecord.symm.trans hget
      refine ⟨record', ?_, Schema.get?_withRecord_self hrecord⟩
      cases body with
      | none => cases hfound
      | some body =>
        cases hfound
        obtain ⟨name', kind', bases', fields'⟩ := record'
        cases hreorders.name_eq
        cases hreorders.kind_eq
        rfl
    · rw [if_neg (mt ArenaKey.index_inj.mp hq)] at hget
      obtain ⟨found, hfound, hget⟩ := hmap q declaration hget
      exact ⟨found, hfound, (Schema.get?_withRecord_of_ne (Ne.symm hq)).trans hget⟩

/-- **Declarations are accepted in every order of fields**, and describe the schema with the fields
in that order. -/
theorem Declarations.close_withBody (hclose : d.close = .ok s) :
    (d.withBody r (record'.bases, record'.fields)).close = .ok (s.withRecord r record') := by
  obtain ⟨hclosed, -⟩ := close_closed hclose
  obtain ⟨hrecords, horder, -, hsize, halignment⟩ := close_eq_ok_iff.mp hclose
  have horder' (q : RecordId) (found' : Record)
      (hfound' : (s.withRecord r record').records.get? q = some found') :
      found'.InOrder (s.withRecord r record').records := by
    obtain ⟨found, τ, hfound, hτ⟩ := Schema.exists_of_get?_withRecord hrecord hreorders hfound'
    exact Schema.inOrder_withRecord hrecord hreorders hτ (horder q found hfound)
  have hcontains (q q' : RecordId) (h : Contains (s.withRecord r record').records q q') :
      Contains s.records q q' :=
    mem_containedIn_iff.mp
      (Schema.containedIn_withRecord hrecord hreorders q q' (mem_containedIn_iff.mpr h))
  have hcycle : firstCycle? (s.withRecord r record').records = none := by
    refine (firstCycle?_eq_none_iff fun _ _ => History.contains_of_inOrder horder').mpr ?_
    exact fun q hq => not_transGen_self hclosed.wellFounded q (.mono hcontains _ _ hq)
  exact close_eq_ok_iff.mpr
    ⟨mapM_withBody hrecord hreorders hrecords, horder', hcycle, hsize, halignment⟩

end Declared

/-! ### Both schemas -/

namespace LayoutContext

open LayoutT Relation

variable {s : Schema} {profile : Profile} {r : RecordId} {record record' : Record}
  {σ : Equiv.Perm Nat}

/-- A record has a layout for an answer exactly if its program ends in that layout and the layout
passes its check. -/
theorem answer_eq_ok_iff {c : LayoutContext} (hclosed : c.schema.Closed)
    (hrecord : c.schema.records.get? r = some record) {l : RecordLayout} :
    c.answer r = .ok (.ok l) ↔
      value c.answer (c.layoutByKind record) = .ok (.ok l) ∧ l.Accounted := by
  constructor
  · intro h
    exact ⟨value_layoutByKind_of_answer hclosed hrecord h,
      HasAnswer.accounted ((hasAnswer_iff hclosed).mpr h)⟩
  · rintro ⟨h, haccounted⟩
    rw [answer_eq hclosed]
    exact value_recordLayout_of_ok hrecord h (RecordLayout.flaw?_eq_none_iff.mpr haccounted)

section Reordered

variable (hrecord : s.records.get? r = some record) (hreorders : record.Reorders σ record')

include hrecord hreorders

/-- Records are laid out by the same programs in both schemas. -/
theorem layoutByKind_withRecord (found : Record) :
    layoutByKind ⟨s.withRecord r record', profile⟩ found = layoutByKind ⟨s, profile⟩ found := by
  have halike : (LayoutContext.mk s profile).schema.Alike
      (LayoutContext.mk (s.withRecord r record') profile).schema :=
    Schema.alike_withRecord hrecord hreorders
  exact (layoutByKind_congr halike found rfl).symm

/-- **Other records are answered alike**, if they do not contain the one that is exchanged. -/
theorem answerWithin_withRecord (depth : Nat) {q : RecordId}
    (hq : ¬ReflTransGen (Contains s.records) q r) :
    answerWithin ⟨s.withRecord r record', profile⟩ depth q =
      answerWithin ⟨s, profile⟩ depth q := by
  induction depth generalizing q with
  | zero => rfl
  | succ depth ih =>
    have hne : q ≠ r := fun heq => hq (heq ▸ .refl)
    have hfound : (s.withRecord r record').record q = s.record q := by
      rw [Schema.record, Schema.record, Arena.get, Arena.get, Schema.get?_withRecord_of_ne hne]
    have hprogram : recordLayout ⟨s.withRecord r record', profile⟩ q =
        recordLayout ⟨s, profile⟩ q := by
      rw [recordLayout, recordLayout, hfound]
      simp only [layoutByKind_withRecord hrecord hreorders]
    rw [answerWithin, answerWithin, hprogram]
    exact (confined_recordLayout q).value_congr fun q' hq' =>
      ih fun hreaches => hq (.head hq' hreaches)

/-- The program of the union in another order finds the records that it asks for as they were. -/
theorem value_layoutByKind_withRecord (hclosed : s.Closed) :
    value (answer ⟨s.withRecord r record', profile⟩)
        (layoutByKind ⟨s.withRecord r record', profile⟩ record') =
      value (answer ⟨s, profile⟩) (layoutByKind ⟨s, profile⟩ record') := by
  rw [layoutByKind_withRecord hrecord hreorders]
  have hconfined : Confined (· ∈ record'.contained) record'.Warns
      (layoutByKind ⟨s, profile⟩ record') := confined_layoutByKind fun _ hq => hq
  refine LayoutM.Confined.value_congr hconfined fun q hq => ?_
  have hcontains : Contains s.records r q := by
    rw [← mem_containedIn_iff, containedIn, hrecord]
    exact hreorders.mem_contained_iff.mp hq
  have hdepth : maxDepth ⟨s.withRecord r record', profile⟩ = maxDepth ⟨s, profile⟩ :=
    congrArg (· + 1) Array.size_modify
  rw [answer, answer, hdepth]
  exact answerWithin_withRecord hrecord hreorders _ fun hreaches =>
    not_transGen_self hclosed.wellFounded r (.head' hcontains hreaches)

/-- **A union is laid out in every order, or in none**, and the layouts are the same up to the
numbers of the fields. -/
theorem answer_withRecord (hclosed : s.Closed) (hkind : record.kind = .union) :
    ((∃ l, answer ⟨s, profile⟩ r = .ok (.ok l)) ↔
      ∃ l', answer ⟨s.withRecord r record', profile⟩ r = .ok (.ok l')) ∧
    ∀ l l', answer ⟨s, profile⟩ r = .ok (.ok l) →
      answer ⟨s.withRecord r record', profile⟩ r = .ok (.ok l') → l.Reorders σ l' := by
  have hkind' : record'.kind = .union := hreorders.kind_eq.trans hkind
  have hbases : record.bases = [] := hclosed.unionBases r record hrecord hkind
  have hiff (l : RecordLayout) : answer ⟨s, profile⟩ r = .ok (.ok l) ↔ _ :=
    answer_eq_ok_iff hclosed hrecord
  have hiff' (l' : RecordLayout) : answer ⟨s.withRecord r record', profile⟩ r = .ok (.ok l') ↔ _ :=
    answer_eq_ok_iff (c := ⟨s.withRecord r record', profile⟩)
      (hclosed.withRecord hrecord hreorders) (Schema.get?_withRecord_self hrecord)
  simp only [hiff, hiff', value_layoutByKind_withRecord hrecord hreorders hclosed]
  refine ⟨⟨?_, ?_⟩, ?_⟩
  · rintro ⟨l, hl, haccounted⟩
    obtain ⟨l', hl', hlayouts⟩ := exists_reorders hkind hbases hreorders hl
    exact ⟨l', hl', hlayouts.accounted ((kind_eq_of_layoutByKind hl).trans hkind) haccounted⟩
  · rintro ⟨l', hl', haccounted⟩
    obtain ⟨l, hl, hlayouts⟩ :=
      exists_reorders hkind' (hreorders.bases_eq.trans hbases) hreorders.symm hl'
    exact ⟨l, hl, hlayouts.accounted ((kind_eq_of_layoutByKind hl').trans hkind') haccounted⟩
  · rintro l l' ⟨hl, -⟩ ⟨hl', -⟩
    obtain ⟨found', hfound', hlayouts⟩ := exists_reorders hkind hbases hreorders hl
    cases hl'.symm.trans hfound'
    exact hlayouts

end Reordered

end LayoutContext

namespace Session.Reachable

variable {d : Declarations} {schema : Schema} {profile : Profile} {settings : SinkSettings}
  {s : Session} {r : RecordId} {record : Record}

/-- **Unions overlay their members, in every order alike.** In every session under every profile,
the layout of a union is made of three maxima. Its declarations are accepted with its fields in
every other order, and every session on the schema that they describe gives the union a layout if
and only if this one does. The two layouts are the same up to the numbers of the fields. -/
theorem record_overlays (hclose : d.close = .ok schema) (hs : Reachable schema profile settings s)
    (hrecord : schema.records.get? r = some record) (hkind : record.kind = .union) :
    (∀ l t, s.record r = .ok (.ok l, t) →
      ∃ largest, l.Overlays s.answers s.typeLayouts profile record largest) ∧
    ∀ σ record', record.Reorders σ record' →
      (d.withBody r (record'.bases, record'.fields)).close = .ok (schema.withRecord r record') ∧
      ∀ settings' s', Reachable (schema.withRecord r record') profile settings' s' →
        ((∃ l t, s.record r = .ok (.ok l, t)) ↔ ∃ l' t', s'.record r = .ok (.ok l', t')) ∧
        ∀ l t l' t', s.record r = .ok (.ok l, t) → s'.record r = .ok (.ok l', t') →
          l.Reorders σ l' := by
  obtain ⟨hclosed, -⟩ := Declarations.close_closed hclose
  have hanswers : s.answers = LayoutContext.answer ⟨schema, profile⟩ :=
    answers_eq hclosed hs.sound hs.context_eq
  refine ⟨fun l t h => ?_, fun σ record' hreorders =>
    ⟨Declarations.close_withBody hrecord hreorders hclose, fun settings' s' hs' => ?_⟩⟩
  · rw [typeLayouts_eq hclosed hs.sound hs.context_eq]
    have hanswer : s.answers r = .ok (.ok l) := answers_eq_ok_iff.mpr ⟨t, h⟩
    rw [hanswers] at hanswer ⊢
    exact LayoutContext.overlays_of_answer hclosed hrecord hkind hanswer
  · have hanswers' : s'.answers = LayoutContext.answer ⟨schema.withRecord r record', profile⟩ :=
      answers_eq (hclosed.withRecord hrecord hreorders) hs'.sound hs'.context_eq
    obtain ⟨hiff, hlayouts⟩ := LayoutContext.answer_withRecord hrecord hreorders hclosed hkind
    rw [← hanswers, ← hanswers'] at hiff hlayouts
    simp only [answers_eq_ok_iff] at hiff hlayouts
    exact ⟨hiff, fun l t l' t' h h' => hlayouts l l' ⟨t, h⟩ ⟨t', h'⟩⟩

end Session.Reachable

/-- A union of a bit-field and of text that is longer than the type of the bit-field. -/
def Record.word : Record where
  name := some "word"
  kind := .union
  bases := []
  fields :=
    [⟨some "level", .bitfield (.ofWidth ⟨"int", .of 4, .of 4, .signed⟩ (.of 3)), false⟩,
     ⟨none, .bitfield (.unitBreak ⟨"int", .of 4, .of 4, .signed⟩), false⟩,
     ⟨some "text", .array (.primitive ⟨"char", .of 1, .of 1, .signed⟩) (some 5), false⟩]

/-- The union from its last field to its first. -/
def Record.wordReversed : Record := { Record.word with fields := Record.word.fields.reverse }

theorem Record.word_reorders : word.Reorders (Equiv.swap 0 2) wordReversed := by
  refine ⟨rfl, rfl, rfl, fun i => ?_⟩
  match i with
  | 0 | 1 | 2 => rfl
  | i + 3 => rw [Equiv.swap_apply_of_ne_of_ne (by omega) (by omega)]; rfl

/-- A schema of one union. -/
def Schema.word : Schema where
  records := ⟨#[Record.word], by decide⟩
  pointerSize := .of 8
  pointerAlignment := .of 8

/-- The declaration of the union of `Schema.word`. -/
def Declarations.word : Declarations where
  profile := .lp64
  records := ⟨#[⟨Record.word.name, .union, some ([], Record.word.fields)⟩], by decide⟩

theorem Declarations.close_word : word.close = .ok Schema.word := rfl

/-- The text of `Schema.word` takes five bytes, which its alignment makes eight. From the last field
to the first, the union is laid out as before. -/
theorem Session.Reachable.record_overlays_word :
    ∃ l t l' t', (Session.start Schema.word .lp64 .keepAll).record (.of 0) = .ok (.ok l, t) ∧
      (Session.start (Schema.word.withRecord (.of 0) Record.wordReversed) .lp64 .keepAll).record
        (.of 0) = .ok (.ok l', t') ∧
      l.size.count = 8 ∧ l.dataSize.count = 40 ∧
      l.Overlays (Session.start Schema.word .lp64 .keepAll).answers
        (Session.start Schema.word .lp64 .keepAll).typeLayouts .lp64 Record.word 5 ∧
      l.Reorders (Equiv.swap 0 2) l' := by
  obtain ⟨l, t, h, hsize, hdata, hpadding⟩ : ∃ l t,
      (Session.start Schema.word .lp64 .keepAll).record (.of 0) = .ok (.ok l, t) ∧
        l.size.count = 8 ∧ l.dataSize.count = 40 ∧
        l.padding.map (fun p => (p.offset.count, p.offset.count + p.length.count)) = [(40, 64)] :=
    ⟨_, _, rfl, rfl, rfl, rfl⟩
  have hrecord : Schema.word.records.get? (.of 0) = some Record.word := rfl
  have hstart : Reachable Schema.word .lp64 .keepAll (.start Schema.word .lp64 .keepAll) := .start
  obtain ⟨hoverlays, hreordered⟩ := record_overlays Declarations.close_word hstart hrecord rfl
  obtain ⟨largest, hlargest⟩ := hoverlays l t h
  have hends := hlargest.padding
  rw [hpadding, hsize] at hends
  obtain rfl : largest = 5 := by
    split at hends
    · rw [List.singleton_inj, Prod.mk_inj] at hends
      omega
    · cases hends
  obtain ⟨-, hsessions⟩ := hreordered _ _ Record.word_reorders
  obtain ⟨hiff, hlayouts⟩ := hsessions .keepAll _ .start
  obtain ⟨l', t', h'⟩ := hiff.mp ⟨l, t, h⟩
  exact ⟨l, t, l', t', h, h', hsize, hdata, hlargest, hlayouts l t l' t' h h'⟩

end AbiLayout
