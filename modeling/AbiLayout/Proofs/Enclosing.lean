import AbiLayout.Proofs.Members

/-!
# Members end within their record

A layout that passes the check encloses its members: in a struct, the gaps and the members add up to
the size, so the last member cannot reach past it; a union is as large as each of its members asks
for. Nothing is assumed of base types or of the alignment of pointers. A base, or a field that is a
record, is as long as the layout of its own record, which is thus enclosed as well.

## Main results

* `StructDraft.Finishes.stop_le`, `UnionDraft.Course.counted_le`: the members of a struct and of a
  union end within the size.
* `LayoutContext.stop_le_of_answer`, `LayoutContext.field_encloses`, `LayoutContext.base_encloses`:
  so do the members of every answer, and the records that are fields or bases.
-/

namespace AbiLayout

/-! ### Structs -/

/-- The bits in front of `stop` are those reached before and the gap. -/
theorem le_add_gap (start stop : BitCount) :
    stop.count ≤ start.count + ((gap start stop).map (·.length.count)).sum := by
  rw [gap]
  split
  · simp only [List.map_cons, List.map_nil, List.sum_cons, List.sum_nil]
    omega
  · rename_i hle
    exact (Nat.le_of_not_lt hle).trans (Nat.le_add_right _ _)

/-- No member ends behind the bits reached before, the gaps and the members together. -/
theorem stop_le_of_gapsFrom {size reached : BitCount} {ms : List PlacedMember}
    {gaps : List BitRange} (h : gapsFrom size reached ms = .ok gaps) {m : PlacedMember}
    (hm : m ∈ ms) : m.offset.count + m.extent.counted.count ≤
      reached.count + (ms.map (·.extent.counted.count)).sum +
        (gaps.map (·.length.count)).sum := by
  induction ms generalizing reached gaps with
  | nil => cases hm
  | cons first ms ih =>
    obtain ⟨stop, hstop, h⟩ := except_bind_eq_ok_iff.mp h
    obtain ⟨later, hlater, h⟩ := except_bind_eq_ok_iff.mp h
    cases h
    rw [PlacedMember.stop, Quantity.add, Quantity.fit_eq_ok_iff] at hstop
    have hgap := le_add_gap reached first.offset
    rw [List.map_cons, List.sum_cons, List.map_append, List.sum_append]
    rcases List.mem_cons.mp hm with rfl | hm
    · omega
    · have hrest := ih hlater hm
      rw [Quantity.count_max, hstop] at hrest
      omega

/-- The members of a struct end within its size. -/
theorem StructDraft.Finishes.stop_le {profile : Profile} {d : StructDraft} {l : RecordLayout}
    (h : d.Finishes profile l) (htallied : l.Tallied) {m : PlacedMember} (hm : m ∈ l.members) :
    m.offset.count + m.extent.counted.count ≤ 8 * l.size.count := by
  obtain ⟨bits, -, hpadding⟩ := h.padding_eq
  have hsum := htallied.lengths_sum
  rw [h.members_eq] at hm hsum
  have hstop := stop_le_of_gapsFrom hpadding hm
  rw [Quantity.count_zero, Nat.zero_add] at hstop
  exact hstop.trans hsum.le

/-! ### Unions -/

/-- A step that adds a field to a union keeps it as large as each of its members. -/
theorem UnionDraft.counted_le_of_place {d d' : UnionDraft} {i : Nat} {isNamed : Bool}
    {placement : Placement} (h : d.place i isNamed placement = .ok d')
    (hbits : ∀ b, placement = .bitfield b → b.width.count ≤ b.underlying.bitSize)
    (hd : ∀ m ∈ d.members, m.extent.counted.count ≤ 8 * d.size.count) :
    ∀ m ∈ d'.members, m.extent.counted.count ≤ 8 * d'.size.count := by
  have hpush (length : BitCount) (size alignment : ByteCount)
      (hlength : length.count ≤ 8 * size.count) :
      ∀ m ∈ (d.push i length size alignment).members,
        m.extent.counted.count ≤ 8 * (d.push i length size alignment).size.count := by
    intro m hm
    have hsize : (d.push i length size alignment).size.count = max d.size.count size.count :=
      Quantity.count_max _ _
    rcases List.mem_append.mp hm with hm | hm
    · have := hd m hm
      omega
    · cases List.mem_singleton.mp hm
      change length.count ≤ _
      omega
  cases placement with
  | zeroWidth p =>
    cases h
    exact hd
  | bitfield b =>
    cases h
    exact hpush _ _ _ (hbits b rfl)
  | bytes layout =>
    obtain ⟨length, hlength, h⟩ := except_bind_eq_ok_iff.mp h
    cases h
    rw [Quantity.toBits_eq_ok_iff] at hlength
    exact hpush length layout.width layout.alignment hlength.le

section Resolved

variable {c : LayoutContext} {answer : RecordId → Except Trap Answer} {record : Record}
  {bases : List StructDraft.ResolvedBase} {placements : List Placement} {l : RecordLayout}

/-- A bit-field that is to be placed is no wider than its type. -/
theorem LayoutContext.resolveField_width_le {i : Nat} {field : Field} {b : Bitfield}
    (h : LayoutT.value answer (c.resolveField record i field) = .ok (.ok (.bitfield b))) :
    b.width.count ≤ b.underlying.bitSize := by
  refine resolveField_cases (motive := fun placement => ∀ b, placement = .bitfield b →
    b.width.count ≤ b.underlying.bitSize) ?_ ?_ ?_ h b rfl
  · exact fun _ _ _ _ h => nomatch h
  · rintro b' - - hle b ⟨⟩
    exact hle
  · exact fun _ _ _ _ _ h => nomatch h

theorem LayoutContext.Resolves.width_le (h : c.Resolves answer record bases placements) {i : Nat}
    {b : Bitfield} {field : Field} (hget : record.fields[i]? = some field)
    (hplacement : placements[i]? = some (.bitfield b)) :
    b.width.count ≤ b.underlying.bitSize :=
  resolveField_width_le (h.fieldsResolve.getElem? hget hplacement)

/-- The members of a union are no longer than it is. -/
theorem UnionDraft.Course.counted_le {profile : Profile}
    (k : UnionDraft.Course profile record placements l)
    (h : c.Resolves answer record bases placements) {m : PlacedMember} (hm : m ∈ l.members) :
    m.extent.counted.count ≤ 8 * l.size.count := by
  have hdraft {i : Nat} (hi : i ≤ record.fields.length) :
      ∀ m ∈ (k.filled i).members, m.extent.counted.count ≤ 8 * (k.filled i).size.count := by
    induction i with
    | zero =>
      rw [k.filled_zero]
      exact fun _ hm => nomatch hm
    | succ i ih =>
      have hget : record.fields[i]? = some record.fields[i] := List.getElem?_eq_getElem hi
      obtain ⟨placement, hplacement, -⟩ := h.exists_placement hget
      exact counted_le_of_place (k.place hget hplacement)
        (fun b hb => h.width_le hget (hb ▸ hplacement)) (ih (Nat.le_of_succ_le hi))
  have hsize := Profile.le_of_recordSize?_eq_some k.finishes.size_eq
  exact (hdraft le_rfl m (k.finishes.members_eq ▸ hm)).trans (Nat.mul_le_mul_left 8 hsize)

end Resolved

/-! ### Every answer -/

namespace LayoutContext

variable {c : LayoutContext}

section Closed

variable (hclosed : c.schema.Closed) {r : RecordId} {record : Record} {l : RecordLayout}
  (hrecord : c.schema.records.get? r = some record) (h : c.answer r = .ok (.ok l))

include hclosed hrecord h

/-- **The members of every layout end within its size.** -/
theorem stop_le_of_answer {m : PlacedMember} (hm : m ∈ l.members) :
    m.offset.count + m.extent.counted.count ≤ 8 * l.size.count := by
  have hl := value_layoutByKind_of_answer hclosed hrecord h
  have haccounted : l.Accounted := HasAnswer.accounted ((hasAnswer_iff hclosed).mpr h)
  obtain ⟨bases, placements, hresolves⟩ := layoutByKind_resolves hl
  have hkind := kind_eq_of_layoutByKind hl
  cases hk : record.kind with
  | struct =>
    obtain ⟨k⟩ := hresolves.nonempty_course hk hl
    exact k.finishes.stop_le (haccounted.tallied (hkind.trans hk)) hm
  | union =>
    obtain ⟨k⟩ := hresolves.nonempty_unionCourse hk hl
    rw [haccounted.offset_eq (hkind.trans hk) m hm, Nat.zero_add]
    exact k.counted_le hresolves hm

/-- A base has a layout, and the record encloses it. -/
theorem base_encloses {i : Nat} {base : Base} {m : PlacedMember}
    (hget : record.bases[i]? = some base) (hm : l.base? i = some m) :
    ∃ inner, c.answer base.record = .ok (.ok inner) ∧
      m.offset.count + 8 * inner.size.count ≤ 8 * l.size.count := by
  have hl := value_layoutByKind_of_answer hclosed hrecord h
  obtain ⟨bases, placements, hresolves⟩ := layoutByKind_resolves hl
  have hlists := hresolves.lists (hclosed.unionBases r record hrecord) hl
  obtain ⟨inner, length, hanswer, hextent, hlength⟩ := hresolves.base_extent hlists hget hm
  have hstop := stop_le_of_answer hclosed hrecord h (RecordLayout.mem_of_member? hm).1
  rw [hextent] at hstop
  exact ⟨inner, hanswer, hlength ▸ hstop⟩

/-- A field that is a record has a layout, and the outer record encloses it. -/
theorem field_encloses {i : Nat} {field : Field} {r' : RecordId} {m : PlacedMember}
    (hget : record.fields[i]? = some field) (hty : field.ty = .record r')
    (hm : l.field? i = some m) :
    ∃ inner, c.answer r' = .ok (.ok inner) ∧
      m.offset.count + 8 * inner.size.count ≤ 8 * l.size.count := by
  have hl := value_layoutByKind_of_answer hclosed hrecord h
  obtain ⟨bases, placements, hresolves⟩ := layoutByKind_resolves hl
  have hlists := hresolves.lists (hclosed.unionBases r record hrecord) hl
  obtain ⟨layout, hlayout, hunbounded, hbounded⟩ :=
    hresolves.field_extent hlists hget (fun b hb => nomatch hty.symm.trans hb) hm
  obtain ⟨length, hextent, hlength⟩ :=
    hbounded (mt hunbounded.mp fun ⟨element, harray⟩ => nomatch hty.symm.trans harray)
  rw [hty] at hlayout
  obtain ⟨inner, hanswer, rfl⟩ := typeLayout_record_eq_ok hlayout
  have hstop := stop_le_of_answer hclosed hrecord h (RecordLayout.mem_of_member? hm).1
  rw [hextent] at hstop
  exact ⟨inner, hanswer, hlength ▸ hstop⟩

end Closed

end LayoutContext

end AbiLayout
