import AbiLayout.Proofs.Tails

/-!
# Padding is announced

Padding is found twice. While a struct is put together, each step compares the offset of a field
with the cursor in front of it, and warns; when it is finished, the padding is computed from the
members alone. Without zero-width bit-fields both say the same: the cursor stands at the end of the
last member in front of every field (`StructDraft.Meets`), so a warning is about the bits between
two members, and those are a region of the padding. Only the padding in front of bases is not
warned about.

Nothing has to be asked of base types or pointers.

## Main definitions

* `Record.paddedField`, `Record.warningsFrom`: the warnings about the members of a layout.
* `RecordLayout.Announces`: the warning that announces a region of padding.
* `RecordLayout.AnnouncesPadding`: the warnings of a struct announce its padding.
* `Session.Pushes`: what a run adds to the sink, in order.

## Main results

* `StructDraft.reports_addField`, `StructDraft.reports_addFieldsFrom`: the warnings about one field
  and about all fields.
* `RecordLayout.InOrder.forall₂_announces`: regions and warnings, one by one.
* `LayoutContext.announcesPadding_of_answer`: the warnings of every struct.
* `Session.collected_record`: what laying out a record pushes.
* `Session.Reachable.record_announces`: the warnings of every struct that a session lays out.
-/

namespace AbiLayout

/-- Whether the field is a bit-field. -/
def Field.isBitfield (field : Field) : Bool :=
  match field.ty with
  | .bitfield _ => true
  | _ => false

/-- Whether the member is a base. -/
def Member.isBase : Member → Bool
  | base _ => true
  | field _ => false

/-! ### The warnings about the members of a layout -/

namespace Record

/-- The warning about padding in front of the field at position `i`. -/
def paddedField (record : Record) (i : Nat) (field : Field) : Diagnostic where
  severity := .warning
  topic := if field.isBitfield then .paddedBitfield else .paddedField
  message :=
    let word := if field.isBitfield then "bitfield" else "field"
    s!"Padded {word} of '{record.label}' at index {i}"
  subject := ⟨record.label, some (field.label i)⟩

/-- The warning about a member, if it is a field that starts behind `reached`. -/
def warningAt (record : Record) (reached : Nat) (m : PlacedMember) : List Diagnostic :=
  match m.member with
  | .base _ => []
  | .field i =>
    if reached < m.offset.count then (record.fields[i]?.map (record.paddedField i)).toList else []

/-- The warnings about members that follow each other, where the one before them ends at
`reached`. -/
def warningsFrom (record : Record) : (reached : Nat) → List PlacedMember → List Diagnostic
  | _, [] => []
  | reached, m :: ms =>
    record.warningAt reached m ++ record.warningsFrom (m.offset.count + m.extent.counted.count) ms

variable {record : Record} {i j : Nat} {field field' : Field} {reached : Nat}
  {ms ms' : List PlacedMember} {m : PlacedMember} {d : Diagnostic}

theorem warningAt_base (h : m.member.isBase = true) : record.warningAt reached m = [] := by
  rw [warningAt]
  split
  · rfl
  · rename_i i hmember
    rw [hmember] at h
    cases h

theorem warningAt_field (hmember : m.member = .field i) (hget : record.fields[i]? = some field) :
    record.warningAt reached m =
      if reached < m.offset.count then [record.paddedField i field] else [] := by
  rw [warningAt, hmember]
  dsimp only
  rw [hget]
  rfl

theorem warningsFrom_append : record.warningsFrom reached (ms ++ ms') =
    record.warningsFrom reached ms ++ record.warningsFrom (lastStop reached ms) ms' := by
  induction ms generalizing reached with
  | nil => rfl
  | cons m ms ih =>
    rw [List.cons_append, warningsFrom, warningsFrom, ih, lastStop_cons, List.append_assoc]

/-- There are no warnings about bases. -/
theorem warningsFrom_bases (h : ∀ m ∈ ms, m.member.isBase = true) :
    record.warningsFrom reached ms = [] := by
  induction ms generalizing reached with
  | nil => rfl
  | cons m ms ih =>
    obtain ⟨hm, hms⟩ := List.forall_mem_cons.mp h
    rw [warningsFrom, warningAt_base hm, ih hms, List.append_nil]

theorem exists_of_mem_warningAt (h : d ∈ record.warningAt reached m) :
    ∃ i field, m.member = .field i ∧ record.fields[i]? = some field ∧
      reached < m.offset.count ∧ d = record.paddedField i field := by
  cases hmember : m.member with
  | base i =>
    rw [warningAt, hmember] at h
    cases h
  | field i =>
    cases hget : record.fields[i]? with
    | none =>
      rw [warningAt, hmember] at h
      dsimp only at h
      rw [hget] at h
      split at h <;> cases h
    | some field =>
      rw [warningAt_field hmember hget] at h
      split at h
      · exact ⟨i, field, rfl, hget, ‹_›, List.mem_singleton.mp h⟩
      · cases h

theorem exists_of_mem_warningsFrom (h : d ∈ record.warningsFrom reached ms) :
    ∃ m ∈ ms, ∃ i field, m.member = .field i ∧ d = record.paddedField i field := by
  induction ms generalizing reached with
  | nil => cases h
  | cons m ms ih =>
    rcases List.mem_append.mp h with h | h
    · obtain ⟨i, field, hmember, -, -, rfl⟩ := exists_of_mem_warningAt h
      exact ⟨m, List.mem_cons_self, i, field, hmember, rfl⟩
    · obtain ⟨m', hm', hrest⟩ := ih h
      exact ⟨m', List.mem_cons_of_mem m hm', hrest⟩

/-- The index in the message tells the warnings about fields apart. -/
theorem paddedField_inj (h : record.paddedField i field = record.paddedField j field') : i = j := by
  obtain ⟨-, htopic, hmessage, -⟩ := Diagnostic.mk.inj h
  have hkind : field.isBitfield = field'.isBitfield := by
    cases hfield : field.isBitfield <;> cases hfield' : field'.isBitfield <;>
      simp [hfield, hfield'] at htopic <;> rfl
  rw [hkind] at hmessage
  have hindex : i.repr = j.repr := by simpa [toString] using hmessage
  have hdigits := congrArg (fun text => Nat.ofDigitChars 10 text.toList 0) hindex
  simpa only [Nat.toList_repr, Nat.ofDigitChars_ten_toDigits] using hdigits

/-- No warning about a member comes twice, if no member does. -/
theorem nodup_warningsFrom (h : (ms.map PlacedMember.member).Nodup) :
    (record.warningsFrom reached ms).Nodup := by
  induction ms generalizing reached with
  | nil => exact List.nodup_nil
  | cons m ms ih =>
    rw [List.map_cons, List.nodup_cons] at h
    refine List.nodup_append.mpr ⟨?_, ih h.2, ?_⟩
    · rw [warningAt]
      split
      · exact List.nodup_nil
      · rename_i i _
        split
        · cases record.fields[i]? <;> simp
        · exact List.nodup_nil
    · rintro d hd _ hd' rfl
      obtain ⟨i, field, hmember, -, -, rfl⟩ := exists_of_mem_warningAt hd
      obtain ⟨m', hm', j, field', hmember', heq⟩ := exists_of_mem_warningsFrom hd'
      cases paddedField_inj heq
      exact h.1 (List.mem_map.mpr ⟨m', hm', hmember'.trans hmember.symm⟩)

end Record

/-! ### The regions -/

/-- The end of the last member is behind all of them, if they follow each other. -/
theorem le_lastStop (reached : Nat) {ms : List PlacedMember}
    (hsorted : ms.Pairwise fun m m' => m.offset.count + m.extent.counted.count ≤ m'.offset.count)
    {m : PlacedMember} (hm : m ∈ ms) :
    m.offset.count + m.extent.counted.count ≤ lastStop reached ms := by
  rcases List.eq_nil_or_concat' ms with rfl | ⟨init, last, rfl⟩
  · cases hm
  · rw [lastStop_append]
    rcases List.mem_append.mp hm with hm | hm
    · have hle := (List.pairwise_append.mp hsorted).2.2 m hm last (List.mem_singleton_self last)
      omega
    · cases List.mem_singleton.mp hm
      exact le_rfl

/-- Regions of padding are not empty, and each starts behind the ones in front of it. -/
theorem gapsFrom_ordered {size reached : BitCount} {ms : List PlacedMember} {gaps : List BitRange}
    (h : gapsFrom size reached ms = .ok gaps) :
    (∀ p ∈ gaps, reached.count ≤ p.offset.count ∧ 0 < p.length.count) ∧
      gaps.Pairwise fun p q => p.offset.count < q.offset.count := by
  induction ms generalizing reached gaps with
  | nil =>
    cases h
    refine ⟨fun p hp => ?_, ?_⟩
    · obtain ⟨hlt, hoffset, hstop⟩ := mem_gap_iff.mp hp
      subst hoffset
      omega
    · rw [gap]
      split <;> simp
  | cons m ms ih =>
    obtain ⟨stop, hstop, h⟩ := except_bind_eq_ok_iff.mp h
    obtain ⟨later, hlater, h⟩ := except_bind_eq_ok_iff.mp h
    cases h
    rw [PlacedMember.stop, Quantity.add, Quantity.fit_eq_ok_iff] at hstop
    obtain ⟨hall, hpairwise⟩ := ih hlater
    have hmax := Quantity.count_max reached stop
    refine ⟨fun p hp => ?_, List.pairwise_append.mpr ⟨?_, hpairwise, fun p hp q hq => ?_⟩⟩
    · rcases List.mem_append.mp hp with hp | hp
      · obtain ⟨hlt, hoffset, hend⟩ := mem_gap_iff.mp hp
        subst hoffset
        omega
      · have hp := hall p hp
        omega
    · rw [gap]
      split <;> simp
    · obtain ⟨hlt, hoffset, hend⟩ := mem_gap_iff.mp hp
      have hq := hall q hq
      subst hoffset
      omega

namespace RecordLayout

/-- Whether a base starts where the region ends. -/
def isBeforeBase (l : RecordLayout) (p : BitRange) : Bool :=
  l.members.any fun m => m.member.isBase && m.offset.count == p.offset.count + p.length.count

/-- The warning that announces a region of padding: the region lies between a field and the member
placed before it, or behind the last member. -/
inductive Announces (l : RecordLayout) (record : Record) (p : BitRange) : Diagnostic → Prop
  | inFront {front back : List PlacedMember} {m : PlacedMember} {i : Nat} {field : Field}
      (members_eq : l.members = front ++ m :: back) (member_eq : m.member = .field i)
      (field_eq : record.fields[i]? = some field)
      (offset_eq : p.offset.count = AbiLayout.lastStop 0 front)
      (stop_eq : p.offset.count + p.length.count = m.offset.count) :
      Announces l record p (record.paddedField i field)
  | atEnd (offset_eq : p.offset.count = l.lastStop)
      (stop_eq : p.offset.count + p.length.count = 8 * l.size.count) :
      Announces l record p (StructDraft.paddedRecord record p.length)

/-- The regions of padding behind the last member. -/
def tail (l : RecordLayout) : List BitRange :=
  l.padding.filter fun p => l.lastStop ≤ p.offset.count

variable {l : RecordLayout} {record : Record} {p : BitRange}

/-- A region is announced by one warning only, if the members follow each other. -/
theorem Announces.unique
    (hsorted : l.members.Pairwise fun m m' =>
      m.offset.count + m.extent.counted.count ≤ m'.offset.count)
    (hpos : 0 < p.length.count) {d d' : Diagnostic} (h : l.Announces record p d)
    (h' : l.Announces record p d') : d = d' := by
  -- two members with the region in front of them stand behind the same members
  have hfront {front front' back back' : List PlacedMember} {m m' : PlacedMember}
      (hm : l.members = front ++ m :: back) (hm' : l.members = front' ++ m' :: back')
      (hoffset : p.offset.count = AbiLayout.lastStop 0 front)
      (hstop' : p.offset.count + p.length.count = m'.offset.count) :
      ¬front'.length < front.length := by
    intro hlt
    have hmem : m' ∈ front := by
      have hget : l.members[front'.length]? = some m' := by rw [hm']; simp
      rw [hm, List.getElem?_append_left hlt] at hget
      exact List.mem_of_getElem? hget
    have hle := le_lastStop 0 (List.pairwise_append.mp (hm ▸ hsorted)).1 hmem
    omega
  have hend {front back : List PlacedMember} {m : PlacedMember}
      (hm : l.members = front ++ m :: back) (hoffset : p.offset.count = l.lastStop)
      (hstop : p.offset.count + p.length.count = m.offset.count) : False := by
    have hle := le_lastStop 0 hsorted (hm ▸ List.mem_append_right _ List.mem_cons_self)
    rw [← lastStop] at hle
    omega
  cases h with
  | inFront hm hmember hget hoffset hstop =>
    cases h' with
    | inFront hm' hmember' hget' hoffset' hstop' =>
      have hlength := Nat.le_antisymm (Nat.not_lt.mp (hfront hm hm' hoffset hstop'))
        (Nat.not_lt.mp (hfront hm' hm hoffset' hstop))
      obtain ⟨-, heq⟩ := List.append_inj (hm.symm.trans hm') hlength
      cases heq
      cases hmember.symm.trans hmember'
      cases hget.symm.trans hget'
      rfl
    | atEnd hoffset' hstop' => exact (hend hm hoffset' hstop).elim
  | atEnd hoffset hstop =>
    cases h' with
    | inFront hm' hmember' hget' hoffset' hstop' => exact (hend hm' hoffset hstop').elim
    | atEnd hoffset' hstop' => rfl

/-- The members of a layout of a struct: they follow each other, bases come before fields, and each
field is one of the record. -/
structure InOrder (l : RecordLayout) (record : Record) : Prop where
  sorted : l.members.Pairwise fun m m' =>
    m.offset.count + m.extent.counted.count ≤ m'.offset.count
  basesFirst : l.members.Pairwise fun m m' => m'.member.isBase = true → m.member.isBase = true
  getElem? : ∀ m ∈ l.members, ∀ i, m.member = .field i → ∃ field, record.fields[i]? = some field

namespace InOrder

variable (h : l.InOrder record) {front back : List PlacedMember} {m : PlacedMember}

include h

/-- The members in front of another one end in front of it. -/
theorem lastStop_le (hm : l.members = front ++ m :: back) :
    AbiLayout.lastStop 0 front ≤ m.offset.count := by
  rcases List.eq_nil_or_concat' front with rfl | ⟨init, last, rfl⟩
  · exact Nat.zero_le _
  · rw [lastStop_append]
    exact (List.pairwise_append.mp (hm ▸ h.sorted)).2.2 last (by simp) m List.mem_cons_self

/-- No base starts where a region ends that is behind the members up to there, unless it comes
next. -/
theorem isBeforeBase_eq_false (hm : l.members = front ++ back)
    (hback : ∀ m ∈ back, m.member.isBase = false)
    (hoffset : p.offset.count = AbiLayout.lastStop 0 front) (hpos : 0 < p.length.count) :
    l.isBeforeBase p = false := by
  rw [isBeforeBase, List.any_eq_false]
  intro m hmem hbase
  rw [Bool.and_eq_true, beq_iff_eq] at hbase
  rcases List.mem_append.mp (hm ▸ hmem) with hmem | hmem
  · have hle := le_lastStop 0 (List.pairwise_append.mp (hm ▸ h.sorted)).1 hmem
    omega
  · rw [hback m hmem] at hbase
    cases hbase.1

/-- The regions behind some members of a layout, other than those in front of bases, are announced
one by one. -/
theorem forall₂_announces {last size reached : BitCount} {ms : List PlacedMember}
    {gaps : List BitRange} (hm : l.members = front ++ ms) (hlast : last.count = l.lastStop)
    (hsize : size.count = 8 * l.size.count) (hreached : reached.count = AbiLayout.lastStop 0 front)
    (hgaps : gapsFrom size reached ms = .ok gaps) :
    List.Forall₂ (l.Announces record) (gaps.filter fun p => !l.isBeforeBase p)
      (record.warningsFrom reached.count ms ++
        (gap last size).map fun p => StructDraft.paddedRecord record p.length) := by
  induction ms generalizing front reached gaps with
  | nil =>
    rw [List.append_nil] at hm
    obtain rfl : reached = last := Quantity.ext (by rw [hreached, hlast, lastStop, hm])
    cases hgaps
    have hannounced (p : BitRange) (hp : p ∈ gap reached size) :
        l.isBeforeBase p = false ∧
          l.Announces record p (StructDraft.paddedRecord record p.length) := by
      obtain ⟨hlt, rfl, hstop⟩ := mem_gap_iff.mp hp
      have hm' : l.members = front ++ [] := hm.trans (List.append_nil front).symm
      have hnothing (m' : PlacedMember) (hmem : m' ∈ []) : m'.member.isBase = false :=
        absurd hmem List.not_mem_nil
      exact ⟨h.isBeforeBase_eq_false hm' hnothing hreached (by omega),
        .atEnd hlast (hstop.trans hsize)⟩
    rw [List.filter_eq_self.mpr fun p hp => by rw [(hannounced p hp).1]; rfl]
    exact List.forall₂_map_right_iff.mpr (List.forall₂_same.mpr fun p hp => (hannounced p hp).2)
  | cons m ms ih =>
    obtain ⟨stop, hstop, hgaps⟩ := except_bind_eq_ok_iff.mp hgaps
    obtain ⟨later, hlater, hgaps⟩ := except_bind_eq_ok_iff.mp hgaps
    cases hgaps
    rw [PlacedMember.stop, Quantity.add, Quantity.fit_eq_ok_iff] at hstop
    have hle := h.lastStop_le hm
    have hmax : (max reached stop).count = m.offset.count + m.extent.counted.count := by
      rw [Quantity.count_max]
      omega
    have hm' : l.members = (front ++ [m]) ++ ms := hm.trans (List.append_cons front m ms)
    have hrest := ih hm' (by rw [hmax, lastStop_append]) hlater
    rw [hmax] at hrest
    rw [List.filter_append, Record.warningsFrom, List.append_assoc]
    refine List.rel_append ?_ hrest
    cases hmember : m.member with
    | base i =>
      have hbase : m.member.isBase = true := by rw [hmember]; rfl
      rw [Record.warningAt_base hbase, List.filter_eq_nil_iff.mpr]
      · exact .nil
      · intro p hp
        obtain ⟨-, -, hend⟩ := mem_gap_iff.mp hp
        have hbefore : l.isBeforeBase p = true := by
          refine List.any_eq_true.mpr ⟨m, by rw [hm]; simp, ?_⟩
          rw [hbase, hend, beq_self_eq_true]
          rfl
        simp [hbefore]
    | field i =>
      obtain ⟨field, hget⟩ := h.getElem? m (by rw [hm]; simp) i hmember
      rw [Record.warningAt_field hmember hget]
      have hback (m' : PlacedMember) (hm' : m' ∈ m :: ms) : m'.member.isBase = false := by
        rcases List.mem_cons.mp hm' with rfl | hm'
        · rw [hmember]
          rfl
        · have hfirst := (List.pairwise_append.mp (hm ▸ h.basesFirst)).2.1
          by_contra hbase
          rw [Bool.not_eq_false] at hbase
          have hm := (List.pairwise_cons.mp hfirst).1 m' hm' hbase
          rw [hmember] at hm
          cases hm
      by_cases hlt : reached.count < m.offset.count
      · obtain ⟨p, hgap⟩ : ∃ p, gap reached m.offset = [p] := ⟨_, if_pos hlt⟩
        obtain ⟨-, rfl, hend⟩ := mem_gap_iff.mp (hgap ▸ List.mem_singleton_self p)
        have hbefore : l.isBeforeBase p = false :=
          h.isBeforeBase_eq_false hm hback hreached (by omega)
        rw [hgap, if_pos hlt, List.filter_cons_of_pos (by rw [hbefore]; rfl)]
        exact .cons (.inFront hm hmember hget hreached hend) .nil
      · have hempty : gap reached m.offset = [] := if_neg hlt
        rw [hempty, if_neg hlt]
        exact .nil

end InOrder

/-- The region behind the last member is a gap between it and the size. -/
theorem exists_tail_eq {size : BitCount}
    (hsorted : l.members.Pairwise fun m m' =>
      m.offset.count + m.extent.counted.count ≤ m'.offset.count)
    (hgaps : gapsBetween l.members size = .ok l.padding) :
    ∃ last : BitCount, last.count = l.lastStop ∧ l.tail = gap last size := by
  obtain ⟨front, last, hlast, -, hfront, hsplit⟩ :=
    exists_gap_of_gapsFrom hsorted (fun _ _ => Nat.zero_le _) hgaps
  have hlast : last.count = l.lastStop := hlast
  obtain ⟨hpositive, -⟩ := gapsFrom_ordered hgaps
  refine ⟨last, hlast, ?_⟩
  have hbefore : front.filter (fun p => l.lastStop ≤ p.offset.count) = [] := by
    refine List.filter_eq_nil_iff.mpr fun p hp => ?_
    have hstop := hfront p hp
    obtain ⟨-, hpos⟩ := hpositive p (hsplit ▸ List.mem_append_left _ hp)
    rw [decide_eq_true_iff]
    omega
  have hbehind : (gap last size).filter (fun p => l.lastStop ≤ p.offset.count) = gap last size := by
    refine List.filter_eq_self.mpr fun p hp => ?_
    obtain ⟨-, hoffset, -⟩ := mem_gap_iff.mp hp
    rw [decide_eq_true_iff, hoffset, hlast]
  rw [tail, hsplit, List.filter_append, hbefore, hbehind, List.nil_append]

/-- A layout that lists its members has them in order, if they follow each other. -/
theorem Lists.inOrder {bases : List StructDraft.ResolvedBase} {placements : List Placement}
    (h : l.Lists record bases placements)
    (hsorted : l.members.Pairwise fun m m' =>
      m.offset.count + m.extent.counted.count ≤ m'.offset.count) : l.InOrder record where
  sorted := hsorted
  basesFirst := by
    have hplaced : record.placedMembers.Pairwise fun x y => y.isBase = true → x.isBase = true := by
      refine List.pairwise_append.mpr ⟨?_, ?_, ?_⟩
      · exact List.pairwise_map.mpr (List.pairwise_of_forall fun _ _ _ => rfl)
      · exact List.pairwise_map.mpr (List.pairwise_of_forall fun _ _ h => nomatch h)
      · intro x hx y hy _
        obtain ⟨i, -, rfl⟩ := List.mem_map.mp hx
        rfl
    rw [← h.members_eq, List.pairwise_map] at hplaced
    exact hplaced
  getElem? := by
    intro m hm i hmember
    have hplaced := hmember ▸ h.member_mem hm
    rw [Record.field_mem_placedMembers, Record.placesField, Option.any_eq_true] at hplaced
    obtain ⟨field, hget, -⟩ := hplaced
    exact ⟨field, hget⟩

end RecordLayout

/-! ### What the program of a struct reports -/

namespace StructDraft

open LayoutM

variable {c : LayoutContext} {answer : RecordId → Except Trap Answer} {record : Record}
  {d d' : StructDraft} {i : Nat}

/-- The warning about padding in front of a field that takes a place depends on the field only. -/
theorem paddedMember_eq {field : Field} {placement : Placement}
    (h : LayoutT.value answer (c.resolveField record i field) = .ok (.ok placement))
    (hplaced : field.isZeroWidth = false) :
    paddedMember record i field placement = record.paddedField i field := by
  refine LayoutContext.resolveField_cases
    (motive := fun placement => paddedMember record i field placement = record.paddedField i field)
    ?_ ?_ ?_ h
  · intro b hty hzero
    rw [Field.isZeroWidth, hty] at hplaced
    exact absurd (Quantity.isZero_iff.mpr hzero) (by simp [hplaced])
  · intro b hty _ _
    have hbits : field.isBitfield = true := by rw [Field.isBitfield, hty]
    rw [Record.paddedField, hbits]
    rfl
  · intro layout hne _ _
    have hbits : field.isBitfield = false := by
      rw [Field.isBitfield]
      split
      · exact absurd ‹_› (hne _)
      · rfl
    rw [Record.paddedField, hbits]
    rfl

/-- The placement of a field that takes a place is told with the offset of the member that the draft
gains. -/
theorem place_eq_placedAt {isNamed : Bool} {placement : Placement} {step : PlaceStep}
    (hplaced : ∀ p, placement ≠ .zeroWidth p) (hstep : step ≠ .tooLarge)
    (h : d.place i isNamed placement = .ok (step, d')) :
    ∃ offset extent, step = .placedAt offset ∧
      d'.members = d.members ++ [⟨.field i, offset, extent⟩] := by
  cases placement with
  | zeroWidth p => exact absurd rfl (hplaced p)
  | bitfield b =>
    obtain ⟨placed, -, h⟩ := except_bind_eq_ok_iff.mp h
    obtain ⟨offset, cursor, rfl, hoffset, raised, -, rfl⟩ := settle_eq_ok hstep h
    exact ⟨offset, _, hoffset, rfl⟩
  | bytes layout =>
    obtain ⟨alignment, -, h⟩ := except_bind_eq_ok_iff.mp h
    obtain ⟨size, -, h⟩ := except_bind_eq_ok_iff.mp h
    obtain ⟨placed, -, h⟩ := except_bind_eq_ok_iff.mp h
    obtain ⟨offset, cursor, rfl, hoffset, raised, -, rfl⟩ := settle_eq_ok hstep h
    exact ⟨offset, _, hoffset, rfl⟩

/-- Resolving a field reports nothing. -/
theorem reports_resolveField (i : Nat) (field : Field) :
    (c.resolveField record i field).run.reports answer = [] := by
  have hsilent : LayoutT.Confined (fun _ => True) (fun _ => False)
      (c.resolveField record i field) :=
    (LayoutContext.within_resolveField (T := fun _ => True) (fun _ _ => trivial) i
      (LayoutContext.names_of_forall (fun _ => trivial) _) fun _ _ => trivial).confined
  exact LayoutM.Confined.reports_eq_nil hsilent

/-- **One field**: from a draft that meets its last member, the field is placed with the warning
about it, and leads to such a draft. -/
theorem reports_addField {field : Field} (hget : record.fields[i]? = some field)
    (hplaced : field.isZeroWidth = false) (hd : d.Meets)
    (h : (addField c record i field d).value answer = .ok (.ok (), d')) :
    d'.Meets ∧ ∃ m : PlacedMember, m.member = .field i ∧ d'.members = d.members ++ [m] ∧
      (addField c record i field d).reports answer =
        record.warningAt (lastStop 0 d.members) m := by
  obtain ⟨placement, step, hvalue, hstep, hplace⟩ := addField_eq_ok h
  have hne (p : Primitive) : placement ≠ .zeroWidth p := fun hp => by
    rw [(LayoutContext.resolveField_isZeroWidth hvalue).mpr ⟨p, hp⟩] at hplaced
    cases hplaced
  have hplaces : d.Places i field.isNamed placement d' := ⟨step, hstep, hplace⟩
  have hmeets : d'.Meets := hplaces.meets hd.1
    (fun b hb => LayoutContext.resolveField_width_le (hb ▸ hvalue)) hne
  obtain ⟨offset, extent, rfl, hmembers⟩ := place_eq_placedAt hne hstep hplace
  refine ⟨hmeets, ⟨.field i, offset, extent⟩, rfl, hmembers, ?_⟩
  rw [addField, LayoutM.reports_bind _ hvalue, reports_resolveField, List.nil_append]
  dsimp only
  rw [LayoutM.reports_liftM_bind _ hplace, Record.warningAt_field rfl hget, ← hd.2]
  dsimp only
  by_cases hlt : d.cursor.dataSize < offset
  · rw [if_pos hlt, if_pos (Quantity.lt_iff.mp hlt), ← paddedMember_eq hvalue hplaced]
    rfl
  · rw [if_neg hlt, if_neg (mt Quantity.lt_iff.mpr hlt)]
    rfl

/-- **All fields**: the warnings are those about the members that the draft gains. -/
theorem reports_addFieldsFrom {fields : List Field} (hfields : fields = record.fields.drop i)
    (hplaced : ∀ field ∈ fields, field.isZeroWidth = false) (hd : d.Meets)
    (h : (addFieldsFrom c record i fields d).value answer = .ok (.ok (), d')) :
    d'.Meets ∧ ∃ ms, d'.members = d.members ++ ms ∧
      (addFieldsFrom c record i fields d).reports answer =
        record.warningsFrom (lastStop 0 d.members) ms := by
  induction fields generalizing i d with
  | nil =>
    cases h
    exact ⟨hd, [], (List.append_nil _).symm, rfl⟩
  | cons field fields ih =>
    obtain ⟨hget, hdrop⟩ := of_cons_eq_drop hfields
    obtain ⟨hfield, hrest⟩ := List.forall_mem_cons.mp hplaced
    rw [addFieldsFrom, LayoutM.value_bind] at h
    obtain ⟨⟨result, after⟩, hadded, h⟩ := except_bind_eq_ok_iff.mp h
    cases result with
    | error e => cases h
    | ok =>
      obtain ⟨hmeets, m, -, hmembers, hreports⟩ := reports_addField hget hfield hd hadded
      obtain ⟨hmeets', ms, hmembers', hreports'⟩ := ih hdrop hrest hmeets h
      refine ⟨hmeets', m :: ms, ?_, ?_⟩
      · rw [hmembers', hmembers, List.append_assoc]
        rfl
      · rw [addFieldsFrom, LayoutM.reports_bind _ hadded, hreports, Record.warningsFrom,
          ← lastStop_append 0 d.members m, ← hmembers, ← hreports']

/-- **All bases** are placed from a draft that meets its last member to another one. -/
theorem meets_placeBases {bases : List ResolvedBase} (hd : d.Meets)
    (hbases : ∀ m ∈ d.members, m.member.isBase = true)
    (h : placeBases record i bases d = .ok (.ok (), d')) :
    d'.Meets ∧ ∀ m ∈ d'.members, m.member.isBase = true := by
  induction bases generalizing i d with
  | nil =>
    cases h
    exact ⟨hd, hbases⟩
  | cons base bases ih =>
    obtain ⟨after, hplaces, h⟩ := placeBases_cons_eq_ok h
    obtain ⟨offset, size, -, hmembers⟩ := hplaces.members_eq
    refine ih (hplaces.meets hd.1) (fun m hm => ?_) h
    rcases List.mem_append.mp (hmembers ▸ hm) with hm | hm
    · exact hbases m hm
    · cases List.mem_singleton.mp hm
      rfl

end StructDraft

/-! ### All padding is announced -/

/-- The padding of a struct is announced by the warnings `own`. These are, in order, one for each
field that starts behind the end of the member before it, and one for the region behind the last
member, if there is one. The regions that are not in front of a base are announced by one warning
each, in the same order. -/
structure RecordLayout.AnnouncesPadding (l : RecordLayout) (record : Record)
    (own : List Diagnostic) : Prop where
  own_eq : own = record.warningsFrom 0 l.members ++
    l.tail.map fun p => StructDraft.paddedRecord record p.length
  tail_length_le : l.tail.length ≤ 1
  announced : List.Forall₂ (l.Announces record) (l.padding.filter fun p => !l.isBeforeBase p) own
  unique : ∀ p ∈ l.padding, ∀ d d', l.Announces record p d → l.Announces record p d' → d = d'
  padding_nodup : l.padding.Nodup
  own_nodup : own.Nodup

namespace LayoutContext

open LayoutM

variable {c : LayoutContext} {answer : RecordId → Except Trap Answer} {record : Record}
  {l : RecordLayout}

/-- The program of a struct reports the padding in front of its fields, and then its end. -/
theorem reports_structLayout_eq (hkind : record.kind = .struct)
    (hplaced : ∀ field ∈ record.fields, field.isZeroWidth = false)
    (h : LayoutT.value answer (c.structLayout record) = .ok (.ok l)) :
    ∃ rest : BitCount, rest.count = 8 * l.size.count - l.lastStop ∧
      (c.structLayout record).run.reports answer = record.warningsFrom 0 l.members ++
        if l.lastStop < 8 * l.size.count then [StructDraft.paddedRecord record rest] else [] := by
  obtain ⟨bases, placements, hresolves⟩ := structLayout_resolves hkind h
  change LayoutM.value answer (StructDraft.addMembers c record _ >>= _) = _ at h
  rw [LayoutM.value_bind] at h
  obtain ⟨⟨result, d⟩, hadded, h⟩ := except_bind_eq_ok_iff.mp h
  cases result with
  | error e => cases h
  | ok =>
    have hmembers := hadded
    rw [StructDraft.addMembers, LayoutM.value_bind] at hmembers
    obtain ⟨⟨result, d₀⟩, hbases, hfields⟩ := except_bind_eq_ok_iff.mp hmembers
    cases result with
    | error e => cases hfields
    | ok =>
      have hplacedBases := hbases
      rw [hresolves.value_addBases hkind] at hplacedBases
      obtain ⟨hmeets₀, hall⟩ := StructDraft.meets_placeBases
        (StructDraft.meets_start c.profile.bitfieldPolicy)
        (fun _ hm => absurd hm List.not_mem_nil) hplacedBases
      obtain ⟨hmeets, ms, hms, hreports⟩ := StructDraft.reports_addFieldsFrom (i := 0)
        List.drop_zero.symm hplaced hmeets₀ hfields
      obtain ⟨rest, hrest, htail⟩ := reports_finish_eq h
      have hfinishes := StructDraft.finish_eq_ok h
      have hlast : l.dataSize.count = l.lastStop := by
        rw [hfinishes.dataSize_eq, RecordLayout.lastStop, hfinishes.members_eq, hmeets.2]
      rw [hlast] at hrest htail
      have hsilent : (StructDraft.addBases c record (.start c.profile.bitfieldPolicy)).Confined
          (fun _ => True) fun _ => False :=
        (within_addBases (T := fun _ => True) (fun _ _ => trivial) _
          (namesMembers_of_forall (fun _ => trivial) record) fun _ _ => trivial).confined
      refine ⟨rest, hrest, ?_⟩
      change LayoutM.reports answer (StructDraft.addMembers c record _ >>= _) = _
      rw [LayoutM.reports_bind _ hadded, StructDraft.addMembers, LayoutM.reports_bind _ hbases,
        hsilent.reports_eq_nil, List.nil_append, hfinishes.members_eq, hms,
        Record.warningsFrom_append, Record.warningsFrom_bases hall, List.nil_append]
      exact congrArg₂ (· ++ ·) hreports htail

/-- **Every struct without zero-width bit-fields announces its padding.** -/
theorem announcesPadding_of_answer {r : RecordId} (hclosed : c.schema.Closed)
    (hrecord : c.schema.records.get? r = some record) (hkind : record.kind = .struct)
    (hplaced : ∀ field ∈ record.fields, field.isZeroWidth = false)
    (h : c.answer r = .ok (.ok l)) : l.AnnouncesPadding record (c.ownReports r) := by
  have hl := value_layoutByKind_of_answer hclosed hrecord h
  obtain ⟨bases, placements, hresolves⟩ := layoutByKind_resolves hl
  obtain ⟨k⟩ := hresolves.nonempty_course hkind hl
  have hsorted := ((HasAnswer.accounted ((hasAnswer_iff hclosed).mpr h)).tallied
    k.finishes.kind_eq).members_sorted
  have hlists := k.lists hresolves hkind
  have horder := hlists.inOrder hsorted
  obtain ⟨bits, hbits, hgaps⟩ := k.finishes.padding_eq
  rw [← k.finishes.members_eq] at hgaps
  rw [Quantity.toBits_eq_ok_iff] at hbits
  obtain ⟨last, hlast, htail⟩ := RecordLayout.exists_tail_eq hsorted hgaps
  obtain ⟨hpositive, hincreasing⟩ := gapsFrom_ordered hgaps
  have hown : c.ownReports r = record.warningsFrom 0 l.members ++
      l.tail.map fun p => StructDraft.paddedRecord record p.length := by
    rw [layoutByKind, hkind] at hl
    obtain ⟨rest, hrest, hreports⟩ := reports_structLayout_eq hkind hplaced hl
    rw [ownReports_eq hclosed hrecord h, layoutByKind, hkind, ownErrors, List.append_nil]
    refine hreports.trans (congrArg _ ?_)
    rw [htail, ← hbits, ← hlast, gap]
    by_cases hlt : last.count < bits.count
    · rw [if_pos hlt, if_pos (Quantity.lt_iff.mpr hlt), List.map_singleton]
      rw [← hbits, ← hlast] at hrest
      exact congrArg (fun n => [StructDraft.paddedRecord record n]) (Quantity.ext hrest)
    · rw [if_neg hlt, if_neg (mt Quantity.lt_iff.mp hlt), List.map_nil]
  have hle : l.tail.length ≤ 1 := by
    rw [htail, gap]
    split <;> simp
  refine ⟨hown, hle, ?_, fun p hp d d' => ?_, ?_, ?_⟩
  · rw [hown, htail]
    have hmembers : l.members = [] ++ l.members := rfl
    exact horder.forall₂_announces hmembers hlast hbits rfl hgaps
  · exact RecordLayout.Announces.unique hsorted (hpositive p hp).2
  · exact hincreasing.imp fun hlt heq => (heq ▸ hlt).ne rfl
  · rw [hown]
    refine List.nodup_append.mpr ⟨?_, ?_, ?_⟩
    · exact Record.nodup_warningsFrom (hlists.members_eq ▸ record.nodup_placedMembers)
    · rw [htail, gap]
      split <;> simp
    · rintro d hd _ hd' rfl
      obtain ⟨m, -, i, field, -, rfl⟩ := Record.exists_of_mem_warningsFrom hd
      obtain ⟨p, -, heq⟩ := List.mem_map.mp hd'
      have htopic := congrArg Diagnostic.topic heq
      cases hbitfield : field.isBitfield <;>
        simp [StructDraft.paddedRecord, Record.paddedField, hbitfield] at htopic

end LayoutContext

/-! ### In sessions -/

namespace Session

open Relation

variable {α : Type}

/-- Behind what was collected before there are diagnostics, among them those of `own` that the sink
keeps, in order. -/
structure Pushes (s : Session) (own : List Diagnostic) (s' : Session) : Prop where
  settings_eq : s'.sink.settings = s.sink.settings
  collected_eq : ∃ added, s'.sink.collected = s.sink.collected ++ added ∧
    (own.filter s.sink.settings.keeps).Sublist added

theorem Pushes.refl (s : Session) : s.Pushes [] s := ⟨rfl, [], by simp, .slnil⟩

theorem Pushes.trans {s₁ s₂ s₃ : Session} {own own' : List Diagnostic} (h : s₁.Pushes own s₂)
    (h' : s₂.Pushes own' s₃) : s₁.Pushes (own ++ own') s₃ := by
  obtain ⟨hsettings, added, hadded, hown⟩ := h
  obtain ⟨hsettings', added', hadded', hown'⟩ := h'
  refine ⟨hsettings'.trans hsettings, added ++ added', ?_, ?_⟩
  · rw [hadded', hadded, List.append_assoc]
  · rw [List.filter_append]
    exact hown.append (hsettings ▸ hown')

/-- What has been pushed is still there when the diagnostics of `own` are left out. -/
theorem Pushes.silent {s s' : Session} {own : List Diagnostic} (h : s.Pushes own s') :
    s.Pushes [] s' := by
  obtain ⟨hsettings, added, hadded, -⟩ := h
  exact ⟨hsettings, added, hadded, List.nil_sublist added⟩

theorem pushes_report (s : Session) (d : Diagnostic) : s.Pushes [d] (s.report d) :=
  ⟨s.sink.settings_push d, _, s.sink.collected_push d, List.Sublist.refl _⟩

section Pushed

variable {c : LayoutContext} (hclosed : c.schema.Closed)

include hclosed

/-- A run pushes what its program reports, if the requests that it makes take nothing back. -/
theorem run_pushes {depth : Nat}
    (hrequest : ∀ r (s : Session) a s', s.Sound → s.context = c →
      requestWithin depth r s = .ok (a, s') → s.Pushes [] s') {x : α}
    (p : LayoutM α) {s s' : Session} (hs : s.Sound) (hc : s.context = c)
    (h : p.run (requestWithin depth) report s = .ok (x, s')) : s.Pushes (p.reports c.answer) s' :=
  run_adds hclosed (R := fun s _ own s' => s.Pushes own s') .refl
    (fun _ _ _ _ _ _ _ hfirst hsecond => hfirst.trans hsecond) pushes_report hrequest p hs hc h

/-- A request takes nothing back. -/
theorem requestWithin_pushes :
    (depth : Nat) → (r : RecordId) → (s : Session) → (a : Answer) → (s' : Session) → s.Sound →
      s.context = c → requestWithin depth r s = .ok (a, s') → s.Pushes [] s'
  | 0, _, _, _, _, _, _, h => nomatch h
  | depth + 1, r, s, a, s', hs, hc, h => by
    obtain ⟨-, rfl⟩ | ⟨-, s₁, hrun, rfl⟩ := requestWithin_cases h
    · exact .refl s'
    · have hpushed := (run_pushes hclosed (requestWithin_pushes depth) _ hs hc hrun).silent
      exact ⟨hpushed.settings_eq, hpushed.collected_eq⟩

/-- **What laying out a record pushes**: its own diagnostics, in order, and in between those of the
records that it contains. -/
theorem collected_record {s s' : Session} {r : RecordId} {a : Answer} (hs : s.Sound)
    (hc : s.context = c) (hnew : r ∉ s.computed) (h : s.record r = .ok (a, s')) :
    ∃ (added : List Diagnostic) (others : List RecordId),
      s'.sink.collected = s.sink.collected ++ added ∧
      (∀ q ∈ others, TransGen (Contains c.schema.records) r q) ∧
      ((c.ownReports r).filter s.sink.settings.keeps).Sublist added ∧
      added.Perm ((c.ownReports r ++ others.flatMap c.ownReports).filter
        s.sink.settings.keeps) := by
  have hmiss : s.answer? r = none := by
    by_contra hsome
    exact hnew (mem_computed_iff.mpr (Option.ne_none_iff_exists'.mp hsome))
  obtain ⟨s₁, hrun, hsink⟩ : ∃ s₁, (c.recordLayout r).run (requestWithin c.schema.records.size)
      report s = .ok (a, s₁) ∧ s'.sink = s₁.sink := by
    rw [record, exec, LayoutM.request, LayoutM.run_ask] at h
    obtain ⟨⟨b, s₂⟩, hrequest, h⟩ := except_bind_eq_ok_iff.mp h
    cases h
    obtain ⟨hb, -⟩ | ⟨-, s₁, hrun, rfl⟩ := requestWithin_cases hrequest
    · cases hmiss.symm.trans hb
    · exact ⟨s₁, hc ▸ hrun, rfl⟩
  obtain ⟨-, added, hadded, hown⟩ :=
    run_pushes hclosed (requestWithin_pushes hclosed _) _ hs hc hrun
  obtain ⟨others, hextends⟩ := run_extends hclosed (requestWithin_extends hclosed _) _ hs hc hrun
  refine ⟨added, others, hsink ▸ hadded, fun q hq => ?_, hown, ?_⟩
  · obtain ⟨r₀, hr₀, hreached⟩ := hextends.reached q hq
    rw [hc] at hreached
    exact .head' (LayoutContext.Asks.contains hr₀)
      (ReflTransGen.mono (fun _ _ hasks => hasks.contains) _ _ hreached)
  · have hperm := hextends.collected
    rw [hadded, hc, List.perm_append_left_iff] at hperm
    exact hperm

end Pushed

namespace Reachable

variable {d : Declarations} {schema : Schema} {profile : Profile} {s s' : Session} {r : RecordId}
  {record : Record} {l : RecordLayout}

/-- **The warnings about padding match the padding.** Under every profile, for every struct with a
layout and without zero-width bit-fields: what the computation of the record reports itself are the
warnings that announce its padding. A session that keeps all diagnostics, and has not laid out the
record before, collects these in order, and besides them only what records report that this one
contains. -/
theorem record_announces (hclose : d.close = .ok schema)
    (hs : Reachable schema profile .keepAll s) (hrecord : schema.records.get? r = some record)
    (hkind : record.kind = .struct)
    (hplaced : ∀ field ∈ record.fields, field.isZeroWidth = false)
    (h : s.record r = .ok (.ok l, s')) :
    l.AnnouncesPadding record (LayoutContext.ownReports ⟨schema, profile⟩ r) ∧
    (r ∉ s.computed → ∃ (added : List Diagnostic) (others : List RecordId),
      s'.sink.collected = s.sink.collected ++ added ∧
      (∀ q ∈ others, TransGen (Contains schema.records) r q) ∧
      (LayoutContext.ownReports ⟨schema, profile⟩ r).Sublist added ∧
      added.Perm (LayoutContext.ownReports ⟨schema, profile⟩ r ++
        others.flatMap (LayoutContext.ownReports ⟨schema, profile⟩))) := by
  obtain ⟨hclosed, -⟩ := Declarations.close_closed hclose
  have hanswer := record_sound hs.sound h
  rw [hs.context_eq, LayoutContext.hasAnswer_iff hclosed] at hanswer
  refine ⟨LayoutContext.announcesPadding_of_answer hclosed hrecord hkind hplaced hanswer,
    fun hnew => ?_⟩
  have hcollected := collected_record (c := ⟨schema, profile⟩) hclosed hs.sound hs.context_eq hnew h
  rw [hs.settings_eq hclosed] at hcollected
  simpa only [SinkSettings.filter_keepAll] using hcollected

end Reachable

end Session

/-- A struct with two bases, with padding in front of the second base, of a bit-field and of a
field, and at its end. -/
def Schema.entry : Schema where
  records := ⟨#[
    ⟨some "tag", .struct, [],
      [⟨some "kind", .primitive ⟨"char", .of 1, .of 1, .signedChar⟩, false⟩]⟩,
    ⟨some "stamp", .struct, [],
      [⟨some "time", .primitive ⟨"int", .of 4, .of 4, .signed⟩, false⟩]⟩,
    ⟨some "entry", .struct, [⟨.of 0, false⟩, ⟨.of 1, false⟩],
      [⟨some "mark", .primitive ⟨"char", .of 1, .of 1, .signedChar⟩, false⟩,
       ⟨some "level", .bitfield (.ofWidth ⟨"int", .of 4, .of 4, .signed⟩ (.of 30)), false⟩,
       ⟨some "end", .primitive ⟨"char", .of 1, .of 1, .signedChar⟩, false⟩]⟩],
    by decide⟩
  pointerSize := .of 8
  pointerAlignment := .of 8

/-- The declarations of the records of `Schema.entry`. -/
def Declarations.entry : Declarations where
  profile := .lp64
  records := ⟨(Schema.entry.records.values.toList.map fun record =>
    ⟨record.name, record.kind, some (record.bases, record.fields)⟩).toArray, by decide⟩

theorem Declarations.close_entry : entry.close = .ok Schema.entry := rfl

/-- The last struct of `Schema.entry` has four regions of padding. The first is in front of a base;
the other three are announced. -/
theorem Session.Reachable.record_announces_entry :
    ∃ record l s', Schema.entry.records.get? (.of 2) = some record ∧
      (Session.start Schema.entry { Profile.lp64 with allowsMultipleInheritance := true }
        .keepAll).record (.of 2) = .ok (.ok l, s') ∧
      l.padding = [⟨.of 8, .of 24⟩, ⟨.of 72, .of 24⟩, ⟨.of 126, .of 2⟩, ⟨.of 136, .of 24⟩] ∧
      s'.sink.collected.map Diagnostic.topic = [.paddedBitfield, .paddedField, .paddedRecord] ∧
      l.AnnouncesPadding record (LayoutContext.ownReports
        ⟨Schema.entry, { Profile.lp64 with allowsMultipleInheritance := true }⟩ (.of 2)) := by
  obtain ⟨l, s', h, hpadding, hcollected⟩ : ∃ l s',
      (Session.start Schema.entry { Profile.lp64 with allowsMultipleInheritance := true }
        .keepAll).record (.of 2) = .ok (.ok l, s') ∧
      l.padding = [⟨.of 8, .of 24⟩, ⟨.of 72, .of 24⟩, ⟨.of 126, .of 2⟩, ⟨.of 136, .of 24⟩] ∧
      s'.sink.collected.map Diagnostic.topic =
        [.paddedBitfield, .paddedField, .paddedRecord] := ⟨_, _, rfl, rfl, rfl⟩
  exact ⟨_, l, s', rfl, h, hpadding, hcollected,
    (record_announces Declarations.close_entry .start rfl rfl (by decide) h).1⟩

end AbiLayout
