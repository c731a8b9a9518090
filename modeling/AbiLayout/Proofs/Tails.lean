import AbiLayout.Proofs.Failures
import AbiLayout.Proofs.Enclosing
import AbiLayout.Proofs.Ideal.Comparison

/-!
# Where a struct ends

The data size of a struct is where its cursor stands at the end. Placing a member puts the cursor at
the end of that member, so the data size is the end of the last member, unless a zero-width
bit-field comes behind it: that moves the cursor and places nothing. The padding, on the other hand,
is computed from the members alone, and its last region is all that lies behind the last member.
Behind a zero-width bit-field the two differ, and the warning about padding at the end of the
record, which is computed from the data size, says less than the padding shows.

Nothing has to be asked of base types or pointers.

## Main definitions

* `RecordLayout.lastStop`: the end of the last member.
* `Record.EndsInBreak`: the last field is a zero-width bit-field.
* `Cursor.InUnit`: the cursor is within the open unit.
* `RecordLayout.Ends`: how a struct ends, and what is reported about it.

## Main results

* `exists_gap_of_gapsFrom`: the last padding region is what lies behind the last member.
* `StructDraft.Course.dataSize_eq_lastStop`: the data size, if no zero-width bit-field comes last.
* `LayoutContext.reports_structLayout`: what the program of a struct reports about its end.
* `Session.Reachable.record_ends`: how a struct ends that a session lays out.
-/

namespace AbiLayout

/-! ### The last member and the gap behind it -/

/-- The end of the last one of some members, `reached` if there are none. -/
def lastStop (reached : Nat) (ms : List PlacedMember) : Nat :=
  (ms.getLast?.map fun m => m.offset.count + m.extent.counted.count).getD reached

/-- The end of the last member, zero if there are none. -/
def RecordLayout.lastStop (l : RecordLayout) : Nat := AbiLayout.lastStop 0 l.members

@[simp] theorem lastStop_nil (reached : Nat) : lastStop reached [] = reached := rfl

@[simp] theorem lastStop_append (reached : Nat) (ms : List PlacedMember) (m : PlacedMember) :
    lastStop reached (ms ++ [m]) = m.offset.count + m.extent.counted.count := by
  simp [lastStop]

theorem lastStop_cons (reached : Nat) (m : PlacedMember) (ms : List PlacedMember) :
    lastStop reached (m :: ms) = lastStop (m.offset.count + m.extent.counted.count) ms := by
  cases h : ms.getLast? <;> simp [lastStop, List.getLast?_cons, h]

/-- The region between two bits, if there is one. -/
theorem mem_gap_iff {start stop : BitCount} {p : BitRange} : p ∈ gap start stop ↔
    start.count < stop.count ∧ p.offset = start ∧
      p.offset.count + p.length.count = stop.count := by
  obtain ⟨offset, length⟩ := p
  rw [gap]
  split
  · rename_i hlt
    have hcount : start.count < stop.count := hlt
    rw [List.mem_singleton, BitRange.mk.injEq]
    constructor
    · rintro ⟨rfl, rfl⟩
      exact ⟨hcount, rfl, Nat.add_sub_cancel' hcount.le⟩
    · rintro ⟨-, rfl, hstop⟩
      exact ⟨rfl, Quantity.ext (Nat.eq_sub_of_add_eq' hstop)⟩
  · exact iff_of_false List.not_mem_nil fun h => absurd h.1 ‹_›

/-- **The last padding region is what lies behind the last member**, if the members follow each
other. All other regions are in front of its start. -/
theorem exists_gap_of_gapsFrom {size reached : BitCount} {ms : List PlacedMember}
    {gaps : List BitRange}
    (hsorted : ms.Pairwise fun m m' => m.offset.count + m.extent.counted.count ≤ m'.offset.count)
    (hreached : ∀ m ∈ ms, reached.count ≤ m.offset.count)
    (h : gapsFrom size reached ms = .ok gaps) :
    ∃ (front : List BitRange) (last : BitCount), last.count = lastStop reached.count ms ∧
      reached.count ≤ last.count ∧
      (∀ p ∈ front, p.offset.count + p.length.count ≤ last.count) ∧
      gaps = front ++ gap last size := by
  induction ms generalizing reached gaps with
  | nil =>
    cases h
    exact ⟨[], reached, rfl, le_rfl, fun _ hp => (nomatch hp), rfl⟩
  | cons m ms ih =>
    obtain ⟨hhead, htail⟩ := List.pairwise_cons.mp hsorted
    obtain ⟨stop, hstop, h⟩ := except_bind_eq_ok_iff.mp h
    obtain ⟨later, hlater, h⟩ := except_bind_eq_ok_iff.mp h
    cases h
    rw [PlacedMember.stop, Quantity.add, Quantity.fit_eq_ok_iff] at hstop
    have hfirst : reached.count ≤ m.offset.count := hreached m List.mem_cons_self
    have hmax : (max reached stop).count = m.offset.count + m.extent.counted.count := by
      rw [Quantity.count_max]
      omega
    obtain ⟨front, last, hlast, hle, hfront, rfl⟩ :=
      ih htail (fun m' hm' => hmax ▸ hhead m' hm') hlater
    rw [hmax] at hlast hle
    refine ⟨gap reached m.offset ++ front, last, ?_, by omega, fun p hp => ?_, ?_⟩
    · rw [lastStop_cons, hlast]
    · rcases List.mem_append.mp hp with hp | hp
      · have hend := (mem_gap_iff.mp hp).2.2
        omega
      · exact hfront p hp
    · exact (List.append_assoc _ _ _).symm

/-! ### The cursor at the end of the last member -/

namespace Cursor

/-- No unit is open under the Itanium policy, and the cursor does not stand behind the end of an
open unit. -/
structure InUnit (c : Cursor) : Prop where
  shared : c.policy = .itanium → c.openUnit = none
  le_stop : ∀ unit, c.openUnit = some unit → c.dataSize.count ≤ unit.stop.count

variable {c c' : Cursor}

theorem inUnit_of_openUnit_eq_none (h : c.openUnit = none) : c.InUnit :=
  ⟨fun _ => h, fun _ hunit => nomatch h.symm.trans hunit⟩

/-- Ending a run never moves the cursor back, and leaves no unit open. -/
theorem InUnit.endRun (hc : c.InUnit) (h : c.endRun = .ok (some c')) :
    c'.policy = c.policy ∧ c.dataSize.count ≤ c'.dataSize.count ∧ c'.openUnit = none := by
  rw [Cursor.endRun] at h
  cases hpolicy : c.policy with
  | itanium =>
    rw [hpolicy] at h
    obtain ⟨boundary, hround, h⟩ := except_bind_eq_ok_iff.mp h
    obtain ⟨dataSize, rfl, rfl⟩ := Option.map_eq_some_iff.mp (Except.ok.inj h)
    exact ⟨hpolicy, Quantity.le_of_roundUp?_eq_some hround, hc.shared hpolicy⟩
  | strictUnits =>
    rw [hpolicy] at h
    cases hunit : c.openUnit with
    | none =>
      rw [hunit] at h
      cases h
      exact ⟨hpolicy, le_rfl, hunit⟩
    | some unit =>
      rw [hunit] at h
      dsimp only at h
      split at h
      · cases h
      · cases h
        exact ⟨rfl, hc.le_stop unit hunit, rfl⟩

/-- The cursor behind a member that is placed stands at its end. -/
def EndsAt (c : Cursor) (offset width : BitCount) : Prop :=
  c.InUnit ∧ c.dataSize.count = offset.count + width.count

/-- A member that is placed moves the cursor to its end, and opens no unit. -/
theorem placeAt_eq_some {offset width offset' : BitCount}
    (h : c.placeAt offset width = (some offset', c')) :
    offset' = offset ∧ c'.dataSize.count = offset.count + width.count ∧ c'.policy = c.policy ∧
      c'.openUnit = c.openUnit := by
  rw [placeAt] at h
  split at h
  · cases h
  · rename_i stop hstop
    rw [Quantity.add?, Quantity.fit?_eq_some_iff] at hstop
    cases h
    exact ⟨rfl, hstop, rfl, rfl⟩

/-- Placing bits where no unit is open puts the cursor at their end. -/
theorem endsAt_of_placeAt (hc : c.openUnit = none) {start width offset : BitCount}
    (h : c.placeAt start width = (some offset, c')) : c'.EndsAt offset width := by
  obtain ⟨rfl, hstop, -, hunit⟩ := placeAt_eq_some h
  exact ⟨inUnit_of_openUnit_eq_none (hunit.trans hc), hstop⟩

theorem endsAt_of_placeAligned (hc : c.openUnit = none) {alignment width offset : BitCount}
    (h : c.placeAligned alignment width = .ok (some offset, c')) : c'.EndsAt offset width := by
  obtain ⟨rounded, -, h⟩ := except_bind_eq_ok_iff.mp h
  cases rounded with
  | none => cases h
  | some start => exact endsAt_of_placeAt hc (Except.ok.inj h)

/-- A member of whole bytes leaves the cursor at its end. -/
theorem InUnit.placeWhole (hc : c.InUnit) {alignment width offset : BitCount}
    (h : c.placeWhole alignment width = .ok (some offset, c')) : c'.EndsAt offset width := by
  obtain ⟨closed, hclosed, h⟩ := except_bind_eq_ok_iff.mp h
  cases closed with
  | none => cases h
  | some closed => exact endsAt_of_placeAligned (hc.endRun hclosed).2.2 h

/-- A bit-field that fits into the open unit ends in it. -/
theorem le_stop_of_fitsOpenUnit? {p : Primitive} {width : BitCount}
    (h : c.fitsOpenUnit? p width = some true) (unit : StorageUnit)
    (hunit : c.openUnit = some unit) : c.dataSize.count + width.count ≤ unit.stop.count := by
  rw [fitsOpenUnit?, hunit] at h
  dsimp only at h
  split at h
  · obtain ⟨stop, hstop, hfits⟩ := Option.map_eq_some_iff.mp h
    rw [Quantity.add?, Quantity.fit?_eq_some_iff] at hstop
    rw [← hstop]
    exact of_decide_eq_true hfits
  · cases h

/-- A bit-field at the start of a fresh unit, which is no shorter, leaves the cursor at its end. -/
theorem InUnit.placeInFreshUnit (hc : c.InUnit) (hpolicy : c.policy = .strictUnits) {p : Primitive}
    {alignment unit width offset : BitCount} (hw : width.count ≤ unit.count)
    (h : c.placeInFreshUnit p alignment unit width = .ok (some offset, c')) :
    c'.EndsAt offset width := by
  obtain ⟨closed, hclosed, h⟩ := except_bind_eq_ok_iff.mp h
  cases closed with
  | none => cases h
  | some closed =>
    obtain ⟨rounded, -, h⟩ := except_bind_eq_ok_iff.mp h
    cases rounded with
    | none => cases h
    | some start =>
      dsimp only at h
      split at h
      · cases h
      · rename_i stop hstop
        rw [Quantity.add?, Quantity.fit?_eq_some_iff] at hstop
        obtain ⟨rfl, hend, hsame, hopen⟩ := placeAt_eq_some (Except.ok.inj h)
        have hstrict : c'.policy = .strictUnits := hsame.trans ((hc.endRun hclosed).1.trans hpolicy)
        refine ⟨⟨fun hitanium => ?_, fun u hu => ?_⟩, hend⟩
        · cases hstrict.symm.trans hitanium
        · cases hu.symm.trans hopen
          change c'.dataSize.count ≤ stop.count
          omega

/-- A bit-field that is no wider than its type leaves the cursor at its end. -/
theorem InUnit.placeBits (hc : c.InUnit) {p : Primitive} {width offset : BitCount}
    (hw : width.count ≤ p.bitSize) (h : c.placeBits p width = .ok (some offset, c')) :
    c'.EndsAt offset width := by
  obtain ⟨unit, hbits, h⟩ := except_bind_eq_ok_iff.mp h
  obtain ⟨alignment, -, h⟩ := except_bind_eq_ok_iff.mp h
  cases hpolicy : c.policy with
  | itanium =>
    rw [hpolicy] at h
    obtain ⟨used, -, h⟩ := except_bind_eq_ok_iff.mp h
    obtain ⟨reach, -, h⟩ := except_bind_eq_ok_iff.mp h
    split at h
    · exact endsAt_of_placeAligned (hc.shared hpolicy) h
    · exact endsAt_of_placeAt (hc.shared hpolicy) (Except.ok.inj h)
  | strictUnits =>
    rw [hpolicy] at h
    dsimp only at h
    split at h
    · cases h
    · rename_i hfits
      obtain ⟨rfl, hend, hsame, hopen⟩ := placeAt_eq_some (Except.ok.inj h)
      refine ⟨⟨fun hitanium => ?_, fun u hu => ?_⟩, hend⟩
      · cases (hsame.trans hpolicy).symm.trans hitanium
      · rw [hend]
        exact le_stop_of_fitsOpenUnit? hfits u (hopen.symm.trans hu)
    · rw [Primitive.bits, Quantity.toBits_eq_ok_iff] at hbits
      exact hc.placeInFreshUnit hpolicy (hbits ▸ hw) h

/-- A zero-width bit-field never moves the cursor back. -/
theorem InUnit.breakRun (hc : c.InUnit) {p : Primitive} (h : c.breakRun p = .ok (some c')) :
    c'.InUnit ∧ c.dataSize.count ≤ c'.dataSize.count := by
  cases hpolicy : c.policy with
  | itanium =>
    rw [Cursor.breakRun, hpolicy] at h
    obtain ⟨alignment, -, h⟩ := except_bind_eq_ok_iff.mp h
    obtain ⟨boundary, hround, h⟩ := except_bind_eq_ok_iff.mp h
    obtain ⟨dataSize, rfl, rfl⟩ := Option.map_eq_some_iff.mp (Except.ok.inj h)
    exact ⟨inUnit_of_openUnit_eq_none (hc.shared hpolicy), Quantity.le_of_roundUp?_eq_some hround⟩
  | strictUnits =>
    rw [Cursor.breakRun, hpolicy] at h
    obtain ⟨-, hle, hunit⟩ := hc.endRun h
    exact ⟨inUnit_of_openUnit_eq_none hunit, hle⟩

end Cursor

/-! ### The drafts of a struct -/

namespace StructDraft

variable {d d' : StructDraft} {i : Nat}

/-- The cursor stands behind the last member. -/
def Covers (d : StructDraft) : Prop :=
  d.cursor.InUnit ∧ lastStop 0 d.members ≤ d.cursor.dataSize.count

/-- The cursor stands at the end of the last member. -/
def Meets (d : StructDraft) : Prop :=
  d.cursor.InUnit ∧ d.cursor.dataSize.count = lastStop 0 d.members

theorem Meets.covers (h : d.Meets) : d.Covers := ⟨h.1, h.2.ge⟩

theorem meets_start (policy : BitfieldPolicy) : (start policy).Meets :=
  ⟨Cursor.inUnit_of_openUnit_eq_none rfl, rfl⟩

/-- A draft that gains a member, with the cursor at its end, meets its last member. -/
theorem Gains.meets {member : Member} {offset : BitCount} {extent : Extent} {asked : ByteCount}
    {tail : Bool} {cursor : Cursor} (h : d.Gains member offset extent asked tail cursor d')
    (hcursor : cursor.EndsAt offset extent.counted) : d'.Meets := by
  obtain ⟨alignment, -, rfl⟩ := h
  exact ⟨hcursor.1, by rw [hcursor.2, lastStop_append]⟩

theorem PlacesBase.meets {layout : RecordLayout} (h : d.PlacesBase i layout d')
    (hd : d.cursor.InUnit) : d'.Meets := by
  obtain ⟨alignment, size, offset, cursor, -, -, hplaced, hgains⟩ := h.gains
  exact hgains.meets (hd.placeWhole hplaced)

/-- A field that takes a place leads to a draft that meets its last member. -/
theorem Places.meets {isNamed : Bool} {placement : Placement}
    (h : d.Places i isNamed placement d') (hd : d.cursor.InUnit)
    (hw : ∀ b, placement = .bitfield b → b.width.count ≤ b.underlying.bitSize)
    (hplaced : ∀ p, placement ≠ .zeroWidth p) : d'.Meets := by
  cases placement with
  | zeroWidth p => exact absurd rfl (hplaced p)
  | bitfield b =>
    obtain ⟨offset, cursor, hbits, hgains⟩ := h.bitfield
    exact hgains.meets (hd.placeBits (hw b rfl) hbits)
  | bytes layout =>
    obtain ⟨alignment, offset, extent, cursor, -, -, hwhole, hgains⟩ := h.bytes
    exact hgains.meets (hd.placeWhole hwhole)

/-- Behind every field, the cursor stands behind the last member. -/
theorem Places.covers {isNamed : Bool} {placement : Placement}
    (h : d.Places i isNamed placement d') (hd : d.Covers)
    (hw : ∀ b, placement = .bitfield b → b.width.count ≤ b.underlying.bitSize) : d'.Covers := by
  by_cases hplaced : ∀ p, placement ≠ .zeroWidth p
  · exact (h.meets hd.1 hw hplaced).covers
  · obtain ⟨p, hp⟩ := not_forall_not.mp hplaced
    subst hp
    obtain ⟨cursor, hbreak, rfl⟩ := h.zeroWidth
    obtain ⟨hcursor, hle⟩ := hd.1.breakRun hbreak
    exact ⟨hcursor, hd.2.trans hle⟩

end StructDraft

/-! ### The end of a layout -/

/-- The last field of the record is a zero-width bit-field. -/
def Record.EndsInBreak (record : Record) : Prop :=
  ∃ field, record.fields.getLast? = some field ∧ field.isZeroWidth = true

namespace StructDraft.Course

variable {c : LayoutContext} {answer : RecordId → Except Trap Answer} {record : Record}
  {bases : List ResolvedBase} {placements : List Placement} {l : RecordLayout}
  (k : Course c.profile record bases placements l)

/-- Among the bases the cursor stands at the end of the last one. -/
theorem meets_based {i : Nat} (hi : i ≤ bases.length) : (k.based i).Meets := by
  induction i with
  | zero =>
    rw [k.based_zero]
    exact meets_start c.profile.bitfieldPolicy
  | succ i ih =>
    exact (k.placesBase (List.getElem?_eq_getElem hi)).meets (ih (Nat.le_of_succ_le hi)).1

variable (h : c.Resolves answer record bases placements)

include k h

/-- In front of every field the cursor stands behind the last member. -/
theorem covers_filled {i : Nat} (hi : i ≤ record.fields.length) : (k.filled i).Covers := by
  induction i with
  | zero =>
    rw [k.filled_zero]
    exact (k.meets_based le_rfl).covers
  | succ i ih =>
    have hget : record.fields[i]? = some record.fields[i] := List.getElem?_eq_getElem hi
    obtain ⟨placement, hplacement, -⟩ := h.exists_placement hget
    exact (k.places hget hplacement).covers (ih (Nat.le_of_succ_le hi))
      fun b hb => h.width_le hget (hb ▸ hplacement)

theorem lastStop_le_dataSize : l.lastStop ≤ l.dataSize.count := by
  rw [RecordLayout.lastStop, k.finishes.members_eq, k.finishes.dataSize_eq]
  exact (k.covers_filled h le_rfl).2

/-- **The data size is the end of the last member**, if the last field is no zero-width
bit-field. -/
theorem dataSize_eq_lastStop (hlast : ¬record.EndsInBreak) : l.dataSize.count = l.lastStop := by
  rw [RecordLayout.lastStop, k.finishes.members_eq, k.finishes.dataSize_eq]
  cases hn : record.fields.length with
  | zero =>
    rw [k.filled_zero]
    exact (k.meets_based le_rfl).2
  | succ n =>
    have hlt : n < record.fields.length := by omega
    have hget : record.fields[n]? = some record.fields[n] := List.getElem?_eq_getElem hlt
    obtain ⟨placement, hplacement, hvalue⟩ := h.exists_placement hget
    have hplaced (p : Primitive) : placement ≠ .zeroWidth p := by
      rintro rfl
      refine hlast ⟨record.fields[n], ?_, (LayoutContext.resolveField_isZeroWidth hvalue).mpr
        ⟨p, rfl⟩⟩
      rw [List.getLast?_eq_getElem?, hn]
      exact hget
    exact ((k.places hget hplacement).meets (k.covers_filled h hlt.le).1
      (fun b hb => h.width_le hget (hb ▸ hplacement)) hplaced).2

/-- The data size is no larger than the size. -/
theorem dataSize_le_size : l.dataSize.count ≤ 8 * l.size.count := by
  obtain ⟨closed, hclosed, hsize⟩ := k.finishes.size_eq
  obtain ⟨-, hle, -⟩ := (k.covers_filled h le_rfl).1.endRun hclosed
  have hcover : (closed.dataSize.count + 7) / 8 ≤ l.size.count :=
    Profile.le_of_recordSize?_eq_some hsize
  rw [k.finishes.dataSize_eq]
  omega

end StructDraft.Course

/-! ### What is reported -/

namespace LayoutContext

open LayoutM

variable {c : LayoutContext} {answer : RecordId → Except Trap Answer} {record : Record}
  {l : RecordLayout}

/-- The end of a struct is reported where the data size is smaller than the size, with the bits
between them. -/
def TailReported (record : Record) (l : RecordLayout) (own : List Diagnostic) : Prop :=
  ∃ rest : BitCount, rest.count = 8 * l.size.count - l.dataSize.count ∧
    own.filter (·.topic == .paddedRecord) =
      if l.dataSize.count < 8 * l.size.count then [StructDraft.paddedRecord record rest] else []

/-- Finishing a draft reports the end of the record, and nothing else. -/
theorem reports_finish_eq {d : StructDraft}
    (h : LayoutT.value answer (d.finish c record) = .ok (.ok l)) :
    ∃ rest : BitCount, rest.count = 8 * l.size.count - l.dataSize.count ∧
      (d.finish c record).run.reports answer =
        if l.dataSize.count < 8 * l.size.count then [StructDraft.paddedRecord record rest]
        else [] := by
  have hfinishes := StructDraft.finish_eq_ok h
  obtain ⟨closed, hclosed, hsize⟩ := hfinishes.size_eq
  obtain ⟨bits, hbits, hpadding⟩ := hfinishes.padding_eq
  have hcount := Quantity.toBits_eq_ok_iff.mp hbits
  rw [hfinishes.dataSize_eq, ← hcount]
  refine ⟨⟨bits.count - d.cursor.dataSize.count, Nat.sub_lt_of_lt bits.count_lt⟩, rfl, ?_⟩
  rw [StructDraft.finish, LayoutT.reports_liftM_bind _ hclosed]
  dsimp only
  rw [LayoutT.reports_liftM_bind _ hsize]
  dsimp only
  rw [LayoutT.reports_liftM_bind _ hbits]
  by_cases hlt : d.cursor.dataSize < bits
  · have hsub : bits.sub d.cursor.dataSize =
        .ok ⟨bits.count - d.cursor.dataSize.count, Nat.sub_lt_of_lt bits.count_lt⟩ :=
      if_neg (Nat.not_lt.mpr (Nat.le_of_lt hlt))
    rw [if_pos hlt, if_pos (Quantity.lt_iff.mp hlt), LayoutT.reports_liftM_bind _ hsub]
    change _ :: LayoutM.reports answer (ExceptT.run (liftM _ >>= _)) = _
    rw [LayoutT.reports_liftM_bind _ hpadding]
    rfl
  · rw [if_neg hlt, if_neg (mt Quantity.lt_iff.mpr hlt), LayoutT.reports_liftM_bind _ hpadding]
    rfl

theorem reports_finish {d : StructDraft}
    (h : LayoutT.value answer (d.finish c record) = .ok (.ok l)) :
    TailReported record l ((d.finish c record).run.reports answer) := by
  obtain ⟨rest, hrest, hreports⟩ := reports_finish_eq h
  refine ⟨rest, hrest, ?_⟩
  rw [hreports]
  split <;> rfl

/-- The program of a struct reports the end of the record, besides padding in front of fields. -/
theorem reports_structLayout
    (h : LayoutT.value answer (c.structLayout record) = .ok (.ok l)) :
    TailReported record l ((c.structLayout record).run.reports answer) := by
  have hmembers : (StructDraft.addMembers c record (.start c.profile.bitfieldPolicy)).Confined
      (fun _ => True) fun d => d.topic ≠ .paddedRecord := by
    refine (within_addMembers (T := fun _ => True) (fun _ _ => trivial) _ ?_
      (namesMembers_of_forall (fun _ => trivial) record) fun _ _ => trivial).confined
    intro i field placement
    cases placement <;> exact fun h => nomatch h
  change LayoutM.value answer (StructDraft.addMembers c record _ >>= _) = _ at h
  rw [LayoutM.value_bind] at h
  obtain ⟨⟨result, d⟩, hadded, h⟩ := except_bind_eq_ok_iff.mp h
  cases result with
  | error e => cases h
  | ok =>
    obtain ⟨rest, hrest, hfilter⟩ := reports_finish h
    refine ⟨rest, hrest, ?_⟩
    have hsilent : ((StructDraft.addMembers c record (.start c.profile.bitfieldPolicy)).reports
        answer).filter (·.topic == .paddedRecord) = [] :=
      List.filter_eq_nil_iff.mpr fun d hd => by simpa using hmembers.of_mem_reports d hd
    change List.filter _ (LayoutM.reports answer (StructDraft.addMembers c record _ >>= _)) = _
    rw [LayoutM.reports_bind _ hadded, List.filter_append, hsilent]
    exact hfilter

end LayoutContext

/-! ### How a struct ends -/

/-- How a struct ends that reports `own`: the data size lies between the end of the last member and
the size, and is the end of the last member unless a zero-width bit-field comes behind it. The last
padding region is all that lies behind the last member, and all others are in front of it. What is
reported about the end of the record are the bits behind the data size. -/
structure RecordLayout.Ends (l : RecordLayout) (record : Record) (own : List Diagnostic) :
    Prop where
  lastStop_le : l.lastStop ≤ l.dataSize.count
  dataSize_le : l.dataSize.count ≤ 8 * l.size.count
  dataSize_eq : ¬record.EndsInBreak → l.dataSize.count = l.lastStop
  padding_eq : ∃ (front : List BitRange) (last size : BitCount), last.count = l.lastStop ∧
    size.count = 8 * l.size.count ∧
    (∀ p ∈ front, p.offset.count + p.length.count ≤ l.lastStop) ∧ l.padding = front ++ gap last size
  reported : LayoutContext.TailReported record l own

namespace LayoutContext

variable {c : LayoutContext} {r : RecordId} {record : Record} {l : RecordLayout}

/-- **How every struct ends.** -/
theorem ends_of_answer (hclosed : c.schema.Closed) (hrecord : c.schema.records.get? r = some record)
    (hkind : record.kind = .struct) (h : c.answer r = .ok (.ok l)) :
    l.Ends record (c.ownReports r) := by
  have hl := value_layoutByKind_of_answer hclosed hrecord h
  have haccounted : l.Accounted := HasAnswer.accounted ((hasAnswer_iff hclosed).mpr h)
  obtain ⟨bases, placements, hresolves⟩ := layoutByKind_resolves hl
  obtain ⟨k⟩ := hresolves.nonempty_course hkind hl
  refine ⟨k.lastStop_le_dataSize hresolves, k.dataSize_le_size hresolves,
    k.dataSize_eq_lastStop hresolves, ?_, ?_⟩
  · obtain ⟨bits, hbits, hpadding⟩ := k.finishes.padding_eq
    rw [← k.finishes.members_eq] at hpadding
    obtain ⟨front, last, hlast, -, hfront, hsplit⟩ := exists_gap_of_gapsFrom
      (haccounted.tallied k.finishes.kind_eq).members_sorted (fun _ _ => Nat.zero_le _) hpadding
    have hlast : last.count = l.lastStop := hlast
    exact ⟨front, last, bits, hlast, Quantity.toBits_eq_ok_iff.mp hbits,
      fun p hp => (hfront p hp).trans hlast.le, hsplit⟩
  · have hreports : c.ownReports r = (c.structLayout record).run.reports c.answer := by
      rw [ownReports_eq hclosed hrecord h, layoutByKind, hkind]
      exact List.append_nil _
    rw [layoutByKind, hkind] at hl
    rw [hreports]
    exact reports_structLayout hl

end LayoutContext

namespace Session.Reachable

variable {d : Declarations} {schema : Schema} {profile : Profile} {settings : SinkSettings}
  {s s' : Session} {r : RecordId} {record : Record} {l : RecordLayout}

/-- **How a struct ends that a session lays out.** Under every profile, for every struct with a
layout: the data size is the end of the last member, unless the last field is a zero-width
bit-field; then it may be more, up to the size. The bits between the data size and the size are what
is reported as padding at the end of the record. A session that has not laid out the record before
pushes this report, with the reports of the records that it leads to. -/
theorem record_ends (hclose : d.close = .ok schema) (hs : Reachable schema profile settings s)
    (hrecord : schema.records.get? r = some record) (hkind : record.kind = .struct)
    (h : s.record r = .ok (.ok l, s')) :
    l.Ends record (LayoutContext.ownReports ⟨schema, profile⟩ r) ∧
    (r ∉ s.computed → ∃ new : List RecordId, r ∈ new ∧
      s'.sink.collected.Perm (s.sink.collected ++
        (new.flatMap (LayoutContext.ownReports ⟨schema, profile⟩)).filter
          s.sink.settings.keeps)) := by
  obtain ⟨hclosed, -⟩ := Declarations.close_closed hclose
  have hanswer := record_sound hs.sound h
  rw [hs.context_eq, LayoutContext.hasAnswer_iff hclosed] at hanswer
  refine ⟨LayoutContext.ends_of_answer hclosed hrecord hkind hanswer, fun hnew => ?_⟩
  obtain ⟨new, hextends⟩ :=
    extends_of_exec (c := ⟨schema, profile⟩) hclosed hs.sound hs.context_eq h
  have hmem : r ∈ s'.computed := hextends.roots_mem r (by simp)
  rw [hextends.computed_eq] at hmem
  have hsilent : (LayoutM.request r).reports (LayoutContext.answer ⟨schema, profile⟩) = [] := by
    rw [LayoutM.request, LayoutM.reports, hanswer]
    rfl
  have hcollected := hextends.collected
  rw [hsilent, List.nil_append, hs.context_eq] at hcollected
  exact ⟨new, (List.mem_append.mp hmem).resolve_right hnew, hcollected⟩

end Session.Reachable

/-- A struct of a bit-field, and one with a zero-width bit-field behind it. -/
def Schema.flags : Schema where
  records := ⟨#[
    ⟨some "flag", .struct, [],
      [⟨some "urgent", .bitfield (.ofWidth ⟨"int", .of 4, .of 4, .signed⟩ (.of 3)), false⟩]⟩,
    ⟨some "flags", .struct, [],
      [⟨some "urgent", .bitfield (.ofWidth ⟨"int", .of 4, .of 4, .signed⟩ (.of 3)), false⟩,
       ⟨none, .bitfield (.unitBreak ⟨"int", .of 4, .of 4, .signed⟩), false⟩]⟩],
    by decide⟩
  pointerSize := .of 8
  pointerAlignment := .of 8

/-- The declarations of the records of `Schema.flags`. -/
def Declarations.flags : Declarations where
  profile := .lp64
  records := ⟨(Schema.flags.records.values.toList.map fun record =>
    ⟨record.name, record.kind, some (record.bases, record.fields)⟩).toArray, by decide⟩

theorem Declarations.close_flags : flags.close = .ok Schema.flags := rfl

/-- Three bits are placed in the first struct of `Schema.flags`, and the rest of its four bytes is
reported. -/
theorem Session.Reachable.record_ends_flags :
    ∃ record l s', Schema.flags.records.get? (.of 0) = some record ∧
      (Session.start Schema.flags .lp64 .keepAll).record (.of 0) = .ok (.ok l, s') ∧
      l.dataSize.count = 3 ∧ s'.sink.collected.length = 1 ∧
      l.Ends record (LayoutContext.ownReports ⟨Schema.flags, .lp64⟩ (.of 0)) := by
  obtain ⟨l, s', h, hdata, hreported⟩ : ∃ l s',
      (Session.start Schema.flags .lp64 .keepAll).record (.of 0) = .ok (.ok l, s') ∧
        l.dataSize.count = 3 ∧ s'.sink.collected.length = 1 := ⟨_, _, rfl, rfl, rfl⟩
  exact ⟨_, l, s', rfl, h, hdata, hreported,
    (record_ends Declarations.close_flags .start rfl rfl h).1⟩

/-- Behind the last member of the second struct of `Schema.flags` there are 29 bits of padding,
under both policies. The zero-width bit-field has moved the data size past them, and nothing is
reported. -/
theorem Session.not_dataSize_eq_lastStop_flags :
    (∃ schema l s', Declarations.flags.close = .ok schema ∧
      (Session.start schema (Profile.lp64.withPolicy .itanium) .keepAll).record (.of 1) =
        .ok (.ok l, s') ∧
      l.lastStop = 3 ∧ l.dataSize.count = 32 ∧ 8 * l.size.count = 32 ∧
      l.padding = [⟨.of 3, .of 29⟩] ∧ s'.sink.collected = []) ∧
    ∃ schema l s', Declarations.flags.close = .ok schema ∧
      (Session.start schema (Profile.lp64.withPolicy .strictUnits) .keepAll).record (.of 1) =
        .ok (.ok l, s') ∧
      l.lastStop = 3 ∧ l.dataSize.count = 32 ∧ 8 * l.size.count = 32 ∧
      l.padding = [⟨.of 3, .of 29⟩] ∧ s'.sink.collected = [] :=
  ⟨⟨_, _, _, rfl, rfl, rfl, rfl, rfl, rfl, rfl⟩, _, _, _, rfl, rfl, rfl, rfl, rfl, rfl, rfl⟩

end AbiLayout
