import AbiLayout.Proofs.Ideal.Comparison
import AbiLayout.Proofs.Positions
import Mathlib.Data.List.Dedup

/-!
# Runs of bit-fields own whole storage units

Under the strict policy, the storage unit that is open while a struct is laid out does not show in
its layout. The drafts of the layout still have it: the unit of a bit-field is the one that is open
behind its step. Of two drafts of one layout, the later one has the same unit open, or stands behind
all room that the earlier one takes (`Ideal.Cursor.Passes`). So the units follow each other, and no
other member has a bit of one.

Nothing is assumed of the alignment of pointers, which need not be a power of two.

## Main definitions

* `Record.runBits`: the bits of a run of bit-fields.
* `Ideal.StorageUnit.Holds`, `Ideal.StorageUnit.Clears`: a member within and outside of a unit.
* `RecordLayout.OwnsUnits`: the bit-fields of a layout own storage units.
* `StructDraft.Course.units`: the units of a layout.

## Main results

* `StructDraft.Course.passes_filled`: a later draft stands in the same unit or behind all room.
* `StructDraft.Course.pairwise_units`: the units follow each other.
* `Session.Reachable.record_ownsUnits`: the bit-fields of every strict layout own storage units.
-/

namespace AbiLayout

/-! ### Runs of bit-fields -/

/-- The bits of the bit-field at position `i`. -/
def Record.bitsAt (record : Record) (i : Nat) : Nat :=
  match record.bitfieldAt? i with
  | some b => b.width.count
  | none => 0

/-- The bits of the `n` fields from position `i` on. -/
def Record.runBits (record : Record) (i n : Nat) : Nat :=
  ((List.range n).map fun j => record.bitsAt (i + j)).sum

@[simp] theorem Record.runBits_zero (record : Record) (i : Nat) : record.runBits i 0 = 0 := rfl

@[simp] theorem Record.runBits_succ (record : Record) (i n : Nat) :
    record.runBits i (n + 1) = record.runBits i n + record.bitsAt (i + n) := by
  simp [runBits, List.range_succ]

theorem Record.runBits_mono (record : Record) (i : Nat) {n n' : Nat} (h : n ≤ n') :
    record.runBits i n ≤ record.runBits i n' := by
  induction n', h using Nat.le_induction with
  | base => exact le_rfl
  | succ n' _ ih =>
    rw [runBits_succ]
    exact Nat.le_add_right_of_le ih

theorem Record.bitsAt_of_some {record : Record} {i : Nat} {b : Bitfield}
    (h : record.bitfieldAt? i = some b) : record.bitsAt i = b.width.count := by
  rw [bitsAt, h]

/-! ### Units and members -/

namespace Ideal.StorageUnit

/-- All bits of the member are bits of the unit. -/
def Holds (u : StorageUnit) (m : PlacedMember) : Prop :=
  u.start ≤ m.offset.count ∧ m.offset.count + m.extent.counted.count ≤ u.stop

/-- No bit of the member is one of the unit: the member begins behind it or ends in front of it. -/
def Clears (u : StorageUnit) (m : PlacedMember) : Prop :=
  u.stop ≤ m.offset.count ∨
    m.extent ≠ .unbounded ∧ m.offset.count + m.extent.counted.count ≤ u.start

end Ideal.StorageUnit

/-- The units are what the bit-fields of a layout own. They are aligned to their type, as long as
it, and follow each other within the layout; each bit-field is in exactly one of them, and anything
else has no bit of one. Two bit-fields with something else in between do not share a unit, and of
two bit-fields next to each other the second goes on in the unit of the first exactly if it fits
there. So a run that starts a unit is packed in it, as far as the unit reaches. -/
structure RecordLayout.OwnsUnits (record : Record) (l : RecordLayout)
    (units : List Ideal.StorageUnit) : Prop where
  aligned : ∀ u ∈ units, u.underlying.bitAlignment ∣ u.start ∧
    u.stop = u.start + u.underlying.bitSize
  sorted : units.Pairwise fun u v => u.stop ≤ v.start
  within : ∀ u ∈ units, u.start < u.stop ∧ u.stop ≤ 8 * l.size.count
  holds : ∀ i b, record.bitfieldAt? i = some b → ∃ m, l.field? i = some m ∧
    m.extent = .bits b.width ∧ ∃ u ∈ units, u.underlying = b.underlying ∧ u.Holds m ∧
      ∀ v ∈ units, v.Holds m → v = u
  used : ∀ u ∈ units, ∃ i m, (∃ b, record.bitfieldAt? i = some b) ∧ l.field? i = some m ∧ u.Holds m
  clears : ∀ m ∈ l.members, (∀ i b, m.member = .field i → record.bitfieldAt? i ≠ some b) →
    ∀ u ∈ units, u.Clears m
  separated : ∀ i j k b b', i < j → j < k → record.bitfieldAt? i = some b →
    record.bitfieldAt? k = some b' →
    (∀ b'', record.bitfieldAt? j = some b'' →
      b''.underlying ≠ b.underlying ∨ b''.underlying ≠ b'.underlying) →
    ∀ m m', l.field? i = some m → l.field? k = some m' → ∀ u ∈ units, u.Holds m → ¬u.Holds m'
  follows : ∀ i b b', record.bitfieldAt? i = some b → record.bitfieldAt? (i + 1) = some b' →
    b'.underlying = b.underlying →
    ∀ m m', l.field? i = some m → l.field? (i + 1) = some m' → ∀ u ∈ units, u.Holds m →
      (m'.offset.count = m.offset.count + b.width.count ∧ u.Holds m' ↔
        m.offset.count + b.width.count + b'.width.count ≤ u.stop)
  packed : ∀ i n p, (∀ j < n, ∃ b, record.bitfieldAt? (i + j) = some b ∧ b.underlying = p) →
    record.runBits i n ≤ p.bitSize →
    ∀ m, l.field? i = some m → ∀ u ∈ units, u.Holds m → m.offset.count = u.start →
      ∀ j < n, ∀ m', l.field? (i + j) = some m' →
        m'.offset.count = u.start + record.runBits i j ∧ u.Holds m'

/-! ### Later cursors -/

namespace Ideal.Cursor

variable {c c₁ c₂ c₃ : Cursor}

/-- The first bit of the open unit, or the cursor itself. -/
def floor (c : Cursor) : Nat :=
  match c.openUnit with
  | none => c.dataSize
  | some u => u.start

/-- The later cursor `c'` stands in the same open unit as `c`, or behind all room that `c` takes. -/
def Passes (c c' : Cursor) : Prop :=
  (∃ u, c.openUnit = some u ∧ c'.openUnit = some u) ∨ c.room .strictUnits ≤ c'.floor

theorem floor_of_none (h : c.openUnit = none) : c.floor = c.dataSize := by
  rw [floor, h]

theorem floor_of_some {u : StorageUnit} (h : c.openUnit = some u) : c.floor = u.start := by
  rw [floor, h]

theorem floor_le_room (hc : c.Valid .strictUnits) : c.floor ≤ c.room .strictUnits := by
  cases h : c.openUnit with
  | none => rw [floor_of_none h, room_strictUnits_of_none h]
  | some u =>
    rw [floor_of_some h, room_strictUnits_of_some h]
    exact (hc.start_le u h).trans (hc.dataSize_le u h)

theorem Passes.refl (c : Cursor) : c.Passes c := by
  cases h : c.openUnit with
  | none =>
    refine .inr ?_
    rw [floor_of_none h, room_strictUnits_of_none h]
  | some u => exact .inl ⟨u, h, h⟩

theorem Passes.trans (h₂ : c₂.Valid .strictUnits) (h : c₁.Passes c₂) (h' : c₂.Passes c₃) :
    c₁.Passes c₃ := by
  rcases h with ⟨u, hu₁, hu₂⟩ | h
  · rcases h' with ⟨v, hv₂, hv₃⟩ | h'
    · cases hu₂.symm.trans hv₂
      exact .inl ⟨u, hu₁, hv₃⟩
    · rw [room_strictUnits_of_some hu₂, ← room_strictUnits_of_some hu₁] at h'
      exact .inr h'
  · rcases h' with ⟨v, hv₂, hv₃⟩ | h'
    · rw [floor_of_some hv₂, ← floor_of_some hv₃] at h
      exact .inr h
    · exact .inr ((h.trans (floor_le_room h₂)).trans h')

/-- Past a cursor without an open unit, everything lies behind all room. -/
theorem Passes.dataSize_le_floor (h : c₁.Passes c₂) (hunit : c₁.openUnit = none) :
    c₁.dataSize ≤ c₂.floor := by
  rcases h with ⟨u, hu, -⟩ | h
  · cases hunit.symm.trans hu
  · rwa [room_strictUnits_of_none hunit] at h

/-- An open unit ends within the room of every later cursor. -/
theorem Passes.stop_le_room (h : c₁.Passes c₂) (h₂ : c₂.Valid .strictUnits) {u : StorageUnit}
    (hu : c₁.openUnit = some u) : u.stop ≤ c₂.room .strictUnits := by
  rcases h with ⟨v, hv₁, hv₂⟩ | h
  · cases hu.symm.trans hv₁
    exact (room_strictUnits_of_some hv₂).ge
  · rw [room_strictUnits_of_some hu] at h
    exact h.trans (floor_le_room h₂)

/-- Of two open units, the later one is the same or begins behind the other one. -/
theorem Passes.eq_or_stop_le (h : c₁.Passes c₂) {u v : StorageUnit} (hu : c₁.openUnit = some u)
    (hv : c₂.openUnit = some v) : u = v ∨ u.stop ≤ v.start := by
  rcases h with ⟨w, hw₁, hw₂⟩ | h
  · cases hu.symm.trans hw₁
    exact .inl (Option.some.inj (hw₂.symm.trans hv))
  · rw [room_strictUnits_of_some hu, floor_of_some hv] at h
    exact .inr h

/-- Where the same unit is open before and after, it is open in between. -/
theorem Passes.openUnit_between (h₂ : c₂.Valid .strictUnits) (h : c₁.Passes c₂)
    (h' : c₂.Passes c₃) {u : StorageUnit} (hpos : u.start < u.stop) (hu : c₁.openUnit = some u)
    (hu' : c₃.openUnit = some u) : c₂.openUnit = some u := by
  rcases h with ⟨v, hv₁, hv₂⟩ | h
  · cases hu.symm.trans hv₁
    exact hv₂
  · rcases h' with ⟨v, hv₂, hv₃⟩ | h'
    · cases hu'.symm.trans hv₃
      exact hv₂
    · rw [room_strictUnits_of_some hu] at h
      rw [floor_of_some hu'] at h'
      have := floor_le_room h₂
      omega

/-- What a strict cursor does to place a bit-field: it goes on in the open unit, where the bit-field
fits there, or starts a fresh one behind all room. -/
theorem placeBits_strictUnits (p : Primitive) (width : Nat) :
    (∃ u, c.openUnit = some u ∧ u.underlying = p ∧ c.dataSize + width ≤ u.stop ∧
      c.placeBits .strictUnits p width = (c.dataSize, ⟨c.dataSize + width, some u⟩)) ∨
    ((∀ u, c.openUnit = some u → u.underlying = p → u.stop < c.dataSize + width) ∧
      c.placeBits .strictUnits p width = c.placeInFreshUnit p width) := by
  cases hu : c.openUnit with
  | none =>
    exact .inr ⟨fun _ h => (nomatch h), if_neg (by simp [fitsOpenUnit, hu])⟩
  | some u =>
    by_cases hfits : u.underlying = p ∧ c.dataSize + width ≤ u.stop
    · refine .inl ⟨u, rfl, hfits.1, hfits.2, ?_⟩
      rw [placeBits, fitsOpenUnit, hu]
      simp [hfits.1, hfits.2, placeAt, hu]
    · refine .inr ⟨fun v hv hp => ?_, ?_⟩
      · cases hv
        exact Nat.lt_of_not_le fun hle => hfits ⟨hp, hle⟩
      · rw [placeBits, fitsOpenUnit, hu]
        simp [← Bool.decide_and, hfits]

theorem passes_placeBits {p : Primitive} (hp : p.Usable) {width : Nat} :
    c.Passes (c.placeBits .strictUnits p width).2 := by
  rcases placeBits_strictUnits p width with ⟨u, hu, -, -, hplaced⟩ | ⟨-, hplaced⟩
  · rw [hplaced]
    exact .inl ⟨u, hu, rfl⟩
  · rw [hplaced]
    exact .inr (le_nextMultiple _ hp.bitAlignment_pos)

theorem passes_endRun (hc : c.Valid .strictUnits) : c.Passes (c.endRun .strictUnits) := by
  refine .inr ?_
  rw [floor_of_none (openUnit_endRun hc)]
  rfl

end Ideal.Cursor

/-! ### The units of a layout -/

namespace StructDraft.Course

variable {c : LayoutContext} {answer : RecordId → Except Trap Answer} {record : Record}
  {bases : List ResolvedBase} {placements : List Placement} {l : RecordLayout}
  (k : Course c.profile record bases placements l)

/-- The unit of the bit-field at position `i`: the one that is open behind its step. -/
def unitAt? (i : Nat) : Option Ideal.StorageUnit :=
  match record.bitfieldAt? i with
  | some _ => (k.cursorAt (i + 1)).openUnit
  | none => none

/-- The units of the bit-fields, each once. -/
def units : List Ideal.StorageUnit :=
  ((List.range record.fields.length).filterMap k.unitAt?).dedup

variable (h : c.Resolves answer record bases placements)
  (hframed : ∀ placement ∈ placements, placement.Framed)
  (hpolicy : c.profile.bitfieldPolicy = .strictUnits)

include h hframed hpolicy

theorem valid_strictUnits {i : Nat} (hi : i ≤ record.fields.length) :
    (k.cursorAt i).Valid .strictUnits := hpolicy ▸ (k.valid_cursorAt h hframed hi).2

/-- A step leads to a cursor in the same unit or behind all room. -/
theorem passes_succ {i : Nat} (hi : i < record.fields.length) :
    (k.cursorAt i).Passes (k.cursorAt (i + 1)) := by
  have hget : record.fields[i]? = some record.fields[i] := List.getElem?_eq_getElem hi
  obtain ⟨placement, hplacement, -⟩ := h.exists_placement hget
  have hvalid := k.valid_strictUnits h hframed hpolicy hi.le
  cases placement with
  | zeroWidth p =>
    rw [k.break_step h hframed hplacement, hpolicy]
    exact Ideal.Cursor.passes_endRun hvalid
  | bitfield b =>
    obtain ⟨m, -, -, -, hplaced⟩ := k.bits_step h hframed hplacement
    have hp := (hframed _ (List.mem_of_getElem? hplacement)).1
    have hpasses : (k.cursorAt i).Passes
        ((k.cursorAt i).placeBits .strictUnits b.underlying b.width.count).2 :=
      Ideal.Cursor.passes_placeBits hp
    rwa [← hpolicy, hplaced] at hpasses
  | bytes layout =>
    obtain ⟨m, -, -, -, hroom, -, hnext⟩ := k.whole_step h hframed hplacement
    rw [hnext]
    rw [hpolicy] at hroom
    exact .inr (hroom.trans (Nat.le_add_right _ _))

/-- **A later draft stands in the same unit, or behind all room of the earlier one.** -/
theorem passes_filled {i j : Nat} (hij : i ≤ j) (hj : j ≤ record.fields.length) :
    (k.cursorAt i).Passes (k.cursorAt j) := by
  induction j, hij using Nat.le_induction with
  | base => exact .refl _
  | succ j _ ih =>
    have hle := Nat.le_of_succ_le hj
    exact (ih hle).trans (k.valid_strictUnits h hframed hpolicy hle)
      (k.passes_succ h hframed hpolicy hj)

/-- Behind a field that is no bit-field with bits, no unit is open. -/
theorem openUnit_eq_none {i : Nat} (hi : i < record.fields.length)
    (hbits : record.bitfieldAt? i = none) : (k.cursorAt (i + 1)).openUnit = none := by
  have hget : record.fields[i]? = some record.fields[i] := List.getElem?_eq_getElem hi
  obtain ⟨placement, hplacement, -⟩ := h.exists_placement hget
  cases placement with
  | zeroWidth p =>
    rw [k.break_step h hframed hplacement, hpolicy]
    exact Ideal.Cursor.openUnit_endRun (k.valid_strictUnits h hframed hpolicy hi.le)
  | bitfield b =>
    rw [h.bitfieldAt?_eq_some_iff.mpr hplacement] at hbits
    cases hbits
  | bytes layout =>
    obtain ⟨m, -, -, -, -, -, hnext⟩ := k.whole_step h hframed hplacement
    rw [hnext]

/-- A bit-field lies in the unit that is open behind its step, which is one of its own type. It goes
on where the cursor is, if the open unit has room for it, and otherwise starts its unit behind all
room. -/
theorem unit_of_bitfield {i : Nat} {b : Bitfield} (hb : record.bitfieldAt? i = some b) :
    ∃ u, ∃ m ∈ l.members, (k.cursorAt (i + 1)).openUnit = some u ∧ u.underlying = b.underlying ∧
      m.member = .field i ∧ m.extent = .bits b.width ∧
      u.start ≤ m.offset.count ∧ m.offset.count + b.width.count ≤ u.stop ∧
      (k.cursorAt (i + 1)).dataSize = m.offset.count + b.width.count ∧
      (((k.cursorAt i).openUnit = some u ∧ m.offset.count = (k.cursorAt i).dataSize) ∨
        ((∀ v, (k.cursorAt i).openUnit = some v → v.underlying = b.underlying →
            v.stop < (k.cursorAt i).dataSize + b.width.count) ∧
          m.offset.count = u.start)) := by
  have hplacement := h.bitfieldAt?_eq_some_iff.mp hb
  obtain ⟨hi, -⟩ := k.exists_places h hplacement
  obtain ⟨hp, hpos, hw⟩ := hframed _ (List.mem_of_getElem? hplacement)
  have hvalid := k.valid_strictUnits h hframed hpolicy hi.le
  obtain ⟨m, hm, hmember, hextent, hplaced⟩ := k.bits_step h hframed hplacement
  rw [hpolicy] at hplaced
  rcases Ideal.Cursor.placeBits_strictUnits (c := k.cursorAt i) b.underlying b.width.count with
    ⟨u, hu, hunder, hfits, hstep⟩ | ⟨hfull, hstep⟩
  · obtain ⟨hoffset, hnext⟩ := Prod.mk.inj (hplaced.symm.trans hstep)
    rw [hnext]
    exact ⟨u, m, hm, rfl, hunder, hmember, hextent, hoffset ▸ hvalid.start_le u hu,
      hoffset ▸ hfits, hoffset ▸ rfl, .inl ⟨hu, hoffset⟩⟩
  · obtain ⟨hoffset, hnext⟩ := Prod.mk.inj (hplaced.symm.trans hstep)
    rw [hnext]
    refine ⟨_, m, hm, rfl, rfl, hmember, hextent, hoffset.ge, ?_, ?_, .inr ⟨hfull, hoffset⟩⟩
    · rw [hoffset]
      exact Nat.add_le_add_left hw _
    · rw [hoffset]

omit h hframed hpolicy in
theorem unitAt?_eq_some_iff {i : Nat} {u : Ideal.StorageUnit} : k.unitAt? i = some u ↔
    ∃ b, record.bitfieldAt? i = some b ∧ (k.cursorAt (i + 1)).openUnit = some u := by
  rw [unitAt?]
  cases record.bitfieldAt? i <;> simp

omit h hframed hpolicy in
/-- The units are those open behind the bit-fields. -/
theorem mem_units {u : Ideal.StorageUnit} : u ∈ k.units ↔ ∃ i b, record.bitfieldAt? i = some b ∧
    (k.cursorAt (i + 1)).openUnit = some u := by
  rw [units, List.mem_dedup, List.mem_filterMap]
  refine exists_congr fun i => (and_congr_right fun _ => k.unitAt?_eq_some_iff).trans ?_
  exact and_iff_right_of_imp fun ⟨_, hb, _⟩ => List.mem_range.mpr (Record.lt_of_bitfieldAt? hb)

/-- **The units follow each other.** -/
theorem pairwise_units : k.units.Pairwise fun u v => u.stop ≤ v.start := by
  have hpairwise : ((List.range record.fields.length).filterMap k.unitAt?).Pairwise
      fun u v => u = v ∨ u.stop ≤ v.start := by
    rw [List.pairwise_filterMap]
    refine List.pairwise_lt_range.imp_of_mem fun {i j} hi hj hij u hu v hv => ?_
    obtain ⟨-, -, hu⟩ := k.unitAt?_eq_some_iff.mp hu
    obtain ⟨-, -, hv⟩ := k.unitAt?_eq_some_iff.mp hv
    exact (k.passes_filled h hframed hpolicy (Nat.succ_le_succ hij.le)
      (List.mem_range.mp hj)).eq_or_stop_le hu hv
  refine ((hpairwise.sublist (List.dedup_sublist _)).and (List.nodup_dedup _)).imp ?_
  rintro u v ⟨heq | hle, hne⟩
  · exact absurd heq hne
  · exact hle

/-- Two units are the same, or one is in front of the other. -/
theorem eq_or_stop_le {u v : Ideal.StorageUnit} (hu : u ∈ k.units) (hv : v ∈ k.units) :
    u = v ∨ u.stop ≤ v.start ∨ v.stop ≤ u.start := by
  obtain ⟨i, b, hb, hu⟩ := k.mem_units.mp hu
  obtain ⟨j, b', hb', hv⟩ := k.mem_units.mp hv
  rcases le_total i j with hij | hji
  · exact ((k.passes_filled h hframed hpolicy (Nat.succ_le_succ hij)
      (Record.lt_of_bitfieldAt? hb')).eq_or_stop_le hu hv).imp_right .inl
  · exact ((k.passes_filled h hframed hpolicy (Nat.succ_le_succ hji)
      (Record.lt_of_bitfieldAt? hb)).eq_or_stop_le hv hu).imp .symm .inr

/-- No two units hold the same bit-field. -/
theorem eq_of_holds {i : Nat} {b : Bitfield} (hb : record.bitfieldAt? i = some b)
    {m : PlacedMember} (hextent : m.extent = .bits b.width) {u v : Ideal.StorageUnit}
    (hu : u ∈ k.units) (hv : v ∈ k.units) (hum : u.Holds m) (hvm : v.Holds m) : u = v := by
  have hpos := (hframed _ (List.mem_of_getElem? (h.bitfieldAt?_eq_some_iff.mp hb))).2.1
  have hcounted : m.extent.counted.count = b.width.count := by rw [hextent]; rfl
  obtain ⟨hustart, hustop⟩ := hum
  obtain ⟨hvstart, hvstop⟩ := hvm
  rcases k.eq_or_stop_le h hframed hpolicy hu hv with heq | hle | hle
  · exact heq
  · omega
  · omega

/-- Every unit is that of a bit-field: aligned, within the layout, and with room for bits. -/
theorem unit_within {u : Ideal.StorageUnit} (hu : u ∈ k.units) :
    (u.underlying.bitAlignment ∣ u.start ∧ u.stop = u.start + u.underlying.bitSize) ∧
      u.start < u.stop ∧ u.stop ≤ 8 * l.size.count := by
  obtain ⟨i, b, hb, hunit⟩ := k.mem_units.mp hu
  have hi := Record.lt_of_bitfieldAt? hb
  have hvalid := k.valid_strictUnits h hframed hpolicy hi
  obtain ⟨-, hpos, hw⟩ := hframed _ (List.mem_of_getElem? (h.bitfieldAt?_eq_some_iff.mp hb))
  obtain ⟨v, m, -, hv, hunder, -⟩ := k.unit_of_bitfield h hframed hpolicy hb
  cases hunit.symm.trans hv
  have hsize : 0 < u.underlying.bitSize := hunder ▸ hpos.trans_le hw
  have hstop := hvalid.stop_eq u hunit
  have hroom := (k.passes_filled h hframed hpolicy hi le_rfl).stop_le_room
    (k.valid_strictUnits h hframed hpolicy le_rfl) hunit
  have hcover := k.room_le h hframed
  rw [hpolicy] at hcover
  exact ⟨⟨hvalid.aligned u hunit, hstop⟩, by omega, hroom.trans hcover⟩

/-- A unit of a bit-field is one of its type. -/
theorem underlying_of_openUnit {i : Nat} {b : Bitfield} (hb : record.bitfieldAt? i = some b)
    {u : Ideal.StorageUnit} (hunit : (k.cursorAt (i + 1)).openUnit = some u) :
    u.underlying = b.underlying := by
  obtain ⟨v, m, -, hv, hunder, -⟩ := k.unit_of_bitfield h hframed hpolicy hb
  cases hunit.symm.trans hv
  exact hunder

/-! ### What the units are to the members -/

variable (hkind : record.kind = .struct)

include hkind

/-- The unit of a bit-field is one of the units, and holds the member of the bit-field. -/
theorem exists_unit {i : Nat} {b : Bitfield} (hb : record.bitfieldAt? i = some b) :
    ∃ m, l.field? i = some m ∧ m.extent = .bits b.width ∧ ∃ u ∈ k.units,
      u.underlying = b.underlying ∧ u.Holds m ∧ (k.cursorAt (i + 1)).openUnit = some u := by
  obtain ⟨u, m, hm, hunit, hunder, hmember, hextent, hstart, hstop, -⟩ :=
    k.unit_of_bitfield h hframed hpolicy hb
  refine ⟨m, (k.lists h hkind).member?_eq_some_iff.mpr ⟨hm, hmember⟩, hextent, u,
    k.mem_units.mpr ⟨i, b, hb, hunit⟩, hunder, ⟨hstart, ?_⟩, hunit⟩
  rw [hextent]
  exact hstop

/-- A unit that holds a bit-field is the one open behind it. -/
theorem openUnit_of_holds {i : Nat} {b : Bitfield} (hb : record.bitfieldAt? i = some b)
    {m : PlacedMember} (hm : l.field? i = some m) {u : Ideal.StorageUnit} (hu : u ∈ k.units)
    (hholds : u.Holds m) : (k.cursorAt (i + 1)).openUnit = some u := by
  obtain ⟨m', hm', hextent, v, hv, -, hholds', hunit⟩ := k.exists_unit h hframed hpolicy hkind hb
  cases hm.symm.trans hm'
  rwa [k.eq_of_holds h hframed hpolicy hb hextent hu hv hholds hholds']

/-- A base has no bit of a unit: it is in front of all fields. -/
theorem clears_of_base {m : PlacedMember} (hm : m ∈ l.members) {i : Nat}
    (hmember : m.member = .base i) {u : Ideal.StorageUnit} (hu : u ∈ k.units) : u.Clears m := by
  obtain ⟨j, b, hb, hunit⟩ := k.mem_units.mp hu
  obtain ⟨-, size, -, hextent, -⟩ := (k.lists h hkind).ofBase i m hm hmember
  have hbounded : m.extent ≠ .unbounded := by
    rw [hextent]
    exact Extent.noConfusion
  have hstart := k.mem_filled_zero_of_base h hm hmember
  obtain ⟨hnone, hstops⟩ := k.stop_le_based le_rfl
  rw [← k.filled_zero] at hnone hstops
  have hfloor := (k.passes_filled h hframed hpolicy (Nat.zero_le (j + 1))
    (Record.lt_of_bitfieldAt? hb)).dataSize_le_floor hnone
  rw [Ideal.Cursor.floor_of_some hunit] at hfloor
  exact .inr ⟨hbounded, (hstops m hstart).trans hfloor⟩

/-- A field that is no bit-field with bits has no bit of a unit: it is behind the units of all
bit-fields in front of it, and ends in front of the units of those behind it. -/
theorem clears_of_field {m : PlacedMember} (hm : m ∈ l.members) {i : Nat}
    (hmember : m.member = .field i) (hbits : record.bitfieldAt? i = none)
    {u : Ideal.StorageUnit} (hu : u ∈ k.units) : u.Clears m := by
  obtain ⟨j, b, hb, hunit⟩ := k.mem_units.mp hu
  have hj := Record.lt_of_bitfieldAt? hb
  have hlists := k.lists h hkind
  obtain ⟨placement, hplacement, hreaches⟩ := hlists.ofField i m hm hmember
  have hi := (k.exists_places h hplacement).1
  cases placement with
  | zeroWidth p => exact hreaches.elim
  | bitfield b' => cases hbits.symm.trans (h.bitfieldAt?_eq_some_iff.mpr hplacement)
  | bytes layout =>
    obtain ⟨m', hm', hmember', -, hroom, -, hnext⟩ := k.whole_step h hframed hplacement
    have hsame := hlists.member?_eq_some_iff.mpr ⟨hm, hmember⟩
    cases hsame.symm.trans (hlists.member?_eq_some_iff.mpr ⟨hm', hmember'⟩)
    rw [hpolicy] at hroom
    rcases lt_trichotomy i j with hij | rfl | hji
    · have hfloor := (k.passes_filled h hframed hpolicy (Nat.succ_le_succ hij.le)
        hj).dataSize_le_floor (by rw [hnext])
      rw [Ideal.Cursor.floor_of_some hunit, hnext] at hfloor
      refine .inr ⟨fun hextent => ?_, hfloor⟩
      have hunion (hu : record.kind = .union) : record.bases = [] := nomatch hkind.symm.trans hu
      obtain ⟨-, i', hmember', hlast⟩ := h.last_of_unbounded hlists hunion hm hextent
      cases hmember.symm.trans hmember'
      omega
    · cases hb.symm.trans hbits
    · exact .inl (((k.passes_filled h hframed hpolicy hji hi.le).stop_le_room
        (k.valid_strictUnits h hframed hpolicy hi.le) hunit).trans hroom)

/-- Two bit-fields with something else in between do not share a unit: behind it, no unit is open,
or one of another type. -/
theorem not_holds_of_separated {i j n : Nat} {b b' : Bitfield} (hij : i < j) (hjn : j < n)
    (hb : record.bitfieldAt? i = some b) (hb' : record.bitfieldAt? n = some b')
    (hbetween : ∀ b'', record.bitfieldAt? j = some b'' →
      b''.underlying ≠ b.underlying ∨ b''.underlying ≠ b'.underlying)
    {m m' : PlacedMember} (hm : l.field? i = some m) (hm' : l.field? n = some m')
    {u : Ideal.StorageUnit} (hu : u ∈ k.units) (hholds : u.Holds m) : ¬u.Holds m' := by
  intro hholds'
  have hn := Record.lt_of_bitfieldAt? hb'
  have hfirst := k.openUnit_of_holds h hframed hpolicy hkind hb hm hu hholds
  have hlast := k.openUnit_of_holds h hframed hpolicy hkind hb' hm' hu hholds'
  have hmiddle : (k.cursorAt (j + 1)).openUnit = some u :=
    Ideal.Cursor.Passes.openUnit_between
      (k.valid_strictUnits h hframed hpolicy (Nat.succ_le_of_lt (hjn.trans hn)))
      (k.passes_filled h hframed hpolicy (Nat.succ_le_succ hij.le) (hjn.trans hn))
      (k.passes_filled h hframed hpolicy (Nat.succ_le_succ hjn.le) hn)
      (k.unit_within h hframed hpolicy hu).2.1 hfirst hlast
  cases hbits : record.bitfieldAt? j with
  | none => cases hmiddle.symm.trans (k.openUnit_eq_none h hframed hpolicy (hjn.trans hn) hbits)
  | some b'' =>
    have hunder := k.underlying_of_openUnit h hframed hpolicy hbits hmiddle
    rcases hbetween b'' hbits with hne | hne
    · exact hne (hunder.symm.trans (k.underlying_of_openUnit h hframed hpolicy hb hfirst))
    · exact hne (hunder.symm.trans (k.underlying_of_openUnit h hframed hpolicy hb' hlast))

/-- Of two bit-fields of one type next to each other, the second goes on in the unit of the first
exactly if it fits there. -/
theorem follows_iff {i : Nat} {b b' : Bitfield} (hb : record.bitfieldAt? i = some b)
    (hb' : record.bitfieldAt? (i + 1) = some b') (hsame : b'.underlying = b.underlying)
    {m m' : PlacedMember} (hm : l.field? i = some m) (hm' : l.field? (i + 1) = some m')
    {u : Ideal.StorageUnit} (hu : u ∈ k.units) (hholds : u.Holds m) :
    m'.offset.count = m.offset.count + b.width.count ∧ u.Holds m' ↔
      m.offset.count + b.width.count + b'.width.count ≤ u.stop := by
  have hlists := k.lists h hkind
  have hopen := k.openUnit_of_holds h hframed hpolicy hkind hb hm hu hholds
  obtain ⟨-, first, hfirst, -, -, hmember, -, -, -, hdata, -⟩ :=
    k.unit_of_bitfield h hframed hpolicy hb
  cases hm.symm.trans (hlists.member?_eq_some_iff.mpr ⟨hfirst, hmember⟩)
  obtain ⟨v, second, hsecond, -, -, hmember', hextent, hstart, hstop, -, hcases⟩ :=
    k.unit_of_bitfield h hframed hpolicy hb'
  cases hm'.symm.trans (hlists.member?_eq_some_iff.mpr ⟨hsecond, hmember'⟩)
  have hcounted : m'.extent.counted.count = b'.width.count := by rw [hextent]; rfl
  rcases hcases with ⟨hv, hoffset⟩ | ⟨hfull, -⟩
  · -- The open unit takes the second one, too.
    cases hopen.symm.trans hv
    rw [hdata] at hoffset
    rw [Ideal.StorageUnit.Holds, hcounted]
    omega
  · -- The open unit has no room for it.
    have hover := hfull u hopen
      ((k.underlying_of_openUnit h hframed hpolicy hb hopen).trans hsame.symm)
    rw [hdata] at hover
    rw [Ideal.StorageUnit.Holds, hcounted]
    omega

/-- **A run of bit-fields that starts a unit is packed in it**, as far as the unit reaches. -/
theorem packed {i n : Nat} {p : Primitive}
    (hrun : ∀ j < n, ∃ b, record.bitfieldAt? (i + j) = some b ∧ b.underlying = p)
    (hfits : record.runBits i n ≤ p.bitSize) {m : PlacedMember} (hm : l.field? i = some m)
    {u : Ideal.StorageUnit} (hu : u ∈ k.units) (hholds : u.Holds m)
    (hstart : m.offset.count = u.start) {j : Nat} (hj : j < n) {m' : PlacedMember}
    (hm' : l.field? (i + j) = some m') :
    m'.offset.count = u.start + record.runBits i j ∧ u.Holds m' := by
  induction j generalizing m' with
  | zero =>
    cases hm.symm.trans hm'
    exact ⟨hstart, hholds⟩
  | succ j ih =>
    obtain ⟨b, hb, hunder⟩ := hrun j (Nat.lt_of_succ_lt hj)
    obtain ⟨b', hb', hunder'⟩ := hrun (j + 1) hj
    obtain ⟨before, hbefore, -⟩ := k.exists_unit h hframed hpolicy hkind hb
    obtain ⟨hoffset, hheld⟩ := ih (Nat.lt_of_succ_lt hj) hbefore
    have hopen := k.openUnit_of_holds h hframed hpolicy hkind hb hbefore hu hheld
    have hstop : u.stop = u.start + p.bitSize := by
      rw [(k.unit_within h hframed hpolicy hu).1.2,
        k.underlying_of_openUnit h hframed hpolicy hb hopen, hunder]
    have hmono := record.runBits_mono i hj
    rw [Record.runBits_succ, Record.runBits_succ, Record.bitsAt_of_some hb,
      Record.bitsAt_of_some hb'] at hmono
    obtain ⟨hnext, hheld'⟩ := (k.follows_iff h hframed hpolicy hkind hb hb'
      (hunder'.trans hunder.symm) hbefore hm' hu hheld).mpr (by omega)
    refine ⟨?_, hheld'⟩
    rw [hnext, hoffset, Record.runBits_succ, Record.bitsAt_of_some hb, Nat.add_assoc]

/-- **The bit-fields of the layout own its units.** -/
theorem ownsUnits : l.OwnsUnits record k.units where
  aligned u hu := (k.unit_within h hframed hpolicy hu).1
  sorted := k.pairwise_units h hframed hpolicy
  within u hu := (k.unit_within h hframed hpolicy hu).2
  holds i b hb := by
    obtain ⟨m, hm, hextent, u, hu, hunder, hholds, -⟩ :=
      k.exists_unit h hframed hpolicy hkind hb
    exact ⟨m, hm, hextent, u, hu, hunder, hholds, fun v hv hholds' =>
      k.eq_of_holds h hframed hpolicy hb hextent hv hu hholds' hholds⟩
  used u hu := by
    obtain ⟨i, b, hb, hunit⟩ := k.mem_units.mp hu
    obtain ⟨m, hm, -, v, -, -, hholds, hv⟩ := k.exists_unit h hframed hpolicy hkind hb
    cases hunit.symm.trans hv
    exact ⟨i, m, ⟨b, hb⟩, hm, hholds⟩
  clears m hm hbits u hu := by
    cases hmember : m.member with
    | base i => exact k.clears_of_base h hframed hpolicy hkind hm hmember hu
    | field i =>
      have hnone : record.bitfieldAt? i = none :=
        Option.eq_none_iff_forall_ne_some.mpr fun b => hbits i b hmember
      exact k.clears_of_field h hframed hpolicy hkind hm hmember hnone hu
  separated i j n b b' hij hjn hb hb' hbetween m m' hm hm' u hu hholds :=
    k.not_holds_of_separated h hframed hpolicy hkind hij hjn hb hb' hbetween hm hm' hu hholds
  follows i b b' hb hb' hsame m m' hm hm' u hu hholds :=
    k.follows_iff h hframed hpolicy hkind hb hb' hsame hm hm' hu hholds
  packed i n p hrun hfits m hm u hu hholds hstart j hj m' hm' :=
    k.packed h hframed hpolicy hkind hrun hfits hm hu hholds hstart hj hm'

end StructDraft.Course

/-! ### Every strict layout -/

namespace Session.Reachable

variable {d : Declarations} {schema : Schema} {profile : Profile} {settings : SinkSettings}
  {s s' : Session} {r : RecordId} {record : Record} {l : RecordLayout}

/-- **Under the strict policy, runs of bit-fields own whole storage units.** In every session over a
built schema whose base types are usable, the bit-fields of a struct with a layout own units of it,
whatever the alignment of pointers is. -/
theorem record_ownsUnits (hclose : d.close = .ok schema)
    (primitive : ∀ p, schema.Mentions p → p.Usable)
    (hpolicy : profile.bitfieldPolicy = .strictUnits)
    (hs : Reachable schema profile settings s) (hrecord : schema.records.get? r = some record)
    (hkind : record.kind = .struct) (h : s.record r = .ok (.ok l, s')) :
    ∃ units, l.OwnsUnits record units := by
  obtain ⟨hclosed, -⟩ := Declarations.close_closed hclose
  have hanswer : s.answers r = .ok (.ok l) := answers_eq_ok_iff.mpr ⟨s', h⟩
  rw [answers_eq hclosed hs.sound hs.context_eq] at hanswer
  have hl := LayoutContext.value_layoutByKind_of_answer hclosed hrecord hanswer
  obtain ⟨bases, placements, hresolves⟩ := LayoutContext.layoutByKind_resolves hl
  obtain ⟨k⟩ := hresolves.nonempty_course hkind hl
  exact ⟨k.units, k.ownsUnits hresolves (hresolves.framed hrecord primitive) hpolicy hkind⟩

theorem record_ownsUnits_message :
    ∃ l s', (Session.start Schema.message (Profile.lp64.withPolicy .strictUnits) .keepAll).record
        (.of 1) = .ok (.ok l, s') ∧
      ∃ m, l.field? 1 = some m ∧ m.offset.count = 35 ∧ ∃ u : Ideal.StorageUnit,
        u.start ≤ 35 ∧ 40 ≤ u.stop ∧ ∀ letter, l.field? 3 = some letter → u.Clears letter := by
  obtain ⟨l, s', h, level, hlevel, hoffset⟩ : ∃ l s',
      (Session.start Schema.message (Profile.lp64.withPolicy .strictUnits) .keepAll).record
        (.of 1) = .ok (.ok l, s') ∧ ∃ m, l.field? 1 = some m ∧ m.offset.count = 35 :=
    ⟨_, _, rfl, _, rfl, rfl⟩
  obtain ⟨units, hunits⟩ := record_ownsUnits Declarations.close_message
    (Schema.forall_mentions (by decide)) rfl .start rfl rfl h
  obtain ⟨m, hm, hextent, u, hu, -, ⟨hstart, hstop⟩, -⟩ := hunits.holds 1 _ rfl
  cases hlevel.symm.trans hm
  rw [hextent, hoffset] at hstop
  refine ⟨l, s', h, level, hlevel, hoffset, u, hoffset ▸ hstart, hstop, fun letter hletter => ?_⟩
  obtain ⟨hmem, hmember⟩ := RecordLayout.mem_of_member? hletter
  refine hunits.clears letter hmem (fun i b hi hb => ?_) u hu
  cases hmember.symm.trans hi
  cases hb

end Session.Reachable

end AbiLayout
