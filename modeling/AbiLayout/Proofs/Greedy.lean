import AbiLayout.Proofs.Ideal.Comparison
import AbiLayout.Proofs.Multiples
import AbiLayout.Proofs.Positions

/-!
# The Itanium policy packs greedily

Under the Itanium policy every member of a struct takes the first place that its type allows, behind
the member in front of it, and the struct is aligned and sized as its members ask for and no more.
All this is said of the layout itself: the place behind a member is read off its offset and extent,
and zero-width bit-fields in between, which are no members, round it up.

A place is asked to be a multiple of an alignment. If the alignment of pointers is a power of two,
those of all types are. If it is not, a pointer may be placed unaligned (`Schema.skewed`), but
everything else is as before.

## Main definitions

* `RecordLayout.baseCursor`, `RecordLayout.fieldCursor`: the place behind what is in front.
* `Record.AsksFor`: the alignments that a record is asked for.
* `RecordLayout.PacksGreedily`: every member at the first place, and no larger than needed.

## Main results

* `StructDraft.Course.fieldCursor_eq`: the place behind what is in front is where the cursor is.
* `Session.Reachable.record_packsGreedily`: every Itanium layout packs greedily.
-/

namespace AbiLayout

/-! ### Least multiples -/

section NextMultiple

variable {x y a b : Nat}

theorem nextMultiple_le_iff (ha : 0 < a) (hy : a ∣ y) : nextMultiple x a ≤ y ↔ x ≤ y :=
  ⟨(le_nextMultiple x ha).trans, nextMultiple_le ha hy⟩

/-- Rounding in two steps, from the smaller multiples to the larger ones, takes the least multiple
all the same. -/
theorem isLeast_nextMultiple_nextMultiple (ha : 0 < a) (hb : 0 < b) (hab : a ∣ b) :
    IsLeast {y | x ≤ y ∧ b ∣ y} (nextMultiple (nextMultiple x a) b) := by
  rw [nextMultiple_nextMultiple x ha hb hab]
  exact isLeast_nextMultiple x hb

/-- The size of a record is the least multiple of its alignment that covers `x` bytes, or an empty
record if there are none. -/
theorem isLeast_recordSize (profile : Profile) (x : Nat) (ha : 0 < a) :
    IsLeast {n | a ∣ n ∧ if x = 0 then profile.emptyRecordSize.count ≤ n else x ≤ n}
      (Ideal.recordSize profile x a) := by
  have hiff (n : Nat) : (if x = 0 then profile.emptyRecordSize.count ≤ n else x ≤ n) ↔
      (if x = 0 then profile.emptyRecordSize.count else x) ≤ n := by
    split <;> rfl
  refine ⟨⟨dvd_nextMultiple _ _, (hiff _).mpr (le_nextMultiple _ ha)⟩, fun n ⟨hdvd, hn⟩ => ?_⟩
  exact nextMultiple_le ha hdvd ((hiff n).mp hn)

/-- The same where the bits up to `x` are to be covered. -/
theorem isLeast_recordSize_of_bits {profile : Profile} (ha : 0 < a) :
    IsLeast {n | a ∣ n ∧ if x = 0 then profile.emptyRecordSize.count ≤ n else x ≤ 8 * n}
      (Ideal.recordSize profile ((nextMultiple x 8 + 7) / 8) a) := by
  have hcover (n : Nat) : (nextMultiple x 8 + 7) / 8 ≤ n ↔ x ≤ 8 * n := by
    rw [← nextMultiple_le_iff (a := 8) (by decide) (Nat.dvd_mul_right 8 n)]
    omega
  have hempty : (nextMultiple x 8 + 7) / 8 = 0 ↔ x = 0 := by
    rw [← Nat.le_zero, hcover, Nat.mul_zero, Nat.le_zero]
  have hleast := isLeast_recordSize profile ((nextMultiple x 8 + 7) / 8) ha
  simp only [hempty, hcover] at hleast
  exact hleast

/-- The largest of a number and some more. -/
theorem isGreatest_foldl_max (x : Nat) (xs : List Nat) :
    IsGreatest {a | a = x ∨ a ∈ xs} (xs.foldl max x) := by
  induction xs using List.reverseRecOn with
  | nil => simp [isGreatest_singleton]
  | append_singleton xs y ih =>
    have hunion : {a | a = x ∨ a ∈ xs ++ [y]} = {a | a = x ∨ a ∈ xs} ∪ {y} := by
      ext a
      simp only [Set.mem_ofPred_eq, Set.mem_union, Set.mem_singleton_iff, List.mem_append,
        List.mem_singleton, or_assoc]
    rw [List.foldl_append, hunion]
    exact ih.union isGreatest_singleton

/-- A number that is raised step by step is in the end the greatest of those it is raised to. -/
theorem isGreatest_of_steps {α : Type} (value : Nat → Nat) (asked : α → Nat) {xs : List α}
    (h : ∀ i z, xs[i]? = some z → value (i + 1) = max (value i) (asked z)) :
    IsGreatest {a | a = value 0 ∨ ∃ z ∈ xs, a = asked z} (value xs.length) := by
  have hfold : value xs.length = (xs.map asked).foldl max (value 0) := by
    induction xs generalizing value with
    | nil => rfl
    | cons z zs ih =>
      have hrest := ih (fun i => value (i + 1)) fun i z' hz' => h (i + 1) z' hz'
      have hfirst : value 1 = max (value 0) (asked z) := h 0 z rfl
      rw [List.map_cons, List.foldl_cons, ← hfirst]
      exact hrest
  rw [hfold]
  simpa [eq_comm] using isGreatest_foldl_max (value 0) (xs.map asked)

end NextMultiple

/-! ### Greedy layouts -/

namespace RecordLayout

/-- The first bit behind the member, or zero if there is no such member. -/
def stopOf (l : RecordLayout) (x : Member) : Nat :=
  match l.member? x with
  | some m => m.offset.count + m.extent.counted.count
  | none => 0

/-- The place behind what is in front of the base at position `i`. -/
def baseCursor (l : RecordLayout) : (i : Nat) → Nat
  | 0 => 0
  | i + 1 => l.stopOf (.base i)

/-- The place behind what is in front of the field at position `i`. Bases are in front of all
fields, and a zero-width bit-field rounds up to the alignment of its type. -/
def fieldCursor (record : Record) (l : RecordLayout) : (i : Nat) → Nat
  | 0 => l.baseCursor record.bases.length
  | i + 1 =>
    match record.breakAt? i with
    | some underlying => nextMultiple (fieldCursor record l i) underlying.bitAlignment
    | none => l.stopOf (.field i)

end RecordLayout

/-- The alignments that a record is asked for, given what is answered for records and types: one,
those of its bases, those of its fields that are no bit-fields, and those of its bit-fields that
have a name. -/
inductive Record.AsksFor (answer : RecordId → Except Trap Answer)
    (types : Ty → Except Trap (Except LayoutError TypeLayout)) (record : Record) : Nat → Prop where
  | one : AsksFor answer types record 1
  | base {base : Base} {inner : RecordLayout} : base ∈ record.bases →
      answer base.record = .ok (.ok inner) → AsksFor answer types record inner.alignment.count
  | field {field : Field} {layout : TypeLayout} : field ∈ record.fields →
      (∀ b, field.ty ≠ .bitfield b) → types field.ty = .ok (.ok layout) →
        AsksFor answer types record layout.alignment.count
  | bitfield {field : Field} {b : Bitfield} : field ∈ record.fields → field.ty = .bitfield b →
      field.isNamed = true → AsksFor answer types record b.underlying.alignment.count

/-- Every base and every field is at the first place behind what is in front that its type allows:
at a multiple of its alignment, or where a bit-field stays within an aligned unit of its type. The
alignment is the largest one asked for, and the size the least multiple of it that covers
everything. A field that is no bit-field has to have a type that is aligned to a power of two, for
which it is enough that pointers are. -/
structure RecordLayout.PacksGreedily (answer : RecordId → Except Trap Answer)
    (types : Ty → Except Trap (Except LayoutError TypeLayout)) (pointerAlignment : ByteCount)
    (profile : Profile) (record : Record) (l : RecordLayout) : Prop where
  base : ∀ i base, record.bases[i]? = some base → ∃ inner m,
    answer base.record = .ok (.ok inner) ∧ l.base? i = some m ∧
      IsLeast {p | l.baseCursor i ≤ p ∧ 8 * inner.alignment.count ∣ p} m.offset.count
  field : ∀ i field, record.fields[i]? = some field → (∀ b, field.ty ≠ .bitfield b) →
    ∃ layout m, types field.ty = .ok (.ok layout) ∧ l.field? i = some m ∧
      (pointerAlignment.count.isPowerOfTwo ∨ layout.alignment.count.isPowerOfTwo →
        IsLeast {p | l.fieldCursor record i ≤ p ∧ 8 * layout.alignment.count ∣ p} m.offset.count)
  bitfield : ∀ i b, record.bitfieldAt? i = some b → ∃ m, l.field? i = some m ∧
    m.extent = .bits b.width ∧
      IsLeast {p | l.fieldCursor record i ≤ p ∧
        p % b.underlying.bitAlignment + b.width.count ≤ b.underlying.bitSize} m.offset.count
  alignment : IsGreatest {a | record.AsksFor answer types a} l.alignment.count
  size : IsLeast {n | l.alignment.count ∣ n ∧
    if l.fieldCursor record record.fields.length = 0 then profile.emptyRecordSize.count ≤ n
    else l.fieldCursor record record.fields.length ≤ 8 * n} l.size.count

/-! ### Cursors -/

/-- A member of the layout ends where it says. -/
theorem RecordLayout.Lists.stopOf_eq {record : Record} {bases : List StructDraft.ResolvedBase}
    {placements : List Placement} {l : RecordLayout} (h : l.Lists record bases placements)
    {m : PlacedMember} (hm : m ∈ l.members) :
    l.stopOf m.member = m.offset.count + m.extent.counted.count := by
  have hfound : l.member? m.member = some m := h.member?_eq_some_iff.mpr ⟨hm, rfl⟩
  rw [stopOf, hfound]

namespace StructDraft.Course

variable {c : LayoutContext} {answer : RecordId → Except Trap Answer} {record : Record}
  {bases : List ResolvedBase} {placements : List Placement} {l : RecordLayout}
  (k : Course c.profile record bases placements l)
  (h : c.Resolves answer record bases placements)
  (hframed : ∀ placement ∈ placements, placement.Framed) (hkind : record.kind = .struct)

include h hkind

/-- A base is a member of the layout, at the next multiple of its alignment behind the room taken so
far if that is a power of two. -/
theorem exists_base {i : Nat} {base : ResolvedBase} (hget : bases[i]? = some base) :
    ∃ m, l.base? i = some m ∧
      (base.layout.alignment.count.isPowerOfTwo → m.offset.count =
        nextMultiple ((k.based i).cursor.toIdeal.room c.profile.bitfieldPolicy)
          (8 * base.layout.alignment.count)) ∧
      (k.based (i + 1)).cursor.toIdeal.dataSize = m.offset.count + m.extent.counted.count := by
  obtain ⟨offset, extent, hmembers, -, hexact, hcursor⟩ := k.base_step hget
  have hi := (List.getElem?_eq_some_iff.mp hget).1
  have hmem := k.mem_members_of_mem_based h hi (m := ⟨.base i, offset, extent⟩) (by simp [hmembers])
  exact ⟨_, (k.lists h hkind).member?_eq_some_iff.mpr ⟨hmem, rfl⟩, hexact,
    congrArg Ideal.Cursor.dataSize hcursor⟩

/-- **The place behind what is in front of a base is where the cursor is.** -/
theorem baseCursor_eq {i : Nat} (hi : i ≤ bases.length) :
    l.baseCursor i = (k.based i).cursor.toIdeal.dataSize := by
  cases i with
  | zero =>
    rw [k.based_zero]
    rfl
  | succ i =>
    obtain ⟨m, hm, -, hcursor⟩ := k.exists_base h hkind (List.getElem?_eq_getElem hi)
    obtain ⟨hmem, hmember⟩ := RecordLayout.mem_of_member? hm
    rw [hcursor, ← (k.lists h hkind).stopOf_eq hmem, hmember]
    rfl

section Itanium

variable (hpolicy : c.profile.bitfieldPolicy = .itanium)

include k hpolicy

/-- A base is at the first multiple of its alignment. -/
theorem isLeast_base {i : Nat} {base : ResolvedBase} (hget : bases[i]? = some base)
    (hpow : base.layout.alignment.count.isPowerOfTwo) :
    ∃ m, l.base? i = some m ∧
      IsLeast {p | l.baseCursor i ≤ p ∧ 8 * base.layout.alignment.count ∣ p} m.offset.count := by
  obtain ⟨m, hm, hexact, -⟩ := k.exists_base h hkind hget
  refine ⟨m, hm, ?_⟩
  rw [hexact hpow, hpolicy, k.baseCursor_eq h hkind (List.getElem?_eq_some_iff.mp hget).1.le]
  exact isLeast_nextMultiple_nextMultiple (Nat.succ_pos 7)
    (Nat.pos_of_isPowerOfTwo (isPowerOfTwo_eight_mul hpow)) (Nat.dvd_mul_right 8 _)

include hframed

/-- **The place behind what is in front of a field is where the cursor is.** -/
theorem fieldCursor_eq {i : Nat} (hi : i ≤ record.fields.length) :
    l.fieldCursor record i = (k.cursorAt i).dataSize := by
  induction i with
  | zero =>
    rw [cursorAt, k.filled_zero, RecordLayout.fieldCursor,
      ← LayoutContext.resolveBases_length_eq (h.basesResolve hkind), k.baseCursor_eq h hkind le_rfl]
  | succ i ih =>
    have hcursor := ih (Nat.le_of_succ_le hi)
    obtain ⟨placement, hplacement, -⟩ := h.exists_placement (List.getElem?_eq_getElem hi)
    rw [RecordLayout.fieldCursor, (h.bitfieldAt?_eq hplacement).2]
    cases placement with
    | zeroWidth p =>
      rw [k.break_step h hframed hplacement, hpolicy, hcursor]
      rfl
    | bitfield b =>
      obtain ⟨m, hm, hmember, hextent, hplaced⟩ := k.bits_step h hframed hplacement
      have hstop := (k.lists h hkind).stopOf_eq hm
      rw [hmember, hextent] at hstop
      have hdata : ((k.cursorAt i).placeBits c.profile.bitfieldPolicy b.underlying
          b.width.count).2.dataSize = _ + b.width.count := Ideal.Cursor.dataSize_placeBits
      rw [hplaced] at hdata
      exact hstop.trans hdata.symm
    | bytes layout =>
      obtain ⟨m, hm, hmember, -, -, -, hnext⟩ := k.whole_step h hframed hplacement
      have hstop := (k.lists h hkind).stopOf_eq hm
      rw [hmember] at hstop
      rw [hnext]
      exact hstop

/-- A member of whole bytes is at the first multiple of its alignment. -/
theorem isLeast_field {i : Nat} {layout : TypeLayout}
    (hplacement : placements[i]? = some (.bytes layout)) :
    ∃ m, l.field? i = some m ∧ (layout.alignment.count.isPowerOfTwo →
      IsLeast {p | l.fieldCursor record i ≤ p ∧ 8 * layout.alignment.count ∣ p}
        m.offset.count) := by
  have hi := (k.exists_places h hplacement).1
  obtain ⟨m, hm, hmember, -, -, hexact, -⟩ := k.whole_step h hframed hplacement
  refine ⟨m, (k.lists h hkind).member?_eq_some_iff.mpr ⟨hm, hmember⟩, fun hpow => ?_⟩
  rw [hexact hpow, hpolicy, k.fieldCursor_eq h hframed hkind hpolicy hi.le]
  exact isLeast_nextMultiple_nextMultiple (Nat.succ_pos 7)
    (Nat.pos_of_isPowerOfTwo (isPowerOfTwo_eight_mul hpow)) (Nat.dvd_mul_right 8 _)

/-- A bit-field is at the first place from which it stays within an aligned unit of its type. -/
theorem isLeast_bitfield {i : Nat} {b : Bitfield} (hb : record.bitfieldAt? i = some b) :
    ∃ m, l.field? i = some m ∧ m.extent = .bits b.width ∧
      IsLeast {p | l.fieldCursor record i ≤ p ∧
        p % b.underlying.bitAlignment + b.width.count ≤ b.underlying.bitSize} m.offset.count := by
  have hplacement := h.bitfieldAt?_eq_some_iff.mp hb
  have hi := (k.exists_places h hplacement).1
  obtain ⟨hp, -, hw⟩ := hframed _ (List.mem_of_getElem? hplacement)
  have hvalid := (k.valid_cursorAt h hframed hi.le).2
  obtain ⟨m, hm, hmember, hextent, hplaced⟩ := k.bits_step h hframed hplacement
  refine ⟨m, (k.lists h hkind).member?_eq_some_iff.mpr ⟨hm, hmember⟩, hextent, ?_⟩
  have hoffset := congrArg Prod.fst hplaced
  have hle : (k.cursorAt i).dataSize ≤
      ((k.cursorAt i).placeBits c.profile.bitfieldPolicy b.underlying b.width.count).1 :=
    Ideal.Cursor.dataSize_le_placeBits hvalid hp
  have hwindow := Ideal.Cursor.placeBits_window hvalid hp hw
  rw [hoffset] at hle hwindow
  rw [hpolicy] at hoffset
  rw [k.fieldCursor_eq h hframed hkind hpolicy hi.le]
  exact ⟨⟨hle, hwindow⟩, fun p ⟨hpast, hfits⟩ =>
    hoffset.symm.trans_le (Ideal.Cursor.placeShared_le hp hpast hfits)⟩

/-- The size is the least multiple of the alignment that covers everything. -/
theorem isLeast_size (hpow : l.alignment.count.isPowerOfTwo) :
    IsLeast {n | l.alignment.count ∣ n ∧
      if l.fieldCursor record record.fields.length = 0 then c.profile.emptyRecordSize.count ≤ n
      else l.fieldCursor record record.fields.length ≤ 8 * n} l.size.count := by
  obtain ⟨hcursor, hvalid⟩ := k.valid_cursorAt h hframed le_rfl
  have hsize := k.finishes.size_count_eq (hcursor ▸ hvalid) hpow
  rw [hcursor, hpolicy] at hsize
  rw [k.fieldCursor_eq h hframed hkind hpolicy le_rfl, hsize]
  exact isLeast_recordSize_of_bits (Nat.pos_of_isPowerOfTwo hpow)

end Itanium

end StructDraft.Course

/-! ### Alignments -/

namespace LayoutContext

variable {c : LayoutContext} {answer : RecordId → Except Trap Answer} {record : Record}
  {bases : List StructDraft.ResolvedBase} {placements : List Placement}

/-- What is asked for when a field is placed is asked for by the field, unless it is nothing. -/
theorem asksFor_of_resolveField {i : Nat} {field : Field} {placement : Placement}
    (hmem : field ∈ record.fields)
    (hvalue : LayoutT.value answer (c.resolveField record i field) = .ok (.ok placement)) :
    placement.asked field.isNamed = 0 ∨ record.AsksFor answer
      (fun ty => LayoutT.value answer (c.typeLayout ty)) (placement.asked field.isNamed) := by
  refine resolveField_cases (motive := fun placement => placement.asked field.isNamed = 0 ∨
    record.AsksFor answer _ (placement.asked field.isNamed)) ?_ ?_ ?_ hvalue
  · exact fun _ _ _ => .inl rfl
  · intro b hty _ _
    refine .inr ?_
    rw [Placement.asked, Bitfield.askedAlignment]
    split
    · exact .bitfield hmem hty ‹_›
    · exact .one
  · exact fun layout hne hlayout _ => .inr (.field hmem hne hlayout)

/-- A field that asks for an alignment is placed so that it asks for it. -/
theorem Resolves.exists_asked_field (h : c.Resolves answer record bases placements) {field : Field}
    (hmem : field ∈ record.fields) {a : Nat}
    (hasked : ∀ i placement, LayoutT.value answer (c.resolveField record i field) =
      .ok (.ok placement) → a = placement.asked field.isNamed) :
    ∃ z ∈ record.fields.zip placements, a = z.2.asked z.1.isNamed := by
  obtain ⟨i, hget⟩ := List.getElem?_of_mem hmem
  obtain ⟨placement, hplacement, hvalue⟩ := h.exists_placement hget
  have hzip : (record.fields.zip placements)[i]? = some (field, placement) :=
    List.getElem?_zip_eq_some.mpr ⟨hget, hplacement⟩
  exact ⟨(field, placement), List.mem_of_getElem? hzip, hasked i placement hvalue⟩

/-- Whatever is asked for is one, or asked for when a base or a field is placed. -/
theorem Resolves.exists_asked (h : c.Resolves answer record bases placements)
    (hunion : record.kind = .union → record.bases = []) {a : Nat}
    (ha : record.AsksFor answer (fun ty => LayoutT.value answer (c.typeLayout ty)) a) :
    a = 1 ∨ (∃ base ∈ bases, a = base.layout.alignment.count) ∨
      ∃ z ∈ record.fields.zip placements, a = z.2.asked z.1.isNamed := by
  cases ha with
  | one => exact .inl rfl
  | base hmem hanswer =>
    have hkind : record.kind = .struct := by
      cases hkind : record.kind with
      | struct => rfl
      | union =>
        rw [hunion hkind] at hmem
        cases hmem
    obtain ⟨i, hget⟩ := List.getElem?_of_mem hmem
    obtain ⟨resolved, hresolved, hanswer'⟩ := h.exists_resolvedBase hkind hget
    cases hanswer.symm.trans hanswer'
    exact .inr (.inl ⟨resolved, List.mem_of_getElem? hresolved, rfl⟩)
  | field hmem hne hlayout =>
    refine .inr (.inr (h.exists_asked_field hmem fun i placement hvalue => ?_))
    obtain ⟨-, layout', rfl, hlayout', -⟩ := resolveField_eq_ok hne hvalue
    cases hlayout.symm.trans hlayout'
    rfl
  | @bitfield field b hmem hty hnamed =>
    refine .inr (.inr (h.exists_asked_field hmem fun i placement hvalue => ?_))
    have hrule := (admissible_of_resolveField hvalue).bitfield b hty
    refine resolveField_cases (motive := fun placement => _ = placement.asked field.isNamed) ?_ ?_
      ?_ hvalue
    · intro b' hty' hzero
      cases hty.symm.trans hty'
      rcases hrule.2 with ⟨-, hname⟩ | ⟨-, hpos, -⟩
      · rw [Field.isNamed, hname] at hnamed
        cases hnamed
      · omega
    · intro b' hty' _ _
      cases hty.symm.trans hty'
      rw [Placement.asked, Bitfield.askedAlignment, if_pos hnamed]
    · exact fun _ hne _ _ => absurd hty (hne b)

/-- The largest of one byte and the alignments that are asked for when a base or a field is placed
is the largest that is asked for. -/
theorem Resolves.isGreatest_asksFor (h : c.Resolves answer record bases placements)
    (hunion : record.kind = .union → record.bases = []) {largest : Nat}
    (hlargest : IsGreatest {a | a = 1 ∨ (∃ base ∈ bases, a = base.layout.alignment.count) ∨
      ∃ z ∈ record.fields.zip placements, a = z.2.asked z.1.isNamed} largest) :
    IsGreatest {a | record.AsksFor answer (fun ty => LayoutT.value answer (c.typeLayout ty)) a}
      largest := by
  obtain ⟨hmem, hupper⟩ := hlargest
  refine ⟨?_, fun a ha => hupper (h.exists_asked hunion ha)⟩
  have hone : 1 ≤ largest := hupper (.inl rfl)
  rcases hmem with hmem | ⟨base, hbase, hmem⟩ | ⟨⟨field, placement⟩, hz, hmem⟩
  · exact hmem ▸ .one
  · have hkind : record.kind = .struct := by
      cases hkind : record.kind with
      | struct => rfl
      | union =>
        rw [h.unionBases hkind] at hbase
        cases hbase
    obtain ⟨i, hget⟩ := List.getElem?_of_mem hbase
    obtain ⟨base', hbase', hanswer⟩ := resolveBases_getElem? (h.basesResolve hkind) hget
    exact hmem ▸ .base (List.mem_of_getElem? hbase') hanswer
  · obtain ⟨i, hget⟩ := List.getElem?_of_mem hz
    obtain ⟨hfield, hplacement⟩ := List.getElem?_zip_eq_some.mp hget
    have hvalue := h.fieldsResolve.getElem? hfield hplacement
    have hasks := (asksFor_of_resolveField (List.mem_of_getElem? hfield) hvalue).resolve_left
      fun hzero => absurd (hmem.trans hzero) (Nat.ne_of_gt hone)
    exact hmem ▸ hasks

end LayoutContext

namespace StructDraft.Course

variable {c : LayoutContext} {answer : RecordId → Except Trap Answer} {record : Record}
  {bases : List ResolvedBase} {placements : List Placement} {l : RecordLayout}
  (k : Course c.profile record bases placements l)

/-- The draft behind the bases is aligned as the one of them that asks for most. -/
theorem isGreatest_based : IsGreatest {a | a = 1 ∨ ∃ base ∈ bases, a = base.layout.alignment.count}
    (k.filled 0).alignment.count := by
  have hgreatest := isGreatest_of_steps (fun i => (k.based i).alignment.count)
    (fun base : ResolvedBase => base.layout.alignment.count)
    fun i base (hget : bases[i]? = some base) => (k.placesBase hget).alignment_eq
  rw [← k.filled_zero, k.based_zero] at hgreatest
  exact hgreatest

/-- The layout is aligned as its bases, or as the field that asks for most. -/
theorem isGreatest_filled (h : c.Resolves answer record bases placements) :
    IsGreatest {a | a = (k.filled 0).alignment.count ∨
      ∃ z ∈ record.fields.zip placements, a = z.2.asked z.1.isNamed} l.alignment.count := by
  have hgreatest := isGreatest_of_steps (fun i => (k.filled i).alignment.count)
    (fun z : Field × Placement => z.2.asked z.1.isNamed)
    fun i z (hget : (record.fields.zip placements)[i]? = some z) =>
      (k.places (List.getElem?_zip_eq_some.mp hget).1
        (List.getElem?_zip_eq_some.mp hget).2).alignment_eq
  rw [List.length_zip, h.fieldsResolve.length_eq, Nat.min_self, ← k.finishes.alignment_eq]
    at hgreatest
  exact hgreatest

include k in
/-- **The alignment is the largest one that is asked for.** -/
theorem isGreatest_alignment (h : c.Resolves answer record bases placements)
    (hunion : record.kind = .union → record.bases = []) :
    IsGreatest {a | record.AsksFor answer (fun ty => LayoutT.value answer (c.typeLayout ty)) a}
      l.alignment.count := by
  obtain ⟨hbased, hbased_le⟩ := k.isGreatest_based
  obtain ⟨hfilled, hfilled_le⟩ := k.isGreatest_filled h
  have hturn := hfilled_le (.inl rfl)
  refine h.isGreatest_asksFor hunion ⟨?_, ?_⟩
  · rcases hfilled with hfilled | hfield
    · rw [hfilled]
      exact hbased.imp_right .inl
    · exact .inr (.inr hfield)
  · rintro a (hone | hbase | hfield)
    · exact (hbased_le (.inl hone)).trans hturn
    · exact (hbased_le (.inr hbase)).trans hturn
    · exact hfilled_le (.inr hfield)

end StructDraft.Course

/-! ### Every Itanium layout -/

namespace LayoutContext

variable {c : LayoutContext} {r : RecordId} {record : Record} {l : RecordLayout}

/-- **Every Itanium layout packs greedily.** -/
theorem packsGreedily_of_answer (hclosed : c.schema.Closed)
    (primitive : ∀ p, c.schema.Mentions p → p.Usable)
    (hpolicy : c.profile.bitfieldPolicy = .itanium)
    (hrecord : c.schema.records.get? r = some record) (hkind : record.kind = .struct)
    (h : c.answer r = .ok (.ok l)) :
    l.PacksGreedily c.answer (fun ty => LayoutT.value c.answer (c.typeLayout ty))
      c.schema.pointerAlignment c.profile record := by
  have hl := value_layoutByKind_of_answer hclosed hrecord h
  obtain ⟨bases, placements, hresolves⟩ := layoutByKind_resolves hl
  obtain ⟨k⟩ := hresolves.nonempty_course hkind hl
  have hframed := hresolves.framed hrecord primitive
  have hpow (r : RecordId) (l : RecordLayout) (h : c.answer r = .ok (.ok l)) :
      l.alignment.count.isPowerOfTwo :=
    (HasAnswer.accounted ((hasAnswer_iff hclosed).mpr h)).alignment_isPowerOfTwo
  refine ⟨fun i base hget => ?_, fun i field hget hne => ?_,
    fun i b hb => k.isLeast_bitfield hresolves hframed hkind hpolicy hb,
    k.isGreatest_alignment hresolves (hclosed.unionBases r record hrecord),
    k.isLeast_size hresolves hframed hkind hpolicy (hpow r l h)⟩
  · obtain ⟨resolved, hresolved, hanswer⟩ := hresolves.exists_resolvedBase hkind hget
    obtain ⟨m, hm, hleast⟩ :=
      k.isLeast_base hresolves hkind hpolicy hresolved (hpow _ _ hanswer)
    exact ⟨resolved.layout, m, hanswer, hm, hleast⟩
  · obtain ⟨placement, hplacement, hvalue⟩ := hresolves.exists_placement hget
    obtain ⟨-, layout, rfl, hlayout, -⟩ := resolveField_eq_ok hne hvalue
    obtain ⟨m, hm, hleast⟩ := k.isLeast_field hresolves hframed hkind hpolicy hplacement
    refine ⟨layout, m, hlayout, hm, fun haligned => hleast ?_⟩
    rcases haligned with hpointer | haligned
    · exact typeLayout_alignment (P := Nat.isPowerOfTwo) hpointer hpow
        (fun p hp => (primitive p (mentions_of_mem hrecord (List.mem_of_getElem? hget)
          hp)).isPowerOfTwo) hlayout
    · exact haligned

end LayoutContext

namespace Session.Reachable

variable {d : Declarations} {schema : Schema} {profile : Profile} {settings : SinkSettings}
  {s s' : Session} {r : RecordId} {record : Record} {l : RecordLayout}

/-- **The Itanium policy packs greedily, and the alignment of a record is exact.** In every session
over a built schema whose base types are usable, every base and every bit-field of a struct with a
layout is at the first place that its type allows, and so is every other field, if pointers or at
least its own type are aligned to a power of two. The struct is aligned to the most that is asked
for, and takes the least multiple of that which covers its members. -/
theorem record_packsGreedily (hclose : d.close = .ok schema)
    (primitive : ∀ p, schema.Mentions p → p.Usable)
    (hpolicy : profile.bitfieldPolicy = .itanium)
    (hs : Reachable schema profile settings s) (hrecord : schema.records.get? r = some record)
    (hkind : record.kind = .struct) (h : s.record r = .ok (.ok l, s')) :
    l.PacksGreedily s.answers s.typeLayouts schema.pointerAlignment profile record := by
  obtain ⟨hclosed, -⟩ := Declarations.close_closed hclose
  rw [typeLayouts_eq hclosed hs.sound hs.context_eq]
  have hanswer : s.answers r = .ok (.ok l) := answers_eq_ok_iff.mpr ⟨s', h⟩
  rw [answers_eq hclosed hs.sound hs.context_eq] at hanswer ⊢
  exact LayoutContext.packsGreedily_of_answer hclosed primitive hpolicy hrecord hkind hanswer

theorem record_packsGreedily_message :
    ∃ record l s', Schema.message.records.get? (.of 1) = some record ∧
      (Session.start Schema.message .lp64 .keepAll).record (.of 1) = .ok (.ok l, s') ∧
      (∃ level, l.field? 1 = some level ∧
        IsLeast {p | 35 ≤ p ∧ p % 32 + 5 ≤ 32} level.offset.count) ∧
      (∃ letter, l.field? 3 = some letter ∧ IsLeast {p | 64 ≤ p ∧ 8 * 1 ∣ p} letter.offset.count) ∧
      IsLeast {n | 4 ∣ n ∧ 72 ≤ 8 * n} l.size.count := by
  obtain ⟨record, l, s', hrecord, hkind, h, hlevel, hletter, hend, halign⟩ : ∃ record l s',
      Schema.message.records.get? (.of 1) = some record ∧ record.kind = .struct ∧
      (Session.start Schema.message .lp64 .keepAll).record (.of 1) = .ok (.ok l, s') ∧
      l.fieldCursor record 1 = 35 ∧ l.fieldCursor record 3 = 64 ∧
      l.fieldCursor record record.fields.length = 72 ∧ l.alignment.count = 4 :=
    ⟨_, _, _, rfl, rfl, rfl, rfl, rfl, rfl, rfl⟩
  have hpacks := record_packsGreedily Declarations.close_message
    (Schema.forall_mentions (by decide)) rfl .start hrecord hkind h
  have hsize := hpacks.size
  rw [hend, halign] at hsize
  cases hrecord
  obtain ⟨level, hm, -, hleast⟩ := hpacks.bitfield 1 _ rfl
  rw [hlevel] at hleast
  obtain ⟨layout, letter, hlayout, hm', hleast'⟩ :=
    hpacks.field 3 _ rfl fun b hb => by cases hb
  rw [hletter] at hleast'
  cases hlayout
  exact ⟨_, l, s', rfl, h, ⟨level, hm, hleast⟩, ⟨letter, hm', hleast' (.inl ⟨3, rfl⟩)⟩, hsize⟩

end Session.Reachable

/-- A struct with a pointer, whose alignment is no power of two. -/
def Schema.skewed : Schema where
  records := ⟨#[⟨some "node", .struct, [],
    [⟨some "value", .primitive ⟨"int", .of 4, .of 4, .signed⟩, false⟩,
     ⟨some "next", .voidPointer, false⟩]⟩], by decide⟩
  pointerSize := .of 8
  pointerAlignment := .of 3

/-- The declaration of the record of `Schema.skewed`. -/
def Declarations.skewed : Declarations where
  profile := { Profile.lp64 with pointerAlignment := .of 3 }
  records := ⟨(Schema.skewed.records.values.toList.map fun record =>
    ⟨record.name, record.kind, some (record.bases, record.fields)⟩).toArray, by decide⟩

/-- A pointer that is not aligned to a power of two need not be at a multiple of its alignment: the
mask that rounds its place takes only some of the multiples. -/
theorem Session.not_packsGreedily_skewed :
    ∃ schema record l s' layout m, Declarations.skewed.close = .ok schema ∧
      (∀ p, schema.Mentions p → p.Usable) ∧ schema.records.get? (.of 0) = some record ∧
      record.kind = .struct ∧ Declarations.skewed.profile.bitfieldPolicy = .itanium ∧
      (Session.start schema Declarations.skewed.profile .keepAll).record (.of 0) =
        .ok (.ok l, s') ∧
      (Session.start schema Declarations.skewed.profile .keepAll).typeLayouts .voidPointer =
        .ok (.ok layout) ∧
      record.fields[1]? = some ⟨some "next", .voidPointer, false⟩ ∧ l.field? 1 = some m ∧
      ¬IsLeast {p | l.fieldCursor record 1 ≤ p ∧ 8 * layout.alignment.count ∣ p}
        m.offset.count := by
  refine ⟨Schema.skewed, _, _, _, _, _, rfl, Schema.forall_mentions (by decide), rfl, rfl, rfl, rfl,
    rfl, rfl, rfl, fun hleast => ?_⟩
  have hdvd : 8 * 3 ∣ 32 := hleast.1.2
  omega

end AbiLayout
