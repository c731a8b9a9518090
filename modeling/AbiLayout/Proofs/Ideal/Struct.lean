import AbiLayout.Proofs.Ideal.Cursor
import AbiLayout.Proofs.Outcome

/-!
# Ideal drafts of structs

Every step on the draft of a struct puts a member at the cursor or behind it, so that the members
follow each other and the cursor stands behind all of them. The alignment of the draft stays a power
of two that every member but an unnamed bit-field divides, and each member stays where its own type
wants it.

## Main definitions

* `Placement.Sound`: what is known of a resolved field.
* `Ideal.Slot.Lawful`: a member lies where its type wants it, in a record of some alignment.
* `Ideal.StructDraft.Filled`: the invariant of a draft.

## Main results

* `Ideal.structDraft_induction`: what every step keeps holds of the draft with all members.
* `Ideal.StructDraft.filled_structDraft`: the draft with all members satisfies the invariant.
* `Ideal.StructDraft.advances_placeBases`, `Ideal.StructDraft.advances_placeEach`: members only
  move the cursor forward.
-/

namespace AbiLayout

/-- What the resolution of a field settles: base types are usable, a bit-field with bits is no wider
than its type, and other members are aligned to a power of two. -/
def Placement.Sound : Placement → Prop
  | zeroWidth underlying => underlying.Usable
  | bitfield b =>
    b.underlying.Usable ∧ 0 < b.width.count ∧ b.width.count ≤ b.underlying.bitSize
  | bytes layout => layout.alignment.count.isPowerOfTwo

/-- The bits of a member of whole bytes. A flexible array takes none. -/
def Placement.wholeBits : Placement → Nat
  | bytes layout => if layout.completeness = .incomplete then 0 else 8 * layout.width.count
  | _ => 0

theorem Bitfield.askedAlignment_isPowerOfTwo {b : Bitfield} (h : b.underlying.Usable)
    (isNamed : Bool) : (b.askedAlignment isNamed).count.isPowerOfTwo := by
  rw [askedAlignment]
  split
  · exact h.isPowerOfTwo
  · exact Nat.isPowerOfTwo_one

namespace Ideal

/-! ### Induction over the members -/

/-- What placing each field keeps, placing all of them keeps. -/
theorem placeEach_induction {δ : Type} {place : δ → Nat → Bool → Placement → δ}
    {motive : δ → Prop} {all : List Field} {resolved : List Placement}
    (step : ∀ d i field placement, all[i]? = some field → resolved[i]? = some placement →
      motive d → motive (place d i field.isNamed placement)) :
    (fields : List Field) → {i : Nat} → {placements : List Placement} → {d : δ} →
      fields = all.drop i → placements = resolved.drop i → motive d →
        motive (placeEach place i fields placements d)
  | [], _, [], _, _, _, hd | [], _, _ :: _, _, _, _, hd | _ :: _, _, [], _, _, _, hd => hd
  | field :: fields, i, placement :: placements, _, hdrop, hdrop', hd => by
    obtain ⟨hget, htail⟩ := of_cons_eq_drop hdrop
    obtain ⟨hget', htail'⟩ := of_cons_eq_drop hdrop'
    exact placeEach_induction step fields htail htail' (step _ i field placement hget hget' hd)

/-- What a field takes, and later fields do not give back, is taken in the end. -/
theorem le_placeEach {δ : Type} {place : δ → Nat → Bool → Placement → δ} {P : δ → Prop}
    {Q : Placement → Prop} (taken : δ → Nat) (asked : Placement → Nat)
    (step : ∀ d i isNamed placement, P d → Q placement → P (place d i isNamed placement) ∧
      taken d ≤ taken (place d i isNamed placement) ∧
      asked placement ≤ taken (place d i isNamed placement)) :
    (fields : List Field) → {i : Nat} → {placements : List Placement} → {d : δ} → P d →
      (∀ placement ∈ placements, Q placement) →
        taken d ≤ taken (placeEach place i fields placements d) ∧
        ∀ z ∈ fields.zip placements, asked z.2 ≤ taken (placeEach place i fields placements d)
  | [], _, [], _, _, _ | [], _, _ :: _, _, _, _ | _ :: _, _, [], _, _, _ =>
    ⟨le_rfl, fun _ hz => nomatch hz⟩
  | field :: fields, i, placement :: placements, d, hd, hall => by
    obtain ⟨hhead, hrest⟩ := List.forall_mem_cons.mp hall
    obtain ⟨hnext, hle, hasked⟩ := step d i field.isNamed placement hd hhead
    obtain ⟨hgrows, hlater⟩ := le_placeEach taken asked step fields (i := i + 1) hnext hrest
    refine ⟨hle.trans hgrows, fun z hz => ?_⟩
    rcases List.mem_cons.mp hz with rfl | hz
    · exact hasked.trans hgrows
    · exact hlater z hz

/-- What placing each base keeps, placing all of them keeps. -/
theorem StructDraft.placeBases_induction {policy : BitfieldPolicy} {motive : StructDraft → Prop}
    {all : List AbiLayout.StructDraft.ResolvedBase}
    (step : ∀ d i base, all[i]? = some base → motive d →
      motive (d.placeBase policy i base.layout)) :
    (bases : List AbiLayout.StructDraft.ResolvedBase) → {i : Nat} → {d : StructDraft} →
      bases = all.drop i → motive d → motive (d.placeBases policy i bases)
  | [], _, _, _, hd => hd
  | base :: bases, i, _, hdrop, hd => by
    obtain ⟨hget, htail⟩ := of_cons_eq_drop hdrop
    exact placeBases_induction step bases htail (step _ i base hget hd)

/-- What holds of the empty draft, and is kept by placing each base and each field, holds of the
draft of a struct. -/
theorem structDraft_induction {policy : BitfieldPolicy} {record : Record}
    {bases : List AbiLayout.StructDraft.ResolvedBase} {placements : List Placement}
    {motive : StructDraft → Prop} (start : motive {})
    (base : ∀ d i base, bases[i]? = some base → motive d →
      motive (d.placeBase policy i base.layout))
    (field : ∀ d i field placement, record.fields[i]? = some field →
      placements[i]? = some placement → motive d →
        motive (d.place policy i field.isNamed placement)) :
    motive (structDraft policy record bases placements) :=
  placeEach_induction field _ rfl rfl
    (StructDraft.placeBases_induction base _ rfl start)

/-! ### Lawful places -/

namespace Slot

/-- The member lies where its type wants it, in a record of the given alignment: a base and a member
of whole bytes at a multiple of their own alignment, which divides that of the record, and a
bit-field inside of one aligned unit of its type, whose alignment the record takes over if the
bit-field is named. -/
def Lawful (bases : List AbiLayout.StructDraft.ResolvedBase) (fields : List Field)
    (placements : List Placement) (alignment : Nat) (s : Slot) : Prop :=
  match s.member with
  | .base i => ∃ base, bases[i]? = some base ∧ s.length = some (8 * base.layout.size.count) ∧
      8 * base.layout.alignment.count ∣ s.offset ∧ base.layout.alignment.count ∣ alignment
  | .field i => ∃ field placement, fields[i]? = some field ∧ placements[i]? = some placement ∧
      match placement with
      | .zeroWidth _ => False
      | .bitfield b => s.length = some b.width.count ∧
          s.offset % b.underlying.bitAlignment + b.width.count ≤ b.underlying.bitSize ∧
          (field.isNamed → b.underlying.alignment.count ∣ alignment)
      | .bytes layout =>
          (layout.completeness ≠ .incomplete → s.length = some (8 * layout.width.count)) ∧
          8 * layout.alignment.count ∣ s.offset ∧ layout.alignment.count ∣ alignment

variable {bases : List AbiLayout.StructDraft.ResolvedBase} {fields : List Field}
  {placements : List Placement} {a b : Nat}

/-- A member stays lawful in a record of a coarser alignment. -/
theorem Lawful.of_dvd {s : Slot} (hab : a ∣ b) (h : s.Lawful bases fields placements a) :
    s.Lawful bases fields placements b := by
  obtain ⟨member, offset, length⟩ := s
  cases member with
  | base i =>
    obtain ⟨base, hget, hlength, hoffset, hdvd⟩ := h
    exact ⟨base, hget, hlength, hoffset, Nat.dvd_trans hdvd hab⟩
  | field i =>
    obtain ⟨field, placement, hget, hget', h⟩ := h
    refine ⟨field, placement, hget, hget', ?_⟩
    cases placement with
    | zeroWidth p => exact h
    | bitfield b => exact ⟨h.1, h.2.1, fun hn => Nat.dvd_trans (h.2.2 hn) hab⟩
    | bytes layout => exact ⟨h.1, h.2.1, Nat.dvd_trans h.2.2 hab⟩

end Slot

/-! ### Filled drafts -/

namespace StructDraft

/-- The invariant of a draft: the members follow each other, the cursor stands behind all of them,
and each lies where its type wants it. -/
structure Filled (policy : BitfieldPolicy) (bases : List AbiLayout.StructDraft.ResolvedBase)
    (fields : List Field) (placements : List Placement) (d : StructDraft) : Prop where
  valid : d.cursor.Valid policy
  alignment_isPowerOfTwo : d.alignment.isPowerOfTwo
  sorted : d.members.Pairwise fun a b => a.stop ≤ b.offset
  stop_le : ∀ s ∈ d.members, s.stop ≤ d.cursor.dataSize
  lawful : ∀ s ∈ d.members, s.Lawful bases fields placements d.alignment

variable {policy : BitfieldPolicy} {bases : List AbiLayout.StructDraft.ResolvedBase}
  {fields : List Field} {placements : List Placement} {d : StructDraft}

/-- A member that is put at the cursor or behind it, and moves the cursor to its end, keeps the
invariant. -/
theorem Filled.settle (hd : d.Filled policy bases fields placements) {member : Member}
    {length : Option Nat} {asked : Nat} {tail : Bool} {placed : Nat × Cursor}
    (hvalid : placed.2.Valid policy) (hasked : asked.isPowerOfTwo)
    (hle : d.cursor.dataSize ≤ placed.1)
    (hstop : placed.2.dataSize = placed.1 + length.getD 0)
    (hlawful : ∀ alignment, asked ∣ alignment →
      Slot.Lawful bases fields placements alignment ⟨member, placed.1, length⟩) :
    (d.settle member length asked tail placed).Filled policy bases fields placements := by
  have hmax := isPowerOfTwo_max hd.alignment_isPowerOfTwo hasked
  refine ⟨hvalid, hmax, ?_, ?_, ?_⟩
  · refine List.pairwise_append.mpr ⟨hd.sorted, List.pairwise_singleton _ _, ?_⟩
    intro s hs s' hs'
    rw [List.mem_singleton.mp hs']
    exact (hd.stop_le s hs).trans hle
  · intro s hs
    rw [StructDraft.settle, hstop]
    rcases List.mem_append.mp hs with hs | hs
    · exact ((hd.stop_le s hs).trans hle).trans (Nat.le_add_right _ _)
    · rw [List.mem_singleton.mp hs]
      exact le_rfl
  · intro s hs
    rcases List.mem_append.mp hs with hs | hs
    · exact (hd.lawful s hs).of_dvd
        (dvd_of_isPowerOfTwo_of_le hd.alignment_isPowerOfTwo hmax (Nat.le_max_left _ _))
    · rw [List.mem_singleton.mp hs]
      exact hlawful _ (dvd_of_isPowerOfTwo_of_le hasked hmax (Nat.le_max_right _ _))

theorem filled_start (policy : BitfieldPolicy) (bases : List AbiLayout.StructDraft.ResolvedBase)
    (fields : List Field) (placements : List Placement) :
    Filled policy bases fields placements {} where
  valid := Cursor.valid_start policy
  alignment_isPowerOfTwo := Nat.isPowerOfTwo_one
  sorted := List.Pairwise.nil
  stop_le _ h := nomatch h
  lawful _ h := nomatch h

/-- Placing a base keeps the invariant. -/
theorem Filled.placeBase (hd : d.Filled policy bases fields placements) {i : Nat}
    {base : AbiLayout.StructDraft.ResolvedBase} (hget : bases[i]? = some base)
    (hpow : base.layout.alignment.count.isPowerOfTwo) :
    (d.placeBase policy i base.layout).Filled policy bases fields placements := by
  have hpos := Nat.pos_of_isPowerOfTwo (isPowerOfTwo_eight_mul hpow)
  refine hd.settle (Cursor.valid_placeWhole hd.valid (Nat.dvd_mul_right 8 _)
    (Nat.dvd_mul_right 8 _)) hpow ?_ rfl ?_
  · exact (Cursor.dataSize_le_room hd.valid).trans (Cursor.room_le_placeWhole hpos)
  · exact fun alignment hdvd => ⟨base, hget, rfl, dvd_nextMultiple _ _, hdvd⟩

/-- Placing a field keeps the invariant. -/
theorem Filled.place (hd : d.Filled policy bases fields placements) {i : Nat} {field : Field}
    (hget : fields[i]? = some field) :
    {placement : Placement} → placements[i]? = some placement → placement.Sound →
      (d.place policy i field.isNamed placement).Filled policy bases fields placements
  | .zeroWidth underlying, _, hsound =>
    { hd with
      valid := Cursor.valid_breakRun hd.valid underlying
      stop_le := fun s hs =>
        (hd.stop_le s hs).trans (Cursor.grows_breakRun hd.valid hsound).dataSize_le }
  | .bitfield b, hget', ⟨hp, _, hw⟩ => by
    refine hd.settle (Cursor.valid_placeBits hd.valid hw)
      (b.askedAlignment_isPowerOfTwo hp field.isNamed) (Cursor.dataSize_le_placeBits hd.valid hp)
      Cursor.dataSize_placeBits ?_
    intro alignment hdvd
    refine ⟨field, _, hget, hget', rfl, Cursor.placeBits_window hd.valid hp hw, fun hn => ?_⟩
    rwa [Bitfield.askedAlignment, if_pos hn] at hdvd
  | .bytes layout, hget', hpow => by
    have hpos := Nat.pos_of_isPowerOfTwo (isPowerOfTwo_eight_mul hpow)
    refine hd.settle (Cursor.valid_placeWhole hd.valid (Nat.dvd_mul_right 8 _) ?_) hpow ?_ rfl ?_
    · split
      · exact Nat.dvd_zero 8
      · exact Nat.dvd_mul_right 8 _
    · exact (Cursor.dataSize_le_room hd.valid).trans (Cursor.room_le_placeWhole hpos)
    · intro alignment hdvd
      exact ⟨field, _, hget, hget', fun hc => if_neg hc, dvd_nextMultiple _ _, hdvd⟩

/-- The draft with all members satisfies the invariant. -/
theorem filled_structDraft {record : Record}
    (hbases : ∀ base ∈ bases, base.layout.alignment.count.isPowerOfTwo)
    (hsound : ∀ placement ∈ placements, placement.Sound) :
    (structDraft policy record bases placements).Filled policy bases record.fields placements := by
  refine structDraft_induction (filled_start policy _ _ _) ?_ ?_
  · exact fun d i base hget hd => hd.placeBase hget (hbases base (List.mem_of_getElem? hget))
  · exact fun d i field placement hget hget' hd =>
      hd.place hget hget' (hsound placement (List.mem_of_getElem? hget'))

/-! ### Progress -/

/-- The cursor of a later draft is valid, and has not moved back. -/
structure Advances (policy : BitfieldPolicy) (d d' : StructDraft) : Prop where
  valid : d'.cursor.Valid policy
  grows : Cursor.Grows policy d.cursor d'.cursor

theorem advances_placeBase (hd : d.cursor.Valid policy) (i : Nat) {layout : RecordLayout}
    (hpow : layout.alignment.count.isPowerOfTwo) :
    Advances policy d (d.placeBase policy i layout) where
  valid := Cursor.valid_placeWhole hd (Nat.dvd_mul_right 8 _) (Nat.dvd_mul_right 8 _)
  grows := Cursor.grows_placeWhole hd (Nat.pos_of_isPowerOfTwo (isPowerOfTwo_eight_mul hpow))
    (Nat.dvd_mul_right 8 _) (Nat.dvd_mul_right 8 _)

theorem advances_place (hd : d.cursor.Valid policy) (i : Nat) (isNamed : Bool) :
    {placement : Placement} → placement.Sound →
      Advances policy d (d.place policy i isNamed placement)
  | .zeroWidth underlying, hsound =>
    ⟨Cursor.valid_breakRun hd underlying, Cursor.grows_breakRun hd hsound⟩
  | .bitfield _, ⟨hp, _, hw⟩ => ⟨Cursor.valid_placeBits hd hw, Cursor.grows_placeBits hd hp⟩
  | .bytes layout, hpow => by
    have hpos := Nat.pos_of_isPowerOfTwo (isPowerOfTwo_eight_mul hpow)
    have h8 : 8 ∣ (if layout.completeness = .incomplete then none
        else some (8 * layout.width.count) : Option Nat).getD 0 := by
      split
      · exact Nat.dvd_zero 8
      · exact Nat.dvd_mul_right 8 _
    exact ⟨Cursor.valid_placeWhole hd (Nat.dvd_mul_right 8 _) h8,
      Cursor.grows_placeWhole hd hpos (Nat.dvd_mul_right 8 _) h8⟩

theorem Advances.trans {d₁ d₂ d₃ : StructDraft} (h : Advances policy d₁ d₂)
    (h' : Advances policy d₂ d₃) : Advances policy d₁ d₃ := ⟨h'.valid, h.grows.trans h'.grows⟩

theorem Advances.frontier_le {d d' : StructDraft} (h : Advances policy d d')
    (hd : d.cursor.Valid policy) : d.cursor.frontier ≤ d'.cursor.frontier :=
  h.grows.frontier_le hd h.valid

/-- Bases only move the cursor forward. -/
theorem advances_placeBases :
    (bases : List AbiLayout.StructDraft.ResolvedBase) → {i : Nat} → {d : StructDraft} →
      d.cursor.Valid policy → (∀ base ∈ bases, base.layout.alignment.count.isPowerOfTwo) →
        Advances policy d (d.placeBases policy i bases)
  | [], _, d, hd, _ => ⟨hd, .refl d.cursor⟩
  | base :: bases, i, _, hd, hpow => by
    have hstep := advances_placeBase hd i (hpow base List.mem_cons_self)
    exact hstep.trans (advances_placeBases bases hstep.valid
      fun b hb => hpow b (List.mem_cons_of_mem base hb))

/-- A member of whole bytes is counted. -/
theorem wholeBits_le_frontier_place (hd : d.cursor.Valid policy) (i : Nat) (isNamed : Bool) :
    {placement : Placement} → placement.Sound →
      placement.wholeBits ≤ (d.place policy i isNamed placement).cursor.frontier
  | .zeroWidth _, _ | .bitfield _, _ => Nat.zero_le _
  | .bytes layout, hsound => by
    have hadvances : Advances policy d (d.place policy i isNamed (.bytes layout)) :=
      advances_place hd i isNamed hsound
    refine le_trans ?_ (Cursor.dataSize_le_frontier hadvances.valid)
    rw [Placement.wholeBits, place]
    by_cases hc : layout.completeness = .incomplete
    · rw [if_pos hc]
      exact Nat.zero_le _
    · simp only [if_neg hc]
      exact Nat.le_add_left _ _

/-- Fields only move the cursor forward. -/
theorem advances_placeEach :
    (fields : List Field) → {i : Nat} → {placements : List Placement} → {d : StructDraft} →
      d.cursor.Valid policy → (∀ placement ∈ placements, placement.Sound) →
        Advances policy d (placeEach (place policy) i fields placements d)
  | [], _, [], d, hd, _ | [], _, _ :: _, d, hd, _ | _ :: _, _, [], d, hd, _ => ⟨hd, .refl d.cursor⟩
  | field :: fields, i, placement :: placements, _, hd, hsound => by
    have hstep := advances_place hd i field.isNamed (hsound placement List.mem_cons_self)
    exact hstep.trans (advances_placeEach fields hstep.valid
      fun p hp => hsound p (List.mem_cons_of_mem placement hp))

/-- All members of whole bytes are counted. -/
theorem wholeBits_le_frontier {record : Record}
    (hbases : ∀ base ∈ bases, base.layout.alignment.count.isPowerOfTwo)
    (hsound : ∀ placement ∈ placements, placement.Sound) :
    ∀ z ∈ record.fields.zip placements,
      z.2.wholeBits ≤ (structDraft policy record bases placements).cursor.frontier := by
  have hplaced := advances_placeBases (i := 0) (d := {}) bases (Cursor.valid_start policy) hbases
  refine (le_placeEach (P := fun d => d.cursor.Valid policy) (Q := Placement.Sound)
    (fun d : StructDraft => d.cursor.frontier) Placement.wholeBits ?_ record.fields hplaced.valid
    hsound).2
  intro d i isNamed placement hd hplacement
  have hadvances := advances_place hd i isNamed hplacement
  exact ⟨hadvances.valid, hadvances.frontier_le hd,
    wholeBits_le_frontier_place hd i isNamed hplacement⟩

end StructDraft

end Ideal

end AbiLayout
