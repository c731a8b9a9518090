import AbiLayout.Proofs.Ideal.Struct

/-!
# Ideal drafts of unions

Every member of a union starts at zero and ends within the size of the draft. A bit-field asks for
the whole size of its type, any other member for its own, and the size is the largest of these.

## Main definitions

* `Placement.Matches`: how a resolved field comes from its type.
* `Ideal.Slot.fullBits`: the bits that a member of a union asks for.
* `Ideal.UnionDraft.Filled`: the invariant of a draft.

## Main results

* `Ideal.unionDraft_induction`: what every step keeps holds of the draft with all members.
* `Ideal.UnionDraft.filled_unionDraft`: the draft with all members satisfies the invariant.
-/

namespace AbiLayout

/-- A field is resolved to a bit-field exactly when its type is that bit-field. -/
def Placement.Matches (field : Field) : Placement → Prop
  | zeroWidth _ => True
  | bitfield b => field.ty = .bitfield b
  | bytes _ => ∀ b, field.ty ≠ .bitfield b

namespace Ideal

/-- What holds of the empty draft, and is kept by placing each field, holds of the draft of a
union. -/
theorem unionDraft_induction {record : Record} {placements : List Placement}
    {motive : UnionDraft → Prop} (start : motive {})
    (field : ∀ d i field placement, record.fields[i]? = some field →
      placements[i]? = some placement → motive d → motive (d.place i field.isNamed placement)) :
    motive (unionDraft record placements) :=
  placeEach_induction field _ rfl rfl start

/-- The bits that a member of a union asks for: those of its type for a bit-field, its own for any
other. -/
def Slot.fullBits (fields : List Field) (s : Slot) : Nat :=
  match s.member with
  | .base _ => s.counted
  | .field i =>
    match fields[i]?.map Field.ty with
    | some (.bitfield b) => b.underlying.bitSize
    | _ => s.counted

/-- The most bits that a member asks for. -/
def largestBits (fields : List Field) (members : List Slot) : Nat :=
  (members.map (·.fullBits fields)).foldl max 0

theorem largestBits_append (fields : List Field) (members : List Slot) (s : Slot) :
    largestBits fields (members ++ [s]) = max (largestBits fields members) (s.fullBits fields) := by
  rw [largestBits, List.map_append, List.foldl_append]
  rfl

theorem Slot.fullBits_of_bitfield {fields : List Field} {field : Field} {i offset : Nat}
    {length : Option Nat} {b : Bitfield} (hget : fields[i]? = some field)
    (hty : field.ty = .bitfield b) :
    Slot.fullBits fields ⟨.field i, offset, length⟩ = b.underlying.bitSize := by
  simp only [fullBits, hget, Option.map_some, hty]

theorem Slot.fullBits_of_ne {fields : List Field} {field : Field} {i offset length : Nat}
    (hget : fields[i]? = some field) (hty : ∀ b, field.ty ≠ .bitfield b) :
    Slot.fullBits fields ⟨.field i, offset, some length⟩ = length := by
  simp only [fullBits, hget, Option.map_some]
  cases hfield : field.ty with
  | bitfield b => exact absurd hfield (hty b)
  | primitive | voidPointer | pointerTo | array | record => rfl

namespace UnionDraft

/-- The invariant of a draft: all members start at zero, end within the size, which is the largest
that one of them asks for, and lie where their types want them. -/
structure Filled (fields : List Field) (placements : List Placement) (d : UnionDraft) : Prop where
  alignment_isPowerOfTwo : d.alignment.isPowerOfTwo
  offset_eq : ∀ s ∈ d.members, s.offset = 0
  stop_le : ∀ s ∈ d.members, s.stop ≤ 8 * d.size
  size_eq : 8 * d.size = largestBits fields d.members
  lawful : ∀ s ∈ d.members, s.Lawful [] fields placements d.alignment

variable {fields : List Field} {placements : List Placement} {d : UnionDraft}

theorem filled_start (fields : List Field) (placements : List Placement) :
    Filled fields placements {} where
  alignment_isPowerOfTwo := Nat.isPowerOfTwo_one
  offset_eq _ h := nomatch h
  stop_le _ h := nomatch h
  size_eq := rfl
  lawful _ h := nomatch h

/-- A member at zero that asks for its bits or more keeps the invariant. -/
theorem Filled.push (hd : d.Filled fields placements) {i length size asked : Nat} {tail : Bool}
    (hasked : asked.isPowerOfTwo) (hlength : length ≤ 8 * size)
    (hfull : 8 * size = Slot.fullBits fields ⟨.field i, 0, some length⟩)
    (hlawful : ∀ alignment, asked ∣ alignment →
      Slot.Lawful [] fields placements alignment ⟨.field i, 0, some length⟩) :
    (d.push i length size asked tail).Filled fields placements := by
  have hmax := isPowerOfTwo_max hd.alignment_isPowerOfTwo hasked
  refine ⟨hmax, ?_, ?_, ?_, ?_⟩
  · intro s hs
    rcases List.mem_append.mp hs with hs | hs
    · exact hd.offset_eq s hs
    · rw [List.mem_singleton.mp hs]
  · intro s hs
    change s.stop ≤ 8 * max d.size size
    rw [← Nat.mul_max_mul_left]
    rcases List.mem_append.mp hs with hs | hs
    · exact (hd.stop_le s hs).trans (Nat.le_max_left _ _)
    · rw [List.mem_singleton.mp hs]
      change 0 + length ≤ _
      omega
  · rw [UnionDraft.push, largestBits_append, ← hd.size_eq, ← hfull]
    exact (Nat.mul_max_mul_left _ _ _).symm
  · intro s hs
    rcases List.mem_append.mp hs with hs | hs
    · exact (hd.lawful s hs).of_dvd
        (dvd_of_isPowerOfTwo_of_le hd.alignment_isPowerOfTwo hmax (Nat.le_max_left _ _))
    · rw [List.mem_singleton.mp hs]
      exact hlawful _ (dvd_of_isPowerOfTwo_of_le hasked hmax (Nat.le_max_right _ _))

/-- Placing a field keeps the invariant. -/
theorem Filled.place (hd : d.Filled fields placements) {i : Nat} {field : Field}
    (hget : fields[i]? = some field) :
    {placement : Placement} → placements[i]? = some placement → placement.Sound →
      placement.Matches field → (d.place i field.isNamed placement).Filled fields placements
  | .zeroWidth _, _, _, _ => hd
  | .bitfield b, hget', ⟨hp, _, hw⟩, hmatch => by
    refine hd.push (b.askedAlignment_isPowerOfTwo hp field.isNamed) hw
      (Slot.fullBits_of_bitfield hget hmatch).symm ?_
    intro alignment hdvd
    refine ⟨field, _, hget, hget', rfl, ?_, fun hn => ?_⟩
    · rwa [Nat.zero_mod, Nat.zero_add]
    · rwa [Bitfield.askedAlignment, if_pos hn] at hdvd
  | .bytes layout, hget', hpow, hmatch => by
    refine hd.push hpow le_rfl (Slot.fullBits_of_ne hget hmatch).symm ?_
    exact fun alignment hdvd => ⟨field, _, hget, hget', fun _ => rfl, Nat.dvd_zero _, hdvd⟩

/-- The draft with all members satisfies the invariant. -/
theorem filled_unionDraft {record : Record} (hsound : ∀ placement ∈ placements, placement.Sound)
    (hmatch : ∀ (i : Nat) (field : Field) (placement : Placement),
      record.fields[i]? = some field → placements[i]? = some placement →
        placement.Matches field) :
    (unionDraft record placements).Filled record.fields placements := by
  refine unionDraft_induction (filled_start _ _) ?_
  intro d i field placement hget hget' hd
  exact hd.place hget hget' (hsound placement (List.mem_of_getElem? hget'))
    (hmatch i field placement hget hget')

/-- All members of whole bytes lie within the size. -/
theorem wholeBits_le_size (record : Record) (placements : List Placement) :
    ∀ z ∈ record.fields.zip placements,
      z.2.wholeBits ≤ 8 * (unionDraft record placements).size := by
  refine (le_placeEach (P := fun _ => True) (Q := fun _ => True)
    (fun d : UnionDraft => 8 * d.size) Placement.wholeBits ?_ record.fields trivial
    fun _ _ => trivial).2
  intro d i isNamed placement _ _
  refine ⟨trivial, ?_⟩
  cases placement with
  | zeroWidth p => exact ⟨le_rfl, Nat.zero_le _⟩
  | bitfield b => exact ⟨Nat.mul_le_mul_left 8 (Nat.le_max_left _ _), Nat.zero_le _⟩
  | bytes layout =>
    refine ⟨Nat.mul_le_mul_left 8 (Nat.le_max_left _ _), le_trans ?_
      (Nat.mul_le_mul_left 8 (Nat.le_max_right _ _))⟩
    rw [Placement.wholeBits]
    split
    · exact Nat.zero_le _
    · exact le_rfl

end UnionDraft

end Ideal

end AbiLayout
