import AbiLayout.Layout.Lookup
import AbiLayout.Layout.Record
import AbiLayout.Proofs.Outcome

/-!
# Traps of arithmetic

Four traps say that a computation has lost its way: it reads a table at a key that is not in use, or
runs out of keys, or asks for the size of a type that has none, or nests without end. All others
come from counts that leave their range, from alignments that are no powers of two, and from the
check of a layout. Placing members, computing padding, and checking a layout meet only the latter,
whatever they are given.

## Main definitions

* `Trap.IsStray`: the traps of a computation that has lost its way.
* `Steady`: a computation does not lose its way.

## Main results

* `steady_place`, `steady_placeBases`, `UnionDraft.steady_place`: placing members is steady.
* `RecordLayout.steady_flaw?`: so is the check of a layout.
-/

namespace AbiLayout

/-- The computation left the table, or asked for a size that there is not, or did not end. -/
def Trap.IsStray : Trap → Prop
  | unknownKey | keyOutOfRange | unsizedScalar | bottomless => True
  | overflow | divisionByZero | zeroAlignment | unevenAlignment | unitBehindCursor
  | flawedLayout => False

instance : DecidablePred Trap.IsStray := fun t => by
  cases t <;> unfold Trap.IsStray <;> infer_instance

variable {α β : Type}

/-- If the computation traps, it has not lost its way. -/
def Steady (x : Except Trap α) : Prop := ∀ t, x = .error t → ¬t.IsStray

theorem steady_ok (a : α) : Steady (.ok a) := fun _ h => nomatch h

theorem steady_error {t : Trap} (h : ¬t.IsStray) : Steady (.error t : Except Trap α) := by
  rintro _ ⟨⟩
  exact h

theorem Steady.bind {x : Except Trap α} {f : α → Except Trap β} (hx : Steady x)
    (hf : ∀ a, Steady (f a)) : Steady (x >>= f) := by
  cases x with
  | error t => exact steady_error (hx t rfl)
  | ok a => exact hf a

theorem steady_ite {p : Prop} [Decidable p] {x y : Except Trap α} (hx : Steady x) (hy : Steady y) :
    Steady (if p then x else y) := by
  split
  · exact hx
  · exact hy

/-! ### Counts -/

namespace Quantity

variable {g : Granule}

theorem steady_fit (n : Nat) : Steady (fit n : Except Trap (Quantity g)) := by
  unfold fit
  split
  · exact steady_ok _
  · exact steady_error id

theorem steady_add (x y : Quantity g) : Steady (x.add y) := steady_fit _

theorem steady_toBits (x : ByteCount) : Steady x.toBits := steady_fit _

theorem steady_sub (x y : Quantity g) : Steady (x.sub y) :=
  steady_ite (steady_error id) (steady_ok _)

theorem steady_rem (x y : Quantity g) : Steady (x.rem y) :=
  steady_ite (steady_error id) (steady_ok _)

theorem steady_roundUp? (x a : Quantity g) : Steady (x.roundUp? a) :=
  steady_ite (steady_error id) (steady_ok _)

theorem steady_sum (xs : List (Quantity g)) : Steady (sum xs) := by
  intro t h
  obtain ⟨y, -, x, hadd⟩ := foldlM_eq_error h
  exact steady_add x y t hadd

end Quantity

open Quantity

theorem Profile.steady_recordSize? (p : Profile) (unpadded alignment : ByteCount) :
    Steady (p.recordSize? unpadded alignment) :=
  (steady_roundUp? _ _).bind fun _ => steady_ok _

/-! ### The cursor -/

namespace Cursor

variable (c : Cursor) (underlying : Primitive) (alignment unit width : BitCount)

theorem steady_endRun : Steady c.endRun := by
  unfold endRun
  split
  · exact (steady_roundUp? _ _).bind fun _ => steady_ok _
  split
  · exact steady_ok _
  · exact steady_ite (steady_error id) (steady_ok _)

theorem steady_placeAligned : Steady (c.placeAligned alignment width) :=
  (steady_roundUp? _ _).bind fun offset => by cases offset <;> exact steady_ok _

theorem steady_placeWhole : Steady (c.placeWhole alignment width) :=
  c.steady_endRun.bind fun closed => by
    cases closed with
    | none => exact steady_ok _
    | some closed => exact closed.steady_placeAligned alignment width

theorem steady_placeShared : Steady (c.placeShared alignment unit width) :=
  (steady_rem _ _).bind fun used => (used.steady_add width).bind fun _ =>
    steady_ite (c.steady_placeAligned alignment width) (steady_ok _)

theorem steady_placeInFreshUnit :
    Steady (c.placeInFreshUnit underlying alignment unit width) :=
  c.steady_endRun.bind fun closed => by
    cases closed with
    | none => exact steady_ok _
    | some closed =>
      refine (steady_roundUp? _ _).bind fun offset => ?_
      cases offset with
      | none => exact steady_ok _
      | some offset => dsimp only; split <;> exact steady_ok _

theorem steady_placeBits : Steady (c.placeBits underlying width) := by
  refine (steady_toBits _).bind fun unit => (steady_toBits _).bind fun alignment => ?_
  split
  · exact c.steady_placeShared alignment unit width
  split
  · exact steady_ok _
  · exact steady_ok _
  · exact c.steady_placeInFreshUnit underlying alignment unit width

theorem steady_breakRun : Steady (c.breakRun underlying) := by
  unfold breakRun
  split
  · exact (steady_toBits _).bind fun _ => (steady_roundUp? _ _).bind fun _ => steady_ok _
  · exact c.steady_endRun

end Cursor

/-! ### Structs -/

namespace StructDraft

variable (d : StructDraft)

theorem steady_raiseAlignment (alignment asked : ByteCount) :
    Steady (raiseAlignment alignment asked) :=
  steady_ite (steady_ite (steady_ok _) (steady_error id)) (steady_ok _)

theorem steady_settle (member : Member) (extent : Extent) (asked : ByteCount) (tail : Bool)
    (placed : Option BitCount × Cursor) : Steady (d.settle member extent asked tail placed) := by
  obtain ⟨offset, cursor⟩ := placed
  cases offset with
  | none => exact steady_ok _
  | some offset => exact (steady_raiseAlignment _ _).bind fun _ => steady_ok _

theorem steady_placeBase (i : Nat) (layout : RecordLayout) : Steady (d.placeBase i layout) :=
  (steady_toBits _).bind fun alignment => (steady_toBits _).bind fun size =>
    (d.cursor.steady_placeWhole alignment size).bind fun _ => d.steady_settle _ _ _ _ _

/-- Placing a field is steady. -/
theorem steady_place (i : Nat) (isNamed : Bool) (placement : Placement) :
    Steady (d.place i isNamed placement) := by
  cases placement with
  | zeroWidth underlying =>
    refine (d.cursor.steady_breakRun underlying).bind fun cursor => ?_
    cases cursor <;> exact steady_ok _
  | bitfield b =>
    exact (d.cursor.steady_placeBits b.underlying b.width).bind fun _ => d.steady_settle _ _ _ _ _
  | bytes layout =>
    exact (steady_toBits _).bind fun alignment => (steady_toBits _).bind fun size =>
      (d.cursor.steady_placeWhole alignment size).bind fun _ => d.steady_settle _ _ _ _ _

/-- Placing bases is steady. -/
theorem steady_placeBases (record : Record) (i : Nat) (bases : List ResolvedBase) :
    Steady (placeBases record i bases d) := by
  induction bases generalizing i d with
  | nil => exact steady_ok _
  | cons base bases ih =>
    refine (d.steady_placeBase i base.layout).bind fun step => ?_
    split
    · exact steady_ok _
    · exact ih _ _

end StructDraft

theorem steady_gapsFrom (size reached : BitCount) (ms : List PlacedMember) :
    Steady (gapsFrom size reached ms) := by
  induction ms generalizing reached with
  | nil => exact steady_ok _
  | cons m ms ih => exact (steady_add _ _).bind fun _ => (ih _).bind fun _ => steady_ok _

/-! ### Unions -/

namespace UnionDraft

variable (d : UnionDraft)

/-- Placing a field is steady. -/
theorem steady_place (i : Nat) (isNamed : Bool) (placement : Placement) :
    Steady (d.place i isNamed placement) := by
  cases placement with
  | zeroWidth | bitfield => exact steady_ok _
  | bytes layout => exact (steady_toBits _).bind fun _ => steady_ok _

theorem steady_padding (size : ByteCount) : Steady (d.padding size) :=
  steady_ite ((steady_toBits _).bind fun _ => (steady_sub _ _).bind fun _ =>
    (steady_toBits _).bind fun _ => steady_ok _) (steady_ok _)

end UnionDraft

/-! ### The check and the search -/

theorem steady_regionPast? (size : BitCount) (ps : List BitRange) :
    Steady (regionPast? size ps) := by
  induction ps with
  | nil => exact steady_ok _
  | cons p ps ih => exact (steady_add _ _).bind fun _ => steady_ite (steady_ok _) ih

theorem steady_overlapFrom? (reached : BitCount) (ms : List PlacedMember) :
    Steady (overlapFrom? reached ms) := by
  induction ms generalizing reached with
  | nil => exact steady_ok _
  | cons m ms ih => exact steady_ite (steady_ok _) ((steady_add _ _).bind fun _ => ih _)

/-- The check of a layout is steady. -/
theorem RecordLayout.steady_flaw? (l : RecordLayout) : Steady l.flaw? := by
  have hstruct (size : BitCount) : Steady (l.structFlaw? size) := by
    refine (steady_overlapFrom? _ _).bind fun found => ?_
    cases found with
    | some m => exact steady_ok _
    | none =>
      exact (steady_sum _).bind fun _ => (steady_sum _).bind fun _ => (steady_add _ _).bind fun _ =>
        steady_ite (steady_ok _) (steady_ok _)
  refine steady_ite (steady_ok _) ((steady_rem _ _).bind fun rest => ?_)
  refine steady_ite ((steady_toBits _).bind fun size => ?_) (steady_ok _)
  refine (steady_regionPast? _ _).bind fun found => ?_
  cases found with
  | some region => exact steady_ok _
  | none =>
    dsimp only
    split
    · exact steady_ok _
    · exact hstruct size

theorem SearchPlace.steady_into (place : SearchPlace) (m : PlacedMember) : Steady (place.into m) :=
  (steady_add _ _).bind fun _ => steady_ok _

end AbiLayout
