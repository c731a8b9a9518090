import AbiLayout.Proofs.Agreement.Cursor
import AbiLayout.Proofs.Ideal.Struct

/-!
# Drafts of structs agree with ideal ones

Placing a member, bases and fields alike, does to a draft what the ideal step does to an ideal
draft, and fails only where the members are out of range. It traps exactly where an alignment or a
size does not fit in bits, with an overflow.

## Main definitions

* `Placement.Fits`: the field fits in bits.
* `StructDraft.Agrees`: the outcome of a step agrees with an ideal draft.

## Main results

* `StructDraft.place_agrees`, `StructDraft.placeBase_agrees`: where everything fits, the step
  agrees.
* `StructDraft.place_agrees_of_eq_ok`, `StructDraft.placeBase_agrees_of_eq_ok`: a step that does not
  trap agrees.
* `StructDraft.place_eq_overflow`: a field that does not fit in bits traps.
-/

namespace AbiLayout

/-- The alignment and the size of the field fit in bits, where the policy asks for them in bits. -/
def Placement.Fits (policy : BitfieldPolicy) : Placement → Prop
  | zeroWidth underlying => policy = .itanium → underlying.bitAlignment < 2 ^ 64
  | bitfield _ => True
  | bytes layout => 8 * layout.alignment.count < 2 ^ 64 ∧
      (layout.completeness ≠ .incomplete → 8 * layout.width.count < 2 ^ 64)

namespace StructDraft

/-- The outcome of a step is the ideal draft, unless the frontier of that is out of range. -/
def Agrees (policy : BitfieldPolicy) (out : PlaceStep × StructDraft) (ideal : Ideal.StructDraft) :
    Prop :=
  match out.1 with
  | .tooLarge => 2 ^ 64 ≤ ideal.cursor.frontier
  | _ => out.2.cursor.policy = policy ∧ out.2.toIdeal = ideal

variable {d : StructDraft} {policy : BitfieldPolicy}

@[simp] theorem toIdeal_cursor : d.toIdeal.cursor = d.cursor.toIdeal := rfl

/-- Raising an alignment to a power of two takes the larger one. -/
theorem raiseAlignment_eq_ok {alignment asked : ByteCount} (h : asked.count.isPowerOfTwo) :
    raiseAlignment alignment asked = .ok (max alignment asked) := by
  rw [raiseAlignment]
  by_cases hlt : alignment < asked
  · rw [if_pos hlt, if_pos (Quantity.isPowerOfTwo_iff.mpr h)]
    refine congrArg Except.ok (Quantity.ext ?_)
    rw [Quantity.count_max, Nat.max_eq_right (Nat.le_of_lt hlt)]
  · rw [if_neg hlt]
    refine congrArg Except.ok (Quantity.ext ?_)
    rw [Quantity.count_max, Nat.max_eq_left (Nat.le_of_not_lt hlt)]

/-- Settling a placement that agrees gives a draft that agrees. -/
theorem settle_agrees {member : Member} (extent : Extent) {asked : ByteCount} {tail : Bool}
    {placed : Option BitCount × Cursor} {ideal : Nat × Ideal.Cursor}
    (hasked : asked.count.isPowerOfTwo) (hplaced : Cursor.Agrees policy placed ideal) :
    ∃ out, d.settle member extent asked tail placed = .ok out ∧
      Agrees policy out (d.toIdeal.settle member extent.toIdeal asked.count tail ideal) := by
  obtain ⟨offset, cursor⟩ := placed
  cases offset with
  | none => exact ⟨_, rfl, hplaced⟩
  | some offset =>
    obtain ⟨hoffset, hpolicy, hcursor⟩ := hplaced
    let after : StructDraft :=
      ⟨cursor, max d.alignment asked, d.members ++ [⟨member, offset, extent⟩], tail⟩
    have hafter : after.toIdeal =
        d.toIdeal.settle member extent.toIdeal asked.count tail ideal := by
      simp [after, toIdeal, Ideal.StructDraft.settle, PlacedMember.toIdeal, hoffset, hcursor]
    refine ⟨(.placedAt offset, after), ?_, hpolicy, hafter⟩
    rw [settle, raiseAlignment_eq_ok hasked]
    rfl

/-! ### Bases -/

theorem placeBase_agrees (hd : d.cursor.toIdeal.Valid d.cursor.policy) {layout : RecordLayout}
    (i : Nat) (hpow : layout.alignment.count.isPowerOfTwo)
    (halign : 8 * layout.alignment.count < 2 ^ 64) (hsize : 8 * layout.size.count < 2 ^ 64) :
    ∃ out, d.placeBase i layout = .ok out ∧
      Agrees d.cursor.policy out (d.toIdeal.placeBase d.cursor.policy i layout) := by
  obtain ⟨placed, hplaced, hagrees⟩ := Cursor.placeWhole_agrees ⟨_, halign⟩ ⟨_, hsize⟩ hd
    (isPowerOfTwo_eight_mul hpow) (Nat.dvd_mul_right 8 _) (Nat.dvd_mul_right 8 _)
  rw [placeBase, Quantity.toBits_eq_ok halign, except_ok_bind, Quantity.toBits_eq_ok hsize,
    except_ok_bind, hplaced, except_ok_bind]
  exact settle_agrees _ hpow hagrees

/-- A base is placed without a trap only where its alignment and its size fit in bits. -/
theorem fits_of_placeBase_eq_ok {layout : RecordLayout} {i : Nat} {out : PlaceStep × StructDraft}
    (h : d.placeBase i layout = .ok out) :
    8 * layout.alignment.count < 2 ^ 64 ∧ 8 * layout.size.count < 2 ^ 64 := by
  obtain ⟨alignment, halign, h⟩ := except_bind_eq_ok_iff.mp h
  obtain ⟨size, hsize, -⟩ := except_bind_eq_ok_iff.mp h
  rw [Quantity.toBits_eq_ok_iff] at halign hsize
  exact ⟨halign ▸ alignment.count_lt, hsize ▸ size.count_lt⟩

theorem placeBase_agrees_of_eq_ok (hd : d.cursor.toIdeal.Valid d.cursor.policy)
    {layout : RecordLayout} {i : Nat} (hpow : layout.alignment.count.isPowerOfTwo)
    {out : PlaceStep × StructDraft} (h : d.placeBase i layout = .ok out) :
    Agrees d.cursor.policy out (d.toIdeal.placeBase d.cursor.policy i layout) := by
  obtain ⟨halign, hsize⟩ := fits_of_placeBase_eq_ok h
  obtain ⟨out', hout', hagrees⟩ := placeBase_agrees hd i hpow halign hsize
  cases h.symm.trans hout'
  exact hagrees

/-! ### Fields -/

theorem placeBreak_agrees (hd : d.cursor.toIdeal.Valid d.cursor.policy) {underlying : Primitive}
    (i : Nat) (isNamed : Bool) (hp : underlying.Usable)
    (hfits : (Placement.zeroWidth underlying).Fits d.cursor.policy) :
    ∃ out, d.placeBreak underlying = .ok out ∧ Agrees d.cursor.policy out
      (d.toIdeal.place d.cursor.policy i isNamed (.zeroWidth underlying)) := by
  have hbreak : ∃ out, d.cursor.breakRun underlying = .ok out ∧
      Cursor.Reaches d.cursor.policy out
        (d.cursor.toIdeal.breakRun d.cursor.policy underlying) := by
    cases hpolicy : d.cursor.policy with
    | itanium => exact hpolicy ▸ Cursor.breakRun_reaches hd hp (hfits hpolicy)
    | strictUnits =>
      obtain ⟨out, hout, hreaches⟩ := Cursor.endRun_reaches hd
      rw [hpolicy] at hreaches
      exact ⟨out, by rw [Cursor.breakRun, hpolicy]; exact hout, hreaches⟩
  obtain ⟨out, hout, hreaches⟩ := hbreak
  rw [placeBreak, hout, except_ok_bind]
  cases out with
  | none => exact ⟨_, rfl, hreaches⟩
  | some cursor =>
    obtain ⟨hpolicy, hcursor⟩ := hreaches
    refine ⟨_, rfl, hpolicy, ?_⟩
    rw [Ideal.StructDraft.place, toIdeal_cursor, ← hcursor]
    rfl

theorem placeBits_agrees (hd : d.cursor.toIdeal.Valid d.cursor.policy) {b : Bitfield}
    (i : Nat) (isNamed : Bool) (hb : (Placement.bitfield b).Sound) :
    ∃ out, d.placeBits i isNamed b = .ok out ∧ Agrees d.cursor.policy out
      (d.toIdeal.place d.cursor.policy i isNamed (.bitfield b)) := by
  obtain ⟨hp, hpos, hwidth⟩ := hb
  obtain ⟨placed, hplaced, hagrees⟩ := Cursor.placeBits_agrees hd hp hpos hwidth
  rw [placeBits, hplaced, except_ok_bind]
  exact settle_agrees _ (Bitfield.askedAlignment_isPowerOfTwo hp isNamed) hagrees

theorem placeWhole_agrees (hd : d.cursor.toIdeal.Valid d.cursor.policy) {layout : TypeLayout}
    (i : Nat) (isNamed : Bool) (hpow : layout.alignment.count.isPowerOfTwo)
    (hfits : (Placement.bytes layout).Fits d.cursor.policy) :
    ∃ out, d.placeWhole i layout = .ok out ∧ Agrees d.cursor.policy out
      (d.toIdeal.place d.cursor.policy i isNamed (.bytes layout)) := by
  obtain ⟨halign, hwidth⟩ := hfits
  have hagrees (size : BitCount) (h8 : 8 ∣ size.count) := Cursor.placeWhole_agrees
    ⟨_, halign⟩ size hd (isPowerOfTwo_eight_mul hpow) (Nat.dvd_mul_right 8 _) h8
  rw [placeWhole, Quantity.toBits_eq_ok halign, except_ok_bind, Ideal.StructDraft.place]
  by_cases hc : layout.completeness = .incomplete
  · obtain ⟨placed, hplaced, hagrees⟩ := hagrees .zero (Nat.dvd_zero 8)
    have hzero : (Quantity.zero : ByteCount).toBits = .ok .zero := rfl
    simp only [hc, beq_self_eq_true, if_true, hzero, except_ok_bind, hplaced]
    exact settle_agrees .unbounded hpow hagrees
  · obtain ⟨placed, hplaced, hagrees⟩ := hagrees ⟨_, hwidth hc⟩ (Nat.dvd_mul_right 8 _)
    simp only [beq_eq_false_iff_ne.mpr hc, Bool.false_eq_true, if_false, hc,
      Quantity.toBits_eq_ok (hwidth hc), except_ok_bind, hplaced]
    exact settle_agrees (.bits ⟨_, hwidth hc⟩) hpow hagrees

/-- Placing a field agrees with the ideal step, and does not trap where it fits in bits. -/
theorem place_agrees (hd : d.cursor.toIdeal.Valid d.cursor.policy) (i : Nat) (isNamed : Bool) :
    {placement : Placement} → placement.Sound → placement.Fits d.cursor.policy →
      ∃ out, d.place i isNamed placement = .ok out ∧
        Agrees d.cursor.policy out (d.toIdeal.place d.cursor.policy i isNamed placement)
  | .zeroWidth _, hsound, hfits => placeBreak_agrees hd i isNamed hsound hfits
  | .bitfield _, hsound, _ => placeBits_agrees hd i isNamed hsound
  | .bytes _, hsound, hfits => placeWhole_agrees hd i isNamed hsound hfits

/-- A field is placed without a trap only where it fits in bits. -/
theorem fits_of_place_eq_ok {i : Nat} {isNamed : Bool} {out : PlaceStep × StructDraft} :
    {placement : Placement} → d.place i isNamed placement = .ok out →
      placement.Fits d.cursor.policy
  | .zeroWidth underlying, h => by
    intro hpolicy
    obtain ⟨cursor, hbreak, -⟩ := except_bind_eq_ok_iff.mp h
    rw [Cursor.breakRun, hpolicy] at hbreak
    obtain ⟨alignment, halign, -⟩ := except_bind_eq_ok_iff.mp hbreak
    rw [Quantity.toBits_eq_ok_iff] at halign
    exact halign.symm.trans_lt alignment.count_lt
  | .bitfield _, _ => trivial
  | .bytes layout, h => by
    obtain ⟨alignment, halign, h⟩ := except_bind_eq_ok_iff.mp h
    obtain ⟨size, hsize, -⟩ := except_bind_eq_ok_iff.mp h
    rw [Quantity.toBits_eq_ok_iff] at halign hsize
    refine ⟨halign ▸ alignment.count_lt, fun hc => ?_⟩
    rw [if_neg (by simpa using hc)] at hsize
    exact hsize ▸ size.count_lt

/-- A field that does not fit in bits traps. -/
theorem place_eq_overflow {i : Nat} {isNamed : Bool} :
    {placement : Placement} → ¬placement.Fits d.cursor.policy →
      d.place i isNamed placement = .error .overflow
  | .zeroWidth underlying, h => by
    obtain ⟨hpolicy, hwide⟩ := Classical.not_imp.mp h
    rw [place, placeBreak, Cursor.breakRun, hpolicy]
    dsimp only
    rw [Quantity.toBits_eq_overflow (Nat.not_lt.mp hwide)]
    rfl
  | .bitfield _, h => absurd trivial h
  | .bytes layout, h => by
    rw [place, placeWhole]
    by_cases halign : 8 * layout.alignment.count < 2 ^ 64
    · obtain ⟨hc, hwide⟩ := Classical.not_imp.mp fun hwidth => h ⟨halign, hwidth⟩
      simp only [beq_eq_false_iff_ne.mpr hc, Bool.false_eq_true, if_false,
        Quantity.toBits_eq_ok halign, Quantity.toBits_eq_overflow (Nat.not_lt.mp hwide),
        except_ok_bind]
      rfl
    · rw [Quantity.toBits_eq_overflow (Nat.not_lt.mp halign)]
      rfl

theorem place_agrees_of_eq_ok (hd : d.cursor.toIdeal.Valid d.cursor.policy) {i : Nat}
    {isNamed : Bool} {placement : Placement} (hsound : placement.Sound)
    {out : PlaceStep × StructDraft} (h : d.place i isNamed placement = .ok out) :
    Agrees d.cursor.policy out (d.toIdeal.place d.cursor.policy i isNamed placement) := by
  obtain ⟨out', hout', hagrees⟩ := place_agrees hd i isNamed hsound (fits_of_place_eq_ok h)
  cases h.symm.trans hout'
  exact hagrees

end StructDraft

end AbiLayout
