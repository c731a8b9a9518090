import AbiLayout.Proofs.Course

/-!
# Movements of the cursor

A cursor is moved by calls that place bits, place whole bytes, break a run or end it, in any order.
A call that finds no room answers so, and the next one goes on from where it left the cursor. All it
can have done by then is to end the run of bit-fields: a unit is opened for a bit-field only where
the whole unit fits, so that the bit-field does. Hence a call keeps the invariant of the cursor
whether or not it succeeds, never moves it back, and places its bits behind all that were placed
before.

## Main definitions

* `Cursor.Call`, `Cursor.call`, `Cursor.Call.Proper`: calls, and what is asked of them.
* `Cursor.Move`, `Cursor.callAll`: a call with the cursors before and behind it, and such moves in
  sequence.
* `Cursor.Keeps`: what a call guarantees.

## Main results

* `Cursor.placeWhole_eq_none`, `Cursor.placeBits_eq_none`: what a placement without room has done.
* `Cursor.exists_call_keeps`: a proper call does not trap, and keeps the invariant.
* `Cursor.callAll_advances`: what holds along any sequence of proper calls.
-/

namespace AbiLayout.Cursor

/-! ### Calls -/

/-- A call that moves the cursor. -/
inductive Call where
  | placeBits (underlying : Primitive) (width : BitCount)
  | placeWhole (alignment width : BitCount)
  | breakRun (underlying : Primitive)
  | endRun
deriving DecidableEq

namespace Call

/-- The number of bits that a call places. -/
def width : Call → BitCount
  | placeBits _ width | placeWhole _ width => width
  | breakRun _ | endRun => .zero

/-- What is asked of a call. A bit-field is over a usable base type, has bits, and is no wider than
the type; a member of whole bytes is aligned to a power of two. A break of a run asks something only
where it rounds: that the alignment is not zero, and fits in bits. -/
def Proper (policy : BitfieldPolicy) : Call → Prop
  | placeBits p width => p.Usable ∧ 0 < width.count ∧ width.count ≤ p.bitSize
  | placeWhole alignment width => (∃ k, alignment.count = 8 * 2 ^ k) ∧ 8 ∣ width.count
  | breakRun p => policy = .itanium → 0 < p.alignment.count ∧ p.bitAlignment < 2 ^ 64
  | endRun => True

end Call

/-- The outcome of a call, and the cursor behind it. Where there is no room, a placement keeps the
steps that succeeded, and any other call changes nothing. -/
def call (c : Cursor) : Call → Except Trap (PlaceStep × Cursor)
  | .placeBits p width => do
    let (offset, after) ← c.placeBits p width
    return (offset.elim .tooLarge .placedAt, after)
  | .placeWhole alignment width => do
    let (offset, after) ← c.placeWhole alignment width
    return (offset.elim .tooLarge .placedAt, after)
  | .breakRun p => do
    let after ← c.breakRun p
    return after.elim (.tooLarge, c) (.skipped, ·)
  | .endRun => do
    let after ← c.endRun
    return after.elim (.tooLarge, c) (.skipped, ·)

/-- A call with its outcome, and the cursors before and behind it. -/
structure Move where
  call : Call
  before : Cursor
  step : PlaceStep
  after : Cursor
deriving DecidableEq

/-- The bits that were placed, if there was room for them. -/
def Move.range? (m : Move) : Option BitRange :=
  match m.step with
  | .placedAt offset => some ⟨offset, m.call.width⟩
  | .tooLarge | .skipped => none

theorem Move.range?_eq_some_iff {m : Move} {p : BitRange} :
    m.range? = some p ↔ m.step = .placedAt p.offset ∧ p.length = m.call.width := by
  obtain ⟨offset, length⟩ := p
  rw [range?]
  cases m.step <;> simp [eq_comm]

/-- The moves of calls in order. A call without room does not end them. -/
def callAll (c : Cursor) : List Call → Except Trap (List Move)
  | [] => .ok []
  | call :: calls => do
    let (step, after) ← c.call call
    let later ← after.callAll calls
    return ⟨call, c, step, after⟩ :: later

/-! ### Placements without room -/

variable {c c' : Cursor} {alignment width : BitCount}

theorem placeAt_eq_none {offset : BitCount} (h : c.placeAt offset width = (none, c')) : c' = c := by
  rw [placeAt] at h
  split at h
  · cases h
    rfl
  · cases h

theorem placeAligned_eq_none (h : c.placeAligned alignment width = .ok (none, c')) : c' = c := by
  obtain ⟨rounded, -, h⟩ := except_bind_eq_ok_iff.mp h
  cases rounded with
  | none =>
    cases h
    rfl
  | some offset => exact placeAt_eq_none (Except.ok.inj h)

/-- Without room for a member of whole bytes, at most the run before it is ended. -/
theorem placeWhole_eq_none (h : c.placeWhole alignment width = .ok (none, c')) :
    c' = c ∨ c.endRun = .ok (some c') := by
  obtain ⟨closed, hclosed, h⟩ := except_bind_eq_ok_iff.mp h
  cases closed with
  | none =>
    cases h
    exact .inl rfl
  | some closed => exact .inr (placeAligned_eq_none h ▸ hclosed)

/-- Without room for a fresh unit, at most the run before it is ended. Where there is room for the
unit, there is room for a bit-field that is no wider. -/
theorem placeInFreshUnit_eq_none {p : Primitive} {unit : BitCount} (hw : width.count ≤ unit.count)
    (h : c.placeInFreshUnit p alignment unit width = .ok (none, c')) :
    c' = c ∨ c.endRun = .ok (some c') := by
  obtain ⟨closed, hclosed, h⟩ := except_bind_eq_ok_iff.mp h
  cases closed with
  | none =>
    cases h
    exact .inl rfl
  | some closed =>
    obtain ⟨rounded, -, h⟩ := except_bind_eq_ok_iff.mp h
    cases rounded with
    | none =>
      cases h
      exact .inr hclosed
    | some offset =>
      dsimp only at h
      split at h
      · cases h
        exact .inr hclosed
      · rename_i stop hstop
        rw [Quantity.add?, Quantity.fit?_eq_some_iff] at hstop
        have hlt := stop.count_lt
        have hroom : offset.count + width.count < 2 ^ 64 := by omega
        rw [placeAt, Quantity.add?, Quantity.fit?_eq_some hroom] at h
        cases h

/-- Without room for a bit-field, at most the run before it is ended. -/
theorem placeBits_eq_none {p : Primitive} (hw : width.count ≤ p.bitSize)
    (h : c.placeBits p width = .ok (none, c')) : c' = c ∨ c.endRun = .ok (some c') := by
  obtain ⟨unit, hunit, h⟩ := except_bind_eq_ok_iff.mp h
  obtain ⟨alignment, -, h⟩ := except_bind_eq_ok_iff.mp h
  cases hpolicy : c.policy with
  | itanium =>
    rw [hpolicy] at h
    obtain ⟨used, -, h⟩ := except_bind_eq_ok_iff.mp h
    obtain ⟨reach, -, h⟩ := except_bind_eq_ok_iff.mp h
    left
    split at h
    · exact placeAligned_eq_none h
    · exact placeAt_eq_none (Except.ok.inj h)
  | strictUnits =>
    rw [hpolicy] at h
    dsimp only at h
    split at h
    · cases h
      exact .inl rfl
    · exact .inl (placeAt_eq_none (Except.ok.inj h))
    · rw [Primitive.bits, Quantity.toBits_eq_ok_iff] at hunit
      exact placeInFreshUnit_eq_none (hunit ▸ hw) h

/-! ### What a call keeps -/

/-- What a call guarantees of the cursor behind it: the invariant holds, the cursor has not moved
back, and bits that were placed start at the earlier cursor or behind it, and end at this one. -/
structure Keeps (c : Cursor) (width : BitCount) (step : PlaceStep) (after : Cursor) : Prop where
  policy_eq : after.policy = c.policy
  valid : after.toIdeal.Valid c.policy
  dataSize_le : c.dataSize ≤ after.dataSize
  placed : ∀ offset, step = .placedAt offset →
    c.dataSize ≤ offset ∧ after.dataSize.count = offset.count + width.count

section Keeps

variable (hc : c.toIdeal.Valid c.policy)

include hc

theorem keeps_refl : c.Keeps width .tooLarge c := ⟨rfl, hc, Nat.le_refl _, fun _ h => nomatch h⟩

/-- The end of a run is kept, also where it is all that a placement has done. -/
theorem keeps_of_endRun {step : PlaceStep} (hstep : ∀ offset, step ≠ .placedAt offset)
    (h : c.endRun = .ok (some c')) : c.Keeps width step c' := by
  obtain ⟨hpolicy, hideal⟩ := endRun_eq_some hc h
  refine ⟨hpolicy, hideal ▸ Ideal.Cursor.valid_endRun hc, ?_,
    fun offset hplaced => absurd hplaced (hstep offset)⟩
  exact (Ideal.Cursor.dataSize_le_room hc).trans (congrArg Ideal.Cursor.dataSize hideal).ge

theorem keeps_of_eq_none (h : c' = c ∨ c.endRun = .ok (some c')) : c.Keeps width .tooLarge c' := by
  rcases h with rfl | h
  · exact keeps_refl hc
  · exact keeps_of_endRun hc (fun _ h => nomatch h) h

/-- A call that ends a run keeps the invariant. -/
theorem exists_endRun_keeps :
    ∃ step after, c.call .endRun = .ok (step, after) ∧ c.Keeps width step after := by
  obtain ⟨out, hout, -⟩ := endRun_reaches hc
  rw [call, hout]
  cases out with
  | none => exact ⟨_, _, rfl, keeps_refl hc⟩
  | some after => exact ⟨_, _, rfl, keeps_of_endRun hc (fun _ h => nomatch h) hout⟩

/-- A call that breaks a run keeps the invariant. Under the Itanium policy it rounds to any
alignment, and rounding up never moves back. -/
theorem exists_breakRun_keeps {p : Primitive} (h : (Call.breakRun p).Proper c.policy) :
    ∃ step after, c.call (.breakRun p) = .ok (step, after) ∧ c.Keeps width step after := by
  cases hpolicy : c.policy with
  | itanium =>
    obtain ⟨hpos, hfits⟩ := h hpolicy
    have hbits : 0 < p.bitAlignment := Nat.mul_pos (by decide) hpos
    have hnonzero : ¬(⟨p.bitAlignment, hfits⟩ : BitCount).isZero = true :=
      mt Quantity.isZero_iff.mp hbits.ne'
    obtain ⟨rounded, hrounded⟩ : ∃ rounded,
        c.dataSize.roundUp? ⟨p.bitAlignment, hfits⟩ = .ok rounded :=
      ⟨_, by rw [Quantity.roundUp?, if_neg hnonzero]⟩
    rw [call, Cursor.breakRun, hpolicy]
    dsimp only
    rw [Quantity.toBits_eq_ok (x := p.alignment) hfits, except_ok_bind]
    change ∃ step after, (c.dataSize.roundUp? ⟨p.bitAlignment, hfits⟩ >>= _) >>= _ = _ ∧ _
    rw [hrounded]
    cases rounded with
    | none => exact ⟨_, _, rfl, keeps_refl hc⟩
    | some dataSize =>
      refine ⟨.skipped, c.moveTo dataSize, rfl, rfl, ?_,
        Quantity.le_of_roundUp?_eq_some hrounded, fun _ h => by cases h⟩
      rw [hpolicy]
      exact Ideal.Cursor.valid_itanium (hc.shared hpolicy)
  | strictUnits =>
    have hsame : c.call (.breakRun p) = c.call .endRun := by
      rw [call, call, Cursor.breakRun, hpolicy]
    rw [hsame]
    exact exists_endRun_keeps hc

/-- A call that places whole bytes keeps the invariant. -/
theorem exists_placeWhole_keeps (h : (Call.placeWhole alignment width).Proper c.policy) :
    ∃ step after, c.call (.placeWhole alignment width) = .ok (step, after) ∧
      c.Keeps width step after := by
  obtain ⟨⟨k, hk⟩, hw⟩ := h
  have h8 : 8 ∣ alignment.count := hk ▸ Nat.dvd_mul_right 8 _
  have ha : alignment.count.isPowerOfTwo := hk ▸ isPowerOfTwo_eight_mul ⟨k, rfl⟩
  obtain ⟨⟨offset, after⟩, hout, -⟩ := placeWhole_agrees alignment width hc ha h8 hw
  rw [call, hout]
  refine ⟨_, after, rfl, ?_⟩
  cases offset with
  | none => exact keeps_of_eq_none hc (placeWhole_eq_none hout)
  | some offset =>
    obtain ⟨hpolicy, hroom, hoffset, -, hideal⟩ := placeWhole_eq_some hc h8 hout
    have hstart : c.dataSize.count ≤ offset.count :=
      (Ideal.Cursor.dataSize_le_room hc).trans hroom
    have hend : after.dataSize.count = offset.count + width.count :=
      congrArg Ideal.Cursor.dataSize hideal
    refine ⟨hpolicy, ?_, ?_, ?_⟩
    · rw [hideal]
      exact Ideal.Cursor.valid_of_openUnit_eq_none rfl (Nat.dvd_add hoffset hw)
    · exact hstart.trans ((Nat.le_add_right _ _).trans hend.ge)
    · rintro _ ⟨⟩
      exact ⟨hstart, hend⟩

/-- A call that places a bit-field keeps the invariant. -/
theorem exists_placeBits_keeps {p : Primitive} (h : (Call.placeBits p width).Proper c.policy) :
    ∃ step after, c.call (.placeBits p width) = .ok (step, after) ∧ c.Keeps width step after := by
  obtain ⟨hp, hpos, hw⟩ := h
  obtain ⟨⟨offset, after⟩, hout, -⟩ := placeBits_agrees hc hp hpos hw
  rw [call, hout]
  refine ⟨_, after, rfl, ?_⟩
  cases offset with
  | none => exact keeps_of_eq_none hc (placeBits_eq_none hw hout)
  | some offset =>
    obtain ⟨hpolicy, hoffset, hideal⟩ := placeBits_eq_some hc hp hpos hw hout
    have hstart : c.dataSize.count ≤ offset.count :=
      (Ideal.Cursor.dataSize_le_placeBits hc hp).trans hoffset.ge
    have hend : after.dataSize.count = offset.count + width.count := by
      rw [hoffset, ← Ideal.Cursor.dataSize_placeBits, ← hideal]
      rfl
    refine ⟨hpolicy, hideal ▸ Ideal.Cursor.valid_placeBits hc hw, ?_, ?_⟩
    · exact hstart.trans ((Nat.le_add_right _ _).trans hend.ge)
    · rintro _ ⟨⟩
      exact ⟨hstart, hend⟩

/-- **A proper call keeps the invariant**, whether or not there is room, and does not trap. -/
theorem exists_call_keeps {call : Call} (h : call.Proper c.policy) :
    ∃ step after, c.call call = .ok (step, after) ∧ c.Keeps call.width step after := by
  cases call with
  | placeBits p width => exact exists_placeBits_keeps hc h
  | placeWhole alignment width => exact exists_placeWhole_keeps hc h
  | breakRun p => exact exists_breakRun_keeps hc h
  | endRun => exact exists_endRun_keeps hc

/-! ### Calls in sequence -/

/-- Along proper calls every move keeps the invariant, and no move starts before the cursor at hand.
Bits that are placed end where later ones start, or before. -/
theorem exists_callAll_keeps {calls : List Call} (h : ∀ call ∈ calls, call.Proper c.policy) :
    ∃ moves, c.callAll calls = .ok moves ∧ moves.map Move.call = calls ∧
      (∀ m ∈ moves, m.before.policy = c.policy ∧ c.dataSize ≤ m.before.dataSize ∧
        m.before.Keeps m.call.width m.step m.after) ∧
      (moves.filterMap Move.range?).Pairwise fun p p' =>
        p.offset.count + p.length.count ≤ p'.offset.count := by
  induction calls generalizing c with
  | nil => exact ⟨[], rfl, rfl, fun _ hm => (nomatch hm), .nil⟩
  | cons call calls ih =>
    obtain ⟨hcall, hcalls⟩ := List.forall_mem_cons.mp h
    obtain ⟨step, after, hstep, hkeeps⟩ := exists_call_keeps hc hcall
    obtain ⟨moves, hmoves, hmap, hall, hpairs⟩ :=
      ih (c := after) (hkeeps.policy_eq ▸ hkeeps.valid) (hkeeps.policy_eq ▸ hcalls)
    refine ⟨⟨call, c, step, after⟩ :: moves, ?_, congrArg (call :: ·) hmap, ?_, ?_⟩
    · rw [callAll, hstep, except_ok_bind]
      dsimp only
      rw [hmoves]
      rfl
    · refine List.forall_mem_cons.mpr ⟨⟨rfl, Nat.le_refl _, hkeeps⟩, fun m hm => ?_⟩
      obtain ⟨hpolicy, hle, hm⟩ := hall m hm
      exact ⟨hpolicy.trans hkeeps.policy_eq, Nat.le_trans hkeeps.dataSize_le hle, hm⟩
    · rw [List.filterMap_cons]
      cases step with
      | tooLarge | skipped => exact hpairs
      | placedAt offset =>
        refine List.pairwise_cons.mpr ⟨fun p hp => ?_, hpairs⟩
        -- a later placement starts at its own cursor or behind it, which is not before `after`
        obtain ⟨m, hm, hrange⟩ := List.mem_filterMap.mp hp
        obtain ⟨-, hle, hkept⟩ := hall m hm
        obtain ⟨hplaced, -⟩ := Move.range?_eq_some_iff.mp hrange
        have hend := (hkeeps.placed offset rfl).2
        have hstart := (hkept.placed p.offset hplaced).1
        exact hend.symm.trans_le (Nat.le_trans hle hstart)

end Keeps

/-- **The cursor keeps its invariant along all calls, whether or not there is room for them.** Under
either policy, from the start of a struct, no sequence of proper calls traps. Behind each call no
unit is open under the Itanium policy; under the strict policy the cursor is on a byte boundary with
no unit open, or the open unit starts at an aligned position, is as long as its base type, and holds
the cursor. No call moves the cursor back. Bits that are placed start at the cursor or behind it and
move it to their end, so that placed bits never overlap. -/
theorem callAll_advances (policy : BitfieldPolicy) {calls : List Call}
    (h : ∀ call ∈ calls, call.Proper policy) :
    ∃ moves, (start policy).callAll calls = .ok moves ∧ moves.map Move.call = calls ∧
      (∀ m ∈ moves, m.after.policy = policy ∧ m.after.toIdeal.Valid policy ∧
        m.before.dataSize ≤ m.after.dataSize ∧
        ∀ offset, m.step = .placedAt offset → m.before.dataSize ≤ offset ∧
          m.after.dataSize.count = offset.count + m.call.width.count) ∧
      (moves.filterMap Move.range?).Pairwise fun p p' =>
        p.offset.count + p.length.count ≤ p'.offset.count := by
  obtain ⟨moves, hmoves, hmap, hall, hpairs⟩ :=
    exists_callAll_keeps (c := start policy) (Ideal.Cursor.valid_start policy) h
  refine ⟨moves, hmoves, hmap, fun m hm => ?_, hpairs⟩
  obtain ⟨hpolicy, -, hkeeps⟩ := hall m hm
  have hpolicy : m.before.policy = policy := hpolicy
  exact ⟨hkeeps.policy_eq.trans hpolicy, hpolicy ▸ hkeeps.valid, hkeeps.dataSize_le, hkeeps.placed⟩

/-- A bit-field, a member that is too large, another bit-field, and the end of the run. -/
def crowdedCalls : List Call :=
  [.placeBits ⟨"int", .of 4, .of 4, .signed⟩ (.of 3),
   .placeWhole (.of 64) (.of 0xFFFF_FFFF_FFFF_FFC0),
   .placeBits ⟨"int", .of 4, .of 4, .signed⟩ (.of 5), .endRun]

/-- The member that is too large ends the run before it, and the next bit-field opens a unit of its
own. -/
theorem callAll_advances_crowded :
    (∀ call ∈ crowdedCalls, call.Proper .strictUnits) ∧
    ∃ moves, (start .strictUnits).callAll crowdedCalls = .ok moves ∧
      moves.map Move.step = [.placedAt .zero, .tooLarge, .placedAt (.of 32), .skipped] ∧
      moves.map (·.after.dataSize) = [.of 3, .of 32, .of 37, .of 64] ∧
      (∀ m ∈ moves, m.after.toIdeal.Valid .strictUnits) ∧
      (moves.filterMap Move.range?).Pairwise fun p p' =>
        p.offset.count + p.length.count ≤ p'.offset.count := by
  have hproper : ∀ call ∈ crowdedCalls, call.Proper .strictUnits := by
    have hint : (⟨"int", .of 4, .of 4, .signed⟩ : Primitive).Usable := by decide
    simp only [crowdedCalls, List.forall_mem_cons, Call.Proper]
    exact ⟨⟨hint, by decide, by decide⟩, ⟨⟨3, rfl⟩, by decide⟩, ⟨hint, by decide, by decide⟩,
      trivial, fun _ h => nomatch h⟩
  obtain ⟨moves, hmoves, -, hall, hpairs⟩ := callAll_advances .strictUnits hproper
  have hrun : ∃ moves, (start .strictUnits).callAll crowdedCalls = .ok moves ∧
      moves.map Move.step = [.placedAt .zero, .tooLarge, .placedAt (.of 32), .skipped] ∧
      moves.map (·.after.dataSize) = [.of 3, .of 32, .of 37, .of 64] := ⟨_, rfl, rfl, rfl⟩
  obtain ⟨moves', hmoves', hsteps, hcursors⟩ := hrun
  cases hmoves.symm.trans hmoves'
  exact ⟨hproper, moves, hmoves, hsteps, hcursors, fun m hm => (hall m hm).2.1, hpairs⟩

end AbiLayout.Cursor
