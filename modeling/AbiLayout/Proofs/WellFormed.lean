import AbiLayout.Proofs.Answers
import AbiLayout.Proofs.Checking
import AbiLayout.Proofs.Memory

/-!
# Layouts are well formed

Over a usable schema, every layout that a session gives out has an alignment that is a power of two
and divides the size. In a struct, every bit of the size lies in exactly one member or padding
region, and both lists are in order. In a union, all members start at zero and end within the size,
and the padding is what lies behind the largest of them. The check of a computed layout never fails.

## Main definitions

* `PlacedMember.covers`, `BitRange.covers`: the bits of a member and of a padding region.
* `RecordLayout.TilesSize`, `RecordLayout.StacksMembers`: the layouts of structs and of unions.
* `RecordLayout.WellFormed`.
* `LayoutContext.uncheckedLayout`, `Session.uncheckedRecord`: the same without the check.

## Main results

* `LayoutContext.Derives.wellFormed`, `LayoutContext.Derives.flaw?_eq`: a layout over accepted bases
  and fields is well formed, and passes its check.
* `Session.requestWithin_eq_unchecked`: sessions answer as they do without the check.
* `Session.Reachable.record_wellFormed`: so is every layout of every session.
-/

namespace AbiLayout

/-- Whether a bit belongs to the member. A flexible array has no bits. -/
def PlacedMember.covers (m : PlacedMember) (b : Nat) : Bool :=
  decide (m.offset.count ≤ b) && decide (b < m.offset.count + m.extent.counted.count)

/-- Whether a bit belongs to the range. -/
def BitRange.covers (p : BitRange) (b : Nat) : Bool :=
  decide (p.offset.count ≤ b) && decide (b < p.offset.count + p.length.count)

namespace RecordLayout

/-- Every bit of the size lies in exactly one member or padding region, and no other bit in any.
Each member starts behind the one in front of it, and so does each padding region, which is not
empty. -/
structure TilesSize (l : RecordLayout) : Prop where
  covered_once : ∀ b, l.members.countP (·.covers b) + l.padding.countP (·.covers b) =
    if b < 8 * l.size.count then 1 else 0
  members_sorted : l.members.Pairwise fun m m' =>
    m.offset.count + m.extent.counted.count ≤ m'.offset.count
  padding_pos : ∀ p ∈ l.padding, 0 < p.length.count
  padding_sorted : l.padding.Pairwise fun p q => p.offset.count + p.length.count ≤ q.offset.count

/-- All members start at zero and end within the size, and the padding is what lies behind the most
bits that a member asks for. -/
structure StacksMembers (fields : List Field) (l : RecordLayout) : Prop where
  offset_eq : ∀ m ∈ l.members, m.offset.count = 0
  stop_le : ∀ m ∈ l.members, m.extent.counted.count ≤ 8 * l.size.count
  padding_eq : l.padding.map BitRange.toIdeal =
    Ideal.gap (Ideal.largestBits fields l.toIdeal.members) (8 * l.size.count)

/-- The alignment is a power of two that divides the size, and members and padding lie as they do in
a record of its kind. -/
structure WellFormed (record : Record) (l : RecordLayout) : Prop where
  kind_eq : l.kind = record.kind
  alignment_isPowerOfTwo : l.alignment.count.isPowerOfTwo
  alignment_dvd : l.alignment.count ∣ l.size.count
  tilesSize : record.kind = .struct → l.TilesSize
  stacksMembers : record.kind = .union → l.StacksMembers record.fields

/-! ### Structs -/

/-- The members are ordered within the size, and the padding is the gaps between them. -/
structure Tiled (l : RecordLayout) : Prop where
  ordered : Ideal.Ordered (8 * l.size.count) 0 l.toIdeal.members
  padding_eq : l.toIdeal.padding = Ideal.gapsFrom (8 * l.size.count) 0 l.toIdeal.members

variable {l : RecordLayout}

theorem countP_members (l : RecordLayout) (b : Nat) :
    l.toIdeal.members.countP (·.covers b) = l.members.countP (·.covers b) := by
  have hcovers : ((·.covers b) ∘ PlacedMember.toIdeal) = fun m : PlacedMember => m.covers b := by
    funext m
    simp only [Function.comp, Ideal.Slot.covers, Ideal.Slot.stop, PlacedMember.toIdeal_counted]
    rfl
  rw [toIdeal, List.countP_map, hcovers]

theorem countP_padding (l : RecordLayout) (b : Nat) :
    l.toIdeal.padding.countP (·.covers b) = l.padding.countP (·.covers b) := by
  rw [toIdeal, List.countP_map]
  rfl

/-- Ordered members and the gaps between them tile the size. -/
theorem Tiled.tilesSize (h : l.Tiled) : l.TilesSize := by
  refine ⟨fun b => ?_, ?_, ?_, ?_⟩
  · have hcover := Ideal.countP_covers_gapsFrom h.ordered b
    rw [← h.padding_eq, countP_members, countP_padding] at hcover
    simpa using hcover
  · have hsorted := List.pairwise_map.mp h.ordered.sorted
    simpa only [Ideal.Slot.stop, PlacedMember.toIdeal_offset, PlacedMember.toIdeal_counted]
      using hsorted
  · intro p hp
    have hmem : p.toIdeal ∈ l.toIdeal.padding := List.mem_map_of_mem hp
    rw [h.padding_eq] at hmem
    exact (Ideal.mem_gapsFrom h.ordered hmem).2.2
  · have hsorted := Ideal.gapsFrom_pairwise h.ordered
    rw [← h.padding_eq] at hsorted
    exact List.pairwise_map.mp hsorted

/-- A tiled struct is tallied. -/
theorem Tiled.tallied (h : l.Tiled) (hbits : 8 * l.size.count < 2 ^ 64) : l.Tallied := by
  have hmembers : l.toIdeal.members.map Ideal.Slot.counted =
      l.members.map (·.extent.counted.count) := by
    rw [toIdeal, List.map_map]
    exact List.map_congr_left fun m _ => m.toIdeal_counted
  have hpadding : l.toIdeal.padding.map Ideal.Region.length = l.padding.map (·.length.count) := by
    rw [toIdeal, List.map_map]
    rfl
  refine ⟨fun m hm => ?_, h.tilesSize.members_sorted, ?_⟩
  · have hstop := h.ordered.stop_le m.toIdeal (List.mem_map_of_mem hm)
    rw [Ideal.Slot.stop, PlacedMember.toIdeal_offset, PlacedMember.toIdeal_counted] at hstop
    omega
  · have htotal := Ideal.sum_gapsFrom h.ordered
    rwa [← h.padding_eq, hmembers, hpadding, Nat.sub_zero] at htotal

end RecordLayout

/-! ### Derived layouts -/

namespace LayoutContext.Derives

variable {c : LayoutContext} {answer : RecordId → Except Trap Answer} {record : Record}
  {bases : List StructDraft.ResolvedBase} {placements : List Placement} {l : RecordLayout}

/-- A derived layout is of the kind of its record. -/
theorem kind_eq (h : c.Derives answer record bases placements l) : l.kind = record.kind := by
  have hkind : l.kind = l.toIdeal.kind := rfl
  rw [hkind, h.toIdeal_eq, Ideal.recordLayout]
  cases record.kind <;> rfl

/-- A derived struct is the finished draft of its bases and fields. -/
theorem toIdeal_struct (h : c.Derives answer record bases placements l)
    (hkind : record.kind = .struct) : l.toIdeal =
      (Ideal.structDraft c.profile.bitfieldPolicy record bases placements).finish c.profile := by
  rw [h.toIdeal_eq, Ideal.recordLayout, hkind]
  rfl

/-- A derived union is the finished draft of its fields. -/
theorem toIdeal_union (h : c.Derives answer record bases placements l)
    (hkind : record.kind = .union) :
    l.toIdeal = (Ideal.unionDraft record placements).finish c.profile := by
  rw [h.toIdeal_eq, Ideal.recordLayout, hkind]
  rfl

theorem filled_structDraft (h : c.Derives answer record bases placements l) :
    (Ideal.structDraft c.profile.bitfieldPolicy record bases placements).Filled
      c.profile.bitfieldPolicy bases record.fields placements :=
  Ideal.StructDraft.filled_structDraft h.bases_isPowerOfTwo h.sound

theorem filled_unionDraft (h : c.Derives answer record bases placements l) :
    (Ideal.unionDraft record placements).Filled record.fields placements :=
  h.resolves.filled_unionDraft h.sound

/-- The members of a derived struct are ordered within its size, and its padding is the gaps. -/
theorem tiled (h : c.Derives answer record bases placements l) (hkind : record.kind = .struct) :
    l.Tiled := by
  have hideal := h.toIdeal_struct hkind
  have hsize : l.size.count = l.toIdeal.size := rfl
  constructor
  · rw [hsize, hideal]
    exact h.filled_structDraft.ordered
  · rw [hsize, hideal]
    rfl

/-- The members of a derived union start at zero and end within its size, and its padding is what
lies behind the largest of them. -/
theorem stacksMembers (h : c.Derives answer record bases placements l)
    (hkind : record.kind = .union) : l.StacksMembers record.fields := by
  have hideal := h.toIdeal_union hkind
  have hfilled := h.filled_unionDraft
  have hmembers : l.toIdeal.members = (Ideal.unionDraft record placements).members := by
    rw [hideal]
    rfl
  have hmem {m : PlacedMember} (hm : m ∈ l.members) :
      m.toIdeal ∈ (Ideal.unionDraft record placements).members :=
    hmembers ▸ List.mem_map_of_mem hm
  have hsize : (Ideal.unionDraft record placements).size ≤ l.size.count := by
    have hle := Ideal.UnionDraft.size_le_size c.profile hfilled.alignment_isPowerOfTwo
    rwa [← hideal] at hle
  refine ⟨fun m hm => hfilled.offset_eq _ (hmem hm), fun m hm => ?_, ?_⟩
  · have hstop := hfilled.stop_le _ (hmem hm)
    rw [Ideal.Slot.stop, hfilled.offset_eq _ (hmem hm), PlacedMember.toIdeal_counted] at hstop
    omega
  · rw [hmembers, ← hfilled.size_eq]
    have hpadding : l.padding.map BitRange.toIdeal = l.toIdeal.padding := rfl
    have hcount : l.size.count = l.toIdeal.size := rfl
    rw [hpadding, hcount, hideal]
    rfl

/-- The alignment of a derived layout is a power of two that divides its size. -/
theorem alignment_isPowerOfTwo_and_dvd (h : c.Derives answer record bases placements l) :
    l.alignment.count.isPowerOfTwo ∧ l.alignment.count ∣ l.size.count := by
  have hsize : l.size.count = l.toIdeal.size := rfl
  have halign : l.alignment.count = l.toIdeal.alignment := rfl
  rw [hsize, halign]
  cases hkind : record.kind with
  | struct =>
    rw [h.toIdeal_struct hkind]
    exact ⟨h.filled_structDraft.alignment_isPowerOfTwo, Ideal.dvd_recordSize _ _ _⟩
  | union =>
    rw [h.toIdeal_union hkind]
    exact ⟨h.filled_unionDraft.alignment_isPowerOfTwo, Ideal.dvd_recordSize _ _ _⟩

/-- **Derived layouts are well formed.** -/
theorem wellFormed (h : c.Derives answer record bases placements l) : l.WellFormed record where
  kind_eq := h.kind_eq
  alignment_isPowerOfTwo := h.alignment_isPowerOfTwo_and_dvd.1
  alignment_dvd := h.alignment_isPowerOfTwo_and_dvd.2
  tilesSize hkind := (h.tiled hkind).tilesSize
  stacksMembers hkind := h.stacksMembers hkind

/-- **Derived layouts pass their check.** -/
theorem flaw?_eq (h : c.Derives answer record bases placements l) : l.flaw? = .ok none := by
  obtain ⟨hpow, hdvd⟩ := h.alignment_isPowerOfTwo_and_dvd
  refine RecordLayout.flaw?_eq_none_iff.mpr ⟨hpow, hdvd, h.bits_lt, fun p hp => ?_,
    fun hkind => (h.tiled (h.kind_eq.symm.trans hkind)).tallied h.bits_lt,
    fun hkind => (h.stacksMembers (h.kind_eq.symm.trans hkind)).offset_eq⟩
  have hideal : p.toIdeal ∈ l.toIdeal.padding := List.mem_map_of_mem hp
  cases hkind : record.kind with
  | struct =>
    have htiled := h.tiled hkind
    rw [htiled.padding_eq] at hideal
    exact (Ideal.mem_gapsFrom htiled.ordered hideal).2.1
  | union =>
    have hpadding := (h.stacksMembers hkind).padding_eq
    have hpadding' : l.toIdeal.padding = l.padding.map BitRange.toIdeal := rfl
    rw [hpadding', hpadding] at hideal
    exact (Ideal.mem_gap hideal).2.1.le

end LayoutContext.Derives

/-! ### Without the check -/

/-- The answer for a record, without the check of its layout. -/
def LayoutContext.uncheckedLayout (c : LayoutContext) (r : RecordId) : LayoutM Answer := do
  let record ← c.schema.record r
  match ← (c.layoutByKind record).run with
  | .ok layout => return .ok layout
  | .error e => do
    if !e.isDependencyFailure then LayoutM.notify (failure record e)
    return .error e

namespace Session

/-- The answer for a record, from memory or by laying it out, without any check. -/
def uncheckedWithin : (depth : Nat) → RecordId → Session → Except Trap (Answer × Session)
  | 0, _, _ => .error .bottomless
  | depth + 1, r, s =>
    match s.answer? r with
    | some a => .ok (a, s)
    | none => do
      let (a, s) ← (s.context.uncheckedLayout r).run (uncheckedWithin depth) report s
      return (a, s.remember r a)

/-- The layout of a record, without any check. -/
def uncheckedRecord (r : RecordId) (s : Session) : Except Trap (Answer × Session) :=
  (LayoutM.request r).run (uncheckedWithin s.context.maxDepth) report s

/-- A layout that a run arrives at passes its check. -/
theorem flaw?_eq_of_run {s s' : Session} {depth : Nat} {r : RecordId} {record : Record}
    {l : RecordLayout} (husable : s.context.schema.Usable) (hs : s.Sound)
    (hrecord : s.context.schema.records.get? r = some record)
    (h : (s.context.layoutByKind record).run.run (requestWithin depth) report s =
      .ok (.ok l, s')) : l.flaw? = .ok none := by
  obtain ⟨-, d, hvalue⟩ := run_sound (requestWithin_sound depth) _ hs h
  obtain ⟨bases, placements, hderives⟩ := LayoutContext.derives_of_layoutByKind husable hrecord
    (LayoutContext.answerWithin_isPowerOfTwo husable) hvalue
  exact hderives.flaw?_eq

/-- So the program of a record runs as it does without the check. -/
theorem run_recordLayout_eq {s : Session} {depth : Nat} (husable : s.context.schema.Usable)
    (hs : s.Sound) (r : RecordId) :
    (s.context.recordLayout r).run (requestWithin depth) report s =
      (s.context.uncheckedLayout r).run (requestWithin depth) report s := by
  rw [LayoutContext.recordLayout, LayoutContext.uncheckedLayout, LayoutM.run_bind,
    LayoutM.run_bind]
  cases hget : s.context.schema.record r with
  | error t => rfl
  | ok record =>
    change (_ >>= _ : LayoutM Answer).run _ _ _ = (_ >>= _ : LayoutM Answer).run _ _ _
    rw [LayoutM.run_bind, LayoutM.run_bind]
    cases hrun : (s.context.layoutByKind record).run.run (requestWithin depth) report s with
    | error t => rfl
    | ok result =>
      obtain ⟨out, s'⟩ := result
      cases out with
      | error e => rfl
      | ok l =>
        have hflaw := flaw?_eq_of_run husable hs (Arena.get_eq_ok_iff.mp hget) hrun
        dsimp only
        rw [hflaw]
        rfl

/-- A program runs without checks as it does with them, if requests are answered alike. -/
theorem run_eq_unchecked {α : Type} {c : LayoutContext} {depth : Nat}
    (h : ∀ r s, s.Sound → s.context = c → requestWithin depth r s = uncheckedWithin depth r s)
    (p : LayoutM α) {s : Session} (hs : s.Sound) (hc : s.context = c) :
    p.run (requestWithin depth) report s = p.run (uncheckedWithin depth) report s :=
  run_congr (P := fun _ => True) (Q := fun _ => True) (follows_of_requestWithin depth)
    (fun r _ => h r) (p.confined_of_forall (fun _ => trivial) fun _ => trivial) hs hc

/-- **Requests are answered as they are without checks.** -/
theorem requestWithin_eq_unchecked {c : LayoutContext} (husable : c.schema.Usable) {depth : Nat} :
    ∀ r s, s.Sound → s.context = c → requestWithin depth r s = uncheckedWithin depth r s := by
  induction depth with
  | zero => exact fun _ _ _ _ => rfl
  | succ depth ih =>
    rintro r s hs rfl
    have hrun := (run_recordLayout_eq husable hs r).trans (run_eq_unchecked ih _ hs rfl)
    cases hanswer : s.answer? r with
    | some a => simp only [requestWithin, uncheckedWithin, hanswer]
    | none => simp only [requestWithin, uncheckedWithin, hanswer, hrun]

end Session

/-! ### Layouts of sessions -/

namespace Session.Reachable

variable {schema : Schema} {profile : Profile} {settings : SinkSettings} {s : Session}

/-- **Every layout is well formed.** Over a usable schema, under every profile, a layout that a
session gives out for a record is well formed and passes its check. No layout that is met on the way
fails its check either: without the checks, the session would say the same. -/
theorem record_wellFormed (husable : schema.Usable)
    (hs : Reachable schema profile settings s) (r : RecordId) :
    (∀ l s', s.record r = .ok (.ok l, s') →
      ∃ record, schema.records.get? r = some record ∧ l.WellFormed record ∧
        l.flaw? = .ok none) ∧
    s.record r = s.uncheckedRecord r := by
  have hcontext := hs.context_eq
  constructor
  · intro l s' h
    have hanswer := record_sound hs.sound h
    rw [hcontext] at hanswer
    obtain ⟨record, depth, bases, placements, hrecord, hderives⟩ := hanswer.derives husable
    exact ⟨record, hrecord, hderives.wellFormed, hderives.flaw?_eq⟩
  · have husable' : s.context.schema.Usable := by
      rw [hcontext]
      exact husable
    exact run_eq_unchecked (requestWithin_eq_unchecked husable') _ hs.sound rfl

theorem record_wellFormed_mixed :
    ∃ l s', (Session.start Schema.mixed .lp64 .keepAll).record (.of 2) = .ok (.ok l, s') ∧
      ∃ record, Schema.mixed.records.get? (.of 2) = some record ∧ l.WellFormed record := by
  obtain ⟨l, s', h⟩ : ∃ l s', (Session.start Schema.mixed .lp64 .keepAll).record (.of 2) =
    .ok (.ok l, s') := ⟨_, _, rfl⟩
  obtain ⟨record, hrecord, hl, -⟩ :=
    (record_wellFormed Schema.mixed_usable .start (.of 2)).1 l s' h
  exact ⟨l, s', h, record, hrecord, hl⟩

end Session.Reachable

end AbiLayout
