import AbiLayout.Layout.Lookup
import AbiLayout.Proofs.WellFormed

/-!
# Members by name lie where their types want them

A search for a name crosses anonymous fields and bases. Each of the records on the way lies inside
of the one before, at a multiple of its own alignment, which divides that of the one before. So the
offsets along the way add up to a place within the outermost record, and a member that is aligned in
its own record is aligned in all of them.

## Main definitions

* `LayoutContext.Crosses`: a member of a record that a search goes into.
* `LayoutContext.Leads`, `LayoutContext.Finds`: a chain of such members, and a field at its end.
* `LayoutContext.HasTypeLayout`: the layout of a type.
* `LayoutContext.Fits`: a member is where its type wants it.

## Main results

* `LayoutContext.Leads.nests`: a chain keeps what it leads to aligned and within the record.
* `LayoutContext.locateWithin_eq_ok`: what is found lies at the end of a chain.
* `Session.Reachable.locate_fits`: a member that is found by name lies where its type wants it.
-/

namespace AbiLayout

/-! ### Members of derived layouts -/

/-- A member is placed as the placement of its field asks, in a record of the given alignment. -/
def Placement.Locates (m : PlacedMember) (alignment : Nat) (isNamed : Bool) : Placement → Prop
  | zeroWidth _ => False
  | bitfield b => m.extent.toIdeal = some b.width.count ∧
      m.offset.count % b.underlying.bitAlignment + b.width.count ≤ b.underlying.bitSize ∧
      (isNamed → b.underlying.alignment.count ∣ alignment)
  | bytes layout =>
      (layout.completeness ≠ .incomplete → m.extent.counted.count = 8 * layout.width.count) ∧
      8 * layout.alignment.count ∣ m.offset.count ∧ layout.alignment.count ∣ alignment

theorem RecordLayout.mem_of_member? {l : RecordLayout} {member : Member} {m : PlacedMember}
    (h : l.member? member = some m) : m ∈ l.members ∧ m.member = member := by
  refine ⟨List.mem_of_find?_eq_some h, ?_⟩
  simpa using List.find?_some h

namespace LayoutContext.Derives

variable {c : LayoutContext} {answer : RecordId → Except Trap Answer} {record : Record}
  {bases : List StructDraft.ResolvedBase} {placements : List Placement} {l : RecordLayout}
  {m : PlacedMember}

/-- A member ends within the size of its record. -/
theorem stop_le (h : c.Derives answer record bases placements l) (hm : m ∈ l.members) :
    m.offset.count + m.extent.counted.count ≤ 8 * l.size.count := by
  cases hkind : record.kind with
  | struct =>
    have hstop := (h.tiled hkind).ordered.stop_le _ (List.mem_map_of_mem hm)
    rwa [Ideal.Slot.stop, PlacedMember.toIdeal_offset, PlacedMember.toIdeal_counted] at hstop
  | union =>
    have hstacks := h.stacksMembers hkind
    rw [hstacks.offset_eq m hm, Nat.zero_add]
    exact hstacks.stop_le m hm

/-- A member lies where its type wants it. -/
theorem lawful (h : c.Derives answer record bases placements l) (hm : m ∈ l.members) :
    m.toIdeal.Lawful bases record.fields placements l.alignment.count := by
  have hmem : m.toIdeal ∈ l.toIdeal.members := List.mem_map_of_mem hm
  have halign : l.alignment.count = l.toIdeal.alignment := rfl
  rw [halign]
  cases hkind : record.kind with
  | struct =>
    rw [h.toIdeal_struct hkind] at hmem ⊢
    exact h.filled_structDraft.lawful _ hmem
  | union =>
    rw [h.toIdeal_union hkind] at hmem ⊢
    rw [h.resolves.unionBases hkind]
    exact h.filled_unionDraft.lawful _ hmem

/-- The base at a position lies at a multiple of its alignment, as long as its layout. -/
theorem of_base? {i : Nat} (h : c.Derives answer record bases placements l)
    (hm : l.base? i = some m) : ∃ base, bases[i]? = some base ∧
      m.extent.counted.count = 8 * base.layout.size.count ∧
      8 * base.layout.alignment.count ∣ m.offset.count ∧
      base.layout.alignment.count ∣ l.alignment.count := by
  obtain ⟨hmem, hmember⟩ := RecordLayout.mem_of_member? hm
  have hlawful := h.lawful hmem
  rw [Ideal.Slot.Lawful, PlacedMember.toIdeal_member, hmember] at hlawful
  obtain ⟨base, hget, hlength, hoffset, hdvd⟩ := hlawful
  refine ⟨base, hget, ?_, hoffset, hdvd⟩
  rw [← PlacedMember.toIdeal_counted, Ideal.Slot.counted, hlength, Option.getD_some]

/-- The field at a position is placed as it was resolved. -/
theorem of_field? {i : Nat} (h : c.Derives answer record bases placements l)
    (hm : l.field? i = some m) {field : Field} (hget : record.fields[i]? = some field) :
    ∃ placement, LayoutT.value answer (c.resolveField record i field) = .ok (.ok placement) ∧
      placement.Locates m l.alignment.count field.isNamed := by
  obtain ⟨hmem, hmember⟩ := RecordLayout.mem_of_member? hm
  have hlawful := h.lawful hmem
  rw [Ideal.Slot.Lawful, PlacedMember.toIdeal_member, hmember] at hlawful
  obtain ⟨field', placement, hfield, hplacement, hplaced⟩ := hlawful
  cases hget.symm.trans hfield
  have hvalue := h.resolves.fieldsResolve.getElem? hget hplacement
  rw [Nat.zero_add] at hvalue
  refine ⟨placement, hvalue, ?_⟩
  cases placement with
  | zeroWidth underlying => exact hplaced
  | bitfield b => exact hplaced
  | bytes layout =>
    refine ⟨fun hc => ?_, hplaced.2⟩
    rw [← PlacedMember.toIdeal_counted, Ideal.Slot.counted, hplaced.1 hc, Option.getD_some]

end LayoutContext.Derives

namespace LayoutContext

variable {c : LayoutContext} {r : RecordId} {l : RecordLayout} {m : PlacedMember}

/-- The layout of a type: the value of its program, with records nested to some depth. -/
def HasTypeLayout (c : LayoutContext) (ty : Ty) (l : TypeLayout) : Prop :=
  ∃ depth, LayoutT.value (c.answerWithin depth) (c.typeLayout ty) = .ok (.ok l)

/-- A type has at most one layout. -/
theorem HasTypeLayout.unique {ty : Ty} {l l' : TypeLayout} (h : c.HasTypeLayout ty l)
    (h' : c.HasTypeLayout ty l') : l = l' := by
  obtain ⟨i, hi⟩ := h
  obtain ⟨j, hj⟩ := h'
  have hi' := LayoutT.value_mono (fun _ _ => answerWithin_mono (Nat.le_max_left i j)) hi
  have hj' := LayoutT.value_mono (fun _ _ => answerWithin_mono (Nat.le_max_right i j)) hj
  cases hi'.symm.trans hj'
  rfl

/-- Bits of a field lie where its type wants them, in a record of the given alignment: a bit-field
inside of one aligned unit of its type, any other member at a multiple of the alignment of its type.
The record is at least as aligned as the type. -/
def Fits (c : LayoutContext) (ty : Ty) (alignment offset : Nat) (extent : Extent) : Prop :=
  match ty with
  | .bitfield b => extent = .bits b.width ∧
      offset % b.underlying.bitAlignment + b.width.count ≤ b.underlying.bitSize ∧
      b.underlying.alignment.count ∣ alignment
  | ty => ∃ l, c.HasTypeLayout ty l ∧ 8 * l.alignment.count ∣ offset ∧ l.alignment.count ∣ alignment

/-- A field that fits into a record still fits where the record lies in another one. -/
theorem Fits.add {ty : Ty} {a a' offset start : Nat} {extent : Extent}
    (h : c.Fits ty a offset extent) (hstart : 8 * a ∣ start) (ha : a ∣ a') :
    c.Fits ty a' (start + offset) extent := by
  have hdvd {b : Nat} (hb : b ∣ a) : 8 * b ∣ start :=
    Nat.dvd_trans (Nat.mul_dvd_mul_left 8 hb) hstart
  cases ty with
  | bitfield b =>
    obtain ⟨hextent, hwindow, halign⟩ := h
    obtain ⟨k, hk⟩ := hdvd halign
    refine ⟨hextent, ?_, Nat.dvd_trans halign ha⟩
    have hmod : (start + offset) % b.underlying.bitAlignment =
        offset % b.underlying.bitAlignment := by
      rw [hk]
      exact Nat.mul_add_mod _ _ _
    rwa [hmod]
  | primitive | voidPointer | pointerTo | array | record =>
    obtain ⟨l, hl, hoffset, halign⟩ := h
    exact ⟨l, hl, Nat.dvd_add (hdvd halign) hoffset, Nat.dvd_trans halign ha⟩

/-! ### Chains of records -/

/-- A search for a name goes into the record `r'` at a member of `r`: an anonymous field or a base.
-/
inductive Crosses (c : LayoutContext) (r : RecordId) (m : PlacedMember) (r' : RecordId) : Prop
  | field {l : RecordLayout} {record : Record} {i : Nat} {field : Field}
      (layout : c.HasAnswer r (.ok l)) (found : c.schema.records.get? r = some record)
      (get : record.fields[i]? = some field) (isAnonymous : field.isAnonymous = true)
      (ty : field.ty.asRecord? = some r') (member : l.field? i = some m)
  | base {l : RecordLayout} {record : Record} {i : Nat} {base : Base}
      (layout : c.HasAnswer r (.ok l)) (found : c.schema.records.get? r = some record)
      (get : record.bases[i]? = some base) (record_eq : base.record = r')
      (member : l.base? i = some m)

/-- A chain of members that a search goes into, from the record `r` to the record `r'`. -/
inductive Leads (c : LayoutContext) : RecordId → List PlacedMember → RecordId → Prop
  | here (r : RecordId) : Leads c r [] r
  | into {r r' r'' : RecordId} {m : PlacedMember} {ms : List PlacedMember}
      (step : c.Crosses r m r') (rest : Leads c r' ms r'') : Leads c r (m :: ms) r''

/-- The offset at the end of a chain. -/
def offsetOf (ms : List PlacedMember) : Nat := (ms.map fun m => m.offset.count).sum

section Usable

variable (husable : c.schema.Usable)

include husable

/-- A record that a search goes into lies inside of the outer one, at a multiple of its alignment,
which divides that of the outer one. -/
theorem Crosses.nests {r' : RecordId} {l' : RecordLayout} (h : c.Crosses r m r')
    (hl : c.HasAnswer r (.ok l)) (hl' : c.HasAnswer r' (.ok l')) :
    8 * l'.alignment.count ∣ m.offset.count ∧ l'.alignment.count ∣ l.alignment.count ∧
      m.offset.count + 8 * l'.size.count ≤ 8 * l.size.count := by
  obtain ⟨record, depth, bases, placements, hrecord, hderives⟩ := hl.derives husable
  cases h with
  | @field l₀ record₀ i field layout found get isAnonymous ty member =>
    cases layout.unique hl
    cases found.symm.trans hrecord
    have hty : field.ty = .record r' := by
      cases hfield : field.ty with
      | record r₀ =>
        rw [hfield] at ty
        exact congrArg Ty.record (Option.some.inj ty)
      | _ =>
        rw [hfield] at ty
        cases ty
    obtain ⟨placement, hvalue, hplaced⟩ := hderives.of_field? member get
    obtain ⟨-, tl, rfl, htype, -⟩ :=
      resolveField_eq_ok (fun b hb => nomatch hty.symm.trans hb) hvalue
    rw [hty] at htype
    obtain ⟨l₁, hanswer, rfl⟩ := typeLayout_record_eq_ok htype
    cases HasAnswer.unique ⟨depth, hanswer⟩ hl'
    obtain ⟨hlength, hoffset, hdvd⟩ := hplaced
    have hstop := hderives.stop_le (RecordLayout.mem_of_member? member).1
    rw [hlength (by rw [RecordLayout.typeLayout]; split <;> simp)] at hstop
    exact ⟨hoffset, hdvd, hstop⟩
  | @base l₀ record₀ i base layout found get record_eq member =>
    cases layout.unique hl
    cases found.symm.trans hrecord
    obtain ⟨resolved, hget, hlength, hoffset, hdvd⟩ := hderives.of_base? member
    have hstop := hderives.stop_le (RecordLayout.mem_of_member? member).1
    rw [hlength] at hstop
    have hstruct : record.kind = .struct := by
      cases hkind : record.kind with
      | struct => rfl
      | union =>
        rw [hderives.resolves.unionBases hkind] at hget
        simp at hget
    obtain ⟨declared, hdeclared, hanswer⟩ :=
      resolveBases_getElem? (hderives.resolves.basesResolve hstruct) hget
    cases get.symm.trans hdeclared
    rw [record_eq] at hanswer
    have heq : resolved.layout = l' := by
      have hunique := HasAnswer.unique ⟨depth, hanswer⟩ hl'
      exact Except.ok.inj hunique
    rw [heq] at hoffset hdvd hstop
    exact ⟨hoffset, hdvd, hstop⟩

/-- A named field ends within its record, and lies where its type wants it. -/
theorem named_fits {record : Record} {i : Nat} {field : Field} (hl : c.HasAnswer r (.ok l))
    (hrecord : c.schema.records.get? r = some record) (hget : record.fields[i]? = some field)
    (hnamed : field.isNamed = true) (hm : l.field? i = some m) :
    m.offset.count + m.extent.counted.count ≤ 8 * l.size.count ∧
      c.Fits field.ty l.alignment.count m.offset.count m.extent := by
  obtain ⟨record', depth, bases, placements, hrecord', hderives⟩ := hl.derives husable
  cases hrecord.symm.trans hrecord'
  refine ⟨hderives.stop_le (RecordLayout.mem_of_member? hm).1, ?_⟩
  obtain ⟨placement, hvalue, hplaced⟩ := hderives.of_field? hm hget
  refine resolveField_cases (motive := fun placement =>
    placement.Locates m l.alignment.count field.isNamed → c.Fits field.ty _ _ _) ?_ ?_ ?_ hvalue
    hplaced
  · exact fun _ _ _ h => h.elim
  · rintro b hty - - ⟨hextent, hwindow, halign⟩
    rw [hty]
    refine ⟨?_, hwindow, halign hnamed⟩
    cases hm : m.extent with
    | bits length =>
      rw [hm] at hextent
      exact congrArg Extent.bits (Quantity.ext (Option.some.inj hextent))
    | unbounded =>
      rw [hm] at hextent
      cases hextent
  · rintro layout hne htype - ⟨-, hoffset, halign⟩
    unfold Fits
    split
    · exact absurd ‹_› (hne _)
    · exact ⟨layout, ⟨depth, htype⟩, hoffset, halign⟩

/-- What a chain leads to lies inside of the outer record, at a multiple of its alignment, which
divides that of the outer record. -/
theorem Leads.nests {r' : RecordId} {ms : List PlacedMember} (h : c.Leads r ms r')
    (hl : c.HasAnswer r (.ok l)) {l' : RecordLayout} (hl' : c.HasAnswer r' (.ok l')) :
    8 * l'.alignment.count ∣ offsetOf ms ∧ l'.alignment.count ∣ l.alignment.count ∧
      offsetOf ms + 8 * l'.size.count ≤ 8 * l.size.count := by
  induction h generalizing l with
  | here r =>
    cases hl.unique hl'
    exact ⟨Nat.dvd_zero _, Nat.dvd_refl _, (Nat.zero_add _).le⟩
  | @into r r₁ r' m ms step rest ih =>
    have hmid : ∃ l₁, c.HasAnswer r₁ (.ok l₁) := by
      cases rest with
      | here => exact ⟨l', hl'⟩
      | into step' =>
        cases step' with
        | field layout | base layout => exact ⟨_, layout⟩
    obtain ⟨l₁, hl₁⟩ := hmid
    obtain ⟨hoffset, halign, hstop⟩ := step.nests husable hl hl₁
    obtain ⟨hoffset', halign', hstop'⟩ := ih hl₁ hl'
    have hsum : offsetOf (m :: ms) = m.offset.count + offsetOf ms := List.sum_cons
    rw [hsum]
    refine ⟨Nat.dvd_add ?_ hoffset', Nat.dvd_trans halign' halign, by omega⟩
    exact Nat.dvd_trans (Nat.mul_dvd_mul_left 8 halign') hoffset

end Usable

/-! ### The search -/

theorem into_eq_ok {place inner : SearchPlace} (h : place.into m = .ok inner) :
    inner.path = place.path ++ [m.member] ∧
      inner.offset.count = place.offset.count + m.offset.count := by
  obtain ⟨offset, hoffset, h⟩ := except_bind_eq_ok_iff.mp h
  cases h
  exact ⟨rfl, Quantity.fit_eq_ok_iff.mp hoffset⟩

section Search

variable {answer : RecordId → Except Trap Answer}
  {search : RecordId → SearchPlace → LayoutT (Option MemberPlace)} {name : String}
  {place : SearchPlace} {found : MemberPlace}

/-- What is found in fields is a field of that name, or is found in an anonymous one. -/
theorem locateInFields_eq_ok {all : List Field} :
    (fields : List Field) → {i : Nat} → fields = all.drop i →
      LayoutT.value answer (locateInFields search name l place i fields) = .ok (.ok (some found)) →
        ∃ (j : Nat) (field : Field) (m : PlacedMember) (inner : SearchPlace),
          all[j]? = some field ∧ l.field? j = some m ∧ place.into m = .ok inner ∧
          (field.name = some name ∧ found = ⟨inner.path, inner.offset, m.extent, field.ty⟩ ∨
            ∃ r, field.isAnonymous = true ∧ field.ty.asRecord? = some r ∧
              LayoutT.value answer (search r inner) = .ok (.ok (some found)))
  | [], _, _, h => nomatch h
  | field :: fields, i, hdrop, h => by
    obtain ⟨hget, htail⟩ := of_cons_eq_drop hdrop
    rw [locateInFields] at h
    cases hm : l.field? i with
    | none =>
      simp only [hm] at h
      exact locateInFields_eq_ok fields htail h
    | some m =>
      simp only [hm] at h
      by_cases hname : field.name = some name
      · rw [if_pos hname] at h
        obtain ⟨inner, hinner, h⟩ := (LayoutT.value_bind_eq_ok_iff answer).mp h
        rw [LayoutT.value_liftM_eq_ok_iff] at hinner
        cases h
        exact ⟨i, field, m, inner, hget, hm, hinner, .inl ⟨hname, rfl⟩⟩
      · rw [if_neg hname] at h
        cases hanonymous : field.isAnonymous with
        | false =>
          simp only [hanonymous] at h
          exact locateInFields_eq_ok fields htail h
        | true =>
          cases hr : field.ty.asRecord? with
          | none =>
            simp only [hanonymous, hr] at h
            exact locateInFields_eq_ok fields htail h
          | some r =>
            simp only [hanonymous, hr] at h
            obtain ⟨inner, hinner, h⟩ := (LayoutT.value_bind_eq_ok_iff answer).mp h
            rw [LayoutT.value_liftM_eq_ok_iff] at hinner
            obtain ⟨result, hresult, h⟩ := (LayoutT.value_bind_eq_ok_iff answer).mp h
            cases result with
            | none => exact locateInFields_eq_ok fields htail h
            | some found' =>
              cases h
              exact ⟨i, field, m, inner, hget, hm, hinner, .inr ⟨r, hanonymous, hr, hresult⟩⟩

/-- What is found in bases is found in one of them. -/
theorem locateInBases_eq_ok {all : List Base} :
    (bases : List Base) → {i : Nat} → bases = all.drop i →
      LayoutT.value answer (locateInBases search l place i bases) = .ok (.ok (some found)) →
        ∃ (j : Nat) (base : Base) (m : PlacedMember) (inner : SearchPlace),
          all[j]? = some base ∧ l.base? j = some m ∧ place.into m = .ok inner ∧
          LayoutT.value answer (search base.record inner) = .ok (.ok (some found))
  | [], _, _, h => nomatch h
  | base :: bases, i, hdrop, h => by
    obtain ⟨hget, htail⟩ := of_cons_eq_drop hdrop
    rw [locateInBases] at h
    cases hm : l.base? i with
    | none =>
      simp only [hm] at h
      exact locateInBases_eq_ok bases htail h
    | some m =>
      simp only [hm] at h
      obtain ⟨inner, hinner, h⟩ := (LayoutT.value_bind_eq_ok_iff answer).mp h
      rw [LayoutT.value_liftM_eq_ok_iff] at hinner
      obtain ⟨result, hresult, h⟩ := (LayoutT.value_bind_eq_ok_iff answer).mp h
      cases result with
      | none => exact locateInBases_eq_ok bases htail h
      | some found' =>
        cases h
        exact ⟨i, base, m, inner, hget, hm, hinner, hresult⟩

end Search

/-- A chain leads from the record to a field of the name. -/
inductive Finds (c : LayoutContext) (name : String) (r : RecordId) (ms : List PlacedMember)
    (m : PlacedMember) (field : Field) : Prop
  | intro {r' : RecordId} {l : RecordLayout} {record : Record} {i : Nat} (chain : c.Leads r ms r')
      (layout : c.HasAnswer r' (.ok l)) (found : c.schema.records.get? r' = some record)
      (get : record.fields[i]? = some field) (named : field.name = some name)
      (member : l.field? i = some m)

/-- What is found lies at the end of a chain, and its place adds up what is crossed on the way. -/
theorem locateWithin_eq_ok {depth d : Nat} {name : String} {place : SearchPlace}
    {found : MemberPlace}
    (h : LayoutT.value (c.answerWithin d) (c.locateWithin name depth r place) =
      .ok (.ok (some found))) :
    ∃ ms m field, c.Finds name r ms m field ∧
      found.path = place.path ++ (ms ++ [m]).map (·.member) ∧
      found.offset.count = place.offset.count + offsetOf (ms ++ [m]) ∧
      found.extent = m.extent ∧ found.ty = field.ty := by
  induction depth generalizing r place with
  | zero => cases h
  | succ depth ih =>
    rw [locateWithin] at h
    obtain ⟨layout, hlayout, h⟩ := (LayoutT.value_bind_eq_ok_iff _).mp h
    obtain ⟨record, hrecord, h⟩ := (LayoutT.value_bind_eq_ok_iff _).mp h
    rw [LayoutT.value_layoutOf] at hlayout
    rw [LayoutT.value_liftM_eq_ok_iff] at hrecord
    have hl : c.HasAnswer r (.ok layout) := ⟨d, hlayout⟩
    have hfound := Arena.get_eq_ok_iff.mp hrecord
    have hcross {m₀ : PlacedMember} {r' : RecordId} {inner : SearchPlace}
        (hstep : c.Crosses r m₀ r') (hinner : place.into m₀ = .ok inner)
        (hsearch : LayoutT.value (c.answerWithin d) (c.locateWithin name depth r' inner) =
          .ok (.ok (some found))) :
        ∃ ms m field, c.Finds name r ms m field ∧
          found.path = place.path ++ (ms ++ [m]).map (·.member) ∧
          found.offset.count = place.offset.count + offsetOf (ms ++ [m]) ∧
          found.extent = m.extent ∧ found.ty = field.ty := by
      obtain ⟨ms, m, field, ⟨chain, hl', hfound', hget, hnamed, hm⟩, hpath, hoffset, hrest⟩ :=
        ih hsearch
      obtain ⟨hpath₀, hoffset₀⟩ := into_eq_ok hinner
      refine ⟨m₀ :: ms, m, field, ⟨.into hstep chain, hl', hfound', hget, hnamed, hm⟩, ?_, ?_,
        hrest⟩
      · rw [hpath, hpath₀, List.append_assoc]
        rfl
      · rw [hoffset, hoffset₀, Nat.add_assoc]
        rfl
    obtain ⟨result, hresult, h⟩ := (LayoutT.value_bind_eq_ok_iff _).mp h
    cases result with
    | some found' =>
      cases h
      obtain ⟨i, field, m, inner, hget, hm, hinner,
        ⟨hnamed, hplace⟩ | ⟨r', hanonymous, hr, hsearch⟩⟩ :=
        locateInFields_eq_ok record.fields rfl hresult
      · obtain ⟨hpath, hoffset⟩ := into_eq_ok hinner
        rw [hplace]
        exact ⟨[], m, field, ⟨.here r, hl, hfound, hget, hnamed, hm⟩, hpath, hoffset, rfl, rfl⟩
      · exact hcross (.field hl hfound hget hanonymous hr hm) hinner hsearch
    | none =>
      obtain ⟨i, base, m, inner, hget, hm, hinner, hsearch⟩ :=
        locateInBases_eq_ok record.bases rfl h
      exact hcross (.base hl hfound hget rfl hm) hinner hsearch

/-- A field at the end of a chain ends within the outer record, and lies where its type wants it. -/
theorem Finds.fits (husable : c.schema.Usable) {name : String} {ms : List PlacedMember}
    {field : Field} (h : c.Finds name r ms m field) (hl : c.HasAnswer r (.ok l)) :
    offsetOf (ms ++ [m]) + m.extent.counted.count ≤ 8 * l.size.count ∧
      c.Fits field.ty l.alignment.count (offsetOf (ms ++ [m])) m.extent := by
  obtain ⟨chain, hl', hfound, hget, hnamed, hm⟩ := h
  obtain ⟨hoffset, halign, hsize⟩ := chain.nests husable hl hl'
  obtain ⟨hstop, hfits⟩ := named_fits husable hl' hfound hget
    (by rw [Field.isNamed, hnamed, Option.isSome_some]) hm
  have hsum : offsetOf (ms ++ [m]) = offsetOf ms + m.offset.count := by
    simp [offsetOf]
  rw [hsum]
  exact ⟨by omega, hfits.add hoffset halign⟩

/-- Wherever a chain leads, the members there end within the outer record. -/
theorem Leads.stop_le (husable : c.schema.Usable) {ms : List PlacedMember} {r' : RecordId}
    {l' : RecordLayout} (h : c.Leads r ms r') (hl : c.HasAnswer r (.ok l))
    (hl' : c.HasAnswer r' (.ok l')) (hm : m ∈ l'.members) :
    offsetOf ms + m.offset.count + m.extent.counted.count ≤ 8 * l.size.count := by
  obtain ⟨-, -, hsize⟩ := h.nests husable hl hl'
  obtain ⟨record, depth, bases, placements, -, hderives⟩ := hl'.derives husable
  have hstop := hderives.stop_le hm
  omega

/-- A record in which a field is found has a layout. -/
theorem Finds.hasAnswer {name : String} {ms : List PlacedMember} {field : Field}
    (h : c.Finds name r ms m field) : ∃ l, c.HasAnswer r (.ok l) := by
  obtain ⟨chain, hl', -, -, -, -⟩ := h
  cases chain with
  | here => exact ⟨_, hl'⟩
  | into step =>
    cases step with
    | field layout | base layout => exact ⟨_, layout⟩

end LayoutContext

/-! ### Queries -/

namespace Session.Reachable

variable {schema : Schema} {profile : Profile} {settings : SinkSettings} {s s' : Session}

/-- **A member that is found by name lies where its type wants it.** Its offset adds up those of the
members along its path, it ends within the record, and it is aligned as its type asks for, a
bit-field inside of one aligned unit of its type. No sum of offsets that the search forms leaves the
record. -/
theorem locate_fits (husable : schema.Usable) (hs : Reachable schema profile settings s)
    {r : RecordId} {name : String} {place : MemberPlace}
    (h : s.locate r name = .ok (.ok (some place), s')) :
    ∃ l ms m field, s.context.HasAnswer r (.ok l) ∧ s.context.Finds name r ms m field ∧
      place.path = (ms ++ [m]).map (·.member) ∧
      place.offset.count = ((ms ++ [m]).map (·.offset.count)).sum ∧
      place.extent = m.extent ∧ place.ty = field.ty ∧
      place.offset.count + place.extent.counted.count ≤ 8 * l.size.count ∧
      8 * l.size.count < 2 ^ 64 ∧
      (∀ b, place.ty = .bitfield b → place.extent = .bits b.width ∧
        place.offset.count % b.underlying.bitAlignment + b.width.count ≤ b.underlying.bitSize) ∧
      ((∀ b, place.ty ≠ .bitfield b) → ∃ tl, s.context.HasTypeLayout place.ty tl ∧
        8 * tl.alignment.count ∣ place.offset.count) ∧
      ∀ ms' r' l' m', s.context.Leads r ms' r' → s.context.HasAnswer r' (.ok l') →
        m' ∈ l'.members → (ms'.map (·.offset.count)).sum + m'.offset.count ≤ 8 * l.size.count := by
  have husable' : s.context.schema.Usable := by
    rw [hs.context_eq]
    exact husable
  obtain ⟨-, d, hvalue⟩ := exec_sound hs.sound h
  obtain ⟨ms, m, field, hfinds, hpath, hoffset, hextent, hty⟩ :=
    LayoutContext.locateWithin_eq_ok hvalue
  rw [Quantity.count_zero, Nat.zero_add] at hoffset
  obtain ⟨l, hl⟩ := hfinds.hasAnswer
  obtain ⟨record, depth, bases, placements, -, hderives⟩ := hl.derives husable'
  obtain ⟨hstop, hfits⟩ := hfinds.fits husable' hl
  rw [← hoffset, ← hextent, ← hty] at hfits
  rw [← hoffset, ← hextent] at hstop
  refine ⟨l, ms, m, field, hl, hfinds, hpath, hoffset, hextent, hty, hstop, hderives.bits_lt,
    ?_, ?_, ?_⟩
  · intro b hb
    rw [hb] at hfits
    exact ⟨hfits.1, hfits.2.1⟩
  · intro hne
    unfold LayoutContext.Fits at hfits
    split at hfits
    · exact absurd ‹_› (hne _)
    · obtain ⟨tl, htl, hdvd, -⟩ := hfits
      exact ⟨tl, htl, hdvd⟩
  · intro ms' r' l' m' hleads hl' hm'
    exact (Nat.le_add_right _ _).trans (hleads.stop_le husable' hl hl' hm')

theorem locate_fits_mixed :
    ∃ place s', (Session.start Schema.mixed .lp64 .keepAll).locate (.of 2) "letter" =
        .ok (.ok (some place), s') ∧
      ∃ tl, LayoutContext.HasTypeLayout ⟨Schema.mixed, .lp64⟩ place.ty tl ∧
        8 * tl.alignment.count ∣ place.offset.count := by
  obtain ⟨place, s', h, hty⟩ : ∃ place s',
      (Session.start Schema.mixed .lp64 .keepAll).locate (.of 2) "letter" =
        .ok (.ok (some place), s') ∧ ∀ b, place.ty ≠ .bitfield b :=
    ⟨_, _, rfl, by intro b hb; cases hb⟩
  obtain ⟨l, ms, m, field, -, -, -, -, -, -, -, -, -, halign, -⟩ :=
    locate_fits Schema.mixed_usable .start h
  exact ⟨place, s', h, halign hty⟩

end Session.Reachable

end AbiLayout
