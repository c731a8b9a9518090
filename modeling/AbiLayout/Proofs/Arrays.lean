import AbiLayout.Proofs.Members
import AbiLayout.Proofs.Simulation

/-!
# Nested arrays

The size of an array of base types is known to the schema, level by level. That of an array of
records is found by laying out the record first, and then multiplied on the way out. The two agree:
what is said of a nest of arrays is what `LayoutContext.arrayLayout?` makes of the innermost type,
one count after the other, and where a count is too much the type is too large. Which one it is, can
be read off the exact products of the counts.

## Main definitions

* `Ty.nest`: arrays of arrays around a type.
* `LayoutContext.Sizes`, `Session.Sizes`: a type has a given layout, or is too large.
* `OverflowsWithin`: some level of a nest has too many bits.

## Main results

* `LayoutContext.Sizes.array`: one level of a nest.
* `LayoutContext.Sizes.nest`: a whole nest.
* `LayoutContext.foldlM_arrayLayout?_eq_none_iff`: which nests are too large.
* `Session.Reachable.nest_alike`: base types and records in nests.
-/

namespace AbiLayout

/-- Arrays of arrays around a type, with the count of the innermost array first. -/
def Ty.nest (inner : Ty) (counts : List (Option Nat)) : Ty := counts.foldl .array inner

/-- Some level of a nest of arrays around `width` bytes has known counts up to its own, and its
exact size does not fit in 64 bits as bits. -/
def OverflowsWithin (width : Nat) (counts : List (Option Nat)) : Prop :=
  ∃ known : List Nat, known ≠ [] ∧ known.map some <+: counts ∧ 2 ^ 64 ≤ 8 * (width * known.prod)

theorem Schema.Declares.nest {s : Schema} {inner : Ty} (h : s.Declares inner)
    (counts : List (Option Nat)) : s.Declares (inner.nest counts) := by
  induction counts generalizing inner with
  | nil => exact h
  | cons count counts ih =>
    have h : s.Declares (.array inner count) := h
    exact ih h

theorem Schema.arraySize?_eq_none_iff {size : ByteCount} {count : Nat} :
    arraySize? size count = none ↔ 2 ^ 64 ≤ 8 * (size.count * count) := by
  rw [← not_iff_not, ← ne_eq, Option.ne_none_iff_exists']
  simp only [arraySize?_eq_some_iff, Nat.not_le]
  constructor
  · rintro ⟨width, hcount, hlt⟩
    exact hcount ▸ hlt
  · exact fun hlt => ⟨⟨size.count * count, by omega⟩, rfl, hlt⟩

namespace LayoutContext

variable {c : LayoutContext} {answer : RecordId → Except Trap Answer} {ty element inner : Ty}

/-! ### Which nests are too large -/

/-- From a type that is not complete, no count leads to one that is too large. -/
theorem foldlM_arrayLayout?_ne_none {l : TypeLayout} (h : l.isComplete = false)
    (counts : List (Option Nat)) : counts.foldlM arrayLayout? l ≠ none := by
  induction counts generalizing l with
  | nil => exact fun h => nomatch h
  | cons count counts ih =>
    have hopen : arrayLayout? l count = some (.incomplete l.alignment) := by
      cases count with
      | none => rfl
      | some count => rw [arrayLayout?, h]; rfl
    rw [List.foldlM_cons, hopen]
    exact ih rfl

theorem not_overflowsWithin_nil {width : Nat} : ¬OverflowsWithin width [] :=
  fun ⟨_, hne, hprefix, _⟩ => hne (List.map_eq_nil_iff.mp (List.prefix_nil.mp hprefix))

theorem not_overflowsWithin_none {width : Nat} {counts : List (Option Nat)} :
    ¬OverflowsWithin width (none :: counts) := by
  rintro ⟨known, hne, hprefix, -⟩
  cases known with
  | nil => exact hne rfl
  | cons count known => cases (List.cons_prefix_cons.mp hprefix).1

/-- A level overflows if the innermost array does, or one around it. -/
theorem overflowsWithin_some {width count : Nat} {counts : List (Option Nat)} :
    OverflowsWithin width (some count :: counts) ↔
      2 ^ 64 ≤ 8 * (width * count) ∨ OverflowsWithin (width * count) counts := by
  constructor
  · rintro ⟨known, hne, hprefix, hle⟩
    cases known with
    | nil => exact absurd rfl hne
    | cons count' known =>
      rw [List.map_cons, List.cons_prefix_cons] at hprefix
      obtain ⟨hcount, hprefix⟩ := hprefix
      cases hcount
      rw [List.prod_cons, ← Nat.mul_assoc width] at hle
      by_cases hknown : known = []
      · subst hknown
        rw [List.prod_nil, Nat.mul_one] at hle
        exact .inl hle
      · exact .inr ⟨known, hknown, hprefix, hle⟩
  · rintro (hle | ⟨known, -, hprefix, hle⟩)
    · exact ⟨[count], by simp, by simp, by rwa [List.prod_singleton]⟩
    · refine ⟨count :: known, by simp, List.cons_prefix_cons.mpr ⟨rfl, hprefix⟩, ?_⟩
      rwa [List.prod_cons, ← Nat.mul_assoc width]

/-- **A nest around a complete type is too large exactly if a level with an exact size is.** As long
as no level has been too large, the width at hand is the exact product. -/
theorem foldlM_arrayLayout?_eq_none_iff {width alignment : ByteCount}
    {counts : List (Option Nat)} :
    counts.foldlM arrayLayout? ⟨width, alignment, .complete⟩ = none ↔
      OverflowsWithin width.count counts := by
  induction counts generalizing width with
  | nil => exact iff_of_false (fun h => nomatch h) not_overflowsWithin_nil
  | cons count counts ih =>
    rw [List.foldlM_cons]
    cases count with
    | none =>
      exact iff_of_false (foldlM_arrayLayout?_ne_none rfl counts) not_overflowsWithin_none
    | some count =>
      rw [arrayLayout?_of_complete, overflowsWithin_some]
      cases hsize : Schema.arraySize? width count with
      | none => exact iff_of_true rfl (.inl (Schema.arraySize?_eq_none_iff.mp hsize))
      | some whole =>
        obtain ⟨hwhole, hlt⟩ := Schema.arraySize?_eq_some_iff.mp hsize
        have hfits : ¬2 ^ 64 ≤ 8 * (width.count * count) := by omega
        rw [Option.map_some, or_iff_right hfits, ← hwhole]
        exact ih

/-! ### Sizes of nests -/

/-- The program of a type finds a layout, or for `none` that the type is too large. -/
def Sizes (c : LayoutContext) (answer : RecordId → Except Trap Answer) (ty : Ty) :
    Option TypeLayout → Prop
  | some l => LayoutT.value answer (c.typeLayout ty) = .ok (.ok l)
  | none => ∃ name, LayoutT.value answer (c.typeLayout ty) = .ok (.error (.typeTooLarge name))

theorem value_typeTooLarge {α : Type} {name : String} (h : c.schema.typeName ty = .ok name) :
    LayoutT.value answer (c.typeTooLarge ty : LayoutT α) = .ok (.error (.typeTooLarge name)) := by
  rw [typeTooLarge, LayoutT.value_bind, LayoutT.value_liftM, h]
  rfl

theorem sizes_of_tooLarge (hdeclares : c.schema.Declares ty)
    (h : c.schema.staticSize ty = .tooLarge) : c.Sizes answer ty none := by
  obtain ⟨name, hname⟩ := hdeclares.typeName_eq_ok
  exact ⟨name, by rw [typeLayout_of_tooLarge h, value_typeTooLarge hname]⟩

/-- A type has one layout, or none because it is too large. -/
theorem Sizes.unique {out out' : Option TypeLayout} (h : c.Sizes answer ty out)
    (h' : c.Sizes answer ty out') : out = out' := by
  cases out <;> cases out'
  · rfl
  · obtain ⟨name, h⟩ := h
    cases h.symm.trans h'
  · obtain ⟨name, h'⟩ := h'
    cases h.symm.trans h'
  · cases h.symm.trans h'
    rfl

/-- An array whose size waits for that of its elements has theirs, repeated. -/
theorem Sizes.array_of_waits {count : Option Nat} {out : Option TypeLayout}
    (hdeclares : c.schema.Declares element)
    (hwaits : c.schema.staticSize (.array element count) = .recordDependent ∨
      c.schema.staticSize (.array element count) = .incomplete)
    (h : c.Sizes answer element out) :
    c.Sizes answer (.array element count) (out.bind (arrayLayout? · count)) := by
  cases out with
  | none =>
    obtain ⟨name, h⟩ := h
    refine ⟨name, ?_⟩
    rw [typeLayout_array hwaits, LayoutT.value_bind, h]
    rfl
  | some l =>
    have h : LayoutT.value answer (c.typeLayout element) = .ok (.ok l) := h
    have hvalue : LayoutT.value answer (c.typeLayout (.array element count)) =
        LayoutT.value answer (match arrayLayout? l count with
          | some array => return array
          | none => c.typeTooLarge (.array element count)) := by
      rw [typeLayout_array hwaits, LayoutT.value_bind, h]
      rfl
    rw [Option.bind_some]
    cases harray : arrayLayout? l count with
    | some whole =>
      rw [harray] at hvalue
      exact hvalue
    | none =>
      have hdeclares : c.schema.Declares (.array element count) := hdeclares
      obtain ⟨name, hname⟩ := hdeclares.typeName_eq_ok
      rw [harray, value_typeTooLarge hname] at hvalue
      exact ⟨name, hvalue⟩

/-- **One level of a nest**: an array has the layout of its elements, repeated, whether the schema
knows their size or it waits for a record. -/
theorem Sizes.array (count : Option Nat) {out : Option TypeLayout}
    (hdeclares : c.schema.Declares element) (h : c.Sizes answer element out) :
    c.Sizes answer (.array element count) (out.bind (arrayLayout? · count)) := by
  cases count with
  | none => exact h.array_of_waits hdeclares (.inr rfl)
  | some count =>
    have hdeclares' : c.schema.Declares (.array element (some count)) := hdeclares
    cases hstatic : c.schema.staticSize element with
    | recordDependent =>
      exact h.array_of_waits hdeclares (.inl (by rw [Schema.staticSize, hstatic]))
    | incomplete =>
      exact h.array_of_waits hdeclares (.inr (by rw [Schema.staticSize, hstatic]))
    | tooLarge =>
      cases h.unique (sizes_of_tooLarge hdeclares hstatic)
      exact sizes_of_tooLarge hdeclares' (by rw [Schema.staticSize, hstatic])
    | known size alignment =>
      have helement : c.Sizes answer element (some ⟨size, alignment, .complete⟩) := by
        rw [Sizes, typeLayout_of_known hstatic]
        rfl
      cases h.unique helement
      rw [Option.bind_some, arrayLayout?_of_complete]
      cases hsize : Schema.arraySize? size count with
      | none =>
        exact sizes_of_tooLarge hdeclares' (by simp only [Schema.staticSize, hstatic, hsize])
      | some width =>
        have hknown :
            c.schema.staticSize (.array element (some count)) = .known width alignment := by
          simp only [Schema.staticSize, hstatic, hsize]
        rw [Option.map_some, Sizes, typeLayout_of_known hknown]
        rfl

/-- **A whole nest** has what the counts make of the innermost type, one after the other. -/
theorem Sizes.nest (counts : List (Option Nat)) {l : TypeLayout}
    (hdeclares : c.schema.Declares inner) (h : c.Sizes answer inner (some l)) :
    c.Sizes answer (inner.nest counts) (counts.foldlM arrayLayout? l) := by
  -- the counts are taken from the inside, where some array may be too large already
  suffices hfold : ∀ (counts : List (Option Nat)) (inner : Ty) (out : Option TypeLayout),
      c.schema.Declares inner → c.Sizes answer inner out →
        c.Sizes answer (inner.nest counts) (out.bind (counts.foldlM arrayLayout?)) from
    hfold counts inner (some l) hdeclares h
  intro counts
  induction counts with
  | nil =>
    intro inner out _ h
    cases out <;> exact h
  | cons count counts ih =>
    intro inner out hdeclares h
    have hnest := ih (.array inner count) _ hdeclares (h.array count hdeclares)
    rwa [Option.bind_assoc] at hnest

end LayoutContext

/-! ### In sessions -/

namespace Session

/-- What a session says of a type: it has a given layout, or for `none`, it is too large. -/
def Sizes (s : Session) (ty : Ty) : Option TypeLayout → Prop
  | some l => s.typeLayouts ty = .ok (.ok l)
  | none => ∃ name, s.typeLayouts ty = .ok (.error (.typeTooLarge name))

namespace Reachable

variable {d : Declarations} {schema : Schema} {profile : Profile} {settings : SinkSettings}
  {s s' : Session} {r : RecordId} {l : RecordLayout} {p : Primitive}

/-- **Arrays of base types and of records are sized alike.** Let a record have a layout without a
flexible tail, and a base type the same size and alignment. For all counts, known and unknown,
either the nest of arrays around each of the two has one and the same layout, in every session, or
both are too large. The latter is so exactly if some level with an exact size has 2 ^ 64 bits or
more. -/
theorem nest_alike (hclose : d.close = .ok schema) (hs : Reachable schema profile settings s)
    (hrecord : s.record r = .ok (.ok l, s')) (htail : l.hasFlexibleTail = false)
    (hsize : p.size = l.size) (halignment : p.alignment = l.alignment)
    (counts : List (Option Nat)) :
    ∃ out : Option TypeLayout,
      (∀ settings' t, Reachable schema profile settings' t →
        t.Sizes (Ty.nest (.record r) counts) out ∧
        t.Sizes (Ty.nest (.primitive p) counts) out) ∧
      (out = none ↔ OverflowsWithin l.size.count counts) := by
  obtain ⟨hclosed, -⟩ := Declarations.close_closed hclose
  have hanswer := record_sound hs.sound hrecord
  rw [hs.context_eq, LayoutContext.hasAnswer_iff hclosed] at hanswer
  obtain ⟨record, hget, -⟩ := LayoutContext.exists_record_of_answer hclosed hanswer
  have hdeclares : schema.Declares (.record r) := Arena.contains_iff_get?.mpr ⟨record, hget⟩
  have hbase : LayoutContext.Sizes ⟨schema, profile⟩ (LayoutContext.answer ⟨schema, profile⟩)
      (.primitive p) (some ⟨l.size, l.alignment, .complete⟩) := by
    rw [← hsize, ← halignment]
    rfl
  have hlayout : LayoutContext.Sizes ⟨schema, profile⟩ (LayoutContext.answer ⟨schema, profile⟩)
      (.record r) (some ⟨l.size, l.alignment, .complete⟩) := by
    rw [LayoutContext.Sizes, LayoutContext.typeLayout_record, LayoutT.value_map,
      LayoutT.value_layoutOf, hanswer, except_ok_bind, Except.map, RecordLayout.typeLayout, htail]
    rfl
  refine ⟨counts.foldlM LayoutContext.arrayLayout? ⟨l.size, l.alignment, .complete⟩,
    fun settings' t ht => ?_, LayoutContext.foldlM_arrayLayout?_eq_none_iff⟩
  have hreplied (ty : Ty) (out : Option TypeLayout)
      (h : LayoutContext.Sizes ⟨schema, profile⟩ (LayoutContext.answer ⟨schema, profile⟩) ty out) :
      t.Sizes ty out := by
    cases out <;>
      rwa [Sizes, typeLayouts_eq (c := ⟨schema, profile⟩) hclosed ht.sound ht.context_eq]
  exact ⟨hreplied _ _ (hlayout.nest counts hdeclares), hreplied _ _ (hbase.nest counts trivial)⟩

/-- The first record of `Schema.message` is as large as the `int` in it. Of 2 ^ 58 of either, four
times over, the bits are too many, whatever the arrays around that. -/
theorem nest_alike_message :
    ∃ l t, (Session.start Schema.message .lp64 .keepAll).record (.of 0) = .ok (.ok l, t) ∧
      l.size.count = 4 ∧
      (Session.start Schema.message .lp64 .keepAll).Sizes
        (Ty.nest (.record (.of 0)) [some (2 ^ 58), some 4, none, some 0]) none ∧
      (Session.start Schema.message .lp64 .keepAll).Sizes
        (Ty.nest (.primitive ⟨"int", .of 4, .of 4, .signed⟩)
          [some (2 ^ 58), some 4, none, some 0]) none := by
  obtain ⟨l, t, h, hsize, halignment, htail⟩ : ∃ l t,
      (Session.start Schema.message .lp64 .keepAll).record (.of 0) = .ok (.ok l, t) ∧
        l.size = .of 4 ∧ l.alignment = .of 4 ∧ l.hasFlexibleTail = false :=
    ⟨_, _, rfl, rfl, rfl, rfl⟩
  obtain ⟨out, hout, hiff⟩ := nest_alike (p := ⟨"int", .of 4, .of 4, .signed⟩)
    Declarations.close_message .start h htail hsize.symm halignment.symm
    [some (2 ^ 58), some 4, none, some 0]
  have hnone : out = none := by
    refine hiff.mpr ⟨[2 ^ 58, 4], by simp, by simp, ?_⟩
    rw [hsize]
    decide
  subst hnone
  obtain ⟨hrecord, hbase⟩ := hout _ _ .start
  exact ⟨l, t, h, congrArg Quantity.count hsize, hrecord, hbase⟩

end Reachable

end Session

end AbiLayout
