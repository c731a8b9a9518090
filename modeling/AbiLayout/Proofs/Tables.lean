import AbiLayout.Proofs.Profiles

/-!
# Tables of base types

A table is read row by row. The first row that is not usable is refused, whatever stands behind it
and whether or not a later row would have replaced it; before any row, the pointer size is checked.
A table that is accepted holds, for each name, the last row of that name, in the order in which the
names first occur. Base types that are added later continue the table as further rows would.

## Main definitions

* `Primitive.Refused`: why a base type is refused.
* `Profile.tableOf`: the table that rows are put into, one after the other.
* `Profile.Tabulates`: what the base types of a profile are, for the rows they come from.
* `Profile.PointerSizeFits`: what is asked of the pointer size.

## Main results

* `Profile.addBaseType_eq_error_iff`: the error of a base type that is not usable.
* `Profile.foldlM_addBaseType_eq_ok_iff`, `Profile.foldlM_addBaseType_eq_error_iff`: rows are
  accepted together, and the first one that is refused counts.
* `Profile.tabulates_tableOf`: the last row of each name, in the order of first occurrence.
* `Profile.ofTable_validates`: which tables are accepted, and what they hold.
-/

namespace AbiLayout

/-- Why a base type is refused: the first condition that it does not satisfy. -/
inductive Primitive.Refused (b : Primitive) : ProfileError → Prop
  | alignment (h : ¬b.alignment.count.isPowerOfTwo) :
      b.Refused (.baseTypeAlignment b.name b.alignment)
  | tooLarge (halign : b.alignment.count.isPowerOfTwo) (h : 2 ^ 64 ≤ b.bitSize) :
      b.Refused (.baseTypeTooLarge b.name b.size)
  | ragged (halign : b.alignment.count.isPowerOfTwo) (hsize : b.bitSize < 2 ^ 64)
      (h : ¬b.alignment.count ∣ b.size.count) :
      b.Refused (.baseTypeSize b.name b.size b.alignment)

namespace Profile

variable {p q : Profile} {b : Primitive} {rows table : List Primitive} {e : ProfileError}

/-! ### Rows one by one -/

/-- A base type is refused by the first condition that it does not satisfy. -/
theorem addBaseType_eq_error_iff : p.addBaseType b = .error e ↔ b.Refused e := by
  have hpower : (!b.alignment.isPowerOfTwo) = true ↔ ¬b.alignment.count.isPowerOfTwo := by
    rw [Bool.not_eq_true', ← Bool.not_eq_true, Quantity.isPowerOfTwo_iff]
  have hfits : (!b.size.fitsInBits) = true ↔ ¬b.bitSize < 2 ^ 64 := by
    rw [Bool.not_eq_true', ← Bool.not_eq_true]
    exact not_congr Quantity.fitsInBits_iff
  have hragged : b.size.count % b.alignment.count ≠ 0 ↔ ¬b.alignment.count ∣ b.size.count :=
    not_congr Nat.dvd_iff_mod_eq_zero.symm
  simp only [addBaseType, hpower, hfits, hragged]
  constructor
  · intro h
    split at h
    · rename_i halign
      cases h
      exact .alignment halign
    · rename_i halign
      split at h
      · rename_i hsize
        cases h
        exact .tooLarge (not_not.mp halign) (Nat.not_lt.mp hsize)
      · rename_i hsize
        split at h
        · rename_i hdvd
          cases h
          exact .ragged (not_not.mp halign) (not_not.mp hsize) hdvd
        · cases h
  · rintro (halign | ⟨halign, hsize⟩ | ⟨halign, hsize, hdvd⟩)
    · rw [if_pos halign]
    · rw [if_neg (not_not.mpr halign), if_pos (Nat.not_lt.mpr hsize)]
    · rw [if_neg (not_not.mpr halign), if_neg (not_not.mpr hsize), if_pos hdvd]

/-- The table with some rows, one after the other. -/
def insertBaseTypes (table rows : List Primitive) : List Primitive :=
  rows.foldl (fun table b => insertBaseType b table) table

/-- Rows are accepted together: each one has to be usable, also one that is replaced later. -/
theorem foldlM_addBaseType_eq_ok_iff :
    rows.foldlM addBaseType p = .ok q ↔
      (∀ b ∈ rows, b.Usable) ∧ q = { p with baseTypes := insertBaseTypes p.baseTypes rows } := by
  induction rows generalizing p with
  | nil =>
    rw [List.foldlM_nil, except_pure, Except.ok.injEq]
    simp [insertBaseTypes, eq_comm]
  | cons b rows ih =>
    rw [List.foldlM_cons, except_bind_eq_ok_iff, List.forall_mem_cons]
    simp only [addBaseType_eq_ok_iff, ih]
    constructor
    · rintro ⟨_, ⟨hb, rfl⟩, hrows, rfl⟩
      exact ⟨⟨hb, hrows⟩, rfl⟩
    · rintro ⟨⟨hb, hrows⟩, rfl⟩
      exact ⟨_, ⟨hb, rfl⟩, hrows, rfl⟩

/-- The first row that is not usable is refused. -/
theorem foldlM_addBaseType_eq_error_iff :
    rows.foldlM addBaseType p = .error e ↔
      ∃ before row after, rows = before ++ row :: after ∧ (∀ b ∈ before, b.Usable) ∧
        row.Refused e := by
  induction rows generalizing p with
  | nil =>
    constructor
    · exact fun h => nomatch h
    · rintro ⟨before, row, after, h, -⟩
      exact absurd h.symm (List.append_ne_nil_of_right_ne_nil before (List.cons_ne_nil row after))
  | cons b rows ih =>
    rw [List.foldlM_cons, except_bind_eq_error_iff, addBaseType_eq_error_iff]
    constructor
    · rintro (hb | ⟨p', hp', h⟩)
      · exact ⟨[], b, rows, rfl, fun _ h => (nomatch h), hb⟩
      · obtain ⟨hb, -⟩ := addBaseType_eq_ok_iff.mp hp'
        obtain ⟨before, row, after, rfl, hbefore, hrow⟩ := ih.mp h
        exact ⟨b :: before, row, after, rfl, List.forall_mem_cons.mpr ⟨hb, hbefore⟩, hrow⟩
    · rintro ⟨before, row, after, hrows, hbefore, hrow⟩
      cases before with
      | nil =>
        cases hrows
        exact .inl hrow
      | cons first before =>
        cases hrows
        obtain ⟨hb, hbefore⟩ := List.forall_mem_cons.mp hbefore
        exact .inr ⟨_, addBaseType_eq_ok_iff.mpr ⟨hb, rfl⟩,
          ih.mpr ⟨before, row, after, rfl, hbefore, hrow⟩⟩

/-! ### The table behind the rows -/

/-- The table that rows are put into, one after the other. -/
def tableOf (rows : List Primitive) : List Primitive := insertBaseTypes [] rows

theorem tableOf_append_singleton (rows : List Primitive) (b : Primitive) :
    tableOf (rows ++ [b]) = insertBaseType b (tableOf rows) :=
  List.foldl_append

/-- A name that is known stays in its place, and a new one goes to the end. -/
theorem map_name_insertBaseType (b : Primitive) (table : List Primitive) :
    (insertBaseType b table).map Primitive.name =
      if b.name ∈ table.map Primitive.name then table.map Primitive.name
      else table.map Primitive.name ++ [b.name] := by
  induction table with
  | nil => rfl
  | cons c table ih =>
    rw [insertBaseType]
    by_cases hname : c.name = b.name
    · simp [hname]
    · rw [if_neg hname, List.map_cons, ih]
      have hne : b.name ≠ c.name := fun h => hname h.symm
      split <;> simp_all

/-- A base type is found under its name, and others as before. -/
theorem find?_insertBaseType (b : Primitive) (table : List Primitive) (name : String) :
    (insertBaseType b table).find? (fun c => c.name == name) =
      if b.name = name then some b else table.find? fun c => c.name == name := by
  induction table with
  | nil => by_cases h : b.name = name <;> simp [insertBaseType, h]
  | cons c table ih =>
    rw [insertBaseType]
    by_cases hname : c.name = b.name
    · rw [if_pos hname]
      by_cases h : b.name = name <;> simp [hname, h]
    · rw [if_neg hname, List.find?_cons, ih, List.find?_cons]
      by_cases h : b.name = name
      · have hne : (c.name == name) = false := beq_false_of_ne fun hc => hname (hc.trans h.symm)
        rw [if_pos h, if_pos h, hne]
      · rw [if_neg h, if_neg h]

/-- The names of a table, each one once, in the order in which they first occur. -/
theorem map_name_tableOf (rows : List Primitive) :
    (tableOf rows).map Primitive.name = (rows.map Primitive.name).eraseDups := by
  induction rows using List.reverseRecOn with
  | nil => rfl
  | append_singleton rows b ih =>
    rw [tableOf_append_singleton, map_name_insertBaseType, ih, List.map_append, List.map_singleton,
      List.eraseDups_append, List.removeAll, List.filter_singleton, List.elem_eq_mem]
    simp only [List.mem_eraseDups]
    by_cases h : b.name ∈ rows.map Primitive.name
    · rw [if_pos h, decide_eq_true h]
      exact (List.append_nil _).symm
    · rw [if_neg h, decide_eq_false h]
      rfl

theorem nodup_map_name_tableOf (rows : List Primitive) :
    ((tableOf rows).map Primitive.name).Nodup := by
  induction rows using List.reverseRecOn with
  | nil => exact List.nodup_nil
  | append_singleton rows b ih =>
    rw [tableOf_append_singleton, map_name_insertBaseType]
    split
    · exact ih
    · rename_i hnew
      exact List.nodup_append.mpr ⟨ih, List.nodup_singleton _, fun name hname other hother h =>
        hnew (List.mem_singleton.mp hother ▸ h ▸ hname)⟩

/-- The base type of a name is the last row of that name. -/
theorem find?_tableOf (rows : List Primitive) (name : String) :
    (tableOf rows).find? (fun b => b.name == name) = rows.findRev? fun b => b.name == name := by
  rw [List.findRev?_eq_find?_reverse]
  induction rows using List.reverseRecOn with
  | nil => rfl
  | append_singleton rows b ih =>
    rw [tableOf_append_singleton, find?_insertBaseType, ih, List.reverse_append]
    by_cases h : b.name = name <;> simp [h]

/-- A table holds nothing but rows. -/
theorem mem_tableOf (h : b ∈ tableOf rows) : b ∈ rows := by
  induction rows using List.reverseRecOn with
  | nil => cases h
  | append_singleton rows c ih =>
    rw [tableOf_append_singleton] at h
    rw [List.mem_append, List.mem_singleton]
    exact (mem_insertBaseType h).elim .inr fun h => .inl (ih h)

/-- The base types of the profile are those of the rows: the last row of each name, each name once,
in the order in which the names first occur, and all of them usable. -/
structure Tabulates (p : Profile) (rows : List Primitive) : Prop where
  baseType?_eq : ∀ name, p.baseType? name = rows.findRev? fun b => b.name == name
  names_eq : p.baseTypes.map Primitive.name = (rows.map Primitive.name).eraseDups
  nodup : (p.baseTypes.map Primitive.name).Nodup
  usable : ∀ b ∈ p.baseTypes, b.Usable

/-- Usable rows are tabulated. -/
theorem tabulates_tableOf (hrows : ∀ b ∈ rows, b.Usable) (h : p.baseTypes = tableOf rows) :
    p.Tabulates rows where
  baseType?_eq name := by rw [baseType?, h, find?_tableOf]
  names_eq := by rw [h, map_name_tableOf]
  nodup := h ▸ nodup_map_name_tableOf rows
  usable b hb := hrows b (mem_tableOf (h ▸ hb))

/-! ### Profiles of tables -/

/-- The pointer size is a power of two, and its bits fit in 64 bits. -/
def PointerSizeFits (size : ByteCount) : Prop := size.count.isPowerOfTwo ∧ 8 * size.count < 2 ^ 64

theorem ofTable_eq {name : String} {pointerSize : ByteCount} (h : PointerSizeFits pointerSize) :
    ofTable name pointerSize rows = rows.foldlM addBaseType (bare name pointerSize) := by
  have hpower := Quantity.isPowerOfTwo_iff.mpr h.1
  have hfits := Quantity.fitsInBits_iff.mpr h.2
  rw [ofTable, hpower, hfits]
  rfl

theorem ofTable_of_not_pointerSizeFits {name : String} {pointerSize : ByteCount}
    (h : ¬PointerSizeFits pointerSize) :
    ofTable name pointerSize rows = .error (.pointerSize name pointerSize) := by
  have hrefused : (!pointerSize.isPowerOfTwo || !pointerSize.fitsInBits) = true := by
    rw [← Bool.not_and, Bool.not_eq_true', ← Bool.not_eq_true, Bool.and_eq_true,
      Quantity.isPowerOfTwo_iff, Quantity.fitsInBits_iff]
    exact h
  rw [ofTable, if_pos hrefused]

/-- **Tables are checked row by row, and later rows replace earlier ones.** A table is accepted
exactly when the pointer size is a power of two whose bits fit in 64 bits and every row is usable.
The error is that of the pointer size, or else that of the first row which is not usable. An
accepted table holds the last row of each name, each name once, in the order in which the names
first occur, and only usable base types. So it does when further base types are added, which count
as further rows. -/
theorem ofTable_validates (name : String) (pointerSize : ByteCount) (rows : List Primitive) :
    ((∃ p, ofTable name pointerSize rows = .ok p) ↔
      PointerSizeFits pointerSize ∧ ∀ row ∈ rows, row.Usable) ∧
    (∀ e, ofTable name pointerSize rows = .error e ↔
      (¬PointerSizeFits pointerSize ∧ e = .pointerSize name pointerSize) ∨
      (PointerSizeFits pointerSize ∧ ∃ before row after, rows = before ++ row :: after ∧
        (∀ b ∈ before, b.Usable) ∧ row.Refused e)) ∧
    ∀ p, ofTable name pointerSize rows = .ok p →
      p.Tabulates rows ∧
      ∀ (later : List Primitive) (q : Profile), later.foldlM addBaseType p = .ok q →
        q.Tabulates (rows ++ later) := by
  by_cases hpointer : PointerSizeFits pointerSize
  · rw [ofTable_eq hpointer]
    refine ⟨?_, fun e => ?_, fun p hp => ?_⟩
    · simp only [foldlM_addBaseType_eq_ok_iff]
      simp [hpointer]
    · simp [hpointer, foldlM_addBaseType_eq_error_iff]
    · obtain ⟨hrows, rfl⟩ := foldlM_addBaseType_eq_ok_iff.mp hp
      refine ⟨tabulates_tableOf hrows rfl, fun later q hq => ?_⟩
      obtain ⟨hlater, rfl⟩ := foldlM_addBaseType_eq_ok_iff.mp hq
      exact tabulates_tableOf (List.forall_mem_append.mpr ⟨hrows, hlater⟩)
        (List.foldl_append (l := rows)).symm
  · rw [ofTable_of_not_pointerSizeFits hpointer]
    simp [hpointer, eq_comm]

/-- Three rows, the last of which replaces the first. -/
def replacingRows : List Primitive :=
  [⟨"long int", .of 8, .of 8, .signed⟩, ⟨"int", .of 4, .of 4, .signed⟩,
   ⟨"long int", .of 4, .of 4, .signed⟩]

/-- A row whose size is not a multiple of its alignment, and which the row behind it would
replace. -/
def raggedRows : List Primitive :=
  [⟨"char", .of 1, .of 1, .signedChar⟩, ⟨"int", .of 6, .of 4, .signed⟩,
   ⟨"int", .of 4, .of 4, .signed⟩]

theorem ofTable_validates_replacing :
    (∃ p q, ofTable "llp64" (.of 8) replacingRows = .ok p ∧ p.Tabulates replacingRows ∧
      p.baseTypes.map Primitive.name = ["long int", "int"] ∧
      p.baseType? "long int" = some ⟨"long int", .of 4, .of 4, .signed⟩ ∧
      [⟨"int", .of 2, .of 2, .signed⟩].foldlM addBaseType p = .ok q ∧
      q.Tabulates (replacingRows ++ [⟨"int", .of 2, .of 2, .signed⟩])) ∧
    ofTable "ragged" (.of 8) raggedRows = .error (.baseTypeSize "int" (.of 6) (.of 4)) := by
  constructor
  · obtain ⟨haccepted, -, htable⟩ := ofTable_validates "llp64" (.of 8) replacingRows
    obtain ⟨p, hp⟩ := haccepted.mpr ⟨⟨⟨3, rfl⟩, by decide⟩, by decide⟩
    obtain ⟨hrows, hlater⟩ := htable p hp
    have hadded : ∃ q, [⟨"int", .of 2, .of 2, .signed⟩].foldlM addBaseType p = .ok q :=
      ⟨_, foldlM_addBaseType_eq_ok_iff.mpr ⟨by decide, rfl⟩⟩
    obtain ⟨q, hq⟩ := hadded
    refine ⟨p, q, hp, hrows, ?_, ?_, hq, hlater _ q hq⟩
    · rw [hrows.names_eq]
      decide
    · rw [hrows.baseType?_eq]
      decide
  · obtain ⟨-, hrefused, -⟩ := ofTable_validates "ragged" (.of 8) raggedRows
    refine (hrefused _).mpr (.inr ⟨⟨⟨3, rfl⟩, by decide⟩, ?_⟩)
    exact ⟨[⟨"char", .of 1, .of 1, .signedChar⟩], ⟨"int", .of 6, .of 4, .signed⟩,
      [⟨"int", .of 4, .of 4, .signed⟩], rfl, by decide,
      .ragged ⟨2, rfl⟩ (by decide) (by decide)⟩

end Profile

end AbiLayout
