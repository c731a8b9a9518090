import AbiLayout.Proofs.Enclosing
import AbiLayout.Proofs.Transparency

/-!
# The search for a name takes the first field in declared order

What a record shows are its own fields, what its anonymous records show, and what its bases show. A
field that is shown has a path, the members that lead to it, and the paths are in the order of the
declarations: fields come before bases, and an anonymous record is searched where it stands. The
search for a name finds the first path to a field of that name, and nothing exactly where there is
none.

A record with a layout encloses all that the search goes into, so no offset leaves the range, and
every record on the way has a layout. The search thus fails only where the record has no layout, and
in the same way. Nothing is assumed of base types or of pointers.

## Main definitions

* `Schema.Shows`: a record shows a field, at a path.
* `Member.Precedes`: the order in which members are searched.
* `IsFirst`: the first path of some.
* `Schema.Names`: the paths of a record to fields of a name.

## Main results

* `LayoutContext.yields_locateWithin`: a search finds the first path to a field of the name.
* `Session.Reachable.locate_first`: so does every search of every session, and it fails only with
  its record.
-/

namespace AbiLayout

/-- Exactly a record type names a record. -/
theorem Ty.asRecord?_eq_some_iff {ty : Ty} {r : RecordId} :
    ty.asRecord? = some r ↔ ty = .record r := by
  cases ty <;> simp [asRecord?]

/-! ### What a record shows -/

/-- The record shows the field at the path: the field is one of its own, or is shown by an anonymous
record among its fields, or by one of its bases. -/
inductive Schema.Shows (s : Schema) : RecordId → List Member → Field → Prop where
  | own {r : RecordId} {record : Record} {i : Nat} {field : Field} :
      s.records.get? r = some record → record.fields[i]? = some field → Shows s r [.field i] field
  | anonymous {r r' : RecordId} {record : Record} {i : Nat} {outer field : Field}
      {path : List Member} :
      s.records.get? r = some record → record.fields[i]? = some outer →
        outer.isAnonymous = true → outer.ty = .record r' → Shows s r' path field →
          Shows s r (.field i :: path) field
  | base {r : RecordId} {record : Record} {i : Nat} {base : Base} {field : Field}
      {path : List Member} :
      s.records.get? r = some record → record.bases[i]? = some base →
        Shows s base.record path field → Shows s r (.base i :: path) field

/-- The order in which members are searched: all fields in order, and then all bases in order. -/
inductive Member.Precedes : Member → Member → Prop where
  | field {i j : Nat} : i < j → Precedes (.field i) (.field j)
  | fieldBase (i j : Nat) : Precedes (.field i) (.base j)
  | base {i j : Nat} : i < j → Precedes (.base i) (.base j)

/-- The path is one of those given, and comes before all others of them. -/
def IsFirst (paths : List Member → Prop) (path : List Member) : Prop :=
  paths path ∧ ∀ other, paths other → other = path ∨ List.Lex Member.Precedes path other

/-- The path leads from the record to a field of the name. -/
def Schema.Names (s : Schema) (name : String) (r : RecordId) (path : List Member) : Prop :=
  ∃ field, s.Shows r path field ∧ field.name = some name

/-! ### First paths -/

namespace IsFirst

variable {paths paths' : List Member → Prop} {path : List Member} {x : Member}

/-- A first path behind a member is the first one, if all others begin with a later member. -/
theorem cons (h : IsFirst paths path) (hpath : paths' (x :: path))
    (hothers : ∀ other, paths' other → (∃ rest, other = x :: rest ∧ paths rest) ∨
      ∃ y rest, other = y :: rest ∧ x.Precedes y) : IsFirst paths' (x :: path) := by
  refine ⟨hpath, fun other hother => ?_⟩
  rcases hothers other hother with ⟨rest, rfl, hrest⟩ | ⟨y, rest, rfl, hlater⟩
  · rcases h.2 rest hrest with rfl | hlex
    · exact .inl rfl
    · exact .inr (.cons hlex)
  · exact .inr (.rel hlater)

/-- The empty path comes before all others. -/
theorem nil : IsFirst (fun _ => True) [] := by
  refine ⟨trivial, fun other _ => ?_⟩
  cases other with
  | nil => exact .inl rfl
  | cons => exact .inr .nil

end IsFirst

/-- The result of a search behind some path: the first one of the paths, or nothing if there are
none. -/
def FindsFirst (paths : List Member → Prop) (before : List Member) : Option MemberPlace → Prop
  | none => ∀ path, ¬paths path
  | some found => ∃ path, found.path = before ++ path ∧ IsFirst paths path

/-- What is found first behind a member is found first, if all other paths begin with a later
member. -/
theorem FindsFirst.cons {paths paths' : List Member → Prop} {before : List Member} {x : Member}
    {found : MemberPlace} (h : FindsFirst paths (before ++ [x]) (some found))
    (hpaths : ∀ path, paths path → paths' (x :: path))
    (hothers : ∀ other, paths' other → (∃ rest, other = x :: rest ∧ paths rest) ∨
      ∃ y rest, other = y :: rest ∧ x.Precedes y) : FindsFirst paths' before (some found) := by
  obtain ⟨path, hfound, hfirst⟩ := h
  refine ⟨x :: path, ?_, hfirst.cons (hpaths path hfirst.1) hothers⟩
  rw [hfound, List.append_assoc]
  rfl

/-- The paths to fields of a name that go through the given field at position `i`: to the field
itself, and into it if it is an anonymous record. -/
def Schema.NamesAt (s : Schema) (name : String) (i : Nat) (field : Field) (path : List Member) :
    Prop :=
  path = [.field i] ∧ field.name = some name ∨
    ∃ r rest, field.isAnonymous = true ∧ field.ty = .record r ∧ path = .field i :: rest ∧
      s.Names name r rest

/-- The paths to fields of a name that go through a field from position `i` on. -/
def Schema.NamesInFields (s : Schema) (name : String) (fields : List Field) (i : Nat)
    (path : List Member) : Prop :=
  ∃ j field, i ≤ j ∧ fields[j]? = some field ∧ s.NamesAt name j field path

/-- The paths to fields of a name that go through a base from position `i` on. -/
def Schema.NamesInBases (s : Schema) (name : String) (bases : List Base) (i : Nat)
    (path : List Member) : Prop :=
  ∃ j base rest, i ≤ j ∧ bases[j]? = some base ∧ path = .base j :: rest ∧
    s.Names name base.record rest

/-- The paths of a record go through its fields or its bases. -/
theorem Schema.names_iff {s : Schema} {name : String} {r : RecordId} {record : Record}
    (hrecord : s.records.get? r = some record) {path : List Member} :
    s.Names name r path ↔ s.NamesInFields name record.fields 0 path ∨
      s.NamesInBases name record.bases 0 path := by
  constructor
  · rintro ⟨field, hshows, hname⟩
    cases hshows with
    | own hrecord' hget =>
      cases hrecord.symm.trans hrecord'
      exact .inl ⟨_, field, Nat.zero_le _, hget, .inl ⟨rfl, hname⟩⟩
    | anonymous hrecord' hget hanonymous hty hshows =>
      cases hrecord.symm.trans hrecord'
      exact .inl ⟨_, _, Nat.zero_le _, hget,
        .inr ⟨_, _, hanonymous, hty, rfl, field, hshows, hname⟩⟩
    | base hrecord' hget hshows =>
      cases hrecord.symm.trans hrecord'
      exact .inr ⟨_, _, _, Nat.zero_le _, hget, rfl, field, hshows, hname⟩
  · rintro (⟨j, field, -, hget, hpath⟩ | ⟨j, base, rest, -, hget, rfl, field, hshows, hname⟩)
    · rcases hpath with ⟨rfl, hname⟩ | ⟨r', rest, hanonymous, hty, rfl, inner, hshows, hname⟩
      · exact ⟨field, .own hrecord hget, hname⟩
      · exact ⟨inner, .anonymous hrecord hget hanonymous hty hshows, hname⟩
    · exact ⟨field, .base hrecord hget hshows, hname⟩

section Paths

variable {s : Schema} {name : String} {fields : List Field} {bases : List Base} {i : Nat}
  {path : List Member}

/-- A path through a field is one through the next field, or through a later one. -/
theorem Schema.namesInFields_iff {field : Field} (hget : fields[i]? = some field) :
    s.NamesInFields name fields i path ↔
      s.NamesAt name i field path ∨ s.NamesInFields name fields (i + 1) path := by
  constructor
  · rintro ⟨j, field', hij, hget', hpath⟩
    rcases Nat.eq_or_lt_of_le hij with rfl | hlt
    · cases hget.symm.trans hget'
      exact .inl hpath
    · exact .inr ⟨j, field', hlt, hget', hpath⟩
  · rintro (hpath | ⟨j, field', hij, hget', hpath⟩)
    · exact ⟨i, field, le_rfl, hget, hpath⟩
    · exact ⟨j, field', Nat.le_of_succ_le hij, hget', hpath⟩

/-- A path through a base is one through the next base, or through a later one. -/
theorem Schema.namesInBases_iff {base : Base} (hget : bases[i]? = some base) :
    s.NamesInBases name bases i path ↔
      (∃ rest, path = .base i :: rest ∧ s.Names name base.record rest) ∨
      s.NamesInBases name bases (i + 1) path := by
  constructor
  · rintro ⟨j, base', rest, hij, hget', hpath, hnames⟩
    rcases Nat.eq_or_lt_of_le hij with rfl | hlt
    · cases hget.symm.trans hget'
      exact .inl ⟨rest, hpath, hnames⟩
    · exact .inr ⟨j, base', rest, hlt, hget', hpath, hnames⟩
  · rintro (⟨rest, hpath, hnames⟩ | ⟨j, base', rest, hij, hget', hpath, hnames⟩)
    · exact ⟨i, base, rest, le_rfl, hget, hpath, hnames⟩
    · exact ⟨j, base', rest, Nat.le_of_succ_le hij, hget', hpath, hnames⟩

theorem Schema.NamesInFields.later (h : s.NamesInFields name fields (i + 1) path) :
    ∃ y rest, path = y :: rest ∧ (Member.field i).Precedes y := by
  obtain ⟨j, field, hij, -, ⟨rfl, -⟩ | ⟨-, rest, -, -, rfl, -⟩⟩ := h
  · exact ⟨_, _, rfl, .field hij⟩
  · exact ⟨_, _, rfl, .field hij⟩

theorem Schema.NamesInBases.later (h : s.NamesInBases name bases (i + 1) path) :
    ∃ y rest, path = y :: rest ∧ (Member.base i).Precedes y := by
  obtain ⟨j, base, rest, hij, -, rfl, -⟩ := h
  exact ⟨_, _, rfl, .base hij⟩

/-- A path through a field comes before every path through a base. -/
theorem Schema.NamesInFields.lex {other : List Member} {j : Nat}
    (h : s.NamesInFields name fields i path) (hother : s.NamesInBases name bases j other) :
    List.Lex Member.Precedes path other := by
  obtain ⟨k, base, rest, -, -, rfl, -⟩ := hother
  obtain ⟨j, field, -, -, ⟨rfl, -⟩ | ⟨-, rest, -, -, rfl, -⟩⟩ := h
  · exact .rel (.fieldBase _ _)
  · exact .rel (.fieldBase _ _)

/-- A field that no path goes through can be left out. -/
theorem Schema.namesInFields_succ {field : Field} (hget : fields[i]? = some field)
    (hnone : ∀ path, ¬s.NamesAt name i field path) :
    s.NamesInFields name fields i = s.NamesInFields name fields (i + 1) :=
  funext fun path => propext ((namesInFields_iff hget).trans (or_iff_right (hnone path)))

/-- A base that shows no field of the name can be left out. -/
theorem Schema.namesInBases_succ {base : Base} (hget : bases[i]? = some base)
    (hnone : ∀ path, ¬s.Names name base.record path) :
    s.NamesInBases name bases i = s.NamesInBases name bases (i + 1) := by
  refine funext fun path => propext ((namesInBases_iff hget).trans (or_iff_right ?_))
  rintro ⟨rest, -, hrest⟩
  exact hnone rest hrest

/-- A path through a field that is not of the name leads into an anonymous record. -/
theorem Schema.NamesAt.anonymous {field : Field} (h : s.NamesAt name i field path)
    (hname : field.name ≠ some name) : ∃ r rest, field.isAnonymous = true ∧ field.ty = .record r ∧
      path = .field i :: rest ∧ s.Names name r rest :=
  h.resolve_left fun ⟨_, hnamed⟩ => hname hnamed

section Found

variable {before : List Member} {found : MemberPlace}

/-- The next field is found first, if it is of the name. -/
theorem Schema.findsFirst_of_named {field : Field} (hget : fields[i]? = some field)
    (hname : field.name = some name) (hpath : found.path = before ++ [.field i]) :
    FindsFirst (s.NamesInFields name fields i) before (some found) := by
  refine ⟨[.field i], hpath, IsFirst.nil.cons ?_ fun other hother => ?_⟩
  · exact (namesInFields_iff hget).mpr (.inl (.inl ⟨rfl, hname⟩))
  · rcases (namesInFields_iff hget).mp hother with hhere | hlater
    · rcases hhere with ⟨rfl, -⟩ | ⟨-, rest, -, -, rfl, -⟩
      · exact .inl ⟨[], rfl, trivial⟩
      · exact .inl ⟨rest, rfl, trivial⟩
    · exact .inr hlater.later

/-- What is found first in the next field, an anonymous record without the name, is found first. -/
theorem Schema.findsFirst_of_anonymous {field : Field} {r : RecordId}
    (hget : fields[i]? = some field) (hname : field.name ≠ some name)
    (hanonymous : field.isAnonymous = true) (hty : field.ty = .record r)
    (hfound : FindsFirst (s.Names name r) (before ++ [.field i]) (some found)) :
    FindsFirst (s.NamesInFields name fields i) before (some found) := by
  refine hfound.cons (fun rest hrest => ?_) fun other hother => ?_
  · exact (namesInFields_iff hget).mpr (.inl (.inr ⟨r, rest, hanonymous, hty, rfl, hrest⟩))
  · rcases (namesInFields_iff hget).mp hother with hhere | hlater
    · obtain ⟨r', rest, -, hty', rfl, hrest⟩ := hhere.anonymous hname
      cases hty.symm.trans hty'
      exact .inl ⟨rest, rfl, hrest⟩
    · exact .inr hlater.later

/-- What is found first in the next base is found first. -/
theorem Schema.findsFirst_of_base {base : Base} (hget : bases[i]? = some base)
    (hfound : FindsFirst (s.Names name base.record) (before ++ [.base i]) (some found)) :
    FindsFirst (s.NamesInBases name bases i) before (some found) := by
  refine hfound.cons (fun rest hrest => ?_) fun other hother => ?_
  · exact (namesInBases_iff hget).mpr (.inl ⟨rest, rfl, hrest⟩)
  · rcases (namesInBases_iff hget).mp hother with ⟨rest, rfl, hrest⟩ | hlater
    · exact .inl ⟨rest, rfl, hrest⟩
    · exact .inr hlater.later

/-- What is found first in the fields is found first: fields come before bases. -/
theorem Schema.findsFirst_of_fields {r : RecordId} {record : Record}
    (hrecord : s.records.get? r = some record)
    (hfound : FindsFirst (s.NamesInFields name record.fields 0) before (some found)) :
    FindsFirst (s.Names name r) before (some found) := by
  obtain ⟨path, hpath, hfirst, hothers⟩ := hfound
  refine ⟨path, hpath, (names_iff hrecord).mpr (.inl hfirst), fun other hother => ?_⟩
  rcases (names_iff hrecord).mp hother with hother | hother
  · exact hothers other hother
  · exact .inr (hfirst.lex hother)

end Found

/-- If no path goes through a field, the paths of a record go through its bases. -/
theorem Schema.names_eq_namesInBases {r : RecordId} {record : Record}
    (hrecord : s.records.get? r = some record)
    (hnone : ∀ path, ¬s.NamesInFields name record.fields 0 path) :
    s.Names name r = s.NamesInBases name record.bases 0 :=
  funext fun path => propext ((names_iff hrecord).trans (or_iff_right (hnone path)))

end Paths

/-! ### Programs that yield results -/

namespace LayoutT

variable {α β : Type} {answer : RecordId → Except Trap Answer}

/-- The program has a result, with the property: it neither traps nor ends in a layout error. -/
def Yields (answer : RecordId → Except Trap Answer) (p : LayoutT α) (P : α → Prop) : Prop :=
  ∃ a, value answer p = .ok (.ok a) ∧ P a

theorem yields_pure {P : α → Prop} {a : α} (h : P a) : Yields answer (pure a) P :=
  ⟨a, value_pure answer a, h⟩

theorem yields_liftM {x : Except Trap α} {a : α} (h : x = .ok a) :
    Yields answer (liftM x : LayoutT α) (· = a) :=
  ⟨a, (value_liftM_eq_ok_iff answer).mpr h, rfl⟩

/-- Programs in sequence yield what the second one does on the results of the first. -/
theorem Yields.bind {p : LayoutT α} {f : α → LayoutT β} {P : α → Prop} {Q : β → Prop}
    (hp : Yields answer p P) (hf : ∀ a, P a → Yields answer (f a) Q) :
    Yields answer (p >>= f) Q := by
  obtain ⟨a, ha, hpa⟩ := hp
  obtain ⟨b, hb, hqb⟩ := hf a hpa
  exact ⟨b, (value_bind_eq_ok_iff answer).mpr ⟨a, ha, hb⟩, hqb⟩

end LayoutT

/-! ### The search -/

namespace LayoutContext

open LayoutT

variable {c : LayoutContext} {answer : RecordId → Except Trap Answer} {l : RecordLayout}
  {name : String} {place : SearchPlace}
  {search : RecordId → SearchPlace → LayoutT (Option MemberPlace)}

/-- One step of the search in fields finds the first path, if the search in the later ones does, and
the one in an anonymous record. A field without a place is no field of the name, and no record. -/
theorem yields_locateInFields_cons {all fields : List Field} {i : Nat} {field : Field}
    (hget : all[i]? = some field)
    (hplaced : l.field? i = none → field.name ≠ some name ∧ ∀ r, field.ty ≠ .record r)
    (hsearch : ∀ m, l.field? i = some m → ∃ inner, place.into m = .ok inner ∧
      ∀ r, field.isAnonymous = true → field.ty = .record r →
        Yields answer (search r inner) (FindsFirst (c.schema.Names name r) inner.path))
    (hrest : Yields answer (locateInFields search name l place (i + 1) fields)
      (FindsFirst (c.schema.NamesInFields name all (i + 1)) place.path)) :
    Yields answer (locateInFields search name l place i (field :: fields))
      (FindsFirst (c.schema.NamesInFields name all i) place.path) := by
  -- Where no path goes through this field, the paths are those through the later ones.
  have hskip (hnone : ∀ path, ¬c.schema.NamesAt name i field path) :
      Yields answer (locateInFields search name l place (i + 1) fields)
        (FindsFirst (c.schema.NamesInFields name all i) place.path) := by
    rw [Schema.namesInFields_succ hget hnone]
    exact hrest
  rw [locateInFields]
  cases hm : l.field? i with
  | none =>
    obtain ⟨hname, hty⟩ := hplaced hm
    refine hskip fun path hpath => ?_
    obtain ⟨r, -, -, hrecord, -⟩ := hpath.anonymous hname
    exact hty r hrecord
  | some m =>
    obtain ⟨inner, hinner, hnested⟩ := hsearch m hm
    have hpath := (into_eq_ok hinner).1
    rw [(RecordLayout.mem_of_member? hm).2] at hpath
    dsimp only
    by_cases hname : field.name = some name
    · rw [if_pos hname]
      refine (yields_liftM hinner).bind fun inner' hinner' => ?_
      cases hinner'
      exact yields_pure (Schema.findsFirst_of_named hget hname hpath)
    · rw [if_neg hname]
      cases hanonymous : field.isAnonymous with
      | false =>
        refine hskip fun path hpath => ?_
        obtain ⟨r, -, htrue, -⟩ := hpath.anonymous hname
        cases hanonymous.symm.trans htrue
      | true =>
        cases hty : field.ty with
        | record r =>
          refine (yields_liftM hinner).bind fun inner' hinner' => ?_
          cases hinner'
          refine (hnested r hanonymous hty).bind fun result hresult => ?_
          rw [hpath] at hresult
          cases result with
          | some found =>
            exact yields_pure
              (Schema.findsFirst_of_anonymous hget hname hanonymous hty hresult)
          | none =>
            refine hskip fun path hpath => ?_
            obtain ⟨r', rest, -, hty', -, hrest⟩ := hpath.anonymous hname
            cases hty.symm.trans hty'
            exact hresult rest hrest
        | primitive | voidPointer | pointerTo | array | bitfield =>
          refine hskip fun path hpath => ?_
          obtain ⟨r, -, -, hrecord, -⟩ := hpath.anonymous hname
          cases hty.symm.trans hrecord

/-- **The search in fields finds the first path through a field**, if the searches in anonymous
records find the first path of these. -/
theorem yields_locateInFields {all : List Field}
    (hplaced : ∀ (j : Nat) (field : Field), all[j]? = some field → l.field? j = none →
      field.name ≠ some name ∧ ∀ r, field.ty ≠ .record r)
    (hsearch : ∀ (j : Nat) (field : Field) (m : PlacedMember), all[j]? = some field →
      l.field? j = some m → ∃ inner, place.into m = .ok inner ∧ ∀ r, field.isAnonymous = true →
        field.ty = .record r →
          Yields answer (search r inner) (FindsFirst (c.schema.Names name r) inner.path)) :
    (fields : List Field) → {i : Nat} → fields = all.drop i →
      Yields answer (locateInFields search name l place i fields)
        (FindsFirst (c.schema.NamesInFields name all i) place.path)
  | [], i, hdrop => by
    refine yields_pure fun path ⟨j, field, hij, hget, _⟩ => ?_
    have hlt := (List.getElem?_eq_some_iff.mp hget).1
    have hle := List.drop_eq_nil_iff.mp hdrop.symm
    omega
  | field :: fields, i, hdrop => by
    obtain ⟨hget, htail⟩ := of_cons_eq_drop hdrop
    exact yields_locateInFields_cons hget (hplaced i field hget)
      (fun m hm => hsearch i field m hget hm)
      (yields_locateInFields hplaced hsearch fields htail)

/-- **The search in bases finds the first path through a base**, if the searches in bases find the
first path of these. -/
theorem yields_locateInBases {all : List Base}
    (hplaced : ∀ (j : Nat) (base : Base), all[j]? = some base → ∃ m, l.base? j = some m)
    (hsearch : ∀ (j : Nat) (base : Base) (m : PlacedMember), all[j]? = some base →
      l.base? j = some m → ∃ inner, place.into m = .ok inner ∧
        Yields answer (search base.record inner)
          (FindsFirst (c.schema.Names name base.record) inner.path)) :
    (bases : List Base) → {i : Nat} → bases = all.drop i →
      Yields answer (locateInBases search l place i bases)
        (FindsFirst (c.schema.NamesInBases name all i) place.path)
  | [], i, hdrop => by
    refine yields_pure fun path ⟨j, base, _, hij, hget, _⟩ => ?_
    have hlt := (List.getElem?_eq_some_iff.mp hget).1
    have hle := List.drop_eq_nil_iff.mp hdrop.symm
    omega
  | base :: bases, i, hdrop => by
    obtain ⟨hget, htail⟩ := of_cons_eq_drop hdrop
    obtain ⟨m, hm⟩ := hplaced i base hget
    obtain ⟨inner, hinner, hnested⟩ := hsearch i base m hget hm
    have hpath := (into_eq_ok hinner).1
    rw [(RecordLayout.mem_of_member? hm).2] at hpath
    rw [locateInBases, hm]
    refine (yields_liftM hinner).bind fun inner' hinner' => ?_
    cases hinner'
    refine hnested.bind fun result hresult => ?_
    rw [hpath] at hresult
    cases result with
    | some found => exact yields_pure (Schema.findsFirst_of_base hget hresult)
    | none =>
      rw [Schema.namesInBases_succ hget hresult]
      exact yields_locateInBases hplaced hsearch bases htail

section Closed

variable (hclosed : c.schema.Closed) {r : RecordId} {record : Record}

include hclosed

/-- In a record with a layout, a field without a place has no name, and is no record. -/
theorem name_of_field?_eq_none (hrecord : c.schema.records.get? r = some record)
    (h : c.answer r = .ok (.ok l)) {i : Nat} {field : Field} (hget : record.fields[i]? = some field)
    (hnone : l.field? i = none) : field.name = none ∧ ∀ r, field.ty ≠ .record r := by
  have hl := value_layoutByKind_of_answer hclosed hrecord h
  have hunion := hclosed.unionBases r record hrecord
  obtain ⟨bases, placements, hresolves⟩ := layoutByKind_resolves hl
  have hlists := hresolves.lists hunion hl
  have hzero : field.isZeroWidth = true := by
    by_contra hne
    have hplaced : Member.field i ∈ record.placedMembers := by
      rw [Record.field_mem_placedMembers, Record.placesField, hget, Option.any_some,
        eq_false_of_ne_true hne]
      rfl
    obtain ⟨m, hm⟩ := hlists.exists_member?_iff.mpr hplaced
    cases hnone.symm.trans hm
  rw [Field.isZeroWidth] at hzero
  split at hzero
  · rename_i b hty
    rw [Quantity.isZero_iff] at hzero
    rcases (((hresolves.layable hunion).field i field hget).bitfield b hty).2 with
      ⟨-, hname⟩ | ⟨-, hpos, -⟩
    · refine ⟨hname, fun r hr => ?_⟩
      cases hty.symm.trans hr
    · omega
  · cases hzero

/-- In a record with a layout, every base has a place. -/
theorem exists_base? (hrecord : c.schema.records.get? r = some record)
    (h : c.answer r = .ok (.ok l)) {i : Nat} {base : Base} (hget : record.bases[i]? = some base) :
    ∃ m, l.base? i = some m := by
  have hl := value_layoutByKind_of_answer hclosed hrecord h
  obtain ⟨bases, placements, hresolves⟩ := layoutByKind_resolves hl
  have hlists := hresolves.lists (hclosed.unionBases r record hrecord) hl
  exact hlists.exists_member?_iff.mpr
    (Record.base_mem_placedMembers.mpr (List.getElem?_eq_some_iff.mp hget).1)

/-- **One step of the search finds the first path**, if the searches that it starts in contained
records do. What it goes into has a layout, which lies within that of the record. -/
theorem yields_locateStep {depth : Nat} (hrecord : c.schema.records.get? r = some record)
    (h : c.answer r = .ok (.ok l)) (hplace : place.offset.count + 8 * l.size.count < 2 ^ 64)
    (hsearch : ∀ r', Contains c.schema.records r r' → ∀ l' inner, c.answer r' = .ok (.ok l') →
      inner.offset.count + 8 * l'.size.count < 2 ^ 64 →
        Yields c.answer (c.locateWithin name depth r' inner)
          (FindsFirst (c.schema.Names name r') inner.path)) :
    Yields c.answer (c.locateWithin name (depth + 1) r place)
      (FindsFirst (c.schema.Names name r) place.path) := by
  have hinto {m : PlacedMember} (hm : m ∈ l.members) : ∃ inner, place.into m = .ok inner := by
    have hstop := stop_le_of_answer hclosed hrecord h hm
    exact exists_into (by omega)
  have hlayout : Yields c.answer (LayoutT.layoutOf r) (· = l) :=
    ⟨l, by rw [value_layoutOf, h], rfl⟩
  refine hlayout.bind fun l' hl' => ?_
  cases hl'
  refine (yields_liftM (Arena.get_eq_ok_iff.mpr hrecord)).bind fun record' hrecord' => ?_
  cases hrecord'
  refine (yields_locateInFields (c := c) (fun j field hget hnone => ?_)
    (fun j field m hget hm => ?_) record.fields rfl).bind fun result hresult => ?_
  · obtain ⟨hname, hty⟩ := name_of_field?_eq_none hclosed hrecord h hget hnone
    exact ⟨fun hnamed => (nomatch hname.symm.trans hnamed), hty⟩
  · obtain ⟨inner, hinner⟩ := hinto (RecordLayout.mem_of_member? hm).1
    refine ⟨inner, hinner, fun r' _ hty => ?_⟩
    obtain ⟨l', hl', hencloses⟩ := field_encloses hclosed hrecord h hget hty hm
    have hoffset := (into_eq_ok hinner).2
    refine hsearch r' ?_ l' inner hl' (by omega)
    exact contains_of_asRecord? hrecord (List.mem_of_getElem? hget) (by rw [hty]; rfl)
  · cases result with
    | some found => exact yields_pure (Schema.findsFirst_of_fields hrecord hresult)
    | none =>
      rw [Schema.names_eq_namesInBases hrecord hresult]
      refine yields_locateInBases (c := c)
        (fun j base hget => exists_base? hclosed hrecord h hget)
        (fun j base m hget hm => ?_) record.bases rfl
      obtain ⟨inner, hinner⟩ := hinto (RecordLayout.mem_of_member? hm).1
      refine ⟨inner, hinner, ?_⟩
      obtain ⟨l', hl', hencloses⟩ := base_encloses hclosed hrecord h hget hm
      have hoffset := (into_eq_ok hinner).2
      exact hsearch base.record (.base hrecord (List.mem_of_getElem? hget)) l' inner hl' (by omega)

/-- **A search finds the first path to a field of the name**, in every record with a layout that
ends in range where it is laid. -/
theorem yields_locateWithin (h : c.answer r = .ok (.ok l))
    (hplace : place.offset.count + 8 * l.size.count < 2 ^ 64) :
    Yields c.answer (c.locateWithin name c.maxDepth r place)
      (FindsFirst (c.schema.Names name r) place.path) := by
  have hr : c.schema.records.contains r = true := by
    rw [answer_eq hclosed] at h
    obtain ⟨record, hrecord, -⟩ := recordLayout_eq_ok h
    exact Arena.contains_iff_get?.mpr ⟨record, hrecord⟩
  refine hclosed.induction_on_depth
    (motive := fun r depth => ∀ l place, c.answer r = .ok (.ok l) →
      place.offset.count + 8 * l.size.count < 2 ^ 64 →
        Yields c.answer (c.locateWithin name depth r place)
          (FindsFirst (c.schema.Names name r) place.path))
    (fun r depth hr ih l place h hplace => ?_) hr (Nat.le_succ _) l place h hplace
  obtain ⟨record, hrecord⟩ := Arena.contains_iff_get?.mp hr
  exact yields_locateStep hclosed hrecord h hplace ih

/-- A search traps exactly if its record does, ends in the error of the record exactly if that has
one, and yields the first path to a field of the name if the record has a layout. -/
theorem locate_iff (name : String) :
    (∀ t, value c.answer (c.locate r name) = .error t ↔ c.answer r = .error t) ∧
    (∀ e, value c.answer (c.locate r name) = .ok (.error e) ↔ c.answer r = .ok (.error e)) ∧
    ∀ l, c.answer r = .ok (.ok l) →
      Yields c.answer (c.locate r name) (FindsFirst (c.schema.Names name r) []) := by
  cases h : c.answer r with
  | error t =>
    have hvalue : value c.answer (c.locate r name) = .error t := by
      rw [locate, maxDepth, locateWithin, value_bind, value_layoutOf, h]
      rfl
    simp [hvalue]
  | ok a =>
    cases a with
    | error e =>
      have hvalue : value c.answer (c.locate r name) = .ok (.error e) := by
        rw [locate, maxDepth, locateWithin, value_bind, value_layoutOf, h]
        rfl
      simp [hvalue]
    | ok l =>
      have haccounted : l.Accounted := HasAnswer.accounted ((hasAnswer_iff hclosed).mpr h)
      have hyields : Yields c.answer (c.locate r name) (FindsFirst (c.schema.Names name r) []) := by
        refine yields_locateWithin hclosed h ?_
        rw [Quantity.count_zero, Nat.zero_add]
        exact haccounted.bits_lt
      obtain ⟨found, hfound, hfirst⟩ := hyields
      simp only [hfound, reduceCtorEq, implies_true, true_and, Except.ok.injEq]
      exact fun _ _ => ⟨found, hfound, hfirst⟩

end Closed

/-! ### Fields that are found -/

/-- A member that a search goes into begins the paths that the record shows behind it. -/
theorem Crosses.shows {r r' : RecordId} {m : PlacedMember} (h : c.Crosses r m r')
    {path : List Member} {field : Field} (hshows : c.schema.Shows r' path field) :
    c.schema.Shows r (m.member :: path) field := by
  cases h with
  | field layout found get isAnonymous ty member =>
    rw [(RecordLayout.mem_of_member? member).2]
    exact .anonymous found get isAnonymous (Ty.asRecord?_eq_some_iff.mp ty) hshows
  | base layout found get record_eq member =>
    rw [(RecordLayout.mem_of_member? member).2]
    exact .base found get (record_eq ▸ hshows)

/-- A field that is found is shown at the path of its chain. -/
theorem Finds.shows {r : RecordId} {ms : List PlacedMember} {m : PlacedMember} {field : Field}
    (h : c.Finds name r ms m field) :
    c.schema.Shows r ((ms ++ [m]).map (·.member)) field ∧ field.name = some name := by
  obtain ⟨chain, -, hrecord, hget, hnamed, hm⟩ := h
  refine ⟨?_, hnamed⟩
  induction chain with
  | here r =>
    rw [List.nil_append, List.map_singleton, (RecordLayout.mem_of_member? hm).2]
    exact .own hrecord hget
  | into step rest ih => exact step.shows (ih hrecord)

end LayoutContext

namespace Session.Reachable

variable {d : Declarations} {schema : Schema} {profile : Profile} {settings : SinkSettings}
  {s : Session}

/-- **The search for a name takes the first field in declared order, and fails only with its
record.** In every session over a built schema, a search ends in an error, or traps, exactly if the
record does. Otherwise it has a result: nothing, if the record shows no field of the name, and the
field at the first path to one if it does. The place that is found has this path, the extent of the
field in the layout of its own record, and the type that the field is declared with. -/
theorem locate_first (hclose : d.close = .ok schema) (hs : Reachable schema profile settings s)
    (r : RecordId) (name : String) :
    (∀ t, s.locate r name = .error t ↔ s.record r = .error t) ∧
    (∀ e, (∃ s', s.locate r name = .ok (.error e, s')) ↔ ∃ s', s.record r = .ok (.error e, s')) ∧
    ∀ l s', s.record r = .ok (.ok l, s') → ∃ found s'', s.locate r name = .ok (.ok found, s'') ∧
      (found = none ↔ ∀ path field, schema.Shows r path field → field.name ≠ some name) ∧
      ∀ place, found = some place → ∃ ms m field, s.context.Finds name r ms m field ∧
        schema.Shows r place.path field ∧ field.name = some name ∧
        place.path = (ms ++ [m]).map (·.member) ∧
        place.offset.count = ((ms ++ [m]).map (·.offset.count)).sum ∧
        place.extent = m.extent ∧ place.ty = field.ty ∧
        ∀ path other, schema.Shows r path other → other.name = some name →
          path = place.path ∨ List.Lex Member.Precedes place.path path := by
  obtain ⟨hclosed, -⟩ := Declarations.close_closed hclose
  have hlocate : (s.locate r name).map Prod.fst =
      LayoutT.value (LayoutContext.answer ⟨schema, profile⟩)
        (LayoutContext.locate ⟨schema, profile⟩ r name) := by
    rw [locate, hs.context_eq]
    exact exec_fst hclosed hs.sound hs.context_eq
  have hrecord : (s.record r).map Prod.fst = LayoutContext.answer ⟨schema, profile⟩ r := by
    rw [← answers_eq hclosed hs.sound hs.context_eq]
    rfl
  obtain ⟨htrap, herror, hyields⟩ :=
    LayoutContext.locate_iff (c := ⟨schema, profile⟩) hclosed (r := r) name
  rw [← hlocate, ← hrecord] at htrap herror
  rw [← hrecord] at hyields
  refine ⟨fun t => ?_, fun e => ?_, fun l s' h => ?_⟩
  · rw [← except_map_fst_eq_error_iff, htrap, except_map_fst_eq_error_iff]
  · rw [← except_map_fst_eq_ok_iff, herror, except_map_fst_eq_ok_iff]
  · obtain ⟨found, hfound, hfirst⟩ := hyields l (except_map_fst_eq_ok_iff.mpr ⟨s', h⟩)
    rw [← hlocate] at hfound
    obtain ⟨s'', hfound⟩ := except_map_fst_eq_ok_iff.mp hfound
    refine ⟨found, s'', hfound, ?_, fun place hplace => ?_⟩
    · cases found with
      | none =>
        exact iff_of_true rfl fun path field hshows hname => hfirst path ⟨field, hshows, hname⟩
      | some place =>
        obtain ⟨path, -, ⟨field, hshows, hname⟩, -⟩ := hfirst
        exact iff_of_false (Option.some_ne_none place) fun hall => hall path field hshows hname
    · subst hplace
      obtain ⟨path, hpath, -, hothers⟩ := hfirst
      rw [List.nil_append] at hpath
      obtain ⟨-, depth, hvalue⟩ := exec_sound hs.sound hfound
      obtain ⟨ms, m, field, hfinds, hchain, hoffset, hextent, hty⟩ :=
        LayoutContext.locateWithin_eq_ok hvalue
      rw [Quantity.count_zero, Nat.zero_add] at hoffset
      obtain ⟨hshows, hname⟩ := hfinds.shows
      rw [hs.context_eq, ← List.nil_append (List.map _ _), ← hchain] at hshows
      refine ⟨ms, m, field, hfinds, hshows, hname, hchain, hoffset, hextent, hty, ?_⟩
      rw [hpath]
      exact fun path' other hother hname' => hothers path' ⟨other, hother, hname'⟩

theorem locate_first_mixed :
    (∃ place s', (Session.start Schema.mixed .lp64 .keepAll).locate (.of 2) "letter" =
        .ok (.ok (some place), s') ∧ place.path = [.field 0, .field 1] ∧
      ∀ path other, Schema.mixed.Shows (.of 2) path other → other.name = some "letter" →
        path = place.path ∨ List.Lex Member.Precedes place.path path) ∧
    (∀ path field, Schema.mixed.Shows (.of 2) path field → field.name ≠ some "digit") ∧
    ∃ t, (Session.start Schema.mixed .lp64 .keepAll).locate (.of 3) "letter" = .error t := by
  obtain ⟨l, s', h⟩ : ∃ l s', (Session.start Schema.mixed .lp64 .keepAll).record (.of 2) =
      .ok (.ok l, s') := ⟨_, _, rfl⟩
  have hreachable :
      Reachable Schema.mixed .lp64 .keepAll (Session.start Schema.mixed .lp64 .keepAll) := .start
  refine ⟨?_, ?_, ?_⟩
  · obtain ⟨found, s'', hfound, -, hplace⟩ :=
      (locate_first Declarations.close_mixed hreachable (.of 2) "letter").2.2 l s' h
    obtain ⟨place, hsome, hpath⟩ : ∃ place, found = some place ∧
        place.path = [.field 0, .field 1] := by
      cases hfound
      exact ⟨_, rfl, rfl⟩
    obtain ⟨-, -, -, -, -, -, -, -, -, -, hfirst⟩ := hplace place hsome
    exact ⟨place, s'', hsome ▸ hfound, hpath, hfirst⟩
  · obtain ⟨found, s'', hfound, hnone, -⟩ :=
      (locate_first Declarations.close_mixed hreachable (.of 2) "digit").2.2 l s' h
    refine hnone.mp ?_
    cases hfound
    rfl
  · obtain ⟨t, ht⟩ : ∃ t, (Session.start Schema.mixed .lp64 .keepAll).record (.of 3) = .error t :=
      ⟨_, rfl⟩
    exact ⟨t, ((locate_first Declarations.close_mixed hreachable (.of 3) "letter").1 t).mpr ht⟩

end Session.Reachable

end AbiLayout
