import AbiLayout.Proofs.Closing
import Mathlib.Data.List.Chain
import Mathlib.Data.List.Nodup
import Mathlib.Logic.Relation
import Mathlib.Order.WellFounded

/-!
# Cycles of containment

That a record directly contains another one is a relation on the records of a table, by a base, by
a field of record type or by the elements of an array. The check of a table accepts it exactly when
this relation has no cycle, and otherwise names a cycle: the records along the path of the search,
from the one that is met again.

## Main definitions

* `Ty.Holds`, `Contains`: what a value of a type, and a record, contains directly.
* `IsCycle`: the records along a cycle, the first one repeated at the end.

## Main results

* `mem_containedIn_iff`: the records that the search follows are those directly contained.
* `wellFounded_of_layered`: over a layered table, containment is well founded.
* `Schema.Closed.induction_on_depth`: induction along containment, with its depth.
* `searchCycle_eq_error`: what the search reports is a cycle.
* `Declarations.checkAcyclic_iff_acyclic`: the check is sound and complete, and gives a cycle.
-/

namespace AbiLayout

open Relation

/-! ### Direct containment -/

/-- A value of the type holds a record by value: the type is that record, or an array, of any
length, whose elements hold it. A pointer holds nothing. -/
inductive Ty.Holds : Ty → RecordId → Prop
  | record (r : RecordId) : Holds (.record r) r
  | element {element : Ty} {r : RecordId} (count : Option Nat) (h : Holds element r) :
      Holds (.array element count) r

theorem Ty.containedRecord?_eq_some_iff {ty : Ty} {r : RecordId} :
    ty.containedRecord? = some r ↔ ty.Holds r := by
  induction ty with
  | primitive | voidPointer | pointerTo | bitfield =>
    exact ⟨fun h => (nomatch h), fun h => (nomatch h)⟩
  | array element count ih =>
    rw [containedRecord?, ih]
    exact ⟨.element count, fun | .element _ h => h⟩
  | record r' =>
    constructor
    · intro h
      cases h
      exact .record _
    · rintro ⟨⟩
      rfl

/-- The record `r` of a table directly contains another one by value: as a base, or in a field. -/
inductive Contains (records : Arena RecordId Record) (r : RecordId) : RecordId → Prop
  | base {record : Record} {base : Base} (hget : records.get? r = some record)
      (hbase : base ∈ record.bases) : Contains records r base.record
  | field {record : Record} {field : Field} {r' : RecordId} (hget : records.get? r = some record)
      (hfield : field ∈ record.fields) (hholds : field.ty.Holds r') : Contains records r r'

variable {records : Arena RecordId Record} {r r' : RecordId}

theorem Record.mem_contained_iff {record : Record} :
    r' ∈ record.contained ↔ (∃ base ∈ record.bases, base.record = r') ∨
      ∃ field ∈ record.fields, field.ty.Holds r' := by
  simp only [contained, List.mem_append, List.mem_map, List.mem_filterMap,
    Ty.containedRecord?_eq_some_iff]

/-- The records that the search follows are those directly contained. -/
theorem mem_containedIn_iff : r' ∈ containedIn records r ↔ Contains records r r' := by
  rw [containedIn]
  constructor
  · intro h
    split at h
    · rename_i record hget
      rcases Record.mem_contained_iff.mp h with ⟨base, hbase, rfl⟩ | ⟨field, hfield, hholds⟩
      · exact .base hget hbase
      · exact .field hget hfield hholds
    · cases h
  · intro h
    cases h with
    | base hget hbase =>
      rw [hget]
      exact Record.mem_contained_iff.mpr (.inl ⟨_, hbase, rfl⟩)
    | field hget hfield hholds =>
      rw [hget]
      exact Record.mem_contained_iff.mpr (.inr ⟨_, hfield, hholds⟩)

/-- A record that contains something is in the table. -/
theorem Contains.exists_record (h : Contains records r r') :
    ∃ record, records.get? r = some record := by
  cases h with
  | base hget _ => exact ⟨_, hget⟩
  | field hget _ _ => exact ⟨_, hget⟩

/-- Contained records are in the table, if those of each record in it are. -/
theorem Contains.contains_of_forall
    (h : ∀ record ∈ records.values.toList, ∀ r' ∈ record.contained, records.contains r' = true)
    (hr : Contains records r r') : records.contains r' = true := by
  obtain ⟨record, hget⟩ := hr.exists_record
  have hmem : r' ∈ record.contained := by
    rw [← mem_containedIn_iff, containedIn, hget] at hr
    exact hr
  exact h record (Array.mem_toList_iff.mpr (Array.mem_of_getElem? hget)) r' hmem

/-- A record of a closed schema contains only records of the schema. -/
theorem Schema.Closed.contains {s : Schema} (hs : s.Closed) (h : Contains s.records r r') :
    s.records.contains r' = true := by
  cases h with
  | base hget hbase => exact hs.base r _ hget _ hbase
  | field hget hfield hholds =>
    exact (hs.field r _ hget _ hfield).contains (Ty.containedRecord?_eq_some_iff.mpr hholds)

/-! ### Tables without cycles -/

/-- What holds of a record, one level deeper than of all that it contains, holds of the records of a
layered list at the depth of the list. -/
theorem Layered.induction_on_depth {motive : RecordId → Nat → Prop}
    (step : ∀ r depth, records.contains r = true →
      (∀ r', Contains records r r' → motive r' depth) → motive r (depth + 1)) {rs : List RecordId}
    (h : Layered records rs) : ∀ r ∈ rs, ∀ depth, rs.length ≤ depth → motive r depth := by
  induction rs with
  | nil => exact fun _ hr => nomatch hr
  | cons r rs ih =>
    obtain ⟨hr, hbehind, htail⟩ := h
    -- the record in front takes one level; those behind it have more depth left than they need
    refine List.forall_mem_cons.mpr ⟨fun depth hdepth => ?_, fun r' hr' depth hdepth =>
      ih htail r' hr' depth (Nat.le_of_succ_le hdepth)⟩
    obtain ⟨depth, rfl⟩ := Nat.exists_eq_succ_of_ne_zero (Nat.ne_of_gt (Nat.zero_lt_of_lt hdepth))
    exact step r depth hr fun r' hr' => ih htail r' (hbehind r' (mem_containedIn_iff.mpr hr')) depth
      (Nat.le_of_succ_le_succ hdepth)

/-- Over the records of a layered list, containment is well founded. -/
theorem Layered.acc {rs : List RecordId} (h : Layered records rs) {r : RecordId} (hr : r ∈ rs) :
    Acc (Function.swap (Contains records)) r :=
  h.induction_on_depth (motive := fun r _ => Acc (Function.swap (Contains records)) r)
    (fun r _ _ ih => ⟨r, ih⟩) r hr rs.length (Nat.le_refl _)

/-- Where all records of a table are layered, containment is well founded. -/
theorem wellFounded_of_layered {order : List RecordId} (horder : Layered records order)
    (hmem : ∀ r, records.contains r = true → r ∈ order) :
    WellFounded (Function.swap (Contains records)) := by
  refine ⟨fun r => ?_⟩
  by_cases hr : records.contains r = true
  · exact horder.acc (hmem r hr)
  · refine ⟨r, fun r' hr' => absurd ?_ hr⟩
    exact Arena.contains_iff_get?.mpr (Contains.exists_record hr')

/-- A well-founded containment has no cycles. -/
theorem not_transGen_self (h : WellFounded (Function.swap (Contains records))) (r : RecordId) :
    ¬TransGen (Contains records) r r := fun hr =>
  h.transGen.irrefl.irrefl r (transGen_swap.mpr hr)

/-- Containment in a closed schema is well founded. -/
theorem Schema.Closed.wellFounded {s : Schema} (hs : s.Closed) :
    WellFounded (Function.swap (Contains s.records)) := by
  obtain ⟨order, horder, -, hmem⟩ := hs.layered
  exact wellFounded_of_layered horder hmem

/-- **Induction along containment, with its depth.** What holds of a record, one level deeper than
of all that it contains, holds of every record of a closed schema at the depth of its table. -/
theorem Schema.Closed.induction_on_depth {s : Schema} (hs : s.Closed)
    {motive : RecordId → Nat → Prop}
    (step : ∀ r depth, s.records.contains r = true →
      (∀ r', Contains s.records r r' → motive r' depth) → motive r (depth + 1))
    (hr : s.records.contains r = true) {depth : Nat} (hdepth : s.records.size ≤ depth) :
    motive r depth := by
  obtain ⟨order, horder, hnodup, hmem⟩ := hs.layered
  have hle := Arena.length_le_size hnodup horder.contains
  exact horder.induction_on_depth step r (hmem r hr) depth (hle.trans hdepth)

/-! ### Cycles found -/

/-- The records along a cycle of containment, each directly containing the next one, the first one
repeated at the end and no other record repeated. -/
def IsCycle (records : Arena RecordId Record) (cycle : List RecordId) : Prop :=
  ∃ r rest, cycle = r :: rest ++ [r] ∧ (r :: rest).Nodup ∧ cycle.IsChain (Contains records)

/-- The ends of a chain are related by its transitive closure. -/
theorem transGen_of_isChain {α : Type} {R : α → α → Prop} {a b : α} :
    (l : List α) → (a :: l ++ [b]).IsChain R → TransGen R a b
  | [], h => .single (List.isChain_pair.mp h)
  | _ :: l, h => by
    obtain ⟨hstep, htail⟩ := List.isChain_cons_cons.mp h
    exact .head hstep (transGen_of_isChain l htail)

/-- Every element of a chain but the last is related to another one. -/
theorem exists_rel_of_isChain {α : Type} {R : α → α → Prop} {b : α} :
    {l : List α} → (l ++ [b]).IsChain R → ∀ a ∈ l, ∃ a', R a a'
  | [], _, _, ha => nomatch ha
  | [_], h, _, ha => ⟨b, List.mem_singleton.mp ha ▸ List.isChain_pair.mp h⟩
  | _ :: c :: _, h, _, ha => by
    obtain ⟨hstep, htail⟩ := List.isChain_cons_cons.mp h
    rcases List.mem_cons.mp ha with rfl | ha
    · exact ⟨c, hstep⟩
    · exact exists_rel_of_isChain htail _ ha

theorem IsCycle.exists_transGen {cycle : List RecordId} (h : IsCycle records cycle) :
    ∃ r, TransGen (Contains records) r r := by
  obtain ⟨r, rest, rfl, -, hchain⟩ := h
  exact ⟨r, transGen_of_isChain rest hchain⟩

/-- The part of a path from a record on starts with that record. -/
theorem exists_dropWhile_eq_cons {path : List RecordId} (h : r ∈ path) :
    ∃ rest, path.dropWhile (· ≠ r) = r :: rest := by
  induction path with
  | nil => cases h
  | cons k path ih =>
    by_cases hk : k = r
    · exact ⟨path, by simp [hk]⟩
    · obtain ⟨rest, hrest⟩ := ih ((List.mem_cons.mp h).resolve_left (Ne.symm hk))
      refine ⟨rest, ?_⟩
      rwa [List.dropWhile_cons_of_pos (by simpa using hk)]

/-- **What the search reports is a cycle.** The path is a chain that leads to the record at hand and
does not repeat a record, so that its part from a repeated record on closes a cycle. -/
theorem searchCycle_eq_error {depth : Nat} {path finished cycle : List RecordId}
    (hnodup : path.Nodup) (hchain : (path ++ [r]).IsChain (Contains records))
    (h : searchCycle records depth path finished r = .error cycle) : IsCycle records cycle := by
  induction depth generalizing path finished r with
  | zero => cases h
  | succ depth ih =>
    rw [searchCycle] at h
    by_cases hdone : r ∈ finished
    · rw [if_pos hdone] at h
      cases h
    rw [if_neg hdone] at h
    by_cases hcycle : r ∈ path
    · rw [if_pos hcycle] at h
      cases h
      obtain ⟨rest, hrest⟩ := exists_dropWhile_eq_cons hcycle
      have hsuffix : r :: rest <:+ path := hrest ▸ List.dropWhile_suffix _
      refine ⟨r, rest, by rw [hrest], hnodup.sublist hsuffix.sublist, ?_⟩
      rw [hrest]
      obtain ⟨front, rfl⟩ := hsuffix
      rw [List.append_assoc] at hchain
      exact hchain.right_of_append
    · rw [if_neg hcycle] at h
      rcases except_bind_eq_error_iff.mp h with h | ⟨_, -, h⟩
      · obtain ⟨r', hr', finished', h⟩ := foldlM_eq_error h
        have hnodup' : (path ++ [r]).Nodup :=
          List.Nodup.append hnodup (List.nodup_singleton r) (List.disjoint_singleton.mpr hcycle)
        refine ih hnodup' ?_ h
        refine hchain.append (List.isChain_singleton r') ?_
        simpa using mem_containedIn_iff.mp hr'
      · cases h

theorem firstCycle?_isCycle {cycle : List RecordId} (h : firstCycle? records = some cycle) :
    IsCycle records cycle := by
  unfold firstCycle? at h
  split at h
  · cases h
  · rename_i found hfound
    cases h
    obtain ⟨r, -, finished, h⟩ := foldlM_eq_error hfound
    exact searchCycle_eq_error List.nodup_nil (List.isChain_singleton r) h

/-- The search finds a cycle exactly when there is one, if all contained records are in the
table. -/
theorem firstCycle?_eq_none_iff
    (hown : ∀ r r', Contains records r r' → records.contains r' = true) :
    firstCycle? records = none ↔ ∀ r, ¬TransGen (Contains records) r r := by
  constructor
  · intro h
    obtain ⟨order, horder, -, hmem⟩ :=
      firstCycle?_layered (fun r r' hr' => hown r r' (mem_containedIn_iff.mp hr')) h
    exact not_transGen_self (wellFounded_of_layered horder hmem)
  · intro hacyclic
    cases h : firstCycle? records with
    | none => rfl
    | some cycle =>
      obtain ⟨r, hr⟩ := (firstCycle?_isCycle h).exists_transGen
      exact absurd hr (hacyclic r)

/-! ### The check -/

/-- The record of an id has a name in messages. -/
def Names (records : Arena RecordId Record) (r : RecordId) (name : String) : Prop :=
  ∃ record, records.get? r = some record ∧ name = record.label

namespace Declarations

theorem nameIn_names (h : ∃ record, records.get? r = some record) :
    Names records r (nameIn records r) := by
  obtain ⟨record, hget⟩ := h
  exact ⟨record, hget, by rw [nameIn, hget]⟩

/-- **The check for cycles is sound and complete, and gives a cycle.** In a table whose records
contain only records of the table, it accepts exactly when no record contains itself, directly or
through others. Otherwise it reports the names of the records along a cycle `r₀, …, rₖ = r₀`, with
`r₀, …, rₖ₋₁` distinct and each directly containing the next, and the name of `r₀`. -/
theorem checkAcyclic_iff_acyclic
    (hown : ∀ r r', Contains records r r' → records.contains r' = true) :
    (checkAcyclic records = .ok () ↔ ∀ r, ¬TransGen (Contains records) r r) ∧
    ∀ e, checkAcyclic records = .error e →
      ∃ r rest name path, e = .valueCycle name path ∧ (r :: rest).Nodup ∧
        (r :: rest ++ [r]).IsChain (Contains records) ∧ Names records r name ∧
        List.Forall₂ (Names records) (r :: rest ++ [r]) path := by
  rw [← firstCycle?_eq_none_iff hown, checkAcyclic]
  cases h : firstCycle? records with
  | none =>
    refine ⟨⟨fun _ => rfl, fun _ => rfl⟩, fun e he => ?_⟩
    cases he
  | some cycle =>
    refine ⟨⟨fun he => ?_, fun hn => ?_⟩, fun e he => ?_⟩
    · cases he
    · cases hn
    cases he
    obtain ⟨r, rest, rfl, hnodup, hchain⟩ := firstCycle?_isCycle h
    have hnames (k : RecordId) (hk : k ∈ r :: rest) : Names records k (nameIn records k) := by
      obtain ⟨k', hcontains⟩ := exists_rel_of_isChain hchain k hk
      exact nameIn_names hcontains.exists_record
    refine ⟨r, rest, _, _, rfl, hnodup, hchain, hnames r List.mem_cons_self, ?_⟩
    refine List.forall₂_map_right_iff.mpr (List.forall₂_same.mpr fun k hk => hnames k ?_)
    rcases List.mem_append.mp hk with hk | hk
    · exact hk
    · exact List.mem_singleton.mp hk ▸ List.mem_cons_self

/-- Two structs that contain each other, one through an array and the other as a base, behind a
third one that they only point to. -/
def knotted : Arena RecordId Record :=
  ⟨#[⟨some "list", .struct, [], [⟨some "head", .record (.of 1), false⟩]⟩,
     ⟨some "node", .struct, [], [⟨some "next", .array (.record (.of 2)) (some 4), false⟩]⟩,
     ⟨some "link", .struct, [⟨.of 1, false⟩],
       [⟨some "owner", .pointerTo (.record (.of 0)), false⟩]⟩], by decide⟩

theorem checkAcyclic_knotted :
    checkAcyclic knotted = .error (.valueCycle "node" ["node", "link", "node"]) ∧
      (¬∀ r, ¬TransGen (Contains knotted) r r) ∧
      ∃ r rest, (r :: rest ++ [r]).IsChain (Contains knotted) ∧
        List.Forall₂ (Names knotted) (r :: rest ++ [r]) ["node", "link", "node"] := by
  have hcheck : checkAcyclic knotted = .error (.valueCycle "node" ["node", "link", "node"]) := rfl
  obtain ⟨hiff, hcycle⟩ := @checkAcyclic_iff_acyclic knotted
    fun _ _ => Contains.contains_of_forall (by decide)
  obtain ⟨r, rest, name, path, heq, -, hchain, -, hnames⟩ := hcycle _ hcheck
  cases heq
  refine ⟨hcheck, ?_, r, rest, hchain, hnames⟩
  rw [← hiff, hcheck]
  exact fun h => nomatch h

end Declarations

end AbiLayout
