import AbiLayout.Arena
import AbiLayout.Proofs.Outcome
import Mathlib.Data.List.Perm.Subperm
import Mathlib.Tactic.Common

/-!
# Entries of arenas

The entries of an arena are its values, each under the key that finds it. There are as many keys as
values. Storing a value, changing one and mapping all keep the others under their keys.

## Main results

* `Arena.mem_entries_iff`: an entry is a key with the value that it finds.
* `Arena.mem_keys_iff`, `Arena.length_keys`: the keys are those in use.
* `Arena.push_eq_ok_iff`, `Arena.get?_modify`: one value more, and one value changed.
* `Arena.ext_get?`: an arena is what it holds under each key.
* `Arena.mapM_eq_ok_iff`, `Arena.exists_mapM_eq_ok`: the images of all values.
-/

namespace AbiLayout.Arena

open ArenaKey

variable {κ : Type} [ArenaKey κ] {α : Type}

/-- The entries from index `i` on are the values of the list under the keys from there on. -/
theorem mem_entriesFrom_iff {k : κ} {v : α} {l : List α} {i : Nat}
    (h : i + l.length ≤ maxIndex κ + 1) :
    (k, v) ∈ entriesFrom i l h ↔ ∃ j, index k = i + j ∧ l[j]? = some v := by
  induction l generalizing i with
  | nil => simp [entriesFrom]
  | cons w l ih =>
    rw [entriesFrom, List.mem_cons, ih]
    constructor
    · rintro (heq | ⟨j, hindex, hget⟩)
      · cases heq
        exact ⟨0, index_ofIndex _ _, rfl⟩
      · exact ⟨j + 1, by omega, hget⟩
    · rintro ⟨j, hindex, hget⟩
      cases j with
      | zero =>
        left
        cases hget
        refine Prod.ext ?_ rfl
        rw [← index_inj, hindex, index_ofIndex, Nat.add_zero]
      | succ j => exact .inr ⟨j, by omega, hget⟩

/-- An entry is a key with the value that it finds. -/
theorem mem_entries_iff {a : Arena κ α} {k : κ} {v : α} :
    (k, v) ∈ a.entries ↔ a.get? k = some v := by
  rw [entries, mem_entriesFrom_iff, get?]
  constructor
  · rintro ⟨j, hindex, hget⟩
    rw [hindex, Nat.zero_add, ← Array.getElem?_toList]
    exact hget
  · intro hget
    exact ⟨index k, (Nat.zero_add _).symm, by rw [Array.getElem?_toList]; exact hget⟩

/-- A key is in use exactly when it finds a value. -/
theorem contains_iff_get? {a : Arena κ α} {k : κ} :
    a.contains k = true ↔ ∃ v, a.get? k = some v := by
  rw [← Option.isSome_iff_exists, Option.isSome_iff_ne_none, ne_eq, get?_eq_none_iff,
    Bool.not_eq_false]

/-- The keys are those in use. -/
theorem mem_keys_iff {a : Arena κ α} {k : κ} : k ∈ a.keys ↔ a.contains k = true := by
  rw [keys, contains_iff_get?, List.mem_map]
  constructor
  · rintro ⟨⟨k', v⟩, hmem, rfl⟩
    exact ⟨v, mem_entries_iff.mp hmem⟩
  · rintro ⟨v, hget⟩
    exact ⟨(k, v), mem_entries_iff.mpr hget, rfl⟩

theorem length_entriesFrom {l : List α} {i : Nat} (h : i + l.length ≤ maxIndex κ + 1) :
    (entriesFrom i l h : List (κ × α)).length = l.length := by
  induction l generalizing i with
  | nil => rfl
  | cons v l ih => rw [entriesFrom, List.length_cons, ih, List.length_cons]

/-- There are as many keys as values. -/
theorem length_keys (a : Arena κ α) : a.keys.length = a.size := by
  rw [keys, List.length_map, entries, length_entriesFrom, Array.length_toList, size]

/-- A list of distinct keys in use is no longer than the arena. -/
theorem length_le_size {a : Arena κ α} [DecidableEq κ] {ks : List κ} (hnodup : ks.Nodup)
    (hmem : ∀ k ∈ ks, a.contains k = true) : ks.length ≤ a.size := by
  rw [← a.length_keys]
  exact (List.subperm_of_subset hnodup fun k hk => mem_keys_iff.mpr (hmem k hk)).length_le

/-! ### One value -/

/-- Storing puts a value behind all others, and its key is the number of those. -/
theorem push_eq_ok_iff {a b : Arena κ α} {v : α} {k : κ} :
    a.push v = .ok (k, b) ↔ index k = a.size ∧ b.values = a.values.push v := by
  rw [push, tryPush]
  constructor
  · intro h
    by_cases hsize : a.values.size ≤ maxIndex κ
    · rw [dif_pos hsize] at h
      cases h
      exact ⟨index_ofIndex _ _, rfl⟩
    · rw [dif_neg hsize] at h
      cases h
  · rintro ⟨hindex, hvalues⟩
    rw [size] at hindex
    have hsize : a.values.size ≤ maxIndex κ := hindex ▸ index_le k
    have hkey : ofIndex a.values.size hsize = k := by rw [← index_inj, index_ofIndex, hindex]
    obtain ⟨values, hle⟩ := b
    obtain rfl : values = a.values.push v := hvalues
    rw [dif_pos hsize, hkey]

/-- There is a key for one more value as long as not all are in use. -/
theorem exists_push_eq_ok {a : Arena κ α} (v : α) (h : a.size ≤ maxIndex κ) :
    ∃ k b, a.push v = .ok (k, b) :=
  ⟨ofIndex a.size h, ⟨a.values.push v, by rw [Array.size_push]; exact Nat.succ_le_succ h⟩,
    push_eq_ok_iff.mpr ⟨index_ofIndex _ _, rfl⟩⟩

/-- Changing the value of one key leaves the others as they are. -/
theorem get?_modify (a : Arena κ α) (k j : κ) (f : α → α) :
    (a.modify k f).get? j = if index k = index j then (a.get? j).map f else a.get? j := by
  rw [get?, modify, Array.getElem?_modify]
  rfl

/-- An arena is what it holds under each key. -/
theorem ext_get? {a b : Arena κ α} (h : ∀ k, a.get? k = b.get? k) : a = b := by
  have hvalues : a.values = b.values := by
    refine Array.ext_getElem? fun i => ?_
    by_cases hi : i ≤ maxIndex κ
    · simpa only [get?, index_ofIndex] using h (ofIndex i hi)
    · have hsize (c : Arena κ α) : c.values[i]? = none :=
        Array.getElem?_eq_none_iff.mpr (Nat.le_trans c.size_le (Nat.lt_of_not_le hi))
      rw [hsize a, hsize b]
  cases a
  cases b
  cases hvalues
  rfl

/-! ### All values -/

variable {ε β : Type} {f : κ → α → Except ε β}

/-- Where values are mapped in order, each has its image at its place. -/
theorem mapFromM_eq_ok {l : List α} {i : Nat} {h : i + l.length ≤ maxIndex κ + 1}
    {ws : { l' : List β // l'.length = l.length }} (hmap : mapFromM f i l h = .ok ws) {k : κ}
    {j : Nat} {v : α} (hk : index k = i + j) (hget : l[j]? = some v) :
    ∃ w, f k v = .ok w ∧ ws.1[j]? = some w := by
  induction l generalizing i j with
  | nil => simp at hget
  | cons v₀ l ih =>
    obtain ⟨w, hw, hmap⟩ := except_bind_eq_ok_iff.mp hmap
    obtain ⟨⟨ws', hlength⟩, hrest, hmap⟩ := except_bind_eq_ok_iff.mp hmap
    cases hmap
    cases j with
    | zero =>
      cases hget
      have hkey : ofIndex i (by simp only [List.length_cons] at h; omega) = k := by
        rw [← index_inj, index_ofIndex, hk, Nat.add_zero]
      exact ⟨w, hkey ▸ hw, rfl⟩
    | succ j => exact ih hrest (by omega) hget

/-- The images of all values are found under the keys of the values. -/
theorem mapM_eq_ok {a : Arena κ α} {b : Arena κ β} (h : a.mapM f = .ok b) :
    b.size = a.size ∧ ∀ k v, a.get? k = some v → ∃ w, f k v = .ok w ∧ b.get? k = some w := by
  obtain ⟨⟨ws, hlength⟩, hmap, h⟩ := except_bind_eq_ok_iff.mp h
  cases h
  refine ⟨by simpa [size] using hlength, fun k v hget => ?_⟩
  rw [get?, ← Array.getElem?_toList] at hget
  obtain ⟨w, hw, hws⟩ := mapFromM_eq_ok hmap (Nat.zero_add _).symm hget
  exact ⟨w, hw, by simpa [get?] using hws⟩

theorem exists_mapFromM_eq_ok {l : List α} {i : Nat} {h : i + l.length ≤ maxIndex κ + 1}
    (hf : ∀ (k : κ) j v, index k = i + j → l[j]? = some v → ∃ w, f k v = .ok w) :
    ∃ ws, mapFromM f i l h = .ok ws := by
  induction l generalizing i with
  | nil => exact ⟨_, rfl⟩
  | cons v l ih =>
    obtain ⟨w, hw⟩ := hf (ofIndex i (by simp only [List.length_cons] at h; omega)) 0 v
      (index_ofIndex _ _) rfl
    obtain ⟨ws, hws⟩ := ih (i := i + 1) (h := by simp only [List.length_cons] at h; omega)
      fun k j v hk hget => hf k (j + 1) v (by omega) hget
    rw [mapFromM, hw, except_ok_bind, hws]
    exact ⟨_, rfl⟩

/-- All values have images, if each one has. -/
theorem exists_mapM_eq_ok {a : Arena κ α}
    (hf : ∀ k v, a.get? k = some v → ∃ w, f k v = .ok w) : ∃ b, a.mapM f = .ok b := by
  have hfrom (k : κ) (j : Nat) (v : α) (hk : index k = 0 + j)
      (hget : a.values.toList[j]? = some v) : ∃ w, f k v = .ok w := by
    refine hf k v ?_
    rw [get?, hk, Nat.zero_add, ← Array.getElem?_toList, hget]
  obtain ⟨ws, hws⟩ := exists_mapFromM_eq_ok (h := by simpa using a.size_le) hfrom
  rw [mapM, hws]
  exact ⟨_, rfl⟩

/-- The images of all values are the arena that has them under the keys of the values. -/
theorem mapM_eq_ok_iff {a : Arena κ α} {b : Arena κ β} : a.mapM f = .ok b ↔
    b.size = a.size ∧ ∀ k v, a.get? k = some v → ∃ w, f k v = .ok w ∧ b.get? k = some w := by
  refine ⟨mapM_eq_ok, fun ⟨hsize, h⟩ => ?_⟩
  obtain ⟨b', hb'⟩ := exists_mapM_eq_ok fun k v hget => (h k v hget).imp fun _ hw => hw.1
  obtain ⟨hsize', h'⟩ := mapM_eq_ok hb'
  rw [hb']
  refine congrArg Except.ok (ext_get? fun k => ?_)
  cases hget : a.get? k with
  | some v =>
    obtain ⟨w, hw, hbw⟩ := h k v hget
    obtain ⟨w', hw', hbw'⟩ := h' k v hget
    cases hw.symm.trans hw'
    rw [hbw, hbw']
  | none =>
    have hfree (c : Arena κ β) (hc : c.size = a.size) : c.get? k = none := by
      rw [get?_eq_none_iff, contains, decide_eq_false_iff_not] at hget ⊢
      rwa [hc]
    rw [hfree b hsize, hfree b' hsize']

end AbiLayout.Arena
