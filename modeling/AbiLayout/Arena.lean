import AbiLayout.Trap

/-!
# Arenas

An arena holds values in the order in which they were stored and hands out a key for each. Values
are never removed, so a key stays good for as long as the arena, and the keys in use are always an
initial segment of the key type: the `n`-th value stored has the key with index `n`.

A key type is given by `ArenaKey`: a bound on indices and a bijection between the keys and the
indices up to that bound. The fixed-width words are key types, and so is any type made from one,
which keeps the keys of different arenas apart.

## Main definitions

* `ArenaKey`, with instances for `UInt8`, `UInt16`, `UInt32` and `UInt64`; `ArenaKey.ofIndex?`.
* `Arena κ α`: an arena of `α` with keys `κ`, never larger than the key type.
* `Arena.push`, `Arena.tryPush`, `Arena.freshKey`: storing a value, and the key it will have.
* `Arena.get?`, `Arena.get`, `Arena.contains`, `Arena.replace?`, `Arena.set`, `Arena.modify`: one
  value.
* `Arena.keys`, `Arena.entries`, `Arena.mapM`: all values, in order.

## Main results

* `Arena.get?_push`: a stored value is found under its key, and no other key changes.
* `Arena.get?_eq_none_iff`, `Arena.contains_iff`: the keys in use.
-/

namespace AbiLayout

/-- A type whose values are the indices `0, …, maxIndex`. -/
class ArenaKey (κ : Type) where
  /-- The largest index. -/
  maxIndex : Nat
  /-- The index of a key. -/
  index : κ → Nat
  index_le : ∀ k, index k ≤ maxIndex
  /-- The key with a given index. -/
  ofIndex : (i : Nat) → i ≤ maxIndex → κ
  index_ofIndex : ∀ i h, index (ofIndex i h) = i
  ofIndex_index : ∀ k, ofIndex (index k) (index_le k) = k
  /-- How a key is written. -/
  text : κ → String

namespace ArenaKey

attribute [simp] index_ofIndex ofIndex_index

variable {κ : Type} [ArenaKey κ]

/-- The key with index `i`; traps where the key type ends before `i`. -/
def ofIndex? (κ : Type) [ArenaKey κ] (i : Nat) : Except Trap κ :=
  if h : i ≤ maxIndex κ then .ok (ofIndex i h) else .error .keyOutOfRange

theorem index_inj {j k : κ} : index j = index k ↔ j = k := by
  constructor
  · intro h
    rw [← ofIndex_index j, ← ofIndex_index k]
    congr
  · rintro rfl
    rfl

end ArenaKey

instance : ArenaKey UInt8 where
  maxIndex := 0xFF
  index k := k.toNat
  index_le k := Nat.le_sub_one_of_lt k.toNat_lt
  ofIndex i h := UInt8.ofNatLT i (Nat.lt_of_le_of_lt h (by decide))
  index_ofIndex _ _ := rfl
  ofIndex_index _ := rfl
  text k := toString k.toNat

instance : ArenaKey UInt16 where
  maxIndex := 0xFFFF
  index k := k.toNat
  index_le k := Nat.le_sub_one_of_lt k.toNat_lt
  ofIndex i h := UInt16.ofNatLT i (Nat.lt_of_le_of_lt h (by decide))
  index_ofIndex _ _ := rfl
  ofIndex_index _ := rfl
  text k := toString k.toNat

instance : ArenaKey UInt32 where
  maxIndex := 0xFFFF_FFFF
  index k := k.toNat
  index_le k := Nat.le_sub_one_of_lt k.toNat_lt
  ofIndex i h := UInt32.ofNatLT i (Nat.lt_of_le_of_lt h (by decide))
  index_ofIndex _ _ := rfl
  ofIndex_index _ := rfl
  text k := toString k.toNat

instance : ArenaKey UInt64 where
  maxIndex := 0xFFFF_FFFF_FFFF_FFFF
  index k := k.toNat
  index_le k := Nat.le_sub_one_of_lt k.toNat_lt
  ofIndex i h := UInt64.ofNatLT i (Nat.lt_of_le_of_lt h (by decide))
  index_ofIndex _ _ := rfl
  ofIndex_index _ := rfl
  text k := toString k.toNat

open ArenaKey

/-- Values in the order in which they were stored, at most one for each key. -/
structure Arena (κ : Type) [ArenaKey κ] (α : Type) where
  /-- The values; the key of each is its position. -/
  values : Array α
  size_le : values.size ≤ maxIndex κ + 1

namespace Arena

variable {κ : Type} [ArenaKey κ] {α β : Type}

/-- The arena without values. -/
def empty : Arena κ α := ⟨#[], Nat.zero_le _⟩

instance : Inhabited (Arena κ α) := ⟨empty⟩

/-- The number of values. -/
def size (a : Arena κ α) : Nat := a.values.size

/-- Whether there is no value. -/
def isEmpty (a : Arena κ α) : Bool := a.size == 0

/-- How many values are left after passing over `n` of them. -/
def remaining (a : Arena κ α) (n : Nat) : Nat := a.size - n

/-! ### Storing -/

/-- The key that the next value gets; traps when every key is in use. -/
def freshKey (a : Arena κ α) : Except Trap κ := ofIndex? κ a.size

/-- Stores a value, unless every key is in use. The outcome is the value's key, or else a trap, and
the arena behind the attempt, which a trap leaves as it was. -/
def tryPush (a : Arena κ α) (v : α) : Except Trap κ × Arena κ α :=
  if h : a.values.size ≤ maxIndex κ then
    (.ok (ofIndex a.values.size h),
      ⟨a.values.push v, by rw [Array.size_push]; exact Nat.succ_le_succ h⟩)
  else (.error .keyOutOfRange, a)

/-- The arena with one more value, and that value's key; traps when every key is in use. -/
def push (a : Arena κ α) (v : α) : Except Trap (κ × Arena κ α) :=
  match a.tryPush v with
  | (.ok k, b) => .ok (k, b)
  | (.error t, _) => .error t

/-! ### One value -/

/-- The value of a key, if the key is in use. -/
def get? (a : Arena κ α) (k : κ) : Option α := a.values[index k]?

/-- The value of a key; traps when the key is not in use. -/
def get (a : Arena κ α) (k : κ) : Except Trap α :=
  match a.get? k with
  | some v => .ok v
  | none => .error .unknownKey

/-- Whether a key is in use. -/
def contains (a : Arena κ α) (k : κ) : Bool := decide (index k < a.size)

/-- The arena with the value of one key exchanged, and the value it had, if the key is in use. -/
def replace? (a : Arena κ α) (k : κ) (v : α) : Option (α × Arena κ α) :=
  if h : index k < a.values.size then
    some (a.values[index k], ⟨a.values.set (index k) v, by
      rw [Array.size_set]
      exact a.size_le⟩)
  else none

/-- The arena with `f` applied to the value of one key, if the key is in use. -/
def modify (a : Arena κ α) (k : κ) (f : α → α) : Arena κ α :=
  ⟨a.values.modify (index k) f, by
    rw [Array.size_modify]
    exact a.size_le⟩

/-- The arena with the value of one key exchanged; traps when the key is not in use. -/
def set (a : Arena κ α) (k : κ) (v : α) : Except Trap (Arena κ α) :=
  match a.replace? k v with
  | some (_, b) => .ok b
  | none => .error .unknownKey

/-! ### All values -/

/-- The values from index `i` on, each with its key. -/
def entriesFrom : (i : Nat) → (l : List α) → i + l.length ≤ maxIndex κ + 1 → List (κ × α)
  | _, [], _ => []
  | i, v :: l, h =>
    (ofIndex i (by simp only [List.length_cons] at h; omega), v) ::
      entriesFrom (i + 1) l (by simp only [List.length_cons] at h; omega)

/-- The values with their keys, in order. -/
def entries (a : Arena κ α) : List (κ × α) :=
  entriesFrom 0 a.values.toList (by simpa using a.size_le)

/-- The keys in use, in order. -/
def keys (a : Arena κ α) : List κ := a.entries.map Prod.fst

/-- The images of the values from index `i` on, computed in order. -/
def mapFromM {m : Type → Type} [Monad m] (f : κ → α → m β) :
    (i : Nat) → (l : List α) → i + l.length ≤ maxIndex κ + 1 →
      m { l' : List β // l'.length = l.length }
  | _, [], _ => pure ⟨[], rfl⟩
  | i, v :: l, h => do
    let w ← f (ofIndex i (by simp only [List.length_cons] at h; omega)) v
    let ⟨ws, hws⟩ ← mapFromM f (i + 1) l (by simp only [List.length_cons] at h; omega)
    pure ⟨w :: ws, by rw [List.length_cons, List.length_cons, hws]⟩

/-- The arena of the images of all values under `f`, which also sees their keys. The effects run in
the order of the keys, so the first failure ends the run. -/
def mapM {m : Type → Type} [Monad m] (f : κ → α → m β) (a : Arena κ α) : m (Arena κ β) := do
  let ⟨ws, hws⟩ ← mapFromM f 0 a.values.toList (by simpa using a.size_le)
  pure ⟨ws.toArray, by simpa [hws] using a.size_le⟩

/-- The entries as `{key: value, …}`. -/
def text [ToString α] (a : Arena κ α) : String :=
  let entry (e : κ × α) := ArenaKey.text e.1 ++ ": " ++ toString e.2
  "\x7b" ++ ", ".intercalate (a.entries.map entry) ++ "\x7d"

instance [ToString α] : ToString (Arena κ α) := ⟨text⟩

/-! ### What the operations do to the values -/

theorem contains_iff {a : Arena κ α} {k : κ} : a.contains k = true ↔ index k < a.size :=
  decide_eq_true_iff

theorem get?_eq_none_iff {a : Arena κ α} {k : κ} : a.get? k = none ↔ a.contains k = false := by
  rw [get?, Array.getElem?_eq_none_iff, contains, decide_eq_false_iff_not, Nat.not_lt, size]

theorem get_eq_ok_iff {a : Arena κ α} {k : κ} {v : α} : a.get k = .ok v ↔ a.get? k = some v := by
  unfold get
  split
  · rename_i w h
    rw [h]
    exact ⟨fun e => by cases e; rfl, fun e => by cases e; rfl⟩
  · rename_i h
    rw [h]
    exact ⟨fun e => (nomatch e), fun e => (nomatch e)⟩

/-- A stored value is found under its key, and no other key changes. -/
theorem get?_push {a b : Arena κ α} {v : α} {k : κ} (h : a.push v = .ok (k, b)) (j : κ) :
    b.get? j = if index j = index k then some v else a.get? j := by
  unfold push tryPush at h
  split at h
  · rename_i hp
    cases h
    split at hp
    · cases hp
      simp only [get?, Array.getElem?_push, index_ofIndex]
    · cases hp
  · cases h

end Arena

end AbiLayout
