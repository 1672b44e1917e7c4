import Mathlib.Data.List.Nodup
import Mathlib.Data.List.Perm.Basic

/-!
# Unordered maps with an explicit iteration order

A hash map, as a program sees it, is a partial function together with *some* order in
which a loop visits its keys.  `UnorderedMap` keeps both: `find` is the partial function
and `keys` is the order.  The two fields can not disagree, because the structure carries
the proof that `keys` lists every bound key exactly once; a result that must not depend on
the container's order is a result about every `keys`.

Assignment to a bound key keeps its place in the order.  A fresh key is put in front, which
is one of the places an implementation may choose; results about the order of fresh keys
would be results about this choice, so none is stated.

## Main definitions

* `UnorderedMap κ ν` — the map; `find`, `set`, `erase`, `mapValues`.
-/

namespace BlockchainMessaging

universe u v

/-- A finite partial function with the order in which a loop visits its keys. -/
structure UnorderedMap (κ : Type u) (ν : Type v) where
  /-- The keys, in iteration order. -/
  keys : List κ
  /-- The value bound to a key, if there is one. -/
  find : κ → Option ν
  /-- A loop visits no key twice. -/
  nodup : keys.Nodup
  /-- A loop visits exactly the bound keys. -/
  mem_keys : ∀ k, k ∈ keys ↔ (find k).isSome

namespace UnorderedMap

variable {κ : Type u} {ν : Type v}

/-- The map without entries. -/
def empty : UnorderedMap κ ν := ⟨[], fun _ => none, List.nodup_nil, by simp⟩

@[simp] theorem find_empty (k : κ) : (empty : UnorderedMap κ ν).find k = none := rfl

/-- Apply a function to every value, keeping keys and order. -/
def mapValues (f : ν → ν) (m : UnorderedMap κ ν) : UnorderedMap κ ν where
  keys := m.keys
  find := fun k => (m.find k).map f
  nodup := m.nodup
  mem_keys := fun k => by rw [Option.isSome_map]; exact m.mem_keys k

@[simp] theorem keys_mapValues (f : ν → ν) (m : UnorderedMap κ ν) :
    (m.mapValues f).keys = m.keys := rfl

@[simp] theorem find_mapValues (f : ν → ν) (m : UnorderedMap κ ν) (k : κ) :
    (m.mapValues f).find k = (m.find k).map f := rfl

variable [DecidableEq κ]

/-- `m[k] = v`: a bound key keeps its place.  A fresh key comes first, which is one of the orders
that an implementation may choose. -/
def set (m : UnorderedMap κ ν) (k : κ) (v : ν) : UnorderedMap κ ν where
  keys := if k ∈ m.keys then m.keys else k :: m.keys
  find := fun k' => if k' = k then some v else m.find k'
  nodup := by
    split
    · exact m.nodup
    · exact List.nodup_cons.2 ⟨by assumption, m.nodup⟩
  mem_keys := by
    intro k'
    by_cases hk' : k' = k
    · subst hk'
      by_cases hk : k' ∈ m.keys <;> simp [hk]
    · rw [if_neg hk', ← m.mem_keys]
      by_cases hk : k ∈ m.keys <;> simp [hk, hk']

/-- Remove the entry of a key. -/
def erase (m : UnorderedMap κ ν) (k : κ) : UnorderedMap κ ν where
  keys := m.keys.filter (· ≠ k)
  find := fun k' => if k' = k then none else m.find k'
  nodup := m.nodup.filter _
  mem_keys := by
    intro k'
    by_cases hk' : k' = k
    · simp [hk']
    · simp [hk', m.mem_keys]

theorem find_set (m : UnorderedMap κ ν) (k k' : κ) (v : ν) :
    (m.set k v).find k' = if k' = k then some v else m.find k' := rfl

@[simp] theorem find_set_self (m : UnorderedMap κ ν) (k : κ) (v : ν) :
    (m.set k v).find k = some v := if_pos rfl

theorem find_set_ne (m : UnorderedMap κ ν) {k k' : κ} (v : ν) (h : k' ≠ k) :
    (m.set k v).find k' = m.find k' := if_neg h

@[simp] theorem mem_keys_set (m : UnorderedMap κ ν) (k k' : κ) (v : ν) :
    k' ∈ (m.set k v).keys ↔ k' = k ∨ k' ∈ m.keys := by
  simp only [mem_keys, find_set]
  by_cases h : k' = k <;> simp [h]

/-- Assigning to a bound key does not disturb the iteration order. -/
theorem keys_set_of_mem (m : UnorderedMap κ ν) {k : κ} (v : ν) (h : k ∈ m.keys) :
    (m.set k v).keys = m.keys := if_pos h

theorem find_erase (m : UnorderedMap κ ν) (k k' : κ) :
    (m.erase k).find k' = if k' = k then none else m.find k' := rfl

@[simp] theorem find_erase_self (m : UnorderedMap κ ν) (k : κ) :
    (m.erase k).find k = none := if_pos rfl

end UnorderedMap

end BlockchainMessaging
