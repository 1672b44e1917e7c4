import Mathlib.Data.List.Basic
import Mathlib.Data.List.DropRight
import Mathlib.Data.Int.Basic

/-!
# The list commands of Redis

The list commands that the chain is kept with, over an arbitrary element type.  An index
may be negative, in which case it counts from the tail; a command that would write outside
the list is refused, a range outside it is empty.

## Main definitions

* `RedisList.rpush` — `RPUSH`, with its reply, the new length.
* `RedisList.lset` — `LSET`; `none` is the error reply.
* `RedisList.lrem` — `LREM key 1 value`.
* `RedisList.lrange` — `LRANGE`, both ends included.
-/

namespace BlockchainMessaging.RedisList

universe u

variable {α : Type u}

/-- `RPUSH`: append, and reply with the new length. -/
def rpush (l : List α) (v : α) : List α × ℤ := (l ++ [v], l.length + 1)

/-- A negative index counts from the tail. -/
def position (l : List α) (i : ℤ) : ℤ := if i < 0 then l.length + i else i

/-- `LSET`: replace one element; an index outside the list is an error. -/
def lset (l : List α) (i : ℤ) (v : α) : Option (List α) :=
  if 0 ≤ position l i ∧ position l i < l.length then some (l.set (position l i).toNat v)
  else none

/-- `LREM key 1 value`: remove the first element equal to `value`. -/
def lrem [DecidableEq α] (l : List α) (v : α) : List α := l.erase v

/-- `LRANGE`: the elements from `start` to `stop`, clipped to the list. -/
def lrange (l : List α) (start stop : ℤ) : List α :=
  let first := max 0 (position l start)
  let last := min (position l stop) (l.length - 1)
  if first ≤ last then (l.drop first.toNat).take (last - first + 1).toNat else []

theorem position_natCast (l : List α) (n : ℕ) : position l n = n :=
  if_neg (by omega)

/-- `LSET` at a position of the list. -/
theorem lset_natCast (l : List α) {n : ℕ} (h : n < l.length) (v : α) :
    lset l n v = some (l.set n v) := by
  simp [lset, position_natCast, h]

/-- A range of one position inside the list is that element. -/
theorem lrange_of_position (l : List α) (i : ℤ) {n : ℕ} (hn : position l i = n)
    (h : n < l.length) : lrange l i i = [l[n]] := by
  have hmax : max 0 (n : ℤ) = n := by omega
  have hmin : min (n : ℤ) (l.length - 1) = n := by omega
  have hlen : ((n : ℤ) - n + 1).toNat = 1 := by omega
  simp only [lrange, hn, hmax, hmin, hlen, Int.toNat_natCast]
  rw [if_pos (Int.le_refl _), List.drop_eq_getElem_cons h]
  rfl

/-- A range that ends with the last element is what the list has from its first index on. -/
theorem lrange_neg_one (l : List α) (start : ℤ) :
    lrange l start (-1) = l.drop (max 0 (position l start)).toNat := by
  have hlast : min (position l (-1)) ((l.length : ℤ) - 1) = l.length - 1 := by
    simp only [position]
    omega
  simp only [lrange, hlast]
  split
  · apply List.take_of_length_le
    rw [List.length_drop]
    omega
  · rw [List.drop_of_length_le]
    omega

/-- The last `n` elements, or all of them if there are fewer. -/
theorem lrange_tail (l : List α) {n : ℕ} (hn : n ≠ 0) : lrange l (-1 * n) (-1) = l.rtake n := by
  rw [lrange_neg_one, List.rtake]
  congr 1
  simp only [position]
  split <;> omega

/-- Zero is no offset from the tail: it is the head of the list. -/
theorem lrange_all (l : List α) : lrange l 0 (-1) = l := by
  rw [lrange_neg_one]
  rfl

end BlockchainMessaging.RedisList
