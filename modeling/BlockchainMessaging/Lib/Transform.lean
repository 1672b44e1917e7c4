import Mathlib.Data.List.Basic

/-!
# Writing through an output iterator

An algorithm that maps a range into a container gets the place where it begins to write, and
relies on the container to be long enough: it overwrites elements and appends none.  A write
behind the end is no write of the language at all, so it is an error here.

## Main definitions

* `transform` — the algorithm, from a range into a container.
* `transform_eq_ok_iff` — when it ends well, and what the container then holds.
-/

namespace BlockchainMessaging

universe u v

variable {α : Type u} {β : Type v}

/-- Why there is no result. -/
inductive TransformError
  /-- The function that is applied has thrown an exception. -/
  | thrown
  /-- There is no element at the place that is written to. -/
  | outOfBounds
  deriving DecidableEq, Repr

/-- `std::transform`, from the elements of a range into a container from the place `pos` on.  The
function is applied before its result is written. -/
def transform (f : α → Option β) : List α → List β → ℕ → Except TransformError (List β)
  | [], dest, _ => .ok dest
  | x :: xs, dest, pos =>
      match f x with
      | none => .error .thrown
      | some y =>
          if pos < dest.length then transform f xs (dest.set pos y) (pos + 1)
          else .error .outOfBounds

/-- **The writes stay inside the container if and only if it is long enough**, and then the
results stand there in order, with what was before and behind them left alone. -/
theorem transform_eq_ok_iff {f : α → Option β} (xs : List α) (dest out : List β) {pos : ℕ}
    (hpos : pos ≤ dest.length) :
    transform f xs dest pos = .ok out ↔ pos + xs.length ≤ dest.length ∧
      ∃ ys, xs.mapM f = some ys ∧ out = dest.take pos ++ ys ++ dest.drop (pos + xs.length) := by
  induction xs generalizing dest pos with
  | nil =>
    simp [transform, hpos, eq_comm]
  | cons x xs ih =>
    rw [transform, List.mapM_cons, List.length_cons]
    cases hx : f x with
    | none => simp
    | some y =>
      by_cases hlt : pos < dest.length
      · have htake : (dest.set pos y).take (pos + 1) = dest.take pos ++ [y] := by
          rw [List.take_add_one, List.take_set_of_le (Nat.le_refl pos),
            List.getElem?_set_self hlt]
          rfl
        have hdrop : (dest.set pos y).drop (pos + 1 + xs.length) =
            dest.drop (pos + (xs.length + 1)) := by
          rw [List.drop_set_of_lt (by omega)]
          congr 1
          omega
        have hlength : pos + 1 + xs.length = pos + (xs.length + 1) := by omega
        simp only [if_pos hlt]
        rw [ih _ (by rw [List.length_set]; omega), htake, hdrop, List.length_set, hlength]
        apply and_congr_right
        rintro -
        constructor
        · rintro ⟨ys, hys, rfl⟩
          exact ⟨y :: ys, by simp [hys], by simp⟩
        · rintro ⟨zs, hzs, rfl⟩
          obtain ⟨ys, hys, rfl⟩ : ∃ ys, xs.mapM f = some ys ∧ y :: ys = zs := by
            simpa [Option.bind_eq_some_iff] using hzs
          exact ⟨ys, hys, by simp⟩
      · simp only [if_neg hlt]
        constructor
        · intro h
          cases h
        · rintro ⟨hle, -⟩
          omega

end BlockchainMessaging
