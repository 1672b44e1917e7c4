import Mathlib.Data.List.Nodup

/-!
# Two logs side by side

Two logs grow at their ends, and no entry comes twice in one of them.  As long as an entry is only
appended to one of them when they have the same other entries, one log is never more than one entry
ahead of the other, and before this entry they are the same.

## Main definitions

* `Abreast` — the same, but for one more entry at the end of one of them.
* `Abreast.append` — the step rule.
* `Abreast.comparable` — what is put together from the entries.
-/

namespace BlockchainMessaging

universe u v

variable {α : Type u} {β : Type v} {l l' : List α} {x : α}

/-- The same entries in the same order, but for one more at the end of one of the two. -/
inductive Abreast : List α → List α → Prop
  | same (l : List α) : Abreast l l
  | left (l : List α) (x : α) : Abreast (l ++ [x]) l
  | right (l : List α) (x : α) : Abreast l (l ++ [x])

namespace Abreast

theorem symm (h : Abreast l l') : Abreast l' l := by
  cases h with
  | same => exact .same _
  | left _ x => exact .right l' x
  | right _ x => exact .left l x

/-- **The step rule.**  An entry is appended to one log when the logs have the same other ones. -/
theorem append (h : Abreast l l') (hl : l.Nodup) (hl' : l'.Nodup) (hx : x ∉ l)
    (hsame : ∀ y, y ≠ x → (y ∈ l ↔ y ∈ l')) : Abreast (l ++ [x]) l' := by
  cases h with
  | same => exact .left _ _
  | left _ y =>
    -- The first log is ahead, by an entry that is not the new one.
    have hy : y ∉ l' := fun hy => List.disjoint_of_nodup_append hl hy (List.mem_singleton_self y)
    have hne : y ≠ x := by
      rintro rfl
      exact hx List.mem_concat_self
    exact absurd ((hsame y hne).1 List.mem_concat_self) hy
  | right _ y =>
    -- The second log is ahead, and the first one catches up.
    have hy : y ∉ l := fun hy => List.disjoint_of_nodup_append hl' hy (List.mem_singleton_self y)
    by_cases hne : y = x
    · exact hne ▸ .same _
    · exact absurd ((hsame y hne).2 List.mem_concat_self) hy

/-- What is put together from the entries is the same, as far as both logs go. -/
theorem comparable (h : Abreast l l') (f : α → List β) :
    l.flatMap f <+: l'.flatMap f ∨ l'.flatMap f <+: l.flatMap f := by
  cases h with
  | same => exact .inl List.prefix_rfl
  | left _ x =>
    rw [List.flatMap_append]
    exact .inr (List.prefix_append _ _)
  | right _ x =>
    rw [List.flatMap_append]
    exact .inl (List.prefix_append _ _)

end Abreast

end BlockchainMessaging
