import Mathlib.Data.List.Infix
import Mathlib.Data.Nat.Find

/-!
# The first occurrence of a word

Searching a text for a word gives the first position at which the word occurs.  Where the word
was put into the text on purpose, as a separator, the search should find it there and not
before; this is so when the text in front does not contain the word and the word can not overlap
with itself.

## Main definitions

* `OccursAt w text i` — the word `w` occurs in the text at position `i`.
* `firstOccurrence` — the first such position.
* `Unbordered` — no proper end of the word is a beginning of it.
* `firstOccurrence_append` — the search finds the separator that was put in.
-/

namespace BlockchainMessaging

universe u

variable {α : Type u} {w text h rest : List α} {i : ℕ}

/-- The word occurs in the text at this position. -/
def OccursAt (w text : List α) (i : ℕ) : Prop := i + w.length ≤ text.length ∧ w <+: text.drop i

instance [DecidableEq α] (w text : List α) (i : ℕ) : Decidable (OccursAt w text i) :=
  inferInstanceAs (Decidable (_ ∧ _))

/-- The first position at which the word occurs. -/
def firstOccurrence [DecidableEq α] (w : List α) : List α → Option ℕ
  | [] => if w = [] then some 0 else none
  | a :: text => if w <+: a :: text then some 0 else (firstOccurrence w text).map (· + 1)

theorem occursAt_zero : OccursAt w text 0 ↔ w <+: text :=
  ⟨fun h => h.2, fun h => ⟨by simpa using h.length_le, h⟩⟩

@[simp] theorem occursAt_cons_succ (a : α) :
    OccursAt w (a :: text) (i + 1) ↔ OccursAt w text i := by
  rw [OccursAt, OccursAt, List.length_cons, List.drop_succ_cons]
  exact and_congr_left fun _ => by omega

/-- To occur somewhere is to be an infix. -/
theorem exists_occursAt : (∃ i, OccursAt w text i) ↔ w <:+: text := by
  constructor
  · rintro ⟨i, -, hprefix⟩
    exact hprefix.isInfix.trans (List.drop_suffix i text).isInfix
  · rintro ⟨before, after, rfl⟩
    refine ⟨before.length, by simp, ?_⟩
    rw [List.append_assoc, List.drop_left]
    exact List.prefix_append _ _

/-- The search finds an occurrence, and there is none before it. -/
theorem firstOccurrence_eq_some [DecidableEq α] :
    firstOccurrence w text = some i ↔ OccursAt w text i ∧ ∀ j < i, ¬ OccursAt w text j := by
  induction text generalizing i with
  | nil =>
    rw [firstOccurrence]
    split
    · next hw =>
      subst hw
      simp only [Option.some.injEq, OccursAt, List.length_nil, Nat.add_zero, Nat.le_zero]
      constructor
      · rintro rfl
        simp
      · rintro ⟨⟨rfl, -⟩, -⟩
        rfl
    · next hw =>
      refine iff_of_false (by simp) ?_
      rintro ⟨⟨hlength, -⟩, -⟩
      have := List.length_pos_iff.2 hw
      rw [List.length_nil] at hlength
      omega
  | cons a text ih =>
    rw [firstOccurrence]
    split
    · next hw =>
      rw [Option.some.injEq]
      constructor
      · rintro rfl
        exact ⟨occursAt_zero.2 hw, by simp⟩
      · rintro ⟨-, hnone⟩
        by_contra hi
        exact hnone 0 (by omega) (occursAt_zero.2 hw)
    · next hw =>
      cases i with
      | zero => simp [occursAt_zero, hw]
      | succ i =>
        simp only [Option.map_eq_some_iff, Nat.add_right_cancel_iff, exists_eq_right, ih,
          occursAt_cons_succ]
        refine and_congr_right fun _ => ⟨fun hnone j hj => ?_, fun hnone j hj => ?_⟩
        · cases j with
          | zero => rwa [occursAt_zero]
          | succ j => simpa using hnone j (by omega)
        · simpa using hnone (j + 1) (by omega)

/-- The search finds nothing where there is nothing. -/
theorem firstOccurrence_eq_none [DecidableEq α] :
    firstOccurrence w text = none ↔ ¬ w <:+: text := by
  rw [← exists_occursAt]
  constructor
  · rintro hnone ⟨i, hi⟩
    have hexists : ∃ i, OccursAt w text i := ⟨i, hi⟩
    classical
    have hfind := firstOccurrence_eq_some.2
      ⟨Nat.find_spec hexists, fun j hj => Nat.find_min hexists hj⟩
    rw [hnone] at hfind
    cases hfind
  · intro hnone
    cases hfind : firstOccurrence w text with
    | none => rfl
    | some i => exact absurd ⟨i, (firstOccurrence_eq_some.1 hfind).1⟩ hnone

/-! ## Separators -/

/-- No proper end of the word is a beginning of it. -/
def Unbordered (w : List α) : Prop := ∀ k, 0 < k → k < w.length → ¬ w.drop k <+: w

/-- A letter that stands only at the beginning keeps the word from overlapping with itself. -/
theorem unbordered_cons {a : α} (ha : a ∉ w) : Unbordered (a :: w) := by
  intro k hpos hlt hprefix
  obtain ⟨k, rfl⟩ := Nat.exists_eq_add_one.2 hpos
  rw [List.drop_succ_cons] at hprefix
  rw [List.length_cons] at hlt
  have hne : w.drop k ≠ [] := by simpa using hlt
  obtain ⟨b, end', hb⟩ := List.exists_cons_of_ne_nil hne
  have hmem : b ∈ w := List.mem_of_mem_drop (by rw [hb]; exact List.mem_cons_self)
  rw [hb] at hprefix
  rw [(List.cons_prefix_cons.1 hprefix).1] at hmem
  exact ha hmem

/-- What occurs before a position occurs in the text up to there. -/
theorem occursAt_append_left (hi : i + w.length ≤ h.length) :
    OccursAt w (h ++ rest) i ↔ OccursAt w h i := by
  have hlength : w.length ≤ (h.drop i).length := by
    rw [List.length_drop]
    omega
  rw [OccursAt, OccursAt, List.drop_append_of_le_length (by omega), List.length_append]
  refine and_congr (iff_of_true (by omega) hi) ⟨fun hprefix => ?_, fun hprefix => ?_⟩
  · exact List.prefix_of_prefix_length_le hprefix (List.prefix_append _ _) hlength
  · exact hprefix.trans (List.prefix_append _ _)

/-- No occurrence straddles the place where a separator was put in. -/
theorem not_straddles (hw : Unbordered w) (hi : OccursAt w (h ++ w ++ rest) i) :
    i + w.length ≤ h.length ∨ h.length ≤ i := by
  by_contra hcross
  rw [not_or, not_le, not_le] at hcross
  have hprefix := hi.2
  rw [List.append_assoc, List.drop_append_of_le_length (by omega)] at hprefix
  -- What is left of the occurrence behind `h` is a beginning of the separator.
  have hlength : (h.drop i).length = h.length - i := List.length_drop
  have hend : w.drop (h.length - i) <+: w ++ rest := by
    have := hprefix.drop (h.length - i)
    rwa [← hlength, List.drop_left, hlength] at this
  refine hw (h.length - i) (by omega) (by omega) ?_
  refine List.prefix_of_prefix_length_le hend (List.prefix_append _ _) ?_
  rw [List.length_drop]
  omega

/-- **The search finds the separator that was put in**, if the text in front does not contain
one. -/
theorem firstOccurrence_append [DecidableEq α] (rest : List α) (hw : Unbordered w)
    (hh : ¬ w <:+: h) :
    firstOccurrence w (h ++ w ++ rest) = some h.length := by
  rw [firstOccurrence_eq_some]
  constructor
  · refine ⟨by simp, ?_⟩
    rw [List.append_assoc, List.drop_left]
    exact List.prefix_append _ _
  · intro j hj hoccurs
    rcases not_straddles hw hoccurs with hbefore | hafter
    · rw [List.append_assoc, occursAt_append_left hbefore] at hoccurs
      exact hh (exists_occursAt.1 ⟨j, hoccurs⟩)
    · omega

/-- And it finds one inside that text, if there is one. -/
theorem firstOccurrence_append_of_infix [DecidableEq α] (rest : List α) (hh : w <:+: h) :
    ∃ i, i + w.length ≤ h.length ∧ firstOccurrence w (h ++ rest) = some i := by
  cases hfind : firstOccurrence w (h ++ rest) with
  | none =>
    have hinfix := hh.trans (List.prefix_append h rest).isInfix
    exact absurd hinfix (firstOccurrence_eq_none.1 hfind)
  | some i =>
    refine ⟨i, ?_, rfl⟩
    obtain ⟨j, hj⟩ := exists_occursAt.2 hh
    by_contra hlt
    have hji : j < i := by
      have := hj.1
      omega
    exact (firstOccurrence_eq_some.1 hfind).2 j hji ((occursAt_append_left hj.1).2 hj)

end BlockchainMessaging
