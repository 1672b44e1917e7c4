import Mathlib.Data.List.Basic

/-!
# Tokens

A tokenizer cuts a text at its separators and drops the empty pieces: separators at the ends and
several separators in a row leave no trace.  A text with separators in it is therefore never a
token, and what follows a token says nothing about it.

## Main definitions

* `tokens` — the non-empty pieces between the separators.
-/

namespace BlockchainMessaging

universe u

variable {α : Type u} {sep : α → Bool}

/-- The non-empty pieces of a text between its separators, from left to right. -/
def tokens (sep : α → Bool) (text : List α) : List (List α) :=
  (text.splitOnP sep).filter fun piece => !piece.isEmpty

/-- A text has no separator, or it has a first one. -/
theorem forall_or_exists_first (sep : α → Bool) (text : List α) :
    (∀ x ∈ text, sep x = false) ∨
      ∃ piece x rest, text = piece ++ x :: rest ∧ sep x = true ∧ ∀ y ∈ piece, sep y = false := by
  cases hfind : text.find? sep with
  | none =>
    left
    simpa using hfind
  | some x =>
    right
    obtain ⟨hx, piece, rest, htext, hpiece⟩ := List.find?_eq_some_iff_append.1 hfind
    exact ⟨piece, x, rest, htext, hx, by simpa using hpiece⟩

/-- A separator between two texts separates them. -/
theorem tokens_append_cons (text rest : List α) {x : α} (hx : sep x = true) :
    tokens sep (text ++ x :: rest) = tokens sep text ++ tokens sep rest := by
  rw [tokens, List.splitOnP_append_cons text rest hx, List.filter_append]
  rfl

/-- A text without separators is a token. -/
theorem tokens_of_forall {text : List α} (hne : text ≠ []) (h : ∀ x ∈ text, sep x = false) :
    tokens sep text = [text] := by
  rw [tokens, List.splitOnP_eq_singleton h, List.filter_cons_of_pos, List.filter_nil]
  simpa using hne

/-- A text without separators is the beginning of the first token, whatever follows it. -/
theorem exists_tokens_append {text : List α} (rest : List α) (hne : text ≠ [])
    (h : ∀ x ∈ text, sep x = false) :
    ∃ tail others, tokens sep (text ++ rest) = (text ++ tail) :: others := by
  have happend : ∀ tail : List α, (∀ x ∈ tail, sep x = false) →
      tokens sep (text ++ tail) = [text ++ tail] := by
    intro tail htail
    refine tokens_of_forall (by simp [hne]) fun x hx => ?_
    rcases List.mem_append.1 hx with hx | hx
    · exact h x hx
    · exact htail x hx
  obtain hrest | ⟨tail, x, others, rfl, hx, htail⟩ := forall_or_exists_first sep rest
  · exact ⟨rest, [], happend rest hrest⟩
  · refine ⟨tail, tokens sep others, ?_⟩
    rw [← List.append_assoc, tokens_append_cons _ _ hx, happend tail htail]
    rfl

/-- No token contains a separator. -/
theorem not_sep_of_mem_tokens {text token : List α} (h : token ∈ tokens sep text) :
    ∀ x ∈ token, sep x = false := by
  have hpiece : ∀ piece : List α, (∀ x ∈ piece, sep x = false) → token ∈ tokens sep piece →
      ∀ x ∈ token, sep x = false := by
    intro piece hp hmem
    rw [tokens, List.splitOnP_eq_singleton hp] at hmem
    rwa [List.mem_singleton.1 (List.mem_of_mem_filter hmem)]
  -- The text gets shorter with each separator.
  induction hlength : text.length using Nat.strongRecOn generalizing text with
  | ind n ih =>
    obtain htext | ⟨piece, x, rest, rfl, hx, hp⟩ := forall_or_exists_first sep text
    · exact hpiece text htext h
    · rw [tokens_append_cons _ _ hx] at h
      rcases List.mem_append.1 h with h | h
      · exact hpiece piece hp h
      · refine ih rest.length ?_ h rfl
        rw [← hlength, List.length_append, List.length_cons]
        omega

/-- No token is empty. -/
theorem ne_nil_of_mem_tokens {text token : List α} (h : token ∈ tokens sep text) : token ≠ [] := by
  simpa using (List.mem_filter.1 h).2

/-- What a token consists of stands in the text. -/
theorem mem_of_mem_tokens {text token : List α} (h : token ∈ tokens sep text) :
    ∀ x ∈ token, x ∈ text := by
  replace h := (List.mem_filter.1 h).1
  induction text generalizing token with
  | nil =>
    rw [List.splitOnP_nil, List.mem_singleton] at h
    simp [h]
  | cons x text ih =>
    rw [List.splitOnP_cons_eq_if_modifyHead] at h
    split at h
    · rcases List.mem_cons.1 h with rfl | h
      · simp
      · exact fun y hy => List.mem_cons_of_mem x (ih h y hy)
    · cases hsplit : text.splitOnP sep with
      | nil => exact absurd hsplit (List.splitOnP_ne_nil sep text)
      | cons piece pieces =>
        rw [hsplit, List.modifyHead_cons] at h
        rw [hsplit] at ih
        rcases List.mem_cons.1 h with rfl | h
        · intro y hy
          rcases List.mem_cons.1 hy with rfl | hy
          · exact List.mem_cons_self
          · exact List.mem_cons_of_mem x (ih List.mem_cons_self y hy)
        · exact fun y hy => List.mem_cons_of_mem x (ih (List.mem_cons_of_mem piece h) y hy)

end BlockchainMessaging
