import BlockchainMessaging.Itf
import BlockchainMessaging.Lib.FirstOccurrence

/-!
# The framing of consensus messages

A consensus message is a header and a body with a separator in between.  The receiver looks for
the first separator; a separator inside the header is found before the one that was put in.

When there is none at all, the search answers `npos`, and nobody asks for that: the position
behind the separator wraps around to the position 12, so a text that is long enough is taken
apart all the same.

Positions in a `std::string` count bytes.  A `Char` stands for one byte here, so a `StdString` has
no others than those below 256.

## Main definitions

* `IsBytes`, `StdString`, `substr` — what the language says about strings.
* `Io.merge`, `Io.split` — putting a message together, and taking it apart.
-/

namespace BlockchainMessaging

/-! ## Strings -/

/-- `std::string::npos`: the greatest `size_t`. -/
def npos : ℕ := 2 ^ 64 - 1

/-- Each character is a byte, so the length of the string is the number of its bytes. -/
def IsBytes (string : String) : Prop := ∀ x ∈ string.toList, x.toNat < 256

instance (string : String) : Decidable (IsBytes string) := List.decidableBAll _ _

/-- A `std::string`: bytes, and their number is a `size_t` and less than `npos`. -/
abbrev StdString := { string : String // IsBytes string ∧ string.length < npos }

/-- `std::string::substr`: at most `count` bytes from `pos` on; a `pos` behind the end is
refused. -/
def substr (string : String) (pos count : ℕ) : Option String :=
  if pos ≤ string.length then some (String.ofList ((string.toList.drop pos).take count)) else none

namespace Io

/-- `io::separator`. -/
def separator : String := "<@SEPARATOR#>"

/-- `io::merge`. -/
def merge (s₁ s₂ : String) : String := s₁ ++ separator ++ s₂

/-- `io::split`.  Positions are `size_t`, and so is `index + 13`. -/
def split (string : StdString) : Option (String × String) := do
  let index := (firstOccurrence separator.toList string.1.toList).getD npos
  let first ← substr string.1 0 index
  let second ← substr string.1 ((index + 13) % 2 ^ 64) string.1.length
  return (first, second)

/-- The string contains the separator. -/
def Framed (string : String) : Prop := separator.toList <:+: string.toList

instance (string : String) : Decidable (Framed string) :=
  inferInstanceAs (Decidable (_ <:+: _))

theorem length_separator : separator.toList.length = 13 := by decide

theorem unbordered_separator : Unbordered separator.toList :=
  unbordered_cons (by decide)

/-- Where the separator is found, the string is cut there. -/
theorem split_of_occurs {string : StdString} {i : ℕ}
    (h : firstOccurrence separator.toList string.1.toList = some i) :
    split string = some (String.ofList (string.1.toList.take i),
      String.ofList (string.1.toList.drop (i + 13))) := by
  have hlength : i + 13 ≤ string.1.length := by
    have := (firstOccurrence_eq_some.1 h).1.1
    rwa [length_separator, String.length_toList] at this
  have hsize : string.1.length < 2 ^ 64 - 1 := string.2.2
  have hmod : (i + 13) % 2 ^ 64 = i + 13 := Nat.mod_eq_of_lt (by omega)
  have htake : (string.1.toList.drop (i + 13)).take string.1.length =
      string.1.toList.drop (i + 13) := by
    refine List.take_of_length_le ?_
    rw [List.length_drop, String.length_toList]
    omega
  simp only [split, h, Option.getD_some, substr, Nat.zero_le, if_true, hmod, hlength, htake,
    List.drop_zero]
  rfl

/-- Where it is not found, the second part starts at the position 12. -/
theorem split_of_not_framed {string : StdString} (h : ¬ Framed string.1) :
    split string = if 12 ≤ string.1.length then
      some (string.1, String.ofList (string.1.toList.drop 12)) else none := by
  have hnone := firstOccurrence_eq_none.2 h
  have hsize := string.2.2
  have hwrap : (npos + 13) % 2 ^ 64 = 12 := by decide
  have htake : string.1.toList.take npos = string.1.toList :=
    List.take_of_length_le (by rw [String.length_toList]; omega)
  have htake' : (string.1.toList.drop 12).take string.1.length = string.1.toList.drop 12 := by
    refine List.take_of_length_le ?_
    rw [List.length_drop, String.length_toList]
    omega
  simp only [split, hnone, Option.getD_none, substr, hwrap, Nat.zero_le, if_true, List.drop_zero,
    htake, htake', String.ofList_toList]
  split <;> rfl

/-- **The framing decodes exactly.**  What was merged is taken apart into the same two strings if
and only if the first of them does not contain the separator; and no occurrence of the separator
lies across the border between the first string and the separator behind it. -/
theorem split_merge_iff (s₁ s₂ : String) (string : StdString) (h : string.1 = merge s₁ s₂) :
    (split string = some (s₁, s₂) ↔ ¬ Framed s₁) ∧
      ∀ i, OccursAt separator.toList string.1.toList i → i + 13 ≤ s₁.length ∨ s₁.length ≤ i := by
  have hlist : string.1.toList = s₁.toList ++ separator.toList ++ s₂.toList := by
    rw [h, merge, String.toList_append, String.toList_append]
  constructor
  · constructor
    · rintro hsplit hframed
      rw [Framed] at hframed
      obtain ⟨i, hi, hfirst⟩ :=
        firstOccurrence_append_of_infix (separator.toList ++ s₂.toList) hframed
      rw [← List.append_assoc, ← hlist] at hfirst
      rw [split_of_occurs hfirst, Option.some.injEq, Prod.mk.injEq] at hsplit
      -- The first part is cut off before the end of `s₁`.
      have hlength := congrArg String.length hsplit.1
      rw [length_separator, String.length_toList] at hi
      rw [String.length_ofList, List.length_take] at hlength
      omega
    · intro hframed
      have hfirst := firstOccurrence_append s₂.toList unbordered_separator hframed
      rw [← hlist] at hfirst
      rw [split_of_occurs hfirst, hlist]
      have htake : (s₁.toList ++ separator.toList ++ s₂.toList).take s₁.toList.length =
          s₁.toList := by
        rw [List.append_assoc, List.take_left]
      have hdrop : (s₁.toList ++ separator.toList ++ s₂.toList).drop (s₁.toList.length + 13) =
          s₂.toList := by
        rw [← length_separator, ← List.length_append, List.drop_left]
      rw [htake, hdrop, String.ofList_toList, String.ofList_toList]
  · intro i hi
    rw [hlist] at hi
    have := not_straddles unbordered_separator hi
    rwa [length_separator, String.length_toList] at this

/-- A separator in the body is no harm, since the one in front of it is found first. -/
theorem split_merge_iff_header : split ⟨merge "header" "body<@SEPARATOR#>", by decide⟩ =
    some ("header", "body<@SEPARATOR#>") :=
  (split_merge_iff "header" "body<@SEPARATOR#>" ⟨_, by decide⟩ rfl).1.2 (by decide)

/-! ## What is accepted -/

/-- Behind the separator the string goes on with what `split` returns. -/
theorem merge_of_occurs {string : String} {i : ℕ}
    (h : OccursAt separator.toList string.toList i) :
    merge (String.ofList (string.toList.take i)) (String.ofList (string.toList.drop (i + 13))) =
      string := by
  obtain ⟨rest, hrest⟩ := h.2
  have hdrop : string.toList.drop (i + 13) = rest := by
    rw [← List.drop_drop, ← hrest, ← length_separator, List.drop_left]
  rw [← String.toList_inj, merge, String.toList_append, String.toList_append, hdrop,
    String.toList_ofList, String.toList_ofList, List.append_assoc, hrest, List.take_append_drop]

/-- **Which strings the framing treats as it should**: a result is what the string was merged
from, and a string without the separator is refused.  It is so for the strings that contain the
separator and for those with less than 12 bytes, and for no other. -/
theorem split_rejects_iff (string : StdString) :
    ((∀ first second, split string = some (first, second) → merge first second = string.1) ∧
        (¬ Framed string.1 → split string = none)) ↔
      Framed string.1 ∨ string.1.length < 12 := by
  constructor
  · rintro ⟨-, hrejects⟩
    rw [or_iff_not_imp_left]
    intro hframed
    by_contra hlong
    have hnone := hrejects hframed
    rw [split_of_not_framed hframed, if_pos (by omega)] at hnone
    cases hnone
  · intro h
    by_cases hframed : Framed string.1
    · refine ⟨fun first second hsplit => ?_, fun hnot => absurd hframed hnot⟩
      cases hfirst : firstOccurrence separator.toList string.1.toList with
      | none => exact absurd hframed (firstOccurrence_eq_none.1 hfirst)
      | some i =>
        rw [split_of_occurs hfirst] at hsplit
        cases hsplit
        exact merge_of_occurs (firstOccurrence_eq_some.1 hfirst).1
    · have hnone : split string = none := by
        rw [split_of_not_framed hframed, if_neg]
        have := h.resolve_left hframed
        omega
      refine ⟨fun first second hsplit => ?_, fun _ => hnone⟩
      rw [hnone] at hsplit
      cases hsplit

/-- Twelve bytes without a separator are accepted, as header and body. -/
theorem not_split_rejects_hello :
    ¬ ∀ (string : StdString) (first second : String),
      split string = some (first, second) → merge first second = string.1 := by
  intro hall
  have hsplit : split ⟨"hello, world", by decide⟩ = some ("hello, world", "") := by decide
  exact absurd (hall _ _ _ hsplit) (by decide)

end Io

end BlockchainMessaging
