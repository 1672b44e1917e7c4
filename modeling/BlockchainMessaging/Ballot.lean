import Mathlib.Algebra.Group.Nat.Even
import Mathlib.Data.List.MinMax
import BlockchainMessaging.StorageSpec

/-!
# Who wins an election

Every address has a value.  When the sum of the values is odd, the greatest value wins,
otherwise the least.  This says who wins only if that value is held by one address; then the
winner depends on the addresses and their values alone, not on the order in which somebody
looks at them.  `markValidator` looks at them in the iteration order of its table, adds in
64 bits and keeps the sum in an `int`; it elects the winner all the same.

## Main definitions

* `Wins as value m` — `m` is the one address with the value that wins.
* `ConsensusStorage.electedValidator_eq` — `markValidator` elects the winner.
-/

namespace BlockchainMessaging

universe u

/-! ## The winner -/

section Wins

variable {α : Type u} {as bs : List α} {value value' : α → ℕ} {m m' : α}

/-- Nobody but `m` has the greatest value, if the sum is odd, or the least, if it is even. -/
def Wins (as : List α) (value : α → ℕ) (m : α) : Prop :=
  m ∈ as ∧ ∀ a ∈ as, a ≠ m →
    if Odd (as.map value).sum then value a < value m else value m < value a

instance [DecidableEq α] : Decidable (Wins as value m) := by
  unfold Wins
  infer_instance

/-- There is at most one winner. -/
theorem Wins.unique (h : Wins as value m) (h' : Wins as value m') : m = m' := by
  by_contra hne
  have hm := h'.2 m h.1 hne
  have hm' := h.2 m' h'.1 (Ne.symm hne)
  split at hm
  · next hodd =>
    rw [if_pos hodd] at hm'
    omega
  · next heven =>
    rw [if_neg heven] at hm'
    omega

/-- The order of the addresses does not matter. -/
theorem Wins.perm (hp : as.Perm bs) (h : Wins as value m) : Wins bs value m := by
  have hsum : (bs.map value).sum = (as.map value).sum := (hp.map value).sum_nat.symm
  refine ⟨hp.mem_iff.1 h.1, fun a ha hne => ?_⟩
  rw [hsum]
  exact h.2 a (hp.mem_iff.2 ha) hne

theorem Wins.congr (hv : ∀ a ∈ as, value' a = value a) (h : Wins as value m) :
    Wins as value' m := by
  refine ⟨h.1, fun a ha hne => ?_⟩
  rw [List.map_congr_left hv, hv a ha, hv m h.1]
  exact h.2 a ha hne

/-- Among different values one wins. -/
theorem exists_wins (hne : as ≠ []) (hv : ∀ a ∈ as, ∀ b ∈ as, a ≠ b → value a ≠ value b) :
    ∃ m, Wins as value m := by
  by_cases hodd : Odd (as.map value).sum
  · obtain ⟨m, hm⟩ := Option.ne_none_iff_exists'.1 (mt (List.argmax_eq_none (f := value)).1 hne)
    have hmem := List.argmax_mem hm
    refine ⟨m, hmem, fun a ha ham => ?_⟩
    rw [if_pos hodd]
    exact lt_of_le_of_ne (List.le_of_mem_argmax ha hm) (hv a ha m hmem ham)
  · obtain ⟨m, hm⟩ := Option.ne_none_iff_exists'.1 (mt (List.argmin_eq_none (f := value)).1 hne)
    have hmem := List.argmin_mem hm
    refine ⟨m, hmem, fun a ha ham => ?_⟩
    rw [if_neg hodd]
    exact lt_of_le_of_ne (List.le_of_mem_argmin ha hm) (hv m hmem a ha (Ne.symm ham))

end Wins

/-! ## The scan of `markValidator` -/

namespace ConsensusStorage

/-- A scan that keeps the better value ends with the one that is better than all others. -/
theorem foldl_improve_eq (better : ℕ → ℕ → Bool) (value : String → ℕ) {m : String}
    (hself : better (value m) (value m) = false) (as : List String)
    (hbest : ∀ a ∈ as, a ≠ m → better (value m) (value a) = true ∧
      better (value a) (value m) = false) :
    ∀ b, (b = m ∨ b ≠ m ∧ better (value m) (value b) = true ∧ m ∈ as) →
      (as.foldl (fun best a => improve better best a (value a)) (b, value b)).1 = m := by
  induction as with
  | nil =>
    rintro b (rfl | ⟨-, -, h⟩)
    · rfl
    · cases h
  | cons a as ih =>
    intro b hb
    rw [List.forall_mem_cons] at hbest
    have hrest := ih hbest.2
    have hstep : ∀ c, improve better (b, value b) a (value a) = (c, value c) →
        (c = m ∨ c ≠ m ∧ better (value m) (value c) = true ∧ m ∈ as) →
        ((a :: as).foldl (fun best a => improve better best a (value a)) (b, value b)).1 = m := by
      intro c hc h
      rw [List.foldl_cons, hc]
      exact hrest c h
    rcases hb with rfl | ⟨hne, hbetter, hmem⟩
    · by_cases ha : a = b
      · subst ha
        exact hstep a (by simp [improve]) (.inl rfl)
      · exact hstep b (by simp [improve, (hbest.1 ha).2]) (.inl rfl)
    · by_cases ha : a = m
      · subst ha
        exact hstep a (by simp [improve, hbetter]) (.inl rfl)
      · have hmem : m ∈ as := (List.mem_cons.1 hmem).resolve_left (Ne.symm ha)
        by_cases hab : better (value a) (value b) = true
        · exact hstep a (by simp [improve, hab]) (.inr ⟨ha, (hbest.1 ha).1, hmem⟩)
        · exact hstep b (by simp [improve, hab]) (.inr ⟨hne, hbetter, hmem⟩)

/-- The sum in an `int` has the parity of the sum. -/
theorem electionSum_emod (st : ConsensusStorage) (s : ℕ) :
    st.electionSum s % 2 =
      ((st.contexts.keys.map fun a => (st.context a s).electionValue).sum : ℕ) % 2 := by
  have hstep : ∀ (prev : ℤ) (v : ℕ), accumulateElectionValue prev v % 2 = (prev + v) % 2 := by
    intro prev v
    simp only [accumulateElectionValue, toInt32, Int.bmod_def]
    split <;> omega
  have hfold : ∀ (as : List String) (prev : ℤ), as.foldl (fun prev a =>
      accumulateElectionValue prev (st.context a s).electionValue) prev % 2 =
        (prev + ((as.map fun a => (st.context a s).electionValue).sum : ℕ)) % 2 := by
    intro as
    induction as with
    | nil => simp
    | cons a as ih =>
      intro prev
      rw [List.foldl_cons, ih, Int.add_emod, hstep, ← Int.add_emod]
      simp [Int.add_assoc]
  simpa [electionSum] using hfold st.contexts.keys 0

/-- **`markValidator` elects the winner.** -/
theorem electedValidator_eq {st : ConsensusStorage} {s : ℕ} {m : String}
    (h : Wins st.contexts.keys (fun a => (st.context a s).electionValue) m) :
    st.electedValidator s = some m := by
  have hparity := st.electionSum_emod s
  have hodd : (st.electionSum s).tmod 2 ≠ 0 ↔
      Odd (st.contexts.keys.map fun a => (st.context a s).electionValue).sum := by
    rw [Nat.odd_iff, Ne, ← Int.dvd_iff_tmod_eq_zero]
    omega
  rw [electedValidator]
  cases hkeys : st.contexts.keys with
  | nil => simp [hkeys, Wins] at h
  | cons first rest =>
    rw [hkeys] at h
    rw [hkeys] at hodd
    simp only [Option.some.injEq]
    obtain ⟨hmem, hbest⟩ := h
    -- The scan starts from the first address, which is the winner or worse.
    have hscan : ∀ better : ℕ → ℕ → Bool,
        better (st.context m s).electionValue (st.context m s).electionValue = false →
        (∀ a ∈ first :: rest, a ≠ m →
          better (st.context m s).electionValue (st.context a s).electionValue = true ∧
          better (st.context a s).electionValue (st.context m s).electionValue = false) →
        ((first :: rest).foldl (fun best a => improve better best a (st.context a s).electionValue)
          (first, (st.context first s).electionValue)).1 = m := by
      intro better hself hbetter
      refine foldl_improve_eq better (fun a => (st.context a s).electionValue) hself _ hbetter
        first ?_
      by_cases hfirst : first = m
      · exact .inl hfirst
      · exact .inr ⟨hfirst, (hbetter first List.mem_cons_self hfirst).1, hmem⟩
    by_cases hp : (st.electionSum s).tmod 2 ≠ 0
    · rw [if_pos hp]
      refine hscan _ (by simp) fun a ha hne => ?_
      have hlt := hbest a ha hne
      rw [if_pos (hodd.1 hp)] at hlt
      exact ⟨by simpa using hlt, by simpa using hlt.le⟩
    · rw [if_neg hp]
      refine hscan _ (by simp) fun a ha hne => ?_
      have hlt := hbest a ha hne
      rw [if_neg (mt hodd.2 hp)] at hlt
      exact ⟨by simpa using hlt, by simpa using hlt.le⟩

end ConsensusStorage

end BlockchainMessaging
