import BlockchainMessaging.Ballot
import BlockchainMessaging.Plain
import BlockchainMessaging.Touched

/-!
# The two operations on the vote table

`markValidator` is a function of the table: whatever the iteration order, the exact parity of
the sum of the values decides whether the greatest or the least of them wins, and the mark is
all that changes.

`removeElectionValueDuplicates` compares every address with all addresses, itself included.  So
it finds that every address has a duplicate, and removes every value.  It removes exactly the
duplicates only where nothing else is in the table.

## Main definitions

* `ConsensusStorage.markValidator_elects` — what `markValidator` does.
* `ConsensusStorage.RemovesDuplicates` — what `removeElectionValueDuplicates` should do.
* `ConsensusStorage.removesDuplicates_iff` — when it does.
-/

namespace BlockchainMessaging

namespace ConsensusStorage

variable {st st' : ConsensusStorage} {s : ℕ}

/-! ## Marking -/

/-- After the mark, `getValidator` returns the marked address. -/
theorem getValidator_of_marked {m : String} (hm : m ∈ st.contexts.keys) (hc : cStr m = m)
    (hmarks : ∀ a ∈ st.contexts.keys, (st.context a s).isValidator = decide (a = m)) :
    (st.getValidator s).1 = some m := by
  have hmarked : st.markedValidator s = some m :=
    markedValidator_eq hm (by simp [hmarks m hm]) fun a ha h => by simpa [hmarks a ha] using h
  simp [getValidator, hmarked, hc]

/-- **`markValidator` is a function of the vote table.**  Among different values the greatest
wins if their sum is odd, and the least if it is even; its address alone is marked, nothing else
changes, and `getValidator` then returns it. -/
theorem markValidator_elects (hne : st.contexts.keys ≠ [])
    (hdistinct : ∀ a ∈ st.contexts.keys, ∀ b ∈ st.contexts.keys, a ≠ b →
      (st.context a s).electionValue ≠ (st.context b s).electionValue)
    (hunmarked : ∀ a ∈ st.contexts.keys, (st.context a s).isValidator = false)
    (hc : ∀ a ∈ st.contexts.keys, cStr a = a) :
    ∃ m ∈ st.contexts.keys, ∃ st', st.markValidator s = some st' ∧
      (∀ a ∈ st.contexts.keys, a ≠ m →
        if Odd (st.contexts.keys.map fun a => (st.context a s).electionValue).sum then
          (st.context a s).electionValue < (st.context m s).electionValue
        else (st.context m s).electionValue < (st.context a s).electionValue) ∧
      (∀ a ∈ st'.contexts.keys, (st'.context a s).isValidator = decide (a = m)) ∧
      (∀ a s', st'.context a s' =
        if a = m ∧ s' = s then { st.context a s with isValidator := true }
        else st.context a s') ∧
      st'.contexts.keys = st.contexts.keys ∧ st'.rest = st.rest ∧
      (st'.getValidator s).1 = some m := by
  obtain ⟨m, hwins⟩ := exists_wins hne hdistinct
  have helected := electedValidator_eq hwins
  have hmark : ∃ st', st.markValidator s = some st' := by simp [markValidator, helected]
  obtain ⟨st', hst'⟩ := hmark
  have hkeys := (touched_markValidator (fun _ => False) st s hst').keys_eq hc fun _ => False.elim
  have hcontext : ∀ a s', st'.context a s' =
      if a = m ∧ s' = s then { st.context a s with isValidator := true }
      else st.context a s' := by
    intro a s'
    rw [context_markValidator hst', helected]
    simp only [Option.map_some, hc m hwins.1, Option.some.injEq, eq_comm (a := m)]
  have hmarks : ∀ a ∈ st'.contexts.keys, (st'.context a s).isValidator = decide (a = m) := by
    intro a ha
    rw [hkeys] at ha
    by_cases ham : a = m
    · simp [hcontext, ham]
    · simp [hcontext, ham, hunmarked a ha]
  exact ⟨m, hwins.1, st', hst', hwins.2, hmarks, hcontext, hkeys, rest_markValidator hst',
    getValidator_of_marked (by rw [hkeys]; exact hwins.1) (hc m hwins.1) hmarks⟩

/-- The table of two addresses with these values for slot 2. -/
def twoVotes (v w : ℕ) : ConsensusStorage :=
  ((emptyStorage (plainEnv "a" ["b"] 2 [] (fun _ => 5) five_range)).fillElectionValue
    "a" 2 v).fillElectionValue "b" 2 w

/-- The sum of 5 and 8 is odd. -/
theorem markValidator_elects_twoVotes :
    ∃ m ∈ (twoVotes 5 8).contexts.keys, ∃ st', (twoVotes 5 8).markValidator 2 = some st' ∧
      ((twoVotes 5 8).context m 2).electionValue = 8 ∧ (st'.getValidator 2).1 = some m := by
  have hne : (twoVotes 5 8).contexts.keys ≠ [] := by decide +kernel
  obtain ⟨m, hm, st', hst', hbest, -, -, -, -, hget⟩ := markValidator_elects (s := 2) hne
    (by decide +kernel) (by decide +kernel) (by decide +kernel)
  have hall : ∀ m ∈ (twoVotes 5 8).contexts.keys,
      (∀ a ∈ (twoVotes 5 8).contexts.keys, a ≠ m →
        if Odd ((twoVotes 5 8).contexts.keys.map fun a =>
            ((twoVotes 5 8).context a 2).electionValue).sum then
          ((twoVotes 5 8).context a 2).electionValue < ((twoVotes 5 8).context m 2).electionValue
        else
          ((twoVotes 5 8).context m 2).electionValue < ((twoVotes 5 8).context a 2).electionValue) →
      ((twoVotes 5 8).context m 2).electionValue = 8 := by decide +kernel
  exact ⟨m, hm, st', hst', hall m hm hbest, hget⟩

/-! ## Removing duplicates -/

/-- From `st` to `st'` exactly the duplicated election values of the slot were removed. -/
structure RemovesDuplicates (st st' : ConsensusStorage) (s : ℕ) : Prop where
  zero : ∀ a ∈ st.contexts.keys, (st'.context a s).electionValue = 0 ↔
    (st.context a s).electionValue = 0 ∨
      ∃ b ∈ st.contexts.keys, b ≠ a ∧
        (st.context b s).electionValue = (st.context a s).electionValue
  unique : ∀ a ∈ st.contexts.keys,
    (∀ b ∈ st.contexts.keys, b ≠ a →
      (st.context b s).electionValue ≠ (st.context a s).electionValue) →
    (st'.context a s).electionValue = (st.context a s).electionValue
  fields : ∀ a, { st'.context a s with electionValue := 0 } =
    { st.context a s with electionValue := 0 }
  slots : ∀ a, ∀ s' ≠ s, st'.context a s' = st.context a s'
  keys : st'.contexts.keys = st.contexts.keys
  rest : st'.rest = st.rest

/-- **`removeElectionValueDuplicates` removes exactly the duplicates if and only if every value
in the table is a duplicate**, or missing. -/
theorem removesDuplicates_iff (st : ConsensusStorage) (s : ℕ) :
    RemovesDuplicates st (st.removeElectionValueDuplicates s) s ↔
      ∀ a ∈ st.contexts.keys, (st.context a s).electionValue = 0 ∨
        ∃ b ∈ st.contexts.keys, b ≠ a ∧
          (st.context b s).electionValue = (st.context a s).electionValue := by
  have hzero : ∀ a ∈ st.contexts.keys,
      ((st.removeElectionValueDuplicates s).context a s).electionValue = 0 := by
    intro a ha
    simp [context_removeElectionValueDuplicates, ha]
  constructor
  · intro h a ha
    exact (h.zero a ha).1 (hzero a ha)
  · intro h
    constructor
    case zero => exact fun a ha => iff_of_true (hzero a ha) (h a ha)
    case unique =>
      intro a ha hunique
      rw [hzero a ha]
      rcases h a ha with h0 | ⟨b, hb, hne, heq⟩
      · exact h0.symm
      · exact absurd heq (hunique b hb hne)
    case fields =>
      intro a
      rw [context_removeElectionValueDuplicates]
      split <;> rfl
    case slots => exact fun a s' hs => by simp [context_removeElectionValueDuplicates, hs]
    case keys => exact keys_removeElectionValueDuplicates st s
    case rest => exact rest_removeElectionValueDuplicates st s

/-- With the values 5 and 7 nothing is duplicated, and both are removed. -/
theorem not_removesDuplicates_twoVotes :
    ¬ ∀ (st : ConsensusStorage) (s : ℕ),
      RemovesDuplicates st (st.removeElectionValueDuplicates s) s := by
  intro h
  have hunique := (h (twoVotes 5 7) 2).unique "a" (by decide +kernel) (by decide +kernel)
  exact absurd hunique (by decide +kernel)

end ConsensusStorage

end BlockchainMessaging
