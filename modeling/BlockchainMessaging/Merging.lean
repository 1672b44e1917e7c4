import BlockchainMessaging.Plain
import BlockchainMessaging.StorageSpec

/-!
# Merging the contributors' data

`mergeContributors` appends the data of the contributors to the block of the validator, in the
order in which it meets them, and sorts the result by timestamp.  So the block does not depend
on the iteration order but for messages of equal timestamp, and nothing is lost or added.

The validator's address makes a round trip through a C string, so all of this holds for
addresses without NUL bytes; otherwise the entry of another address is merged into.

## Main definitions

* `ConsensusStorage.Merges` — what the merge for the validator `v` returns and stores.
* `ConsensusStorage.mergeContributors_merges` — the merge does this.
-/

namespace BlockchainMessaging

namespace ConsensusStorage

variable {st : ConsensusStorage} {s : ℕ} {v : String}

/-- The data of all contributors: that of `v` first, then that of the others with a true flag. -/
def contributorsData (st : ConsensusStorage) (v : String) (s : ℕ) : List Message :=
  (st.context v s).block.data ++
    (st.contexts.keys.filter fun a => a ≠ v ∧ (st.context a s).isContributing = some true).flatMap
      fun a => (st.context a s).block.data

/-- From `st` the merge makes the block `b` and leaves `st'`. -/
structure Merges (st : ConsensusStorage) (v : String) (s : ℕ) (b : Block)
    (st' : ConsensusStorage) : Prop where
  sorted : b.data.Pairwise fun message₁ message₂ => message₁.timestamp ≤ message₂.timestamp
  perm : b.data.Perm (st.contributorsData v s)
  timestamp : b.timestamp = (st.context v s).block.timestamp
  slot : b.slot = (st.context v s).block.slot
  state : b.state = .COMPLETED
  stored : st'.context v s = { st.context v s with block := b }
  others : ∀ a s', a ≠ v ∨ s' ≠ s → st'.context a s' = st.context a s'
  keys : st'.contexts.keys = st.contexts.keys
  rest : st'.rest = st.rest

/-- One address is marked, and every address has a flag. -/
structure Mergeable (st : ConsensusStorage) (v : String) (s : ℕ) : Prop where
  mem : v ∈ st.contexts.keys
  marked : ∀ a ∈ st.contexts.keys, (st.context a s).isValidator = decide (a = v)
  flags : ∀ a ∈ st.contexts.keys, (st.context a s).isContributing.isSome

theorem flatMap_contribution (st : ConsensusStorage) (v : String) (s : ℕ) (as : List String) :
    as.flatMap (st.contribution v s) =
      (as.filter fun a => a ≠ v ∧ (st.context a s).isContributing = some true).flatMap
        fun a => (st.context a s).block.data := by
  induction as with
  | nil => rfl
  | cons a as ih =>
    rw [List.flatMap_cons, ih, contribution, List.filter_cons]
    by_cases ha : a ≠ v ∧ (st.context a s).isContributing = some true
    · rw [if_pos ha, if_pos (decide_eq_true ha), List.flatMap_cons]
    · rw [if_neg ha, if_neg (by simpa using ha), List.nil_append]

/-- **`mergeContributors` merges exactly the contributors' data.** -/
theorem mergeContributors_merges (order : TimestampSort) (h : Mergeable st v s)
    (hc : cStr v = v) :
    ∃ b st', st.mergeContributors order s = some (b, st') ∧ Merges st v s b st' := by
  have hmarked : st.markedValidator s = some v :=
    markedValidator_eq h.mem (by simp [h.marked v h.mem]) fun a ha hm => by
      simpa [h.marked a ha] using hm
  have hmerge := mergeContributors_eq order hmarked hc h.flags
  have hcontext := context_mergeContributors hmerge
  simp only [hmarked, Option.map_some, hc, Option.some.injEq] at hcontext
  refine ⟨_, _, hmerge, ?_⟩
  constructor
  case sorted => exact order.sorted _
  case perm =>
    rw [contributorsData, ← flatMap_contribution]
    exact order.perm _
  case stored => simpa using hcontext v s
  case others =>
    intro a s' hne
    rw [hcontext, if_neg]
    rintro ⟨rfl, rfl⟩
    simp at hne
  case keys =>
    have hall := (untouched_accessAll st s).keys
    have haccess : ((st.accessAll s).access v s).contexts.keys = st.contexts.keys :=
      (keys_write_of_mem (by rw [hall]; exact h.mem) _).trans hall
    exact (keys_write_of_mem (by rw [haccess]; exact h.mem) _).trans haccess
  case rest => exact rest_mergeContributors hmerge
  all_goals rfl

/-- What the nodes have said about slot 2: each whether it contributes, and what block it has.  The
clock shows 1400 when the entries are made. -/
def told (contributions : List (String × Bool × List Message)) : ConsensusStorage :=
  contributions.foldl (fun st c => (st.setContribution c.1 2 c.2.1).addBlock c.1 2
    (Block.ofData 1000 c.2.2))
    { emptyStorage (plainEnv "a" [] 2 [] (fun _ => 5) five_range) with stamp := fun _ _ _ => 1400 }

/-- The validator is marked. -/
def marked (st : ConsensusStorage) (v : String) : ConsensusStorage :=
  st.modify v 2 fun c => { c with isValidator := true }

/-- Four nodes: `b` is the validator, `a` and `d` contribute as well, and `c` does not, although it
has a block. -/
def fourNodes : ConsensusStorage :=
  (told [("a", true, [⟨800, "x", "a"⟩, ⟨600, "y", "a"⟩]),
    ("b", true, [⟨900, "z", "b"⟩, ⟨800, "u", "b"⟩]), ("c", false, [⟨700, "v", "c"⟩]),
    ("d", true, [⟨600, "w", "d"⟩])]).marked "b"

/-- The five messages of the contributors are merged and sorted, that of `c` is left out. -/
theorem mergeContributors_merges_fourNodes :
    ∃ b st', fourNodes.mergeContributors mergeSort 2 = some (b, st') ∧
      b.data.map Message.timestamp = [600, 600, 800, 800, 900] ∧
      b.data.Perm [⟨900, "z", "b"⟩, ⟨800, "u", "b"⟩, ⟨600, "w", "d"⟩, ⟨800, "x", "a"⟩,
        ⟨600, "y", "a"⟩] := by
  have hmergeable : Mergeable fourNodes "b" 2 :=
    ⟨by decide +kernel, by decide +kernel, by decide +kernel⟩
  obtain ⟨b, st', hmerge, h⟩ := mergeContributors_merges mergeSort hmergeable (by decide +kernel)
  have hdata : fourNodes.contributorsData "b" 2 = [⟨900, "z", "b"⟩, ⟨800, "u", "b"⟩,
      ⟨600, "w", "d"⟩, ⟨800, "x", "a"⟩, ⟨600, "y", "a"⟩] := by
    decide +kernel
  have hperm := hdata ▸ h.perm
  have hsorted : (b.data.map Message.timestamp).Pairwise (· ≤ ·) := List.pairwise_map.2 h.sorted
  have htimes := (hperm.map Message.timestamp).trans
    (show List.Perm _ [600, 600, 800, 800, 900] by decide)
  exact ⟨b, st', hmerge, htimes.eq_of_pairwise' hsorted (by decide), hperm⟩

/-- The table of one address, which contributes one message and is the validator. -/
def oneContributor (a : String) : ConsensusStorage :=
  (told [(a, true, [⟨900, "x", "a"⟩])]).marked a

/-- With a NUL byte in its address, the validator's block is not the one that is merged into: a new
entry is, with a block of another time. -/
theorem not_mergeContributors_merges_nul :
    ¬ ∀ (order : TimestampSort) (st : ConsensusStorage) (s : ℕ) (v : String), Mergeable st v s →
      ∃ b st', st.mergeContributors order s = some (b, st') ∧ Merges st v s b st' := by
  intro hall
  obtain ⟨b, st', hmerge, h⟩ := hall mergeSort (oneContributor "a\x00") 2 "a\x00"
    ⟨by decide +kernel, by decide +kernel, by decide +kernel⟩
  have hb : ∀ r ∈ (oneContributor "a\x00").mergeContributors mergeSort 2, r.1.timestamp = 1400 := by
    decide +kernel
  have htimestamp := h.timestamp
  rw [hb (b, st') hmerge] at htimestamp
  exact absurd htimestamp (by decide +kernel)

end ConsensusStorage

end BlockchainMessaging
