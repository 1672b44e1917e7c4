import BlockchainMessaging.VectorSerializer

/-!
# The tail of the chain

`RedisDB::get` asks Redis for the last elements of the list and hands all of them to the overload of
`deserialize` for vectors, which can only do with none.  A number of blocks that is zero does not
help: the negative index `-1 * 0` is not negative, and the range is the whole list.

## Main definitions

* `RedisDB.get` — the call.
* `RedisDB.addAll` — the list of a blockchain after a sequence of calls of `RedisDB::add`.
* `RedisDB.get_addAll_iff` — when the last blocks come back.
-/

namespace BlockchainMessaging.RedisDB

variable (A : BlockArchive)

/-- `RedisDB::get`. -/
def get (numberOfBlocks : ℤ) (chain : List String) : Except TransformError (List Block) :=
  Serializer.deserializeVector A.deserialize
    (RedisList.lrange chain (-1 * numberOfBlocks) (-1))

/-- The list of a blockchain after a sequence of calls of `RedisDB::add`. -/
def addAll (blocks : List Block) : List String :=
  blocks.foldl (fun chain block => (add A block chain).1) []

/-- Every call appends its block. -/
theorem addAll_eq_map (blocks : List Block) : addAll A blocks = blocks.map A.serialize := by
  induction blocks using List.reverseRecOn with
  | nil => rfl
  | append_singleton blocks block ih =>
    rw [addAll, List.foldl_append, List.foldl_cons, List.foldl_nil, ← addAll, ih, add_fst,
      List.map_append]
    rfl

/-- What is handed to the deserializer: the encodings of the last blocks, or of all of them when
none is asked for. -/
theorem lrange_addAll (blocks : List Block) (n : ℕ) :
    RedisList.lrange (addAll A blocks) (-1 * n) (-1) =
      (if n = 0 then blocks else blocks.rtake n).map A.serialize := by
  rw [addAll_eq_map]
  split
  · next hn =>
    subst hn
    exact RedisList.lrange_all _
  · next hn =>
    rw [RedisList.lrange_tail _ hn, List.rtake, List.rtake, List.map_drop, List.length_map]

/-- As soon as there is a block, the result of `get` is written outside. -/
theorem get_addAll {blocks : List Block} (hblocks : blocks ≠ []) (n : ℕ) :
    get A n (addAll A blocks) = .error .outOfBounds := by
  have hlast : (if n = 0 then blocks else blocks.rtake n) ≠ [] := by
    have hlength : 0 < blocks.length := List.length_pos_iff.2 hblocks
    split
    · exact hblocks
    · apply List.ne_nil_of_length_pos
      rw [List.rtake, List.length_drop]
      omega
  obtain ⟨first, rest, hfirst⟩ := List.exists_cons_of_ne_nil hlast
  rw [get, lrange_addAll, hfirst, List.map_cons]
  exact Serializer.deserializeVector_cons _ _ (A.deserialize_serialize first)

/-- **The tail of the chain.**  After any sequence of calls of `add`, `get` returns the last blocks
that were added, in the order of the chain, if and only if no block was added. -/
theorem get_addAll_iff (blocks : List Block) (n : ℕ) :
    get A n (addAll A blocks) = .ok (blocks.rtake n) ↔ blocks = [] := by
  constructor
  · intro h
    by_contra hblocks
    rw [get_addAll A hblocks n] at h
    cases h
  · rintro rfl
    rw [get, lrange_addAll, List.rtake_nil, ite_self]
    rfl

/-- The last block of a chain of one block does not come back. -/
theorem not_get_addAll :
    ¬ ∀ (blocks : List Block) (n : ℕ),
      get textArchive n (addAll textArchive blocks) = .ok (blocks.rtake n) := by
  intro hall
  have hget := hall [⟨.COMPLETED, 1000, 1, []⟩] 1
  rw [get_addAll textArchive (List.cons_ne_nil _ _) 1] at hget
  cases hget

end BlockchainMessaging.RedisDB
