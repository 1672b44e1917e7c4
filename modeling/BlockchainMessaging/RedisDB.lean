import BlockchainMessaging.Itf
import BlockchainMessaging.Lib.RedisList

/-!
# The chain in Redis

A node keeps its chain as one Redis list of serialized blocks.  The text archive that
serializes a block is not part of the repository: `BlockArchive` is what the code relies on,
a pair of functions of which the second undoes the first.

## Main definitions

* `BlockArchive` — serialization of blocks.
* `RedisDB.add`, `RedisDB.update`, `RedisDB.remove`, `RedisDB.getByIndex` — the calls on
  the list of one blockchain.
-/

namespace BlockchainMessaging

/-- `serialization::BlockSerializer`: what it encodes, it decodes.  `none` stands for the
exception of a text that is no archive. -/
structure BlockArchive where
  serialize : Block → String
  deserialize : String → Option Block
  deserialize_serialize : ∀ b, deserialize (serialize b) = some b

/-- Different blocks are serialized differently. -/
theorem BlockArchive.serialize_injective (A : BlockArchive) :
    Function.Injective A.serialize := by
  intro b c h
  have hb := A.deserialize_serialize b
  rw [h, A.deserialize_serialize c] at hb
  exact (Option.some.inj hb).symm

namespace RedisDB

variable (A : BlockArchive)

/-- `RedisDB::add`: append the block, return the length of the list. -/
def add (block : Block) (chain : List String) : List String × ℤ :=
  RedisList.rpush chain (A.serialize block)

/-- `RedisDB::update`: overwrite the element at `index`; `none` is the error reply. -/
def update (block : Block) (index : ℤ) (chain : List String) : Option (List String) :=
  RedisList.lset chain index (A.serialize block)

/-- `RedisDB::remove`: remove the first element that is this block, serialized. -/
def remove (block : Block) (chain : List String) : List String :=
  RedisList.lrem chain (A.serialize block)

/-- `RedisDB::getByIndex`: the parameter is an `int`, whatever the caller passes.  An empty
range is the empty optional; the outer `none` is the exception of the deserializer. -/
def getByIndex (index : ℤ) (chain : List String) : Option (Option Block) :=
  match RedisList.lrange chain (toInt32 index) (toInt32 index) with
  | [] => some none
  | serialized :: _ => (A.deserialize serialized).map some

@[simp] theorem add_fst (block : Block) (chain : List String) :
    (add A block chain).1 = chain ++ [A.serialize block] := rfl

@[simp] theorem add_snd (block : Block) (chain : List String) :
    (add A block chain).2 = chain.length + 1 := rfl

/-- An index that fits an `int` and lies in the list reads that element. -/
theorem getByIndex_natCast {chain : List String} {n : ℕ} (h : n < chain.length)
    (hn : n < 2 ^ 31) : getByIndex A n chain = (A.deserialize chain[n]).map some := by
  have hint : toInt32 n = n := by
    rw [toInt32]
    exact Int.bmod_eq_of_le (by omega) (by omega)
  have hpos : RedisList.position chain (toInt32 n) = n := by
    rw [hint, RedisList.position_natCast]
  rw [getByIndex, RedisList.lrange_of_position chain _ hpos h]

/-- The last element of a chain of blocks can be read at its index, even when the index does
not fit an `int`: then some other block is read. -/
theorem exists_getByIndex {chain : List String} {n : ℕ} (h : chain.length = n + 1)
    (hs : ∀ text ∈ chain, ∃ b, A.serialize b = text) :
    ∃ b, getByIndex A n chain = some (some b) := by
  have hint : (0 ≤ toInt32 n ∧ toInt32 n ≤ n) ∨ (toInt32 n < 0 ∧ -n ≤ toInt32 n) := by
    simp only [toInt32, Int.bmod_def]
    split <;> omega
  obtain ⟨k, hk, hlt⟩ : ∃ k : ℕ, RedisList.position chain (toInt32 n) = k ∧ k < chain.length := by
    have hrange : 0 ≤ RedisList.position chain (toInt32 n) ∧
        RedisList.position chain (toInt32 n) < chain.length := by
      simp only [RedisList.position]
      split <;> omega
    exact ⟨(RedisList.position chain (toInt32 n)).toNat, by omega, by omega⟩
  obtain ⟨b, hb⟩ := hs _ (List.getElem_mem hlt)
  refine ⟨b, ?_⟩
  simp [getByIndex, RedisList.lrange_of_position chain _ hk hlt, ← hb, A.deserialize_serialize]

/-- An update at the index of the last element replaces it. -/
theorem update_last (block : Block) (chain : List String) (text : String) :
    update A block chain.length (chain ++ [text]) = some (chain ++ [A.serialize block]) := by
  rw [update, RedisList.lset_natCast _ (by simp)]
  simp

end RedisDB

end BlockchainMessaging
