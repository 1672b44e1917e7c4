import Mathlib.Data.List.Sort
import BlockchainMessaging.Lib.TextCodec
import BlockchainMessaging.RedisDB

/-!
# A text archive and a sort

The model takes the text archive and the sorting function from outside.  Here is one of
each, so that runs can be evaluated: an archive that writes the fields of a block in the
order in which `serialize` visits them, and a merge sort.

## Main definitions

* `textArchive` — a `BlockArchive`.
* `mergeSort` — a `TimestampSort`, a stable one.
-/

namespace BlockchainMessaging

/-- The number of an enumerator of `BlockState`. -/
def BlockState.code : BlockState → ℕ
  | .PENDING => 0
  | .COMPLETED => 1

/-- The enumerator with a number. -/
def BlockState.ofCode : ℕ → Option BlockState
  | 0 => some .PENDING
  | 1 => some .COMPLETED
  | _ => none

/-- A message: timestamp, data, author. -/
def messageCodec : TextCodec Message :=
  (TextCodec.nat.prod (TextCodec.string.prod TextCodec.string)).map
    (fun p => some ⟨p.1, p.2.1, p.2.2⟩)
    (fun m => (m.timestamp, m.data, m.author)) fun _ => rfl

/-- A block: state, timestamp, slot, data. -/
def blockCodec : TextCodec Block :=
  ((TextCodec.nat.map BlockState.ofCode BlockState.code fun s => by cases s <;> rfl).prod
    (TextCodec.nat.prod (TextCodec.nat.prod messageCodec.list))).map
    (fun p => some ⟨p.1, p.2.1, p.2.2.1, p.2.2.2⟩)
    (fun b => (b.state, b.timestamp, b.slot, b.data)) fun _ => rfl

/-- The archive that writes a block with `blockCodec`. -/
def textArchive : BlockArchive where
  serialize := fun b => String.ofList (blockCodec.encode b)
  deserialize := fun text => blockCodec.decodeAll text.toList
  deserialize_serialize := fun b => by
    rw [String.toList_ofList, blockCodec.decodeAll_encode]

/-- The order of the comparator of `mergeContributors`. -/
def Message.noLater (message₁ message₂ : Message) : Bool :=
  message₁.timestamp ≤ message₂.timestamp

/-- A stable sort by timestamp. -/
def mergeSort : TimestampSort where
  sort := fun l => l.mergeSort Message.noLater
  perm := fun l => List.mergeSort_perm l _
  sorted := fun l => by
    have htrans : ∀ a b c : Message, a.noLater b = true → b.noLater c = true →
        a.noLater c = true := by
      intro a b c hab hbc
      simp only [Message.noLater, decide_eq_true_eq] at hab hbc ⊢
      omega
    have htotal : ∀ a b : Message, (a.noLater b || b.noLater a) = true := by
      intro a b
      simp only [Message.noLater, Bool.or_eq_true, decide_eq_true_eq]
      omega
    exact (List.pairwise_mergeSort htrans htotal l).imp fun hab => by
      simpa [Message.noLater] using hab

end BlockchainMessaging
