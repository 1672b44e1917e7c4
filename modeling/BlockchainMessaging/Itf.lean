import Mathlib.Data.List.Basic
import Mathlib.Data.Int.ModEq

/-!
# Interface types

The records that the subsystems exchange: client messages and blocks, the header and the
body of a consensus message, and the node configuration.  Unsigned 64-bit fields are `ℕ`:
they are stored, compared and divided, never added up, so no wrap-around can occur in them.

## Main definitions

* `Time.getSlot` — the slot a timestamp falls into.
* `Message`, `BlockState`, `Block` — what the chain is made of.
* `TimestampSort` — sorting a block's messages.
* `Header`, `ConsensusBody`, `ConsensusMessage` — what the nodes send each other.
* `NodeInfo`, `NodeConfiguration` — who they are.
* `toInt32`, `cStr` — the two conversions of the language that the code relies on.
-/

namespace BlockchainMessaging

/-! ## Conversions -/

/-- Conversion of an integer to `int`, modulo `2 ^ 32`. -/
def toInt32 (x : ℤ) : ℤ := Int.bmod x (2 ^ 32)

/-- The string that is built back from the `data()` pointer of a `string_view`: it ends at
the first NUL byte. -/
def cStr (s : String) : String := String.ofList (s.toList.takeWhile (· ≠ '\x00'))

/-! ## Time -/

/-- `Time::SLOT`: the length of a slot in milliseconds. -/
def Time.SLOT : ℕ := 500

/-- `Time::getSlot(timestamp)`. -/
def Time.getSlot (timestamp : ℕ) : ℕ := timestamp / Time.SLOT

/-! ## Blocks -/

/-- `common::itf::Message`: one line of a client. -/
structure Message where
  timestamp : ℕ
  data : String
  author : String
  deriving DecidableEq, Repr

/-- `common::itf::BlockState`. -/
inductive BlockState
  | PENDING
  | COMPLETED
  deriving DecidableEq, Repr

/-- `common::itf::Block`.  Every constructor that the program calls stores the clock, see
`Block.ofData`; the zeros stand for what it stores in a block that is overwritten before it is
read, as those of a new slot context are. -/
structure Block where
  state : BlockState := .PENDING
  timestamp : ℕ := 0
  slot : ℕ := 0
  data : List Message := []
  deriving DecidableEq, Repr

/-- `Block(data)` when the clock shows `now`; `Block{}` is the case without data. -/
def Block.ofData (now : ℕ) (data : List Message) : Block :=
  { timestamp := now, slot := Time.getSlot now, data }

@[simp] theorem Block.data_ofData (now : ℕ) (data : List Message) :
    (Block.ofData now data).data = data := rfl

/-- `std::sort` with the comparator on timestamps: some rearrangement that is sorted by
timestamp.  The order among equal timestamps is the library's choice. -/
structure TimestampSort where
  sort : List Message → List Message
  perm : ∀ l, (sort l).Perm l
  sorted : ∀ l, (sort l).Pairwise fun message₁ message₂ =>
    message₁.timestamp ≤ message₂.timestamp

/-! ## Consensus messages -/

/-- `io::ConsensusOperation`. -/
inductive ConsensusOperation
  | INSPECTION
  | ELECTION
  | UPLOADING
  | BROADCAST
  deriving DecidableEq, Repr

/-- `io::Header`. -/
structure Header where
  operation : ConsensusOperation := .INSPECTION
  node : String := ""
  address : String := ""
  timestamp : ℕ := 0
  slot : ℕ := 0
  deriving DecidableEq, Repr

/-- What follows the header: a `ContributionWrapper`, an `ElectionValueWrapper` or a `Block`. -/
inductive ConsensusBody
  | contribution (isContributing : Bool)
  | electionValue (value : ℕ)
  | block (block : Block)
  deriving DecidableEq, Repr

/-- A consensus message, as `io::split` and the deserializers take it apart. -/
structure ConsensusMessage where
  header : Header
  body : ConsensusBody
  deriving DecidableEq, Repr

/-- The body is of the kind that the handler of the header's operation deserializes. -/
def ConsensusMessage.wellFormed (m : ConsensusMessage) : Bool :=
  match m.header.operation, m.body with
  | .INSPECTION, .contribution _ => true
  | .ELECTION, .electionValue _ => true
  | .UPLOADING, .block _ => true
  | .BROADCAST, .block _ => true
  | _, _ => false

/-! ## Configuration -/

/-- `common::NodeInfo`. -/
structure NodeInfo where
  address : String
  name : String
  deriving DecidableEq, Repr

/-- `common::NodeConfiguration`. -/
structure NodeConfiguration where
  self : NodeInfo
  nodes : List NodeInfo
  deriving DecidableEq, Repr

/-- The addresses `initContexts` creates entries for: the node's own and its peers'. -/
def NodeConfiguration.addresses (c : NodeConfiguration) : List String :=
  c.self.address :: c.nodes.map NodeInfo.address

end BlockchainMessaging
