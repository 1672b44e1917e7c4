import BlockchainMessaging.Itf
import BlockchainMessaging.Lib.UnorderedMap

/-!
# The consensus storage of a node

`ConsensusStorage` is the two-level table in which a node keeps what it knows about every
address in every slot, together with the synchronization contexts of the slots.  Each public
method runs under the storage's mutex, so each is one atomic function here.  A method that
can throw returns an `Option`, with `none` for the exception.

The table is read through `operator[]`, which inserts a default entry for a key it does not
find; the functions below therefore return the storage also where they only ask a question.
The block in a default entry bears the time of its construction.  What the clock will show then
is in the storage from the start, so that a function need not be told whether it inserts.

## Main definitions

* `ConsensusContext`, `SlotSychronizationContext`, `ConsensusStorage` — the data.
* `ConsensusContext.fresh` — a default entry.
* `ConsensusStorage.context` — the entry of an address in a slot, an absent one read as the
  default.
* `initConditions`, `initContexts`, `clearSlot`, `getSlotSynchronizationContext` — the life
  of a slot.
* `addContext`, `setContribution`, `fillElectionValue`, `addBlock`, `marAsResolved` — the
  setters.
* `areAllContributorsConfirmed`, `isAnyNodeContributing`, `areAllElectionValuesPresent`,
  `isElectionValueUnique`, `isAllContributorsDataCollected`, `getValidator` — the queries.
* `removeElectionValueDuplicates`, `markValidator`, `mergeContributors` — the rest.
-/

namespace BlockchainMessaging

/-- `db::ConsensusContext`: what is known about one address in one slot.  The fields
`address` and `slot` of the source are never written or read. -/
structure ConsensusContext where
  node : String := ""
  isContributing : Option Bool := none
  isValidator : Bool := false
  electionValue : ℕ := 0
  block : Block
  isResolved : Bool := false
  deriving DecidableEq, Repr

/-- `ConsensusContext{}`, when the clock shows `now`: the block in it is a `Block{}`. -/
def ConsensusContext.fresh (now : ℕ) : ConsensusContext := { block := Block.ofData now [] }

/-- `db::SlotSychronizationContext`: the flag.  The mutex and the condition variable next to
it have no value of their own; who owns and who waits is part of the threads' state. -/
structure SlotSychronizationContext where
  isSynchronized : Bool := false
  deriving DecidableEq, Repr

/-- `db::ConsensusStorage`.  A `shared_ptr` in `conditions` is `none` when it is null and
otherwise the position of its object in `allocated`.

`stamp address slot` are the times at which `contexts[address][slot]` is constructed: first that of
the entry that is there, or will be there next; then that of the entry after the next `clearSlot`,
and so on.  It is no field of the source, but what the clock will show. -/
structure ConsensusStorage where
  nodeConfiguration : NodeConfiguration
  contexts : UnorderedMap String (UnorderedMap ℕ ConsensusContext)
  conditions : UnorderedMap ℕ (Option ℕ)
  allocated : List SlotSychronizationContext
  stamp : String → ℕ → ℕ → ℕ

namespace ConsensusStorage

/-! ## Access to one entry -/

/-- The inner table of an address, empty when there is none yet. -/
def slots (st : ConsensusStorage) (address : String) : UnorderedMap ℕ ConsensusContext :=
  (st.contexts.find address).getD .empty

/-- What `contexts[address][slot]` evaluates to. -/
def context (st : ConsensusStorage) (address : String) (slot : ℕ) : ConsensusContext :=
  ((st.slots address).find slot).getD (.fresh (st.stamp address slot 0))

/-- The assignment `contexts[address][slot] = c`. -/
def write (st : ConsensusStorage) (address : String) (slot : ℕ) (c : ConsensusContext) :
    ConsensusStorage :=
  { st with contexts := st.contexts.set address ((st.slots address).set slot c) }

/-- What the mere evaluation of `contexts[address][slot]` does to the table. -/
def access (st : ConsensusStorage) (address : String) (slot : ℕ) : ConsensusStorage :=
  st.write address slot (st.context address slot)

/-- Update some fields of `contexts[address][slot]`. -/
def modify (st : ConsensusStorage) (address : String) (slot : ℕ)
    (f : ConsensusContext → ConsensusContext) : ConsensusStorage :=
  st.write address slot (f (st.context address slot))

/-- What a loop does that evaluates `contexts[address][slot]` for every address. -/
def accessAll (st : ConsensusStorage) (slot : ℕ) : ConsensusStorage :=
  st.contexts.keys.foldl (fun st address => st.access address slot) st

/-! ## The life of a slot -/

/-- `initContexts`: `try_emplace` of a default entry for self and every configured node. -/
def initContexts (st : ConsensusStorage) (slot : ℕ) : ConsensusStorage :=
  st.nodeConfiguration.addresses.foldl (fun st address => st.access address slot) st

/-- `initConditions`: a new synchronization context, unless the slot has an entry. -/
def initConditions (st : ConsensusStorage) (slot : ℕ) : ConsensusStorage :=
  if slot ∈ st.conditions.keys then st
  else { st with
    conditions := st.conditions.set slot (some st.allocated.length)
    allocated := st.allocated ++ [{}] }

/-- `getSlotSynchronizationContext`: a copy of `conditions[slot]`, null for a new entry. -/
def getSlotSynchronizationContext (st : ConsensusStorage) (slot : ℕ) :
    Option ℕ × ConsensusStorage :=
  match st.conditions.find slot with
  | some pointer => (pointer, st)
  | none => (none, { st with conditions := st.conditions.set slot none })

/-- `clearSlot`: both maps lose the slot.  The erasure from `conditions` stands inside the
loop over `contexts`.  The next entries of the slot are new ones. -/
def clearSlot (st : ConsensusStorage) (slot : ℕ) : ConsensusStorage :=
  { st with
    contexts := st.contexts.mapValues fun slotContexts => slotContexts.erase slot
    conditions := if st.contexts.keys = [] then st.conditions
      else st.conditions.erase slot
    stamp := fun address slot' k =>
      if slot' = slot then st.stamp address slot (k + 1) else st.stamp address slot' k }

/-- `isSynchronized.store(value)` on a synchronization context. -/
def storeSynchronized (st : ConsensusStorage) (pointer : ℕ) (value : Bool) :
    ConsensusStorage :=
  { st with allocated := st.allocated.set pointer ⟨value⟩ }

/-- `isSynchronized.load()` on a synchronization context. -/
def loadSynchronized (st : ConsensusStorage) (pointer : ℕ) : Bool :=
  (st.allocated[pointer]?.map SlotSychronizationContext.isSynchronized).getD false

/-! ## Setters -/

/-- `addContext`. -/
def addContext (st : ConsensusStorage) (address node : String) (slot : ℕ) :
    ConsensusStorage :=
  st.modify address slot fun c => { c with node }

/-- `setContribution`. -/
def setContribution (st : ConsensusStorage) (address : String) (slot : ℕ)
    (isContributing : Bool) : ConsensusStorage :=
  st.modify address slot fun c => { c with isContributing := some isContributing }

/-- `fillElectionValue`. -/
def fillElectionValue (st : ConsensusStorage) (address : String) (slot electionValue : ℕ) :
    ConsensusStorage :=
  st.modify address slot fun c => { c with electionValue }

/-- `addBlock`. -/
def addBlock (st : ConsensusStorage) (address : String) (slot : ℕ) (block : Block) :
    ConsensusStorage :=
  st.modify address slot fun c => { c with block }

/-- `marAsResolved`. -/
def marAsResolved (st : ConsensusStorage) (address : String) (slot : ℕ) : ConsensusStorage :=
  st.modify address slot fun c => { c with isResolved := true }

/-! ## Queries -/

/-- `std::all_of` over the table of one slot, with a predicate that may throw. -/
def allOf (p : ConsensusContext → Option Bool) (slot : ℕ) :
    List String → ConsensusStorage → Option Bool × ConsensusStorage
  | [], st => (some true, st)
  | address :: rest, st =>
      match p (st.context address slot) with
      | some true => allOf p slot rest (st.access address slot)
      | r => (r, st.access address slot)

/-- `std::any_of` over the table of one slot, with a predicate that may throw. -/
def anyOf (p : ConsensusContext → Option Bool) (slot : ℕ) :
    List String → ConsensusStorage → Option Bool × ConsensusStorage
  | [], st => (some false, st)
  | address :: rest, st =>
      match p (st.context address slot) with
      | some false => anyOf p slot rest (st.access address slot)
      | r => (r, st.access address slot)

/-- `areAllContributorsConfirmed`: every address has a contribution flag. -/
def areAllContributorsConfirmed (st : ConsensusStorage) (slot : ℕ) :
    Option Bool × ConsensusStorage :=
  allOf (fun c => some c.isContributing.isSome) slot st.contexts.keys st

/-- `isAnyNodeContributing`: throws on the first missing flag it meets. -/
def isAnyNodeContributing (st : ConsensusStorage) (slot : ℕ) :
    Option Bool × ConsensusStorage :=
  anyOf (fun c => c.isContributing) slot st.contexts.keys st

/-- `areAllElectionValuesPresent`: every address has a positive election value. -/
def areAllElectionValuesPresent (st : ConsensusStorage) (slot : ℕ) :
    Option Bool × ConsensusStorage :=
  allOf (fun c => some (decide (0 < c.electionValue))) slot st.contexts.keys st

/-- `isAllContributorsDataCollected`: every contributing address has a block with data;
throws on the first missing flag it meets. -/
def isAllContributorsDataCollected (st : ConsensusStorage) (slot : ℕ) :
    Option Bool × ConsensusStorage :=
  allOf (fun c => c.isContributing.map fun isContributing =>
    if isContributing then decide (0 < c.block.data.length) else true) slot
    st.contexts.keys st

/-- `isElectionValueUnique`: no other address has the election value of this one. -/
def isElectionValueUnique (st : ConsensusStorage) (address : String) (slot : ℕ) :
    Bool × ConsensusStorage :=
  let st := st.access address slot
  let electionValue := (st.context address slot).electionValue
  let r := anyOf (fun c => some (decide (c.electionValue = electionValue))) slot
    (st.contexts.keys.filter (· ≠ address)) st
  (r.1 ≠ some true, r.2)

/-- The scan of `getValidatorimpl`: the last address in iteration order that is marked. -/
def markedValidator (st : ConsensusStorage) (slot : ℕ) : Option String :=
  st.contexts.keys.foldl (fun validator address =>
    if (st.context address slot).isValidator then some address else validator) none

/-- `getValidatorimpl`: with nobody marked the string is built from a null pointer. -/
def getValidator (st : ConsensusStorage) (slot : ℕ) : Option String × ConsensusStorage :=
  ((st.markedValidator slot).map cStr, st.accessAll slot)

/-- `isResolved`. -/
def isResolved (st : ConsensusStorage) (address : String) (slot : ℕ) :
    Bool × ConsensusStorage :=
  ((st.context address slot).isResolved, st.access address slot)

/-- `getBlock`. -/
def getBlock (st : ConsensusStorage) (address : String) (slot : ℕ) :
    Block × ConsensusStorage :=
  ((st.context address slot).block, st.access address slot)

/-! ## Election -/

/-- The addresses that `removeElectionValueDuplicates` collects.  The inner loop runs over
the whole table, the address of the outer loop included. -/
def duplicatedAddresses (st : ConsensusStorage) (slot : ℕ) : List String :=
  st.contexts.keys.filter fun address => st.contexts.keys.any fun addressCompared =>
    (st.context address slot).electionValue = (st.context addressCompared slot).electionValue

/-- `removeElectionValueDuplicates`. -/
def removeElectionValueDuplicates (st : ConsensusStorage) (slot : ℕ) : ConsensusStorage :=
  (st.duplicatedAddresses slot).foldl (fun st address =>
    st.modify address slot fun c => { c with electionValue := 0 }) (st.accessAll slot)

/-- The addition of `std::accumulate` in `markValidator`: `int` plus `uint64_t` is
`uint64_t`, and the accumulator is an `int`. -/
def accumulateElectionValue (prev : ℤ) (electionValue : ℕ) : ℤ :=
  toInt32 ((prev + electionValue) % 2 ^ 64)

/-- The sum that `markValidator` takes the parity of. -/
def electionSum (st : ConsensusStorage) (slot : ℕ) : ℤ :=
  st.contexts.keys.foldl (fun prev address =>
    accumulateElectionValue prev (st.context address slot).electionValue) 0

/-- One step of the two scans of `markValidator`. -/
def improve (better : ℕ → ℕ → Bool) (best : String × ℕ) (address : String) (v : ℕ) :
    String × ℕ :=
  if better v best.2 then (address, v) else best

/-- The address that `markValidator` elects: greatest value for an odd sum, least value for
an even one, the first in iteration order among equals.  `none` without any address, where
the source dereferences `contexts.begin()`. -/
def electedValidator (st : ConsensusStorage) (slot : ℕ) : Option String :=
  match st.contexts.keys with
  | [] => none
  | first :: rest =>
      let value := fun address => (st.context address slot).electionValue
      let better : ℕ → ℕ → Bool :=
        if (st.electionSum slot).tmod 2 ≠ 0 then fun v value => value < v
        else fun v value => v < value
      some ((first :: rest).foldl (fun best address =>
        improve better best address (value address)) (first, value first)).1

/-- `markValidator`. -/
def markValidator (st : ConsensusStorage) (slot : ℕ) : Option ConsensusStorage :=
  (st.electedValidator slot).map fun validator =>
    (st.accessAll slot).modify (cStr validator) slot fun c => { c with isValidator := true }

/-! ## Merging -/

/-- What the loop of `mergeContributors` appends to the validator's block: the data of every
other address that contributes.  The flag of the validator itself is not looked at. -/
def contributedData (st : ConsensusStorage) (validator : String) (slot : ℕ) :
    List String → Option (List Message)
  | [] => some []
  | address :: rest =>
      if address = validator then contributedData st validator slot rest
      else do
        let isContributing ← (st.context address slot).isContributing
        let data ← contributedData st validator slot rest
        return (if isContributing then (st.context address slot).block.data else []) ++ data

/-- `mergeContributors`, with the sorting function of the standard library. -/
def mergeContributors (order : TimestampSort) (st : ConsensusStorage) (slot : ℕ) :
    Option (Block × ConsensusStorage) := do
  let validator := cStr (← st.markedValidator slot)
  let st := (st.accessAll slot).access validator slot
  let validatorBlock := (st.context validator slot).block
  let data ← st.contributedData validator slot st.contexts.keys
  let merged : Block :=
    { validatorBlock with state := .COMPLETED, data := order.sort (validatorBlock.data ++ data) }
  return (merged, st.addBlock validator slot merged)

end ConsensusStorage

end BlockchainMessaging
