import BlockchainMessaging.Buffer
import BlockchainMessaging.ConsensusStorage
import BlockchainMessaging.RedisDB

/-!
# One node working on one slot

Two threads of a node touch the storage of a slot: the slot's own thread, which runs the
thirteen handlers of `SlotHandler` one after the other, and the thread that consumes the
consensus queue.  Both are given here at the granularity of single calls: a step is one
call of `ConsensusStorage`, of `RedisDB` or of a channel, or one step of a wait on the
slot's condition variable.  `SlotPc` names the next call of the slot thread; the consensus
thread has a list of calls still to be made for the message in hand.

A wait is the usual sequence: take the mutex, evaluate the predicate, give up the mutex and
sleep in one step, and start over with the evaluation when woken.  The standard lets a sleep
end at any time, so `wakeStep` is always possible for a sleeping thread.

A message to all peers is published to all channels in one step.  Every delivery can be
delayed at will, so separate publications would show no other behaviour.

## Main definitions

* `SlotEnv` — what a run takes from outside: configuration, block, clock, random values.
* `SlotContext`, `SlotPc`, `Node` — the state.
* `slotMove`, `slotStep` — the slot thread.
* `HandlerOp`, `handlerScript`, `handlerStep` — the consensus thread.
-/

namespace BlockchainMessaging

/-! ## State -/

/-- What one run of `SlotHandler` takes from outside. -/
structure SlotEnv where
  configuration : NodeConfiguration
  /-- The slot that the init callback of the tick reads from the clock. -/
  slot : ℕ
  /-- What `buffer.pop()` returns. -/
  popped : Option Block
  /-- The buffer only holds blocks that are pending and have data. -/
  popped_queued : ∀ b ∈ popped, b.data ≠ [] ∧ b.state = .PENDING
  /-- The clock when an empty block is made instead. -/
  now : ℕ
  /-- The values that `RandomNumberGenerator::generate` returns, call by call. -/
  draw : ℕ → ℕ
  draw_range : ∀ k, 1 ≤ draw k ∧ draw k ≤ 65535
  archive : BlockArchive
  order : TimestampSort

namespace SlotEnv

/-- The address of the node. -/
def self (E : SlotEnv) : String := E.configuration.self.address

/-- The addresses with a remote channel. -/
def remotes (E : SlotEnv) : List String := E.configuration.nodes.map NodeInfo.address

/-- `PendingBlockSaver::save`: the popped block, or an empty one. -/
def pendingBlock (E : SlotEnv) : Block := E.popped.getD (Block.ofData E.now [])

/-- `PendingBlockSaver::save`: whether there was a block to pop. -/
def isContributing (E : SlotEnv) : Bool := E.popped.isSome

end SlotEnv

/-- `slot::SlotContext`.  A serialized header is kept as the header it decodes to. -/
structure SlotContext where
  isContributing : Bool := false
  header : Header := {}
  serializedHeader : Header := {}
  blockIndex : ℤ := 0
  block : Block := {}
  broadcastBlock : Block := {}
  shouldCallNextHandler : Bool := true
  validator : String := ""
  isValidator : Bool := false
  deriving DecidableEq, Repr

/-- The four waits of a slot. -/
inductive Waiter
  | inspection
  | election
  | contributorsData
  | broadcast
  deriving DecidableEq, Repr

/-- Where a thread stands in a wait. -/
inductive WaitPhase
  /-- Before `getSlotSynchronizationContext`. -/
  | enter
  /-- Before the check that needs no lock. -/
  | early
  /-- Before `lock.lock()`. -/
  | lock
  /-- Before an evaluation of the predicate. -/
  | eval
  /-- The predicate was false, the thread is not asleep yet. -/
  | window
  | asleep
  deriving DecidableEq, Repr

/-- The next call of the slot thread. -/
inductive SlotPc
  -- the init callback of the tick, before the thread begins
  | initConditions
  | initContexts
  -- PendingBlockSaver::save
  | saveAdd
  | saveBlock
  -- ContributionNotifier::notify
  | notifyContext
  | notifyContribution
  | notifyPublish
  -- InspectionWaiter, ElectionWaiter, ContributorsDataWaiter, BroadcastWaiter
  | wait (w : Waiter) (phase : WaitPhase)
  -- InspectionWaiter::wait, after the wait
  | inspectionReset
  -- PendingBlockRemover::tryRemove
  | removeCheck
  | removeGet
  | removeDelete
  -- ElectionNotifier::notify, from sendElectionValue or again from ElectionWaiter::wait
  | voteFill (again : Bool)
  | votePublish (again : Bool)
  -- ElectionWaiter::wait, around the wait
  | electPresent
  | electUnique
  | electRecheck
  | electRemoveDuplicates
  | electReset
  -- nominateValidator
  | nominate
  -- DataRelay::transfer
  | relayValidator
  | relayBlock
  | relayPublish
  | relayResolved
  -- ContributorsDataWaiter::wait, after the wait
  | collectMerge
  | collectResolved
  | collectReset
  -- BroadcastNotifier::broadcast
  | broadcast
  -- BroadcastWaiter::wait, the second conjunct of the predicate and after the wait
  | awaitResolved
  | awaitBlock
  | awaitReset
  -- CompleteBlockSaver::save
  | completeUpdate
  | completeClear
  -- publishBlock
  | publishBlock
  -- handle has returned, after all handlers or after shouldCallNextHandler was cleared
  | returned
  | stopped
  deriving DecidableEq, Repr

/-- Every place in the code. -/
def SlotPc.all : List SlotPc :=
  [.initConditions, .initContexts, .saveAdd, .saveBlock, .notifyContext, .notifyContribution,
    .notifyPublish] ++
  ([Waiter.inspection, .election, .contributorsData, .broadcast].flatMap fun w =>
    [WaitPhase.enter, .early, .lock, .eval, .window, .asleep].map (.wait w)) ++
  [.inspectionReset, .removeCheck, .removeGet, .removeDelete, .voteFill false, .voteFill true,
    .votePublish false, .votePublish true, .electPresent, .electUnique, .electRecheck,
    .electRemoveDuplicates, .electReset, .nominate, .relayValidator, .relayBlock, .relayPublish,
    .relayResolved, .collectMerge, .collectResolved, .collectReset, .broadcast, .awaitResolved,
    .awaitBlock, .awaitReset, .completeUpdate, .completeClear, .publishBlock, .returned, .stopped]

theorem SlotPc.mem_all (pc : SlotPc) : pc ∈ all := by
  cases pc
  case wait w phase => cases w <;> cases phase <;> decide +kernel
  case voteFill again => cases again <;> decide +kernel
  case votePublish again => cases again <;> decide +kernel
  all_goals decide +kernel

/-- The code is finite, so a statement about all its places can be checked. -/
instance (priority := low) {P : SlotPc → Prop} [DecidablePred P] : Decidable (∀ pc, P pc) :=
  decidable_of_iff (∀ pc ∈ SlotPc.all, P pc)
    ⟨fun h pc => h pc pc.mem_all, fun h pc _ => h pc⟩

/-- Why the process of a node has ended. -/
inductive Failure
  /-- A null synchronization context was dereferenced. -/
  | nullContext
  /-- `value()` of an empty contribution flag. -/
  | badOptional
  /-- `value()` of the empty optional that `getByIndex` returned. -/
  | noBlock
  /-- `lock()` of a lock that is owned already. -/
  | lockOwned
  /-- A string was built from a null pointer, or an empty map has no first element. -/
  | noValidator
  /-- There is no remote channel to the validator. -/
  | noChannel
  /-- Redis refused a command, or returned what is no block. -/
  | redisError
  /-- A message body could not be deserialized. -/
  | badArchive
  deriving DecidableEq, Repr

/-- The calls that the handler of a consensus message is made of. -/
inductive HandlerOp
  | initConditions
  | addContext
  | setContribution (isContributing : Bool)
  | fillElectionValue (value : ℕ)
  | addBlock (block : Block)
  | marAsResolved
  | areAllContributorsConfirmed
  | areAllElectionValuesPresent
  | isAllContributorsDataCollected
  | storeSynchronized
  | notifyAll
  deriving DecidableEq, Repr

/-- A node working on one slot. -/
structure Node where
  storage : ConsensusStorage
  chain : List String
  context : SlotContext := {}
  pc : SlotPc := .initConditions
  /-- `slotSynchronizationContext` of the wait that is running. -/
  sync : Option ℕ := none
  /-- The `unique_lock` of the wait that is running owns its mutex. -/
  owned : Bool := false
  /-- `b` of `PendingBlockRemover::tryRemove`. -/
  fetched : Block := {}
  /-- `electionValue` of `ElectionNotifier::createMessage`. -/
  electionValue : ℕ := 0
  /-- How many random values were drawn so far. -/
  draws : ℕ := 0
  /-- The blocks handed to `Consumer::publish`. -/
  published : List Block := []
  /-- `deserializedHeader` of the consensus thread. -/
  header : Header := {}
  /-- The calls that the consensus thread has still to make for the message in hand. -/
  todo : List HandlerOp := []
  failure : Option Failure := none

/-- A message on its way to the node with this address. -/
abbrev Send := String × ConsensusMessage

namespace Node

/-- The process ends. -/
def fail (n : Node) (f : Failure) : Node := { n with failure := some f }

/-- `context.header.operation = …; context.serializedHeader = serialize(context.header)`. -/
def setOperation (n : Node) (operation : ConsensusOperation) : Node :=
  { n with context := { n.context with
      header := { n.context.header with operation }
      serializedHeader := { n.context.header with operation } } }

/-- Branch on the answer of a query; no answer is the exception of an empty optional. -/
def ask (n : Node) (q : Option Bool × ConsensusStorage) (yes no : SlotPc) : Node :=
  match q.1 with
  | some true => { n with storage := q.2, pc := yes }
  | some false => { n with storage := q.2, pc := no }
  | none => { n with storage := q.2, failure := some .badOptional }

/-- `slotSynchronizationContext->isSynchronized.store(false)`, and the end of the lock. -/
def resetSynchronized (n : Node) (pc : SlotPc) : Node :=
  { n with
    storage := match n.sync with
      | some pointer => n.storage.storeSynchronized pointer false
      | none => n.storage
    owned := false
    pc }

/-- `slotSynchronizationContext = getSlotSynchronizationContext(slot)`, dereferenced next. -/
def getContext (n : Node) (pc : SlotPc) : Node :=
  let r := n.storage.getSlotSynchronizationContext n.context.header.slot
  match r.1 with
  | some pointer => { n with storage := r.2, sync := some pointer, pc }
  | none => { n with storage := r.2, failure := some .nullContext }

end Node

/-! ## The slot thread -/

/-- The predicate that a wait checks before it locks, and that it waits for.  The wait for
the broadcast also wants `isSynchronized` once it has locked. -/
def Waiter.predicate (w : Waiter) (n : Node) : Option Bool × ConsensusStorage :=
  let slot := n.context.header.slot
  match w with
  | .inspection => n.storage.areAllContributorsConfirmed slot
  | .election => n.storage.areAllElectionValuesPresent slot
  | .contributorsData => n.storage.isAllContributorsDataCollected slot
  | .broadcast =>
      let r := n.storage.isResolved n.context.validator slot
      (some r.1, r.2)

/-- Where the thread goes on when the predicate holds. -/
def Waiter.done : Waiter → SlotPc
  | .inspection => .inspectionReset
  | .election => .electRecheck
  | .contributorsData => .collectMerge
  | .broadcast => .awaitBlock

/-- One step of a wait. -/
def waitMove (w : Waiter) (n : Node) : WaitPhase → Node
  | .enter =>
      match w with
      | .inspection => n.getContext (.wait w .early)
      | .election => n.getContext .electPresent
      | .contributorsData =>
          if n.context.isValidator then n.getContext (.wait w .early)
          else { n with pc := .broadcast }
      | .broadcast =>
          if n.context.isValidator then { n with pc := .completeUpdate }
          else n.getContext (.wait w .early)
  | .early => n.ask (w.predicate n) w.done (.wait w .lock)
  | .lock =>
      if n.owned then n.fail .lockOwned
      else { n with owned := true, pc := .wait w .eval }
  | .eval =>
      match w, n.sync with
      | .broadcast, some pointer =>
          if n.storage.loadSynchronized pointer then { n with pc := .awaitResolved }
          else { n with pc := .wait .broadcast .window }
      | _, _ => n.ask (w.predicate n) w.done (.wait w .window)
  | .window => { n with pc := .wait w .asleep }
  | .asleep => n

/-- The next call of the slot thread, and the messages it sends.  Before that, the init callback
makes its two calls; `Process.step` has those that come later than the thread. -/
def slotMove (E : SlotEnv) (n : Node) : Node × List Send :=
  let slot := n.context.header.slot
  match n.pc with
  | .initConditions =>
      ({ n with storage := n.storage.initConditions E.slot, pc := .initContexts }, [])
  | .initContexts => ({ n with storage := n.storage.initContexts E.slot, pc := .saveAdd }, [])
  | .saveAdd =>
      let r := RedisDB.add E.archive E.pendingBlock n.chain
      ({ n with
          context := { n.context with
            block := E.pendingBlock
            isContributing := E.isContributing
            blockIndex := r.2 - 1 }
          chain := r.1
          pc := .saveBlock }, [])
  | .saveBlock =>
      let header : Header :=
        { operation := .INSPECTION
          node := E.configuration.self.name
          address := E.configuration.self.address
          timestamp := n.context.block.timestamp
          slot := n.context.block.slot }
      ({ n with
          context := { n.context with header, serializedHeader := header }
          storage := n.storage.addBlock E.self header.slot n.context.block
          pc := .notifyContext }, [])
  | .notifyContext =>
      ({ n with
          storage := n.storage.addContext n.context.header.address n.context.header.node slot
          pc := .notifyContribution }, [])
  | .notifyContribution =>
      ({ n with
          storage := n.storage.setContribution E.self slot n.context.isContributing
          pc := .notifyPublish }, [])
  | .notifyPublish =>
      ({ n with pc := .wait .inspection .enter },
        E.remotes.map fun a =>
          (a, ⟨n.context.serializedHeader, .contribution n.context.isContributing⟩))
  | .wait w phase => (waitMove w n phase, [])
  | .inspectionReset => (n.resetSynchronized .removeCheck, [])
  | .removeCheck =>
      (n.ask (n.storage.isAnyNodeContributing slot) (.voteFill false) .removeGet, [])
  | .removeGet =>
      match RedisDB.getByIndex E.archive n.context.blockIndex n.chain with
      | some (some b) => ({ n with fetched := b, pc := .removeDelete }, [])
      | some none => (n.fail .noBlock, [])
      | none => (n.fail .redisError, [])
  | .removeDelete =>
      ({ n with
          chain := RedisDB.remove E.archive n.fetched n.chain
          context := { n.context with shouldCallNextHandler := false }
          pc := .stopped }, [])
  | .voteFill again =>
      let n := n.setOperation .ELECTION
      ({ n with
          storage := n.storage.fillElectionValue E.self slot (E.draw n.draws)
          electionValue := E.draw n.draws
          draws := n.draws + 1
          pc := .votePublish again }, [])
  | .votePublish again =>
      ({ n with pc := if again then .electPresent else .wait .election .enter },
        E.remotes.map fun a =>
          (a, ⟨n.context.serializedHeader, .electionValue n.electionValue⟩))
  | .electPresent =>
      (n.ask (n.storage.areAllElectionValuesPresent slot) .electUnique
        (.wait .election .lock), [])
  | .electUnique =>
      let r := n.storage.isElectionValueUnique E.self slot
      if r.1 then ({ n with storage := r.2, owned := false, pc := .nominate }, [])
      else ({ n with storage := r.2, pc := .wait .election .lock }, [])
  | .electRecheck =>
      let r := n.storage.isElectionValueUnique E.self slot
      ({ n with
          storage := r.2
          pc := if r.1 then .electPresent else .electRemoveDuplicates }, [])
  | .electRemoveDuplicates =>
      ({ n with
          storage := n.storage.removeElectionValueDuplicates slot
          pc := .electReset }, [])
  | .electReset => (n.resetSynchronized (.voteFill true), [])
  | .nominate =>
      match n.storage.markValidator slot with
      | some storage => ({ n with storage, pc := .relayValidator }, [])
      | none => (n.fail .noValidator, [])
  | .relayValidator =>
      let n := n.setOperation .UPLOADING
      let r := n.storage.getValidator slot
      match r.1 with
      | some validator =>
          let isValidator : Bool := validator = E.self
          ({ n with
              storage := r.2
              context := { n.context with validator, isValidator }
              pc := if isValidator ∨ ¬ n.context.isContributing
                then .wait .contributorsData .enter else .relayBlock }, [])
      | none => (n.fail .noValidator, [])
  | .relayBlock =>
      ({ n with
          storage := n.storage.addBlock E.self slot n.context.block
          pc := .relayPublish }, [])
  | .relayPublish =>
      if n.context.validator ∈ E.remotes then
        ({ n with pc := .relayResolved },
          [(n.context.validator, ⟨n.context.serializedHeader, .block n.context.block⟩)])
      else (n.fail .noChannel, [])
  | .relayResolved =>
      ({ n with
          storage := n.storage.marAsResolved E.self slot
          pc := .wait .contributorsData .enter }, [])
  | .collectMerge =>
      match n.storage.mergeContributors E.order slot with
      | some (block, storage) =>
          ({ n with
              storage
              context := { n.context with broadcastBlock := block }
              pc := .collectResolved }, [])
      | none => (n.fail .badOptional, [])
  | .collectResolved =>
      ({ n with storage := n.storage.marAsResolved E.self slot, pc := .collectReset }, [])
  | .collectReset => (n.resetSynchronized .broadcast, [])
  | .broadcast =>
      let n := n.setOperation .BROADCAST
      ({ n with pc := .wait .broadcast .enter },
        if n.context.isValidator then
          E.remotes.map fun a =>
            (a, ⟨n.context.serializedHeader, .block n.context.broadcastBlock⟩)
        else [])
  | .awaitResolved =>
      (n.ask (Waiter.broadcast.predicate n) .awaitBlock (.wait .broadcast .window), [])
  | .awaitBlock =>
      let r := n.storage.getBlock n.context.validator slot
      ({ n with
          storage := r.2
          context := { n.context with broadcastBlock := r.1 }
          pc := .awaitReset }, [])
  | .awaitReset => (n.resetSynchronized .completeUpdate, [])
  | .completeUpdate =>
      let block := { n.context.block with state := .COMPLETED }
      match RedisDB.update E.archive n.context.broadcastBlock n.context.blockIndex n.chain with
      | some chain => ({ n with chain, context := { n.context with block }
                                pc := .completeClear }, [])
      | none => (n.fail .redisError, [])
  | .completeClear => ({ n with storage := n.storage.clearSlot slot, pc := .publishBlock }, [])
  | .publishBlock =>
      ({ n with published := n.published ++ [n.context.broadcastBlock], pc := .returned }, [])
  | .returned => (n, [])
  | .stopped => (n, [])

/-- The slot thread has no call to make: it sleeps, or `handle` has returned. -/
def SlotPc.blocked : SlotPc → Bool
  | .wait _ .asleep => true
  | .returned => true
  | .stopped => true
  | _ => false

/-- A step of the slot thread. -/
def slotStep (E : SlotEnv) (n : Node) : Option (Node × List Send) :=
  if n.failure.isSome || n.pc.blocked then none else some (slotMove E n)

/-- A sleeping thread wakes up. -/
def Node.wake (n : Node) : Node :=
  match n.pc with
  | .wait w .asleep => { n with pc := .wait w .eval }
  | _ => n

/-- A sleep may end at any time. -/
def wakeStep (n : Node) : Option Node :=
  match n.pc with
  | .wait _ .asleep => if n.failure.isSome then none else some n.wake
  | _ => none

/-! ## The consensus thread -/

/-- The calls that the handler makes for a message; `none` when the body is not of the kind
that it deserializes. -/
def handlerScript (m : ConsensusMessage) : Option (List HandlerOp) :=
  match m.header.operation, m.body with
  | .INSPECTION, .contribution isContributing =>
      some [.initConditions, .addContext, .setContribution isContributing,
        .areAllContributorsConfirmed, .storeSynchronized, .notifyAll]
  | .ELECTION, .electionValue value =>
      some [.fillElectionValue value, .areAllElectionValuesPresent, .storeSynchronized,
        .notifyAll]
  | .UPLOADING, .block block =>
      some [.addBlock block, .isAllContributorsDataCollected, .storeSynchronized, .notifyAll]
  | .BROADCAST, .block block =>
      some [.addBlock block, .marAsResolved, .storeSynchronized, .notifyAll]
  | _, _ => none

/-- The consensus thread, when idle, takes a message off the queue. -/
def receiveStep (m : ConsensusMessage) (n : Node) : Option Node :=
  if n.failure.isSome || n.todo ≠ [] then none
  else match handlerScript m with
    | some todo => some { n with header := m.header, todo }
    | none => some (n.fail .badArchive)

/-- The `if` around the notification: a false answer ends the handler. -/
def Node.check (n : Node) (q : Option Bool × ConsensusStorage) : Node :=
  match q.1 with
  | some true => { n with storage := q.2 }
  | some false => { n with storage := q.2, todo := [] }
  | none => { n with storage := q.2, failure := some .badOptional }

/-- One call of the handler. -/
def HandlerOp.exec (op : HandlerOp) (n : Node) : Node :=
  let address := n.header.address
  let slot := n.header.slot
  match op with
  | .initConditions => { n with storage := n.storage.initConditions slot }
  | .addContext => { n with storage := n.storage.addContext address n.header.node slot }
  | .setContribution isContributing =>
      { n with storage := n.storage.setContribution address slot isContributing }
  | .fillElectionValue value =>
      { n with storage := n.storage.fillElectionValue address slot value }
  | .addBlock block => { n with storage := n.storage.addBlock address slot block }
  | .marAsResolved => { n with storage := n.storage.marAsResolved address slot }
  | .areAllContributorsConfirmed => n.check (n.storage.areAllContributorsConfirmed slot)
  | .areAllElectionValuesPresent => n.check (n.storage.areAllElectionValuesPresent slot)
  | .isAllContributorsDataCollected =>
      n.check (n.storage.isAllContributorsDataCollected slot)
  | .storeSynchronized =>
      let r := n.storage.getSlotSynchronizationContext slot
      match r.1 with
      | some pointer => { n with storage := r.2.storeSynchronized pointer true }
      | none => { n with storage := r.2, failure := some .nullContext }
  | .notifyAll =>
      let r := n.storage.getSlotSynchronizationContext slot
      match r.1 with
      | some pointer =>
          if n.sync = some pointer then { n.wake with storage := r.2 }
          else { n with storage := r.2 }
      | none => { n with storage := r.2, failure := some .nullContext }

/-- A step of the consensus thread. -/
def handlerStep (n : Node) : Option Node :=
  match n.todo with
  | [] => none
  | op :: rest => if n.failure.isSome then none else some (op.exec { n with todo := rest })

end BlockchainMessaging
