import Mathlib.Logic.Function.Basic
import BlockchainMessaging.Lib.Transition
import BlockchainMessaging.SlotHandler

/-!
# The nodes of one slot and the messages between them

All nodes of a deployment work on one slot, each with its two threads, and send each other
messages over one first-in first-out channel for each ordered pair of nodes.  A step of the
system is a step of one thread of one node, or the receipt of the oldest message of one
channel by an idle consensus thread; a run is any interleaving of such steps.  The slot thread
begins when the init callback of the tick is through.

A channel also remembers what it has delivered.  Nothing reads this history; it is there so
that an invariant can speak of all messages that were ever sent.

## Main definitions

* `Deployment` — the nodes, with the same configuration, and what they start from.
* `Channel`, `Sys`, `Action`, `Sys.step` — the system.
* `Deployment.start` — the state before the tick of the slot.
-/

namespace BlockchainMessaging

/-- A set of nodes with the same configuration, about to work on one slot. -/
structure Deployment where
  addresses : List String
  nodup : addresses.Nodup
  /-- An AMQP address is a C string. -/
  cString : ∀ a ∈ addresses, cStr a = a
  slot : ℕ
  env : String → SlotEnv
  self_eq : ∀ a ∈ addresses, (env a).self = a
  /-- Everybody else is configured, and has a channel. -/
  mem_remotes : ∀ a ∈ addresses, ∀ b, b ∈ (env a).remotes ↔ b ∈ addresses ∧ b ≠ a
  nodup_remotes : ∀ a ∈ addresses, (env a).remotes.Nodup
  /-- Tick, buffer and clock agree on the slot. -/
  env_slot : ∀ a ∈ addresses, (env a).slot = slot
  pending_slot : ∀ a ∈ addresses, (env a).pendingBlock.slot = slot
  /-- The storage of a node once it is initialised: it holds all addresses, and says nothing about
  them.  Its iteration order is its own. -/
  storage : String → ConsensusStorage
  configuration_eq : ∀ a ∈ addresses,
    (storage a).nodeConfiguration = (env a).configuration
  mem_keys : ∀ a ∈ addresses, ∀ b, b ∈ (storage a).contexts.keys ↔ b ∈ addresses
  context_eq : ∀ a ∈ addresses, ∀ b,
    (storage a).context b slot = .fresh ((storage a).stamp b slot 0)
  condition_eq : ∀ a ∈ addresses, (storage a).conditions.find slot = none
  chain : String → List String
  /-- The chain was written by `RedisDB`. -/
  chain_serialized : ∀ a ∈ addresses, ∀ text ∈ chain a,
    ∃ b, (env a).archive.serialize b = text

theorem Deployment.self_address (D : Deployment) {a : String} (ha : a ∈ D.addresses) :
    (D.env a).configuration.self.address = a := D.self_eq a ha

/-- A first-in first-out channel, with the history of what it has delivered. -/
structure Channel where
  delivered : List ConsensusMessage := []
  inFlight : List ConsensusMessage := []

/-- Everything that was ever sent over a channel. -/
def Channel.sent (c : Channel) : List ConsensusMessage := c.delivered ++ c.inFlight

/-- The state of all nodes and channels. -/
structure Sys where
  node : String → Node
  /-- `channel a b` leads from `a` to `b`. -/
  channel : String → String → Channel

/-- Who moves, and how. -/
inductive Action
  /-- A call of the slot thread. -/
  | slot (a : String)
  /-- The sleep of the slot thread ends. -/
  | wake (a : String)
  /-- A call of the consensus thread. -/
  | handle (a : String)
  /-- The consensus thread of `a` receives the oldest message from `b`. -/
  | receive (a b : String)
  deriving DecidableEq, Repr

namespace Sys

/-- Replace the state of one node. -/
def setNode (s : Sys) (a : String) (n : Node) : Sys :=
  { s with node := Function.update s.node a n }

/-- Append messages to the channels that lead from `a`. -/
def publish (s : Sys) (a : String) (sends : List Send) : Sys :=
  { s with channel := fun source target =>
      if source = a then
        { s.channel a target with
          inFlight := (s.channel a target).inFlight ++
            sends.filterMap fun m => if m.1 = target then some m.2 else none }
      else s.channel source target }

/-- Take the oldest message off the channel from `b` to `a`. -/
def deliver (s : Sys) (a b : String) (m : ConsensusMessage) (rest : List ConsensusMessage) :
    Sys :=
  { s with channel := fun source target =>
      if source = b ∧ target = a then
        { delivered := (s.channel b a).delivered ++ [m], inFlight := rest }
      else s.channel source target }

/-- One step of the system. -/
def step (D : Deployment) (s : Sys) : Action → Option Sys
  | .slot a =>
      if a ∈ D.addresses then
        (slotStep (D.env a) (s.node a)).map fun r => (s.setNode a r.1).publish a r.2
      else none
  | .wake a =>
      if a ∈ D.addresses then (wakeStep (s.node a)).map fun n => s.setNode a n else none
  | .handle a =>
      if a ∈ D.addresses then (handlerStep (s.node a)).map fun n => s.setNode a n else none
  | .receive a b =>
      if a ∈ D.addresses then
        match (s.channel b a).inFlight with
        | [] => none
        | m :: rest =>
            (receiveStep m (s.node a)).map fun n => (s.setNode a n).deliver a b m rest
      else none

end Sys

/-- All nodes before the tick, nothing sent yet. -/
def Deployment.start (D : Deployment) : Sys where
  node := fun a => { storage := D.storage a, chain := D.chain a }
  channel := fun _ _ => {}

end BlockchainMessaging
