import BlockchainMessaging.Lib.Broker
import BlockchainMessaging.Console
import BlockchainMessaging.Listener
import BlockchainMessaging.Registration
import BlockchainMessaging.Service

/-!
# The whole system

Each node has a message server.  Its clients publish what is typed: to the control queue of the
node, to have a channel created, and to the channels; the node receives from the control queue and
from the channels that it has created, and publishes to the queues of its clients, which receive and
print.  Between the two there are the nodes with their buffers, as in `Service`.

A client declares its queue when it starts, and a node consumes a channel once for each request to
create it; these consumers do the same, so there is one here.  A queue with a name that does not
exist drops what is published to it.  Nothing is acknowledged, so what is on its way to a client
that is left does not come back.  A node whose process has ended receives nothing, and what was on
its way to it does not come back, either.

## Main definitions

* `Messaging` — the nodes, the clients and their names.
* `MessagingState`, `MessagingAction`, `Messaging.step` — the system.
* `Messaging.Proper` — the condition on what is typed.
-/

namespace BlockchainMessaging

/-- The nodes, and the clients that talk to them.  `ι` names the clients. -/
structure Messaging (ι : Type) where
  cluster : Cluster
  headerSerializer : Itf.HeaderSerializer
  messageSerializer : MessageSerializer
  client : ι → ClientInfo
  host_mem : ∀ i, (client i).host ∈ cluster.addresses
  /-- The client has got the address of the node by its name. -/
  serverName_eq : ∀ i, (client i).serverName =
    (cluster.storage (client i).host).nodeConfiguration.self.name
  /-- The clients of a node have different names. -/
  injective : ∀ i j, (client i).host = (client j).host →
    (client i).clientName = (client j).clientName → i = j

/-- The state of the nodes, of their servers and of the clients. -/
structure MessagingState (ι : Type) (S : MessageServer.{0, 0, 0} String String) where
  service : ServiceState
  /-- The server of a node. -/
  broker : String → Broker S
  /-- The channels that a node consumes. -/
  consumed : String → List String
  running : ι → Bool
  listener : ι → Listener
  /-- What has come to the channels of a node, and what it has received from them: the channel and
  the message, in this order. -/
  sent : String → List (String × Message)
  arrived : String → List (String × Message)

/-- Who moves, and how. -/
inductive MessagingAction (ι : Type)
  /-- A client starts. -/
  | connect (i : ι)
  /-- A line is typed when the clock shows `now`.  If the client is left thereby, so many bodies
  were on their way to it. -/
  | command (i : ι) (line : String) (now lost : ℕ)
  /-- The node receives from its control queue. -/
  | control (a : String)
  /-- The node receives from a channel. -/
  | channel (a queName behind : String)
  /-- The server cancels a consumer of a node whose process has ended.  So many bodies were on their
  way to it. -/
  | cancel (a queName : String) (lost : ℕ)
  /-- A client receives. -/
  | listen (i : ι) (behind : String)
  /-- The timer thread of a client goes on. -/
  | handle (i : ι)
  /-- A step inside of the nodes. -/
  | serve (act : ServiceAction)
  deriving DecidableEq, Repr

/-! ## Where the nodes meet their clients -/

/-- No message comes from a client, and none registers. -/
def ServiceAction.internal : ServiceAction → Bool
  | .push _ _ => false
  | .move (.createChannel _ _) => false
  | _ => true

/-- A client speaks, or it registers. -/
theorem ServiceAction.of_not_internal {act : ServiceAction} (h : act.internal = false) :
    (∃ a message, act = .push a message) ∨ ∃ a author, act = .move (.createChannel a author) := by
  cases act with
  | push a message => exact .inl ⟨a, message, rfl⟩
  | save a s now => cases h
  | pop a s now => cases h
  | move act =>
    cases act with
    | createChannel a author => exact .inr ⟨a, author, rfl⟩
    | _ => cases h

/-- The node that publishes in this step, and its block. -/
def ServiceState.published (L : ServiceState) : ServiceAction → Option (String × Block)
  | .move (.slot a s) =>
      if (L.cluster.view a s).pc = .publishBlock then
        some (a, (L.cluster.view a s).context.broadcastBlock)
      else none
  | _ => none

namespace MessagingState

variable {ι : Type} {S : MessageServer.{0, 0, 0} String String}

/-- Replace the state of one server. -/
def setBroker (W : MessagingState ι S) (a : String) (b : Broker S) : MessagingState ι S :=
  { W with broker := Function.update W.broker a b }

/-- What is published goes to the server of the node. -/
def publish (messageSerializer : MessageSerializer) (W : MessagingState ι S) :
    Option (String × Block) → MessagingState ι S
  | some (a, block) => W.setBroker a ((W.broker a).publishAll (Consumer.sendData messageSerializer
      (W.service.cluster.consumer a).clientNames block.data))
  | none => W

end MessagingState

namespace Messaging

variable {ι : Type} (M : Messaging ι)

/-! ## Names -/

/-- The node with this address. -/
def name (a : String) : String := (M.cluster.storage a).nodeConfiguration.self.name

/-- The queue of the node for requests of clients. -/
def controlChannel (a : String) : String := M.name a ++ "_ControlChannel"

/-- The queue of the node for messages of other nodes: `CONSENSUS` is the fourth type. -/
def consensusChannel (a : String) : String := M.name a ++ "_4"

/-- The queue of a client. -/
def clientChannel (i : ι) : String := Consumer.clientChannel (M.client i).clientName

/-- A name that the program uses itself. -/
def Reserved (a queName : String) : Prop :=
  queName = M.controlChannel a ∨ queName = M.consensusChannel a ∨
    "_ClientChannel".toList <:+ queName.toList

instance (a queName : String) : Decidable (M.Reserved a queName) :=
  inferInstanceAs (Decidable (_ ∨ _ ∨ _))

/-! ## Steps -/

variable [DecidableEq ι] {S : MessageServer.{0, 0, 0} String String}

/-- One step.  Where something throws, or is undefined, there is none. -/
def step (W : MessagingState ι S) : MessagingAction ι → Option (MessagingState ι S)
  | .connect i =>
      let a := (M.client i).host
      if W.running i then none
      else some { W.setBroker a ((W.broker a).declareQueue (M.clientChannel i)) with
        running := Function.update W.running i true
        listener := Function.update W.listener i
          { W.listener i with buffer := {}, round := .outside } }
  | .command i line now lost =>
      let a := (M.client i).host
      if W.running i then do
        match ← App.interpret line with
        | .createQueue queToBeCreated =>
            return W.setBroker a ((W.broker a).publish
              (Client.createQueue M.headerSerializer M.messageSerializer (M.client i) now
                queToBeCreated))
        | .sendMessage queName message =>
            return { W.setBroker a ((W.broker a).publish
                (Client.sendMessage M.headerSerializer M.messageSerializer (M.client i) now queName
                  message)) with
              sent :=
                if (W.broker a).declared queName then
                  Function.update W.sent a
                    (W.sent a ++ [(queName, Client.message (M.client i) now message)])
                else W.sent }
        | .exit => return { W.setBroker a ((W.broker a).cancel (M.clientChannel i) lost) with
            running := Function.update W.running i false }
        | .getMessages _ _ | .print _ | .skip => return W
      else none
  | .control a =>
      if (W.service.cluster.process a).failure.isNone then
        match (W.broker a).bodies (M.controlChannel a) with
        | [] => none
        | data :: _ => do
            let b := (W.broker a).deliver (M.controlChannel a)
            match ← Consumer.handleControlMessage M.headerSerializer M.messageSerializer data with
            | none => return W.setBroker a b
            | some (channelToBeCreated, author) =>
                let L ← M.cluster.serve W.service (.move (.createChannel a author))
                return { W.setBroker a (b.declareQueue channelToBeCreated) with
                  service := L
                  consumed := Function.update W.consumed a
                    (W.consumed a ++ [channelToBeCreated]) }
      else none
  | .channel a queName behind =>
      if (W.service.cluster.process a).failure.isNone ∧ queName ∈ W.consumed a then
        match (W.broker a).bodies queName with
        | [] => none
        | body :: _ => do
            let message ← Consumer.decodeChannel M.messageSerializer ⟨body, behind⟩
            let L ← M.cluster.serve W.service (.push a message)
            return { W.setBroker a ((W.broker a).deliver queName) with
              service := L
              arrived := Function.update W.arrived a (W.arrived a ++ [(queName, message)]) }
      else none
  | .cancel a queName lost =>
      if (W.service.cluster.process a).failure.isSome ∧
          (queName = M.controlChannel a ∨ queName ∈ W.consumed a) then
        some (W.setBroker a ((W.broker a).cancel queName lost))
      else none
  | .listen i behind =>
      let a := (M.client i).host
      if W.running i then
        match (W.broker a).bodies (M.clientChannel i) with
        | [] => none
        | body :: _ => do
            let l ← (W.listener i).step M.messageSerializer (.receive ⟨body, behind⟩)
            return { W.setBroker a ((W.broker a).deliver (M.clientChannel i)) with
              listener := Function.update W.listener i l }
      else none
  | .handle i =>
      if W.running i then do
        let l ← (W.listener i).step M.messageSerializer .handle
        return { W with listener := Function.update W.listener i l }
      else none
  | .serve act =>
      if act.internal then
        (M.cluster.serve W.service act).map fun L =>
          { W.publish M.messageSerializer (W.service.published act) with service := L }
      else none

/-- No queue of the program's own is named, and a client is left when it has printed what it
received, and nothing is on its way to it. -/
def ProperCommand (W : MessagingState ι S) (i : ι) (lost : ℕ) : ConsoleAction → Prop
  | .createQueue queName | .sendMessage queName _ => ¬ M.Reserved (M.client i).host queName
  | .exit => (W.listener i).pending = [] ∧ lost = 0
  | .getMessages _ _ | .print _ | .skip => True

/-- What is typed has no NUL and no `@`, either, and a client receives nothing between the copy of
its buffer and the clearing. -/
def Proper (W : MessagingState ι S) : MessagingAction ι → Prop
  | .command i line _ lost =>
      Text.Clean line ∧ ∀ action ∈ App.interpret line, M.ProperCommand W i lost action
  | .listen i _ => (W.listener i).round = .outside ∨ (W.listener i).round = .notEmpty
  | .connect _ | .control _ | .channel _ _ _ | .cancel _ _ _ | .handle _ | .serve _ => True

instance (W : MessagingState ι S) (i : ι) (lost : ℕ) (action : ConsoleAction) :
    Decidable (M.ProperCommand W i lost action) :=
  match action with
  | .createQueue queName => inferInstanceAs (Decidable (¬ M.Reserved (M.client i).host queName))
  | .sendMessage queName _ => inferInstanceAs (Decidable (¬ M.Reserved (M.client i).host queName))
  | .exit => inferInstanceAs (Decidable ((W.listener i).pending = [] ∧ lost = 0))
  | .getMessages _ _ | .print _ | .skip => .isTrue trivial

instance (W : MessagingState ι S) (act : MessagingAction ι) : Decidable (M.Proper W act) :=
  match act with
  | .command _ _ _ _ => inferInstanceAs (Decidable (_ ∧ _))
  | .listen _ _ => inferInstanceAs (Decidable (_ ∨ _))
  | .connect _ | .control _ | .channel _ _ _ | .cancel _ _ _ | .handle _ | .serve _ =>
      .isTrue trivial

/-- The servers have the control queues, and nobody has said anything. -/
def start : MessagingState ι S where
  service := M.cluster.opening
  broker := fun a => Broker.empty.declareQueue (M.controlChannel a)
  consumed := fun _ => []
  running := fun _ => false
  listener := fun _ => {}
  sent := fun _ => []
  arrived := fun _ => []

/-! ## What a step can be -/

variable {M} {W W' : MessagingState ι S} {i : ι} {a : String}

theorem step_connect_eq_some (h : M.step W (.connect i) = some W') :
    W.running i = false ∧ W' = { W.setBroker (M.client i).host
      ((W.broker (M.client i).host).declareQueue (M.clientChannel i)) with
        running := Function.update W.running i true
        listener := Function.update W.listener i
          { W.listener i with buffer := {}, round := .outside } } := by
  simp only [step] at h
  split at h
  · cases h
  · next hrunning =>
    cases h
    exact ⟨Bool.eq_false_iff.2 hrunning, rfl⟩

/-- What is typed goes to the server, and nowhere else. -/
theorem step_command_frame {line : String} {now lost : ℕ}
    (h : M.step W (.command i line now lost) = some W') :
    W'.service = W.service ∧ W'.listener = W.listener := by
  simp only [step] at h
  split at h
  · obtain ⟨action, -, h⟩ := Option.bind_eq_some_iff.1 h
    cases action <;> cases h <;> exact ⟨rfl, rfl⟩
  · cases h

/-- A request is either none to create a channel, or a client registers. -/
theorem step_control_eq_some (h : M.step W (.control a) = some W') :
    (W.service.cluster.process a).failure = none ∧
    ∃ data rest, (W.broker a).bodies (M.controlChannel a) = data :: rest ∧
      ((Consumer.handleControlMessage M.headerSerializer M.messageSerializer data = some none ∧
          W' = W.setBroker a ((W.broker a).deliver (M.controlChannel a))) ∨
        ∃ channelToBeCreated author L,
          Consumer.handleControlMessage M.headerSerializer M.messageSerializer data =
            some (some (channelToBeCreated, author)) ∧
          M.cluster.serve W.service (.move (.createChannel a author)) = some L ∧
          W' = { W.setBroker a
            (((W.broker a).deliver (M.controlChannel a)).declareQueue channelToBeCreated) with
              service := L
              consumed := Function.update W.consumed a
                (W.consumed a ++ [channelToBeCreated]) }) := by
  simp only [step] at h
  split at h
  · next halive =>
    split at h
    · cases h
    · next data rest hdata =>
      refine ⟨Option.isNone_iff_eq_none.1 halive, data, rest, hdata, ?_⟩
      obtain ⟨request, hrequest, h⟩ := Option.bind_eq_some_iff.1 h
      split at h
      · cases h
        exact .inl ⟨hrequest, rfl⟩
      · obtain ⟨L, hL, h⟩ := Option.bind_eq_some_iff.1 h
        cases h
        exact .inr ⟨_, _, L, hrequest, hL, rfl⟩
  · cases h

theorem step_channel_eq_some {queName behind : String}
    (h : M.step W (.channel a queName behind) = some W') :
    (W.service.cluster.process a).failure = none ∧ queName ∈ W.consumed a ∧
      ∃ body rest message L,
      (W.broker a).bodies queName = body :: rest ∧
      Consumer.decodeChannel M.messageSerializer ⟨body, behind⟩ = some message ∧
      M.cluster.serve W.service (.push a message) = some L ∧
      W' = { W.setBroker a ((W.broker a).deliver queName) with
        service := L
        arrived := Function.update W.arrived a (W.arrived a ++ [(queName, message)]) } := by
  simp only [step] at h
  split at h
  · next hqueName =>
    split at h
    · cases h
    · next body rest hbody =>
      obtain ⟨message, hmessage, h⟩ := Option.bind_eq_some_iff.1 h
      obtain ⟨L, hL, h⟩ := Option.bind_eq_some_iff.1 h
      cases h
      exact ⟨Option.isNone_iff_eq_none.1 hqueName.1, hqueName.2, body, rest, message, L, hbody,
        hmessage, hL, rfl⟩
  · cases h

theorem step_cancel_eq_some {queName : String} {lost : ℕ}
    (h : M.step W (.cancel a queName lost) = some W') :
    (W.service.cluster.process a).failure ≠ none ∧
      (queName = M.controlChannel a ∨ queName ∈ W.consumed a) ∧
      W' = W.setBroker a ((W.broker a).cancel queName lost) := by
  simp only [step] at h
  split at h
  · next hended =>
    cases h
    exact ⟨Option.isSome_iff_ne_none.1 hended.1, hended.2, rfl⟩
  · cases h

theorem step_listen_eq_some {behind : String} (h : M.step W (.listen i behind) = some W') :
    W.running i = true ∧ ∃ body rest l,
      (W.broker (M.client i).host).bodies (M.clientChannel i) = body :: rest ∧
      (W.listener i).step M.messageSerializer (.receive ⟨body, behind⟩) = some l ∧
      W' = { W.setBroker (M.client i).host
        ((W.broker (M.client i).host).deliver (M.clientChannel i)) with
          listener := Function.update W.listener i l } := by
  simp only [step] at h
  split at h
  · next hrunning =>
    split at h
    · cases h
    · next body rest hbody =>
      obtain ⟨l, hl, h⟩ := Option.bind_eq_some_iff.1 h
      cases h
      exact ⟨hrunning, body, rest, l, hbody, hl, rfl⟩
  · cases h

theorem step_handle_eq_some (h : M.step W (.handle i) = some W') :
    W.running i = true ∧ ∃ l, (W.listener i).step M.messageSerializer .handle = some l ∧
      W' = { W with listener := Function.update W.listener i l } := by
  simp only [step] at h
  split at h
  · next hrunning =>
    obtain ⟨l, hl, h⟩ := Option.bind_eq_some_iff.1 h
    cases h
    exact ⟨hrunning, l, hl, rfl⟩
  · cases h

theorem step_serve_eq_some {act : ServiceAction} (h : M.step W (.serve act) = some W') :
    act.internal = true ∧ ∃ L, M.cluster.serve W.service act = some L ∧
      W' = { W.publish M.messageSerializer (W.service.published act) with service := L } := by
  simp only [step] at h
  split at h
  · next hinternal =>
    obtain ⟨L, hL, rfl⟩ := Option.map_eq_some_iff.1 h
    exact ⟨hinternal, L, hL, rfl⟩
  · cases h

end Messaging

end BlockchainMessaging
