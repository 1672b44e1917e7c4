import BlockchainMessaging.ClientFraming
import BlockchainMessaging.Lib.Transition
import BlockchainMessaging.Publication

/-!
# Registered clients

A client is registered by its first `CreateChannel` message.  It may ask for more channels, under
the same name or under others, and stays registered once.  From the first message on, each block
that is published goes to its queue, one message after the other.

Every queue is declared at once here.

## Main definitions

* `ConsumerCall`, `ConsumerRun.call` — the calls of a consumer, and what they send.
* `ConsumerCall.publishedSince` — what a client should get.
* `ConsumerRun.exists_run` — what it gets.
-/

namespace BlockchainMessaging

/-- A call of a method of `Consumer`. -/
inductive ConsumerCall
  /-- `handleControlMessage`, of what was received. -/
  | handleControlMessage (data : String)
  /-- `publish`. -/
  | publish (block : Block)
  deriving DecidableEq, Repr

/-- A consumer, and what it has sent on its channel: the queue and the body of each message. -/
structure ConsumerRun where
  consumer : Consumer := {}
  sent : List (String × String) := []

/-- The bodies that were sent to a queue. -/
def ConsumerRun.bodies (s : ConsumerRun) (queue : String) : List String :=
  (s.sent.filter fun message => message.1 = queue).map Prod.snd

section Calls

variable (headerSerializer : Itf.HeaderSerializer) (messageSerializer : MessageSerializer)

/-! ## The calls -/

/-- The loops of `publish` and of `sendDataToClients`: what is sent to which queue. -/
def Consumer.sendData (clientNames : List String) (messages : List Message) :
    List (String × String) :=
  clientNames.flatMap fun clientName =>
    (Consumer.clientData messageSerializer messages).map fun data =>
      (Consumer.clientChannel clientName, data)

/-- One call.  `none` is an exception of `handleControlMessage`. -/
def ConsumerRun.call (s : ConsumerRun) : ConsumerCall → Option ConsumerRun
  | .handleControlMessage data => do
      match ← Consumer.handleControlMessage headerSerializer messageSerializer data with
      | some (_, author) => return { s with consumer := s.consumer.createChannel author }
      | none => return s
  | .publish block =>
      some {
        consumer := s.consumer.publish block
        sent := s.sent ++
          Consumer.sendData messageSerializer s.consumer.clientNames block.data }

/-- Calls, one after the other, of a new consumer. -/
def ConsumerRun.run (calls : List ConsumerCall) : Option ConsumerRun :=
  calls.foldlM (ConsumerRun.call headerSerializer messageSerializer) {}

/-! ## What a client should get -/

namespace ConsumerCall

/-- A `CreateChannel` message of a client. -/
def registers (client : String) : ConsumerCall → Bool
  | handleControlMessage data =>
      (Consumer.decode headerSerializer messageSerializer data).any fun (header, message) =>
        header.target = "CreateChannel" ∧ message.author = client
  | publish _ => false

/-- The messages that a call publishes. -/
def data : ConsumerCall → List Message
  | handleControlMessage _ => []
  | publish block => block.data

/-- The messages of the blocks that are published after the first `CreateChannel` message of a
client. -/
def publishedSince (client : String) (calls : List ConsumerCall) : List Message :=
  (calls.dropWhile fun call =>
    !registers headerSerializer messageSerializer client call).flatMap data

variable {headerSerializer messageSerializer} in
/-- A message that registers a client is none that publishes. -/
theorem data_eq_nil {client : String} {call : ConsumerCall}
    (h : registers headerSerializer messageSerializer client call = true) : data call = [] := by
  cases call with
  | handleControlMessage data => rfl
  | publish block => cases h

/-- One more call: it counts if the client is registered before it. -/
theorem publishedSince_concat (client : String) (calls : List ConsumerCall) (call : ConsumerCall) :
    publishedSince headerSerializer messageSerializer client (calls ++ [call]) =
      publishedSince headerSerializer messageSerializer client calls ++
        if calls.any (registers headerSerializer messageSerializer client) then call.data
        else [] := by
  simp only [publishedSince, List.dropWhile_append]
  by_cases hany : calls.any (registers headerSerializer messageSerializer client) = true
  · have hdrop : (calls.dropWhile fun call =>
        !registers headerSerializer messageSerializer client call) ≠ [] := by
      simpa [List.dropWhile_eq_nil_iff] using hany
    simp [hany, hdrop]
  · have hdrop : (calls.dropWhile fun call =>
        !registers headerSerializer messageSerializer client call) = [] := by
      simpa [List.dropWhile_eq_nil_iff] using hany
    cases hcall : registers headerSerializer messageSerializer client call with
    | true => simp [hany, hdrop, hcall, data_eq_nil hcall]
    | false => simp [hany, hdrop, hcall]

end ConsumerCall

/-! ## What it gets -/

namespace Consumer

variable {messageSerializer}

@[simp] theorem clientData_append (messages messages' : List Message) :
    clientData messageSerializer (messages ++ messages') =
      clientData messageSerializer messages ++ clientData messageSerializer messages' :=
  List.map_append

theorem filter_map_queue (data : List String) (queue queue' : String) :
    ((data.map fun body => (queue, body)).filter fun message => message.1 = queue').map
        Prod.snd = if queue = queue' then data else [] := by
  rw [List.filter_map, List.map_map]
  split
  · next h => simp [Function.comp_def, h]
  · next h => simp [Function.comp_def, h]

/-- Of what is sent to several clients, each one gets everything once. -/
theorem filter_sendData {clientNames : List String} (hnodup : clientNames.Nodup)
    (messages : List Message) (client : String) :
    ((sendData messageSerializer clientNames messages).filter fun message =>
        message.1 = clientChannel client).map Prod.snd =
      clientData messageSerializer (if client ∈ clientNames then messages else []) := by
  induction clientNames with
  | nil => rfl
  | cons first rest ih =>
    rw [List.nodup_cons] at hnodup
    rw [sendData, List.flatMap_cons, List.filter_append, List.map_append, ← sendData,
      filter_map_queue, ih hnodup.2]
    by_cases hfirst : first = client
    · subst hfirst
      simp [hnodup.1, clientData]
    · simp [hfirst, Ne.symm hfirst, clientChannel_injective.eq_iff, clientData]

end Consumer

namespace ConsumerRun

variable {headerSerializer messageSerializer}

theorem bodies_sendData (s : ConsumerRun) (consumer : Consumer) (messages : List Message)
    (client : String) :
    bodies { consumer, sent := s.sent ++
          Consumer.sendData messageSerializer s.consumer.clientNames messages }
        (Consumer.clientChannel client) =
      s.bodies (Consumer.clientChannel client) ++ Consumer.clientData messageSerializer
        (if client ∈ s.consumer.clientNames then messages else []) := by
  rw [← Consumer.filter_sendData s.consumer.nodup, bodies, List.filter_append, List.map_append,
    bodies]

/-- After some calls: who is registered, what the queues hold, and that this is what was sent. -/
structure Served (headerSerializer : Itf.HeaderSerializer) (messageSerializer : MessageSerializer)
    (calls : List ConsumerCall) (s : ConsumerRun) : Prop where
  clientNames : ∀ client, client ∈ s.consumer.clientNames ↔
    calls.any (ConsumerCall.registers headerSerializer messageSerializer client) = true
  queues : ∀ client, s.consumer.queues (Consumer.clientChannel client) =
    ConsumerCall.publishedSince headerSerializer messageSerializer client calls
  bodies : ∀ client, s.bodies (Consumer.clientChannel client) =
    Consumer.clientData messageSerializer (s.consumer.queues (Consumer.clientChannel client))

theorem served_nil : Served headerSerializer messageSerializer [] {} where
  clientNames := by simp
  queues := fun _ => rfl
  bodies := fun _ => rfl

/-- A block goes to those who are registered. -/
theorem Served.publish {calls : List ConsumerCall} {s : ConsumerRun}
    (H : Served headerSerializer messageSerializer calls s) (block : Block) :
    ∃ t, s.call headerSerializer messageSerializer (.publish block) = some t ∧
      Served headerSerializer messageSerializer (calls ++ [.publish block]) t := by
  refine ⟨_, rfl, ?_, ?_, ?_⟩
  · intro client
    simpa [Consumer.publish, ConsumerCall.registers] using H.clientNames client
  · intro client
    rw [Consumer.queues_publish, H.queues, ConsumerCall.publishedSince_concat]
    simp only [H.clientNames]
    rfl
  · intro client
    simp only [bodies_sendData, Consumer.queues_publish, Consumer.clientData_append, H.bodies]

theorem mem_clientNames_createChannel (consumer : Consumer) (author client : String) :
    client ∈ (consumer.createChannel author).clientNames ↔
      client ∈ consumer.clientNames ∨ author = client := by
  rw [Consumer.createChannel]
  split
  · next h =>
    constructor
    · exact Or.inl
    · rintro (hclient | rfl)
      · exact hclient
      · exact h
  · simp [eq_comm]

/-- A control message registers its author, if it is to create a channel. -/
theorem Served.handleControlMessage {calls : List ConsumerCall} {s : ConsumerRun}
    (H : Served headerSerializer messageSerializer calls s) {data : String}
    (hdata : (Consumer.decode headerSerializer messageSerializer data).isSome) :
    ∃ t, s.call headerSerializer messageSerializer (.handleControlMessage data) = some t ∧
      Served headerSerializer messageSerializer (calls ++ [.handleControlMessage data]) t := by
  obtain ⟨⟨header, message⟩, hdecode⟩ := Option.isSome_iff_exists.1 hdata
  have hsince : ∀ client, ConsumerCall.publishedSince headerSerializer messageSerializer client
      (calls ++ [.handleControlMessage data]) =
        ConsumerCall.publishedSince headerSerializer messageSerializer client calls := by
    intro client
    rw [ConsumerCall.publishedSince_concat]
    simp [ConsumerCall.data]
  by_cases htarget : header.target = "CreateChannel"
  · refine ⟨{ s with consumer := s.consumer.createChannel message.author }, ?_, ?_, ?_, ?_⟩
    · simp [call, Consumer.handleControlMessage, hdecode, htarget]
    · intro client
      rw [mem_clientNames_createChannel, H.clientNames]
      simp [ConsumerCall.registers, hdecode, htarget]
    · intro client
      rw [hsince, Consumer.queues_createChannel]
      exact H.queues client
    · intro client
      rw [Consumer.queues_createChannel]
      exact H.bodies client
  · refine ⟨s, ?_, ?_, ?_, H.bodies⟩
    · simp [call, Consumer.handleControlMessage, hdecode, htarget]
    · intro client
      rw [H.clientNames]
      simp [ConsumerCall.registers, hdecode, htarget]
    · intro client
      rw [hsince]
      exact H.queues client

/-- **Publication.**  If each control message can be decoded, all calls return, no client is
registered twice, and what was sent to the queue of a client are the messages of the blocks that
were published after its first `CreateChannel` message, in order and each one once. -/
theorem exists_run (calls : List ConsumerCall)
    (hcalls : ∀ data, .handleControlMessage data ∈ calls →
      (Consumer.decode headerSerializer messageSerializer data).isSome) :
    ∃ s, run headerSerializer messageSerializer calls = some s ∧ s.consumer.clientNames.Nodup ∧
      ∀ client, s.bodies (Consumer.clientChannel client) =
        Consumer.clientData messageSerializer
          (ConsumerCall.publishedSince headerSerializer messageSerializer client calls) := by
  obtain ⟨s, hs, H⟩ : ∃ s, run headerSerializer messageSerializer calls = some s ∧
      Served headerSerializer messageSerializer calls s := by
    apply exists_foldlM served_nil calls
    intro p s a ha H
    cases a with
    | handleControlMessage data => exact H.handleControlMessage (hcalls data ha)
    | publish block => exact H.publish block
  refine ⟨s, hs, s.consumer.nodup, ?_⟩
  intro client
  rw [H.bodies, H.queues]

end ConsumerRun

end Calls

/-- The call for a `CreateChannel` message of `ann`. -/
def annCreatesChannel (channel : String) : ConsumerCall :=
  .handleControlMessage (Client.serializeData headerSerializer messageSerializer
    ⟨"CreateChannel", "node", "node_ControlChannel", "ann"⟩ ⟨1000, channel, "ann"⟩)

/-- A block, two channels of `ann`, and another block. -/
def annCalls : List ConsumerCall :=
  [.publish { data := [⟨1000, "early", "bob"⟩] }, annCreatesChannel "room",
    annCreatesChannel "hall", .publish { data := [⟨2000, "hello", "bob"⟩] }]

/-- Only what was published later comes, and only once. -/
theorem ConsumerRun.exists_run_ann :
    ∃ s, ConsumerRun.run headerSerializer messageSerializer annCalls = some s ∧
      s.bodies "ann_ClientChannel" = [messageSerializer.serialize ⟨2000, "hello", "bob"⟩] := by
  have hdecode : ∀ channel ∈ ["room", "hall"], Consumer.decode headerSerializer messageSerializer
      (Client.serializeData headerSerializer messageSerializer
        ⟨"CreateChannel", "node", "node_ControlChannel", "ann"⟩ ⟨1000, channel, "ann"⟩) =
      some (⟨"CreateChannel", "node", "node_ControlChannel", "ann"⟩, ⟨1000, channel, "ann"⟩) := by
    intro channel hchannel
    apply Consumer.decode_serializeData
    revert channel
    decide
  have hcalls : ∀ data, .handleControlMessage data ∈ annCalls →
      (Consumer.decode headerSerializer messageSerializer data).isSome := by
    intro data hdata
    simp only [annCalls, annCreatesChannel, List.mem_cons, List.not_mem_nil, or_false,
      reduceCtorEq, ConsumerCall.handleControlMessage.injEq, false_or] at hdata
    rcases hdata with rfl | rfl
    · rw [hdecode "room" (by decide)]
      rfl
    · rw [hdecode "hall" (by decide)]
      rfl
  obtain ⟨s, hs, -, hbodies⟩ := ConsumerRun.exists_run annCalls hcalls
  refine ⟨s, hs, ?_⟩
  have hann := hbodies "ann"
  simpa [annCalls, ConsumerCall.publishedSince, ConsumerCall.registers, annCreatesChannel, hdecode,
    ConsumerCall.data, Consumer.clientData, Consumer.clientChannel] using hann

end BlockchainMessaging
