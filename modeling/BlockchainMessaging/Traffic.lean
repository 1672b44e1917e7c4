import BlockchainMessaging.Messaging

/-!
# What is on its way

On its way into a node a message is in a channel, until the node has received it; on its way out it
is in the queue of the client, until the client has.  Each call of a client or of a node on the
server keeps what has come, what has gone and what waits in order, as long as the queues are not
mixed up: a channel with the name of a control queue, or of the queue of a client, would have
readers that take each other's messages.

## Main definitions

* `Messaging.Said`, `Messaging.Posted` — what a client can have sent.
* `Inbound`, and a lemma for each call — into a node.
* `Outbound`, and a lemma for each call — out to a client.
-/

namespace BlockchainMessaging

/-! ## One message -/

namespace Client

variable {messageSerializer : MessageSerializer}

/-- A clean message is read as it was written, whatever lies behind it in memory. -/
theorem decode_serialize {message : Message} (behind : String) (h : message.Clean) :
    decode messageSerializer (Received.cString ⟨messageSerializer.serialize message, behind⟩) =
      some message := by
  have hnul := messageSerializer.not_mem_serialize_nul fun s hs => (h s hs).2
  obtain ⟨tail, others, hsplit⟩ := Text.exists_splitBySeparator_append (x := '@') (cStr behind)
    (messageSerializer.serialize_ne_empty message)
    (messageSerializer.not_mem_serialize_at fun s hs => (h s hs).1)
  have hsingleton : "@" = String.singleton '@' := rfl
  rw [decode, Received.cString, cStr_append _ hnul, hsingleton, hsplit]
  simp [messageSerializer.deserialize_serialize]

end Client

namespace Consumer

variable {messageSerializer : MessageSerializer}

/-- All queues that `publish` sends to are those of clients. -/
theorem exists_clientChannel_of_mem_sendData {clientNames : List String} {messages : List Message}
    {message : String × String} (h : message ∈ sendData messageSerializer clientNames messages) :
    ∃ client, message.1 = clientChannel client := by
  obtain ⟨client, -, hmem⟩ := List.mem_flatMap.1 h
  obtain ⟨_, -, rfl⟩ := List.mem_map.1 hmem
  exact ⟨client, rfl⟩

end Consumer

/-- The timer thread receives nothing. -/
theorem Listener.pushed_handle {messageSerializer : MessageSerializer} {s t : Listener}
    (h : s.step messageSerializer .handle = some t) : t.pushed = s.pushed := by
  simp only [Listener.step] at h
  split at h
  · split at h
    · cases h
      rfl
    · cases h
      rfl
  · cases h
    rfl
  · obtain ⟨message, -, h⟩ := Option.bind_eq_some_iff.1 h
    cases h
    rfl
  · cases h
    rfl

namespace Messaging

variable {ι : Type} {M : Messaging ι}

/-! ## Names -/

theorem reserved_controlChannel (M : Messaging ι) (a : String) :
    M.Reserved a (M.controlChannel a) := .inl rfl

theorem reserved_clientChannel (M : Messaging ι) (a client : String) :
    M.Reserved a (Consumer.clientChannel client) := by
  refine .inr (.inr ?_)
  rw [Consumer.clientChannel, String.toList_append]
  exact List.suffix_append _ _

theorem ne_controlChannel {a queName : String} (h : ¬ M.Reserved a queName) :
    queName ≠ M.controlChannel a := by
  rintro rfl
  exact h (M.reserved_controlChannel a)

theorem ne_clientChannel {a queName : String} (h : ¬ M.Reserved a queName) (client : String) :
    queName ≠ Consumer.clientChannel client := by
  rintro rfl
  exact h (M.reserved_clientChannel a client)

/-- The two suffixes are different. -/
theorem controlChannel_ne_clientChannel (M : Messaging ι) (a client : String) :
    M.controlChannel a ≠ Consumer.clientChannel client := by
  intro h
  have hlist := congrArg String.toList h
  rw [controlChannel, Consumer.clientChannel, String.toList_append, String.toList_append] at hlist
  have hclient : "_ClientChannel".toList <:+ (M.name a).toList ++ "_ControlChannel".toList :=
    hlist ▸ List.suffix_append client.toList _
  have hsuffix := List.suffix_of_suffix_length_le hclient (List.suffix_append _ _) (by decide)
  exact absurd hsuffix (by decide)

/-- A client knows the control queue of its node by the name of the node. -/
theorem controlChannel_host (M : Messaging ι) (i : ι) :
    (M.client i).serverName ++ "_ControlChannel" = M.controlChannel (M.client i).host := by
  rw [M.serverName_eq]
  rfl

/-- No two clients of a node have the same queue. -/
theorem clientChannel_ne (M : Messaging ι) {i j : ι} (hij : i ≠ j)
    (hhost : (M.client i).host = (M.client j).host) : M.clientChannel i ≠ M.clientChannel j :=
  fun h => hij (M.injective i j hhost (Consumer.clientChannel_injective h))

/-! ## What a client says -/

/-- A header and a message, as a client puts them together. -/
def parcel (M : Messaging ι) (p : Itf.Header × Message) : String :=
  Client.serializeData M.headerSerializer M.messageSerializer p.1 p.2

/-- One word, from a client of the node. -/
structure Said (M : Messaging ι) (a : String) (m : Message) : Prop where
  clean : m.Clean
  word : m.data ≠ "" ∧ ∀ x ∈ m.data.toList, isSpace x = false
  author : ∃ i, (M.client i).host = a ∧ m.author = (M.client i).clientName

/-- The same, with its header. -/
structure Posted (M : Messaging ι) (a : String) (p : Itf.Header × Message) : Prop where
  header : ∀ s ∈ p.1.strings, Text.Clean s
  said : M.Said a p.2

/-- The clients and the nodes have clean names. -/
def CleanNames (M : Messaging ι) : Prop :=
  ∀ i, Text.Clean (M.client i).serverName ∧ Text.Clean (M.client i).clientName

theorem Said.of_typed (hM : M.CleanNames) {i : ι} {line word : String} (hline : Text.Clean line)
    (hword : word ∈ tokenizeBySpace line) (now : ℕ) :
    M.Said (M.client i).host (Client.message (M.client i) now word) where
  clean := by
    intro s hs
    rcases List.mem_cons.1 hs with rfl | hs
    · exact hline.word hword
    · rw [List.mem_singleton.1 hs]
      exact (hM i).2
  word := ⟨(of_mem_tokenizeBySpace hword).1, (of_mem_tokenizeBySpace hword).2.1⟩
  author := ⟨i, rfl, rfl⟩

/-- The header of a request, or of a message. -/
theorem Posted.of_typed (hM : M.CleanNames) {i : ι} {line word target queName : String}
    (hline : Text.Clean line) (hword : word ∈ tokenizeBySpace line) (htarget : Text.Clean target)
    (hqueName : Text.Clean queName) (now : ℕ) :
    M.Posted (M.client i).host (⟨target, (M.client i).serverName, queName,
      (M.client i).clientName⟩, Client.message (M.client i) now word) where
  header := by
    intro s hs
    simp only [Itf.Header.strings, List.mem_cons, List.not_mem_nil, or_false] at hs
    rcases hs with rfl | rfl | rfl | rfl
    · exact htarget
    · exact (hM i).1
    · exact hqueName
    · exact (hM i).2
  said := .of_typed hM hline hword now

namespace Posted

variable {a : String} {p : Itf.Header × Message}

theorem strings (h : M.Posted a p) : ∀ s ∈ p.1.strings ++ p.2.strings, Text.Clean s := by
  intro s hs
  rcases List.mem_append.1 hs with hs | hs
  · exact h.header s hs
  · exact h.said.clean s hs

/-- A node reads it from a channel. -/
theorem decodeChannel (h : M.Posted a p) (behind : String) :
    Consumer.decodeChannel M.messageSerializer ⟨M.parcel p, behind⟩ = some p.2 :=
  Consumer.decodeChannel_serializeData behind (fun s hs => (h.strings s hs).2)
    fun s hs => (h.strings s hs).1

/-- A node reads it from its control queue. -/
theorem handleControlMessage (h : M.Posted a p) :
    Consumer.handleControlMessage M.headerSerializer M.messageSerializer (M.parcel p) =
      some (if p.1.target = "CreateChannel" then some (p.2.data, p.2.author) else none) :=
  Consumer.handleControlMessage_serializeData fun s hs => (h.strings s hs).1

end Posted

end Messaging

/-! ## Into a node -/

section Inbound

variable {ι : Type} {M : Messaging ι} {S : MessageServer.{0, 0, 0} String String}

/-- The control queue has requests for channels only, from clients that have a queue; what has come
to a channel has arrived, in its order, or waits there, but for what was lost when the process of
the node ended. -/
structure Inbound (M : Messaging ι) (a : String) (alive : Prop) (b : Broker S)
    (consumed clientNames : List String) (sent arrived : List (String × Message)) : Prop where
  controlQueue : b.declared (M.controlChannel a) = true
  control : ∃ requests : List (Itf.Header × Message),
    b.bodies (M.controlChannel a) = requests.map M.parcel ∧ ∀ p ∈ requests, M.Posted a p ∧
      ¬ M.Reserved a p.2.data ∧ b.declared (Consumer.clientChannel p.2.author) = true
  registered : ∀ client ∈ clientNames, b.declared (Consumer.clientChannel client) = true
  channel : ∀ queName, ¬ M.Reserved a queName → ∃ lost waiting : List (Itf.Header × Message),
    b.bodies queName = waiting.map M.parcel ∧ (∀ p ∈ waiting, M.Posted a p) ∧
      (sent.filter (fun e => e.1 = queName) = arrived.filter (fun e => e.1 = queName) ++
        (lost ++ waiting).map fun p => (queName, p.2)) ∧ (alive → lost = [])
  arrived : ∀ e ∈ arrived, ¬ M.Reserved a e.1 ∧ M.Said a e.2
  sent : ∀ e ∈ sent, ¬ M.Reserved a e.1
  proper : ∀ queName ∈ consumed, ¬ M.Reserved a queName
  consumed : ∀ queName, ¬ M.Reserved a queName → b.declared queName = true → queName ∈ consumed

namespace Inbound

variable {a : String} {alive : Prop} {b b' : Broker S} {consumed clientNames : List String}
  {sent arrived : List (String × Message)}

theorem start (M : Messaging ι) (a : String) (alive : Prop) :
    Inbound M a alive ((Broker.empty : Broker S).declareQueue (M.controlChannel a)) [] [] []
      [] where
  controlQueue := by simp
  control := ⟨[], by simp, by simp⟩
  registered := by simp
  channel _ _ := ⟨[], [], by simp, by simp, by simp, by simp⟩
  arrived := by simp
  sent := by simp
  proper := by simp
  consumed := by
    intro queName hreserved hdeclared
    rw [Broker.declared_declareQueue] at hdeclared
    simp [Messaging.ne_controlChannel hreserved] at hdeclared

/-- Nothing is lost as long as the process is alive. -/
theorem mono (h : Inbound M a alive b consumed clientNames sent arrived) {alive' : Prop}
    (himp : alive' → alive) : Inbound M a alive' b consumed clientNames sent arrived where
  controlQueue := h.controlQueue
  control := h.control
  registered := h.registered
  channel queName hreserved := by
    obtain ⟨lost, waiting, hwaiting, hposted, hsent, hlost⟩ := h.channel queName hreserved
    exact ⟨lost, waiting, hwaiting, hposted, hsent, fun halive => hlost (himp halive)⟩
  arrived := h.arrived
  sent := h.sent
  proper := h.proper
  consumed := h.consumed

/-- What happens to the queues of clients does not matter. -/
theorem congr (h : Inbound M a alive b consumed clientNames sent arrived)
    (hbodies : ∀ queName, (∀ client, queName ≠ Consumer.clientChannel client) →
      b'.bodies queName = b.bodies queName)
    (hdeclared : ∀ queName, b.declared queName = true → b'.declared queName = true)
    (hback : ∀ queName, ¬ M.Reserved a queName → b'.declared queName = true →
      b.declared queName = true) : Inbound M a alive b' consumed clientNames sent arrived where
  controlQueue := hdeclared _ h.controlQueue
  control := by
    obtain ⟨requests, hrequests, hposted⟩ := h.control
    refine ⟨requests, ?_, fun p hp => ?_⟩
    · rw [hbodies _ fun client => M.controlChannel_ne_clientChannel a client, hrequests]
    · obtain ⟨hp, hdata, hauthor⟩ := hposted p hp
      exact ⟨hp, hdata, hdeclared _ hauthor⟩
  registered client hclient := hdeclared _ (h.registered client hclient)
  channel queName hreserved := by
    obtain ⟨lost, waiting, hwaiting, hrest⟩ := h.channel queName hreserved
    refine ⟨lost, waiting, ?_, hrest⟩
    rw [hbodies queName (Messaging.ne_clientChannel hreserved), hwaiting]
  arrived := h.arrived
  sent := h.sent
  proper := h.proper
  consumed queName hreserved hnew := h.consumed queName hreserved (hback queName hreserved hnew)

/-- The node publishes to its clients. -/
theorem publish (h : Inbound M a alive b consumed clientNames sent arrived)
    (messageSerializer : MessageSerializer) (messages : List Message) :
    Inbound M a alive (b.publishAll (Consumer.sendData messageSerializer clientNames messages))
      consumed clientNames sent arrived := by
  refine h.congr (fun queName hne => ?_) (fun queName hdeclared => ?_)
    fun queName _ hdeclared => ?_
  · have hnone : (Consumer.sendData messageSerializer clientNames messages).filter
        (fun message => message.1 = queName) = [] := by
      rw [List.filter_eq_nil_iff]
      intro message hmessage heq
      obtain ⟨client, hclient⟩ := Consumer.exists_clientChannel_of_mem_sendData hmessage
      exact hne client ((of_decide_eq_true heq).symm.trans hclient)
    rw [Broker.bodies_publishAll, hnone]
    simp
  · rwa [Broker.declared_publishAll]
  · rwa [Broker.declared_publishAll] at hdeclared

/-- A client asks for a channel. -/
theorem createQueue (h : Inbound M a alive b consumed clientNames sent arrived)
    {p : Itf.Header × Message} (hp : M.Posted a p) (hdata : ¬ M.Reserved a p.2.data)
    (hauthor : b.declared (Consumer.clientChannel p.2.author) = true) :
    Inbound M a alive (b.publish (M.controlChannel a, M.parcel p)) consumed clientNames sent
      arrived where
  controlQueue := by rw [Broker.declared_publish, h.controlQueue]
  control := by
    obtain ⟨requests, hrequests, hposted⟩ := h.control
    refine ⟨requests ++ [p], ?_, fun p' hp' => ?_⟩
    · rw [Broker.bodies_publish, hrequests]
      simp [h.controlQueue]
    · rw [Broker.declared_publish]
      rcases List.mem_append.1 hp' with hp' | hp'
      · exact hposted p' hp'
      · rw [List.mem_singleton.1 hp']
        exact ⟨hp, hdata, hauthor⟩
  registered client hclient := by
    rw [Broker.declared_publish]
    exact h.registered client hclient
  channel queName hreserved := by
    obtain ⟨lost, waiting, hwaiting, hrest⟩ := h.channel queName hreserved
    refine ⟨lost, waiting, ?_, hrest⟩
    rw [Broker.bodies_publish, hwaiting]
    simp [(Messaging.ne_controlChannel hreserved).symm]
  arrived := h.arrived
  sent := h.sent
  proper := h.proper
  consumed queName hreserved hnew := by
    rw [Broker.declared_publish] at hnew
    exact h.consumed queName hreserved hnew

/-- A client says something in a channel. -/
theorem sendMessage (h : Inbound M a alive b consumed clientNames sent arrived)
    {p : Itf.Header × Message} (hp : M.Posted a p) {queName : String}
    (hreserved : ¬ M.Reserved a queName) :
    Inbound M a alive (b.publish (queName, M.parcel p)) consumed clientNames
      (if b.declared queName then sent ++ [(queName, p.2)] else sent) arrived where
  controlQueue := by rw [Broker.declared_publish, h.controlQueue]
  control := by
    obtain ⟨requests, hrequests, hposted⟩ := h.control
    refine ⟨requests, ?_, fun p' hp' => ?_⟩
    · rw [Broker.bodies_publish, hrequests]
      simp [Messaging.ne_controlChannel hreserved]
    · rw [Broker.declared_publish]
      exact hposted p' hp'
  registered client hclient := by
    rw [Broker.declared_publish]
    exact h.registered client hclient
  channel queName' hreserved' := by
    obtain ⟨lost, waiting, hwaiting, hposted, hsent, hlost⟩ := h.channel queName' hreserved'
    rw [Broker.bodies_publish, hwaiting]
    by_cases hdeclared : b.declared queName = true
    · by_cases heq : queName = queName'
      · subst heq
        refine ⟨lost, waiting ++ [p], by simp [hdeclared], fun p' hp' => ?_, ?_, hlost⟩
        · rcases List.mem_append.1 hp' with hp' | hp'
          · exact hposted p' hp'
          · rwa [List.mem_singleton.1 hp']
        · simp [hdeclared, hsent]
      · exact ⟨lost, waiting, by simp [heq], hposted, by simp [hdeclared, heq, hsent], hlost⟩
    · refine ⟨lost, waiting, ?_, hposted, by simp [hdeclared, hsent], hlost⟩
      have hnot : ¬ (b.declared queName' = true ∧ queName = queName') := by
        rintro ⟨h', rfl⟩
        exact hdeclared h'
      simp [hnot]
  arrived := h.arrived
  sent := by
    intro e he
    split at he
    · rcases List.mem_append.1 he with he | he
      · exact h.sent e he
      · rwa [List.mem_singleton.1 he]
    · exact h.sent e he
  proper := h.proper
  consumed queName' hreserved' hnew := by
    rw [Broker.declared_publish] at hnew
    exact h.consumed queName' hreserved' hnew

/-- The node receives a request that it does not know. -/
theorem ignore (h : Inbound M a alive b consumed clientNames sent arrived) :
    Inbound M a alive (b.deliver (M.controlChannel a)) consumed clientNames sent arrived where
  controlQueue := by rw [Broker.declared_deliver, h.controlQueue]
  control := by
    obtain ⟨requests, hrequests, hposted⟩ := h.control
    refine ⟨requests.tail, ?_, fun p hp => ?_⟩
    · rw [Broker.bodies_deliver, if_pos rfl, hrequests, List.map_tail]
    · rw [Broker.declared_deliver]
      exact hposted p (List.mem_of_mem_tail hp)
  registered client hclient := by
    rw [Broker.declared_deliver]
    exact h.registered client hclient
  channel queName hreserved := by
    obtain ⟨lost, waiting, hwaiting, hrest⟩ := h.channel queName hreserved
    refine ⟨lost, waiting, ?_, hrest⟩
    rw [Broker.bodies_deliver, if_neg (Messaging.ne_controlChannel hreserved), hwaiting]
  arrived := h.arrived
  sent := h.sent
  proper := h.proper
  consumed queName hreserved hnew := by
    rw [Broker.declared_deliver] at hnew
    exact h.consumed queName hreserved hnew

/-- The node creates a channel, and the author becomes a client. -/
theorem createChannel (h : Inbound M a alive b consumed clientNames sent arrived)
    {queName author : String} {clientNames' : List String} (hreserved : ¬ M.Reserved a queName)
    (hauthor : b.declared (Consumer.clientChannel author) = true)
    (hclientNames : ∀ client ∈ clientNames', client ∈ clientNames ∨ author = client) :
    Inbound M a alive (b.declareQueue queName) (consumed ++ [queName]) clientNames' sent
      arrived where
  controlQueue := by rw [Broker.declared_declareQueue, h.controlQueue, Bool.or_true]
  control := by
    obtain ⟨requests, hrequests, hposted⟩ := h.control
    refine ⟨requests, by rw [Broker.bodies_declareQueue, hrequests], fun p hp => ?_⟩
    obtain ⟨hp, hdata, hdeclared⟩ := hposted p hp
    exact ⟨hp, hdata, by rw [Broker.declared_declareQueue, hdeclared, Bool.or_true]⟩
  registered client hclient := by
    rw [Broker.declared_declareQueue]
    rcases hclientNames client hclient with hclient | rfl
    · rw [h.registered client hclient, Bool.or_true]
    · rw [hauthor, Bool.or_true]
  channel queName' hreserved' := by
    rw [Broker.bodies_declareQueue]
    exact h.channel queName' hreserved'
  arrived := h.arrived
  sent := h.sent
  proper queName' hqueName' := by
    rcases List.mem_append.1 hqueName' with hqueName' | hqueName'
    · exact h.proper queName' hqueName'
    · rwa [List.mem_singleton.1 hqueName']
  consumed queName' hreserved' hnew := by
    rw [Broker.declared_declareQueue, Bool.or_eq_true, decide_eq_true_eq] at hnew
    rcases hnew with rfl | hold
    · exact List.mem_concat_self
    · exact List.mem_append_left _ (h.consumed queName' hreserved' hold)

/-- The node receives from a channel. -/
theorem deliver (h : Inbound M a alive b consumed clientNames sent arrived) (halive : alive)
    {queName body : String} {rest : List String} (hqueName : queName ∈ consumed)
    (hbody : b.bodies queName = body :: rest) :
    ∃ message, (∀ behind, Consumer.decodeChannel M.messageSerializer ⟨body, behind⟩ =
        some message) ∧
      Inbound M a alive (b.deliver queName) consumed clientNames sent
        (arrived ++ [(queName, message)]) := by
  have hreserved := h.proper queName hqueName
  obtain ⟨lost, waiting, hwaiting, hposted, hsent, hlost⟩ := h.channel queName hreserved
  rw [hlost halive, List.nil_append] at hsent
  rw [hbody] at hwaiting
  obtain ⟨p, waiting, rfl, rfl, rfl⟩ := List.map_eq_cons_iff.1 hwaiting.symm
  have hp := hposted p List.mem_cons_self
  refine ⟨p.2, hp.decodeChannel, ?_⟩
  constructor
  case controlQueue => rw [Broker.declared_deliver, h.controlQueue]
  case control =>
    obtain ⟨requests, hrequests, hposted⟩ := h.control
    refine ⟨requests, ?_, fun p hp => ?_⟩
    · rw [Broker.bodies_deliver, if_neg (Messaging.ne_controlChannel hreserved).symm, hrequests]
    · rw [Broker.declared_deliver]
      exact hposted p hp
  case registered =>
    intro client hclient
    rw [Broker.declared_deliver]
    exact h.registered client hclient
  case channel =>
    intro queName' hreserved'
    rw [Broker.bodies_deliver]
    by_cases heq : queName' = queName
    · subst heq
      refine ⟨[], waiting, by simp [hbody], fun p' hp' => hposted p' (List.mem_cons_of_mem p hp'),
        ?_, fun _ => rfl⟩
      simp [hsent]
    · obtain ⟨lost', waiting', hwaiting', hposted', hsent', hlost'⟩ :=
        h.channel queName' hreserved'
      exact ⟨lost', waiting', by simp [heq, hwaiting'], hposted', by simp [Ne.symm heq, hsent'],
        hlost'⟩
  case arrived =>
    intro e he
    rcases List.mem_append.1 he with he | he
    · exact h.arrived e he
    · rw [List.mem_singleton.1 he]
      exact ⟨hreserved, hp.said⟩
  case sent => exact h.sent
  case proper => exact h.proper
  case consumed =>
    intro queName' hreserved' hnew
    rw [Broker.declared_deliver] at hnew
    exact h.consumed queName' hreserved' hnew

/-- The process of the node has ended, and something was on its way to it. -/
theorem cancel (h : Inbound M a alive b consumed clientNames sent arrived) (hended : ¬ alive)
    (queName : String) (lost : ℕ) :
    Inbound M a alive (b.cancel queName lost) consumed clientNames sent arrived where
  controlQueue := by rw [Broker.declared_cancel, h.controlQueue]
  control := by
    obtain ⟨requests, hrequests, hposted⟩ := h.control
    by_cases hname : M.controlChannel a = queName
    · refine ⟨requests.drop lost, ?_, fun p hp => ?_⟩
      · rw [Broker.bodies_cancel, if_pos hname, ← hname, hrequests, List.map_drop]
      · rw [Broker.declared_cancel]
        exact hposted p (List.mem_of_mem_drop hp)
    · refine ⟨requests, ?_, fun p hp => ?_⟩
      · rw [Broker.bodies_cancel, if_neg hname, hrequests]
      · rw [Broker.declared_cancel]
        exact hposted p hp
  registered client hclient := by
    rw [Broker.declared_cancel]
    exact h.registered client hclient
  channel queName' hreserved' := by
    obtain ⟨gone, waiting, hwaiting, hposted, hsent, -⟩ := h.channel queName' hreserved'
    by_cases hname : queName' = queName
    · subst hname
      refine ⟨gone ++ waiting.take lost, waiting.drop lost, ?_,
        fun p hp => hposted p (List.mem_of_mem_drop hp), ?_, fun halive => absurd halive hended⟩
      · rw [Broker.bodies_cancel, if_pos rfl, hwaiting, List.map_drop]
      · rw [List.append_assoc, List.take_append_drop, hsent]
    · refine ⟨gone, waiting, ?_, hposted, hsent, fun halive => absurd halive hended⟩
      rw [Broker.bodies_cancel, if_neg hname, hwaiting]
  arrived := h.arrived
  sent := h.sent
  proper := h.proper
  consumed queName' hreserved' hnew := by
    rw [Broker.declared_cancel] at hnew
    exact h.consumed queName' hreserved' hnew

end Inbound

end Inbound

/-! ## Out to a client -/

section Outbound

variable {ι : Type} {M : Messaging ι} {S : MessageServer.{0, 0, 0} String String}

/-- What a node has published to the queue of a client was received by it, in its order, or waits
there. -/
structure Outbound (M : Messaging ι) (i : ι) (b : Broker S) (l : Listener)
    (running : Bool) (queue : List Message) : Prop where
  declared : running = true → b.declared (M.clientChannel i) = true
  idle : running = false → l.pending = []
  listener : l.Inv M.messageSerializer
  queue : ∃ received waiting : List Message,
    l.pushed.map (Client.decode M.messageSerializer) = received.map some ∧
      b.bodies (M.clientChannel i) = waiting.map M.messageSerializer.serialize ∧
      (∀ m ∈ waiting, m.Clean) ∧ queue = received ++ waiting

namespace Outbound

variable {i : ι} {b b' : Broker S} {l l' : Listener} {running : Bool}
  {queue : List Message}

theorem start (M : Messaging ι) (i : ι) (a : String) :
    Outbound M i ((Broker.empty : Broker S).declareQueue (M.controlChannel a)) {} false [] where
  declared := by simp
  idle _ := rfl
  listener := ⟨[], rfl, rfl⟩
  queue := ⟨[], [], rfl, by simp, by simp, rfl⟩

/-- What happens to other queues does not matter. -/
theorem congr (h : Outbound M i b l running queue)
    (hbodies : b'.bodies (M.clientChannel i) = b.bodies (M.clientChannel i))
    (hdeclared : b.declared (M.clientChannel i) = true →
      b'.declared (M.clientChannel i) = true) : Outbound M i b' l running queue where
  declared hrunning := hdeclared (h.declared hrunning)
  idle := h.idle
  listener := h.listener
  queue := by
    rw [hbodies]
    exact h.queue

theorem declareQueue (h : Outbound M i b l running queue) (queName : String) :
    Outbound M i (b.declareQueue queName) l running queue :=
  h.congr (Broker.bodies_declareQueue b queName _) fun hdeclared => by
    rw [Broker.declared_declareQueue, hdeclared, Bool.or_true]

theorem publish_other (h : Outbound M i b l running queue) {queName : String} (body : String)
    (hne : queName ≠ M.clientChannel i) :
    Outbound M i (b.publish (queName, body)) l running queue :=
  h.congr (by simp [Broker.bodies_publish, hne]) fun hdeclared => by
    rw [Broker.declared_publish, hdeclared]

theorem deliver_other (h : Outbound M i b l running queue) {queName : String}
    (hne : queName ≠ M.clientChannel i) : Outbound M i (b.deliver queName) l running queue :=
  h.congr (by simp [Broker.bodies_deliver, Ne.symm hne]) fun hdeclared => by
    rw [Broker.declared_deliver, hdeclared]

theorem cancel_other (h : Outbound M i b l running queue) {queName : String} (lost : ℕ)
    (hne : queName ≠ M.clientChannel i) :
    Outbound M i (b.cancel queName lost) l running queue :=
  h.congr (by simp [Broker.bodies_cancel, Ne.symm hne]) fun hdeclared => by
    rw [Broker.declared_cancel, hdeclared]

/-- The client starts, perhaps again. -/
theorem connect (h : Outbound M i b l running queue) (hrunning : running = false) :
    Outbound M i (b.declareQueue (M.clientChannel i)) { l with buffer := {}, round := .outside }
      true queue where
  declared _ := by simp
  idle := by simp
  listener := by
    obtain ⟨shown, hpushed, hshown⟩ := h.listener
    refine ⟨shown, ?_, hshown⟩
    rw [h.idle hrunning] at hpushed
    exact hpushed
  queue := by
    rw [Broker.bodies_declareQueue]
    exact h.queue

/-- It is left, and nothing is lost. -/
theorem exit (h : Outbound M i b l running queue) (hpending : l.pending = []) :
    Outbound M i (b.cancel (M.clientChannel i) 0) l false queue where
  declared := by simp
  idle _ := hpending
  listener := h.listener
  queue := by
    rw [Broker.bodies_cancel_zero]
    exact h.queue

/-- It receives. -/
theorem listen (h : Outbound M i b l true queue) {body behind : String} {rest : List String}
    (hbody : b.bodies (M.clientChannel i) = body :: rest)
    (hround : l.round = .outside ∨ l.round = .notEmpty)
    (hstep : l.step M.messageSerializer (.receive ⟨body, behind⟩) = some l') :
    Outbound M i (b.deliver (M.clientChannel i)) l' true queue where
  declared hrunning := by
    rw [Broker.declared_deliver]
    exact h.declared hrunning
  idle := by simp
  listener := h.listener.step (a := .receive ⟨body, behind⟩) hround hstep
  queue := by
    obtain ⟨received, waiting, hreceived, hwaiting, hclean, rfl⟩ := h.queue
    rw [hbody] at hwaiting
    obtain ⟨m, waiting, rfl, rfl, rfl⟩ := List.map_eq_cons_iff.1 hwaiting.symm
    cases hstep
    refine ⟨received ++ [m], waiting, ?_, ?_, fun m' hm' => hclean m' (List.mem_cons_of_mem m hm'),
      by simp⟩
    · rw [List.map_append, hreceived, List.map_singleton,
        Client.decode_serialize behind (hclean m List.mem_cons_self), List.map_append,
        List.map_singleton]
    · rw [Broker.bodies_deliver, if_pos rfl, hbody, List.tail_cons]

/-- Its timer thread goes on. -/
theorem handle (h : Outbound M i b l true queue)
    (hstep : l.step M.messageSerializer .handle = some l') : Outbound M i b l' true queue where
  declared := h.declared
  idle := by simp
  listener := h.listener.step (a := .handle) trivial hstep
  queue := by
    rw [Listener.pushed_handle hstep]
    exact h.queue

/-- The node publishes. -/
theorem publish (h : Outbound M i b l running queue) {clientNames : List String}
    (hnodup : clientNames.Nodup)
    (hregistered : (M.client i).clientName ∈ clientNames →
      b.declared (M.clientChannel i) = true)
    {messages : List Message} (hclean : ∀ m ∈ messages, m.Clean) :
    Outbound M i (b.publishAll (Consumer.sendData M.messageSerializer clientNames messages)) l
      running
      (queue ++ if (M.client i).clientName ∈ clientNames then messages else []) where
  declared hrunning := by
    rw [Broker.declared_publishAll]
    exact h.declared hrunning
  idle := h.idle
  listener := h.listener
  queue := by
    obtain ⟨received, waiting, hreceived, hwaiting, hclean', rfl⟩ := h.queue
    have hown := @Consumer.filter_sendData M.messageSerializer _ hnodup messages
      (M.client i).clientName
    rw [Broker.bodies_publishAll, hwaiting, Messaging.clientChannel, hown]
    by_cases hmem : (M.client i).clientName ∈ clientNames
    · have hdeclared := hregistered hmem
      rw [Messaging.clientChannel] at hdeclared
      refine ⟨received, waiting ++ messages, hreceived, ?_, fun m hm => ?_, ?_⟩
      · simp [hdeclared, hmem, Consumer.clientData]
      · rcases List.mem_append.1 hm with hm | hm
        · exact hclean' m hm
        · exact hclean m hm
      · simp [hmem]
    · exact ⟨received, waiting, hreceived, by simp [hmem, Consumer.clientData], hclean',
        by simp [hmem]⟩

end Outbound

end Outbound

end BlockchainMessaging
