import BlockchainMessaging.Buffer
import BlockchainMessaging.Lib.Tokens
import BlockchainMessaging.Serializer

/-!
# The framing between clients and nodes

A client puts a header, an `@` and a message together; a node takes what it receives apart at
each `@`.  The archive does not escape its strings, so an `@` in one of them is a separator like
any other.  On the way back there is no header, and the client takes the first piece.

Some of the receivers make a string of the `body()` pointer.  Nothing ends it but the first NUL,
so what lies behind the body in memory comes along, too.

## Main definitions

* `Text.splitBySeparator` — the tokenizer.
* `Received` — a delivered message.
* `Client.serializeData`, `Consumer.decode`, `Consumer.decodeChannel` — from a client to a node.
* `Consumer.clientData`, `Client.decode` — from a node to a client.
-/

namespace BlockchainMessaging

/-- `Text::splitBySeparator`: each character of `separator` is one. -/
def Text.splitBySeparator (data separator : String) : List String :=
  (tokens (fun x => decide (x ∈ separator.toList)) data.toList).map String.ofList

/-- A message as `onReceived` gets it: its body, and what lies behind it in memory. -/
structure Received where
  body : String
  behind : String

/-- A string made of the `body()` pointer. -/
def Received.cString (msg : Received) : String := cStr (msg.body ++ msg.behind)

/-! ## From a client to a node -/

section Sending

variable (headerSerializer : Itf.HeaderSerializer) (messageSerializer : MessageSerializer)

/-- `Client::serializeData`. -/
def Client.serializeData (header : Itf.Header) (message : Message) : String :=
  headerSerializer.serialize header ++ "@" ++ messageSerializer.serialize message ++ "\n"

/-- The decoding in `Consumer::handleControlMessage`.  `none` is an exception, of `at` or of the
archive. -/
def Consumer.decode (data : String) : Option (Itf.Header × Message) := do
  let dataAttributes := Text.splitBySeparator data "@"
  let serializedHeader ← dataAttributes[0]?
  let serializedMessage ← dataAttributes[1]?
  let header ← headerSerializer.deserialize serializedHeader
  let message ← messageSerializer.deserialize serializedMessage
  return (header, message)

/-- `Consumer::handleControlMessage`: the channel and the author for `createChannel`, if it is
called. -/
def Consumer.handleControlMessage (data : String) : Option (Option (String × String)) := do
  let (header, message) ← Consumer.decode headerSerializer messageSerializer data
  return if header.target = "CreateChannel" then some (message.data, message.author) else none

/-- The decoding in the consumer of `Consumer::createChannel`. -/
def Consumer.decodeChannel (msg : Received) : Option Message := do
  let data := Text.splitBySeparator msg.cString "@"
  let serializedMessage ← data[1]?
  messageSerializer.deserialize serializedMessage

/-- The consumer of `Consumer::createChannel`. -/
def Consumer.onReceived (buffer : Buffer) (msg : Received) : Option Buffer := do
  let message ← Consumer.decodeChannel messageSerializer msg
  return buffer.push message

end Sending

/-! ## From a node to a client -/

section Delivery

variable (messageSerializer : MessageSerializer)

/-- The `data` of each message in `Consumer::sendDataToClients`: the bodies that are published. -/
def Consumer.clientData (messages : List Message) : List String :=
  messages.map messageSerializer.serialize

/-- The decoding in `Client::listen`, of one element of the client's buffer. -/
def Client.decode (msg : String) : Option Message := do
  let data := Text.splitBySeparator msg "@"
  let serializedMessage ← data[0]?
  messageSerializer.deserialize serializedMessage

end Delivery

/-! ## Tokens and characters -/

namespace Text

theorem not_mem_of_mem_splitBySeparator {data token separator : String}
    (h : token ∈ splitBySeparator data separator) {x : Char} (hx : x ∈ separator.toList) :
    x ∉ token.toList := by
  obtain ⟨piece, hpiece, rfl⟩ := List.mem_map.1 h
  intro hmem
  rw [String.toList_ofList] at hmem
  simpa [hx] using not_sep_of_mem_tokens hpiece x hmem

private theorem not_sep_of_not_mem {text : String} {x : Char} (h : x ∉ text.toList) :
    ∀ y ∈ text.toList, decide (y ∈ (String.singleton x).toList) = false := by
  intro y hy
  rw [decide_eq_false_iff_not, String.toList_singleton, List.mem_singleton]
  rintro rfl
  exact h hy

/-- The part in front of a separator is the first token. -/
theorem splitBySeparator_append {text : String} (rest : String) {x : Char}
    (hne : text ≠ "") (h : x ∉ text.toList) :
    splitBySeparator (text ++ String.singleton x ++ rest) (String.singleton x) =
      text :: splitBySeparator rest (String.singleton x) := by
  have hlist : text.toList ≠ [] := by simpa using hne
  rw [splitBySeparator, String.toList_append, String.toList_append, String.toList_singleton,
    List.append_assoc, List.singleton_append, tokens_append_cons _ _ (by simp),
    ← String.toList_singleton, tokens_of_forall hlist (not_sep_of_not_mem h)]
  simp [splitBySeparator]

/-- A text without separator begins the first token. -/
theorem exists_splitBySeparator_append {text : String} (rest : String) {x : Char}
    (hne : text ≠ "") (h : x ∉ text.toList) :
    ∃ tail others, splitBySeparator (text ++ rest) (String.singleton x) =
      (text ++ tail) :: others := by
  have hlist : text.toList ≠ [] := by simpa using hne
  obtain ⟨tail, others, htokens⟩ :=
    exists_tokens_append rest.toList hlist (not_sep_of_not_mem h)
  refine ⟨String.ofList tail, others.map String.ofList, ?_⟩
  rw [splitBySeparator, String.toList_append, htokens, List.map_cons, String.ofList_append,
    String.ofList_toList]

end Text

/-- A string without NUL is read to its end, and on. -/
theorem cStr_append {text : String} (rest : String) (h : '\x00' ∉ text.toList) :
    cStr (text ++ rest) = text ++ cStr rest := by
  rw [cStr, String.toList_append, List.takeWhile_append_of_pos, String.ofList_append,
    String.ofList_toList, cStr]
  intro x hx
  simpa using fun hnul : x = '\x00' => h (hnul ▸ hx)

/-! ## What arrives -/

namespace Serializer

variable {Data : Type} {strings : Data → List String} {Behind : String → Prop}
  (serializer : Serializer Data strings Behind)

/-- What is read from a token has no separator in its strings. -/
theorem not_mem_of_deserialize {data token separator : String} {value : Data}
    (htoken : token ∈ Text.splitBySeparator data separator)
    (h : serializer.deserialize token = some value) {x : Char} (hx : x ∈ separator.toList)
    (hnul : x ≠ '\x00') : ∀ s ∈ strings value, x ∉ s.toList := by
  intro s hs hmem
  obtain hin | rfl := serializer.mem_deserialize h s hs x hmem
  · exact Text.not_mem_of_mem_splitBySeparator htoken hx hin
  · exact hnul rfl

theorem not_mem_serialize_at {data : Data} (h : ∀ s ∈ strings data, '@' ∉ s.toList) :
    '@' ∉ (serializer.serialize data).toList :=
  serializer.not_mem_serialize (by decide) h

theorem not_mem_serialize_nul {data : Data} (h : ∀ s ∈ strings data, '\x00' ∉ s.toList) :
    '\x00' ∉ (serializer.serialize data).toList :=
  serializer.not_mem_serialize (by decide) h

end Serializer

section Sending

variable {headerSerializer : Itf.HeaderSerializer} {messageSerializer : MessageSerializer}

/-- The node reads nothing with an `@` in it. -/
theorem Consumer.not_mem_of_decode {data : String} {header : Itf.Header} {message : Message}
    (h : Consumer.decode headerSerializer messageSerializer data = some (header, message)) :
    ∀ s ∈ header.strings ++ message.strings, '@' ∉ s.toList := by
  obtain ⟨serializedHeader, htoken₀, h⟩ := Option.bind_eq_some_iff.1 h
  obtain ⟨serializedMessage, htoken₁, h⟩ := Option.bind_eq_some_iff.1 h
  obtain ⟨header', hheader, h⟩ := Option.bind_eq_some_iff.1 h
  obtain ⟨message', hmessage, h⟩ := Option.bind_eq_some_iff.1 h
  cases h
  intro s hs
  rcases List.mem_append.1 hs with hs | hs
  · exact headerSerializer.not_mem_of_deserialize (List.mem_of_getElem? htoken₀) hheader
      (by decide) (by decide) s hs
  · exact messageSerializer.not_mem_of_deserialize (List.mem_of_getElem? htoken₁) hmessage
      (by decide) (by decide) s hs

/-- The tokens of what a client sends, and of what is read behind it. -/
theorem Client.exists_splitBySeparator_serializeData
    (headerSerializer : Itf.HeaderSerializer) (messageSerializer : MessageSerializer)
    {header : Itf.Header} {message : Message}
    (hheader : ∀ s ∈ header.strings, '@' ∉ s.toList)
    (hmessage : ∀ s ∈ message.strings, '@' ∉ s.toList) (rest : String) :
    ∃ tail others, Text.splitBySeparator
      (Client.serializeData headerSerializer messageSerializer header message ++ rest) "@" =
        headerSerializer.serialize header ::
          (messageSerializer.serialize message ++ tail) :: others := by
  obtain ⟨tail, others, htokens⟩ := Text.exists_splitBySeparator_append ("\n" ++ rest)
    (messageSerializer.serialize_ne_empty message)
    (messageSerializer.not_mem_serialize_at hmessage)
  refine ⟨tail, others, ?_⟩
  have hdata : Client.serializeData headerSerializer messageSerializer header message ++ rest =
      headerSerializer.serialize header ++ String.singleton '@' ++
        (messageSerializer.serialize message ++ ("\n" ++ rest)) := by
    simp only [Client.serializeData, String.append_assoc]
    rfl
  have hat : "@" = String.singleton '@' := rfl
  rw [hdata, hat, Text.splitBySeparator_append _ (headerSerializer.serialize_ne_empty header)
    (headerSerializer.not_mem_serialize_at hheader), htokens]

theorem Consumer.decode_serializeData {header : Itf.Header} {message : Message}
    (hat : ∀ s ∈ header.strings ++ message.strings, '@' ∉ s.toList) :
    Consumer.decode headerSerializer messageSerializer
      (Client.serializeData headerSerializer messageSerializer header message) =
        some (header, message) := by
  obtain ⟨tail, others, hsplit⟩ := Client.exists_splitBySeparator_serializeData headerSerializer
    messageSerializer (fun s hs => hat s (List.mem_append_left _ hs))
    (fun s hs => hat s (List.mem_append_right _ hs)) ""
  have hheader := headerSerializer.deserialize_serialize header ""
  rw [String.append_empty] at hsplit hheader
  simp [Consumer.decode, hsplit, hheader, messageSerializer.deserialize_serialize]

theorem Consumer.decodeChannel_serializeData {header : Itf.Header} {message : Message}
    (behind : String) (hnul : ∀ s ∈ header.strings ++ message.strings, '\x00' ∉ s.toList)
    (hat : ∀ s ∈ header.strings ++ message.strings, '@' ∉ s.toList) :
    Consumer.decodeChannel messageSerializer
      ⟨Client.serializeData headerSerializer messageSerializer header message, behind⟩ =
        some message := by
  obtain ⟨tail, others, hsplit⟩ := Client.exists_splitBySeparator_serializeData headerSerializer
    messageSerializer (fun s hs => hat s (List.mem_append_left _ hs))
    (fun s hs => hat s (List.mem_append_right _ hs)) (cStr behind)
  have hbody : '\x00' ∉
      (Client.serializeData headerSerializer messageSerializer header message).toList := by
    have hheader := headerSerializer.not_mem_serialize_nul
      fun s hs => hnul s (List.mem_append_left _ hs)
    have hmessage := messageSerializer.not_mem_serialize_nul
      fun s hs => hnul s (List.mem_append_right _ hs)
    simp [Client.serializeData, hheader, hmessage]
  rw [Consumer.decodeChannel, Received.cString, cStr_append _ hbody]
  simp [hsplit, messageSerializer.deserialize_serialize]

/-- A node creates the channel that a client asks for, and nothing else. -/
theorem Consumer.handleControlMessage_serializeData {header : Itf.Header} {message : Message}
    (hat : ∀ s ∈ header.strings ++ message.strings, '@' ∉ s.toList) :
    Consumer.handleControlMessage headerSerializer messageSerializer
      (Client.serializeData headerSerializer messageSerializer header message) =
        some (if header.target = "CreateChannel" then some (message.data, message.author)
          else none) := by
  rw [Consumer.handleControlMessage, Consumer.decode_serializeData hat]
  rfl

/-- A message that is sent into a channel is pushed into the buffer of the node. -/
theorem Consumer.onReceived_serializeData {header : Itf.Header} {message : Message}
    (buffer : Buffer) (behind : String)
    (hnul : ∀ s ∈ header.strings ++ message.strings, '\x00' ∉ s.toList)
    (hat : ∀ s ∈ header.strings ++ message.strings, '@' ∉ s.toList) :
    Consumer.onReceived messageSerializer buffer
      ⟨Client.serializeData headerSerializer messageSerializer header message, behind⟩ =
        some (buffer.push message) := by
  rw [Consumer.onReceived, Consumer.decodeChannel_serializeData behind hnul hat]
  rfl

/-- **From a client to a node.**  For a header and a message without NUL, whatever lies behind
the body in memory: both decodings of the node return what the client has put together if and
only if there is no `@` in the strings of the header and of the message. -/
theorem Consumer.decode_serializeData_iff (header : Itf.Header) (message : Message)
    (behind : String) (hnul : ∀ s ∈ header.strings ++ message.strings, '\x00' ∉ s.toList) :
    (Consumer.decode headerSerializer messageSerializer
          (Client.serializeData headerSerializer messageSerializer header message) =
            some (header, message) ∧
        Consumer.decodeChannel messageSerializer
          ⟨Client.serializeData headerSerializer messageSerializer header message, behind⟩ =
            some message) ↔
      ∀ s ∈ header.strings ++ message.strings, '@' ∉ s.toList := by
  constructor
  · rintro ⟨hdecode, -⟩
    exact Consumer.not_mem_of_decode hdecode
  · intro hat
    exact ⟨Consumer.decode_serializeData hat,
      Consumer.decodeChannel_serializeData behind hnul hat⟩

end Sending

/-- A message arrives. -/
theorem Consumer.decode_serializeData_iff_hello :
    Consumer.decode headerSerializer messageSerializer
        (Client.serializeData headerSerializer messageSerializer ⟨"Send", "node", "room", "ann"⟩
          ⟨1000, "hello", "ann"⟩) =
      some (⟨"Send", "node", "room", "ann"⟩, ⟨1000, "hello", "ann"⟩) :=
  ((Consumer.decode_serializeData_iff ⟨"Send", "node", "room", "ann"⟩ ⟨1000, "hello", "ann"⟩
    "@behind" (by decide)).2 (by decide)).1

/-- A message with an `@` in it does not. -/
theorem Consumer.not_decode_serializeData :
    ¬ ∀ (header : Itf.Header) (message : Message),
      (∀ s ∈ header.strings ++ message.strings, '\x00' ∉ s.toList) →
        Consumer.decode headerSerializer messageSerializer
          (Client.serializeData headerSerializer messageSerializer header message) =
            some (header, message) := by
  intro hall
  have hnone : Consumer.decode headerSerializer messageSerializer
      (Client.serializeData headerSerializer messageSerializer ⟨"Send", "node", "room", "ann"⟩
        ⟨1000, "a@b", "ann"⟩) = none := by
    decide +kernel
  have hsome := hall ⟨"Send", "node", "room", "ann"⟩ ⟨1000, "a@b", "ann"⟩ (by decide)
  rw [hnone] at hsome
  cases hsome

section Delivery

variable {messageSerializer : MessageSerializer}

/-- **From a node to a client.**  For a message without NUL, whatever lies behind the body in
memory: the client reads from the body that the node publishes that message if and only if there
is no `@` in its data and its author. -/
theorem Client.decode_clientData_iff (message : Message) (behind : String)
    (hnul : ∀ s ∈ message.strings, '\x00' ∉ s.toList) :
    (Consumer.clientData messageSerializer [message]).map
        (fun body => Client.decode messageSerializer (Received.cString ⟨body, behind⟩)) =
          [some message] ↔
      ∀ s ∈ message.strings, '@' ∉ s.toList := by
  simp only [Consumer.clientData, List.map_cons, List.map_nil, List.cons.injEq, and_true]
  constructor
  · intro h
    obtain ⟨serializedMessage, htoken, hmessage⟩ := Option.bind_eq_some_iff.1 h
    exact messageSerializer.not_mem_of_deserialize (List.mem_of_getElem? htoken) hmessage
      (by decide) (by decide)
  · intro hat
    obtain ⟨tail, others, hsplit⟩ := Text.exists_splitBySeparator_append (cStr behind)
      (messageSerializer.serialize_ne_empty message)
      (messageSerializer.not_mem_serialize_at hat)
    have hsingleton : "@" = String.singleton '@' := rfl
    rw [Client.decode, Received.cString, cStr_append _
      (messageSerializer.not_mem_serialize_nul hnul), hsingleton, hsplit]
    simp [messageSerializer.deserialize_serialize]

end Delivery

/-- A message is delivered. -/
theorem Client.decode_clientData_iff_hello :
    (Consumer.clientData messageSerializer [⟨1000, "hello", "ann"⟩]).map
        (fun body => Client.decode messageSerializer (Received.cString ⟨body, "@behind"⟩)) =
      [some ⟨1000, "hello", "ann"⟩] :=
  (Client.decode_clientData_iff ⟨1000, "hello", "ann"⟩ "@behind" (by decide)).2 (by decide)

/-- A message with an `@` in it is not. -/
theorem Client.not_decode_clientData :
    ¬ ∀ (message : Message) (behind : String), (∀ s ∈ message.strings, '\x00' ∉ s.toList) →
      (Consumer.clientData messageSerializer [message]).map
        (fun body => Client.decode messageSerializer (Received.cString ⟨body, behind⟩)) =
          [some message] := by
  intro hall
  have hnone : (Consumer.clientData messageSerializer [⟨1000, "a@b", "ann"⟩]).map
      (fun body => Client.decode messageSerializer (Received.cString ⟨body, ""⟩)) = [none] := by
    decide +kernel
  have hsome := hall ⟨1000, "a@b", "ann"⟩ "" (by decide)
  rw [hnone] at hsome
  cases hsome

end BlockchainMessaging
