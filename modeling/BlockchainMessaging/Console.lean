import BlockchainMessaging.ClientFraming

/-!
# The command line of a client

A client reads a line at a time, cuts it at white space, and does what the first word says, in
whatever case it was typed.  There is no quoting, so a message is one word.  The operation is
compared in lower case with `getMessages`, which is none, so that branch is never taken.  A line of
blanks has no first word at all; it is not told apart from others, and the client reads beyond the
end of an empty vector.

## Main definitions

* `tokenizeBySpace`, `toLower` — the words of a line.
* `ConsoleAction`, `App.interpret` — what a line makes the client do.
* `ClientInfo`, `Client.createQueue`, `Client.sendMessage` — what it sends, and where.
-/

namespace BlockchainMessaging

/-- The white space of the streams. -/
def isSpace (x : Char) : Bool := decide (x ∈ [' ', '\t', '\n', '\x0b', '\x0c', '\r'])

/-- `tokenizeBySpace`. -/
def tokenizeBySpace (command : String) : List String :=
  (tokens isSpace command.toList).map String.ofList

/-- `toLower`. -/
def toLower (str : String) : String := String.ofList (str.toList.map Char.toLower)

/-! ## Commands -/

/-- What one round of the loop of `main` does. -/
inductive ConsoleAction
  | skip
  | createQueue (queToBeCreated : String)
  | sendMessage (queName message : String)
  | getMessages (queName date : String)
  | print (text : String)
  | exit
  deriving DecidableEq, Repr

namespace App

/-- One round of the loop of `main`.  `none` is `args[0]` of an empty vector. -/
def interpret (command : String) : Option ConsoleAction :=
  if command = "" then some .skip
  else do
    let args := tokenizeBySpace command
    let operation := toLower (← args[0]?)
    if operation = "init" then
      return match args with
        | [_, queToBeCreated] => .createQueue queToBeCreated
        | _ => .print "initChannel: <queToBeCreated>\n"
    else if operation = "send" then
      return match args with
        | [_, queName, message] => .sendMessage queName message
        | _ => .print "send: <queName> <message>\n"
    else if operation = "getMessages" then
      return match args with
        | [_, queName, date] => .getMessages queName date
        | _ => .print "getMessages: <queName> <date>\n"
    else if operation = "exit" then return .exit
    else if operation = "help" then return .print "Possible commands: [init, send, exit]\n"
    else return .skip

/-- No letter is a capital one afterwards. -/
theorem toLower_ne_M (x : Char) : x.toLower ≠ 'M' := by
  intro h
  delta Char.toLower at h
  split at h
  · next hupper =>
    have hval := congrArg (fun y => y.val.toNat) h
    simp only [UInt32.le_iff_toNat_le, ge_iff_le] at hupper
    simp at hval hupper
    omega
  · next hupper => exact hupper (h ▸ by decide)

theorem toLower_ne_getMessages (str : String) : toLower str ≠ "getMessages" := by
  intro h
  have hmem : 'M' ∈ (toLower str).toList := by
    rw [h]
    decide
  rw [toLower, String.toList_ofList, List.mem_map] at hmem
  obtain ⟨x, -, hx⟩ := hmem
  exact toLower_ne_M x hx

/-- What is called, if anything, is called with words of the line; and it is not `getMessages`. -/
def Words (command : String) : ConsoleAction → Prop
  | .createQueue queToBeCreated => queToBeCreated ∈ tokenizeBySpace command
  | .sendMessage queName message =>
      queName ∈ tokenizeBySpace command ∧ message ∈ tokenizeBySpace command
  | .getMessages _ _ => False
  | .skip | .print _ | .exit => True

theorem words_of_interpret {command : String} {action : ConsoleAction}
    (h : interpret command = some action) : Words command action := by
  simp only [interpret] at h
  split at h
  · cases h
    trivial
  · obtain ⟨operation, -, h⟩ := Option.bind_eq_some_iff.1 h
    rw [if_neg (toLower_ne_getMessages operation)] at h
    split at h
    · cases h
      split
      · next hargs => simp [Words, hargs]
      · trivial
    · split at h
      · cases h
        split
        · next hargs => simp [Words, hargs]
        · trivial
      · split at h
        · cases h
          trivial
        · split at h
          · cases h
            trivial
          · cases h
            trivial

end App

/-- A word is not empty, has no white space, and consists of what was typed. -/
theorem of_mem_tokenizeBySpace {command word : String} (h : word ∈ tokenizeBySpace command) :
    word ≠ "" ∧ (∀ x ∈ word.toList, isSpace x = false) ∧ ∀ x ∈ word.toList, x ∈ command.toList := by
  obtain ⟨token, htoken, rfl⟩ := List.mem_map.1 h
  rw [String.toList_ofList]
  refine ⟨?_, not_sep_of_mem_tokens htoken, mem_of_mem_tokens htoken⟩
  simpa using ne_nil_of_mem_tokens htoken

/-! ## Clean texts -/

/-- Neither the separator of the framing nor a NUL is in it. -/
def Text.Clean (text : String) : Prop := '@' ∉ text.toList ∧ '\x00' ∉ text.toList

/-- No string in the message has one. -/
def Message.Clean (message : Message) : Prop := ∀ s ∈ message.strings, Text.Clean s

instance (text : String) : Decidable (Text.Clean text) := inferInstanceAs (Decidable (_ ∧ _))

theorem Text.Clean.append {text text' : String} (h : Clean text) (h' : Clean text') :
    Clean (text ++ text') := by
  rw [Clean, String.toList_append, List.mem_append, List.mem_append, not_or, not_or]
  exact ⟨⟨h.1, h'.1⟩, h.2, h'.2⟩

/-- The words of a clean line. -/
theorem Text.Clean.word {command word : String} (h : Clean command)
    (hword : word ∈ tokenizeBySpace command) : Clean word := by
  obtain ⟨-, -, hmem⟩ := of_mem_tokenizeBySpace hword
  exact ⟨fun hat => h.1 (hmem _ hat), fun hnul => h.2 (hmem _ hnul)⟩

/-! ## Calls -/

/-- `client::ClientInfo`. -/
structure ClientInfo where
  host : String
  serverName : String
  clientName : String
  deriving DecidableEq, Repr

namespace Client

variable (headerSerializer : Itf.HeaderSerializer) (messageSerializer : MessageSerializer)
  (clientInfo : ClientInfo) (now : ℕ)

/-- The message in `createQueue` and `sendMessage`, when the clock shows `now`. -/
def message (data : String) : Message := ⟨now, data, clientInfo.clientName⟩

/-- `Client::createQueue`: the queue, and what is published to it. -/
def createQueue (queToBeCreated : String) : String × String :=
  let queName := clientInfo.serverName ++ "_ControlChannel"
  (queName, serializeData headerSerializer messageSerializer
    ⟨"CreateChannel", clientInfo.serverName, queName, clientInfo.clientName⟩
    (message clientInfo now queToBeCreated))

/-- `Client::sendMessage`: the queue, and what is published to it. -/
def sendMessage (queName dataToSend : String) : String × String :=
  (queName, serializeData headerSerializer messageSerializer
    ⟨"Send", clientInfo.serverName, queName, clientInfo.clientName⟩
    (message clientInfo now dataToSend))

end Client

end BlockchainMessaging
