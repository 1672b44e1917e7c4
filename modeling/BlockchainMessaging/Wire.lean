import BlockchainMessaging.ClientFraming
import BlockchainMessaging.Framing
import BlockchainMessaging.Projection
import BlockchainMessaging.Provenance

/-!
# Consensus messages as text

The nodes of a cluster do not send each other records.  A message is the text of its header, the
separator of the framing, and the text of its body; the consensus thread makes a string of the
pointer to the text, so it reads on in memory until the next NUL, cuts the string at the first
separator, reads the header, and then what the operation in the header asks for.  The archive stops
behind the value, so what was read on does no harm, unless it goes on with a digit: most bodies end
with a number, and a digit behind a number belongs to it.

Where that is not so, where the names and addresses of the nodes have no NUL and do not begin a
separator, and where the messages of the clients have no NUL, nothing of all that can be noticed:
the nodes do what nodes do that send each other records.

## Main definitions

* `WireFormat` — the archives of the consensus messages.
* `WireFormat.encode`, `WireFormat.decode` — what is sent, and what is read.
* `Unnumbered` — a text that does not begin with a digit.
* `WireState`, `WireState.step` — the cluster with texts on its way.
* `Cluster.wire_refines` — it is a cluster.
-/

namespace BlockchainMessaging

/-! ## The texts -/

/-- The strings in a header. -/
def Header.strings (header : Header) : List String := [header.address, header.node]

/-- The strings in a block. -/
def Block.strings (block : Block) : List String := block.data.flatMap Message.strings

/-- A number in front of this text ends where the text begins. -/
def Unnumbered (rest : String) : Prop := Ends rest.toList

instance (rest : String) : Decidable (Unnumbered rest) :=
  inferInstanceAs (Decidable (Ends rest.toList))

/-- The serializers of the consensus messages.  There are no strings in the wrappers.  A flag, an
election value, the slot of a header and the length of an empty block are numbers, and stand last
in what is written. -/
structure WireFormat where
  headerSerializer : Serializer Header Header.strings Unnumbered
  contributionWrapperSerializer : Serializer Bool (fun _ => []) Unnumbered
  electionValueWrapperSerializer : Serializer ℕ (fun _ => []) Unnumbered
  blockSerializer : Serializer Block Block.strings Unnumbered

section Messages

variable (F : WireFormat) (header : Header)

/-- `ContributionNotifier::createMessage`. -/
def ContributionNotifier.createMessage (isContributing : Bool) : String :=
  Io.merge (F.headerSerializer.serialize header)
    (F.contributionWrapperSerializer.serialize isContributing)

/-- `ElectionNotifier::createMessage`. -/
def ElectionNotifier.createMessage (electionValue : ℕ) : String :=
  Io.merge (F.headerSerializer.serialize header)
    (F.electionValueWrapperSerializer.serialize electionValue)

/-- `DataRelay::createMessage`. -/
def DataRelay.createMessage (block : Block) : String :=
  Io.merge (F.headerSerializer.serialize header) (F.blockSerializer.serialize block)

/-- `BroadcastNotifier::createMessage`. -/
def BroadcastNotifier.createMessage (broadcastBlock : Block) : String :=
  Io.merge (F.headerSerializer.serialize header) (F.blockSerializer.serialize broadcastBlock)

end Messages

namespace WireFormat

variable (F : WireFormat)

/-- The text of a message. -/
def encode (m : ConsensusMessage) : String :=
  match m.body with
  | .contribution isContributing => ContributionNotifier.createMessage F m.header isContributing
  | .electionValue value => ElectionNotifier.createMessage F m.header value
  | .block block =>
      match m.header.operation with
      | .UPLOADING => DataRelay.createMessage F m.header block
      | _ => BroadcastNotifier.createMessage F m.header block

/-- What the consumer of the consensus queue reads; `none` is an exception. -/
def decode (string : StdString) : Option ConsensusMessage := do
  let (header, body) ← Io.split string
  let deserializedHeader ← F.headerSerializer.deserialize header
  let body ← match deserializedHeader.operation with
    | .INSPECTION => (F.contributionWrapperSerializer.deserialize body).map .contribution
    | .ELECTION => (F.electionValueWrapperSerializer.deserialize body).map .electionValue
    | .UPLOADING | .BROADCAST => (F.blockSerializer.deserialize body).map .block
  return ⟨deserializedHeader, body⟩

/-- The text of the body. -/
def encodeBody : ConsensusBody → String
  | .contribution isContributing => F.contributionWrapperSerializer.serialize isContributing
  | .electionValue value => F.electionValueWrapperSerializer.serialize value
  | .block block => F.blockSerializer.serialize block

theorem encode_eq (m : ConsensusMessage) :
    F.encode m = Io.merge (F.headerSerializer.serialize m.header) (F.encodeBody m.body) := by
  obtain ⟨header, body⟩ := m
  cases body with
  | contribution isContributing => rfl
  | electionValue value => rfl
  | block block => cases hoperation : header.operation <;> simp only [encode, hoperation] <;> rfl

end WireFormat

/-! ## What can be read -/

/-- No string in the header has a NUL or the first character of the separator. -/
def Header.Legible (header : Header) : Prop :=
  ∀ s ∈ header.strings, '<' ∉ s.toList ∧ '\x00' ∉ s.toList

/-- No string in the message has a NUL. -/
def Message.Legible (message : Message) : Prop := ∀ s ∈ message.strings, '\x00' ∉ s.toList

/-- The text of the message is read as it was written. -/
structure ConsensusMessage.Legible (m : ConsensusMessage) : Prop where
  header : m.header.Legible
  body : ∀ block, m.body = .block block → block.Consists Message.Legible
  wellFormed : handlerScript m ≠ none

instance (message : Message) : Decidable message.Legible :=
  inferInstanceAs (Decidable (∀ s ∈ message.strings, '\x00' ∉ s.toList))

instance (header : Header) : Decidable header.Legible :=
  inferInstanceAs (Decidable (∀ s ∈ header.strings, '<' ∉ s.toList ∧ '\x00' ∉ s.toList))

namespace ConsensusMessage.Legible

variable {F : WireFormat} {m : ConsensusMessage}

theorem not_framed (h : m.header.Legible) :
    ¬ Io.Framed (F.headerSerializer.serialize m.header) := by
  intro hframed
  have hmem : '<' ∈ (F.headerSerializer.serialize m.header).toList :=
    hframed.subset (by decide)
  exact F.headerSerializer.not_mem_serialize (by decide) (fun s hs => (h s hs).1) hmem

theorem not_mem_encode (h : m.Legible) : '\x00' ∉ (F.encode m).toList := by
  have hheader := F.headerSerializer.not_mem_serialize_nul fun s hs => (h.header s hs).2
  have hbody : '\x00' ∉ (F.encodeBody m.body).toList := by
    cases hm : m.body with
    | contribution isContributing =>
      exact F.contributionWrapperSerializer.not_mem_serialize_nul (by simp)
    | electionValue value => exact F.electionValueWrapperSerializer.not_mem_serialize_nul (by simp)
    | block block =>
      refine F.blockSerializer.not_mem_serialize_nul fun s hs => ?_
      obtain ⟨message, hmessage, hs⟩ := List.mem_flatMap.1 hs
      exact h.body block hm message hmessage s hs
  have hseparator : '\x00' ∉ Io.separator.toList := by decide
  rw [WireFormat.encode_eq, Io.merge, String.toList_append, String.toList_append]
  simp [hheader, hbody, hseparator]

/-- **What was written is read**, whatever lies behind it in memory, if it does not go on with a
digit. -/
theorem decode_encode (h : m.Legible) {string : StdString} {behind : String}
    (hbehind : Unnumbered (cStr behind))
    (hstring : string.1 = Received.cString ⟨F.encode m, behind⟩) : F.decode string = some m := by
  have hmerge : string.1 = Io.merge (F.headerSerializer.serialize m.header)
      (F.encodeBody m.body ++ cStr behind) := by
    rw [hstring, Received.cString, cStr_append _ h.not_mem_encode, WireFormat.encode_eq, Io.merge,
      Io.merge, String.append_assoc]
  have hsplit := (Io.split_merge_iff _ _ string hmerge).1.2 (not_framed h.header)
  have hheader := F.headerSerializer.deserialize_serialize m.header "" (by decide)
  rw [String.append_empty] at hheader
  have hwf := h.wellFormed
  obtain ⟨header, body⟩ := m
  simp only [WireFormat.decode, hsplit, Option.bind_eq_bind, Option.bind_some, hheader]
  cases body <;> cases hoperation : header.operation
  all_goals first
    | (refine absurd ?_ hwf
       simp only [handlerScript, hoperation]
       done)
    | simp [WireFormat.encodeBody,
        F.contributionWrapperSerializer.deserialize_serialize _ _ hbehind,
        F.electionValueWrapperSerializer.deserialize_serialize _ _ hbehind,
        F.blockSerializer.deserialize_serialize _ _ hbehind]

end ConsensusMessage.Legible

/-! ## Headers that can be read -/

/-- The headers in the slot context can be read. -/
def SlotContext.Legible (context : SlotContext) : Prop :=
  context.header.Legible ∧ context.serializedHeader.Legible

section Headers

variable {E : SlotEnv} {n : Node}

/-- The name and the address of a node go to its headers, and nothing else does. -/
theorem legible_slotMove (hself : ∀ t ∈ [E.configuration.self.address, E.configuration.self.name],
      '<' ∉ t.toList ∧ '\x00' ∉ t.toList) (h : n.context.Legible) :
    (slotMove E n).1.context.Legible := by
  rw [slotMove_context]
  cases hpc : n.pc <;> simp only [slotContext, hpc]
  case saveBlock => exact ⟨hself, hself⟩
  case voteFill again => exact ⟨h.1, h.1⟩
  case broadcast => exact ⟨h.1, h.1⟩
  case relayValidator =>
    split
    · exact ⟨h.1, h.1⟩
    · exact ⟨h.1, h.1⟩
  case collectMerge | completeUpdate =>
    split
    · exact h
    · exact h
  all_goals exact h

/-- The headers of the messages that a call sends. -/
theorem legible_slotSends (h : n.context.Legible) {target : String} {m : ConsensusMessage}
    (hm : (target, m) ∈ slotSends E n) : m.header.Legible := by
  simp only [slotSends] at hm
  split at hm
  · obtain ⟨_, -, heq⟩ := List.mem_map.1 hm
    cases heq
    exact h.2
  · obtain ⟨_, -, heq⟩ := List.mem_map.1 hm
    cases heq
    exact h.2
  · split at hm
    · cases List.mem_singleton.1 hm
      exact h.2
    · cases hm
  · split at hm
    · obtain ⟨_, -, heq⟩ := List.mem_map.1 hm
      cases heq
      exact h.1
    · cases hm
  · cases hm

end Headers

/-- What goes to the messages can be read: names, addresses, and what the clients say. -/
structure Cluster.Legible (C : Cluster) : Prop where
  self : ∀ a ∈ C.addresses, ∀ s,
    ∀ t ∈ [(C.env a s).configuration.self.address, (C.env a s).configuration.self.name],
      '<' ∉ t.toList ∧ '\x00' ∉ t.toList
  pending : ∀ a ∈ C.addresses, ∀ s, (C.env a s).pendingBlock.Consists Message.Legible

/-- What is on its way, and will be, can be read. -/
structure ClusterState.Legible (C : Cluster) (K : ClusterState) : Prop where
  consists : K.Consists Message.Legible C
  run : ∀ a ∈ C.addresses, ∀ s, ((K.process a).run s).context.Legible
  mail : ∀ a b, ∀ m ∈ (K.channel a b).inFlight, m.header.Legible

/-- A run changes its slot context itself. -/
theorem Process.context_run {E : ℕ → SlotEnv} {p p' : Process ℕ} {act : ProcessAction ℕ}
    (h : p.step E act = some p') {s : ℕ} (hne : act ≠ .slot s) :
    (p'.run s).context = (p.run s).context := by
  cases act with
  | slot r =>
    obtain ⟨-, -, n, -, rfl⟩ := Process.step_slot_eq_some h
    exact congrArg Node.context (Function.update_of_ne (fun hs => hne (by rw [hs])) _ _)
  | begin r =>
    obtain ⟨-, -, rfl⟩ := Process.step_begin_eq_some h
    by_cases hs : s = r
    · subst hs
      simp
    · simp [hs]
  | init r =>
    obtain ⟨call, calls, -, rfl⟩ := Process.step_init_eq_some h
    rfl
  | wake r =>
    obtain ⟨w, -, rfl⟩ := Process.step_wake_eq_some h
    by_cases hs : s = r
    · subst hs
      simp [Process.view]
    · simp [hs]
  | handle =>
    obtain ⟨-, op, rest, n, -, -, rfl⟩ := Process.step_handle_eq_some h
    simp [Process.view]
  | receive m => rw [(Process.step_receive_eq_some h).2.2.1]

namespace ClusterState.Legible

variable {C : Cluster} {K K' : ClusterState} {a : String} {p : Process ℕ}

/-- A step of a process that is no call of a run. -/
theorem run_setProcess (h : K.Legible C) (hp : ∀ s, (p.run s).context.Legible) :
    ∀ x ∈ C.addresses, ∀ s, (((K.setProcess a p).process x).run s).context.Legible := by
  intro x hx s
  by_cases hxa : x = a
  · simpa [hxa] using hp s
  · simpa [hxa] using h.run x hx s

/-- **One step** keeps everything legible. -/
theorem step (hC : C.Legible) (h : K.Legible C) {act : ClusterAction}
    (hstep : C.step K act = some K') : K'.Legible C := by
  have hconsists := h.consists.step C.archive_eq hC.pending hstep
  have hother : ∀ {a : String} {p : Process ℕ} {act : ProcessAction ℕ}, (∀ s, act ≠ .slot s) →
      a ∈ C.addresses → (K.process a).step (C.env a) act = some p →
      ∀ s, (p.run s).context.Legible := by
    intro a p act hne ha hp s
    rw [Process.context_run hp (hne s)]
    exact h.run a ha s
  cases act with
  | slot a s =>
    obtain ⟨ha, p, hp, rfl⟩ := ClusterState.step_slot_eq_some hstep
    have hview : (K.view a s).context.Legible := h.run a ha s
    refine ⟨hconsists, ?_, fun source target m hm => ?_⟩
    · rw [process_record, process_publish]
      refine h.run_setProcess fun r => ?_
      by_cases hr : r = s
      · subst hr
        obtain ⟨-, -, n, rfl, rfl⟩ := Process.step_slot_eq_some hp
        dsimp only
        rw [Function.update_self]
        exact legible_slotMove (hC.self a ha r) hview
      · rw [Process.context_run hp (by simpa using Ne.symm hr)]
        exact h.run a ha r
    · rw [channel_record] at hm
      simp only [ClusterState.publish] at hm
      split at hm
      · rcases List.mem_append.1 hm with hm | hm
        · exact h.mail a target m hm
        · obtain ⟨⟨t, m'⟩, hmem, heq⟩ := List.mem_filterMap.1 hm
          split at heq
          · cases heq
            exact legible_slotSends hview hmem
          · cases heq
      · exact h.mail source target m hm
  | wake a s =>
    obtain ⟨ha, p, hp, rfl⟩ := ClusterState.step_wake_eq_some hstep
    exact ⟨hconsists, h.run_setProcess (hother (by simp) ha hp), h.mail⟩
  | handle a =>
    obtain ⟨ha, p, hp, rfl⟩ := ClusterState.step_handle_eq_some hstep
    exact ⟨hconsists, h.run_setProcess (hother (by simp) ha hp), h.mail⟩
  | receive a b =>
    obtain ⟨ha, m, rest, p, hchannel, hp, rfl⟩ := ClusterState.step_receive_eq_some hstep
    refine ⟨hconsists, ?_, fun source target m' hm' => ?_⟩
    · rw [process_deliver]
      exact h.run_setProcess (hother (by simp) ha hp)
    · simp only [ClusterState.deliver] at hm'
      split at hm'
      · exact h.mail b a m' (by rw [hchannel]; exact List.mem_cons_of_mem m hm')
      · exact h.mail source target m' hm'
  | createChannel a author =>
    obtain ⟨-, rfl⟩ := ClusterState.step_createChannel_eq_some hstep
    exact ⟨hconsists, h.run, h.mail⟩

theorem start (C : Cluster) : C.start.Legible C where
  consists := .start C
  run _ _ _ := by
    have hdefault : ({} : Header).Legible := by decide
    exact ⟨hdefault, hdefault⟩
  mail _ _ _ hm := absurd hm List.not_mem_nil

end ClusterState.Legible

/-! ## The cluster -/

/-- The nodes of a cluster, whose own channels carry nothing, and the texts on their way. -/
structure WireState where
  nodes : ClusterState
  /-- `wire a b` leads from `a` to `b`. -/
  wire : String → String → List String

/-- Who moves, and how. -/
inductive WireAction
  /-- A step that takes nothing off a channel. -/
  | move (act : ClusterAction)
  /-- The consensus thread of `a` receives the oldest text from `b`, with `behind` behind it in
  memory. -/
  | receive (a b behind : String)
  deriving DecidableEq, Repr

/-- What lies behind a received text in memory does not go on with a digit. -/
def WireAction.Unnumbered : WireAction → Prop
  | .receive _ _ behind => BlockchainMessaging.Unnumbered (cStr behind)
  | .move _ => True

instance (act : WireAction) : Decidable act.Unnumbered :=
  match act with
  | .receive _ _ _ => inferInstanceAs (Decidable (BlockchainMessaging.Unnumbered _))
  | .move _ => inferInstanceAs (Decidable True)

/-- The consensus thread makes a string of the pointer, and decodes it.  An exception ends the
process. -/
def Process.receiveText (F : WireFormat) (p : Process ℕ) (E : ℕ → SlotEnv) (string : StdString) :
    Option (Process ℕ) :=
  match F.decode string with
  | some m => p.step E (.receive m)
  | none => if p.failure.isSome || p.todo ≠ [] then none
      else some { p with failure := some .badArchive }

namespace WireState

/-- The texts of the messages that a step of the nodes has put on the channels from `a`. -/
def publish (F : WireFormat) (W : WireState) (a : String) (sends : List Send) : WireState :=
  { W with wire := fun source target =>
      if source = a then
        W.wire a target ++
          sends.filterMap fun m => if m.1 = target then some (F.encode m.2) else none
      else W.wire source target }

/-- Take the oldest text off the wire from `b` to `a`. -/
def deliver (W : WireState) (a b : String) (rest : List String) : WireState :=
  { W with wire := fun source target =>
      if source = b ∧ target = a then rest else W.wire source target }

/-- One step. -/
def step (C : Cluster) (F : WireFormat) (W : WireState) : WireAction → Option WireState
  | .move (.receive _ _) => none
  | .move (.slot a s) => (C.step W.nodes (.slot a s)).map fun K =>
      publish F { W with nodes := { K with channel := W.nodes.channel } } a
        (slotMove (C.env a s) (W.nodes.view a s)).2
  | .move act => (C.step W.nodes act).map fun K => { W with nodes := K }
  | .receive a b behind =>
      if a ∈ C.addresses then
        match W.wire b a with
        | [] => none
        | text :: rest =>
            let string := Received.cString ⟨text, behind⟩
            if h : IsBytes string ∧ string.length < npos then
              ((W.nodes.process a).receiveText F (C.env a) ⟨string, h⟩).map fun p =>
                deliver { W with nodes := W.nodes.setProcess a p } a b rest
            else none
      else none

/-- No slot was begun yet, and nothing sent. -/
def start (C : Cluster) : WireState where
  nodes := C.start
  wire := fun _ _ => []

/-- The cluster with the messages that the texts are the texts of. -/
structure Carries (F : WireFormat) (W : WireState) (K : ClusterState) : Prop where
  process : W.nodes.process = K.process
  consumer : W.nodes.consumer = K.consumer
  added : W.nodes.added = K.added
  wire : ∀ b a, W.wire b a = (K.channel b a).inFlight.map F.encode

/-- What is on its way in a reachable state is of the kind that its handler reads. -/
theorem handlerScript_ne_none {C : Cluster} {K : ClusterState} (hK : Reachable C.step C.start K)
    {a b : String} {m : ConsensusMessage} (hm : m ∈ (K.channel b a).inFlight) :
    handlerScript m ≠ none := by
  refine ((Cluster.tracks_of_reaches hK).tracked m.header.slot).elim fun S hS hproj => ?_
  have hmem : m ∈ (S.channel b a).sent := by
    refine List.mem_append_right _ ?_
    rw [hproj.channel, Channel.ofSlot]
    simpa using hm
  exact ((sound_of_reaches hS).voted.inspected.ledger.base.mail b a m hmem).wellFormed

/-- No process ends because of a message that it can not read. -/
theorem failure_ne_badArchive {C : Cluster} {K : ClusterState} (hK : Reachable C.step C.start K)
    (a : String) : (K.process a).failure ≠ some .badArchive := by
  induction hK with
  | refl => simp [Cluster.start, Process.start]
  | @tail K K' act hK _ hstep ih =>
    have hset : ∀ {b : String} {p : Process ℕ}, (a = b → p.failure ≠ some .badArchive) →
        ((K.setProcess b p).process a).failure ≠ some .badArchive := by
      intro b p hp
      by_cases hab : a = b
      · simpa [hab] using hp hab
      · simpa [hab] using ih
    cases act with
    | slot b s =>
      obtain ⟨-, p, hp, rfl⟩ := ClusterState.step_slot_eq_some hstep
      rw [ClusterState.process_record, ClusterState.process_publish]
      refine hset fun hab => ?_
      subst hab
      obtain ⟨hf, -, n, rfl, rfl⟩ := Process.step_slot_eq_some hp
      rcases slotMove_failure (C.env a s) ((K.process a).view ((K.process a).run s)) with
        hsame | ⟨f, hfail, hwhy⟩
      · rw [hsame]
        exact ih
      · rw [hfail]
        rintro ⟨⟩
        exact hwhy
    | wake b s =>
      obtain ⟨-, p, hp, rfl⟩ := ClusterState.step_wake_eq_some hstep
      obtain ⟨w, -, rfl⟩ := Process.step_wake_eq_some hp
      exact hset fun hab => hab ▸ ih
    | handle b =>
      obtain ⟨-, p, hp, rfl⟩ := ClusterState.step_handle_eq_some hstep
      refine hset fun hab => ?_
      subst hab
      obtain ⟨hf, op, rest, n, -, rfl, rfl⟩ := Process.step_handle_eq_some hp
      rcases op.exec_failure { (K.process a).consensus with todo := rest } with
        hsame | ⟨hfail, -⟩ | ⟨hfail, -⟩
      · rw [hsame]
        exact ih
      · simp [hfail]
      · simp [hfail]
    | receive b b' =>
      obtain ⟨-, m, rest, p, hchannel, hp, rfl⟩ := ClusterState.step_receive_eq_some hstep
      refine hset fun hab => ?_
      subst hab
      have hwf := handlerScript_ne_none hK (b := b') (a := a) (m := m) (by simp [hchannel])
      obtain ⟨n, hn, rfl⟩ := Option.map_eq_some_iff.1 hp
      obtain ⟨hf, -, hmsg⟩ := receiveStep_eq_some hn
      obtain ⟨todo, htodo⟩ := Option.ne_none_iff_exists'.1 hwf
      rw [htodo] at hmsg
      rw [hmsg]
      exact ih
    | createChannel b author =>
      obtain ⟨-, rfl⟩ := ClusterState.step_createChannel_eq_some hstep
      exact ih

namespace Carries

variable {C : Cluster} {F : WireFormat} {W W' : WireState} {K : ClusterState}

/-- What is on its way in a reachable state can be read. -/
theorem legible_message (hC : C.Legible) (hK : Reachable C.step C.start K) {a b : String}
    {m : ConsensusMessage} (hm : m ∈ (K.channel b a).inFlight) : m.Legible := by
  have hlegible : K.Legible C :=
    hK.invariant (.start C) fun _ _ _ hi _ hs => hi.step hC hs
  exact ⟨hlegible.mail b a m hm, hlegible.consists.mail b a m hm, handlerScript_ne_none hK hm⟩

theorem setProcess (h : Carries F W K) (a : String) (p : Process ℕ) :
    Carries F { W with nodes := W.nodes.setProcess a p } (K.setProcess a p) where
  process := by simp only [ClusterState.setProcess, h.process]
  consumer := h.consumer
  added := h.added
  wire := h.wire

/-- **One step** of the nodes that send texts is one of the nodes that send records. -/
theorem step (hC : C.Legible) (hK : Reachable C.step C.start K) (h : Carries F W K)
    {act : WireAction} (hok : act.Unnumbered) (hstep : W.step C F act = some W') :
    ∃ act' K', C.step K act' = some K' ∧ Carries F W' K' := by
  have hview : ∀ a s, W.nodes.view a s = K.view a s := fun a s => by
    rw [ClusterState.view, h.process, ClusterState.view]
  cases act with
  | move act =>
    cases act with
    | slot a s =>
      obtain ⟨N, hN, rfl⟩ := Option.map_eq_some_iff.1 hstep
      obtain ⟨ha, p, hp, rfl⟩ := ClusterState.step_slot_eq_some hN
      rw [h.process] at hp
      have hK' : C.step K (.slot a s) = some (((K.setProcess a p).publish a
          (slotMove (C.env a s) (K.view a s)).2).record a s (K.view a s)) := by
        simp only [Cluster.step, ClusterState.step, if_pos ha, hp, Option.map_some]
      refine ⟨_, _, hK', ⟨?_, ?_, ?_, fun b x => ?_⟩⟩
      · simp [publish, ClusterState.setProcess, h.process]
      · simp [publish, h.consumer, hview]
      · simp [publish, h.added, hview]
      · simp only [publish, ClusterState.channel_record, ClusterState.publish, hview]
        split
        · have hsends : ∀ m : Send, (if m.1 = x then some (F.encode m.2) else none) =
              (if m.1 = x then some m.2 else none).map F.encode := by
            intro m
            split <;> rfl
          simp only [hsends]
          rw [List.map_append, h.wire, List.map_filterMap]
          rfl
        · exact h.wire b x
    | wake a s =>
      obtain ⟨N, hN, rfl⟩ := Option.map_eq_some_iff.1 hstep
      obtain ⟨ha, p, hp, rfl⟩ := ClusterState.step_wake_eq_some hN
      rw [h.process] at hp
      refine ⟨.wake a s, K.setProcess a p, ?_, h.setProcess a p⟩
      simp only [Cluster.step, ClusterState.step, if_pos ha, hp, Option.map_some]
    | handle a =>
      obtain ⟨N, hN, rfl⟩ := Option.map_eq_some_iff.1 hstep
      obtain ⟨ha, p, hp, rfl⟩ := ClusterState.step_handle_eq_some hN
      rw [h.process] at hp
      refine ⟨.handle a, K.setProcess a p, ?_, h.setProcess a p⟩
      simp only [Cluster.step, ClusterState.step, if_pos ha, hp, Option.map_some]
    | receive a b => cases hstep
    | createChannel a author =>
      obtain ⟨N, hN, rfl⟩ := Option.map_eq_some_iff.1 hstep
      obtain ⟨ha, rfl⟩ := ClusterState.step_createChannel_eq_some hN
      refine ⟨.createChannel a author, _, if_pos ha, h.process, ?_, h.added, h.wire⟩
      simp only [h.consumer]
  | receive a b behind =>
    simp only [WireState.step] at hstep
    split at hstep
    · next ha =>
      split at hstep
      · cases hstep
      · next text rest hwire =>
        split at hstep
        · next hsize =>
          obtain ⟨p, hp, rfl⟩ := Option.map_eq_some_iff.1 hstep
          rw [h.wire] at hwire
          obtain ⟨m, ms, hchannel, rfl, rfl⟩ := List.map_eq_cons_iff.1 hwire
          have hm := legible_message hC hK (b := b) (a := a) (m := m) (by simp [hchannel])
          rw [Process.receiveText, hm.decode_encode hok rfl, h.process] at hp
          refine ⟨.receive a b, (K.setProcess a p).deliver a b m ms, ?_, ?_⟩
          · simp only [Cluster.step, ClusterState.step, if_pos ha, hchannel, hp, Option.map_some]
          · have hset := h.setProcess a p
            refine ⟨hset.process, hset.consumer, hset.added, fun y x => ?_⟩
            simp only [WireState.deliver, ClusterState.deliver]
            split
            · rfl
            · exact h.wire y x
        · cases hstep
    · cases hstep

end Carries

end WireState

/-- **Nodes that send each other texts** do what nodes do that send each other records, if what goes
to the texts can be read, and no received text is continued by a digit: every state that they can
reach is one of the cluster, with just the texts on their way that are those of the messages there;
and no process has ended because of a text that it could not read. -/
theorem Cluster.wire_refines {C : Cluster} {F : WireFormat} {W : WireState} (hC : C.Legible)
    (h : Reaches (WireState.step C F) (fun _ act => act.Unnumbered) (WireState.start C) W) :
    ∃ K, Reachable C.step C.start K ∧ WireState.Carries F W K ∧
      ∀ a, (W.nodes.process a).failure ≠ some .badArchive := by
  have htracked : Tracked C.step (fun _ _ => True) C.start (WireState.Carries F) W := by
    refine h.tracked ⟨rfl, rfl, rfl, fun _ _ => rfl⟩ fun W act W' K hK hcarries hok hstep => ?_
    obtain ⟨act', K', hK', hcarries'⟩ := hcarries.step hC hK hok hstep
    exact ⟨K', Reaches.refl.tail trivial hK', hcarries'⟩
  obtain ⟨K, hK, hcarries⟩ := htracked
  refine ⟨K, hK, hcarries, fun a => ?_⟩
  rw [hcarries.process]
  exact WireState.failure_ne_badArchive hK a

/-! ## One archive -/

/-- The number of an enumerator of `ConsensusOperation`. -/
def ConsensusOperation.code : ConsensusOperation → ℕ
  | .INSPECTION => 0
  | .ELECTION => 1
  | .UPLOADING => 2
  | .BROADCAST => 3

/-- The enumerator with a number. -/
def ConsensusOperation.ofCode : ℕ → Option ConsensusOperation
  | 0 => some .INSPECTION
  | 1 => some .ELECTION
  | 2 => some .UPLOADING
  | 3 => some .BROADCAST
  | _ => none

theorem ConsensusOperation.ofCode_code (operation : ConsensusOperation) :
    ofCode operation.code = some operation := by
  cases operation <;> rfl

namespace TextCodec

/-- The fields of the header of a consensus message. -/
def consensusHeader : TextCodec Header :=
  (object.prod ((nat.map ConsensusOperation.ofCode ConsensusOperation.code
    ConsensusOperation.ofCode_code).prod (string.prod (string.prod (nat.prod nat))))).map
    (fun p => some ⟨p.2.1, p.2.2.2.1, p.2.2.1, p.2.2.2.2.1, p.2.2.2.2.2⟩)
    (fun h => ((), h.operation, h.address, h.node, h.timestamp, h.slot)) fun _ => rfl

/-- A number in an object of its own. -/
def wrapper : TextCodec ℕ := (object.prod nat).map (fun p => some p.2) (fun n => ((), n))
  fun _ => rfl

theorem ofNat_toNat (b : Bool) : some (b.toNat != 0) = some b := by cases b <;> rfl

/-- A flag is the number 0 or 1. -/
def flag : TextCodec Bool := wrapper.map (fun n => some (n != 0)) Bool.toNat ofNat_toNat

/-- A block in an object of its own. -/
def block : TextCodec Block :=
  (object.prod blockCodec).map (fun p => some p.2) (fun b => ((), b)) fun _ => rfl

theorem verbatim_operation : (nat.map ConsensusOperation.ofCode ConsensusOperation.code
    ConsensusOperation.ofCode_code).Verbatim archiveChar fun _ => [] :=
  verbatim_number.map (fun _ _ _ => List.nil_subset _) fun _ => List.nil_subset _

theorem verbatim_consensusHeader : consensusHeader.Verbatim archiveChar fun header =>
    header.strings.flatMap String.toList :=
  (verbatim_object.prod (verbatim_operation.prod (verbatim_text.prod (verbatim_text.prod
    (verbatim_number.prod verbatim_number))))).map
    (fun p header hp => by cases hp; simp [Header.strings])
    (fun header => by simp [Header.strings])

theorem verbatim_wrapper : wrapper.Verbatim archiveChar fun _ => [] :=
  (verbatim_object.prod verbatim_number).map (fun _ _ _ => List.nil_subset _)
    fun _ => by simp

theorem verbatim_flag : flag.Verbatim archiveChar fun _ => [] :=
  verbatim_wrapper.map (fun _ _ _ => List.nil_subset _) fun _ => List.nil_subset _

theorem verbatim_messageCodec : messageCodec.Verbatim archiveChar fun message =>
    message.strings.flatMap String.toList :=
  (verbatim_number.prod (verbatim_text.prod verbatim_text)).map
    (fun p message hp => by cases hp; simp [Message.strings])
    (fun message => by simp [Message.strings])

theorem verbatim_state : (nat.map BlockState.ofCode BlockState.code
    fun s => by cases s <;> rfl).Verbatim archiveChar fun _ => [] :=
  verbatim_number.map (fun _ _ _ => List.nil_subset _) fun _ => List.nil_subset _

theorem verbatim_block : block.Verbatim archiveChar fun block =>
    block.strings.flatMap String.toList := by
  have hdata := verbatim_state.prod (verbatim_number.prod
    (verbatim_number.prod (Verbatim.list verbatim_number verbatim_messageCodec)))
  have hblock : blockCodec.Verbatim archiveChar fun block => block.strings.flatMap String.toList :=
    hdata.map (fun p block hp => by cases hp; simp [Block.strings, List.flatMap_assoc])
      (fun block => by simp [Block.strings, List.flatMap_assoc])
  exact (verbatim_object.prod hblock).map (fun p block hp => by cases hp; simp)
    (fun block => by simp)

/-- The serializer of a value that ends with a number, or may do so. -/
def openSerializer {Data : Type} (c : TextCodec Data) (strings : Data → List String)
    (h : c.Verbatim archiveChar fun data => (strings data).flatMap String.toList) :
    Serializer Data strings Unnumbered :=
  c.serializer strings Unnumbered (fun data rest hrest => c.decode_encode data rest.toList hrest) h

end TextCodec

/-- The serializers that use these codecs. -/
def textFormat : WireFormat where
  headerSerializer :=
    TextCodec.consensusHeader.openSerializer Header.strings TextCodec.verbatim_consensusHeader
  contributionWrapperSerializer :=
    TextCodec.flag.openSerializer (fun _ => []) TextCodec.verbatim_flag
  electionValueWrapperSerializer :=
    TextCodec.wrapper.openSerializer (fun _ => []) TextCodec.verbatim_wrapper
  blockSerializer := TextCodec.block.openSerializer Block.strings TextCodec.verbatim_block

theorem twoNodes_legible : twoNodes.Legible where
  self a ha s := by
    have haddresses : ∀ a ∈ ["a", "b"], ∀ t ∈ [a, a], '<' ∉ t.toList ∧ '\x00' ∉ t.toList := by
      decide
    exact haddresses a ha
  pending a ha s := by
    have hdata : (twoNodes.env a s).pendingBlock.data =
        if a = "a" ∧ s = 2 then [⟨900, "x", "a"⟩] else [] := by
      simp only [twoNodes, Cluster.plain, Deployment.plain, SlotEnv.pendingBlock, plainEnv,
        Buffer.pop_save]
      split
      · simp
      · rfl
    intro message hmessage
    rw [hdata] at hmessage
    split at hmessage
    · cases List.mem_singleton.1 hmessage
      decide
    · cases hmessage

/-- The message in which `a` says that it contributes, with another text behind it in memory. -/
theorem Cluster.wire_refines_twoNodes : ∃ (W : WireState) (K : ClusterState),
    WireState.Carries textFormat W K ∧ (K.process "b").header.address = "a" ∧
      (K.process "b").todo.length = 6 := by
  obtain ⟨W, hW, h⟩ := exists_reaches (WireState.step twoNodes textFormat)
    (fun _ act => act.Unnumbered) (WireState.start twoNodes)
    (List.replicate 7 (.move (.slot "a" 2)) ++ [.receive "b" "a" "<@SEPARATOR#>22"])
    (fun W => (W.nodes.process "b").header.address = "a" ∧
      (W.nodes.process "b").todo.length = 6) (by decide +kernel)
  simp only [decide_eq_true_eq] at h
  obtain ⟨K, -, hK, -⟩ := Cluster.wire_refines twoNodes_legible hW
  exact ⟨W, K, hK, hK.process ▸ h⟩

end BlockchainMessaging
