import BlockchainMessaging.SingleNode

/-!
# The order in which messages arrive

The handlers of messages from different senders write to different entries of the table, and the
init callback of a tick writes nothing that is there already.  So what the table says about a
sender is a fold over the messages of this sender, in the order in which they came, whatever
else arrives in between and whenever the callback runs.

The entry that the fold starts from is made by whoever comes first, and the block in it bears the
time at which it was made.  So this time depends on the order, until a block is written over it.

The callback runs in a thread of its own, so it may come between two calls of a handler.  An
exception ends the handling of one message here and no more; where it would end the process,
there is no table left to compare.

## Main definitions

* `Arrivals`, `Arrivals.step` — the consensus thread and the init callbacks.
* `ConsensusMessage.record` — what a message leaves in the entry of its sender.
* `ConsensusContext.SameButTime` — two entries that were made at different times.
* `Arrivals.context_eq` — the order between senders does not matter, but for these times.
-/

namespace BlockchainMessaging

/-! ## The machine -/

/-- An exception, or a null pointer, ends the handling of the message in hand. -/
def Node.settle (n : Node) : Node :=
  if n.failure.isSome then { n with todo := [], failure := none } else n

/-- A node, and the messages that its consensus thread has taken off the queue. -/
structure Arrivals where
  node : Node
  received : List ConsensusMessage := []

/-- What can happen. -/
inductive ArrivalAction
  /-- The consensus thread receives a message. -/
  | receive (m : ConsensusMessage)
  /-- A call of the consensus thread. -/
  | handle
  /-- The init callback of a tick. -/
  | initContexts (slot : ℕ)
  deriving DecidableEq, Repr

namespace Arrivals

/-- One step. -/
def step (h : Arrivals) : ArrivalAction → Option Arrivals
  | .receive m => (receiveStep m h.node).map fun n =>
      { node := n.settle, received := h.received ++ [m] }
  | .handle => (handlerStep h.node).map fun n => { h with node := n.settle }
  | .initContexts slot =>
      some { h with node := { h.node with storage := h.node.storage.initContexts slot } }

/-- Nothing has arrived yet.  The entries will be made at these times. -/
def start (st : ConsensusStorage) (times : String → ℕ → ℕ → ℕ) : Arrivals :=
  { node := { storage := { st with stamp := times }, chain := [] } }

/-- The messages of an address for a slot, in the order of their arrival. -/
def messages (h : Arrivals) (address : String) (slot : ℕ) : List ConsensusMessage :=
  h.received.filter fun m => m.header.address = address ∧ m.header.slot = slot

end Arrivals

/-! ## What a message leaves -/

/-- What the calls of a script do to the entry of a sender called `node`. -/
def HandlerOp.effects (node : String) (ops : List HandlerOp) (c : ConsensusContext) :
    ConsensusContext :=
  ops.foldl (fun c op => op.effect node c) c

/-- What a message leaves in the entry of its sender. -/
def ConsensusMessage.record (m : ConsensusMessage) (c : ConsensusContext) : ConsensusContext :=
  HandlerOp.effects m.header.node ((handlerScript m).getD []) c

theorem ConsensusMessage.record_eq (m : ConsensusMessage) (c : ConsensusContext) : m.record c =
    match m.header.operation, m.body with
    | .INSPECTION, .contribution isContributing =>
        { c with node := m.header.node, isContributing := some isContributing }
    | .ELECTION, .electionValue value => { c with electionValue := value }
    | .UPLOADING, .block block => { c with block }
    | .BROADCAST, .block block => { c with block, isResolved := true }
    | _, _ => c := by
  obtain ⟨header, body⟩ := m
  cases hop : header.operation <;> cases body <;>
    simp [record, handlerScript, HandlerOp.effects, HandlerOp.effect, hop]

/-- The handler takes a block from the message, and writes it to the entry of the sender. -/
def ConsensusMessage.BringsBlock (m : ConsensusMessage) : Prop :=
  m.wellFormed = true ∧ ∃ block, m.body = .block block

/-! ## When an entry was made -/

/-- Two entries that say the same, but for the time in a block that nobody has written. -/
structure ConsensusContext.SameButTime (written : Prop) (c c' : ConsensusContext) : Prop where
  fields : { c' with block := c.block } = c
  block : written → c'.block = c.block
  unwritten : ¬ written → ∃ now now',
    c.block = Block.ofData now [] ∧ c'.block = Block.ofData now' []

namespace ConsensusContext.SameButTime

variable {written : Prop} {c c' : ConsensusContext}

theorem fresh (now now' : ℕ) : SameButTime False (fresh now) (fresh now') where
  fields := rfl
  block := False.elim
  unwritten _ := ⟨now, now', rfl, rfl⟩

protected theorem refl (c : ConsensusContext) : SameButTime True c c where
  fields := rfl
  block _ := rfl
  unwritten h := absurd trivial h

theorem of_iff {written' : Prop} (h : SameButTime written c c') (hiff : written' ↔ written) :
    SameButTime written' c c' :=
  propext hiff ▸ h

/-- A field other than the block is written. -/
theorem update (h : SameButTime written c c') (f : ConsensusContext → ConsensusContext)
    (hblock : ∀ c, (f c).block = c.block) (hf : ∀ c b, f { c with block := b } =
      { f c with block := b }) : SameButTime written (f c) (f c') where
  fields := by rw [hblock, ← hf, h.fields]
  block hw := by rw [hblock, hblock, h.block hw]
  unwritten hw := by
    rw [hblock, hblock]
    exact h.unwritten hw

/-- The block is written. -/
theorem write (h : SameButTime written c c') (b : Block) :
    SameButTime True { c with block := b } { c' with block := b } where
  fields := congrArg (fun c : ConsensusContext => { c with block := b }) h.fields
  block _ := rfl
  unwritten hw := absurd trivial hw

/-- What a message leaves. -/
theorem record (h : SameButTime written c c') (m : ConsensusMessage) :
    SameButTime (written ∨ m.BringsBlock) (m.record c) (m.record c') := by
  obtain ⟨header, body⟩ := m
  cases body with
  | contribution isContributing =>
    have hiff : (written ∨ ConsensusMessage.BringsBlock ⟨header, .contribution isContributing⟩) ↔
        written := or_iff_left (by simp [ConsensusMessage.BringsBlock])
    cases hoperation : header.operation <;> simp only [ConsensusMessage.record_eq, hoperation]
    case INSPECTION =>
      exact (h.update (fun c => { c with
        node := header.node, isContributing := some isContributing })
        (fun _ => rfl) fun _ _ => rfl).of_iff hiff
    all_goals exact h.of_iff hiff
  | electionValue value =>
    have hiff : (written ∨ ConsensusMessage.BringsBlock ⟨header, .electionValue value⟩) ↔
        written := or_iff_left (by simp [ConsensusMessage.BringsBlock])
    cases hoperation : header.operation <;> simp only [ConsensusMessage.record_eq, hoperation]
    case ELECTION =>
      exact (h.update (fun c => { c with electionValue := value }) (fun _ => rfl)
        fun _ _ => rfl).of_iff hiff
    all_goals exact h.of_iff hiff
  | block block =>
    cases hoperation : header.operation <;> simp only [ConsensusMessage.record_eq, hoperation]
    case UPLOADING =>
      exact (h.write block).of_iff (by
        simp [ConsensusMessage.BringsBlock, ConsensusMessage.wellFormed, hoperation])
    case BROADCAST =>
      exact ((h.write block).update (fun c => { c with isResolved := true }) (fun _ => rfl)
        fun _ _ => rfl).of_iff (by
          simp [ConsensusMessage.BringsBlock, ConsensusMessage.wellFormed, hoperation])
    all_goals exact h.of_iff (by
      simp [ConsensusMessage.BringsBlock, ConsensusMessage.wellFormed, hoperation])

/-- What many messages leave. -/
theorem foldl_record (ms : List ConsensusMessage) : ∀ {written : Prop} {c c' : ConsensusContext},
    SameButTime written c c' → SameButTime (written ∨ ∃ m ∈ ms, m.BringsBlock)
      (ms.foldl (fun c m => m.record c) c) (ms.foldl (fun c m => m.record c) c') := by
  induction ms with
  | nil => exact fun h => h.of_iff (by simp)
  | cons m ms ih => exact fun h => (ih (h.record m)).of_iff (by simp [or_assoc])

end ConsensusContext.SameButTime

/-- The updates of a message come first. -/
theorem HandlerOp.effects_eq_self {op : HandlerOp} {rest : List HandlerOp}
    (hscript : op.Before rest) (hop : op.isCheck = true ∨ op.derefs = true) (node : String)
    (c : ConsensusContext) : effects node rest c = c := by
  cases op <;> simp only [isCheck, derefs, Bool.false_eq_true, or_self] at hop
  all_goals
    simp only [Before] at hscript
    subst hscript
    rfl

namespace Node

@[simp] theorem settle_storage (n : Node) : n.settle.storage = n.storage := by
  rw [settle]
  split <;> rfl

@[simp] theorem settle_header (n : Node) : n.settle.header = n.header := by
  rw [settle]
  split <;> rfl

@[simp] theorem settle_failure (n : Node) : n.settle.failure = none := by
  rw [settle]
  split
  · rfl
  · next h => simpa using h

/-- What is left of a message after a call has all the effects that were left before it. -/
theorem settle_todo {op : HandlerOp} {rest : List HandlerOp} (hscript : op.Before rest) {n : Node}
    (hf : n.failure = none) (htodo : n.todo = rest) (node : String) (c : ConsensusContext) :
    HandlerOp.effects node (op.exec n).settle.todo c = HandlerOp.effects node rest c ∧
      ((op.exec n).settle.todo = rest ∨ (op.exec n).settle.todo = []) := by
  by_cases hfail : (op.exec n).failure = none
  · have hsettle : (op.exec n).settle = op.exec n := by simp [settle, hfail]
    rcases op.exec_todo n with h | ⟨hcheck, h⟩
    · rw [hsettle, h, htodo]
      exact ⟨rfl, .inl rfl⟩
    · rw [hsettle, h, HandlerOp.effects_eq_self hscript (.inl hcheck)]
      exact ⟨rfl, .inr rfl⟩
  · have hsettle : (op.exec n).settle.todo = [] := by
      simp [settle, Option.isSome_iff_ne_none, hfail]
    have hop : op.isCheck = true ∨ op.derefs = true := by
      rcases op.exec_failure n with h | ⟨-, hderefs, -⟩ | ⟨-, rfl, -⟩
      · exact absurd (h.trans hf) hfail
      · exact .inr hderefs
      · exact .inl rfl
    rw [hsettle, HandlerOp.effects_eq_self hscript hop]
    exact ⟨rfl, .inr rfl⟩

end Node

/-! ## The invariant -/

namespace Arrivals

/-- The entry of an address says what its messages said, as soon as the message in hand is
handled to its end. -/
structure Recorded (st₀ : ConsensusStorage) (h : Arrivals) : Prop where
  failure : h.node.failure = none
  scripted : Scripted h.node.todo
  entry : ∀ a s,
    (if a = h.node.header.address ∧ s = h.node.header.slot then
      HandlerOp.effects h.node.header.node h.node.todo (h.node.storage.context a s)
    else h.node.storage.context a s) =
      (h.messages a s).foldl (fun c m => m.record c) (st₀.context a s)

variable {st₀ : ConsensusStorage} {h h' : Arrivals}

theorem Recorded.context_of_idle (hi : Recorded st₀ h) (hidle : h.node.todo = []) (a : String)
    (s : ℕ) : h.node.storage.context a s =
      (h.messages a s).foldl (fun c m => m.record c) (st₀.context a s) := by
  rw [← hi.entry, hidle]
  exact (ite_self _).symm

theorem recorded_start (st : ConsensusStorage) (times : String → ℕ → ℕ → ℕ) :
    Recorded { st with stamp := times } (start st times) where
  failure := rfl
  scripted := trivial
  entry _ _ := ite_self _

theorem messages_receive (h : Arrivals) (n : Node) (m : ConsensusMessage) (a : String) (s : ℕ) :
    messages { node := n, received := h.received ++ [m] } a s =
      h.messages a s ++ if m.header.address = a ∧ m.header.slot = s then [m] else [] := by
  rw [messages, List.filter_append, messages]
  by_cases hm : m.header.address = a ∧ m.header.slot = s
  · simp [hm]
  · simp [hm]

/-- **One step keeps the record.** -/
theorem Recorded.step (hi : Recorded st₀ h) {act : ArrivalAction} (hstep : h.step act = some h') :
    Recorded st₀ h' := by
  cases act with
  | receive m =>
    obtain ⟨n, hn, rfl⟩ := Option.map_eq_some_iff.1 hstep
    obtain ⟨hf, htodo, hm⟩ := receiveStep_eq_some hn
    have hcontext := hi.context_of_idle htodo
    cases hscript : handlerScript m with
    | none =>
      simp only [hscript] at hm
      subst hm
      refine ⟨Node.settle_failure _, by simp [Node.settle, Node.fail, Scripted], fun a s => ?_⟩
      have hrecord : ∀ c, m.record c = c := fun c => by
        simp [ConsensusMessage.record, hscript, HandlerOp.effects]
      simp only [Node.settle, Node.fail, Option.isSome_some, if_true, HandlerOp.effects,
        List.foldl_nil, ite_self, messages_receive, List.foldl_append, hcontext]
      split
      · rw [List.foldl_cons, List.foldl_nil, hrecord]
      · rfl
    | some todo =>
      simp only [hscript] at hm
      have hsettle : n.settle = n := by simp [hm, Node.settle, hf]
      rw [hsettle]
      subst hm
      refine ⟨hf, scripted_handlerScript hscript, fun a s => ?_⟩
      simp only [messages_receive, List.foldl_append, hcontext]
      by_cases hm : a = m.header.address ∧ s = m.header.slot
      · obtain ⟨rfl, rfl⟩ := hm
        simp [ConsensusMessage.record, hscript]
      · have hm' : ¬ (m.header.address = a ∧ m.header.slot = s) :=
          fun heq => hm ⟨heq.1.symm, heq.2.symm⟩
        simp [hm, hm']
  | handle =>
    obtain ⟨n, hn, rfl⟩ := Option.map_eq_some_iff.1 hstep
    obtain ⟨hf, op, rest, htodo, rfl⟩ := handlerStep_eq_some hn
    have hscript : op.Before rest := by simpa [htodo, Scripted] using hi.scripted
    have hrest := Node.settle_todo hscript (n := { h.node with todo := rest }) hf rfl
    refine ⟨Node.settle_failure _, ?_, fun a s => ?_⟩
    · rcases (hrest "" (.fresh 0)).2 with h' | h'
      · rw [h']
        exact (show Scripted (op :: rest) from hscript).tail
      · rw [h']
        trivial
    · have hentry := hi.entry a s
      rw [htodo] at hentry
      simp only [Node.settle_header, Node.settle_storage, HandlerOp.exec_header,
        HandlerOp.exec_table, (hrest _ _).1]
      refine Eq.trans ?_ hentry
      split
      · rfl
      · rfl
  | initContexts slot =>
    cases hstep
    refine ⟨hi.failure, hi.scripted, fun a s => ?_⟩
    simp only [ConsensusStorage.context_initContexts]
    exact hi.entry a s

theorem recorded_of_reaches {st : ConsensusStorage} {times : String → ℕ → ℕ → ℕ}
    (hr : Reachable step (start st times) h) : Recorded { st with stamp := times } h :=
  hr.invariant (recorded_start st times) fun _ _ _ hi _ hstep => hi.step hstep

/-! ## Any order -/

/-- An entry that was there is the same in both runs; one that was not is made in each of them. -/
theorem sameButTime_start (st : ConsensusStorage) (times times' : String → ℕ → ℕ → ℕ)
    (a : String) (s : ℕ) : ConsensusContext.SameButTime (((st.slots a).find s).isSome = true)
      (({ st with stamp := times } : ConsensusStorage).context a s)
      (({ st with stamp := times' } : ConsensusStorage).context a s) := by
  simp only [ConsensusStorage.context, ConsensusStorage.slots]
  cases ((st.contexts.find a).getD .empty).find s with
  | none => exact (ConsensusContext.SameButTime.fresh _ _).of_iff (by simp)
  | some c => exact (ConsensusContext.SameButTime.refl c).of_iff (by simp)

/-- **The order of arrival between senders does not matter**, nor when the init callbacks run:
two runs that have handled the same messages of every sender for a slot, in the same order per
sender, leave the same entries, but for the time at which a block was made that nobody has
written. -/
theorem context_eq {st : ConsensusStorage} {times times' : String → ℕ → ℕ → ℕ} {s : ℕ}
    (hr : Reachable step (start st times) h) (hr' : Reachable step (start st times') h')
    (hidle : h.node.todo = []) (hidle' : h'.node.todo = [])
    (horder : ∀ a, h'.messages a s = h.messages a s) (a : String) :
    ConsensusContext.SameButTime
      (((st.slots a).find s).isSome = true ∨ ∃ m ∈ h.messages a s, m.BringsBlock)
      (h.node.storage.context a s) (h'.node.storage.context a s) := by
  rw [(recorded_of_reaches hr).context_of_idle hidle,
    (recorded_of_reaches hr').context_of_idle hidle', horder]
  exact (sameButTime_start st times times' a s).foldl_record _

end Arrivals

/-- The message in which a node says that it contributes to slot 2. -/
def contributes (address : String) : ConsensusMessage :=
  plainMessage .INSPECTION address 2 (.contribution true)

namespace Arrivals

/-- The node `a`, whose peers are `b` and `c`. -/
def twoPeers : ConsensusStorage :=
  emptyStorage (plainEnv "a" ["b", "c"] 2 [] (fun _ => 5) five_range)

/-- The messages of `b` and of `c` arrive before and after the tick, which makes the entries at
1000. -/
theorem exists_tick_between : ∃ h : Arrivals,
    Reachable step (start twoPeers fun a _ _ => if a = "b" then 980 else 1000) h ∧
      h.node.todo = [] ∧ h.received = [contributes "b", contributes "c"] ∧
      (h.node.storage.context "b" 2).block = Block.ofData 980 [] := by
  obtain ⟨h, hr, hend⟩ := exists_reaches step (fun _ _ => True)
    (start twoPeers fun a _ _ => if a = "b" then 980 else 1000)
    (.receive (contributes "b") :: List.replicate 6 .handle ++
      .initContexts 2 :: .receive (contributes "c") :: List.replicate 4 .handle)
    (fun h => h.node.todo = [] ∧ h.received = [contributes "b", contributes "c"] ∧
      (h.node.storage.context "b" 2).block = Block.ofData 980 [])
    (by decide +kernel)
  exact ⟨h, hr, by simpa using hend⟩

/-- The tick comes first, and again between two calls of a handler; the messages arrive in the other
order. -/
theorem exists_tick_first : ∃ h : Arrivals,
    Reachable step (start twoPeers fun _ _ _ => 1000) h ∧
      h.node.todo = [] ∧ h.received = [contributes "c", contributes "b"] ∧
      (h.node.storage.context "b" 2).block = Block.ofData 1000 [] := by
  obtain ⟨h, hr, hend⟩ := exists_reaches step (fun _ _ => True)
    (start twoPeers fun _ _ _ => 1000)
    (.initContexts 2 :: .receive (contributes "c") :: List.replicate 3 .handle ++
      .initContexts 2 :: .handle :: .receive (contributes "b") :: List.replicate 4 .handle)
    (fun h => h.node.todo = [] ∧ h.received = [contributes "c", contributes "b"] ∧
      (h.node.storage.context "b" 2).block = Block.ofData 1000 [])
    (by decide +kernel)
  exact ⟨h, hr, by simpa using hend⟩

theorem messages_twoOrders {h h' : Arrivals} (hh : h.received = [contributes "b", contributes "c"])
    (hh' : h'.received = [contributes "c", contributes "b"]) (a : String) :
    h'.messages a 2 = h.messages a 2 := by
  by_cases ha : a = "b"
  · simp [messages, hh, hh', contributes, plainMessage, ha]
  · simp [messages, hh, hh', contributes, plainMessage, List.filter_cons, Ne.symm ha]

/-- The messages of `b` and of `c` arrive in either order, before and after the tick. -/
theorem context_eq_twoOrders : ∃ h h' : Arrivals,
    h.received = [contributes "b", contributes "c"] ∧
      h'.received = [contributes "c", contributes "b"] ∧
      ∀ a, (h'.node.storage.context a 2).isContributing =
        (h.node.storage.context a 2).isContributing := by
  obtain ⟨h, hr, hidle, hreceived, -⟩ := exists_tick_between
  obtain ⟨h', hr', hidle', hreceived', -⟩ := exists_tick_first
  refine ⟨h, h', hreceived, hreceived', fun a => ?_⟩
  have hmessages := messages_twoOrders hreceived hreceived'
  have hfields := (context_eq hr hr' hidle hidle' hmessages a).fields
  have hflag := congrArg ConsensusContext.isContributing hfields
  exact hflag

/-- The whole entries are not the same: that of `b` is made by its message, or by the tick. -/
theorem not_context_eq : ¬ ∀ (st : ConsensusStorage) (times times' : String → ℕ → ℕ → ℕ) (s : ℕ)
    (h h' : Arrivals), Reachable step (start st times) h → Reachable step (start st times') h' →
      h.node.todo = [] → h'.node.todo = [] →
      (∀ a, h'.messages a s = h.messages a s) →
      ∀ a, h'.node.storage.context a s = h.node.storage.context a s := by
  intro hall
  obtain ⟨h, hr, hidle, hreceived, hblock⟩ := exists_tick_between
  obtain ⟨h', hr', hidle', hreceived', hblock'⟩ := exists_tick_first
  have heq := hall twoPeers _ _ 2 h h' hr hr' hidle hidle'
    (messages_twoOrders hreceived hreceived') "b"
  rw [heq, hblock] at hblock'
  exact absurd hblock' (by decide)

end Arrivals

end BlockchainMessaging
