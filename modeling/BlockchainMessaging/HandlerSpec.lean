import BlockchainMessaging.NodeSpec

/-!
# What the calls of the consensus thread do

The counterpart of the specification of the slot thread.  What a call does to the entry of
the sender is `HandlerOp.effect`; no other entry is touched, and of the slot thread a call
changes at most that it wakes up.

## Main definitions

* `HandlerOp.effect`, `HandlerOp.exec_table` — the consensus thread and the table.
* `SlotPc.Woken` — the slot thread stays where it is, or wakes up.
* `HandlerOp.Before`, `Scripted` — what is left of a message.
-/

namespace BlockchainMessaging

open ConsensusStorage

/-! ## The consensus thread -/

/-- What a call of the handler does to the entry of the sender in the message's slot, when
the sender is called `node`. -/
def HandlerOp.effect (op : HandlerOp) (node : String) (c : ConsensusContext) :
    ConsensusContext :=
  match op with
  | .addContext => { c with node }
  | .setContribution isContributing => { c with isContributing := some isContributing }
  | .fillElectionValue value => { c with electionValue := value }
  | .addBlock block => { c with block }
  | .marAsResolved => { c with isResolved := true }
  | _ => c

/-- The call is a query whose answer decides about the notification. -/
def HandlerOp.isCheck : HandlerOp → Bool
  | .areAllContributorsConfirmed => true
  | .areAllElectionValuesPresent => true
  | .isAllContributorsDataCollected => true
  | _ => false

/-- **The consensus thread and the table.** -/
theorem HandlerOp.exec_table (op : HandlerOp) (n : Node) (a : String) (s : ℕ) :
    (op.exec n).storage.context a s =
      if a = n.header.address ∧ s = n.header.slot then
        op.effect n.header.node (n.storage.context a s)
      else n.storage.context a s := by
  cases op
  case addContext | setContribution | fillElectionValue | addBlock | marAsResolved =>
    simp only [exec, effect, ConsensusStorage.addContext, ConsensusStorage.setContribution,
      ConsensusStorage.fillElectionValue, ConsensusStorage.addBlock,
      ConsensusStorage.marAsResolved, context_modify]
    split
    · next h => rw [h.1, h.2]
    · rfl
  case initConditions => simp [exec, effect]
  case areAllContributorsConfirmed =>
    simp [exec, effect, Node.check_eq, (untouched_areAllContributorsConfirmed _ _).context a s]
  case areAllElectionValuesPresent =>
    simp [exec, effect, Node.check_eq, (untouched_areAllElectionValuesPresent _ _).context a s]
  case isAllContributorsDataCollected =>
    simp [exec, effect, Node.check_eq,
      (untouched_isAllContributorsDataCollected _ _).context a s]
  case storeSynchronized =>
    simp only [exec, effect, ite_self]
    split <;> simp
  case notifyAll =>
    simp only [exec, effect, ite_self]
    split
    · split <;> simp
    · simp

/-- A field that the call does not set keeps its value. -/
theorem HandlerOp.exec_field {β : Type} (op : HandlerOp) (n : Node) (f : ConsensusContext → β)
    {s : ℕ} (h : (∀ node c, f (op.effect node c) = f c) ∨ n.header.slot ≠ s) (a : String) :
    f ((op.exec n).storage.context a s) = f (n.storage.context a s) := by
  rw [exec_table]
  split
  · next heq =>
    rcases h with hf | hne
    · exact hf _ _
    · exact absurd heq.2.symm hne
  · rfl

/-- **What a call of the consensus thread touches.** -/
theorem HandlerOp.exec_touched (op : HandlerOp) (n : Node) :
    Touched (· = n.header.address) n.header.slot n.storage (op.exec n).storage := by
  cases op
  case initConditions => exact touched_initConditions _ _ _
  case addContext | setContribution | fillElectionValue | addBlock | marAsResolved =>
    exact touched_write (A := (· = n.header.address)) (.inl rfl) _
  case areAllContributorsConfirmed | areAllElectionValuesPresent |
      isAllContributorsDataCollected =>
    simp only [exec, Node.check_eq]
    exact touched_allOf _ _ _ _ _ fun _ ha => ha
  case storeSynchronized =>
    have hget :=
      touched_getSlotSynchronizationContext (· = n.header.address) n.storage n.header.slot
    simp only [exec]
    split
    · exact hget.condition rfl rfl fun _ _ => rfl
    · exact hget
  case notifyAll =>
    have hget :=
      touched_getSlotSynchronizationContext (· = n.header.address) n.storage n.header.slot
    simp only [exec]
    split
    · split <;> exact hget
    · exact hget

/-- The slot thread stays where it is, or wakes up. -/
def SlotPc.Woken (pc pc' : SlotPc) : Prop :=
  pc' = pc ∨ ∃ w, pc = .wait w .asleep ∧ pc' = .wait w .eval

/-- Waking changes nothing but the place in the code. -/
theorem Node.wake_frame (n : Node) : ∃ pc, n.wake = { n with pc } ∧ n.pc.Woken pc := by
  rw [wake]
  split
  · next w h => exact ⟨_, rfl, .inr ⟨w, h, rfl⟩⟩
  · exact ⟨n.pc, rfl, .inl rfl⟩

/-- A call of the handler changes the storage, may wake the slot thread, may fail, and may
end the handler when it is a check. -/
theorem HandlerOp.exec_frame (op : HandlerOp) (n : Node) :
    ∃ storage pc todo failure, op.exec n = { n with storage, pc, todo, failure } ∧
      n.pc.Woken pc ∧ (todo = n.todo ∨ op.isCheck = true ∧ todo = []) := by
  have hcheck : ∀ q, op.isCheck = true →
      ∃ storage pc todo failure, n.check q = { n with storage, pc, todo, failure } ∧
        n.pc.Woken pc ∧ (todo = n.todo ∨ op.isCheck = true ∧ todo = []) := by
    intro q hop
    refine ⟨_, n.pc, _, _, n.check_eq q, .inl rfl, ?_⟩
    split
    · exact .inr ⟨hop, rfl⟩
    · exact .inl rfl
  cases op
  case areAllContributorsConfirmed | areAllElectionValuesPresent |
      isAllContributorsDataCollected => exact hcheck _ rfl
  case storeSynchronized =>
    simp only [exec]
    split <;> exact ⟨_, n.pc, n.todo, _, rfl, .inl rfl, .inl rfl⟩
  case notifyAll =>
    obtain ⟨pc, hwake, hpc⟩ := n.wake_frame
    simp only [exec, hwake]
    split
    · split
      · exact ⟨_, pc, n.todo, _, rfl, hpc, .inl rfl⟩
      · exact ⟨_, n.pc, n.todo, _, rfl, .inl rfl, .inl rfl⟩
    · exact ⟨_, n.pc, n.todo, _, rfl, .inl rfl, .inl rfl⟩
  all_goals exact ⟨_, n.pc, n.todo, _, rfl, .inl rfl, .inl rfl⟩

@[simp] theorem HandlerOp.exec_context (op : HandlerOp) (n : Node) :
    (op.exec n).context = n.context := by
  obtain ⟨st, pc, todo, failure, h, -, -⟩ := op.exec_frame n
  rw [h]

@[simp] theorem HandlerOp.exec_header (op : HandlerOp) (n : Node) :
    (op.exec n).header = n.header := by
  obtain ⟨st, pc, todo, failure, h, -, -⟩ := op.exec_frame n
  rw [h]

@[simp] theorem HandlerOp.exec_sync (op : HandlerOp) (n : Node) :
    (op.exec n).sync = n.sync := by
  obtain ⟨st, pc, todo, failure, h, -, -⟩ := op.exec_frame n
  rw [h]

theorem HandlerOp.exec_pc (op : HandlerOp) (n : Node) : n.pc.Woken (op.exec n).pc := by
  obtain ⟨st, pc, todo, failure, h, hpc, -⟩ := op.exec_frame n
  rw [h]
  exact hpc

theorem HandlerOp.exec_todo (op : HandlerOp) (n : Node) :
    (op.exec n).todo = n.todo ∨ op.isCheck = true ∧ (op.exec n).todo = [] := by
  obtain ⟨st, pc, todo, failure, h, -, htodo⟩ := op.exec_frame n
  rw [h]
  exact htodo

theorem SlotPc.Woken.rank_eq {pc pc' : SlotPc} (h : pc.Woken pc') : pc'.rank = pc.rank := by
  rcases h with rfl | ⟨w, rfl, rfl⟩
  · rfl
  · cases w <;> rfl

theorem Node.OnSlot.exec {E : SlotEnv} {n : Node} (h : n.OnSlot E) (op : HandlerOp) :
    (op.exec n).OnSlot E := by
  have hrank := (op.exec_pc n).rank_eq
  exact ⟨by simpa [hrank] using h.block, by simpa [hrank] using h.header⟩

theorem Node.OnSlot.wake {E : SlotEnv} {n : Node} (h : n.OnSlot E) {w : Waiter}
    (hpc : n.pc = .wait w .asleep) : ({ n with pc := .wait w .eval } : Node).OnSlot E := by
  have hrank : (SlotPc.wait w .eval).rank = n.pc.rank := by
    rw [hpc]
    cases w <;> rfl
  exact ⟨fun hr => h.block (hrank ▸ hr), fun hr => h.header (hrank ▸ hr)⟩

/-- What a call of the handler can do to the part of the storage that is not the table. -/
theorem HandlerOp.exec_rest (op : HandlerOp) (n : Node) :
    (op.exec n).storage.rest = n.storage.rest ∨
      (op = .initConditions ∧ (op.exec n).storage = n.storage.initConditions n.header.slot) ∨
      (op = .storeSynchronized ∧ ∃ p, n.storage.conditions.find n.header.slot = some (some p) ∧
        (op.exec n).storage = n.storage.storeSynchronized p true) ∨
      ((op = .storeSynchronized ∨ op = .notifyAll) ∧
        (op.exec n).storage = (n.storage.getSlotSynchronizationContext n.header.slot).2) := by
  cases op
  case initConditions => exact .inr (.inl ⟨rfl, rfl⟩)
  case storeSynchronized =>
    simp only [exec]
    split
    · next p hp =>
      rw [getSlotSynchronizationContext_fst] at hp
      have hfind : n.storage.conditions.find n.header.slot = some (some p) := by
        simpa [Option.join_eq_some_iff] using hp
      refine .inr (.inr (.inl ⟨trivial, p, hfind, ?_⟩))
      simp [getSlotSynchronizationContext, hfind]
    · exact .inr (.inr (.inr ⟨.inl trivial, rfl⟩))
  case notifyAll =>
    refine .inr (.inr (.inr ⟨.inr rfl, ?_⟩))
    simp only [exec]
    split
    · split <;> rfl
    · rfl
  case areAllContributorsConfirmed | areAllElectionValuesPresent |
      isAllContributorsDataCollected =>
    exact .inl (by simp [exec, Node.check_eq])
  all_goals exact .inl rfl

/-- The handler removes no synchronization context. -/
theorem HandlerOp.exec_find {op : HandlerOp} {n : Node} {s : ℕ} {o : Option ℕ}
    (hs : n.storage.conditions.find s = some o) :
    (op.exec n).storage.conditions.find s = some o := by
  rcases op.exec_rest n with h | ⟨-, h⟩ | ⟨-, p, -, h⟩ | ⟨-, h⟩
  · rw [(rest_eq h).1, hs]
  · rw [h, find_initConditions, if_neg, hs]
    rintro ⟨rfl, hnone⟩
    simp [hnone] at hs
  · rw [h]
    exact hs
  · rw [h, find_getSlotSynchronizationContext, if_neg, hs]
    rintro ⟨rfl, hnone⟩
    simp [hnone] at hs

theorem HandlerOp.exec_pointersOk {op : HandlerOp} {n : Node} (h : n.storage.PointersOk) :
    (op.exec n).storage.PointersOk := by
  rcases op.exec_rest n with h' | ⟨-, h'⟩ | ⟨-, p, -, h'⟩ | ⟨-, h'⟩
  · exact h.of_rest h'
  · rw [h']; exact h.initConditions _
  · rw [h']; exact h.storeSynchronized _ _
  · rw [h']; exact h.getSlotSynchronizationContext _

theorem HandlerOp.exec_nodeConfiguration (op : HandlerOp) (n : Node) :
    (op.exec n).storage.nodeConfiguration = n.storage.nodeConfiguration := by
  rcases op.exec_rest n with h | ⟨-, h⟩ | ⟨-, p, -, h⟩ | ⟨-, h⟩
  · exact (rest_eq h).2.2.1
  · rw [h, ConsensusStorage.initConditions]
    split <;> rfl
  · rw [h]
    rfl
  · rw [h, getSlotSynchronizationContext]
    split <;> rfl

/-- The calls that dereference the slot's context. -/
def HandlerOp.derefs : HandlerOp → Bool
  | .storeSynchronized => true
  | .notifyAll => true
  | _ => false

/-- Why a call of the handler ends the process. -/
theorem HandlerOp.exec_failure (op : HandlerOp) (n : Node) :
    (op.exec n).failure = n.failure ∨
      ((op.exec n).failure = some .nullContext ∧ op.derefs = true ∧
        ∀ p, n.storage.conditions.find n.header.slot ≠ some (some p)) ∨
      ((op.exec n).failure = some .badOptional ∧ op = .isAllContributorsDataCollected ∧
        (n.storage.isAllContributorsDataCollected n.header.slot).1 = none) := by
  cases op
  case areAllContributorsConfirmed =>
    simp only [exec, Node.check_eq]
    cases h : (n.storage.areAllContributorsConfirmed n.header.slot).1 with
    | none => exact absurd h (areAllContributorsConfirmed_ne_none _ _)
    | some b => exact .inl rfl
  case areAllElectionValuesPresent =>
    simp only [exec, Node.check_eq]
    cases h : (n.storage.areAllElectionValuesPresent n.header.slot).1 with
    | none => exact absurd h (areAllElectionValuesPresent_ne_none _ _)
    | some b => exact .inl rfl
  case isAllContributorsDataCollected =>
    simp only [exec, Node.check_eq]
    cases h : (n.storage.isAllContributorsDataCollected n.header.slot).1 with
    | none => exact .inr (.inr ⟨rfl, trivial, rfl⟩)
    | some b => exact .inl rfl
  case storeSynchronized =>
    simp only [exec]
    split
    · exact .inl rfl
    · next h => exact .inr (.inl ⟨rfl, rfl, getSlotSynchronizationContext_fst_eq_none.1 h⟩)
  case notifyAll =>
    obtain ⟨pc, hwake, -⟩ := n.wake_frame
    simp only [exec, hwake]
    split
    · split <;> exact .inl rfl
    · next h => exact .inr (.inl ⟨rfl, rfl, getSlotSynchronizationContext_fst_eq_none.1 h⟩)
  all_goals exact .inl rfl

/-! ## The rest of a message -/

/-- What is left of a message when `op` is the call that is made. -/
def HandlerOp.Before (op : HandlerOp) (rest : List HandlerOp) : Prop :=
  match op with
  | .initConditions => ∃ isContributing, rest = [.addContext, .setContribution isContributing,
      .areAllContributorsConfirmed, .storeSynchronized, .notifyAll]
  | .addContext => ∃ isContributing, rest = [.setContribution isContributing,
      .areAllContributorsConfirmed, .storeSynchronized, .notifyAll]
  | .setContribution _ => rest = [.areAllContributorsConfirmed, .storeSynchronized, .notifyAll]
  | .fillElectionValue _ => rest = [.areAllElectionValuesPresent, .storeSynchronized, .notifyAll]
  | .addBlock _ => rest = [.isAllContributorsDataCollected, .storeSynchronized, .notifyAll] ∨
      rest = [.marAsResolved, .storeSynchronized, .notifyAll]
  | .marAsResolved | .areAllContributorsConfirmed | .areAllElectionValuesPresent |
      .isAllContributorsDataCollected => rest = [.storeSynchronized, .notifyAll]
  | .storeSynchronized => rest = [.notifyAll]
  | .notifyAll => rest = []

/-- The end of some script. -/
def Scripted : List HandlerOp → Prop
  | [] => True
  | op :: rest => op.Before rest

/-- The calls for a message are a script. -/
theorem scripted_handlerScript {m : ConsensusMessage} {script : List HandlerOp}
    (h : handlerScript m = some script) : Scripted script := by
  rw [handlerScript] at h
  split at h <;> cases h <;> simp [Scripted, HandlerOp.Before]

/-- Every end of a script is one. -/
theorem Scripted.tail {op : HandlerOp} {rest : List HandlerOp} (h : Scripted (op :: rest)) :
    Scripted rest := by
  cases op <;> simp only [Scripted, HandlerOp.Before] at h
  case initConditions | addContext =>
    obtain ⟨b, rfl⟩ := h
    simp [Scripted, HandlerOp.Before]
  case addBlock => rcases h with rfl | rfl <;> simp [Scripted, HandlerOp.Before]
  all_goals (subst h; simp [Scripted, HandlerOp.Before])

/-- A step of the consensus thread takes the next call off the script. -/
theorem handlerStep_eq_some {n n' : Node} (h : handlerStep n = some n') :
    n.failure = none ∧ ∃ op rest, n.todo = op :: rest ∧ n' = op.exec { n with todo := rest } := by
  rw [handlerStep] at h
  split at h
  · cases h
  · next op rest htodo =>
    split at h
    · cases h
    · next hf =>
      cases h
      exact ⟨by simpa using hf, op, rest, htodo, rfl⟩

/-- What the consensus thread receives, it receives when idle. -/
theorem receiveStep_eq_some {m : ConsensusMessage} {n n' : Node}
    (h : receiveStep m n = some n') : n.failure = none ∧ n.todo = [] ∧
      match handlerScript m with
      | some todo => n' = { n with header := m.header, todo }
      | none => n' = n.fail .badArchive := by
  rw [receiveStep] at h
  split at h
  · cases h
  · next hidle =>
    simp only [Bool.or_eq_true, decide_eq_true_eq, not_or] at hidle
    refine ⟨by simpa using hidle.1, by simpa using hidle.2, ?_⟩
    cases hs : handlerScript m with
    | none => simpa [hs] using h.symm
    | some todo => simpa [hs] using h.symm

theorem wakeStep_eq_some {n n' : Node} (h : wakeStep n = some n') :
    n.failure = none ∧ ∃ w, n.pc = .wait w .asleep ∧ n' = { n with pc := .wait w .eval } := by
  rw [wakeStep] at h
  split at h
  · next w hpc =>
    split at h
    · cases h
    · next hf =>
      cases h
      exact ⟨by simpa using hf, w, hpc, by simp [Node.wake, hpc]⟩
  · cases h

end BlockchainMessaging
