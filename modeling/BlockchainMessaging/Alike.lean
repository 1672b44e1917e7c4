import BlockchainMessaging.Release
import BlockchainMessaging.SameSlot

/-!
# Two nodes that can not be told apart by one slot

A run of `SlotHandler` shares the storage and the chain with the runs of other slots.  It does not
notice: as long as no call on the chain fails, two nodes that say the same about its slot, and on
which the run stands at the same place, stay so when both make the same call.  They may differ in
all other slots, in the chain and in the index that the run remembers, and in where their
synchronization contexts are.

## Main definitions

* `Node.Linked` — a synchronization context that was fetched is the one of the slot.
* `SameRun` — what is a run's own.
* `Alike` — no call of the run can tell the nodes apart.
* `Alike.slotMove`, `Alike.exec` — a call of a run, and of the consensus thread.
-/

namespace BlockchainMessaging

open ConsensusStorage

/-! ## The pointer of a run -/

/-- The pointer that a run holds is to the synchronization context of its slot `s`, until the slot
is cleared. -/
def Node.Linked (s : ℕ) (n : Node) : Prop :=
  ∀ p, n.sync = some p → n.pc.rank ≤ 28 → n.storage.conditions.find s = some (some p)

/-- A null pointer is not kept. -/
theorem Node.getContext_linked {s : ℕ} {n : Node} (h : n.Linked s)
    (hslot : n.context.header.slot = s) (hrank : n.pc.rank ≤ 28) (pc : SlotPc) :
    (n.getContext pc).Linked s := by
  intro p hp _
  rw [Node.getContext_eq] at hp ⊢
  rw [hslot] at hp ⊢
  simp only at hp ⊢
  rw [find_getSlotSynchronizationContext]
  cases hr : (n.storage.getSlotSynchronizationContext s).1 with
  | none =>
    simp only [hr, Option.isSome_none, Bool.false_eq_true, if_false] at hp
    rw [if_neg, h p hp hrank]
    simp [h p hp hrank]
  | some q =>
    simp only [hr, Option.isSome_some, if_true, Option.some.injEq] at hp
    subst hp
    rw [getSlotSynchronizationContext_fst, Option.join_eq_some_iff] at hr
    rw [if_neg, hr]
    simp [hr]

/-- A call of the run. -/
theorem Node.Linked.slotMove {E : SlotEnv} {s : ℕ} {n : Node} (h : n.Linked s)
    (hslot : 4 ≤ n.pc.rank → n.context.header.slot = s) : (slotMove E n).1.Linked s := by
  by_cases henter : ∃ w, n.pc = .wait w .enter
  · obtain ⟨w, hw⟩ := henter
    have h28 : n.pc.rank ≤ 28 := by rw [hw]; cases w <;> decide
    have hget := Node.getContext_linked h (hslot (by rw [hw]; cases w <;> decide)) h28
    have hkeep : ∀ pc, ({ n with pc } : Node).Linked s := fun pc p hp _ => h p hp h28
    simp only [BlockchainMessaging.slotMove, hw]
    cases w with
    | inspection | election => exact hget _
    | contributorsData | broadcast =>
      simp only [waitMove]
      split
      · first | exact hget _ | exact hkeep _
      · first | exact hget _ | exact hkeep _
  · intro p hp hrank
    rw [slotMove_sync E fun w hw => henter ⟨w, hw⟩] at hp
    refine slotMove_find ?_ (h p hp ((slotMove_rank E n).trans hrank))
    intro hclear
    simp [BlockchainMessaging.slotMove, hclear, SlotPc.rank] at hrank

/-- Whatever is no call of the run, and removes no synchronization context. -/
theorem Node.Linked.passive {s : ℕ} {n n' : Node} (h : n.Linked s) (hsync : n'.sync = n.sync)
    (hrank : n'.pc.rank ≤ 28 → n.pc.rank ≤ 28)
    (hfind : ∀ o, n.storage.conditions.find s = some o → n'.storage.conditions.find s = some o) :
    n'.Linked s := by
  intro p hp h28
  rw [hsync] at hp
  exact hfind _ (h p hp (hrank h28))

/-- A call of the consensus thread. -/
theorem Node.Linked.exec {s : ℕ} {n : Node} (h : n.Linked s) (op : HandlerOp) :
    (op.exec n).Linked s :=
  h.passive (op.exec_sync n) (op.exec_pc n).rank_eq.ge.trans fun _ => HandlerOp.exec_find

/-! ## What is a run's own -/

/-- What a run remembers is the same, but for the index of its block. -/
structure SameRun (n m : Node) : Prop where
  context : ∃ i, m.context = { n.context with blockIndex := i }
  pc : m.pc = n.pc
  owned : m.owned = n.owned
  electionValue : m.electionValue = n.electionValue
  draws : m.draws = n.draws
  published : m.published = n.published

/-- The nodes say the same about the slot `s`, and the run is at the same place on both. -/
structure Alike (s : ℕ) (n m : Node) : Prop extends SameRun n m where
  storage : SameSlot s n.storage m.storage
  sync : m.sync.isSome = n.sync.isSome
  failure : m.failure = n.failure

namespace Alike

variable {E : SlotEnv} {s : ℕ} {n m : Node}

/-! ## Pieces of a step -/

theorem ask (h : Alike s n m) {q q' : Option Bool × ConsensusStorage}
    (hq : SameSlot.Answers s q q') (yes no : SlotPc) :
    Alike s (n.ask q yes no) (m.ask q' yes no) := by
  obtain ⟨hanswer, hleft⟩ := hq
  rw [Node.ask, Node.ask, hanswer]
  split
  · exact { h with storage := hleft, pc := rfl }
  · exact { h with storage := hleft, pc := rfl }
  · exact { h with storage := hleft, failure := rfl }

theorem check (h : Alike s n m) {q q' : Option Bool × ConsensusStorage}
    (hq : SameSlot.Answers s q q') : Alike s (n.check q) (m.check q') := by
  obtain ⟨hanswer, hleft⟩ := hq
  rw [Node.check, Node.check, hanswer]
  split
  · exact { h with storage := hleft }
  · exact { h with storage := hleft }
  · exact { h with storage := hleft, failure := rfl }

theorem fail (h : Alike s n m) (f : Failure) : Alike s (n.fail f) (m.fail f) :=
  { h with failure := rfl }

theorem header (h : Alike s n m) : m.context.header = n.context.header := by
  obtain ⟨i, hi⟩ := h.context
  rw [hi]

theorem getContext (h : Alike s n m) (hslot : n.context.header.slot = s) (pc : SlotPc) :
    Alike s (n.getContext pc) (m.getContext pc) := by
  have hleft := h.storage.getSlotSynchronizationContext
  have hsome := isSome_getSlotSynchronizationContext h.storage.flag
  rw [Node.getContext, Node.getContext, h.header, hslot]
  cases hr : (n.storage.getSlotSynchronizationContext s).1 with
  | none =>
    rw [hr, Option.isSome_none, Option.isSome_eq_false_iff, Option.isNone_iff_eq_none] at hsome
    simp only [hsome]
    exact { h with storage := hleft, failure := rfl }
  | some p =>
    rw [hr, Option.isSome_some, Option.isSome_iff_exists] at hsome
    obtain ⟨q, hq⟩ := hsome
    simp only [hq]
    exact { h with storage := hleft, sync := rfl, pc := rfl }

theorem setOperation (h : Alike s n m) (operation : ConsensusOperation) :
    Alike s (n.setOperation operation) (m.setOperation operation) := by
  obtain ⟨i, hi⟩ := h.context
  exact { h with context := ⟨i, by simp [Node.setOperation, hi]⟩ }

/-- The pointers of both nodes are to the synchronization context of the slot. -/
theorem find_eq (h : Alike s n m) (hn : n.Linked s) (hm : m.Linked s) (hrank : n.pc.rank ≤ 28) :
    (n.sync = none ∧ m.sync = none) ∨ ∃ p q, n.sync = some p ∧ m.sync = some q ∧
      n.storage.conditions.find s = some (some p) ∧
      m.storage.conditions.find s = some (some q) := by
  have hsync := h.sync
  cases hp : n.sync with
  | none => exact .inl ⟨rfl, by simpa [hp] using hsync⟩
  | some p =>
    rw [hp, Option.isSome_some, Option.isSome_iff_exists] at hsync
    obtain ⟨q, hq⟩ := hsync
    exact .inr ⟨p, q, rfl, hq, hn p hp hrank, hm q hq (by rwa [h.pc])⟩

/-- Both nodes are linked, and their pointers are in order. -/
structure Tied (s : ℕ) (n m : Node) : Prop where
  left : n.Linked s
  right : m.Linked s
  leftPointers : n.storage.PointersOk
  rightPointers : m.storage.PointersOk

theorem resetSynchronized (h : Alike s n m) (ht : Tied s n m) (hrank : n.pc.rank ≤ 28)
    (pc : SlotPc) : Alike s (n.resetSynchronized pc) (m.resetSynchronized pc) := by
  rw [Node.resetSynchronized, Node.resetSynchronized]
  rcases h.find_eq ht.left ht.right hrank with ⟨hp, hq⟩ | ⟨p, q, hp, hq, hfind, hfind'⟩
  · simp only [hp, hq]
    exact { h with owned := rfl, pc := rfl, sync := rfl }
  · simp only [hp, hq]
    exact { h with
      storage := h.storage.storeSynchronized hfind hfind' (ht.leftPointers.lt s p hfind)
        (ht.rightPointers.lt s q hfind') false
      owned := rfl
      pc := rfl
      sync := rfl }

/-! ## The slot thread -/

theorem predicate (h : Alike s n m) (hslot : n.context.header.slot = s) (w : Waiter) :
    SameSlot.Answers s (w.predicate n) (w.predicate m) := by
  obtain ⟨i, hi⟩ := h.context
  simp only [Waiter.predicate, hi, hslot]
  cases w with
  | inspection => exact h.storage.areAllContributorsConfirmed
  | election => exact h.storage.areAllElectionValuesPresent
  | contributorsData => exact h.storage.isAllContributorsDataCollected
  | broadcast =>
    obtain ⟨hanswer, hleft⟩ := h.storage.isResolved n.context.validator
    exact ⟨by rw [hanswer], hleft⟩

theorem waitMove (h : Alike s n m) (ht : Tied s n m) (hslot : n.context.header.slot = s)
    {w : Waiter} {phase : WaitPhase} (hpc : n.pc = .wait w phase) :
    Alike s (waitMove w n phase) (waitMove w m phase) := by
  obtain ⟨i, hi⟩ := h.context
  cases phase with
  | enter =>
    cases w with
    | inspection | election => exact h.getContext hslot _
    | contributorsData | broadcast =>
      simp only [BlockchainMessaging.waitMove, hi]
      split
      · first | exact h.getContext hslot _ | exact { h with context := ⟨i, rfl⟩, pc := rfl }
      · first | exact h.getContext hslot _ | exact { h with context := ⟨i, rfl⟩, pc := rfl }
  | early => exact h.ask (h.predicate hslot w) _ _
  | lock =>
    simp only [BlockchainMessaging.waitMove, h.owned]
    split
    · exact h.fail _
    · exact { h with owned := rfl, pc := rfl }
  | eval =>
    cases w with
    | inspection | election | contributorsData => exact h.ask (h.predicate hslot _) _ _
    | broadcast =>
      rcases h.find_eq ht.left ht.right (by rw [hpc]; decide) with
        ⟨hp, hq⟩ | ⟨p, q, hp, hq, hfind, hfind'⟩
      · simp only [BlockchainMessaging.waitMove, hp, hq]
        exact h.ask (h.predicate hslot _) _ _
      · simp only [BlockchainMessaging.waitMove, hp, hq, h.storage.loadSynchronized_eq hfind hfind']
        split
        · exact { h with pc := rfl, sync := rfl }
        · exact { h with pc := rfl, sync := rfl }
  | window => exact { h with pc := rfl }
  | asleep => exact h

/-- The next call of the run on the chain, if it makes one, finds what it looks for. -/
structure Served (E : SlotEnv) (n : Node) : Prop where
  getByIndex : n.pc = .removeGet →
    ∃ b, RedisDB.getByIndex E.archive n.context.blockIndex n.chain = some (some b)
  update : n.pc = .completeUpdate →
    ∃ chain, RedisDB.update E.archive n.context.broadcastBlock n.context.blockIndex n.chain =
      some chain

/-- A call that the chain does not serve ends the process, and does nothing else. -/
theorem slotMove_of_not_served (h : ¬ Served E n) :
    ∃ f, BlockchainMessaging.slotMove E n = (n.fail f, []) := by
  by_cases hget : n.pc = .removeGet
  · simp only [BlockchainMessaging.slotMove, hget]
    rcases hr : RedisDB.getByIndex E.archive n.context.blockIndex n.chain with _ | _ | b
    · exact ⟨_, rfl⟩
    · exact ⟨_, rfl⟩
    · exact absurd ⟨fun _ => ⟨b, hr⟩, fun hpc => by simp [hget] at hpc⟩ h
  · by_cases hupdate : n.pc = .completeUpdate
    · simp only [BlockchainMessaging.slotMove, hupdate]
      rcases hr : RedisDB.update E.archive n.context.broadcastBlock n.context.blockIndex n.chain
        with _ | chain
      · exact ⟨_, rfl⟩
      · exact absurd ⟨fun hpc => absurd hpc hget, fun _ => ⟨chain, hr⟩⟩ h
    · exact absurd ⟨fun hpc => absurd hpc hget, fun hpc => absurd hpc hupdate⟩ h

/-- **A call of the run** leaves nodes that can not be told apart, if the chain serves it. -/
theorem slotMove (h : Alike s n m) (ht : Tied s n m) (hslot : E.slot = s)
    (hpending : E.pendingBlock.slot = s) (hon : n.OnSlot E) (hn : Served E n) (hm : Served E m) :
    Alike s (slotMove E n).1 (slotMove E m).1 := by
  obtain ⟨i, hi⟩ := h.context
  have hheader : 4 ≤ n.pc.rank → n.context.header.slot = s := fun h4 =>
    (hon.header h4).trans hpending
  cases hpc : n.pc
  case initConditions =>
    simp only [BlockchainMessaging.slotMove, hpc, h.pc, hslot]
    exact { h with storage := h.storage.initConditions, pc := rfl }
  case initContexts =>
    simp only [BlockchainMessaging.slotMove, hpc, h.pc, hslot]
    exact { h with storage := h.storage.initContexts, pc := rfl }
  case saveAdd =>
    simp only [BlockchainMessaging.slotMove, hpc, h.pc, hi]
    exact { h with context := ⟨_, rfl⟩, pc := rfl }
  case saveBlock =>
    simp only [BlockchainMessaging.slotMove, hpc, h.pc, hi, hon.block (by rw [hpc]; decide),
      hpending]
    exact { h with storage := h.storage.addBlock _ _, context := ⟨i, rfl⟩, pc := rfl }
  case notifyContext =>
    simp only [BlockchainMessaging.slotMove, hpc, h.pc, hi, hheader (by rw [hpc]; decide)]
    exact { h with storage := h.storage.addContext _ _, context := ⟨i, rfl⟩, pc := rfl }
  case notifyContribution =>
    simp only [BlockchainMessaging.slotMove, hpc, h.pc, hi, hheader (by rw [hpc]; decide)]
    exact { h with storage := h.storage.setContribution _ _, context := ⟨i, rfl⟩, pc := rfl }
  case notifyPublish =>
    simp only [BlockchainMessaging.slotMove, hpc, h.pc]
    exact { h with pc := rfl }
  case wait w phase =>
    simp only [BlockchainMessaging.slotMove, hpc, h.pc]
    exact h.waitMove ht (hheader (by rw [hpc]; cases w <;> cases phase <;> decide)) hpc
  case inspectionReset | electReset | collectReset | awaitReset =>
    simp only [BlockchainMessaging.slotMove, hpc, h.pc]
    exact h.resetSynchronized ht (by rw [hpc]; decide) _
  case removeCheck =>
    simp only [BlockchainMessaging.slotMove, hpc, h.pc, hi, hheader (by rw [hpc]; decide)]
    exact h.ask h.storage.isAnyNodeContributing _ _
  case removeGet =>
    obtain ⟨b, hb⟩ := hn.getByIndex hpc
    obtain ⟨b', hb'⟩ := hm.getByIndex (h.pc.trans hpc)
    simp only [BlockchainMessaging.slotMove, hpc, h.pc, hb, hb']
    exact { h with pc := rfl }
  case removeDelete =>
    simp only [BlockchainMessaging.slotMove, hpc, h.pc, hi]
    exact { h with context := ⟨i, rfl⟩, pc := rfl }
  case voteFill again =>
    have hslot' := hheader (by rw [hpc]; cases again <;> decide)
    simp only [BlockchainMessaging.slotMove, hpc, h.pc, hi, hslot', h.draws, Node.setOperation]
    exact { h with
      storage := h.storage.fillElectionValue _ _, context := ⟨i, rfl⟩, pc := rfl
      electionValue := rfl
      draws := rfl }
  case votePublish again =>
    simp only [BlockchainMessaging.slotMove, hpc, h.pc]
    exact { h with pc := rfl }
  case electPresent =>
    simp only [BlockchainMessaging.slotMove, hpc, h.pc, hi, hheader (by rw [hpc]; decide)]
    exact h.ask h.storage.areAllElectionValuesPresent _ _
  case electUnique =>
    obtain ⟨hanswer, hleft⟩ := h.storage.isElectionValueUnique E.self
    simp only [BlockchainMessaging.slotMove, hpc, h.pc, hi, hheader (by rw [hpc]; decide), hanswer]
    split
    · exact { h with storage := hleft, context := ⟨i, rfl⟩, owned := rfl, pc := rfl }
    · exact { h with storage := hleft, context := ⟨i, rfl⟩, pc := rfl }
  case electRecheck =>
    obtain ⟨hanswer, hleft⟩ := h.storage.isElectionValueUnique E.self
    simp only [BlockchainMessaging.slotMove, hpc, h.pc, hi, hheader (by rw [hpc]; decide), hanswer]
    exact { h with storage := hleft, context := ⟨i, rfl⟩, pc := rfl }
  case electRemoveDuplicates =>
    simp only [BlockchainMessaging.slotMove, hpc, h.pc, hi, hheader (by rw [hpc]; decide)]
    exact { h with
      storage := h.storage.removeElectionValueDuplicates, context := ⟨i, rfl⟩, pc := rfl }
  case nominate =>
    simp only [BlockchainMessaging.slotMove, hpc, h.pc, hi, hheader (by rw [hpc]; decide)]
    rcases h.storage.markValidator with ⟨hr, hr'⟩ | ⟨r, r', hr, hr', hleft⟩
    · simp only [hr, hr']
      exact h.fail _
    · simp only [hr, hr']
      exact { h with storage := hleft, context := ⟨i, rfl⟩, pc := rfl }
  case relayValidator =>
    obtain ⟨hanswer, hleft⟩ := h.storage.getValidator
    simp only [BlockchainMessaging.slotMove, hpc, h.pc, hi, hheader (by rw [hpc]; decide),
      Node.setOperation, hanswer]
    split
    · exact { h with storage := hleft, context := ⟨i, rfl⟩, pc := rfl }
    · refine fail ?_ _
      exact { h with context := ⟨i, rfl⟩, pc := rfl }
  case relayBlock =>
    simp only [BlockchainMessaging.slotMove, hpc, h.pc, hi, hheader (by rw [hpc]; decide)]
    exact { h with storage := h.storage.addBlock _ _, context := ⟨i, rfl⟩, pc := rfl }
  case relayPublish =>
    simp only [BlockchainMessaging.slotMove, hpc, h.pc, hi]
    split
    · exact { h with context := ⟨i, rfl⟩, pc := rfl }
    · exact h.fail _
  case relayResolved =>
    simp only [BlockchainMessaging.slotMove, hpc, h.pc, hi, hheader (by rw [hpc]; decide)]
    exact { h with storage := h.storage.marAsResolved _, context := ⟨i, rfl⟩, pc := rfl }
  case collectMerge =>
    simp only [BlockchainMessaging.slotMove, hpc, h.pc, hi, hheader (by rw [hpc]; decide)]
    rcases h.storage.mergeContributors E.order with
      ⟨hr, hr'⟩ | ⟨⟨b, r⟩, ⟨b', r'⟩, hr, hr', hb, hleft⟩
    · simp only [hr, hr']
      exact h.fail _
    · obtain rfl : b' = b := hb
      simp only [hr, hr']
      exact { h with storage := hleft, context := ⟨i, rfl⟩, pc := rfl }
  case collectResolved =>
    simp only [BlockchainMessaging.slotMove, hpc, h.pc, hi, hheader (by rw [hpc]; decide)]
    exact { h with storage := h.storage.marAsResolved _, context := ⟨i, rfl⟩, pc := rfl }
  case broadcast =>
    simp only [BlockchainMessaging.slotMove, hpc, h.pc, hi, Node.setOperation]
    exact { h with context := ⟨i, rfl⟩, pc := rfl }
  case awaitResolved =>
    simp only [BlockchainMessaging.slotMove, hpc, h.pc]
    exact h.ask (h.predicate (hheader (by rw [hpc]; decide)) _) _ _
  case awaitBlock =>
    obtain ⟨hanswer, hleft⟩ := h.storage.getBlock n.context.validator
    simp only [BlockchainMessaging.slotMove, hpc, h.pc, hi, hheader (by rw [hpc]; decide), hanswer]
    exact { h with storage := hleft, context := ⟨i, rfl⟩, pc := rfl }
  case completeUpdate =>
    obtain ⟨chain, hchain⟩ := hn.update hpc
    obtain ⟨chain', hchain'⟩ := hm.update (h.pc.trans hpc)
    rw [hi] at hchain'
    simp only [BlockchainMessaging.slotMove, hpc, h.pc, hi, hchain, hchain']
    exact { h with context := ⟨i, rfl⟩, pc := rfl }
  case completeClear =>
    simp only [BlockchainMessaging.slotMove, hpc, h.pc, hi, hheader (by rw [hpc]; decide)]
    exact { h with storage := h.storage.clearSlot, context := ⟨i, rfl⟩, pc := rfl }
  case publishBlock =>
    simp only [BlockchainMessaging.slotMove, hpc, h.pc, hi, h.published]
    exact { h with context := ⟨i, rfl⟩, pc := rfl, published := rfl }
  case returned | stopped =>
    simp only [BlockchainMessaging.slotMove, hpc, h.pc]
    exact h

/-! ## The consensus thread -/

theorem wake (h : Alike s n m) : Alike s n.wake m.wake := by
  rw [Node.wake, Node.wake, h.pc]
  split
  · exact { h with pc := rfl }
  · exact h

/-- Only a run that is asleep can be woken, and then it holds the pointer of its slot. -/
theorem notifyAll (h : Alike s n m) (ht : Tied s n m) (hheader : m.header = n.header)
    (hslot : n.header.slot = s) :
    Alike s (HandlerOp.notifyAll.exec n) (HandlerOp.notifyAll.exec m) := by
  have hleft := h.storage.getSlotSynchronizationContext
  have hsome := isSome_getSlotSynchronizationContext h.storage.flag
  have hslot' : m.header.slot = s := by rw [hheader, hslot]
  simp only [HandlerOp.exec, hslot, hslot']
  cases hr : (n.storage.getSlotSynchronizationContext s).1 with
  | none =>
    rw [hr, Option.isSome_none, Option.isSome_eq_false_iff, Option.isNone_iff_eq_none] at hsome
    simp only [hsome]
    exact { h with storage := hleft, failure := rfl }
  | some p =>
    rw [hr, Option.isSome_some, Option.isSome_iff_exists] at hsome
    obtain ⟨q, hq⟩ := hsome
    simp only [hq]
    rw [getSlotSynchronizationContext_fst, Option.join_eq_some_iff] at hr hq
    have hwake : Alike s { n.wake with storage := (n.storage.getSlotSynchronizationContext s).2 }
        { m.wake with storage := (m.storage.getSlotSynchronizationContext s).2 } :=
      { h.wake with storage := hleft }
    have hkeep : Alike s { n with storage := (n.storage.getSlotSynchronizationContext s).2 }
        { m with storage := (m.storage.getSlotSynchronizationContext s).2 } :=
      { h with storage := hleft }
    by_cases hasleep : ∃ w, n.pc = .wait w .asleep
    · obtain ⟨w, hw⟩ := hasleep
      rcases h.find_eq ht.left ht.right (by rw [hw]; cases w <;> decide) with
        ⟨hp', hq'⟩ | ⟨p', q', hp', hq', hfind, hfind'⟩
      · simpa [hp', hq'] using hkeep
      · obtain rfl : p' = p := by simpa [hr] using hfind.symm
        obtain rfl : q' = q := by simpa [hq] using hfind'.symm
        simpa [hp', hq'] using hwake
    · have hstays : ∀ n' : Node, n'.pc = n.pc → n'.wake = n' := by
        intro n' hpc
        rw [Node.wake]
        split
        · next w hw => exact absurd ⟨w, hpc ▸ hw⟩ hasleep
        · rfl
      rw [hstays n rfl, hstays m h.pc, ite_self, ite_self]
      exact hkeep

/-- **A call of the consensus thread** for the slot leaves nodes that can not be told apart, with
the same calls still to be made. -/
theorem exec (h : Alike s n m) (ht : Tied s n m) (hheader : m.header = n.header)
    (hslot : n.header.slot = s) (htodo : m.todo = n.todo) (op : HandlerOp) :
    Alike s (op.exec n) (op.exec m) ∧ (op.exec m).todo = (op.exec n).todo := by
  have hcheck : ∀ {q q' : Option Bool × ConsensusStorage}, SameSlot.Answers s q q' →
      Alike s (n.check q) (m.check q') ∧ (m.check q').todo = (n.check q).todo := by
    intro q q' hq
    refine ⟨h.check hq, ?_⟩
    rw [Node.check_eq, Node.check_eq]
    simp only [hq.1, htodo]
  cases op
  case notifyAll =>
    refine ⟨h.notifyAll ht hheader hslot, ?_⟩
    rcases HandlerOp.notifyAll.exec_todo n with hn | ⟨hn, -⟩
    · rcases HandlerOp.notifyAll.exec_todo m with hm | ⟨hm, -⟩
      · rw [hn, hm, htodo]
      · cases hm
    · cases hn
  case storeSynchronized =>
    have hleft := h.storage.getSlotSynchronizationContext
    have hsome := isSome_getSlotSynchronizationContext h.storage.flag
    simp only [HandlerOp.exec, hheader, hslot]
    cases hr : (n.storage.getSlotSynchronizationContext s).1 with
    | none =>
      rw [hr, Option.isSome_none, Option.isSome_eq_false_iff, Option.isNone_iff_eq_none] at hsome
      simp only [hsome]
      exact ⟨{ h with storage := hleft, failure := rfl }, htodo⟩
    | some p =>
      rw [hr, Option.isSome_some, Option.isSome_iff_exists] at hsome
      obtain ⟨q, hq⟩ := hsome
      simp only [hq]
      rw [getSlotSynchronizationContext_fst, Option.join_eq_some_iff] at hr hq
      have hn : (n.storage.getSlotSynchronizationContext s).2 = n.storage := by
        simp [getSlotSynchronizationContext, hr]
      have hm : (m.storage.getSlotSynchronizationContext s).2 = m.storage := by
        simp [getSlotSynchronizationContext, hq]
      rw [hn, hm]
      exact ⟨{ h with
        storage := h.storage.storeSynchronized hr hq (ht.leftPointers.lt s p hr)
          (ht.rightPointers.lt s q hq) true }, htodo⟩
  all_goals simp only [HandlerOp.exec, hheader, hslot]
  case initConditions => exact ⟨{ h with storage := h.storage.initConditions }, htodo⟩
  case addContext => exact ⟨{ h with storage := h.storage.addContext _ _ }, htodo⟩
  case setContribution => exact ⟨{ h with storage := h.storage.setContribution _ _ }, htodo⟩
  case fillElectionValue => exact ⟨{ h with storage := h.storage.fillElectionValue _ _ }, htodo⟩
  case addBlock => exact ⟨{ h with storage := h.storage.addBlock _ _ }, htodo⟩
  case marAsResolved => exact ⟨{ h with storage := h.storage.marAsResolved _ }, htodo⟩
  case areAllContributorsConfirmed => exact hcheck h.storage.areAllContributorsConfirmed
  case areAllElectionValuesPresent => exact hcheck h.storage.areAllElectionValuesPresent
  case isAllContributorsDataCollected => exact hcheck h.storage.isAllContributorsDataCollected

end Alike

/-- What a run sends is its own. -/
theorem SameRun.slotSends {n m : Node} (h : SameRun n m) (E : SlotEnv) :
    slotSends E m = slotSends E n := by
  obtain ⟨i, hi⟩ := h.context
  simp only [BlockchainMessaging.slotSends, h.pc, h.electionValue, hi, Node.setOperation]

theorem SameRun.onSlot {n m : Node} (h : SameRun n m) {E : SlotEnv} (hm : m.OnSlot E) :
    n.OnSlot E := by
  obtain ⟨i, hi⟩ := h.context
  constructor
  case block => simpa [h.pc, hi] using hm.block
  case header => simpa [h.pc, hi] using hm.header

theorem Alike.knownAddresses {s : ℕ} {n m : Node} (h : Alike s n m) {E : SlotEnv}
    (hm : KnownAddresses E m) : KnownAddresses E n := by
  obtain ⟨i, hi⟩ := h.context
  constructor
  case self => simpa [h.storage.keys] using hm.self
  case configured => simpa [h.storage.keys, h.storage.nodeConfiguration] using hm.configured
  case cString => simpa [h.storage.keys] using hm.cString
  case header => simpa [h.storage.keys, h.pc, hi] using hm.header
  case validator => simpa [h.storage.keys, h.pc, hi] using hm.validator

/-! ## Calls for another slot -/

section Other

variable {E : SlotEnv} {s s' : ℕ} {n : Node}

/-- Where the allocated objects only grow, an object keeps its flag. -/
private theorem loadSynchronized_of_prefix {st st' : ConsensusStorage}
    (h : st.allocated <+: st'.allocated) {p : ℕ} (hp : p < st.allocated.length) :
    st'.loadSynchronized p = st.loadSynchronized p := by
  obtain ⟨new, hnew⟩ := h
  rw [loadSynchronized, ← hnew, List.getElem?_append_left hp, loadSynchronized]

private theorem prefix_initConditions (st : ConsensusStorage) (s : ℕ) :
    st.allocated <+: (st.initConditions s).allocated := by
  rw [initConditions]
  split
  · exact List.prefix_rfl
  · exact List.prefix_append _ _

private theorem prefix_getSlotSynchronizationContext (st : ConsensusStorage) (s : ℕ) :
    st.allocated <+: (st.getSlotSynchronizationContext s).2.allocated := by
  rw [getSlotSynchronizationContext]
  split <;> exact List.prefix_rfl

private theorem loadSynchronized_storeSynchronized_ne {st : ConsensusStorage} {p q : ℕ}
    (h : p ≠ q) (b : Bool) :
    (st.storeSynchronized q b).loadSynchronized p = st.loadSynchronized p := by
  rw [loadSynchronized, storeSynchronized, List.getElem?_set_ne (Ne.symm h), loadSynchronized]

/-- A call of a run leaves the flags of other slots alone. -/
theorem loadSynchronized_slotMove (hlinked : n.Linked s') (hp : n.storage.PointersOk) (hs : s ≠ s')
    {p : ℕ} (hfind : n.storage.conditions.find s = some (some p)) :
    (slotMove E n).1.storage.loadSynchronized p = n.storage.loadSynchronized p := by
  have hlt := hp.lt s p hfind
  rcases slotMove_rest E n with h | ⟨-, h⟩ | ⟨-, h⟩ | ⟨hpc, q, hq, h⟩ | ⟨-, h⟩
  · rw [loadSynchronized, (rest_eq h).2.1, loadSynchronized]
  · rw [h]
    exact loadSynchronized_of_prefix (prefix_initConditions _ _) hlt
  · rw [h]
    exact loadSynchronized_of_prefix (prefix_getSlotSynchronizationContext _ _) hlt
  · rw [h]
    refine loadSynchronized_storeSynchronized_ne ?_ false
    rintro rfl
    have h28 : n.pc.rank ≤ 28 := by
      simp only [List.mem_cons, List.not_mem_nil, or_false] at hpc
      rcases hpc with hpc | hpc | hpc | hpc <;> rw [hpc] <;> decide
    exact hs (hp.inj s s' p hfind (hlinked p hq h28))
  · rw [h]
    rfl

/-- A call of a run for another slot says nothing about the slot `s`. -/
theorem sameSlot_slotMove (hon : n.OnSlot E) (hE : E.slot = s')
    (hpending : E.pendingBlock.slot = s') (hknown : KnownAddresses E n) (hlinked : n.Linked s')
    (hp : n.storage.PointersOk) (hs : s ≠ s') : SameSlot s n.storage (slotMove E n).1.storage := by
  have hapart := Process.apart_slotMove hon fun _ => hE.trans hpending.symm
  rw [hpending] at hapart
  exact .of_apart hapart hs (slotMove_nodeConfiguration E n) (slotMove_keys hknown)
    fun p hfind => loadSynchronized_slotMove hlinked hp hs hfind

/-- A call of the consensus thread leaves the flags of other slots alone. -/
theorem loadSynchronized_exec (hp : n.storage.PointersOk) (hs : s ≠ n.header.slot) {p : ℕ}
    (hfind : n.storage.conditions.find s = some (some p)) (op : HandlerOp) :
    (op.exec n).storage.loadSynchronized p = n.storage.loadSynchronized p := by
  have hlt := hp.lt s p hfind
  rcases op.exec_rest n with h | ⟨-, h⟩ | ⟨-, q, hq, h⟩ | ⟨-, h⟩
  · rw [loadSynchronized, (rest_eq h).2.1, loadSynchronized]
  · rw [h]
    exact loadSynchronized_of_prefix (prefix_initConditions _ _) hlt
  · rw [h]
    refine loadSynchronized_storeSynchronized_ne ?_ true
    rintro rfl
    exact hs (hp.inj s _ p hfind hq)
  · rw [h]
    exact loadSynchronized_of_prefix (prefix_getSlotSynchronizationContext _ _) hlt

/-- A notification for another slot does not wake the run. -/
theorem exec_pc_eq (hlinked : n.Linked s) (hp : n.storage.PointersOk) (hs : s ≠ n.header.slot)
    (op : HandlerOp) : (op.exec n).pc = n.pc := by
  rcases op.exec_pc n with hpc | ⟨w, hpc, hpc'⟩
  · exact hpc
  · exfalso
    cases op
    case notifyAll =>
      simp only [HandlerOp.exec] at hpc'
      split at hpc'
      · next p hr =>
        rw [getSlotSynchronizationContext_fst, Option.join_eq_some_iff] at hr
        split at hpc'
        · next hsync =>
          have hrank : n.pc.rank ≤ 28 := by rw [hpc]; cases w <;> decide
          exact hs (hp.inj s _ p (hlinked p hsync hrank) hr)
        · simp [hpc] at hpc'
      · simp [hpc] at hpc'
    case storeSynchronized =>
      simp only [HandlerOp.exec] at hpc'
      split at hpc' <;> simp [hpc] at hpc'
    all_goals simp [HandlerOp.exec, Node.check_eq, hpc] at hpc'

/-- A call of the consensus thread for another slot says nothing about the slot `s`. -/
theorem sameSlot_exec (hcString : ∀ a ∈ n.storage.contexts.keys, cStr a = a)
    (haddress : n.header.address ∈ n.storage.contexts.keys) (hp : n.storage.PointersOk)
    (hs : s ≠ n.header.slot) (op : HandlerOp) : SameSlot s n.storage (op.exec n).storage :=
  .of_apart (op.exec_touched n).apart hs (op.exec_nodeConfiguration n)
    ((op.exec_touched n).keys_eq hcString fun a ha => by rwa [ha])
    fun p hfind => loadSynchronized_exec hp hs hfind op

end Other

end BlockchainMessaging
