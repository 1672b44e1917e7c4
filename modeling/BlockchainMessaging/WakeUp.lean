import BlockchainMessaging.SingleNode

/-!
# Lost wake-ups

The handler of a message changes the table, checks a predicate, stores the flag and calls
`notify_all`, all without the mutex under which the slot thread evaluates its own predicate
and goes to sleep.  So the whole handler may run between the evaluation and the sleep, and
the thread sleeps with its predicate true and nobody left to wake it.

This window is the only way to lose a wake-up.  As long as no `notify_all` falls into it, a
thread that sleeps, or is about to, with a predicate that has become true still has its
notification before it: the handler that made it true is past the update, and the check
that decides about the notification will succeed.

## Main definitions

* `Node.notifyToCome` — the handler is going to notify.
* `OutsideWindow` — the condition on a step.
* `notifyToCome_of_reaches` — no lost wake-up.
-/

namespace BlockchainMessaging

open ConsensusStorage

/-- The handler is past its updates, except for `marAsResolved`, and is going to notify the
slot thread of its own slot: no check is left, or the one that is left succeeds. -/
def Node.notifyToCome (n : Node) : Bool :=
  decide (n.header.slot = n.context.header.slot) &&
    match n.todo with
    | [.notifyAll] => true
    | [.storeSynchronized, .notifyAll] => true
    | [.marAsResolved, .storeSynchronized, .notifyAll] => true
    | [.areAllContributorsConfirmed, .storeSynchronized, .notifyAll] =>
        decide ((n.storage.areAllContributorsConfirmed n.header.slot).1 = some true)
    | [.areAllElectionValuesPresent, .storeSynchronized, .notifyAll] =>
        decide ((n.storage.areAllElectionValuesPresent n.header.slot).1 = some true)
    | [.isAllContributorsDataCollected, .storeSynchronized, .notifyAll] =>
        decide ((n.storage.isAllContributorsDataCollected n.header.slot).1 = some true)
    | _ => false

/-- No `notify_all` between the evaluation of a predicate and the sleep. -/
def OutsideWindow (n : Node) : NodeAction → Prop
  | .handle => n.todo.head? = some .notifyAll → ∀ w, n.pc ≠ .wait w .window
  | _ => True

instance (n : Node) (a : NodeAction) : Decidable (OutsideWindow n a) := by
  unfold OutsideWindow
  split
  · have : Decidable (∀ w, n.pc ≠ .wait w .window) :=
      decidable_of_iff (∀ w ∈ [Waiter.inspection, .election, .contributorsData, .broadcast],
        n.pc ≠ .wait w .window) ⟨fun h w => h w (by cases w <;> simp), fun h w _ => h w⟩
    infer_instance
  · infer_instance

/-- The slot thread holds a synchronization context that it will use. -/
def SlotPc.synced : SlotPc → Bool
  | .wait _ .enter => false
  | .wait _ _ => true
  | .electPresent => true
  | .electUnique => true
  | .electRecheck => true
  | .electRemoveDuplicates => true
  | .electReset => true
  | .voteFill true => true
  | .votePublish true => true
  | .awaitResolved => true
  | _ => false

theorem SlotPc.synced_of_next {pc pc' : SlotPc} (h : pc' ∈ pc.next) (hs : pc'.synced = true) :
    pc.synced = true ∨ ∃ w, pc = .wait w .enter := by
  have hall : ∀ pc : SlotPc, ∀ pc' ∈ pc.next, pc'.synced = true → pc.synced = true ∨
      pc ∈ [SlotPc.wait .inspection .enter, .wait .election .enter,
        .wait .contributorsData .enter, .wait .broadcast .enter] := by decide +kernel
  refine (hall pc pc' h hs).imp_right fun hmem => ?_
  simp only [List.mem_cons, List.not_mem_nil, or_false] at hmem
  rcases hmem with rfl | rfl | rfl | rfl <;> exact ⟨_, rfl⟩

/-- Where the slot thread uses a synchronization context, it is the one of its slot. -/
def Node.Synced (n : Node) : Prop :=
  n.pc.synced = true → ∃ p, n.sync = some p ∧
    n.storage.conditions.find n.context.header.slot = some (some p)

section Synced

variable {E : SlotEnv} {n : Node}

/-- Whoever starts to hold a synchronization context got it from the storage. -/
private theorem sync_of_enter {w : Waiter} (hpc : n.pc = .wait w .enter)
    (hs : (slotMove E n).1.pc.synced = true) :
    ∃ p, (slotMove E n).1.sync = some p ∧
      (slotMove E n).1.storage.conditions.find n.context.header.slot = some (some p) := by
  have hget : ∀ pc, (n.getContext pc).pc.synced = true →
      ∃ p, (n.getContext pc).sync = some p ∧
        (n.getContext pc).storage.conditions.find n.context.header.slot = some (some p) := by
    intro pc hs
    rw [n.getContext_eq] at hs ⊢
    cases hr : (n.storage.getSlotSynchronizationContext n.context.header.slot).1 with
    | none =>
      simp only [hr, hpc] at hs
      cases hs
    | some p =>
      refine ⟨p, by simp [hr], ?_⟩
      have hfind : n.storage.conditions.find n.context.header.slot = some (some p) := by
        rw [getSlotSynchronizationContext_fst] at hr
        simpa [Option.join_eq_some_iff] using hr
      simp [find_getSlotSynchronizationContext, hfind]
  simp only [slotMove, hpc] at hs ⊢
  cases w with
  | inspection | election => exact hget _ hs
  | contributorsData | broadcast =>
    simp only [waitMove] at hs ⊢
    split at hs
    · next hv =>
      first
        | (rw [if_pos hv]; exact hget _ hs)
        | cases hs
    · next hv =>
      first
        | (rw [if_neg hv]; exact hget _ hs)
        | cases hs

theorem Node.Synced.slotMove (hi : n.Synced) : (slotMove E n).1.Synced := by
  intro hs
  have hcases : n.pc.synced = true ∨ ∃ w, n.pc = .wait w .enter := by
    rcases slotMove_next E n with hsame | hnext
    · exact .inl (hsame ▸ hs)
    · exact SlotPc.synced_of_next hnext hs
  have hslot : (BlockchainMessaging.slotMove E n).1.context.header.slot =
      n.context.header.slot := by
    rw [slotMove_context]
    refine slotContext_header_slot E fun hsave => ?_
    rw [hsave] at hcases
    rcases hcases with h | ⟨w, h⟩ <;> cases h
  rw [hslot]
  by_cases henter : ∃ w, n.pc = .wait w .enter
  · obtain ⟨w, hw⟩ := henter
    exact sync_of_enter hw hs
  · rcases hcases with hsynced | h
    · obtain ⟨p, hp, hfind⟩ := hi hsynced
      refine ⟨p, ?_, slotMove_find ?_ hfind⟩
      · rw [slotMove_sync E fun w hw => henter ⟨w, hw⟩, hp]
      · intro hclear
        rw [hclear] at hsynced
        cases hsynced
    · exact absurd h henter

theorem Node.Synced.handle (hi : n.Synced) (op : HandlerOp) (rest : List HandlerOp) :
    (op.exec { n with todo := rest }).Synced := by
  intro hs
  have hs' : n.pc.synced = true := by
    rcases op.exec_pc { n with todo := rest } with hpc | ⟨w, hpc, hpc'⟩
    · rwa [hpc] at hs
    · rw [show n.pc = _ from hpc]
      rfl
  obtain ⟨p, hp, hfind⟩ := hi hs'
  exact ⟨p, by simpa using hp, by
    rw [HandlerOp.exec_context]
    exact HandlerOp.exec_find hfind⟩

end Synced

/-- Who sleeps, or is about to, while what it waits for is there, will be notified. -/
structure SleepInv (n : Node) : Prop where
  pointers : n.storage.PointersOk
  scripted : Scripted n.todo
  sync : n.pc.synced = true → ∃ p, n.sync = some p ∧
    n.storage.conditions.find n.context.header.slot = some (some p)
  awake : ∀ w, n.pc = .wait w .window ∨ n.pc = .wait w .asleep → w.ready n = true →
    n.notifyToCome = true

/-! ## What the predicates depend on -/

section Ready

variable {n : Node}

theorem ready_inspection : Waiter.inspection.ready n = true ↔
    ∀ a ∈ n.storage.contexts.keys,
      (n.storage.context a n.context.header.slot).isContributing.isSome := by
  simp [Waiter.ready, Waiter.predicate, areAllContributorsConfirmed_eq_true]

theorem ready_election : Waiter.election.ready n = true ↔
    ∀ a ∈ n.storage.contexts.keys,
      0 < (n.storage.context a n.context.header.slot).electionValue := by
  simp [Waiter.ready, Waiter.predicate, areAllElectionValuesPresent_eq_true]

theorem ready_contributorsData : Waiter.contributorsData.ready n = true ↔
    ∀ a ∈ n.storage.contexts.keys,
      (n.storage.context a n.context.header.slot).isContributing = some false ∨
        ((n.storage.context a n.context.header.slot).isContributing = some true ∧
          (n.storage.context a n.context.header.slot).block.data ≠ []) := by
  exact decide_eq_true_iff.trans (isAllContributorsDataCollected_eq_true _ _)

theorem ready_broadcast : Waiter.broadcast.ready n = true ↔
    n.sync.any n.storage.loadSynchronized = true ∧
      (n.storage.context n.context.validator n.context.header.slot).isResolved = true := by
  simp [Waiter.ready, Waiter.predicate, isResolved]

/-- The call can make the predicate of the wait true. -/
def HandlerOp.concerns : HandlerOp → Waiter → Bool
  | .setContribution _, .inspection => true
  | .setContribution _, .contributorsData => true
  | .fillElectionValue _, .election => true
  | .addBlock _, .contributorsData => true
  | .marAsResolved, .broadcast => true
  | .storeSynchronized, .broadcast => true
  | _, _ => false

theorem isCheck_of_concerns {op : HandlerOp} {w : Waiter} (h : op.concerns w = true) :
    op.isCheck = false := by
  cases op <;> cases w <;> first | rfl | cases h

/-- A call that does not concern the wait, or is for another slot, does not store the flag of
the context that the slot thread holds. -/
private theorem any_load_of_exec {op : HandlerOp} (hp : n.storage.PointersOk) {p : ℕ}
    (hfind : n.storage.conditions.find n.context.header.slot = some (some p))
    (h : op.concerns .broadcast = false ∨ n.header.slot ≠ n.context.header.slot) :
    (op.exec n).storage.loadSynchronized p = n.storage.loadSynchronized p := by
  have hlt := hp.lt _ _ hfind
  rcases op.exec_rest n with hr | ⟨-, hr⟩ | ⟨rfl, q, hq, hr⟩ | ⟨-, hr⟩
  · simp [loadSynchronized, (rest_eq hr).2.1]
  · rw [hr, ConsensusStorage.initConditions]
    split
    · rfl
    · simp [loadSynchronized, List.getElem?_append_left hlt]
  · rcases h with h | hne
    · cases h
    · have hqp : q ≠ p := by
        rintro rfl
        exact hne (hp.inj _ _ _ hq hfind)
      simp [hr, loadSynchronized, ConsensusStorage.storeSynchronized, List.getElem?_set_ne hqp]
  · rw [hr, getSlotSynchronizationContext]
    split <;> rfl

/-- **Only a call that concerns the wait, for its slot, makes its predicate true.** -/
theorem ready_of_exec {op : HandlerOp} {w : Waiter} (hp : n.storage.PointersOk)
    (hsync : ∃ p, n.sync = some p ∧
      n.storage.conditions.find n.context.header.slot = some (some p))
    (h : op.concerns w = false ∨ n.header.slot ≠ n.context.header.slot)
    (hr : w.ready (op.exec n) = true) : w.ready n = true := by
  have hkeys := (op.exec_touched n).subset_keys
  cases w with
  | inspection =>
    rw [ready_inspection] at hr ⊢
    intro a ha
    have hfield := op.exec_field n ConsensusContext.isContributing
      (h.imp_left fun hc node c => by cases op <;> first | rfl | cases hc) a
    simpa [hfield] using hr a (hkeys ha)
  | election =>
    rw [ready_election] at hr ⊢
    intro a ha
    have hfield := op.exec_field n ConsensusContext.electionValue
      (h.imp_left fun hc node c => by cases op <;> first | rfl | cases hc) a
    simpa [hfield] using hr a (hkeys ha)
  | contributorsData =>
    rw [ready_contributorsData] at hr ⊢
    intro a ha
    have hfield := op.exec_field n
      (fun c => (c.isContributing, c.block))
      (h.imp_left fun hc node c => by cases op <;> first | rfl | cases hc) a
    simp only [Prod.mk.injEq] at hfield
    simpa [hfield] using hr a (hkeys ha)
  | broadcast =>
    rw [ready_broadcast] at hr ⊢
    obtain ⟨p, hn, hfind⟩ := hsync
    have hload := any_load_of_exec hp hfind h
    have hfield := op.exec_field n ConsensusContext.isResolved
      (h.imp_left fun hc node c => by cases op <;> first | rfl | cases hc) n.context.validator
    simpa [hn, hload, hfield] using hr

end Ready

/-! ## The invariant is kept -/

section Step

variable {E : SlotEnv} {n n' : Node}

/-- A call that concerns the wait leaves only the notification to be made. -/
private theorem notifyToCome_of_concerns {op : HandlerOp} {rest : List HandlerOp} {w : Waiter}
    (hscript : Scripted (op :: rest)) (hc : op.concerns w = true) (htodo : n.todo = rest)
    (hslot : n.header.slot = n.context.header.slot) (hr : w.ready n = true) :
    n.notifyToCome = true := by
  have hflags : w = .inspection ∨ w = .contributorsData →
      (n.storage.areAllContributorsConfirmed n.context.header.slot).1 = some true := by
    intro hw
    rw [areAllContributorsConfirmed_eq_true]
    rcases hw with rfl | rfl
    · exact ready_inspection.1 hr
    · intro a ha
      rcases ready_contributorsData.1 hr a ha with h | ⟨h, -⟩ <;> simp [h]
  cases op <;> cases w <;> simp only [HandlerOp.concerns, Bool.false_eq_true] at hc
  all_goals simp only [Scripted, HandlerOp.Before] at hscript
  case setContribution.inspection | setContribution.contributorsData =>
    subst hscript
    simp [Node.notifyToCome, htodo, hslot, hflags]
  case fillElectionValue.election =>
    subst hscript
    have := ready_election.1 hr
    simpa [Node.notifyToCome, htodo, hslot, areAllElectionValuesPresent_eq_true] using this
  case addBlock.contributorsData =>
    have := (isAllContributorsDataCollected_eq_true _ _).2 (ready_contributorsData.1 hr)
    rcases hscript with rfl | rfl <;> simp [Node.notifyToCome, htodo, hslot, this]
  case marAsResolved.broadcast | storeSynchronized.broadcast =>
    subst hscript
    simp [Node.notifyToCome, htodo, hslot]

/-- A handler that is going to notify still is after its next call, unless this call was the
notification. -/
private theorem notifyToCome_next {op : HandlerOp} {rest : List HandlerOp}
    (h : n.notifyToCome = true) (htodo : n.todo = op :: rest) :
    op = .notifyAll ∨ (op.exec { n with todo := rest }).notifyToCome = true := by
  simp only [Node.notifyToCome, htodo, Bool.and_eq_true, decide_eq_true_eq] at h
  obtain ⟨hslot, h⟩ := h
  have hnext : ∀ m : Node, m.header = n.header → m.context = n.context →
      (m.todo = [.notifyAll] ∨ m.todo = [.storeSynchronized, .notifyAll]) →
      m.notifyToCome = true := by
    intro m hheader hcontext hm
    rcases hm with hm | hm <;> simp [Node.notifyToCome, hm, hheader, hcontext, hslot]
  have hcheck : ∀ q : Option Bool × ConsensusStorage, q.1 = some true →
      (({ n with todo := [.storeSynchronized, .notifyAll] } : Node).check q).notifyToCome =
        true := by
    intro q hq
    rw [Node.check_eq]
    exact hnext _ rfl rfl (.inr (by simp [hq]))
  split at h
  · next heq =>
    cases heq
    exact .inl rfl
  · next heq =>
    cases heq
    refine .inr (hnext _ (by simp) (by simp) (.inl ?_))
    rcases HandlerOp.exec_todo .storeSynchronized { n with todo := [.notifyAll] } with ht | ⟨hc, -⟩
    · simpa using ht
    · cases hc
  · next heq =>
    cases heq
    exact .inr (hnext _ rfl rfl (.inr rfl))
  all_goals first | cases h | skip
  all_goals
    next heq =>
    cases heq
    exact .inr (hcheck _ (by simpa using h))

/-- The consensus thread keeps the invariant, unless it notifies into the window. -/
theorem SleepInv.handle (hi : SleepInv n) {op : HandlerOp} {rest : List HandlerOp}
    (htodo : n.todo = op :: rest) (hok : op = .notifyAll → ∀ w, n.pc ≠ .wait w .window) :
    SleepInv (op.exec { n with todo := rest }) := by
  have hscripted := hi.scripted
  rw [htodo] at hscripted
  have hsynced : n.pc.synced = true → ∃ p, n.sync = some p ∧
      n.storage.conditions.find n.context.header.slot = some (some p) := hi.sync
  constructor
  case pointers => exact HandlerOp.exec_pointersOk hi.pointers
  case scripted =>
    rcases op.exec_todo { n with todo := rest } with ht | ⟨-, ht⟩
    · rw [ht]
      exact hscripted.tail
    · rw [ht]
      trivial
  case sync => exact Node.Synced.handle hi.sync op rest
  case awake =>
    intro w hpc hr
    -- A thread that was woken is in neither place.
    have hsame : (op.exec { n with todo := rest }).pc = n.pc := by
      rcases op.exec_pc { n with todo := rest } with hsame | ⟨w', -, hpc'⟩
      · exact hsame
      · rw [hpc'] at hpc
        rcases hpc with hpc | hpc <;> simp at hpc
    rw [hsame] at hpc
    obtain ⟨p, hp, hfind⟩ := hsynced (by rcases hpc with hpc | hpc <;> rw [hpc] <;> rfl)
    by_cases hc : op.concerns w = true ∧ n.header.slot = n.context.header.slot
    · rcases op.exec_todo { n with todo := rest } with ht | ⟨hcheck, -⟩
      · exact notifyToCome_of_concerns hscripted hc.1 ht (by simpa using hc.2) hr
      · rw [isCheck_of_concerns hc.1] at hcheck
        cases hcheck
    · have hready : w.ready { n with todo := rest } = true := by
        refine ready_of_exec hi.pointers ⟨p, hp, hfind⟩ ?_ hr
        by_cases hslot : n.header.slot = n.context.header.slot
        · exact .inl (by simpa [hslot] using hc)
        · exact .inr hslot
      have hcome := hi.awake w hpc (by cases w <;> exact hready)
      rcases notifyToCome_next hcome htodo with rfl | hnext
      · -- The notification finds the thread asleep and wakes it.
        rcases hpc with hpc | hpc
        · exact absurd hpc (hok rfl w)
        · have hslot : n.header.slot = n.context.header.slot := by
            simp only [Node.notifyToCome, Bool.and_eq_true, decide_eq_true_eq] at hcome
            exact hcome.1
          have hwoken : (HandlerOp.exec .notifyAll { n with todo := rest }).pc = .wait w .eval := by
            simp [HandlerOp.exec, getSlotSynchronizationContext, hslot, hfind, hp, Node.wake, hpc]
          rw [hwoken, hpc] at hsame
          cases hsame
      · exact hnext

theorem window_of_next {pc : SlotPc} {w : Waiter} (h : .wait w .window ∈ pc.next) :
    pc = .wait w .eval ∨ pc = .awaitResolved ∧ w = .broadcast := by
  cases w <;> revert pc <;> decide +kernel

theorem asleep_of_next {pc : SlotPc} {w : Waiter} (h : .wait w .asleep ∈ pc.next)
    (hb : pc.blocked = false) : pc = .wait w .window := by
  cases w <;> revert pc <;> decide +kernel

/-- Where the slot thread gives up on a predicate, the predicate is false. -/
private theorem not_ready_of_window {w : Waiter} (hpc : n.pc ≠ .wait w .window)
    (hpc' : (slotMove E n).1.pc = .wait w .window) : w.ready (slotMove E n).1 = false := by
  have hask : ∀ yes, yes ≠ .wait w .window →
      (n.ask (w.predicate n) yes (.wait w .window)).pc = .wait w .window →
      w.ready (n.ask (w.predicate n) yes (.wait w .window)) = false := by
    intro yes hyes hwindow
    have hfalse : (w.predicate n).1 = some false := by
      rw [Node.ask_eq] at hwindow
      cases hq : (w.predicate n).1 with
      | none => exact absurd (by simpa [hq] using hwindow) hpc
      | some b =>
        cases b with
        | false => rfl
        | true => exact absurd (by simpa [hq] using hwindow) hyes
    have hagain := w.predicate_ask n yes (.wait w .window)
    cases w <;> simp [Waiter.ready, hagain, hfalse]
  rcases slotMove_next E n with hsame | hnext
  · exact absurd (hsame ▸ hpc') hpc
  · rw [hpc'] at hnext
    rcases window_of_next hnext with heval | ⟨hawait, rfl⟩
    · simp only [slotMove, heval] at hpc' ⊢
      cases w with
      | inspection | election | contributorsData =>
        exact hask _ (by simp [Waiter.done]) hpc'
      | broadcast =>
        simp only [waitMove] at hpc' ⊢
        cases hsync : n.sync with
        | none =>
          simp only [hsync] at hpc' ⊢
          exact hask _ (by simp [Waiter.done]) hpc'
        | some p =>
          simp only [hsync] at hpc' ⊢
          split at hpc'
          · cases hpc'
          · next hload => simp [hload, Waiter.ready]
    · simp only [slotMove, hawait] at hpc' ⊢
      exact hask _ (by simp) hpc'

/-- The slot thread keeps the invariant. -/
theorem SleepInv.slot (hi : SleepInv n) (hb : n.pc.blocked = false) :
    SleepInv (slotMove E n).1 := by
  have hframe := slotMove_frame E n
  constructor
  case pointers => exact slotMove_pointersOk hi.pointers
  case scripted => rw [hframe.1]; exact hi.scripted
  case sync => exact Node.Synced.slotMove hi.sync
  case awake =>
    intro w hpc hr
    by_cases hwindow : n.pc = .wait w .window
    · -- The thread falls asleep; nothing else changes.
      have hmove : (slotMove E n).1 = { n with pc := .wait w .asleep } := by
        simp [slotMove, hwindow, waitMove]
      rw [hmove] at hr ⊢
      exact hi.awake w (.inl hwindow) (by cases w <;> exact hr)
    · rcases hpc with hpc | hpc
      · rw [not_ready_of_window hwindow hpc] at hr
        cases hr
      · rcases slotMove_next E n with hsame | hnext
        · rw [← hsame, hpc] at hb
          cases hb
        · rw [hpc] at hnext
          exact absurd (asleep_of_next hnext hb) hwindow

end Step

/-- **One step keeps the invariant**, if it does not notify into the window. -/
theorem SleepInv.step {E : SlotEnv} {n n' : Node} {a : NodeAction} (hi : SleepInv n)
    (hok : OutsideWindow n a) (hstep : nodeStep E n a = some n') : SleepInv n' := by
  cases a with
  | slot =>
    obtain ⟨r, hr, rfl⟩ := Option.map_eq_some_iff.1 hstep
    obtain ⟨-, hb, rfl⟩ := slotStep_eq_some hr
    exact hi.slot hb
  | wake =>
    obtain ⟨-, w, hw, rfl⟩ := wakeStep_eq_some hstep
    exact ⟨hi.pointers, hi.scripted, fun _ => hi.sync (by rw [hw]; rfl), by simp⟩
  | handle =>
    obtain ⟨-, op, rest, htodo, rfl⟩ := handlerStep_eq_some hstep
    exact hi.handle htodo (by simpa [OutsideWindow, htodo] using hok)
  | receive m =>
    obtain ⟨-, htodo, hm⟩ := receiveStep_eq_some hstep
    -- An idle handler is not going to notify, so nothing the thread waits for is there.
    have hnot : ∀ w, n.pc = .wait w .window ∨ n.pc = .wait w .asleep → w.ready n = false := by
      intro w hpc
      by_contra hr
      have := hi.awake w hpc (by simpa using hr)
      simp [Node.notifyToCome, htodo] at this
    cases hscript : handlerScript m with
    | none =>
      simp only [hscript] at hm
      subst hm
      exact ⟨hi.pointers, hi.scripted, hi.sync, hi.awake⟩
    | some todo =>
      simp only [hscript] at hm
      subst hm
      refine ⟨hi.pointers, scripted_handlerScript hscript, hi.sync, fun w hpc hr => ?_⟩
      have := hnot w hpc
      rw [show w.ready n = true by cases w <;> exact hr] at this
      cases this

/-- The init callback has not run, and the handler is idle. -/
structure Unstarted (n : Node) : Prop where
  pc : n.pc = .initConditions
  todo : n.todo = []
  pointers : n.storage.PointersOk

/-- **No lost wake-up**, in every run without a `notify_all` between the evaluation of a
predicate and the sleep: if the slot thread sleeps and what it waits for is there, the
handler is going to notify it. -/
theorem notifyToCome_of_reaches {E : SlotEnv} {n₀ n : Node} (h₀ : Unstarted n₀)
    (hr : Reaches (nodeStep E) OutsideWindow n₀ n) {w : Waiter} (hpc : n.pc = .wait w .asleep)
    (hready : w.ready n = true) : n.notifyToCome = true := by
  have hinit : SleepInv n₀ := by
    refine ⟨h₀.pointers, by rw [h₀.todo]; trivial, fun hs => ?_, fun w hpc => ?_⟩
    · rw [h₀.pc] at hs
      cases hs
    · rw [h₀.pc] at hpc
      rcases hpc with hpc | hpc <;> cases hpc
  exact (hr.invariant hinit fun _ _ _ hi hok hstep => hi.step hok hstep).awake w (.inr hpc) hready

/-- The node `a` before the tick. -/
def receiverUnstarted : Node := { storage := emptyStorage receiver, chain := [] }

theorem unstarted_receiver : Unstarted receiverUnstarted :=
  ⟨rfl, rfl, fun _ _ h => (by cases h), fun _ _ _ h => (by cases h)⟩

/-- The contribution of `b`. -/
def contributionOfB : ConsensusMessage :=
  plainMessage .INSPECTION "b" 2 (.contribution true)

set_option maxRecDepth 4000 in
/-- The last flag reaches a thread that sleeps: the notification is still to come. -/
theorem notifyToCome_receiver :
    ∃ n : Node, n.pc = .wait .inspection .asleep ∧ Waiter.inspection.ready n = true ∧
      n.notifyToCome = true := by
  obtain ⟨n, hr, h⟩ := exists_reaches (nodeStep receiver) OutsideWindow receiverUnstarted
    (List.replicate 12 .slot ++ .receive contributionOfB :: List.replicate 3 .handle)
    (fun n => n.pc = .wait .inspection .asleep ∧ Waiter.inspection.ready n = true)
    (by decide +kernel)
  simp only [decide_eq_true_eq] at h
  exact ⟨n, h.1, h.2, notifyToCome_of_reaches unstarted_receiver hr h.1 h.2⟩

set_option maxRecDepth 4000 in
/-- The whole handler runs between the evaluation of the predicate and the sleep: the thread
sleeps, the last flag is there, and the handler is idle. -/
theorem not_notifyToCome_receiver :
    ¬ ∀ n : Node, Reachable (nodeStep receiver) receiverUnstarted n →
      ¬ ∃ w : Waiter, n.pc = .wait w .asleep ∧ w.ready n = true ∧ n.todo = [] := by
  intro hall
  obtain ⟨n, hr, h⟩ := exists_reaches (nodeStep receiver) (fun _ _ => True) receiverUnstarted
    (List.replicate 11 .slot ++ .receive contributionOfB :: List.replicate 6 .handle ++ [.slot])
    (fun n => n.pc = .wait .inspection .asleep ∧ Waiter.inspection.ready n = true ∧ n.todo = [])
    (by decide +kernel)
  exact hall n hr ⟨.inspection, by simpa using h⟩

end BlockchainMessaging
