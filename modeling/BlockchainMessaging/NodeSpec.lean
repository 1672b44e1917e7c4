import BlockchainMessaging.SlotHandler
import BlockchainMessaging.StorageSpec
import BlockchainMessaging.Touched

/-!
# What the calls of the slot thread do

One specification for the calls of the slot thread, so that no invariant has to look into
them again.  What a call does to the entries of the slot is `slotEffect`, a function of the
entry; most calls leave the entries alone.

## Main definitions

* `slotEffect`, `slotMove_table` — the slot thread and the table.
* `SlotPc.next` — where the slot thread can go from where it is.
-/

namespace BlockchainMessaging

open ConsensusStorage

/-! ## Pieces of a step -/

section Pieces

variable (n : Node) (q : Option Bool × ConsensusStorage) (yes no pc : SlotPc)

/-- `ask` changes the storage, the place in the code and, when it throws, the failure. -/
theorem Node.ask_eq : n.ask q yes no = { n with
    storage := q.2
    pc := match q.1 with
      | some true => yes
      | some false => no
      | none => n.pc
    failure := match q.1 with
      | none => some .badOptional
      | _ => n.failure } := by
  rw [Node.ask]
  rcases q with ⟨_ | _ | _, st⟩ <;> rfl

/-- `getContext` changes the storage, the pointer, the place in the code and, when the
pointer is null, the failure. -/
theorem Node.getContext_eq :
    n.getContext pc =
      let r := n.storage.getSlotSynchronizationContext n.context.header.slot
      { n with
        storage := r.2
        sync := if r.1.isSome then r.1 else n.sync
        pc := if r.1.isSome then pc else n.pc
        failure := if r.1.isSome then n.failure else some .nullContext } := by
  rw [Node.getContext]
  rcases n.storage.getSlotSynchronizationContext n.context.header.slot with ⟨_ | p, st⟩ <;> rfl

/-- `check` changes the storage, the calls to be made and, when it throws, the failure. -/
theorem Node.check_eq : n.check q = { n with
    storage := q.2
    todo := if q.1 = some false then [] else n.todo
    failure := match q.1 with
      | none => some .badOptional
      | _ => n.failure } := by
  rw [Node.check]
  rcases q with ⟨_ | _ | _, st⟩ <;> rfl

end Pieces

@[simp] theorem Node.context_resetSynchronized (n : Node) (pc : SlotPc) (a : String) (s : ℕ) :
    (n.resetSynchronized pc).storage.context a s = n.storage.context a s := by
  rw [Node.resetSynchronized]
  cases n.sync <;> rfl

/-- A wait changes nothing but these five fields. -/
theorem waitMove_frame (w : Waiter) (n : Node) (phase : WaitPhase) :
    ∃ storage sync owned pc failure,
      waitMove w n phase = { n with storage, sync, owned, pc, failure } := by
  have hget : ∀ pc, ∃ storage sync owned pc' failure,
      n.getContext pc = { n with storage, sync, owned, pc := pc', failure } := fun pc =>
    ⟨_, _, _, _, _, n.getContext_eq pc⟩
  have hask : ∀ q yes no, ∃ storage sync owned pc failure,
      n.ask q yes no = { n with storage, sync, owned, pc, failure } := fun q yes no =>
    ⟨_, _, _, _, _, n.ask_eq q yes no⟩
  have hkeep : ∀ owned pc failure, ∃ storage sync owned' pc' failure',
      ({ n with owned, pc, failure } : Node) =
        { n with storage, sync, owned := owned', pc := pc', failure := failure' } :=
    fun _ _ _ => ⟨_, _, _, _, _, rfl⟩
  cases phase with
  | enter =>
    cases w with
    | inspection | election => exact hget _
    | contributorsData | broadcast =>
      simp only [waitMove]
      split
      · first | exact hget _ | exact hkeep _ _ _
      · first | exact hget _ | exact hkeep _ _ _
  | early => exact hask _ _ _
  | lock =>
    simp only [waitMove]
    split
    · exact hkeep _ _ _
    · exact hkeep _ _ _
  | eval =>
    simp only [waitMove]
    split
    · split
      · exact hkeep _ _ _
      · exact hkeep _ _ _
    · exact hask _ _ _
  | window | asleep => exact hkeep _ _ _

theorem Waiter.table_predicate (w : Waiter) (n : Node) (a : String) (s : ℕ) :
    (w.predicate n).2.context a s = n.storage.context a s := by
  cases w with
  | inspection => exact (untouched_areAllContributorsConfirmed _ _).context a s
  | election => exact (untouched_areAllElectionValuesPresent _ _).context a s
  | contributorsData => exact (untouched_isAllContributorsDataCollected _ _).context a s
  | broadcast => exact context_access _ _ _ _ _

/-- What a sleeping thread waits for. -/
def Waiter.ready (w : Waiter) (n : Node) : Bool :=
  match w with
  | .broadcast => n.sync.any n.storage.loadSynchronized && decide ((w.predicate n).1 = some true)
  | _ => decide ((w.predicate n).1 = some true)

/-- Evaluating a predicate does not change it. -/
theorem Waiter.predicate_congr {w : Waiter} {n n' : Node} (hcontext : n'.context = n.context)
    (hkeys : w ≠ .broadcast → n'.storage.contexts.keys = n.storage.contexts.keys)
    (htable : ∀ a s, n'.storage.context a s = n.storage.context a s) :
    (w.predicate n').1 = (w.predicate n).1 := by
  cases w with
  | broadcast => simp [predicate, isResolved, hcontext, htable]
  | inspection | election | contributorsData =>
    simp only [predicate, areAllContributorsConfirmed, areAllElectionValuesPresent,
      isAllContributorsDataCollected, hcontext, hkeys (by simp)]
    exact allOf_congr _ _ _ _ fun a _ => htable a _

/-- A wait leaves every entry alone. -/
theorem waitMove_table (w : Waiter) (n : Node) (phase : WaitPhase) (a : String) (s : ℕ) :
    (waitMove w n phase).storage.context a s = n.storage.context a s := by
  have hget : ∀ pc, (n.getContext pc).storage.context a s = n.storage.context a s := by
    intro pc
    rw [n.getContext_eq]
    exact context_getSlotSynchronizationContext _ _ _ _
  have hask : ∀ yes no, (n.ask (w.predicate n) yes no).storage.context a s =
      n.storage.context a s := by
    intro yes no
    rw [n.ask_eq]
    exact w.table_predicate n a s
  cases phase with
  | enter =>
    cases w with
    | inspection | election => exact hget _
    | contributorsData | broadcast =>
      simp only [waitMove]
      split
      · first | exact hget _ | rfl
      · first | exact hget _ | rfl
  | early => exact hask _ _
  | lock =>
    simp only [waitMove]
    split <;> rfl
  | eval =>
    simp only [waitMove]
    split
    · split <;> rfl
    · exact hask _ _
  | window | asleep => rfl

/-! ## The slot thread -/

/-- The slot whose entries the next call works on. -/
def Node.workSlot (n : Node) : ℕ :=
  match n.pc with
  | .saveBlock => n.context.block.slot
  | _ => n.context.header.slot

/-- What the next call of the slot thread does to the entry `c` of `a` in its slot. -/
def slotEffect (E : SlotEnv) (n : Node) (a : String) (c : ConsensusContext) :
    ConsensusContext :=
  let slot := n.context.header.slot
  match n.pc with
  | .saveBlock | .relayBlock => if a = E.self then { c with block := n.context.block } else c
  | .notifyContext =>
      if a = n.context.header.address then { c with node := n.context.header.node } else c
  | .notifyContribution =>
      if a = E.self then { c with isContributing := some n.context.isContributing } else c
  | .voteFill _ => if a = E.self then { c with electionValue := E.draw n.draws } else c
  | .electRemoveDuplicates =>
      if a ∈ n.storage.contexts.keys then { c with electionValue := 0 } else c
  | .nominate =>
      if (n.storage.electedValidator slot).map cStr = some a then
        { c with isValidator := true } else c
  | .relayResolved | .collectResolved =>
      if a = E.self then { c with isResolved := true } else c
  | .collectMerge =>
      match n.storage.mergeContributors E.order slot with
      | some (b, _) =>
          if (n.storage.markedValidator slot).map cStr = some a then { c with block := b } else c
      | none => c
  | .completeClear => .fresh (n.storage.stamp a slot 1)
  | _ => c

/-- **The slot thread and the table.** -/
theorem slotMove_table (E : SlotEnv) (n : Node) (a : String) (s : ℕ) :
    (slotMove E n).1.storage.context a s =
      if s = n.workSlot then slotEffect E n a (n.storage.context a s)
      else n.storage.context a s := by
  have hif : ∀ (p q : Prop) [Decidable p] [Decidable q] (c c' : ConsensusContext),
      (if p ∧ q then c else c') = if q then if p then c else c' else c' := by
    intro p q _ _ c c'
    by_cases hq : q <;> simp [hq]
  cases hpc : n.pc
  case wait w phase => simp [slotMove, slotEffect, hpc, waitMove_table]
  case saveBlock | notifyContext | notifyContribution | voteFill | relayBlock | relayResolved |
      collectResolved =>
    simp only [slotMove, slotEffect, Node.workSlot, Node.setOperation, hpc, addBlock, addContext,
      setContribution, fillElectionValue, marAsResolved, context_modify, hif]
    split
    · next hs => subst hs; split <;> simp_all
    · rfl
  case removeCheck =>
    simp [slotMove, slotEffect, hpc, Node.ask_eq,
      (untouched_isAnyNodeContributing _ _).context a s]
  case electPresent =>
    simp [slotMove, slotEffect, hpc, Node.ask_eq,
      (untouched_areAllElectionValuesPresent _ _).context a s]
  case awaitResolved =>
    simp [slotMove, slotEffect, hpc, Node.ask_eq, Waiter.table_predicate]
  case removeGet =>
    simp only [slotMove, slotEffect, hpc, ite_self]
    split <;> rfl
  case electUnique =>
    simp only [slotMove, slotEffect, hpc, ite_self]
    split <;> exact context_isElectionValueUnique _ _ _ _ _
  case electRecheck =>
    simp only [slotMove, slotEffect, hpc, ite_self]
    exact context_isElectionValueUnique _ _ _ _ _
  case electRemoveDuplicates =>
    simp only [slotMove, slotEffect, Node.workSlot, hpc, hif,
      context_removeElectionValueDuplicates]
    split
    · next hs => rw [hs]
    · rfl
  case nominate =>
    simp only [slotMove, slotEffect, Node.workSlot, hpc]
    cases hmark : n.storage.markValidator n.context.header.slot with
    | none =>
      have hnone : n.storage.electedValidator n.context.header.slot = none := by
        simpa [markValidator] using hmark
      simp [Node.fail, hnone]
    | some st =>
      simp only [context_markValidator hmark, hif]
      split
      · next hs => rw [hs]
      · rfl
  case relayValidator =>
    simp only [slotMove, slotEffect, hpc, ite_self]
    split <;> simp [Node.setOperation, Node.fail, getValidator]
  case relayPublish =>
    simp only [slotMove, slotEffect, hpc, ite_self]
    split <;> rfl
  case collectMerge =>
    simp only [slotMove, slotEffect, Node.workSlot, hpc]
    cases hmerge : n.storage.mergeContributors E.order n.context.header.slot with
    | none => simp [Node.fail]
    | some r =>
      obtain ⟨b, st⟩ := r
      simp only [context_mergeContributors hmerge, hif]
      split
      · next hs => rw [hs]
      · rfl
  case completeUpdate =>
    simp only [slotMove, slotEffect, hpc, ite_self]
    split <;> rfl
  case completeClear =>
    simp only [slotMove, slotEffect, Node.workSlot, hpc, context_clearSlot]
  all_goals simp [slotMove, slotEffect, hpc, Node.context_resetSynchronized, Node.setOperation,
    getBlock]

/-- Only a nomination marks, and only `clearSlot` removes a mark. -/
theorem slotEffect_isValidator (E : SlotEnv) {n : Node} (h : n.pc ≠ .nominate)
    (h' : n.pc ≠ .completeClear) (a : String) (c : ConsensusContext) :
    (slotEffect E n a c).isValidator = c.isValidator := by
  simp only [slotEffect]
  split <;> first | rfl | contradiction | (split <;> first | rfl | (split <;> rfl))

/-- The marks of a slot after a call that does not touch them. -/
theorem slotMove_isValidator (E : SlotEnv) {n : Node} (h : n.pc ≠ .nominate)
    (h' : n.pc ≠ .completeClear) (a : String) (s : ℕ) :
    ((slotMove E n).1.storage.context a s).isValidator =
      (n.storage.context a s).isValidator := by
  rw [slotMove_table]
  split
  · exact slotEffect_isValidator E h h' a _
  · rfl

/-- Only `setContribution` changes a flag, and only `clearSlot` removes one. -/
theorem slotMove_isContributing (E : SlotEnv) {n : Node} (h : n.pc ≠ .notifyContribution)
    (h' : n.pc ≠ .completeClear) (a : String) (s : ℕ) :
    ((slotMove E n).1.storage.context a s).isContributing =
      (n.storage.context a s).isContributing := by
  rw [slotMove_table]
  split
  · simp only [slotEffect]
    split <;> first | rfl | contradiction | (split <;> first | rfl | (split <;> rfl))
  · rfl

/-- Only a draw changes an election value, and only these two calls remove one. -/
theorem slotMove_electionValue (E : SlotEnv) {n : Node} (h : ∀ again, n.pc ≠ .voteFill again)
    (h' : n.pc ≠ .electRemoveDuplicates) (h'' : n.pc ≠ .completeClear) (a : String) (s : ℕ) :
    ((slotMove E n).1.storage.context a s).electionValue =
      (n.storage.context a s).electionValue := by
  rw [slotMove_table]
  split
  · simp only [slotEffect]
    split <;> first | rfl | contradiction | (split <;> first | rfl | (split <;> rfl)) | skip
    next again hpc => exact absurd hpc (h again)
  · rfl

/-- The calls that change blocks are `addBlock` and `mergeContributors`. -/
theorem slotMove_block (E : SlotEnv) {n : Node}
    (h : n.pc ∉ [SlotPc.saveBlock, .relayBlock, .collectMerge, .completeClear]) (a : String)
    (s : ℕ) :
    ((slotMove E n).1.storage.context a s).block = (n.storage.context a s).block := by
  simp only [List.mem_cons, List.not_mem_nil, or_false, not_or] at h
  obtain ⟨h₁, h₂, h₃, h₄⟩ := h
  rw [slotMove_table]
  split
  · simp only [slotEffect]
    split <;> first | rfl | contradiction | (split <;> rfl)
  · rfl

/-- The places where the next call may look up the validator's entry by its address. -/
def SlotPc.readsValidator : SlotPc → Bool
  | .wait .broadcast _ => true
  | .awaitResolved => true
  | .awaitBlock => true
  | _ => false

/-- The slot that the next call of the slot thread works on. -/
def Node.touchedSlot (E : SlotEnv) (n : Node) : ℕ :=
  match n.pc with
  | .initConditions | .initContexts => E.slot
  | _ => n.workSlot

/-- The addresses that the next call of the slot thread names. -/
def Node.Names (E : SlotEnv) (n : Node) (a : String) : Prop :=
  a = E.self ∨ a ∈ n.storage.nodeConfiguration.addresses ∨
    n.pc = .notifyContext ∧ a = n.context.header.address ∨
    n.pc.readsValidator = true ∧ a = n.context.validator

theorem Waiter.touched_predicate {A : String → Prop} {w : Waiter} {n : Node}
    (h : w = .broadcast → A n.context.validator) :
    Touched A n.context.header.slot n.storage (w.predicate n).2 := by
  cases w with
  | inspection | election | contributorsData => exact touched_allOf _ _ _ _ _ fun _ ha => ha
  | broadcast => exact touched_write (.inl (h rfl)) _

theorem waitMove_touched {A : String → Prop} {w : Waiter} {n : Node}
    (h : w = .broadcast → A n.context.validator) (phase : WaitPhase) :
    Touched A n.context.header.slot n.storage (waitMove w n phase).storage := by
  have hget : ∀ pc, Touched A n.context.header.slot n.storage (n.getContext pc).storage := by
    intro pc
    rw [n.getContext_eq]
    exact touched_getSlotSynchronizationContext _ _ _
  have hask : ∀ yes no,
      Touched A n.context.header.slot n.storage (n.ask (w.predicate n) yes no).storage := by
    intro yes no
    rw [n.ask_eq]
    exact Waiter.touched_predicate h
  cases phase with
  | enter =>
    cases w with
    | inspection | election => exact hget _
    | contributorsData | broadcast =>
      simp only [waitMove]
      split
      · first | exact hget _ | exact .refl
      · first | exact hget _ | exact .refl
  | early => exact hask _ _
  | lock =>
    simp only [waitMove]
    split <;> exact .refl
  | eval =>
    simp only [waitMove]
    split
    · split <;> exact .refl
    · exact hask _ _
  | window | asleep => exact .refl

theorem Node.touched_resetSynchronized {A : String → Prop} (n : Node) (pc : SlotPc) (s : ℕ) :
    Touched A s n.storage (n.resetSynchronized pc).storage := by
  rw [resetSynchronized]
  cases n.sync with
  | none => exact .refl
  | some p => exact touched_rest rfl rfl fun _ _ => rfl

/-- **What a call of the slot thread touches.** -/
theorem slotMove_touched (E : SlotEnv) (n : Node) :
    Touched (n.Names E) (n.touchedSlot E) n.storage (slotMove E n).1.storage := by
  have hself : n.Names E E.self := .inl rfl
  have hvalidator : n.pc.readsValidator = true → n.Names E n.context.validator :=
    fun h => .inr (.inr (.inr ⟨h, rfl⟩))
  have hconfigured : ∀ a ∈ n.storage.nodeConfiguration.addresses, n.Names E a :=
    fun a ha => .inr (.inl ha)
  cases hpc : n.pc
  case wait w phase =>
    simp only [slotMove, Node.touchedSlot, Node.workSlot, hpc]
    exact waitMove_touched (fun hw => hvalidator (by rw [hpc, hw]; rfl)) phase
  case initConditions =>
    simp only [slotMove, Node.touchedSlot, hpc]
    exact touched_initConditions _ _ _
  case initContexts =>
    simp only [slotMove, Node.touchedSlot, hpc]
    exact touched_foldl_access _ _ _ _ fun a ha => .inl (hconfigured a ha)
  case saveBlock | notifyContribution | voteFill | relayBlock | relayResolved | collectResolved =>
    simp only [slotMove, Node.touchedSlot, Node.workSlot, hpc, Node.setOperation]
    exact touched_write (.inl hself) _
  case notifyContext =>
    simp only [slotMove, Node.touchedSlot, Node.workSlot, hpc]
    exact touched_write (.inl (.inr (.inr (.inl ⟨hpc, rfl⟩)))) _
  case awaitBlock =>
    simp only [slotMove, Node.touchedSlot, Node.workSlot, hpc]
    exact touched_write (.inl (hvalidator (by rw [hpc]; rfl))) _
  case removeCheck =>
    simp only [slotMove, Node.touchedSlot, Node.workSlot, hpc, Node.ask_eq]
    exact touched_anyOf _ _ _ _ _ fun _ ha => ha
  case electPresent =>
    simp only [slotMove, Node.touchedSlot, Node.workSlot, hpc, Node.ask_eq]
    exact touched_allOf _ _ _ _ _ fun _ ha => ha
  case awaitResolved =>
    simp only [slotMove, Node.touchedSlot, Node.workSlot, hpc, Node.ask_eq]
    exact Waiter.touched_predicate fun _ => hvalidator (by rw [hpc]; rfl)
  case removeGet =>
    simp only [slotMove, hpc]
    split <;> exact .refl
  case electUnique =>
    simp only [slotMove, Node.touchedSlot, Node.workSlot, hpc]
    split <;> exact touched_isElectionValueUnique _ _ _ hself
  case electRecheck =>
    simp only [slotMove, Node.touchedSlot, Node.workSlot, hpc]
    exact touched_isElectionValueUnique _ _ _ hself
  case electRemoveDuplicates =>
    simp only [slotMove, Node.touchedSlot, Node.workSlot, hpc]
    exact touched_removeElectionValueDuplicates _ _ _
  case nominate =>
    simp only [slotMove, Node.touchedSlot, Node.workSlot, hpc]
    cases hmark : n.storage.markValidator n.context.header.slot with
    | none => exact .refl
    | some st => exact touched_markValidator _ _ _ hmark
  case relayValidator =>
    simp only [slotMove, Node.touchedSlot, Node.workSlot, hpc]
    split
    · exact touched_accessAll _ _ _
    · exact .refl
  case relayPublish =>
    simp only [slotMove, hpc]
    split <;> exact .refl
  case collectMerge =>
    simp only [slotMove, Node.touchedSlot, Node.workSlot, hpc]
    cases hmerge : n.storage.mergeContributors E.order n.context.header.slot with
    | none => exact .refl
    | some r => exact touched_mergeContributors _ _ _ hmerge
  case completeUpdate =>
    simp only [slotMove, hpc]
    split <;> exact .refl
  case completeClear =>
    simp only [slotMove, Node.touchedSlot, Node.workSlot, hpc]
    exact Touched.refl.clear
  case inspectionReset | electReset | collectReset | awaitReset =>
    simp only [slotMove, hpc]
    exact n.touched_resetSynchronized _ _
  all_goals
    simp only [slotMove, hpc, Node.setOperation]
    exact .refl

theorem Waiter.keys_predicate {w : Waiter} (h : w ≠ .broadcast) (n : Node) :
    (w.predicate n).2.contexts.keys = n.storage.contexts.keys := by
  cases w with
  | inspection => exact (untouched_areAllContributorsConfirmed _ _).keys
  | election => exact (untouched_areAllElectionValuesPresent _ _).keys
  | contributorsData => exact (untouched_isAllContributorsDataCollected _ _).keys
  | broadcast => exact absurd rfl h

/-- The next call of the slot thread only uses addresses that the table holds. -/
structure KnownAddresses (E : SlotEnv) (n : Node) : Prop where
  self : E.self ∈ n.storage.contexts.keys
  configured : ∀ a ∈ n.storage.nodeConfiguration.addresses, a ∈ n.storage.contexts.keys
  cString : ∀ a ∈ n.storage.contexts.keys, cStr a = a
  header : n.pc = .notifyContext → n.context.header.address ∈ n.storage.contexts.keys
  validator : n.pc.readsValidator = true → n.context.validator ∈ n.storage.contexts.keys

/-- A call that only uses addresses of the table adds no key to it. -/
theorem slotMove_keys {E : SlotEnv} {n : Node} (h : KnownAddresses E n) :
    (slotMove E n).1.storage.contexts.keys = n.storage.contexts.keys := by
  refine (slotMove_touched E n).keys_eq h.cString fun a ha => ?_
  rcases ha with rfl | ha | ⟨hpc, rfl⟩ | ⟨hpc, rfl⟩
  · exact h.self
  · exact h.configured a ha
  · exact h.header hpc
  · exact h.validator hpc

/-- What a call of the slot thread outside of the waits makes of a node: apart from six fields,
each field has a call of its own. -/
theorem slotMove_fields (E : SlotEnv) {n : Node} (hn : ¬ ∃ w phase, n.pc = .wait w phase) :
    ∃ storage chain context pc fetched failure, (slotMove E n).1 = { n with
      storage, chain, context, pc, fetched, failure
      owned := match n.pc with
        | .inspectionReset | .electReset | .collectReset | .awaitReset => false
        | .electUnique =>
            if (n.storage.isElectionValueUnique E.self n.context.header.slot).1 then false
            else n.owned
        | _ => n.owned
      electionValue := match n.pc with
        | .voteFill _ => E.draw n.draws
        | _ => n.electionValue
      draws := match n.pc with
        | .voteFill _ => n.draws + 1
        | _ => n.draws
      published := match n.pc with
        | .publishBlock => n.published ++ [n.context.broadcastBlock]
        | _ => n.published } := by
  cases hpc : n.pc
  case wait w phase => exact absurd ⟨w, phase, hpc⟩ hn
  case removeCheck | electPresent | awaitResolved =>
    simp only [slotMove, hpc, Node.ask_eq]
    exact ⟨_, _, _, _, _, _, rfl⟩
  case electUnique | removeGet | relayValidator | relayPublish | completeUpdate =>
    simp only [slotMove, hpc]
    split <;> exact ⟨_, _, _, _, _, _, rfl⟩
  case nominate =>
    simp only [slotMove, hpc]
    cases n.storage.markValidator n.context.header.slot <;> exact ⟨_, _, _, _, _, _, rfl⟩
  case collectMerge =>
    simp only [slotMove, hpc]
    cases n.storage.mergeContributors E.order n.context.header.slot <;>
      exact ⟨_, _, _, _, _, _, rfl⟩
  all_goals
    simp only [slotMove, hpc]
    exact ⟨_, _, _, _, _, _, rfl⟩

/-- The slot thread does not touch what belongs to the consensus thread. -/
theorem slotMove_frame (E : SlotEnv) (n : Node) :
    (slotMove E n).1.todo = n.todo ∧ (slotMove E n).1.header = n.header := by
  by_cases hwait : ∃ w phase, n.pc = .wait w phase
  · obtain ⟨w, phase, hpc⟩ := hwait
    obtain ⟨st, sync, owned, pc, failure, h⟩ := waitMove_frame w n phase
    simp [slotMove, hpc, h]
  · obtain ⟨st, chain, context, pc, fetched, failure, h⟩ := slotMove_fields E hwait
    rw [h]
    exact ⟨rfl, rfl⟩

/-- What the next call of the slot thread makes of the slot context. -/
def slotContext (E : SlotEnv) (n : Node) : SlotContext :=
  let slot := n.context.header.slot
  match n.pc with
  | .saveAdd => { n.context with
      block := E.pendingBlock
      isContributing := E.isContributing
      blockIndex := n.chain.length }
  | .saveBlock =>
      let header : Header :=
        { operation := .INSPECTION
          node := E.configuration.self.name
          address := E.configuration.self.address
          timestamp := n.context.block.timestamp
          slot := n.context.block.slot }
      { n.context with header, serializedHeader := header }
  | .removeDelete => { n.context with shouldCallNextHandler := false }
  | .voteFill _ => (n.setOperation .ELECTION).context
  | .relayValidator =>
      match n.storage.markedValidator slot with
      | some v => { (n.setOperation .UPLOADING).context with
          validator := cStr v
          isValidator := decide (cStr v = E.self) }
      | none => (n.setOperation .UPLOADING).context
  | .collectMerge =>
      match n.storage.mergeContributors E.order slot with
      | some r => { n.context with broadcastBlock := r.1 }
      | none => n.context
  | .broadcast => (n.setOperation .BROADCAST).context
  | .awaitBlock => { n.context with
      broadcastBlock := (n.storage.context n.context.validator slot).block }
  | .completeUpdate =>
      match RedisDB.update E.archive n.context.broadcastBlock n.context.blockIndex n.chain with
      | some _ => { n.context with block := { n.context.block with state := .COMPLETED } }
      | none => n.context
  | _ => n.context

/-- **The slot thread and its context.** -/
theorem slotMove_context (E : SlotEnv) (n : Node) :
    (slotMove E n).1.context = slotContext E n := by
  cases hpc : n.pc
  case wait w phase =>
    obtain ⟨st, sync, owned, pc, failure, h⟩ := waitMove_frame w n phase
    simp [slotMove, slotContext, hpc, h]
  case electUnique | relayPublish =>
    simp only [slotMove, slotContext, hpc]
    split <;> rfl
  case removeGet =>
    simp only [slotMove, slotContext, hpc]
    split <;> rfl
  case nominate =>
    simp only [slotMove, slotContext, hpc]
    cases n.storage.markValidator n.context.header.slot <;> rfl
  case relayValidator =>
    simp only [slotMove, slotContext, hpc]
    have hmarked : (n.setOperation .UPLOADING).storage.getValidator n.context.header.slot =
        ((n.storage.markedValidator n.context.header.slot).map cStr,
          n.storage.accessAll n.context.header.slot) := rfl
    rw [hmarked]
    cases n.storage.markedValidator n.context.header.slot <;> rfl
  case collectMerge =>
    simp only [slotMove, slotContext, hpc]
    cases n.storage.mergeContributors E.order n.context.header.slot <;> rfl
  case completeUpdate =>
    simp only [slotMove, slotContext, hpc]
    cases RedisDB.update E.archive n.context.broadcastBlock n.context.blockIndex n.chain <;> rfl
  all_goals simp [slotMove, slotContext, hpc, Node.ask_eq, Node.resetSynchronized,
    Node.setOperation, getBlock]

/-- The operation in the header of the messages that are sent from here. -/
def SlotPc.operation : SlotPc → Option ConsensusOperation
  | .notifyContext | .notifyContribution | .notifyPublish => some .INSPECTION
  | .votePublish _ => some .ELECTION
  | .relayBlock | .relayPublish => some .UPLOADING
  | _ => none

section Context

variable (E : SlotEnv) {n : Node}

theorem slotContext_block (h : n.pc ≠ .saveAdd) (h' : n.pc ≠ .completeUpdate) :
    (slotContext E n).block = n.context.block := by
  simp only [slotContext]
  split <;> first | rfl | contradiction | (split <;> rfl)

theorem slotContext_block_slot (h : n.pc ≠ .saveAdd) :
    (slotContext E n).block.slot = n.context.block.slot := by
  simp only [slotContext]
  split <;> first | rfl | contradiction | (split <;> rfl)

theorem slotContext_isContributing (h : n.pc ≠ .saveAdd) :
    (slotContext E n).isContributing = n.context.isContributing := by
  simp only [slotContext]
  split <;> first | rfl | contradiction | (split <;> rfl)

theorem slotContext_header_slot (h : n.pc ≠ .saveBlock) :
    (slotContext E n).header.slot = n.context.header.slot := by
  simp only [slotContext]
  split <;> first | rfl | contradiction | (split <;> rfl)

theorem slotContext_header_address (h : n.pc ≠ .saveBlock) :
    (slotContext E n).header.address = n.context.header.address := by
  simp only [slotContext]
  split <;> first | rfl | contradiction | (split <;> rfl)

theorem slotContext_validator (h : n.pc ≠ .relayValidator) :
    (slotContext E n).validator = n.context.validator ∧
      (slotContext E n).isValidator = n.context.isValidator := by
  simp only [slotContext]
  split <;> first | exact ⟨rfl, rfl⟩ | contradiction | (split <;> exact ⟨rfl, rfl⟩)

theorem slotContext_broadcastBlock (h : n.pc ≠ .collectMerge) (h' : n.pc ≠ .awaitBlock) :
    (slotContext E n).broadcastBlock = n.context.broadcastBlock := by
  simp only [slotContext]
  split <;> first | rfl | contradiction | (split <;> rfl)

theorem slotContext_operation (h : n.pc.operation ≠ none) :
    (slotContext E n).header.operation = n.context.header.operation := by
  simp only [slotContext]
  split
  case h_2 | h_4 | h_5 | h_7 => simp_all [SlotPc.operation]
  all_goals first | rfl | (split <;> rfl)

/-- The serialized header is kept equal to the header. -/
theorem slotContext_serializedHeader
    (h : n.pc = .saveBlock ∨ n.context.serializedHeader = n.context.header) :
    (slotContext E n).serializedHeader = (slotContext E n).header := by
  have hkeep : n.pc ≠ .saveBlock → n.context.serializedHeader = n.context.header :=
    fun hne => h.resolve_left hne
  simp only [slotContext]
  split
  case h_2 => rfl
  all_goals first
    | exact hkeep (by simp_all)
    | rfl
    | (split <;> first | exact hkeep (by simp_all) | rfl)

end Context

/-- Where the slot thread can be after its next call, unless the call fails. -/
def SlotPc.next : SlotPc → List SlotPc
  | .initConditions => [.initContexts]
  | .initContexts => [.saveAdd]
  | .saveAdd => [.saveBlock]
  | .saveBlock => [.notifyContext]
  | .notifyContext => [.notifyContribution]
  | .notifyContribution => [.notifyPublish]
  | .notifyPublish => [.wait .inspection .enter]
  | .wait .inspection .enter => [.wait .inspection .early]
  | .wait .election .enter => [.electPresent]
  | .wait .contributorsData .enter => [.wait .contributorsData .early, .broadcast]
  | .wait .broadcast .enter => [.wait .broadcast .early, .completeUpdate]
  | .wait w .early => [w.done, .wait w .lock]
  | .wait w .lock => [.wait w .eval]
  | .wait .broadcast .eval => [.awaitBlock, .awaitResolved, .wait .broadcast .window]
  | .wait w .eval => [w.done, .wait w .window]
  | .wait w .window => [.wait w .asleep]
  | .wait w .asleep => [.wait w .asleep]
  | .inspectionReset => [.removeCheck]
  | .removeCheck => [.voteFill false, .removeGet]
  | .removeGet => [.removeDelete]
  | .removeDelete => [.stopped]
  | .voteFill again => [.votePublish again]
  | .votePublish again => [if again then .electPresent else .wait .election .enter]
  | .electPresent => [.electUnique, .wait .election .lock]
  | .electUnique => [.nominate, .wait .election .lock]
  | .electRecheck => [.electPresent, .electRemoveDuplicates]
  | .electRemoveDuplicates => [.electReset]
  | .electReset => [.voteFill true]
  | .nominate => [.relayValidator]
  | .relayValidator => [.wait .contributorsData .enter, .relayBlock]
  | .relayBlock => [.relayPublish]
  | .relayPublish => [.relayResolved]
  | .relayResolved => [.wait .contributorsData .enter]
  | .collectMerge => [.collectResolved]
  | .collectResolved => [.collectReset]
  | .collectReset => [.broadcast]
  | .broadcast => [.wait .broadcast .enter]
  | .awaitResolved => [.awaitBlock, .wait .broadcast .window]
  | .awaitBlock => [.awaitReset]
  | .awaitReset => [.completeUpdate]
  | .completeUpdate => [.completeClear]
  | .completeClear => [.publishBlock]
  | .publishBlock => [.returned]
  | .returned => [.returned]
  | .stopped => [.stopped]

theorem Node.ask_pc (n : Node) (q : Option Bool × ConsensusStorage) (yes no : SlotPc) :
    (n.ask q yes no).pc = n.pc ∨ (n.ask q yes no).pc ∈ [yes, no] := by
  rw [n.ask_eq]
  rcases q with ⟨_ | _ | _, st⟩ <;> simp

theorem Node.getContext_pc (n : Node) (pc : SlotPc) :
    (n.getContext pc).pc = n.pc ∨ (n.getContext pc).pc = pc := by
  rw [n.getContext_eq]
  simp only
  split <;> simp

/-- **The control flow of the slot thread.** -/
theorem slotMove_next (E : SlotEnv) (n : Node) :
    (slotMove E n).1.pc = n.pc ∨ (slotMove E n).1.pc ∈ n.pc.next := by
  cases hpc : n.pc
  case wait w phase =>
    simp only [slotMove, hpc]
    have hask := fun yes no => n.ask_pc (w.predicate n) yes no
    have hget := n.getContext_pc
    rw [hpc] at hget hask
    cases phase with
    | enter =>
      cases w with
      | inspection | election => simpa [SlotPc.next, waitMove] using hget _
      | contributorsData | broadcast =>
        simp only [SlotPc.next, waitMove]
        split
        · first | exact (hget _).imp_right fun h => by simp [h] | simp
        · first | exact (hget _).imp_right fun h => by simp [h] | simp
    | early => cases w <;> exact hask _ _
    | lock =>
      simp only [waitMove]
      split <;> cases w <;> simp [SlotPc.next, Node.fail, hpc]
    | eval =>
      cases w with
      | broadcast =>
        simp only [waitMove, SlotPc.next]
        split
        · split <;> simp
        · refine (hask _ _).imp_right fun h => ?_
          rcases List.mem_cons.1 h with h | h
          · exact List.mem_cons.2 (.inl h)
          · exact List.mem_cons_of_mem _ (List.mem_cons_of_mem _ h)
      | inspection | election | contributorsData => exact hask _ _
    | window => cases w <;> simp [SlotPc.next, waitMove]
    | asleep => cases w <;> simp [SlotPc.next, waitMove, hpc]
  case removeCheck | electPresent | awaitResolved =>
    simp only [slotMove, hpc]
    have := fun q yes no => n.ask_pc q yes no
    rw [hpc] at this
    exact this _ _ _
  case electUnique | electRecheck | relayPublish =>
    simp only [slotMove, hpc, SlotPc.next]
    split <;> simp [Node.fail, hpc]
  case removeGet =>
    simp only [slotMove, hpc, SlotPc.next]
    split <;> simp [Node.fail, hpc]
  case nominate =>
    simp only [slotMove, hpc, SlotPc.next]
    cases n.storage.markValidator n.context.header.slot <;> simp [Node.fail, hpc]
  case relayValidator =>
    simp only [slotMove, hpc, SlotPc.next]
    split
    · simp only
      split <;> simp
    · simp [Node.fail, Node.setOperation, hpc]
  case collectMerge =>
    simp only [slotMove, hpc, SlotPc.next]
    cases n.storage.mergeContributors E.order n.context.header.slot <;> simp [Node.fail, hpc]
  case completeUpdate =>
    simp only [slotMove, hpc, SlotPc.next]
    split <;> simp [Node.fail, hpc]
  all_goals simp [slotMove, hpc, SlotPc.next, Node.resetSynchronized]

/-- How far the slot thread has come.  The steps of one election, including all its rounds,
count as one. -/
def SlotPc.rank : SlotPc → ℕ
  | .initConditions => 0
  | .initContexts => 1
  | .saveAdd => 2
  | .saveBlock => 3
  | .notifyContext => 4
  | .notifyContribution => 5
  | .notifyPublish => 6
  | .wait .inspection _ => 7
  | .inspectionReset => 8
  | .removeCheck => 9
  | .removeGet | .removeDelete | .stopped => 10
  | .voteFill false => 11
  | .votePublish false => 12
  | .wait .election _ | .electPresent | .electUnique | .electRecheck | .electRemoveDuplicates |
    .electReset | .voteFill true | .votePublish true => 13
  | .nominate => 14
  | .relayValidator => 15
  | .relayBlock => 16
  | .relayPublish => 17
  | .relayResolved => 18
  | .wait .contributorsData _ => 19
  | .collectMerge => 20
  | .collectResolved => 21
  | .collectReset => 22
  | .broadcast => 23
  | .wait .broadcast _ | .awaitResolved => 24
  | .awaitBlock => 25
  | .awaitReset => 26
  | .completeUpdate => 27
  | .completeClear => 28
  | .publishBlock => 29
  | .returned => 30

/-- The slot thread never goes back. -/
theorem SlotPc.rank_le_of_mem_next {pc pc' : SlotPc} (h : pc' ∈ pc.next) :
    pc.rank ≤ pc'.rank := by
  have hall : ∀ pc : SlotPc, ∀ pc' ∈ pc.next, pc.rank ≤ pc'.rank := by decide +kernel
  exact hall pc pc' h

theorem slotMove_rank (E : SlotEnv) (n : Node) : n.pc.rank ≤ (slotMove E n).1.pc.rank := by
  rcases slotMove_next E n with h | h
  · rw [h]
  · exact SlotPc.rank_le_of_mem_next h

/-- A relation between the places before and after a call is checked on the control flow. -/
theorem slotMove_pc {R : SlotPc → SlotPc → Prop}
    (h : ∀ pc : SlotPc, R pc pc ∧ ∀ pc' ∈ pc.next, R pc pc') (E : SlotEnv) (n : Node) :
    R n.pc (slotMove E n).1.pc := by
  rcases slotMove_next E n with hsame | hnext
  · rw [hsame]
    exact (h n.pc).1
  · exact (h n.pc).2 _ hnext

/-- Who leaves a wait has seen its predicate true. -/
theorem slotMove_done (E : SlotEnv) {n : Node} {w : Waiter} {phase : WaitPhase}
    (h : n.pc = .wait w phase) (h' : (slotMove E n).1.pc = w.done) :
    (w.predicate n).1 = some true := by
  have hask : ∀ no, no ≠ w.done → (n.ask (w.predicate n) w.done no).pc = w.done →
      (w.predicate n).1 = some true := by
    intro no hno hpc
    rw [n.ask_eq] at hpc
    cases hq : (w.predicate n).1 with
    | none => cases w <;> simp [hq, h, Waiter.done] at hpc
    | some b =>
      cases b with
      | true => rfl
      | false => exact absurd (by simpa [hq] using hpc) hno
  have hphase : phase = .early ∨ phase = .eval := by
    have hnext := slotMove_next E n
    rw [h, h'] at hnext
    revert hnext
    cases w <;> cases phase <;> decide +kernel
  have hwindow : SlotPc.wait w .window ≠ w.done := by cases w <;> simp [Waiter.done]
  simp only [slotMove, h] at h'
  rcases hphase with rfl | rfl
  · exact hask _ (by cases w <;> simp [Waiter.done]) h'
  · simp only [waitMove] at h'
    split at h'
    · split at h' <;> simp [Waiter.done] at h'
    · exact hask _ hwindow h'

/-- The check of the election is passed when all values are present. -/
theorem slotMove_electPresent (E : SlotEnv) {n : Node} (h : n.pc = .electPresent)
    (h' : (slotMove E n).1.pc = .electUnique) :
    (n.storage.areAllElectionValuesPresent n.context.header.slot).1 = some true := by
  simp only [slotMove, h, Node.ask_eq] at h'
  split at h'
  · next hq => exact hq
  · cases h'
  · cases h'

/-- `tryRemove` goes by the answer of `isAnyNodeContributing`. -/
theorem slotMove_removeCheck (E : SlotEnv) {n : Node} (h : n.pc = .removeCheck) {answer : Bool}
    (hq : (n.storage.isAnyNodeContributing n.context.header.slot).1 = some answer) :
    (slotMove E n).1.pc = if answer then .voteFill false else .removeGet := by
  cases answer <;> simp [slotMove, h, Node.ask_eq, hq]

/-- Who has the validator's address goes on, and relays when it is a contributor and not the
validator itself. -/
theorem slotMove_relayValidator (E : SlotEnv) {n : Node} (h : n.pc = .relayValidator)
    (hne : (slotMove E n).1.pc ≠ .relayValidator) :
    ∃ v, n.storage.markedValidator n.context.header.slot = some v ∧
      (slotMove E n).1.pc = if cStr v = E.self ∨ n.context.isContributing = false
        then .wait .contributorsData .enter else .relayBlock := by
  simp only [slotMove, h] at hne ⊢
  have hmarked : (n.setOperation .UPLOADING).storage.getValidator n.context.header.slot =
      ((n.storage.markedValidator n.context.header.slot).map cStr,
        n.storage.accessAll n.context.header.slot) := rfl
  rw [hmarked] at hne ⊢
  cases hv : n.storage.markedValidator n.context.header.slot with
  | none => simp [hv, Node.fail, Node.setOperation, h] at hne
  | some v => exact ⟨v, rfl, by simp [Node.setOperation]⟩

/-- The two waits that not every node takes part in. -/
theorem slotMove_enter (E : SlotEnv) {n : Node} :
    (n.pc = .wait .contributorsData .enter → n.context.isValidator = false →
      (slotMove E n).1.pc = .broadcast) ∧
    (n.pc = .wait .broadcast .enter → n.context.isValidator = true →
      (slotMove E n).1.pc = .completeUpdate) := by
  constructor <;> intro h hv <;> simp [slotMove, h, waitMove, hv]

/-- The validator does not skip the first of them, and nobody else the second. -/
theorem slotMove_enter_ne (E : SlotEnv) {n : Node} :
    (n.pc = .wait .contributorsData .enter → n.context.isValidator = true →
      (slotMove E n).1.pc ≠ .broadcast) ∧
    (n.pc = .wait .broadcast .enter → n.context.isValidator = false →
      (slotMove E n).1.pc ≠ .completeUpdate) := by
  constructor
  · intro h hv
    have hget := n.getContext_pc (.wait .contributorsData .early)
    rw [h] at hget
    simp only [slotMove, h, waitMove, hv, if_true]
    rcases hget with hget | hget <;> simp [hget]
  · intro h hv
    have hget := n.getContext_pc (.wait .broadcast .early)
    rw [h] at hget
    simp only [slotMove, h, waitMove, hv, Bool.false_eq_true, if_false]
    rcases hget with hget | hget <;> simp [hget]

/-- A nomination with somebody to elect goes through. -/
theorem slotMove_nominate (E : SlotEnv) {n : Node} (h : n.pc = .nominate) {v : String}
    (hv : n.storage.electedValidator n.context.header.slot = some v) :
    (slotMove E n).1.pc = .relayValidator := by
  simp [slotMove, h, markValidator, hv]

/-- Only `ElectionNotifier::notify` draws. -/
theorem slotMove_draws (E : SlotEnv) (n : Node) :
    ((slotMove E n).1.draws, (slotMove E n).1.electionValue) =
      match n.pc with
      | .voteFill _ => (n.draws + 1, E.draw n.draws)
      | _ => (n.draws, n.electionValue) := by
  by_cases hwait : ∃ w phase, n.pc = .wait w phase
  · obtain ⟨w, phase, hpc⟩ := hwait
    obtain ⟨st, sync, owned, pc, failure, h⟩ := waitMove_frame w n phase
    simp [slotMove, hpc, h]
  · obtain ⟨st, chain, context, pc, fetched, failure, h⟩ := slotMove_fields E hwait
    rw [h]
    cases n.pc <;> rfl

theorem SlotPc.eq_of_rank_ge : ∀ {pc : SlotPc}, 29 ≤ pc.rank →
    pc = .publishBlock ∨ pc = .returned := by decide +kernel

theorem Waiter.predicate_ask (w : Waiter) (n : Node) (yes no : SlotPc) :
    (w.predicate (n.ask (w.predicate n) yes no)).1 = (w.predicate n).1 := by
  refine predicate_congr ?_ (fun hw => ?_) fun a s => ?_
  · rw [n.ask_eq]
  · rw [n.ask_eq]
    exact w.keys_predicate hw n
  · rw [n.ask_eq]
    exact w.table_predicate n a s

/-- Only where a wait begins does the slot thread fetch a synchronization context. -/
theorem slotMove_sync (E : SlotEnv) {n : Node} (h : ∀ w, n.pc ≠ .wait w .enter) :
    (slotMove E n).1.sync = n.sync := by
  by_cases hwait : ∃ w phase, n.pc = .wait w phase
  · obtain ⟨w, phase, hpc⟩ := hwait
    simp only [slotMove, hpc]
    cases phase with
    | enter => exact absurd hpc (h w)
    | early => simp [waitMove, Node.ask_eq]
    | lock =>
      simp only [waitMove]
      split <;> rfl
    | eval =>
      simp only [waitMove]
      split
      · split <;> rfl
      · simp [Node.ask_eq]
    | window | asleep => rfl
  · obtain ⟨st, chain, context, pc, fetched, failure, hmove⟩ := slotMove_fields E hwait
    rw [hmove]

/-- Who takes and who gives up the lock of a wait. -/
theorem slotMove_owned (E : SlotEnv) (n : Node) :
    (slotMove E n).1.owned =
      match n.pc with
      | .wait _ .lock => true
      | .inspectionReset | .electReset | .collectReset | .awaitReset => false
      | .electUnique =>
          if (n.storage.isElectionValueUnique E.self n.context.header.slot).1 then false
          else n.owned
      | _ => n.owned := by
  by_cases hwait : ∃ w phase, n.pc = .wait w phase
  · obtain ⟨w, phase, hpc⟩ := hwait
    simp only [slotMove, hpc]
    cases phase with
    | enter =>
      cases w <;> simp only [waitMove, Node.getContext_eq]
      all_goals split <;> rfl
    | early => simp [waitMove, Node.ask_eq]
    | lock =>
      simp only [waitMove]
      split
      · next h => simpa [Node.fail] using h
      · rfl
    | eval =>
      simp only [waitMove]
      split
      · split <;> rfl
      · simp [Node.ask_eq]
    | window | asleep => rfl
  · obtain ⟨st, chain, context, pc, fetched, failure, h⟩ := slotMove_fields E hwait
    rw [h]
    cases hpc : n.pc
    case wait w phase => exact absurd ⟨w, phase, hpc⟩ hwait
    all_goals rfl

/-- Where the lock is owned after a call, it was just taken, or it was owned before and has not
been given up. -/
theorem owned_of_slotMove {E : SlotEnv} {n : Node} (h : (slotMove E n).1.owned = true) :
    (∃ w, n.pc = .wait w .lock) ∨ n.owned = true ∧
      n.pc ∉ [SlotPc.inspectionReset, .electReset, .collectReset, .awaitReset] ∧
      (n.pc = .electUnique →
        (n.storage.isElectionValueUnique E.self n.context.header.slot).1 = false) := by
  rw [slotMove_owned] at h
  split at h
  · next w hpc => exact .inl ⟨w, hpc⟩
  · cases h
  · cases h
  · cases h
  · cases h
  · next hpc =>
    split at h
    · cases h
    · next hne => exact .inr ⟨h, by simp [hpc], fun _ => by simpa using hne⟩
  · exact .inr ⟨h, by simp_all, fun hpc => by simp_all⟩

/-- A run works on the slot of its block. -/
structure Node.OnSlot (E : SlotEnv) (n : Node) : Prop where
  block : 3 ≤ n.pc.rank → n.context.block.slot = E.pendingBlock.slot
  header : 4 ≤ n.pc.rank → n.context.header.slot = E.pendingBlock.slot

theorem SlotPc.eq_of_mem_next {pc pc' : SlotPc} (hmem : pc' ∈ pc.next) :
    (3 ≤ pc'.rank → pc = .saveAdd ∨ 3 ≤ pc.rank) ∧
      (4 ≤ pc'.rank → pc = .saveBlock ∨ 4 ≤ pc.rank) := by
  have h : ∀ pc : SlotPc, ∀ pc' ∈ pc.next, (3 ≤ pc'.rank → pc = .saveAdd ∨ 3 ≤ pc.rank) ∧
      (4 ≤ pc'.rank → pc = .saveBlock ∨ 4 ≤ pc.rank) := by decide +kernel
  exact h _ _ hmem

theorem Node.OnSlot.slotMove {E : SlotEnv} {n : Node} (h : n.OnSlot E) :
    (slotMove E n).1.OnSlot E := by
  have hback : (3 ≤ (BlockchainMessaging.slotMove E n).1.pc.rank →
      n.pc = .saveAdd ∨ 3 ≤ n.pc.rank) ∧
      (4 ≤ (BlockchainMessaging.slotMove E n).1.pc.rank → n.pc = .saveBlock ∨ 4 ≤ n.pc.rank) := by
    rcases slotMove_next E n with hsame | hnext
    · rw [hsame]
      exact ⟨.inr, .inr⟩
    · exact SlotPc.eq_of_mem_next hnext
  constructor
  case block =>
    intro hrank
    rw [slotMove_context]
    by_cases hadd : n.pc = .saveAdd
    · simp [slotContext, hadd]
    · rw [slotContext_block_slot E hadd]
      exact h.block ((hback.1 hrank).resolve_left hadd)
  case header =>
    intro hrank
    rw [slotMove_context]
    by_cases hsave : n.pc = .saveBlock
    · simpa [slotContext, hsave] using h.block (by simp [hsave, SlotPc.rank])
    · rw [slotContext_header_slot E hsave]
      exact h.header ((hback.2 hrank).resolve_left hsave)

/-- The messages that the next call of the slot thread sends, each with its target. -/
def slotSends (E : SlotEnv) (n : Node) : List Send :=
  match n.pc with
  | .notifyPublish => E.remotes.map fun a =>
      (a, ⟨n.context.serializedHeader, .contribution n.context.isContributing⟩)
  | .votePublish _ => E.remotes.map fun a =>
      (a, ⟨n.context.serializedHeader, .electionValue n.electionValue⟩)
  | .relayPublish =>
      if n.context.validator ∈ E.remotes then
        [(n.context.validator, ⟨n.context.serializedHeader, .block n.context.block⟩)]
      else []
  | .broadcast =>
      if n.context.isValidator then E.remotes.map fun a =>
        (a, ⟨(n.setOperation .BROADCAST).context.serializedHeader,
          .block n.context.broadcastBlock⟩)
      else []
  | _ => []

/-- **What the slot thread sends.** -/
theorem slotMove_sends (E : SlotEnv) (n : Node) : (slotMove E n).2 = slotSends E n := by
  cases hpc : n.pc
  case electUnique | relayValidator | relayPublish =>
    simp only [slotMove, slotSends, hpc]
    split <;> rfl
  case removeGet =>
    simp only [slotMove, slotSends, hpc]
    split <;> rfl
  case nominate =>
    simp only [slotMove, slotSends, hpc]
    cases n.storage.markValidator n.context.header.slot <;> rfl
  case collectMerge =>
    simp only [slotMove, slotSends, hpc]
    cases n.storage.mergeContributors E.order n.context.header.slot <;> rfl
  case completeUpdate =>
    simp only [slotMove, slotSends, hpc]
    split <;> rfl
  all_goals simp [slotMove, slotSends, hpc, Node.setOperation]

/-- Why the next call of the slot thread ends the process. -/
def failsWith (E : SlotEnv) (n : Node) : Failure → Prop
  | .nullContext => (∃ w, n.pc = .wait w .enter) ∧
      ∀ p, n.storage.conditions.find n.context.header.slot ≠ some (some p)
  | .badOptional =>
      ((∃ phase, n.pc = .wait .contributorsData phase) ∧
        (n.storage.isAllContributorsDataCollected n.context.header.slot).1 = none) ∨
      (n.pc = .removeCheck ∧ (n.storage.isAnyNodeContributing n.context.header.slot).1 = none) ∨
      (n.pc = .collectMerge ∧ n.storage.mergeContributors E.order n.context.header.slot = none)
  | .noBlock => n.pc = .removeGet ∧
      RedisDB.getByIndex E.archive n.context.blockIndex n.chain = some none
  | .lockOwned => (∃ w, n.pc = .wait w .lock) ∧ n.owned = true
  | .noValidator =>
      (n.pc = .nominate ∧ n.storage.markValidator n.context.header.slot = none) ∨
      (n.pc = .relayValidator ∧ n.storage.markedValidator n.context.header.slot = none)
  | .noChannel => n.pc = .relayPublish ∧ n.context.validator ∉ E.remotes
  | .redisError =>
      (n.pc = .removeGet ∧
        RedisDB.getByIndex E.archive n.context.blockIndex n.chain = none) ∨
      (n.pc = .completeUpdate ∧ RedisDB.update E.archive n.context.broadcastBlock
        n.context.blockIndex n.chain = none)
  | .badArchive => False

theorem getSlotSynchronizationContext_fst_eq_none {st : ConsensusStorage} {s : ℕ} :
    (st.getSlotSynchronizationContext s).1 = none ↔ ∀ p, st.conditions.find s ≠ some (some p) := by
  rw [getSlotSynchronizationContext]
  split
  · next p hp => cases p <;> simp [hp]
  · next hp => simp [hp]

/-- A predicate throws only where a contribution flag is missing. -/
theorem Waiter.predicate_eq_none {w : Waiter} {n : Node} (h : (w.predicate n).1 = none) :
    w = .contributorsData ∧
      (n.storage.isAllContributorsDataCollected n.context.header.slot).1 = none := by
  cases w with
  | inspection => exact absurd h (areAllContributorsConfirmed_ne_none _ _)
  | election => exact absurd h (areAllElectionValuesPresent_ne_none _ _)
  | contributorsData => exact ⟨rfl, h⟩
  | broadcast => simp [Waiter.predicate] at h

/-- A wait fails for the reasons of `failsWith`. -/
theorem waitMove_failure (E : SlotEnv) {n : Node} {w : Waiter} {phase : WaitPhase}
    (hpc : n.pc = .wait w phase) :
    (waitMove w n phase).failure = n.failure ∨
      ∃ f, (waitMove w n phase).failure = some f ∧ failsWith E n f := by
  have hget : ∀ pc, phase = .enter → (n.getContext pc).failure = n.failure ∨
      ∃ f, (n.getContext pc).failure = some f ∧ failsWith E n f := by
    intro pc henter
    rw [n.getContext_eq]
    cases h : (n.storage.getSlotSynchronizationContext n.context.header.slot).1 with
    | some p => simp [h]
    | none =>
      exact .inr ⟨.nullContext, by simp [h], ⟨w, henter ▸ hpc⟩,
        getSlotSynchronizationContext_fst_eq_none.1 h⟩
  have hask : ∀ yes no, (n.ask (w.predicate n) yes no).failure = n.failure ∨
      ∃ f, (n.ask (w.predicate n) yes no).failure = some f ∧ failsWith E n f := by
    intro yes no
    rw [n.ask_eq]
    cases h : (w.predicate n).1 with
    | some b => simp
    | none =>
      obtain ⟨rfl, hnone⟩ := Waiter.predicate_eq_none h
      exact .inr ⟨.badOptional, by simp, .inl ⟨⟨phase, hpc⟩, hnone⟩⟩
  cases phase with
  | enter =>
    cases w with
    | inspection | election => exact hget _ rfl
    | contributorsData | broadcast =>
      simp only [waitMove]
      split
      · first | exact hget _ rfl | exact .inl rfl
      · first | exact hget _ rfl | exact .inl rfl
  | early => exact hask _ _
  | lock =>
    simp only [waitMove]
    split
    · next howned => exact .inr ⟨.lockOwned, rfl, ⟨w, hpc⟩, howned⟩
    · exact .inl rfl
  | eval =>
    simp only [waitMove]
    split
    · split <;> exact .inl rfl
    · exact hask _ _
  | window | asleep => exact .inl rfl

/-- **Every failure of the slot thread has one of the reasons of `failsWith`.** -/
theorem slotMove_failure (E : SlotEnv) (n : Node) :
    (slotMove E n).1.failure = n.failure ∨
      ∃ f, (slotMove E n).1.failure = some f ∧ failsWith E n f := by
  cases hpc : n.pc
  case wait w phase =>
    simp only [slotMove, hpc]
    exact waitMove_failure E hpc
  case removeCheck =>
    simp only [slotMove, hpc, Node.ask_eq]
    cases h : (n.storage.isAnyNodeContributing n.context.header.slot).1 with
    | some b => exact .inl rfl
    | none => exact .inr ⟨.badOptional, rfl, .inr (.inl ⟨hpc, h⟩)⟩
  case removeGet =>
    simp only [slotMove, hpc]
    split
    · exact .inl rfl
    · next h => exact .inr ⟨.noBlock, rfl, hpc, h⟩
    · next h => exact .inr ⟨.redisError, rfl, .inl ⟨hpc, h⟩⟩
  case electPresent =>
    simp only [slotMove, hpc, Node.ask_eq]
    cases h : (n.storage.areAllElectionValuesPresent n.context.header.slot).1 with
    | some b => exact .inl rfl
    | none => exact absurd h (areAllElectionValuesPresent_ne_none _ _)
  case awaitResolved => exact .inl (by simp [slotMove, hpc, Node.ask_eq, Waiter.predicate])
  case electUnique =>
    simp only [slotMove, hpc]
    split <;> exact .inl rfl
  case nominate =>
    simp only [slotMove, hpc]
    cases h : n.storage.markValidator n.context.header.slot with
    | some st => exact .inl rfl
    | none => exact .inr ⟨.noValidator, rfl, .inl ⟨hpc, h⟩⟩
  case relayValidator =>
    simp only [slotMove, hpc]
    split
    · exact .inl rfl
    · next h =>
      refine .inr ⟨.noValidator, rfl, .inr ⟨hpc, ?_⟩⟩
      simpa [getValidator, Node.setOperation] using h
  case relayPublish =>
    simp only [slotMove, hpc]
    split
    · exact .inl rfl
    · next h => exact .inr ⟨.noChannel, rfl, hpc, h⟩
  case collectMerge =>
    simp only [slotMove, hpc]
    cases h : n.storage.mergeContributors E.order n.context.header.slot with
    | some r => exact .inl rfl
    | none => exact .inr ⟨.badOptional, rfl, .inr (.inr ⟨hpc, h⟩)⟩
  case completeUpdate =>
    simp only [slotMove, hpc]
    split
    · exact .inl rfl
    · next h => exact .inr ⟨.redisError, rfl, .inr ⟨hpc, h⟩⟩
  all_goals exact .inl (by simp [slotMove, hpc, Node.resetSynchronized, Node.setOperation])

/-! ## The slot thread and the synchronization contexts -/

theorem Waiter.rest_predicate (w : Waiter) (n : Node) :
    (w.predicate n).2.rest = n.storage.rest := by
  cases w <;> simp [Waiter.predicate, ConsensusStorage.isResolved]

/-- What a step of a wait can do to the part of the storage that is not the table. -/
theorem waitMove_rest (w : Waiter) (n : Node) (phase : WaitPhase) :
    (waitMove w n phase).storage.rest = n.storage.rest ∨
      phase = .enter ∧ (waitMove w n phase).storage =
        (n.storage.getSlotSynchronizationContext n.context.header.slot).2 := by
  have hget : ∀ pc, (n.getContext pc).storage =
      (n.storage.getSlotSynchronizationContext n.context.header.slot).2 := by
    intro pc
    rw [n.getContext_eq]
  have hask : ∀ yes no, (n.ask (w.predicate n) yes no).storage.rest = n.storage.rest := by
    intro yes no
    rw [n.ask_eq]
    exact w.rest_predicate n
  cases phase with
  | enter =>
    cases w with
    | inspection | election => exact .inr ⟨rfl, hget _⟩
    | contributorsData | broadcast =>
      simp only [waitMove]
      split
      · first | exact .inl rfl | exact .inr ⟨trivial, hget _⟩
      · first | exact .inl rfl | exact .inr ⟨trivial, hget _⟩
  | early => exact .inl (hask _ _)
  | lock =>
    simp only [waitMove]
    split <;> exact .inl rfl
  | eval =>
    simp only [waitMove]
    split
    · split <;> exact .inl rfl
    · exact .inl (hask _ _)
  | window | asleep => exact .inl rfl

/-- What a call of the slot thread can do to the part of the storage that is not the table. -/
theorem slotMove_rest (E : SlotEnv) (n : Node) :
    (slotMove E n).1.storage.rest = n.storage.rest ∨
      (n.pc = .initConditions ∧
        (slotMove E n).1.storage = n.storage.initConditions E.slot) ∨
      ((∃ w, n.pc = .wait w .enter) ∧ (slotMove E n).1.storage =
        (n.storage.getSlotSynchronizationContext n.context.header.slot).2) ∨
      (n.pc ∈ [SlotPc.inspectionReset, .electReset, .collectReset, .awaitReset] ∧
        ∃ p, n.sync = some p ∧
          (slotMove E n).1.storage = n.storage.storeSynchronized p false) ∨
      (n.pc = .completeClear ∧
        (slotMove E n).1.storage = n.storage.clearSlot n.context.header.slot) := by
  have hreset : ∀ pc, (n.resetSynchronized pc).storage.rest = n.storage.rest ∨
      ∃ p, n.sync = some p ∧
        (n.resetSynchronized pc).storage = n.storage.storeSynchronized p false := by
    intro pc
    rw [Node.resetSynchronized]
    cases n.sync with
    | none => exact .inl rfl
    | some p => exact .inr ⟨p, rfl, rfl⟩
  cases hpc : n.pc
  case wait w phase =>
    simp only [slotMove, hpc]
    rcases waitMove_rest w n phase with h | ⟨rfl, h⟩
    · exact .inl h
    · exact .inr (.inr (.inl ⟨⟨w, rfl⟩, h⟩))
  case initConditions => exact .inr (.inl ⟨rfl, by simp [slotMove, hpc]⟩)
  case completeClear => exact .inr (.inr (.inr (.inr ⟨rfl, by simp [slotMove, hpc]⟩)))
  case inspectionReset | electReset | collectReset | awaitReset =>
    simp only [slotMove, hpc]
    rcases hreset _ with h | h
    · exact .inl h
    · exact .inr (.inr (.inr (.inl ⟨by simp, h⟩)))
  case electUnique | relayPublish =>
    simp only [slotMove, hpc]
    split <;> exact .inl (by simp [Node.fail])
  case relayValidator =>
    simp only [slotMove, hpc]
    split <;> exact .inl (by simp [getValidator, Node.fail, Node.setOperation])
  case removeGet =>
    simp only [slotMove, hpc]
    split <;> exact .inl rfl
  case nominate =>
    simp only [slotMove, hpc]
    cases h : n.storage.markValidator n.context.header.slot with
    | none => exact .inl rfl
    | some st => exact .inl (rest_markValidator h)
  case collectMerge =>
    simp only [slotMove, hpc]
    cases h : n.storage.mergeContributors E.order n.context.header.slot with
    | none => exact .inl rfl
    | some r => exact .inl (rest_mergeContributors h)
  case completeUpdate =>
    simp only [slotMove, hpc]
    split <;> exact .inl rfl
  all_goals
    exact .inl (by simp [slotMove, hpc, Node.ask_eq, Node.setOperation, Waiter.rest_predicate,
      addBlock, addContext, setContribution, fillElectionValue, marAsResolved, getBlock])

/-- Only `clearSlot` removes the context of a slot. -/
theorem slotMove_find {E : SlotEnv} {n : Node} (hpc : n.pc ≠ .completeClear) {s : ℕ}
    {o : Option ℕ} (hs : n.storage.conditions.find s = some o) :
    (slotMove E n).1.storage.conditions.find s = some o := by
  rcases slotMove_rest E n with h | ⟨-, h⟩ | ⟨-, h⟩ | ⟨-, p, -, h⟩ | ⟨hclear, -⟩
  · rw [(rest_eq h).1, hs]
  · rw [h, find_initConditions, if_neg, hs]
    rintro ⟨rfl, hnone⟩
    simp [hnone] at hs
  · rw [h, find_getSlotSynchronizationContext, if_neg, hs]
    rintro ⟨rfl, hnone⟩
    simp [hnone] at hs
  · rw [h]
    exact hs
  · exact absurd hclear hpc

theorem slotMove_pointersOk {E : SlotEnv} {n : Node} (h : n.storage.PointersOk) :
    (slotMove E n).1.storage.PointersOk := by
  rcases slotMove_rest E n with h' | ⟨-, h'⟩ | ⟨-, h'⟩ | ⟨-, p, -, h'⟩ | ⟨-, h'⟩
  · exact h.of_rest h'
  · rw [h']; exact h.initConditions _
  · rw [h']; exact h.getSlotSynchronizationContext _
  · rw [h']; exact h.storeSynchronized _ _
  · rw [h']; exact h.clearSlot _

theorem slotMove_nodeConfiguration (E : SlotEnv) (n : Node) :
    (slotMove E n).1.storage.nodeConfiguration = n.storage.nodeConfiguration := by
  rcases slotMove_rest E n with h | ⟨-, h⟩ | ⟨-, h⟩ | ⟨-, p, -, h⟩ | ⟨-, h⟩
  · exact (rest_eq h).2.2.1
  · rw [h, initConditions]
    split <;> rfl
  · rw [h, getSlotSynchronizationContext]
    split <;> rfl
  · rw [h]
    rfl
  · rw [h]
    rfl

/-! ## A step of the slot thread -/

theorem slotStep_eq_some {E : SlotEnv} {n : Node} {r : Node × List Send}
    (h : slotStep E n = some r) : n.failure = none ∧ n.pc.blocked = false ∧ r = slotMove E n := by
  rw [slotStep] at h
  split at h
  · cases h
  · next hb =>
    simp only [Bool.or_eq_true, not_or] at hb
    exact ⟨by simpa using hb.1, by simpa using hb.2, by simpa using h.symm⟩

end BlockchainMessaging
