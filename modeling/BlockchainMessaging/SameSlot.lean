import BlockchainMessaging.Touched

/-!
# What a storage says about one slot

A call for a slot reads the entries of this slot, the addresses that the table holds, and the
synchronization context of this slot.  Where two storages agree on these, every call answers the
same, and leaves two storages that agree again.  So a run can not tell on which of them it works.

## Main definitions

* `ConsensusStorage.flag` — the synchronization context of a slot, without the pointer to it.
* `SameSlot` — two storages say the same about a slot.
-/

namespace BlockchainMessaging

namespace ConsensusStorage

variable {st st' st'' : ConsensusStorage} {s s' : ℕ}

/-- What the synchronization context of a slot holds: no entry, a null pointer, or a flag. -/
def flag (st : ConsensusStorage) (s : ℕ) : Option (Option Bool) :=
  (st.conditions.find s).map (Option.map st.loadSynchronized)

theorem flag_eq_some {p : ℕ} (h : st.conditions.find s = some (some p)) :
    st.flag s = some (some (st.loadSynchronized p)) := by
  rw [flag, h]
  rfl

theorem flag_eq_none : st.flag s = none ↔ st.conditions.find s = none := Option.map_eq_none_iff

/-- Null in one storage is null in the other. -/
theorem isSome_getSlotSynchronizationContext (h : st'.flag s = st.flag s) :
    (st'.getSlotSynchronizationContext s).1.isSome =
      (st.getSlotSynchronizationContext s).1.isSome := by
  rw [getSlotSynchronizationContext_fst, getSlotSynchronizationContext_fst]
  rw [flag, flag] at h
  generalize st.conditions.find s = o at h ⊢
  generalize st'.conditions.find s = o' at h ⊢
  rcases o with _ | _ | p <;> rcases o' with _ | _ | q <;> simp_all

/-- `st'` says about the slot `s` what `st` says. -/
structure SameSlot (s : ℕ) (st st' : ConsensusStorage) : Prop where
  nodeConfiguration : st'.nodeConfiguration = st.nodeConfiguration
  keys : st'.contexts.keys = st.contexts.keys
  context : ∀ a, st'.context a s = st.context a s
  flag : st'.flag s = st.flag s
  stamp : ∀ a, st'.stamp a s = st.stamp a s

namespace SameSlot

@[refl] protected theorem refl (s : ℕ) (st : ConsensusStorage) : SameSlot s st st :=
  ⟨rfl, rfl, fun _ => rfl, rfl, fun _ => rfl⟩

protected theorem symm (h : SameSlot s st st') : SameSlot s st' st where
  nodeConfiguration := h.nodeConfiguration.symm
  keys := h.keys.symm
  context a := (h.context a).symm
  flag := h.flag.symm
  stamp a := (h.stamp a).symm

protected theorem trans (h : SameSlot s st st') (h' : SameSlot s st' st'') :
    SameSlot s st st'' where
  nodeConfiguration := h'.nodeConfiguration.trans h.nodeConfiguration
  keys := h'.keys.trans h.keys
  context a := (h'.context a).trans (h.context a)
  flag := h'.flag.trans h.flag
  stamp a := (h'.stamp a).trans (h.stamp a)

/-! ## The table -/

theorem write (h : SameSlot s st st') (a : String) (c : ConsensusContext) :
    SameSlot s (st.write a s c) (st'.write a s c) where
  nodeConfiguration := h.nodeConfiguration
  keys := by simp only [ConsensusStorage.write, UnorderedMap.set, h.keys]
  context a' := by rw [context_write, context_write, h.context]
  flag := h.flag
  stamp := h.stamp

theorem modify (h : SameSlot s st st') (a : String) (f : ConsensusContext → ConsensusContext) :
    SameSlot s (st.modify a s f) (st'.modify a s f) := by
  rw [ConsensusStorage.modify, ConsensusStorage.modify, h.context]
  exact h.write a _

theorem access (h : SameSlot s st st') (a : String) :
    SameSlot s (st.access a s) (st'.access a s) :=
  h.modify a id

theorem addBlock (h : SameSlot s st st') (a : String) (b : Block) :
    SameSlot s (st.addBlock a s b) (st'.addBlock a s b) :=
  h.modify a _

theorem addContext (h : SameSlot s st st') (a node : String) :
    SameSlot s (st.addContext a node s) (st'.addContext a node s) :=
  h.modify a _

theorem setContribution (h : SameSlot s st st') (a : String) (isContributing : Bool) :
    SameSlot s (st.setContribution a s isContributing) (st'.setContribution a s isContributing) :=
  h.modify a _

theorem fillElectionValue (h : SameSlot s st st') (a : String) (electionValue : ℕ) :
    SameSlot s (st.fillElectionValue a s electionValue)
      (st'.fillElectionValue a s electionValue) :=
  h.modify a _

theorem marAsResolved (h : SameSlot s st st') (a : String) :
    SameSlot s (st.marAsResolved a s) (st'.marAsResolved a s) :=
  h.modify a _

theorem foldl {f : ConsensusStorage → String → ConsensusStorage}
    (hf : ∀ st st' a, SameSlot s st st' → SameSlot s (f st a) (f st' a)) (as : List String) :
    ∀ {st st'}, SameSlot s st st' → SameSlot s (as.foldl f st) (as.foldl f st') := by
  induction as with
  | nil => exact fun h => h
  | cons a as ih => exact fun h => ih (hf _ _ a h)

theorem accessAll (h : SameSlot s st st') : SameSlot s (st.accessAll s) (st'.accessAll s) := by
  rw [ConsensusStorage.accessAll, ConsensusStorage.accessAll, h.keys]
  exact foldl (fun _ _ a h => h.access a) _ h

theorem initContexts (h : SameSlot s st st') :
    SameSlot s (st.initContexts s) (st'.initContexts s) := by
  rw [ConsensusStorage.initContexts, ConsensusStorage.initContexts, h.nodeConfiguration]
  exact foldl (fun _ _ a h => h.access a) _ h

/-! ## The queries -/

/-- An answer with what the query leaves. -/
def Answers (s : ℕ) {α : Type} (r r' : α × ConsensusStorage) : Prop :=
  r'.1 = r.1 ∧ SameSlot s r.2 r'.2

theorem allOf (p : ConsensusContext → Option Bool) (as : List String) :
    ∀ {st st'}, SameSlot s st st' →
      Answers s (ConsensusStorage.allOf p s as st) (ConsensusStorage.allOf p s as st') := by
  induction as with
  | nil => exact fun h => ⟨rfl, h⟩
  | cons a as ih =>
    intro st st' h
    simp only [ConsensusStorage.allOf, h.context]
    split
    · exact ih (h.access a)
    · exact ⟨rfl, h.access a⟩

theorem anyOf (p : ConsensusContext → Option Bool) (as : List String) :
    ∀ {st st'}, SameSlot s st st' →
      Answers s (ConsensusStorage.anyOf p s as st) (ConsensusStorage.anyOf p s as st') := by
  induction as with
  | nil => exact fun h => ⟨rfl, h⟩
  | cons a as ih =>
    intro st st' h
    simp only [ConsensusStorage.anyOf, h.context]
    split
    · exact ih (h.access a)
    · exact ⟨rfl, h.access a⟩

theorem areAllContributorsConfirmed (h : SameSlot s st st') :
    Answers s (st.areAllContributorsConfirmed s) (st'.areAllContributorsConfirmed s) := by
  rw [ConsensusStorage.areAllContributorsConfirmed, ConsensusStorage.areAllContributorsConfirmed,
    h.keys]
  exact h.allOf _ _

theorem isAnyNodeContributing (h : SameSlot s st st') :
    Answers s (st.isAnyNodeContributing s) (st'.isAnyNodeContributing s) := by
  rw [ConsensusStorage.isAnyNodeContributing, ConsensusStorage.isAnyNodeContributing, h.keys]
  exact h.anyOf _ _

theorem areAllElectionValuesPresent (h : SameSlot s st st') :
    Answers s (st.areAllElectionValuesPresent s) (st'.areAllElectionValuesPresent s) := by
  rw [ConsensusStorage.areAllElectionValuesPresent, ConsensusStorage.areAllElectionValuesPresent,
    h.keys]
  exact h.allOf _ _

theorem isAllContributorsDataCollected (h : SameSlot s st st') :
    Answers s (st.isAllContributorsDataCollected s) (st'.isAllContributorsDataCollected s) := by
  rw [ConsensusStorage.isAllContributorsDataCollected,
    ConsensusStorage.isAllContributorsDataCollected, h.keys]
  exact h.allOf _ _

theorem isElectionValueUnique (h : SameSlot s st st') (a : String) :
    Answers s (st.isElectionValueUnique a s) (st'.isElectionValueUnique a s) := by
  have haccess := h.access a
  simp only [ConsensusStorage.isElectionValueUnique, haccess.keys, haccess.context]
  obtain ⟨hanswer, hleft⟩ := haccess.anyOf (fun c =>
    some (decide (c.electionValue = ((st.access a s).context a s).electionValue)))
    ((st.access a s).contexts.keys.filter (· ≠ a))
  exact ⟨by rw [hanswer], hleft⟩

theorem isResolved (h : SameSlot s st st') (a : String) :
    Answers s (st.isResolved a s) (st'.isResolved a s) :=
  ⟨by simp only [ConsensusStorage.isResolved, h.context], h.access a⟩

theorem getBlock (h : SameSlot s st st') (a : String) :
    Answers s (st.getBlock a s) (st'.getBlock a s) :=
  ⟨by simp only [ConsensusStorage.getBlock, h.context], h.access a⟩

theorem markedValidator (h : SameSlot s st st') : st'.markedValidator s = st.markedValidator s := by
  simp only [ConsensusStorage.markedValidator, h.keys, h.context]

theorem getValidator (h : SameSlot s st st') :
    Answers s (st.getValidator s) (st'.getValidator s) :=
  ⟨by simp only [ConsensusStorage.getValidator, h.markedValidator], h.accessAll⟩

/-! ## Election and merging -/

theorem removeElectionValueDuplicates (h : SameSlot s st st') :
    SameSlot s (st.removeElectionValueDuplicates s) (st'.removeElectionValueDuplicates s) := by
  rw [ConsensusStorage.removeElectionValueDuplicates,
    ConsensusStorage.removeElectionValueDuplicates, duplicatedAddresses_eq,
    duplicatedAddresses_eq, h.keys]
  exact foldl (fun _ _ a h => h.modify a _) _ h.accessAll

theorem electedValidator (h : SameSlot s st st') :
    st'.electedValidator s = st.electedValidator s := by
  simp only [ConsensusStorage.electedValidator, electionSum, h.keys, h.context]
  rfl

theorem markValidator (h : SameSlot s st st') :
    (st.markValidator s = none ∧ st'.markValidator s = none) ∨
      ∃ r r', st.markValidator s = some r ∧ st'.markValidator s = some r' ∧ SameSlot s r r' := by
  rw [ConsensusStorage.markValidator, ConsensusStorage.markValidator, h.electedValidator]
  cases st.electedValidator s with
  | none => exact .inl ⟨rfl, rfl⟩
  | some v => exact .inr ⟨_, _, rfl, rfl, h.accessAll.modify _ _⟩

theorem contributedData (h : SameSlot s st st') (v : String) (as : List String) :
    st'.contributedData v s as = st.contributedData v s as := by
  induction as with
  | nil => rfl
  | cons a as ih => simp only [ConsensusStorage.contributedData, h.context, ih]

theorem mergeContributors (h : SameSlot s st st') (order : TimestampSort) :
    (st.mergeContributors order s = none ∧ st'.mergeContributors order s = none) ∨
      ∃ r r', st.mergeContributors order s = some r ∧ st'.mergeContributors order s = some r' ∧
        Answers s r r' := by
  simp only [ConsensusStorage.mergeContributors, h.markedValidator, Option.bind_eq_bind]
  cases st.markedValidator s with
  | none => exact .inl ⟨rfl, rfl⟩
  | some v =>
    have haccess := h.accessAll.access (cStr v)
    simp only [Option.bind_some, haccess.keys, haccess.contributedData, haccess.context]
    cases ((st.accessAll s).access (cStr v) s).contributedData (cStr v) s
      ((st.accessAll s).access (cStr v) s).contexts.keys with
    | none => exact .inl ⟨rfl, rfl⟩
    | some data => exact .inr ⟨_, _, rfl, rfl, rfl, haccess.addBlock (cStr v) _⟩

/-! ## The synchronization context -/

theorem initConditions (h : SameSlot s st st') :
    SameSlot s (st.initConditions s) (st'.initConditions s) := by
  have hflag : ∀ st : ConsensusStorage, (st.initConditions s).flag s =
      if st.flag s = none then some (some false) else st.flag s := by
    intro st
    rw [ConsensusStorage.initConditions]
    by_cases hs : s ∈ st.conditions.keys
    · have hne : st.flag s ≠ none := by
        rw [st.conditions.mem_keys, Option.isSome_iff_ne_none] at hs
        exact mt flag_eq_none.1 hs
      rw [if_pos hs, if_neg hne]
    · have heq : st.flag s = none := by
        rw [st.conditions.mem_keys, Option.not_isSome_iff_eq_none] at hs
        exact flag_eq_none.2 hs
      rw [if_neg hs, if_pos heq, ConsensusStorage.flag, UnorderedMap.find_set_self]
      simp [loadSynchronized]
  have hcases : ∀ st : ConsensusStorage,
      (st.initConditions s).contexts = st.contexts ∧
        (st.initConditions s).nodeConfiguration = st.nodeConfiguration ∧
        (st.initConditions s).stamp = st.stamp := by
    intro st
    rw [ConsensusStorage.initConditions]
    split <;> exact ⟨rfl, rfl, rfl⟩
  constructor
  case nodeConfiguration => rw [(hcases st).2.1, (hcases st').2.1, h.nodeConfiguration]
  case keys => rw [(hcases st).1, (hcases st').1, h.keys]
  case context => exact fun a => by rw [context_initConditions, context_initConditions, h.context]
  case flag => rw [hflag, hflag, h.flag]
  case stamp => exact fun a => by rw [(hcases st).2.2, (hcases st').2.2, h.stamp]

theorem getSlotSynchronizationContext (h : SameSlot s st st') :
    SameSlot s (st.getSlotSynchronizationContext s).2 (st'.getSlotSynchronizationContext s).2 := by
  have hnone : st'.conditions.find s = none ↔ st.conditions.find s = none := by
    rw [← flag_eq_none, ← flag_eq_none, h.flag]
  rw [ConsensusStorage.getSlotSynchronizationContext,
    ConsensusStorage.getSlotSynchronizationContext]
  cases hs : st.conditions.find s with
  | none =>
    rw [hnone.2 hs]
    exact ⟨h.nodeConfiguration, h.keys, h.context, by simp [ConsensusStorage.flag], h.stamp⟩
  | some p =>
    obtain ⟨q, hq⟩ := Option.ne_none_iff_exists'.1 (mt hnone.1 (by simp [hs]))
    rw [hq]
    exact h

theorem flag_storeSynchronized {p : ℕ} (hp : st.conditions.find s = some (some p))
    (hlt : p < st.allocated.length) (b : Bool) :
    (st.storeSynchronized p b).flag s = some (some b) := by
  have hfind : (st.storeSynchronized p b).conditions.find s = some (some p) := hp
  rw [flag_eq_some hfind]
  simp [loadSynchronized, storeSynchronized, hlt]

/-- Each storage has a pointer of its own to the context. -/
theorem storeSynchronized (h : SameSlot s st st') {p p' : ℕ}
    (hp : st.conditions.find s = some (some p)) (hp' : st'.conditions.find s = some (some p'))
    (hlt : p < st.allocated.length) (hlt' : p' < st'.allocated.length) (b : Bool) :
    SameSlot s (st.storeSynchronized p b) (st'.storeSynchronized p' b) where
  nodeConfiguration := h.nodeConfiguration
  keys := h.keys
  context := h.context
  flag := by rw [flag_storeSynchronized hp hlt, flag_storeSynchronized hp' hlt']
  stamp := h.stamp

theorem loadSynchronized_eq (h : SameSlot s st st') {p p' : ℕ}
    (hp : st.conditions.find s = some (some p)) (hp' : st'.conditions.find s = some (some p')) :
    st'.loadSynchronized p' = st.loadSynchronized p := by
  have hflag := h.flag
  rw [flag_eq_some hp, flag_eq_some hp'] at hflag
  exact Option.some.inj (Option.some.inj hflag)

theorem clearSlot (h : SameSlot s st st') : SameSlot s (st.clearSlot s) (st'.clearSlot s) where
  nodeConfiguration := h.nodeConfiguration
  keys := h.keys
  context a := by rw [context_clearSlot, context_clearSlot, if_pos rfl, if_pos rfl, h.stamp]
  flag := by
    have hflag : ∀ st : ConsensusStorage, (st.clearSlot s).flag s =
        if st.contexts.keys = [] then st.flag s else none := by
      intro st
      rw [ConsensusStorage.flag, ConsensusStorage.clearSlot]
      split
      · rfl
      · simp
    rw [hflag, hflag, h.keys, h.flag]
  stamp a := by
    funext k
    simp only [ConsensusStorage.clearSlot, if_pos, h.stamp]

/-! ## Calls for another slot -/

/-- A storage that differs in another slot, and holds the same addresses. -/
theorem of_apart (h : Apart s' st st') (hs : s ≠ s')
    (hnodeConfiguration : st'.nodeConfiguration = st.nodeConfiguration)
    (hkeys : st'.contexts.keys = st.contexts.keys)
    (hload : ∀ p, st.conditions.find s = some (some p) →
      st'.loadSynchronized p = st.loadSynchronized p) : SameSlot s st st' where
  nodeConfiguration := hnodeConfiguration
  keys := hkeys
  context a := h.context a hs
  flag := by
    rw [ConsensusStorage.flag, ConsensusStorage.flag, h.condition s hs]
    rcases hp : st.conditions.find s with _ | _ | p
    · rfl
    · rfl
    · simp [hload p hp]
  stamp a := h.stamp a s hs

end SameSlot

end ConsensusStorage

end BlockchainMessaging
