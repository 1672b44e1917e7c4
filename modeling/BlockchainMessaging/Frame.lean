import Mathlib.Data.List.Infix
import BlockchainMessaging.Plain
import BlockchainMessaging.Touched

/-!
# Slots do not interfere

Slots are worked on by overlapping threads over one table, in which even queries insert entries.
A call for one slot touches the entries and the synchronization context of this slot only; and
while it is made for an address that the table holds, it does not change which addresses a
query of another slot ranges over.  The marked validator is the exception: its address makes a
round trip through a C string, and an address with a NUL byte comes back as another one.

## Main definitions

* `StorageCall`, `StorageCall.run` — the public methods for a slot, and what they leave.
* `SameAnswers` — all queries of a slot agree.
* `sameAnswers_of_calls` — no sequence of calls for one slot changes an answer for another.
-/

namespace BlockchainMessaging

namespace ConsensusStorage

variable {st st' : ConsensusStorage} {s s' : ℕ}

/-! ## The public methods -/

/-- What the loop of `mergeContributors` has appended when it meets a missing flag. -/
def contributedBefore (st : ConsensusStorage) (validator : String) (slot : ℕ) :
    List String → List Message
  | [] => []
  | address :: rest =>
      if address = validator then contributedBefore st validator slot rest
      else match (st.context address slot).isContributing with
        | some true => (st.context address slot).block.data ++
            contributedBefore st validator slot rest
        | some false => contributedBefore st validator slot rest
        | none => []

/-- What `mergeContributors` leaves when it throws: without a marked validator before the loop,
and at a missing flag in it. -/
def mergeContributorsThrown (st : ConsensusStorage) (slot : ℕ) : ConsensusStorage :=
  match st.markedValidator slot with
  | none => st.accessAll slot
  | some marked =>
      let validator := cStr marked
      let st := (st.accessAll slot).access validator slot
      let block := (st.context validator slot).block
      st.addBlock validator slot { block with
        data := block.data ++ st.contributedBefore validator slot st.contexts.keys }

/-- The public methods, all for one slot. -/
inductive StorageCall
  | areAllContributorsConfirmed
  | isAnyNodeContributing
  | areAllElectionValuesPresent
  | isElectionValueUnique (address : String)
  | removeElectionValueDuplicates
  | getValidator
  | isAllContributorsDataCollected
  | isResolved (address : String)
  | getBlock (address : String)
  | initContexts
  | initConditions
  | getSlotSynchronizationContext
  | clearSlot
  | addContext (address node : String)
  | setContribution (address : String) (isContributing : Bool)
  | markValidator
  | fillElectionValue (address : String) (electionValue : ℕ)
  | addBlock (address : String) (block : Block)
  | marAsResolved (address : String)
  | mergeContributors
  deriving DecidableEq, Repr

/-- The address that a call is made for. -/
def StorageCall.address : StorageCall → Option String
  | .isElectionValueUnique address | .isResolved address | .getBlock address
  | .addContext address _ | .setContribution address _ | .fillElectionValue address _
  | .addBlock address _ | .marAsResolved address => some address
  | _ => none

/-- What a call for `slot` leaves, whether it returns or throws. -/
def StorageCall.run (order : TimestampSort) (slot : ℕ) (st : ConsensusStorage) :
    StorageCall → ConsensusStorage
  | .areAllContributorsConfirmed => (st.areAllContributorsConfirmed slot).2
  | .isAnyNodeContributing => (st.isAnyNodeContributing slot).2
  | .areAllElectionValuesPresent => (st.areAllElectionValuesPresent slot).2
  | .isElectionValueUnique address => (st.isElectionValueUnique address slot).2
  | .removeElectionValueDuplicates => st.removeElectionValueDuplicates slot
  | .getValidator => (st.getValidator slot).2
  | .isAllContributorsDataCollected => (st.isAllContributorsDataCollected slot).2
  | .isResolved address => (st.isResolved address slot).2
  | .getBlock address => (st.getBlock address slot).2
  | .initContexts => st.initContexts slot
  | .initConditions => st.initConditions slot
  | .getSlotSynchronizationContext => (st.getSlotSynchronizationContext slot).2
  | .clearSlot => st.clearSlot slot
  | .addContext address node => st.addContext address node slot
  | .setContribution address isContributing => st.setContribution address slot isContributing
  | .markValidator => (st.markValidator slot).getD st
  | .fillElectionValue address electionValue => st.fillElectionValue address slot electionValue
  | .addBlock address block => st.addBlock address slot block
  | .marAsResolved address => st.marAsResolved address slot
  | .mergeContributors =>
      ((st.mergeContributors order slot).map Prod.snd).getD (st.mergeContributorsThrown slot)

/-- The addresses that a call names. -/
def StorageCall.Names (st : ConsensusStorage) (call : StorageCall) (a : String) : Prop :=
  a ∈ call.address ∨ call = .initContexts ∧ a ∈ st.nodeConfiguration.addresses

/-- **What a call touches**, whether it returns or throws. -/
theorem StorageCall.touched (order : TimestampSort) (s : ℕ) (st : ConsensusStorage)
    (call : StorageCall) : Touched (call.Names st) s st (call.run order s st) := by
  cases call with
  | areAllContributorsConfirmed | areAllElectionValuesPresent | isAllContributorsDataCollected =>
    exact touched_allOf _ _ _ _ _ fun _ ha => ha
  | isAnyNodeContributing => exact touched_anyOf _ _ _ _ _ fun _ ha => ha
  | isElectionValueUnique a => exact touched_isElectionValueUnique _ _ _ (.inl rfl)
  | removeElectionValueDuplicates => exact touched_removeElectionValueDuplicates _ _ _
  | getValidator => exact touched_accessAll _ _ _
  | initContexts => exact touched_foldl_access _ _ _ _ fun a ha => .inl (.inr ⟨rfl, ha⟩)
  | initConditions => exact touched_initConditions _ _ _
  | getSlotSynchronizationContext => exact touched_getSlotSynchronizationContext _ _ _
  | clearSlot => exact Touched.refl.clear
  | isResolved | getBlock | addContext | setContribution | fillElectionValue | addBlock |
    marAsResolved => exact touched_write (.inl (.inl rfl)) _
  | markValidator =>
    cases h : st.markValidator s with
    | none => simp only [run, h, Option.getD_none]; exact .refl
    | some st' =>
      simp only [run, h, Option.getD_some]
      exact touched_markValidator _ _ _ h
  | mergeContributors =>
    cases h : st.mergeContributors order s with
    | some r =>
      simp only [run, h, Option.map_some, Option.getD_some]
      exact touched_mergeContributors _ _ _ h
    | none =>
      simp only [run, h, Option.map_none, Option.getD_none, mergeContributorsThrown]
      split
      · exact touched_accessAll _ _ _
      · next v hv => exact touched_addBlock_marked _ _ _ hv _

/-- A storage whose table holds all configured addresses, and no address with a NUL byte. -/
structure Configured (st : ConsensusStorage) : Prop where
  mem_keys : ∀ a ∈ st.nodeConfiguration.addresses, a ∈ st.contexts.keys
  cString : ∀ a ∈ st.contexts.keys, cStr a = a

/-- The call is made for a configured address, if it is made for one. -/
def StorageCall.Configured (st : ConsensusStorage) (call : StorageCall) : Prop :=
  ∀ a ∈ call.address, a ∈ st.nodeConfiguration.addresses

/-- A call for a configured address adds no address. -/
theorem StorageCall.keys_run (order : TimestampSort) (s : ℕ) (h : st.Configured)
    {call : StorageCall} (hcall : call.Configured st) :
    (call.run order s st).contexts.keys = st.contexts.keys := by
  refine (call.touched order s st).keys_eq h.cString fun a ha => ?_
  rcases ha with ha | ⟨-, ha⟩
  · exact h.mem_keys a (hcall a ha)
  · exact h.mem_keys a ha

/-- Three calls do something to the synchronization contexts, all others only to the table. -/
theorem StorageCall.rest_run (order : TimestampSort) (s : ℕ) (st : ConsensusStorage)
    (call : StorageCall) : (call.run order s st).rest = st.rest ∨
      call ∈ [StorageCall.initConditions, .getSlotSynchronizationContext, .clearSlot] := by
  cases call with
  | initConditions | getSlotSynchronizationContext | clearSlot => exact .inr (by simp)
  | areAllContributorsConfirmed => exact .inl (rest_areAllContributorsConfirmed st s)
  | areAllElectionValuesPresent => exact .inl (rest_areAllElectionValuesPresent st s)
  | isAllContributorsDataCollected => exact .inl (rest_isAllContributorsDataCollected st s)
  | isAnyNodeContributing => exact .inl (rest_isAnyNodeContributing st s)
  | isElectionValueUnique a => exact .inl (rest_isElectionValueUnique st a s)
  | removeElectionValueDuplicates => exact .inl (rest_removeElectionValueDuplicates st s)
  | getValidator => exact .inl (rest_accessAll st s)
  | initContexts => exact .inl (rest_initContexts st s)
  | isResolved | getBlock | addContext | setContribution | fillElectionValue | addBlock |
    marAsResolved => exact .inl rfl
  | markValidator =>
    refine .inl ?_
    cases h : st.markValidator s with
    | none => simp only [run, h, Option.getD_none]
    | some st' => simpa only [run, h, Option.getD_some] using rest_markValidator h
  | mergeContributors =>
    refine .inl ?_
    cases h : st.mergeContributors order s with
    | some r =>
      simpa only [run, h, Option.map_some, Option.getD_some] using rest_mergeContributors h
    | none =>
      simp only [run, h, Option.map_none, Option.getD_none, mergeContributorsThrown]
      split
      · exact rest_accessAll st s
      · exact (rest_accessAll st s).symm ▸ rfl

/-- No call stores a flag, frees an object or changes the configuration. -/
theorem StorageCall.allocated_run (order : TimestampSort) (s : ℕ) (st : ConsensusStorage)
    (call : StorageCall) : st.allocated <+: (call.run order s st).allocated ∧
      (call.run order s st).nodeConfiguration = st.nodeConfiguration := by
  rcases call.rest_run order s st with h | h
  · rw [(rest_eq h).2.1]
    exact ⟨List.prefix_rfl, (rest_eq h).2.2.1⟩
  · simp only [List.mem_cons, List.not_mem_nil, or_false] at h
    rcases h with rfl | rfl | rfl
    · simp only [run, ConsensusStorage.initConditions]
      split
      · exact ⟨List.prefix_rfl, rfl⟩
      · exact ⟨List.prefix_append _ _, rfl⟩
    · simp only [run, ConsensusStorage.getSlotSynchronizationContext]
      split <;> exact ⟨List.prefix_rfl, rfl⟩
    · exact ⟨List.prefix_rfl, rfl⟩

/-! ## The answers of another slot -/

/-- Every query of the slot `s` has the same answer. -/
structure SameAnswers (st st' : ConsensusStorage) (s : ℕ) : Prop where
  areAllContributorsConfirmed :
    (st'.areAllContributorsConfirmed s).1 = (st.areAllContributorsConfirmed s).1
  isAnyNodeContributing : (st'.isAnyNodeContributing s).1 = (st.isAnyNodeContributing s).1
  areAllElectionValuesPresent :
    (st'.areAllElectionValuesPresent s).1 = (st.areAllElectionValuesPresent s).1
  isElectionValueUnique : ∀ a, (st'.isElectionValueUnique a s).1 = (st.isElectionValueUnique a s).1
  getValidator : (st'.getValidator s).1 = (st.getValidator s).1
  isAllContributorsDataCollected :
    (st'.isAllContributorsDataCollected s).1 = (st.isAllContributorsDataCollected s).1
  isResolved : ∀ a, (st'.isResolved a s).1 = (st.isResolved a s).1
  getBlock : ∀ a, (st'.getBlock a s).1 = (st.getBlock a s).1
  getSlotSynchronizationContext :
    (st'.getSlotSynchronizationContext s).1 = (st.getSlotSynchronizationContext s).1
  loadSynchronized : ∀ p < st.allocated.length, st'.loadSynchronized p = st.loadSynchronized p

theorem allOf_answer_congr (p : ConsensusContext → Option Bool) (s : ℕ) (as : List String) :
    ∀ st st' : ConsensusStorage, (∀ a, st'.context a s = st.context a s) →
      (allOf p s as st').1 = (allOf p s as st).1 := by
  induction as with
  | nil => intro st st' _; rfl
  | cons a as ih =>
    intro st st' h
    simp only [allOf, h a]
    split
    · exact ih _ _ fun b => by rw [context_access, context_access, h b]
    · rfl

theorem anyOf_answer_congr (p : ConsensusContext → Option Bool) (s : ℕ) (as : List String) :
    ∀ st st' : ConsensusStorage, (∀ a, st'.context a s = st.context a s) →
      (anyOf p s as st').1 = (anyOf p s as st).1 := by
  induction as with
  | nil => intro st st' _; rfl
  | cons a as ih =>
    intro st st' h
    simp only [anyOf, h a]
    split
    · exact ih _ _ fun b => by rw [context_access, context_access, h b]
    · rfl

/-- Two storages that differ in another slot, and hold the same addresses. -/
theorem sameAnswers (h : Apart s st st') (hkeys : st'.contexts.keys = st.contexts.keys)
    (hallocated : st.allocated <+: st'.allocated) (hs : s' ≠ s) : SameAnswers st st' s' := by
  have hcontext : ∀ a, st'.context a s' = st.context a s' := fun a => h.context a hs
  constructor
  case areAllContributorsConfirmed =>
    rw [ConsensusStorage.areAllContributorsConfirmed, hkeys]
    exact allOf_answer_congr _ _ _ _ _ hcontext
  case isAnyNodeContributing =>
    rw [ConsensusStorage.isAnyNodeContributing, hkeys]
    exact anyOf_answer_congr _ _ _ _ _ hcontext
  case areAllElectionValuesPresent =>
    rw [ConsensusStorage.areAllElectionValuesPresent, hkeys]
    exact allOf_answer_congr _ _ _ _ _ hcontext
  case isElectionValueUnique =>
    intro a
    have haccess : (st'.access a s').contexts.keys = (st.access a s').contexts.keys := by
      by_cases ha : a ∈ st.contexts.keys
      · rw [access, access, keys_write_of_mem ha, keys_write_of_mem (by rwa [hkeys]), hkeys]
      · simp only [access, write, UnorderedMap.set, hkeys, ha, if_false]
    simp only [ConsensusStorage.isElectionValueUnique, haccess, context_access, hcontext]
    rw [anyOf_answer_congr _ _ _ (st.access a s') (st'.access a s') fun b => by
      rw [context_access, context_access, hcontext]]
  case getValidator =>
    simp only [ConsensusStorage.getValidator, markedValidator, hkeys, hcontext]
  case isAllContributorsDataCollected =>
    rw [ConsensusStorage.isAllContributorsDataCollected, hkeys]
    exact allOf_answer_congr _ _ _ _ _ hcontext
  case isResolved => exact fun a => by simp only [ConsensusStorage.isResolved, hcontext]
  case getBlock => exact fun a => by simp only [ConsensusStorage.getBlock, hcontext]
  case getSlotSynchronizationContext =>
    simp only [ConsensusStorage.getSlotSynchronizationContext, h.condition s' hs]
    split <;> rfl
  case loadSynchronized =>
    intro p hp
    obtain ⟨new, hnew⟩ := hallocated
    rw [ConsensusStorage.loadSynchronized, ← hnew, List.getElem?_append_left hp,
      ConsensusStorage.loadSynchronized]

/-- What a sequence of calls for the slot `s` leaves. -/
def runCalls (order : TimestampSort) (s : ℕ) (st : ConsensusStorage) (calls : List StorageCall) :
    ConsensusStorage :=
  calls.foldl (fun st call => call.run order s st) st

/-- **Slots do not interfere.**  No sequence of calls for the slot `s`, made for configured
addresses, changes the answer of a query of another slot. -/
theorem sameAnswers_of_calls (order : TimestampSort) (h : st.Configured) {calls : List StorageCall}
    (hcalls : ∀ call ∈ calls, call.Configured st) (hs : s' ≠ s) :
    SameAnswers st (runCalls order s st calls) s' := by
  have hrun : ∀ (calls : List StorageCall) (st : ConsensusStorage), st.Configured →
      (∀ call ∈ calls, call.Configured st) →
      Apart s st (runCalls order s st calls) ∧
        (runCalls order s st calls).contexts.keys = st.contexts.keys ∧
        st.allocated <+: (runCalls order s st calls).allocated := by
    intro calls
    induction calls with
    | nil => exact fun st _ _ => ⟨.refl s st, rfl, List.prefix_rfl⟩
    | cons call calls ih =>
      intro st h hcalls
      rw [List.forall_mem_cons] at hcalls
      have hkeys := StorageCall.keys_run order s h hcalls.1
      obtain ⟨hallocated, hconfiguration⟩ := call.allocated_run order s st
      obtain ⟨hapart, hkeys', hallocated'⟩ := ih (call.run order s st)
        ⟨by rw [hconfiguration, hkeys]; exact h.mem_keys, by rw [hkeys]; exact h.cString⟩
        (fun c hc a ha => by rw [hconfiguration]; exact hcalls.2 c hc a ha)
      exact ⟨(call.touched order s st).apart.trans hapart, hkeys'.trans hkeys,
        hallocated.trans hallocated'⟩
  obtain ⟨hapart, hkeys, hallocated⟩ := hrun calls st h hcalls
  exact sameAnswers hapart hkeys hallocated hs

/-- The table of a node without peers, which has confirmed its contribution to slot 2. -/
def confirmed (a : String) : ConsensusStorage :=
  (emptyStorage (plainEnv a [] 2 [] (fun _ => 5) five_range)).setContribution a 2 true

/-- Slot 3 comes and goes. -/
theorem sameAnswers_of_calls_confirmed : SameAnswers (confirmed "a")
    (runCalls mergeSort 3 (confirmed "a")
      [.initConditions, .initContexts, .fillElectionValue "a" 5, .markValidator, .clearSlot]) 2 :=
  sameAnswers_of_calls mergeSort ⟨by decide +kernel, by decide +kernel⟩
    (by simp [StorageCall.Configured, StorageCall.address]; decide +kernel)
    (by decide)

/-- The mark of an address with a NUL byte in slot 3 adds an address to slot 2. -/
theorem not_sameAnswers_of_calls_nul :
    ¬ ∀ (order : TimestampSort) (st : ConsensusStorage) (s s' : ℕ) (calls : List StorageCall),
      (∀ a ∈ st.nodeConfiguration.addresses, a ∈ st.contexts.keys) →
      (∀ call ∈ calls, call.Configured st) → s' ≠ s →
      SameAnswers st (runCalls order s st calls) s' := by
  intro hall
  have h := (hall mergeSort (confirmed "a\x00") 3 2 [.markValidator] (by decide +kernel)
    (by simp [StorageCall.Configured, StorageCall.address]) (by decide)).areAllContributorsConfirmed
  exact absurd h (by decide +kernel)

end ConsensusStorage

end BlockchainMessaging
