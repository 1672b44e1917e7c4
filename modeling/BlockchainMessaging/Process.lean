import Mathlib.Logic.Function.Basic
import BlockchainMessaging.HandlerSpec

/-!
# A node with all its slots

The timer starts a run of `SlotHandler` in every slot, and does not wait for the run before it.
So any number of runs work on one storage and one chain, next to the consensus thread, which
takes the messages for all slots.  A notification wakes the runs that wait on the same
synchronization context.  An exception in any of the threads ends the process.

In each tick the timer also makes the two calls of the init callback, before it starts the thread of
the run, or after it; then the thread may be anywhere when they are made.

## Main definitions

* `InitCall` — the calls of the init callback.
* `Process`, `Process.step` — the machine.
-/

namespace BlockchainMessaging

/-- The calls of the init callback of a tick. -/
inductive InitCall
  | initConditions
  | initContexts
  deriving DecidableEq, Repr

/-- One of these calls. -/
def InitCall.exec (call : InitCall) (slot : ℕ) (st : ConsensusStorage) : ConsensusStorage :=
  match call with
  | .initConditions => st.initConditions slot
  | .initContexts => st.initContexts slot

namespace InitCall

variable (call : InitCall) (slot : ℕ) (st : ConsensusStorage)

theorem exec_touched :
    ConsensusStorage.Touched (· ∈ st.nodeConfiguration.addresses) slot st (call.exec slot st) := by
  cases call with
  | initConditions => exact ConsensusStorage.touched_initConditions _ _ _
  | initContexts => exact ConsensusStorage.touched_foldl_access _ _ _ _ fun _ ha => .inl ha

theorem exec_nodeConfiguration :
    (call.exec slot st).nodeConfiguration = st.nodeConfiguration := by
  cases call with
  | initConditions =>
    simp only [exec, ConsensusStorage.initConditions]
    split <;> rfl
  | initContexts => exact (ConsensusStorage.rest_eq (st.rest_initContexts slot)).2.2.1

theorem exec_pointersOk {st : ConsensusStorage} (h : st.PointersOk) :
    (call.exec slot st).PointersOk := by
  cases call with
  | initConditions => exact h.initConditions slot
  | initContexts => exact h.of_rest (st.rest_initContexts slot)

/-- The contexts that are there stay. -/
theorem exec_find {st : ConsensusStorage} {s : ℕ} {o : Option ℕ}
    (h : st.conditions.find s = some o) : (call.exec slot st).conditions.find s = some o := by
  cases call with
  | initConditions =>
    rw [exec, ConsensusStorage.find_initConditions, if_neg, h]
    rintro ⟨rfl, hnone⟩
    simp [hnone] at h
  | initContexts => rwa [exec, (ConsensusStorage.rest_eq (st.rest_initContexts slot)).1]

end InitCall

/-- The calls that the callback has still to make, before the thread of the run has begun. -/
def SlotPc.initCalls : SlotPc → List InitCall
  | .initConditions => [.initConditions, .initContexts]
  | .initContexts => [.initContexts]
  | _ => []

/-- The process of a node: what its threads share, what is each run's own, and the messages that
the consensus thread has received so far. -/
structure Process (ι : Type) where
  storage : ConsensusStorage
  chain : List String := []
  header : Header := {}
  todo : List HandlerOp := []
  failure : Option Failure := none
  run : ι → Node
  /-- The init calls that come after the thread of the run has begun. -/
  late : ι → List InitCall := fun _ => []
  received : List ConsensusMessage := []

/-- What can happen in a process. -/
inductive ProcessAction (ι : Type)
  /-- A call of a slot thread, or one of the init callback before the thread begins. -/
  | slot (r : ι)
  /-- A slot thread begins, before the init callback is through. -/
  | begin (r : ι)
  /-- A call of the init callback after that. -/
  | init (r : ι)
  /-- The sleep of a slot thread ends. -/
  | wake (r : ι)
  /-- A call of the consensus thread. -/
  | handle
  /-- The consensus thread receives a message. -/
  | receive (m : ConsensusMessage)
  deriving DecidableEq, Repr

namespace Process

variable {ι : Type}

/-- What a thread with the state `n` of its own sees. -/
def view (p : Process ι) (n : Node) : Node :=
  { n with
    storage := p.storage
    chain := p.chain
    header := p.header
    todo := p.todo
    failure := p.failure }

/-- What the consensus thread sees: it waits for nothing. -/
def consensus (p : Process ι) : Node :=
  { storage := p.storage, chain := p.chain, header := p.header, todo := p.todo,
    failure := p.failure }

/-- One step. -/
def step [DecidableEq ι] (E : ι → SlotEnv) (p : Process ι) :
    ProcessAction ι → Option (Process ι)
  | .slot r => (slotStep (E r) (p.view (p.run r))).map fun n =>
      { p with
        storage := n.1.storage
        chain := n.1.chain
        failure := n.1.failure
        run := Function.update p.run r n.1 }
  | .begin r =>
      if p.failure.isSome || (p.run r).pc.initCalls = [] then none
      else some { p with
        run := Function.update p.run r { p.run r with pc := .saveAdd }
        late := Function.update p.late r (p.run r).pc.initCalls }
  | .init r =>
      match p.late r with
      | [] => none
      | call :: calls =>
          if p.failure.isSome then none
          else some { p with
            storage := call.exec (E r).slot p.storage
            late := Function.update p.late r calls }
  | .wake r => (wakeStep (p.view (p.run r))).map fun n =>
      { p with run := Function.update p.run r n }
  | .handle => (handlerStep p.consensus).map fun n =>
      { p with
        storage := n.storage
        todo := n.todo
        failure := n.failure
        -- A notification is for every run that waits.
        run := fun r => (handlerStep (p.view (p.run r))).getD (p.run r) }
  | .receive m => (receiveStep m p.consensus).map fun n =>
      { p with
        header := n.header
        todo := n.todo
        failure := n.failure
        received := p.received ++ [m] }

variable [DecidableEq ι] {E : ι → SlotEnv} {p p' : Process ι}

theorem step_slot_eq_some {r : ι} (h : step E p (.slot r) = some p') :
    p.failure = none ∧ (p.run r).pc.blocked = false ∧
      ∃ n, n = (slotMove (E r) (p.view (p.run r))).1 ∧ p' = { p with
        storage := n.storage
        chain := n.chain
        failure := n.failure
        run := Function.update p.run r n } := by
  obtain ⟨n, hn, rfl⟩ := Option.map_eq_some_iff.1 h
  obtain ⟨hf, hb, rfl⟩ := slotStep_eq_some hn
  exact ⟨hf, hb, _, rfl, rfl⟩

theorem step_begin_eq_some {r : ι} (h : step E p (.begin r) = some p') :
    p.failure = none ∧ (p.run r).pc.rank ≤ 1 ∧ p' = { p with
      run := Function.update p.run r { p.run r with pc := .saveAdd }
      late := Function.update p.late r (p.run r).pc.initCalls } := by
  simp only [step] at h
  split at h
  · cases h
  · next hok =>
    cases h
    simp only [Bool.or_eq_true, decide_eq_true_eq, not_or, Option.not_isSome_iff_eq_none] at hok
    have hrank : ∀ pc : SlotPc, pc.initCalls ≠ [] → pc.rank ≤ 1 := by
      intro pc hpc
      cases pc <;> first | exact absurd rfl hpc | decide
    exact ⟨by simpa using hok.1, hrank _ hok.2, rfl⟩

theorem step_init_eq_some {r : ι} (h : step E p (.init r) = some p') :
    ∃ call calls, p.late r = call :: calls ∧ p' = { p with
      storage := call.exec (E r).slot p.storage
      late := Function.update p.late r calls } := by
  simp only [step] at h
  split at h
  · cases h
  · next call calls hlate =>
    split at h
    · cases h
    · cases h
      exact ⟨call, calls, hlate, rfl⟩

theorem step_wake_eq_some {r : ι} (h : step E p (.wake r) = some p') :
    ∃ w, (p.run r).pc = .wait w .asleep ∧ p' = { p with
      run := Function.update p.run r { p.view (p.run r) with pc := .wait w .eval } } := by
  obtain ⟨n, hn, rfl⟩ := Option.map_eq_some_iff.1 h
  obtain ⟨-, w, hpc, rfl⟩ := wakeStep_eq_some hn
  exact ⟨w, hpc, rfl⟩

theorem step_handle_eq_some (h : step E p .handle = some p') :
    p.failure = none ∧ ∃ op rest n, p.todo = op :: rest ∧
      n = op.exec { p.consensus with todo := rest } ∧ p' = { p with
        storage := n.storage
        todo := n.todo
        failure := n.failure
        run := fun r => op.exec { p.view (p.run r) with todo := rest } } := by
  obtain ⟨n, hn, rfl⟩ := Option.map_eq_some_iff.1 h
  obtain ⟨hf, op, rest, htodo, rfl⟩ := handlerStep_eq_some hn
  have hf' : p.failure = none := hf
  have htodo' : p.todo = op :: rest := htodo
  refine ⟨hf', op, rest, _, htodo', rfl, ?_⟩
  have hrun : ∀ r, (handlerStep (p.view (p.run r))).getD (p.run r) =
      op.exec { p.view (p.run r) with todo := rest } := fun r => by
    simp [handlerStep, view, htodo', hf']
  simp only [hrun]

theorem step_receive_eq_some {m : ConsensusMessage} (h : step E p (.receive m) = some p') :
    p.todo = [] ∧ p'.storage = p.storage ∧ p'.run = p.run ∧
      p'.received = p.received ++ [m] ∧
      (p'.todo ≠ [] → p'.header = m.header) := by
  obtain ⟨n, hn, rfl⟩ := Option.map_eq_some_iff.1 h
  obtain ⟨-, htodo, hm⟩ := receiveStep_eq_some hn
  refine ⟨htodo, rfl, rfl, rfl, fun hne => ?_⟩
  split at hm
  · rw [hm]
  · rw [hm] at hne
    exact absurd htodo hne

/-- No slot was begun yet. -/
def start (st : ConsensusStorage) : Process ι where
  storage := st
  run := fun _ => { storage := st, chain := [] }

end Process

end BlockchainMessaging
