import BlockchainMessaging.SingleNode

/-!
# A tick of the timer wheel

On every tick the wheel calls its callbacks one after the other, in the order in which an
unordered map iterates over them.  One callback reads the clock and initialises the slot;
one starts `SlotHandler` in a thread of its own, which takes its slot from the stamp of the
block that it works on; one saves the database and touches nothing else.

The clock moves on at any time, client messages arrive at any time, and the thread runs as
soon as it is started.  So nothing keeps the thread from its first look at the slot before
the slot is initialised, and nothing keeps it on the slot that was initialised, unless the
init callback comes first and the block is stamped in the slot that this callback read.

## Main definitions

* `Callback`, `Tick`, `TickAction`, `Tick.step` — the machine.
* `Tick.InSlot` — the condition on a step.
* `Tick.Initialised` — what the slot thread may rely on.
-/

namespace BlockchainMessaging

/-- The three subscriptions of `main`. -/
inductive Callback
  | init
  | handler
  | save
  deriving DecidableEq, Repr

/-- What is left of the init callback. -/
inductive InitPc
  | getSlot
  | initConditions (slot : ℕ)
  | initContexts (slot : ℕ)
  deriving DecidableEq, Repr

/-- Where the thread of `SlotHandler` stands.  Once it has its block, it is a `Node`. -/
inductive HandlerPc
  | notStarted
  | bufferSave
  | bufferPop
  | running
  deriving DecidableEq, Repr

/-- The state of one tick. -/
structure Tick where
  clock : ℕ
  /-- The callbacks still to be called, in the order of the iteration. -/
  callbacks : List Callback
  /-- The init callback while it runs. -/
  initPc : Option InitPc := none
  handlerPc : HandlerPc := .notStarted
  buffer : Buffer
  /-- What the thread has from outside; `pop` fills in the block. -/
  env : SlotEnv
  node : Node
  /-- The slot that both calls of the init callback were made for, once they are made. -/
  initialised : Option ℕ := none

/-- What can happen during a tick. -/
inductive TickAction
  /-- The clock shows a later time. -/
  | advance (time : ℕ)
  /-- A client message arrives. -/
  | push (message : Message)
  /-- The wheel goes on. -/
  | wheel
  /-- The thread of `SlotHandler` goes on. -/
  | thread
  deriving DecidableEq, Repr

namespace Tick

/-- The next step of the wheel. -/
def wheelStep (s : Tick) : Option Tick :=
  match s.initPc with
  | some .getSlot => some { s with initPc := some (.initConditions (Time.getSlot s.clock)) }
  | some (.initConditions slot) =>
      some { s with
        initPc := some (.initContexts slot)
        node := { s.node with storage := s.node.storage.initConditions slot } }
  | some (.initContexts slot) =>
      some { s with
        initPc := none
        initialised := some slot
        node := { s.node with storage := s.node.storage.initContexts slot } }
  | none =>
      match s.callbacks with
      | [] => none
      | .init :: rest => some { s with callbacks := rest, initPc := some .getSlot }
      | .handler :: rest => some { s with callbacks := rest, handlerPc := .bufferSave }
      | .save :: rest => some { s with callbacks := rest }

/-- The block that the thread gets when it pops now. -/
def nextBlock (s : Tick) : Block := s.buffer.pop.1.getD (Block.ofData s.clock [])

/-- The next step of the thread. -/
def threadStep (s : Tick) : Option Tick :=
  match s.handlerPc with
  | .notStarted => none
  | .bufferSave => some { s with buffer := s.buffer.save s.clock, handlerPc := .bufferPop }
  | .bufferPop =>
      some { s with
        buffer := s.buffer.pop.2
        env := { s.env with
          popped := s.buffer.pop.1
          popped_queued := Buffer.queued_of_pop
          now := s.clock }
        handlerPc := .running }
  | .running => (slotStep s.env s.node).map fun r => { s with node := r.1 }

/-- One step of a tick. -/
def step (s : Tick) : TickAction → Option Tick
  | .advance time => if s.clock ≤ time then some { s with clock := time } else none
  | .push message => some { s with buffer := s.buffer.push message }
  | .wheel => s.wheelStep
  | .thread => s.threadStep

/-- A tick begins: the wheel is about to call its callbacks in some order. -/
structure Begins (s : Tick) : Prop where
  callbacks : s.callbacks.Perm [.init, .handler, .save]
  initPc : s.initPc = none
  handlerPc : s.handlerPc = .notStarted
  pc : s.node.pc = .saveAdd
  initialised : s.initialised = none
  configuration : s.node.storage.nodeConfiguration = s.env.configuration

/-- The thread is started when the init callback has returned, and the block that it works
on is stamped in the slot that this callback read. -/
def InSlot (s : Tick) : TickAction → Prop
  | .wheel => s.initPc = none → s.callbacks.head? = some .handler → .init ∉ s.callbacks
  | .thread => s.handlerPc = .bufferPop → some s.nextBlock.slot = s.initialised
  | _ => True

instance (s : Tick) (a : TickAction) : Decidable (InSlot s a) := by
  unfold InSlot
  split <;> infer_instance

/-- From its first look at the synchronization contexts on, the slot that the thread works
on is the one that was initialised in this tick, and the table holds the node itself and
all configured nodes. -/
def Initialised (s : Tick) : Prop :=
  7 ≤ s.node.pc.rank → s.initialised = some s.node.context.header.slot ∧
    ∀ a ∈ s.env.configuration.addresses, a ∈ s.node.storage.contexts.keys

/-! ## The invariant -/

/-- The init callback comes first, the thread only starts when it is through, and works on
a block of its slot. -/
structure Inv (s : Tick) : Prop where
  nodup : s.callbacks.Nodup
  origin : .init ∈ s.callbacks ∨ s.initPc ≠ none ∨ s.initialised ≠ none
  once : s.initPc ≠ none ∨ s.initialised ≠ none → .init ∉ s.callbacks
  done : s.initialised ≠ none → s.initPc = none
  fresh : .handler ∈ s.callbacks → s.handlerPc = .notStarted
  started : s.handlerPc ≠ .notStarted → s.initialised ≠ none
  waiting : s.handlerPc ≠ .running → s.node.pc = .saveAdd
  configuration : s.handlerPc ≠ .running →
    s.node.storage.nodeConfiguration = s.env.configuration
  keys : s.initialised ≠ none →
    ∀ a ∈ s.env.configuration.addresses, a ∈ s.node.storage.contexts.keys
  block : s.handlerPc = .running → s.initialised = some s.env.pendingBlock.slot
  onSlot : s.node.OnSlot s.env

variable {s t : Tick}

theorem Begins.inv (h : Begins s) : Inv s where
  nodup := h.callbacks.nodup_iff.2 (by decide)
  origin := .inl (h.callbacks.mem_iff.2 (by decide))
  once hor := by simp [h.initPc, h.initialised] at hor
  done hi := absurd h.initialised hi
  fresh _ := h.handlerPc
  started hs := absurd h.handlerPc hs
  waiting _ := h.pc
  configuration _ := h.configuration
  keys hi := absurd h.initialised hi
  block hr := by simp [h.handlerPc] at hr
  onSlot := ⟨by simp [h.pc, SlotPc.rank], by simp [h.pc, SlotPc.rank]⟩

/-- Before the block is there, the thread is where it starts. -/
theorem Inv.onSlot_env (h : Inv s) (hr : s.handlerPc ≠ .running) (E : SlotEnv) :
    s.node.OnSlot E :=
  ⟨by simp [h.waiting hr, SlotPc.rank], by simp [h.waiting hr, SlotPc.rank]⟩

/-- As long as the init callback runs, the thread is not started. -/
theorem Inv.notStarted (h : Inv s) (hinit : s.initialised = none) :
    s.handlerPc = .notStarted := by
  by_contra hs
  exact h.started hs hinit

/-- The init callback keeps the invariant. -/
theorem Inv.wheel_init (h : Inv s) {pc : InitPc} (hpc : s.initPc = some pc)
    (hstep : s.wheelStep = some t) : Inv t := by
  rw [wheelStep] at hstep
  have hnone : s.initialised = none := by
    by_contra hi
    simp [h.done hi] at hpc
  have hnot := h.notStarted hnone
  have honce := h.once (.inl (by simp [hpc]))
  have hrun : s.handlerPc ≠ .running := by simp [hnot]
  cases pc with
  | getSlot =>
    simp only [hpc] at hstep
    cases hstep
    exact { h with
      origin := .inr (.inl (by simp))
      once := fun _ => honce
      done := fun hi => absurd hnone hi }
  | initConditions slot =>
    simp only [hpc] at hstep
    cases hstep
    have hconfiguration : (s.node.storage.initConditions slot).nodeConfiguration =
        s.node.storage.nodeConfiguration := by
      rw [ConsensusStorage.initConditions]
      split <;> rfl
    exact { h with
      origin := .inr (.inl (by simp))
      once := fun _ => honce
      done := fun hi => absurd hnone hi
      waiting := h.waiting
      configuration := fun hr => hconfiguration.trans (h.configuration hr)
      keys := fun hi => absurd hnone hi
      onSlot := ⟨h.onSlot.block, h.onSlot.header⟩ }
  | initContexts slot =>
    simp only [hpc] at hstep
    cases hstep
    have hconfiguration : (s.node.storage.initContexts slot).nodeConfiguration =
        s.node.storage.nodeConfiguration :=
      (ConsensusStorage.rest_eq (s.node.storage.rest_initContexts slot)).2.2.1
    exact { h with
      origin := .inr (.inr (by simp))
      once := fun _ => honce
      done := fun _ => rfl
      started := fun hs => absurd hnot hs
      waiting := h.waiting
      configuration := fun hr => hconfiguration.trans (h.configuration hr)
      keys := fun _ a ha => s.node.storage.mem_keys_initContexts slot (by
        rw [h.configuration hrun]
        exact ha)
      block := fun hr => absurd hr hrun
      onSlot := ⟨h.onSlot.block, h.onSlot.header⟩ }

/-- The call of the next callback keeps the invariant. -/
theorem Inv.wheel_callback (h : Inv s) (hpc : s.initPc = none) (hok : s.InSlot .wheel)
    (hstep : s.wheelStep = some t) : Inv t := by
  rw [wheelStep] at hstep
  simp only [hpc] at hstep
  have hnodup := h.nodup
  have horigin := h.origin
  have honce := h.once
  have hfresh := h.fresh
  rw [hpc] at horigin honce
  cases hcallbacks : s.callbacks with
  | nil => simp [hcallbacks] at hstep
  | cons c rest =>
    rw [hcallbacks] at hnodup horigin honce hfresh
    simp only [hcallbacks] at hstep
    have hnodup' := List.nodup_cons.1 hnodup
    cases c with
    | init =>
      cases hstep
      have hnone : s.initialised = none := by
        by_contra hi
        exact honce (.inr hi) List.mem_cons_self
      exact { h with
        nodup := hnodup'.2
        origin := .inr (.inl (by simp))
        once := fun _ => hnodup'.1
        fresh := fun hm => hfresh (List.mem_cons_of_mem _ hm)
        done := fun hi => absurd hnone hi }
    | handler =>
      cases hstep
      have hinit : .init ∉ Callback.handler :: rest := by
        have := hok hpc (by simp [hcallbacks])
        rwa [hcallbacks] at this
      have hdone : s.initialised ≠ none := by
        rcases horigin with h' | h' | h'
        · exact absurd h' hinit
        · exact absurd rfl h'
        · exact h'
      have hrun : s.handlerPc ≠ .running := by simp [hfresh List.mem_cons_self]
      exact { h with
        nodup := hnodup'.2
        origin := .inr (.inr hdone)
        once := fun _ hm => hinit (List.mem_cons_of_mem _ hm)
        done := fun _ => rfl
        fresh := fun hm => absurd hm hnodup'.1
        started := fun _ => hdone
        waiting := fun _ => h.waiting hrun
        configuration := fun _ => h.configuration hrun
        block := fun hr => by cases hr }
    | save =>
      cases hstep
      exact { h with
        nodup := hnodup'.2
        origin := horigin.imp_left fun hm => by simpa using hm
        once := fun hor hm => honce hor (List.mem_cons_of_mem _ hm)
        fresh := fun hm => hfresh (List.mem_cons_of_mem _ hm)
        done := fun _ => rfl }

/-- The wheel keeps the invariant. -/
theorem Inv.wheel (h : Inv s) (hok : s.InSlot .wheel) (hstep : s.wheelStep = some t) : Inv t := by
  cases hpc : s.initPc with
  | some pc => exact h.wheel_init hpc hstep
  | none => exact h.wheel_callback hpc hok hstep

/-- The thread keeps the invariant. -/
theorem Inv.thread (h : Inv s) (hok : s.InSlot .thread) (hstep : s.threadStep = some t) :
    Inv t := by
  rw [threadStep] at hstep
  cases hpc : s.handlerPc with
  | notStarted => simp [hpc] at hstep
  | bufferSave =>
    simp only [hpc] at hstep
    cases hstep
    have hrun : s.handlerPc ≠ .running := by simp [hpc]
    have hnot : .handler ∉ s.callbacks := fun hm => by simp [h.fresh hm] at hpc
    exact { h with
      fresh := fun hm => absurd hm hnot
      started := fun _ => h.started (by simp [hpc])
      waiting := fun _ => h.waiting hrun
      configuration := fun _ => h.configuration hrun
      block := fun hr => by cases hr }
  | bufferPop =>
    simp only [hpc] at hstep
    cases hstep
    have hrun : s.handlerPc ≠ .running := by simp [hpc]
    have hnot : .handler ∉ s.callbacks := fun hm => by simp [h.fresh hm] at hpc
    exact { h with
      fresh := fun hm => absurd hm hnot
      started := fun _ => h.started (by simp [hpc])
      waiting := fun hr => absurd rfl hr
      configuration := fun hr => absurd rfl hr
      block := fun _ => (hok hpc).symm
      onSlot := h.onSlot_env hrun _ }
  | running =>
    simp only [hpc] at hstep
    obtain ⟨r, hr, rfl⟩ := Option.map_eq_some_iff.1 hstep
    obtain ⟨-, -, rfl⟩ := slotStep_eq_some hr
    have hstarted : s.initialised ≠ none := h.started (by simp [hpc])
    have hnot : .handler ∉ s.callbacks := fun hm => by simp [h.fresh hm] at hpc
    exact { h with
      fresh := fun hm => absurd hm hnot
      started := fun _ => hstarted
      waiting := fun hr => absurd rfl hr
      configuration := fun hr => absurd rfl hr
      keys := fun hi a ha => (slotMove_touched _ _).subset_keys (h.keys hi a ha)
      block := fun _ => h.block hpc
      onSlot := h.onSlot.slotMove }

/-- **One step keeps the invariant**, if it meets the condition. -/
theorem Inv.step (h : Inv s) {a : TickAction} (hok : s.InSlot a) (hstep : s.step a = some t) :
    Inv t := by
  cases a with
  | advance time =>
    simp only [Tick.step] at hstep
    split at hstep
    · cases hstep
      exact { h with }
    · cases hstep
  | push message =>
    cases hstep
    exact { h with }
  | wheel => exact h.wheel hok hstep
  | thread => exact h.thread hok hstep

/-- **A slot is initialised before it is worked on**, in every run in which the init
callback comes before the thread is started and the block is stamped in its slot. -/
theorem initialised_of_reaches {s₀ : Tick} (h₀ : Begins s₀) (h : Reaches step InSlot s₀ s) :
    s.Initialised := by
  have hinv := h.invariant h₀.inv fun _ _ _ hi hok hstep => hi.step hok hstep
  intro hrank
  have hrun : s.handlerPc = .running := by
    by_contra hr
    simp [hinv.waiting hr, SlotPc.rank] at hrank
  have hinit := hinv.block hrun
  exact ⟨by rw [hinit, hinv.onSlot.header (by omega)], hinv.keys (by simp [hinit])⟩

end Tick

/-- The node `a` with an empty buffer, at the beginning of slot 2. -/
def tickOfReceiver (order : List Callback) : Tick where
  clock := 1000
  callbacks := order
  buffer := ⟨[], [], Buffer.queued_nil⟩
  env := receiver
  node := { storage := emptyStorage receiver, chain := [], pc := .saveAdd }

theorem begins_receiver (order : List Callback) (h : order.Perm [.init, .handler, .save]) :
    (tickOfReceiver order).Begins :=
  ⟨h, rfl, rfl, rfl, rfl, rfl⟩

set_option maxRecDepth 4000 in
/-- In the order of the subscriptions, with the thread in time. -/
theorem initialised_receiver :
    ∃ s : Tick, s.node.pc = .wait .inspection .enter ∧ s.Initialised := by
  obtain ⟨s, hs, hpc⟩ := exists_reaches Tick.step Tick.InSlot
    (tickOfReceiver [.init, .handler, .save])
    (List.replicate 5 .wheel ++ .advance 1400 :: List.replicate 7 .thread)
    (fun s => s.node.pc = .wait .inspection .enter) (by decide +kernel)
  exact ⟨s, by simpa using hpc,
    Tick.initialised_of_reaches (begins_receiver _ (by decide)) hs⟩

set_option maxRecDepth 4000 in
/-- In the opposite order, the thread is about to look at a slot that nobody initialised. -/
theorem not_initialised_receiver :
    ¬ ∀ s, Reachable Tick.step (tickOfReceiver [.save, .handler, .init]) s → s.Initialised := by
  intro hall
  obtain ⟨s, hs, h⟩ := exists_reaches Tick.step (fun _ _ => True)
    (tickOfReceiver [.save, .handler, .init])
    (List.replicate 2 .wheel ++ List.replicate 7 .thread)
    (fun s => s.node.pc = .wait .inspection .enter ∧ s.initialised = none) (by decide +kernel)
  simp only [decide_eq_true_eq] at h
  have := (hall s hs (by rw [h.1]; decide)).1
  rw [h.2] at this
  cases this

end BlockchainMessaging
