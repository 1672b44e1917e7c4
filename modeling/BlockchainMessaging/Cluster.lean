import BlockchainMessaging.Plain
import BlockchainMessaging.Process
import BlockchainMessaging.Publication

/-!
# All nodes with all their slots

The nodes of a cluster work on all slots at once.  Each node is one process: the runs of
`SlotHandler` for the single slots share its storage, its chain, its clients and its consensus
thread, and the channels between two nodes carry the messages of all slots.  The timer begins a run
in every slot, whether or not those before it are over; here a run may begin at any time, when the
init callback for its slot is through, and any number of runs may be on their way.

A history is kept of every node, the slots whose blocks were appended to the chain.  No call reads
it.

`Cluster.deployment` is the same cluster as the nodes of one slot see it.

## Main definitions

* `Cluster` — the nodes, and what the run of each slot takes from outside.
* `ClusterState`, `ClusterAction`, `Cluster.step` — the system.
* `Cluster.start` — nothing has begun.
* `Cluster.deployment` — the nodes of one slot.
-/

namespace BlockchainMessaging

/-- A set of nodes with the same configuration, about to work on all slots. -/
structure Cluster where
  addresses : List String
  nodup : addresses.Nodup
  /-- An AMQP address is a C string. -/
  cString : ∀ a ∈ addresses, cStr a = a
  /-- The text archive of the program. -/
  archive : BlockArchive
  /-- What the run of a node for a slot takes from outside. -/
  env : String → ℕ → SlotEnv
  archive_eq : ∀ a ∈ addresses, ∀ s, (env a s).archive = archive
  self_eq : ∀ a ∈ addresses, ∀ s, (env a s).self = a
  /-- Everybody else is configured, and has a channel. -/
  mem_remotes : ∀ a ∈ addresses, ∀ s b, b ∈ (env a s).remotes ↔ b ∈ addresses ∧ b ≠ a
  nodup_remotes : ∀ a ∈ addresses, ∀ s, (env a s).remotes.Nodup
  /-- Tick, buffer and clock agree on the slot. -/
  env_slot : ∀ a ∈ addresses, ∀ s, (env a s).slot = s
  pending_slot : ∀ a ∈ addresses, ∀ s, (env a s).pendingBlock.slot = s
  /-- The storage of a node once it is initialised: it holds all addresses, and says nothing about
  them.  Its iteration order is its own. -/
  storage : String → ConsensusStorage
  configuration_eq : ∀ a ∈ addresses, ∀ s,
    (storage a).nodeConfiguration = (env a s).configuration
  mem_keys : ∀ a ∈ addresses, ∀ b, b ∈ (storage a).contexts.keys ↔ b ∈ addresses
  context_eq : ∀ a ∈ addresses, ∀ b s,
    (storage a).context b s = .fresh ((storage a).stamp b s 0)
  condition_eq : ∀ a ∈ addresses, ∀ s, (storage a).conditions.find s = none
  chain : String → List String
  /-- The chain was written by `RedisDB`. -/
  chain_serialized : ∀ a ∈ addresses, ∀ text ∈ chain a, ∃ b, archive.serialize b = text

/-- The state of all processes and channels. -/
structure ClusterState where
  process : String → Process ℕ
  /-- `channel a b` leads from `a` to `b`. -/
  channel : String → String → Channel
  /-- `consumer` of `main`. -/
  consumer : String → Consumer
  /-- The slots whose runs have appended their blocks, in this order. -/
  added : String → List ℕ

/-- Who moves, and how. -/
inductive ClusterAction
  /-- A call of the run of `a` for the slot `s`. -/
  | slot (a : String) (s : ℕ)
  /-- The sleep of the run of `a` for the slot `s` ends. -/
  | wake (a : String) (s : ℕ)
  /-- A call of the consensus thread. -/
  | handle (a : String)
  /-- The consensus thread of `a` receives the oldest message from `b`. -/
  | receive (a b : String)
  /-- A client registers with `a`. -/
  | createChannel (a author : String)
  deriving DecidableEq, Repr

namespace ClusterState

/-- Replace the state of one process. -/
def setProcess (K : ClusterState) (a : String) (p : Process ℕ) : ClusterState :=
  { K with process := Function.update K.process a p }

/-- Append messages to the channels that lead from `a`. -/
def publish (K : ClusterState) (a : String) (sends : List Send) : ClusterState :=
  { K with channel := fun source target =>
      if source = a then
        { K.channel a target with
          inFlight := (K.channel a target).inFlight ++
            sends.filterMap fun m => if m.1 = target then some m.2 else none }
      else K.channel source target }

/-- Take the oldest message off the channel from `b` to `a`. -/
def deliver (K : ClusterState) (a b : String) (m : ConsensusMessage)
    (rest : List ConsensusMessage) : ClusterState :=
  { K with channel := fun source target =>
      if source = b ∧ target = a then
        { delivered := (K.channel b a).delivered ++ [m], inFlight := rest }
      else K.channel source target }

/-- Where a call of the run of `a` for the slot `s` meets the history and the clients. -/
def record (K : ClusterState) (a : String) (s : ℕ) (n : Node) : ClusterState :=
  match n.pc with
  | .saveAdd => { K with added := Function.update K.added a (K.added a ++ [s]) }
  | .publishBlock => { K with
      consumer := Function.update K.consumer a
        ((K.consumer a).publish n.context.broadcastBlock) }
  | _ => K

/-- What the run of `a` for the slot `s` sees of its process. -/
def view (K : ClusterState) (a : String) (s : ℕ) : Node :=
  (K.process a).view ((K.process a).run s)

/-- One step of the nodes with these addresses, whose runs take `env` from outside. -/
def step (addresses : List String) (env : String → ℕ → SlotEnv) (K : ClusterState) :
    ClusterAction → Option ClusterState
  | .slot a s =>
      if a ∈ addresses then
        ((K.process a).step (env a) (.slot s)).map fun p =>
          ((K.setProcess a p).publish a (slotMove (env a s) (K.view a s)).2).record a s
            (K.view a s)
      else none
  | .wake a s =>
      if a ∈ addresses then
        ((K.process a).step (env a) (.wake s)).map fun p => K.setProcess a p
      else none
  | .handle a =>
      if a ∈ addresses then
        ((K.process a).step (env a) .handle).map fun p => K.setProcess a p
      else none
  | .receive a b =>
      if a ∈ addresses then
        match (K.channel b a).inFlight with
        | [] => none
        | m :: rest => ((K.process a).step (env a) (.receive m)).map fun p =>
            (K.setProcess a p).deliver a b m rest
      else none
  | .createChannel a author =>
      if a ∈ addresses then
        some { K with
          consumer := Function.update K.consumer a ((K.consumer a).createChannel author) }
      else none

end ClusterState

namespace Cluster

/-- One step of the cluster. -/
def step (C : Cluster) (K : ClusterState) (act : ClusterAction) : Option ClusterState :=
  K.step C.addresses C.env act

/-- No slot was begun yet, and nothing sent. -/
def start (C : Cluster) : ClusterState where
  process := fun a => { Process.start (C.storage a) with chain := C.chain a }
  channel := fun _ _ => {}
  consumer := fun _ => {}
  added := fun _ => []

theorem serialized (C : Cluster) {a : String} (ha : a ∈ C.addresses) (s : ℕ) :
    ∀ text ∈ C.chain a, ∃ b, (C.env a s).archive.serialize b = text := by
  rw [C.archive_eq a ha s]
  exact C.chain_serialized a ha

/-- The nodes of the slot `s`. -/
def deployment (C : Cluster) (s : ℕ) : Deployment where
  addresses := C.addresses
  nodup := C.nodup
  cString := C.cString
  slot := s
  env := fun a => C.env a s
  self_eq := fun a ha => C.self_eq a ha s
  mem_remotes := fun a ha => C.mem_remotes a ha s
  nodup_remotes := fun a ha => C.nodup_remotes a ha s
  env_slot := fun a ha => C.env_slot a ha s
  pending_slot := fun a ha => C.pending_slot a ha s
  storage := C.storage
  configuration_eq := fun a ha => C.configuration_eq a ha s
  mem_keys := C.mem_keys
  context_eq := fun a ha b => C.context_eq a ha b s
  condition_eq := fun a ha => C.condition_eq a ha s
  chain := C.chain
  chain_serialized := fun _ ha => C.serialized ha s

end Cluster

/-! ## The steps -/

namespace ClusterState

@[simp] theorem process_setProcess (K : ClusterState) (a : String) (p : Process ℕ) (x : String) :
    (K.setProcess a p).process x = if x = a then p else K.process x := by
  simp only [setProcess, Function.update_apply]

@[simp] theorem channel_setProcess (K : ClusterState) (a : String) (p : Process ℕ) :
    (K.setProcess a p).channel = K.channel := rfl

@[simp] theorem process_publish (K : ClusterState) (a : String) (sends : List Send) :
    (K.publish a sends).process = K.process := rfl

@[simp] theorem process_deliver (K : ClusterState) (a b : String) (m : ConsensusMessage)
    (rest : List ConsensusMessage) : (K.deliver a b m rest).process = K.process := rfl

@[simp] theorem consumer_setProcess (K : ClusterState) (a : String) (p : Process ℕ) :
    (K.setProcess a p).consumer = K.consumer := rfl

@[simp] theorem consumer_publish (K : ClusterState) (a : String) (sends : List Send) :
    (K.publish a sends).consumer = K.consumer := rfl

@[simp] theorem added_setProcess (K : ClusterState) (a : String) (p : Process ℕ) :
    (K.setProcess a p).added = K.added := rfl

@[simp] theorem added_publish (K : ClusterState) (a : String) (sends : List Send) :
    (K.publish a sends).added = K.added := rfl

@[simp] theorem process_record (K : ClusterState) (a : String) (s : ℕ) (n : Node) :
    (K.record a s n).process = K.process := by
  rw [record]
  split <;> rfl

@[simp] theorem channel_record (K : ClusterState) (a : String) (s : ℕ) (n : Node) :
    (K.record a s n).channel = K.channel := by
  rw [record]
  split <;> rfl

@[simp] theorem added_record (K : ClusterState) (a : String) (s : ℕ) (n : Node) :
    (K.record a s n).added =
      if n.pc = .saveAdd then Function.update K.added a (K.added a ++ [s]) else K.added := by
  cases hpc : n.pc <;> simp [record, hpc]

@[simp] theorem consumer_record (K : ClusterState) (a : String) (s : ℕ) (n : Node) :
    (K.record a s n).consumer =
      if n.pc = .publishBlock then
        Function.update K.consumer a ((K.consumer a).publish n.context.broadcastBlock)
      else K.consumer := by
  cases hpc : n.pc <;> simp [record, hpc]

section Inversion

variable {addresses : List String} {env : String → ℕ → SlotEnv} {K K' : ClusterState}
variable {a b : String} {s : ℕ}

theorem step_slot_eq_some (h : K.step addresses env (.slot a s) = some K') :
    a ∈ addresses ∧ ∃ p, (K.process a).step (env a) (.slot s) = some p ∧
      K' = ((K.setProcess a p).publish a (slotSends (env a s) (K.view a s))).record a s
        (K.view a s) := by
  simp only [step] at h
  split at h
  · next ha =>
    obtain ⟨p, hp, rfl⟩ := Option.map_eq_some_iff.1 h
    exact ⟨ha, p, hp, by rw [slotMove_sends]⟩
  · cases h

theorem step_wake_eq_some (h : K.step addresses env (.wake a s) = some K') :
    a ∈ addresses ∧ ∃ p, (K.process a).step (env a) (.wake s) = some p ∧
      K' = K.setProcess a p := by
  simp only [step] at h
  split at h
  · next ha =>
    obtain ⟨p, hp, rfl⟩ := Option.map_eq_some_iff.1 h
    exact ⟨ha, p, hp, rfl⟩
  · cases h

theorem step_handle_eq_some (h : K.step addresses env (.handle a) = some K') :
    a ∈ addresses ∧ ∃ p, (K.process a).step (env a) .handle = some p ∧
      K' = K.setProcess a p := by
  simp only [step] at h
  split at h
  · next ha =>
    obtain ⟨p, hp, rfl⟩ := Option.map_eq_some_iff.1 h
    exact ⟨ha, p, hp, rfl⟩
  · cases h

theorem step_receive_eq_some (h : K.step addresses env (.receive a b) = some K') :
    a ∈ addresses ∧ ∃ m rest p, (K.channel b a).inFlight = m :: rest ∧
      (K.process a).step (env a) (.receive m) = some p ∧
      K' = (K.setProcess a p).deliver a b m rest := by
  simp only [step] at h
  split at h
  · next ha =>
    split at h
    · cases h
    · next m rest hchannel =>
      obtain ⟨p, hp, rfl⟩ := Option.map_eq_some_iff.1 h
      exact ⟨ha, m, rest, p, hchannel, hp, rfl⟩
  · cases h

theorem step_createChannel_eq_some {author : String}
    (h : K.step addresses env (.createChannel a author) = some K') :
    a ∈ addresses ∧ K' = { K with
      consumer := Function.update K.consumer a ((K.consumer a).createChannel author) } := by
  simp only [step] at h
  split at h
  · next ha => exact ⟨ha, (Option.some.inj h).symm⟩
  · cases h

/-- A process that has ended stays so. -/
theorem failure_step {act : ClusterAction} (hstep : K.step addresses env act = some K')
    (x : String) (hx : (K.process x).failure.isSome = true) :
    (K'.process x).failure.isSome = true := by
  have hset : ∀ {a : String} {p : Process ℕ}, (K.process a).failure = none →
      ((K.setProcess a p).process x).failure.isSome = true := by
    intro a p hnone
    by_cases hxa : x = a
    · subst hxa
      rw [hnone] at hx
      cases hx
    · simpa [hxa] using hx
  cases act with
  | slot a s =>
    obtain ⟨-, p, hp, rfl⟩ := step_slot_eq_some hstep
    simpa using hset (p := p) (Process.step_slot_eq_some hp).1
  | wake a s =>
    obtain ⟨-, p, hp, rfl⟩ := step_wake_eq_some hstep
    obtain ⟨n, hn, -⟩ := Option.map_eq_some_iff.1 hp
    exact hset (wakeStep_eq_some hn).1
  | handle a =>
    obtain ⟨-, p, hp, rfl⟩ := step_handle_eq_some hstep
    exact hset (Process.step_handle_eq_some hp).1
  | receive a b =>
    obtain ⟨-, m, rest, p, -, hp, rfl⟩ := step_receive_eq_some hstep
    obtain ⟨n, hn, -⟩ := Option.map_eq_some_iff.1 hp
    exact hset (receiveStep_eq_some hn).1
  | createChannel a author =>
    obtain ⟨-, rfl⟩ := step_createChannel_eq_some hstep
    exact hx

/-- A step looks at what a run takes from outside only where the run moves. -/
theorem step_env {env' : String → ℕ → SlotEnv} {act : ClusterAction} (h : ∀ a s, act = .slot a s →
      slotMove (env a s) (K.view a s) = slotMove (env' a s) (K.view a s)) :
    K.step addresses env act = K.step addresses env' act := by
  cases act with
  | slot a s =>
    have hmove := h a s rfl
    simp only [view] at hmove
    simp only [step, view, Process.step, slotStep, hmove]
  | _ => rfl

end Inversion

end ClusterState

namespace Cluster

variable {C : Cluster} {K K' : ClusterState} {act : ClusterAction} {a b : String} {s : ℕ}

/-- A call of a run. -/
theorem run_slot (h : C.step K (.slot a s) = some K') :
    ((K.process a).run s).pc.blocked = false ∧
      (K'.process a).run s = (slotMove (C.env a s) (K.view a s)).1 := by
  obtain ⟨-, p, hp, rfl⟩ := ClusterState.step_slot_eq_some h
  obtain ⟨-, hblocked, n, hn, rfl⟩ := Process.step_slot_eq_some hp
  refine ⟨hblocked, ?_⟩
  rw [ClusterState.process_record, ClusterState.process_publish, ClusterState.process_setProcess,
    if_pos rfl]
  exact (Function.update_self ..).trans hn

/-- No other step moves the run, unless it wakes it up. -/
theorem run_other (hne : act ≠ .slot a s) (h : C.step K act = some K') :
    ((K.process a).run s).pc.Woken ((K'.process a).run s).pc := by
  have hkeep : ∀ {b : String} {p : Process ℕ}, (a = b → (K.process a).run s = p.run s) →
      ((K.setProcess b p).process a).run s = (K.process a).run s := by
    intro b p hp
    by_cases hab : a = b
    · simp [← hp hab, hab]
    · simp [hab]
  cases act with
  | slot b r =>
    obtain ⟨-, p, hp, rfl⟩ := ClusterState.step_slot_eq_some h
    obtain ⟨-, -, n, -, rfl⟩ := Process.step_slot_eq_some hp
    refine .inl ?_
    rw [ClusterState.process_record, ClusterState.process_publish, hkeep]
    rintro rfl
    exact (Function.update_of_ne (fun hs => hne (by rw [hs])) _ _).symm
  | wake b r =>
    obtain ⟨-, p, hp, rfl⟩ := ClusterState.step_wake_eq_some h
    obtain ⟨w, hpc, rfl⟩ := Process.step_wake_eq_some hp
    by_cases hbr : a = b ∧ s = r
    · obtain ⟨rfl, rfl⟩ := hbr
      exact .inr ⟨w, hpc, by simp⟩
    · refine .inl ?_
      rw [hkeep]
      rintro rfl
      exact (Function.update_of_ne (fun hs => hbr ⟨rfl, hs⟩) _ _).symm
  | handle b =>
    obtain ⟨-, p, hp, rfl⟩ := ClusterState.step_handle_eq_some h
    obtain ⟨-, op, rest, n, -, -, rfl⟩ := Process.step_handle_eq_some hp
    by_cases hab : a = b
    · subst hab
      have hpc := op.exec_pc { (K.process a).view ((K.process a).run s) with todo := rest }
      rw [ClusterState.process_setProcess, if_pos rfl]
      exact hpc
    · exact .inl (by simp [hab])
  | receive b b' =>
    obtain ⟨-, m, rest, p, -, hp, rfl⟩ := ClusterState.step_receive_eq_some h
    refine .inl ?_
    rw [ClusterState.process_deliver, hkeep]
    rintro rfl
    rw [(Process.step_receive_eq_some hp).2.2.1]
  | createChannel b author =>
    obtain ⟨-, rfl⟩ := ClusterState.step_createChannel_eq_some h
    exact .inl rfl

/-- No run goes back. -/
theorem rank_le (h : C.step K act = some K') (a : String) (s : ℕ) :
    ((K.process a).run s).pc.rank ≤ ((K'.process a).run s).pc.rank := by
  by_cases hact : act = .slot a s
  · subst hact
    rw [(run_slot h).2]
    exact slotMove_rank (C.env a s) (K.view a s)
  · exact (run_other hact h).rank_eq.ge

theorem rank_le_of_reaches {ok : ClusterState → ClusterAction → Prop}
    (h : Reaches C.step ok K K') (a : String) (s : ℕ) :
    ((K.process a).run s).pc.rank ≤ ((K'.process a).run s).pc.rank :=
  h.invariant (I := fun K' => ((K.process a).run s).pc.rank ≤ ((K'.process a).run s).pc.rank)
    le_rfl fun _ _ _ hle _ hstep => hle.trans (rank_le hstep a s)

end Cluster

/-! ## Plain clusters -/

/-- Fresh nodes with these addresses: what is collected for each slot, and which values are drawn,
is left open. -/
def Cluster.plain (addresses : List String) (hnodup : addresses.Nodup)
    (hcString : ∀ a ∈ addresses, cStr a = a) (data : String → ℕ → List Message)
    (draw : String → ℕ → ℕ → ℕ) (hdraw : ∀ a s k, 1 ≤ draw a s k ∧ draw a s k ≤ 65535) :
    Cluster :=
  let D := fun s => Deployment.plain addresses hnodup hcString s (fun a => data a s)
    (fun a => draw a s) fun a => hdraw a s
  { addresses
    nodup := hnodup
    cString := hcString
    archive := textArchive
    env := fun a s => (D s).env a
    archive_eq := fun _ _ _ => rfl
    self_eq := fun a ha s => (D s).self_eq a ha
    mem_remotes := fun a ha s => (D s).mem_remotes a ha
    nodup_remotes := fun a ha s => (D s).nodup_remotes a ha
    env_slot := fun _ _ _ => rfl
    pending_slot := fun a ha s => (D s).pending_slot a ha
    storage := (D 0).storage
    configuration_eq := fun _ _ _ => rfl
    mem_keys := (D 0).mem_keys
    context_eq := fun a ha b s => (D s).context_eq a ha b
    condition_eq := fun _ _ _ => rfl
    chain := fun _ => []
    chain_serialized := fun _ _ _ h => absurd h List.not_mem_nil }

theorem pairAddresses_nodup : ["a", "b"].Nodup := by decide

theorem pairAddresses_cString : ∀ a ∈ ["a", "b"], cStr a = a := by decide

theorem twoNodes_range (x : String) (_ _ : ℕ) :
    1 ≤ (if x = "a" then 7 else 5) ∧ (if x = "a" then 7 else 5) ≤ 65535 := by
  split <;> decide

/-- Two nodes, of which `a` has a message for the slot 2, and nobody has one for other slots; `b`
becomes the validator of the slots. -/
def twoNodes : Cluster :=
  Cluster.plain ["a", "b"] pairAddresses_nodup pairAddresses_cString
    (fun x s => if x = "a" ∧ s = 2 then [⟨900, "x", "a"⟩] else [])
    (fun x _ _ => if x = "a" then 7 else 5) twoNodes_range

/-- A step of the nodes of one slot, in the cluster. -/
def Action.inSlot (s : ℕ) : Action → ClusterAction
  | .slot a => .slot a s
  | .wake a => .wake a s
  | .handle a => .handle a
  | .receive a b => .receive a b

end BlockchainMessaging
