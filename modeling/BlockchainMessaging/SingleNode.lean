import BlockchainMessaging.HandlerSpec
import BlockchainMessaging.Plain

/-!
# One node and any messages

One node works on a slot while its consensus thread is handed any sequence of messages.
What the other nodes would send plays no role here, so results about this machine hold
whatever they send.

The question answered here is when a look-up of the slot's synchronization context finds
one.  The handler of a message updates the table first and looks the context up afterwards.
In between the slot thread may run to its end, which clears the slot; the look-up then
creates a null entry and dereferences it.  So look-ups succeed as long as the slot has been
initialised more recently than cleared, which `NodeHistory` keeps track of.

## Main definitions

* `NodeAction`, `nodeStep` — the machine.
* `NodeHistory` — a node, with whether its slot is initialised.
* `NodeHistory.LookupsInitialised` — the condition on a step.
-/

namespace BlockchainMessaging

/-! ## The machine -/

/-- What can happen to a node. -/
inductive NodeAction
  /-- A call of the slot thread. -/
  | slot
  /-- The sleep of the slot thread ends. -/
  | wake
  /-- A call of the consensus thread. -/
  | handle
  /-- The consensus thread receives a message. -/
  | receive (m : ConsensusMessage)
  deriving DecidableEq, Repr

/-- One step of a node; what it sends is lost. -/
def nodeStep (E : SlotEnv) (n : Node) : NodeAction → Option Node
  | .slot => (slotStep E n).map Prod.fst
  | .wake => wakeStep n
  | .handle => handlerStep n
  | .receive m => receiveStep m n

/-- A node, and whether the slot it works on was initialised after it was last cleared. -/
structure NodeHistory where
  node : Node
  initialised : Bool

namespace NodeHistory

/-- A step of the node, and what it means for the history. -/
def step (E : SlotEnv) (h : NodeHistory) (a : NodeAction) : Option NodeHistory :=
  (nodeStep E h.node a).map fun node =>
    { node
      initialised := match a with
        | .slot => if h.node.pc = .completeClear then false else h.initialised
        | .handle =>
            if h.node.todo.head? = some .initConditions then true else h.initialised
        | _ => h.initialised }

/-- The messages are well-formed protocol messages for the slot. -/
def ForSlot (s : ℕ) (_ : NodeHistory) : NodeAction → Prop
  | .receive m => m.wellFormed = true ∧ m.header.slot = s
  | _ => True

/-- Also, the handler looks the context up only while the slot is initialised. -/
def LookupsInitialised (s : ℕ) (h : NodeHistory) : NodeAction → Prop
  | .receive m => m.wellFormed = true ∧ m.header.slot = s
  | .handle => h.node.todo.head?.any HandlerOp.derefs = true → h.initialised = true
  | _ => True

instance (s : ℕ) (h : NodeHistory) (a : NodeAction) : Decidable (ForSlot s h a) := by
  unfold ForSlot
  split <;> infer_instance

instance (s : ℕ) (h : NodeHistory) (a : NodeAction) : Decidable (LookupsInitialised s h a) := by
  unfold LookupsInitialised
  split <;> infer_instance

/-- `SlotHandler` is about to start, `initConditions` has run. -/
structure Started (E : SlotEnv) (h : NodeHistory) : Prop where
  pc : h.node.pc = .saveAdd
  todo : h.node.todo = []
  failure : h.node.failure = none
  initialised : h.initialised = true
  find : ∃ p, h.node.storage.conditions.find E.pendingBlock.slot = some (some p)

/-! ## The invariant -/

/-- As long as nobody dereferenced a null pointer, the slot has no null entry, and has an
entry while it is initialised. -/
structure Inv (E : SlotEnv) (h : NodeHistory) : Prop where
  failure : h.node.failure ≠ some .nullContext
  find_ne : h.node.storage.conditions.find E.pendingBlock.slot ≠ some none
  find : h.initialised = true → h.node.storage.conditions.find E.pendingBlock.slot ≠ none
  uncleared : h.node.pc.rank < 29 → h.initialised = true
  onSlot : h.node.OnSlot E
  todo : h.node.todo ≠ [] → h.node.header.slot = E.pendingBlock.slot

variable {E : SlotEnv} {h h' : NodeHistory}

theorem inv_of_started (hs : Started E h) : Inv E h := by
  obtain ⟨p, hp⟩ := hs.find
  constructor
  case failure => simp [hs.failure]
  case find_ne => simp [hp]
  case find => simp [hp]
  case uncleared => exact fun _ => hs.initialised
  case onSlot => constructor <;> simp [hs.pc, SlotPc.rank]
  case todo => exact fun h => absurd hs.todo h

/-- While the slot is initialised, its context is there. -/
theorem Inv.find_some (hi : Inv E h) (hinit : h.initialised = true) :
    ∃ p, h.node.storage.conditions.find E.pendingBlock.slot = some (some p) := by
  cases hf : h.node.storage.conditions.find E.pendingBlock.slot with
  | none => exact absurd hf (hi.find hinit)
  | some o => cases o with
    | none => exact absurd hf hi.find_ne
    | some p => exact ⟨p, rfl⟩

/-- The clearing of the slot. -/
private theorem Inv.clear (hi : Inv E h) (hpc : h.node.pc = .completeClear) :
    Inv E ⟨(slotMove E h.node).1, false⟩ := by
  have hpc' : (slotMove E h.node).1.pc = .publishBlock := by simp [slotMove, hpc]
  have hframe := slotMove_frame E h.node
  constructor
  case failure => simpa [slotMove, hpc] using hi.failure
  case find_ne =>
    intro hnone
    simp only [slotMove, hpc] at hnone
    exact hi.find_ne (ConsensusStorage.find_clearSlot_of_some hnone)
  case find => simp
  case uncleared => simp [hpc', SlotPc.rank]
  case onSlot => exact hi.onSlot.slotMove
  case todo =>
    intro htodo
    rw [hframe.2]
    exact hi.todo (by rwa [hframe.1] at htodo)

/-- The other calls of the slot thread. -/
private theorem Inv.move (hi : Inv E h) (hpc : h.node.pc ≠ .completeClear)
    (hb : h.node.pc.blocked = false) (hf : h.node.failure = none) :
    Inv E ⟨(slotMove E h.node).1, h.initialised⟩ := by
  have hframe := slotMove_frame E h.node
  have hle := slotMove_rank E h.node
  -- The only call after the clearing looks nothing up.
  have hrank : h.node.pc.rank < 29 ∨ h.node.pc = .publishBlock := by
    by_cases hlt : h.node.pc.rank < 29
    · exact .inl hlt
    · rcases SlotPc.eq_of_rank_ge (not_lt.1 hlt) with hpc' | hpc'
      · exact .inr hpc'
      · rw [hpc'] at hb
        cases hb
  have hheader : ∀ w, h.node.pc = .wait w .enter →
      h.node.context.header.slot = E.pendingBlock.slot := by
    intro w hw
    refine hi.onSlot.header ?_
    rw [hw]
    cases w <;> decide
  constructor
  case failure =>
    rcases slotMove_failure E h.node with hsame | ⟨f, hsome, hwhy⟩
    · simp [hsame, hf]
    · rintro hnull
      obtain rfl : f = .nullContext := by simpa [hsome] using hnull
      obtain ⟨⟨w, hw⟩, hfind⟩ := hwhy
      have hlt : h.node.pc.rank < 29 := by
        rw [hw]
        cases w <;> decide
      obtain ⟨p, hp⟩ := hi.find_some (hi.uncleared hlt)
      exact hfind p (by rw [hheader w hw, hp])
  case find_ne =>
    rcases hrank with hlt | hpub
    · obtain ⟨p, hp⟩ := hi.find_some (hi.uncleared hlt)
      simp [slotMove_find hpc hp]
    · simpa [slotMove, hpub] using hi.find_ne
  case find =>
    intro hinit
    obtain ⟨p, hp⟩ := hi.find_some hinit
    simp [slotMove_find hpc hp]
  case uncleared => exact fun hlt => hi.uncleared (lt_of_le_of_lt hle hlt)
  case onSlot => exact hi.onSlot.slotMove
  case todo =>
    intro htodo
    rw [hframe.2]
    exact hi.todo (by rwa [hframe.1] at htodo)

/-- A call of the handler, with `initialised` as the history has it afterwards. -/
private theorem Inv.handle (hi : Inv E h) {op : HandlerOp} {n : Node}
    (hstorage : n.storage = h.node.storage) (hpc : n.pc = h.node.pc)
    (hcontext : n.context = h.node.context) (hheader : n.header = h.node.header)
    (hf : n.failure = none) (htodo : h.node.todo ≠ [])
    (hok : op.derefs = true → h.initialised = true) {initialised : Bool}
    (hinit : initialised = if op = .initConditions then true else h.initialised) :
    Inv E ⟨op.exec n, initialised⟩ := by
  have hslot : n.header.slot = E.pendingBlock.slot := by rw [hheader, hi.todo htodo]
  have hrank : (op.exec n).pc.rank = h.node.pc.rank := by rw [(op.exec_pc n).rank_eq, hpc]
  -- With an initialised slot before the call, the entry stays.
  have hkeep : h.initialised = true →
      ∃ p, (op.exec n).storage.conditions.find E.pendingBlock.slot = some (some p) := by
    intro hinit'
    obtain ⟨p, hp⟩ := hi.find_some hinit'
    exact ⟨p, HandlerOp.exec_find (by rw [hstorage, hp])⟩
  -- Without one, only `initConditions` touches it.
  have hnew : h.initialised = false →
      (op.exec n).storage.conditions.find E.pendingBlock.slot ≠ some none ∧
        (op = .initConditions →
          (op.exec n).storage.conditions.find E.pendingBlock.slot ≠ none) := by
    intro hinit'
    have hne : n.storage.conditions.find E.pendingBlock.slot ≠ some none := by
      rw [hstorage]
      exact hi.find_ne
    have hderefs : op.derefs = false := by
      by_contra hd
      simp [hok (by simpa using hd)] at hinit'
    have hfresh : (n.storage.initConditions n.header.slot).conditions.find
        E.pendingBlock.slot ≠ none ∧ (n.storage.initConditions n.header.slot).conditions.find
        E.pendingBlock.slot ≠ some none := by
      rw [ConsensusStorage.find_initConditions, hslot]
      cases hfind : n.storage.conditions.find E.pendingBlock.slot with
      | none => simp
      | some o =>
        cases o with
        | none => exact absurd hfind hne
        | some p => simp
    rcases op.exec_rest n with hr | ⟨-, hr⟩ | ⟨rfl, -⟩ | ⟨hop, -⟩
    · refine ⟨by rwa [(ConsensusStorage.rest_eq hr).1], ?_⟩
      rintro rfl
      exact hfresh.1
    · rw [hr]
      exact ⟨hfresh.2, fun _ => hfresh.1⟩
    · cases hderefs
    · rcases hop with rfl | rfl <;> cases hderefs
  constructor
  case failure =>
    rcases op.exec_failure n with hsame | ⟨-, hd, hfind⟩ | ⟨hbad, -⟩
    · simp [hsame, hf]
    · obtain ⟨p, hp⟩ := hi.find_some (hok hd)
      exact absurd (by rw [hstorage, hslot, hp]) (hfind p)
    · simp [hbad]
  case find_ne =>
    cases hinit' : h.initialised with
    | true =>
      obtain ⟨p, hp⟩ := hkeep hinit'
      simp [hp]
    | false => exact (hnew hinit').1
  case find =>
    intro hinit''
    cases hinit' : h.initialised with
    | true =>
      obtain ⟨p, hp⟩ := hkeep hinit'
      simp [hp]
    | false =>
      refine (hnew hinit').2 ?_
      by_contra hop
      simp [hinit, hop, hinit'] at hinit''
  case uncleared =>
    intro hlt
    simp only [hrank] at hlt
    simp [hinit, hi.uncleared hlt]
  case onSlot =>
    have hn : n.OnSlot E := ⟨by rw [hpc, hcontext]; exact hi.onSlot.block,
      by rw [hpc, hcontext]; exact hi.onSlot.header⟩
    exact hn.exec op
  case todo =>
    intro _
    simpa using hslot

/-- **One step keeps the invariant**, if it meets the condition. -/
theorem Inv.step (hi : Inv E h) {a : NodeAction}
    (hok : LookupsInitialised E.pendingBlock.slot h a) (hstep : h.step E a = some h') :
    Inv E h' := by
  obtain ⟨n, hn, rfl⟩ := Option.map_eq_some_iff.1 hstep
  cases a with
  | slot =>
    obtain ⟨r, hr, rfl⟩ := Option.map_eq_some_iff.1 hn
    obtain ⟨hf, hb, rfl⟩ := slotStep_eq_some hr
    by_cases hpc : h.node.pc = .completeClear
    · simpa [hpc] using hi.clear hpc
    · simpa [hpc] using hi.move hpc hb hf
  | wake =>
    obtain ⟨hf, w, hw, rfl⟩ := wakeStep_eq_some hn
    have hrank : (SlotPc.wait w .eval).rank = h.node.pc.rank := by
      rw [hw]
      cases w <;> rfl
    exact ⟨by simpa using hi.failure, hi.find_ne, hi.find, fun hlt => hi.uncleared (hrank ▸ hlt),
      hi.onSlot.wake hw, hi.todo⟩
  | handle =>
    obtain ⟨hf, op, rest, htodo, rfl⟩ := handlerStep_eq_some hn
    refine hi.handle (n := { h.node with todo := rest }) rfl rfl rfl rfl hf (by simp [htodo]) ?_ ?_
    · simpa [LookupsInitialised, htodo] using hok
    · simp [htodo]
  | receive m =>
    obtain ⟨hf, htodo, hm⟩ := receiveStep_eq_some hn
    obtain ⟨-, hslot⟩ : m.wellFormed = true ∧ m.header.slot = E.pendingBlock.slot := hok
    cases hscript : handlerScript m with
    | none =>
      simp only [hscript] at hm
      subst hm
      exact ⟨by simp [Node.fail], hi.find_ne, hi.find, hi.uncleared,
        ⟨hi.onSlot.block, hi.onSlot.header⟩, hi.todo⟩
    | some todo =>
      simp only [hscript] at hm
      subst hm
      exact ⟨hi.failure, hi.find_ne, hi.find, hi.uncleared,
        ⟨hi.onSlot.block, hi.onSlot.header⟩, fun _ => hslot⟩

/-! ## The context is there -/

/-- **The synchronization context is never null when used**, in every run in which the
handler looks it up only while the slot is initialised. -/
theorem context_ne_null {h₀ : NodeHistory} (hs : Started E h₀)
    (hr : Reaches (step E) (LookupsInitialised E.pendingBlock.slot) h₀ h) :
    h.node.failure ≠ some .nullContext :=
  (hr.invariant (inv_of_started hs) fun _ _ _ hi hok hstep => hi.step hok hstep).failure

end NodeHistory

/-- The node `a` with its peer `b`, in slot 2. -/
def receiver : SlotEnv := plainEnv "a" ["b"] 2 [] (fun _ => 5) five_range

/-- The node after the init callback. -/
def receiverStarted : NodeHistory where
  node :=
    { storage := ((emptyStorage receiver).initConditions 2).initContexts 2
      chain := []
      pc := .saveAdd }
  initialised := true

theorem started_receiver : NodeHistory.Started receiver receiverStarted :=
  ⟨rfl, rfl, rfl, rfl, 0, by decide⟩

/-- The block that `b`, the validator, broadcasts. -/
def broadcasted : Block :=
  { state := .COMPLETED, timestamp := 1000, slot := 2, data := [⟨900, "x", "b"⟩] }

/-- `a` runs up to the early check of the wait for the broadcast, and the broadcast of `b`
arrives. -/
def untilBroadcast : List NodeAction :=
  List.replicate 5 .slot ++
    .receive (plainMessage .INSPECTION "b" 2 (.contribution true)) :: List.replicate 6 .handle ++
    List.replicate 5 .slot ++
    .receive (plainMessage .ELECTION "b" 2 (.electionValue 6)) :: List.replicate 4 .handle ++
    List.replicate 9 .slot ++ [.receive (plainMessage .BROADCAST "b" 2 (.block broadcasted))]

set_option maxRecDepth 4000 in
/-- When the handler is done with the broadcast before the slot thread goes on, the slot
thread gets to its end. -/
theorem context_ne_null_receiver :
    ∃ h : NodeHistory, h.node.pc = .returned ∧ h.node.failure ≠ some .nullContext := by
  obtain ⟨h, hr, hpc⟩ := exists_reaches (NodeHistory.step receiver)
    (NodeHistory.LookupsInitialised receiver.pendingBlock.slot) receiverStarted
    (untilBroadcast ++ List.replicate 4 .handle ++ List.replicate 6 .slot)
    (fun h => h.node.pc = .returned) (by decide +kernel)
  exact ⟨h, by simpa using hpc, NodeHistory.context_ne_null started_receiver hr⟩

set_option maxRecDepth 4000 in
/-- When the slot thread goes on after `marAsResolved`, it clears the slot before the
handler looks the context up. -/
theorem not_context_ne_null_receiver :
    ¬ ∀ h, Reaches (NodeHistory.step receiver)
        (NodeHistory.ForSlot receiver.pendingBlock.slot) receiverStarted h →
      h.node.failure ≠ some .nullContext := by
  intro hall
  obtain ⟨h, hr, hf⟩ := exists_reaches (NodeHistory.step receiver)
    (NodeHistory.ForSlot receiver.pendingBlock.slot) receiverStarted
    (untilBroadcast ++ List.replicate 2 .handle ++ List.replicate 5 .slot ++ [.handle])
    (fun h => h.node.failure = some .nullContext) (by decide +kernel)
  exact hall h hr (by simpa using hf)

end BlockchainMessaging
