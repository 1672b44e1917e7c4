import BlockchainMessaging.Outcome
import BlockchainMessaging.Projection

/-!
# The chains of a cluster

On the chain of a node the runs of all its slots meet.  Of the rest of its process the chain only
sees the calls that the runs make on it, in the order in which they make them, so the process
simulates the runs of `ChainRuns`, with the block that each slot determines.  What is known of these
comes down: as long as no run disturbs another, the chain of every node is at every moment the
initial one and one element for each run, and when the runs are over, nodes that have appended the
slots with contributors in the same order have the same chain.

## Main definitions

* `Cluster.block`, `Cluster.contributes` — what each slot determines.
* `ClusterState.Undisturbed` — the condition on a step.
* `Chained` — the chain of a node is that of its runs.
* `Cluster.chains_replicated` — the chains of all nodes.
-/

namespace BlockchainMessaging

/-! ## What a slot determines -/

namespace Cluster

/-- The complete block of a slot. -/
def block (C : Cluster) (s : ℕ) : Block := (C.deployment s).block

/-- Somebody contributes to a slot. -/
def contributes (C : Cluster) (s : ℕ) : Bool :=
  C.addresses.any fun a => (C.env a s).isContributing

/-- No two nodes draw the same value first, in any slot. -/
def Distinct (C : Cluster) : Prop := ∀ s, (C.deployment s).Distinct

/-- No chain holds a placeholder that a run has left behind. -/
def Complete (C : Cluster) : Prop :=
  ∀ a ∈ C.addresses, ∀ b, C.archive.serialize b ∈ C.chain a → b.state = .COMPLETED

theorem contributes_iff {C : Cluster} {s : ℕ} :
    C.contributes s = true ↔ ∃ y ∈ C.addresses, (C.env y s).isContributing = true :=
  List.any_eq_true

end Cluster

namespace Tracks

variable {C : Cluster} {ok' : Sys → Action → Prop} {K : ClusterState} {x : String} {s : ℕ}

/-- Who has decided about a slot has decided by whether somebody contributes. -/
theorem decided (h : Tracks C ok' K) (hx : x ∈ C.addresses)
    (h10 : 10 ≤ ((K.process x).run s).pc.rank) :
    C.contributes s = true ↔ 11 ≤ ((K.process x).run s).pc.rank := by
  refine (h.tracked s).elim fun S hS hp => ?_
  have hi := inspected_of_reaches hS
  rw [← (hp.node x hx).run.pc] at h10 ⊢
  rw [Cluster.contributes_iff]
  constructor
  · rintro ⟨y, hy, hflag⟩
    by_contra hidle
    have hnone := hi.idle x hx (by omega) y hy
    rw [show (C.env y s).isContributing = false from hnone] at hflag
    cases hflag
  · exact hi.busy x hx

/-- Whoever has a block of a slot has the one that the slot determines. -/
theorem block_eq (h : Tracks C ok' K) (hC : C.Distinct) (hx : x ∈ C.addresses)
    (h26 : 26 ≤ ((K.process x).run s).pc.rank) :
    ((K.process x).run s).context.broadcastBlock = C.block s := by
  refine (h.tracked s).elim fun S hS hp => ?_
  obtain ⟨v, hv⟩ := (hC s).exists_elects hx
  obtain ⟨i, hi⟩ := (hp.node x hx).run.context
  have hblock := (determined_of_reaches (hC s) hv hS).broadcastBlock_eq hv hv.1 hx
    (by rwa [(hp.node x hx).run.pc])
  rwa [hi] at hblock

end Tracks

/-! ## The calls of a run on the chain -/

/-- The next call on the chain that is before a run. -/
def SlotPc.nextCall (any : Bool) (pc : SlotPc) : ChainCall :=
  if pc.rank ≤ 2 then .add
  else if pc = .removeDelete then .remove
  else if pc = .stopped ∨ 28 ≤ pc.rank then .done
  else if any then .update else .getByIndex

/-- What the chain sees of a run. -/
def Node.chainRun (any : Bool) (n : Node) : ChainRun :=
  ⟨n.pc.nextCall any, n.context.blockIndex, n.fetched⟩

/-- A block is only fetched by the look-up. -/
theorem slotMove_fetched (E : SlotEnv) (n : Node) (h : n.pc ≠ .removeGet) :
    (slotMove E n).1.fetched = n.fetched := by
  cases hpc : n.pc
  case removeGet => exact absurd hpc h
  case wait w phase =>
    obtain ⟨st, sync, owned, pc, failure, hw⟩ := waitMove_frame w n phase
    simp [slotMove, hpc, hw]
  case electUnique | relayValidator | relayPublish =>
    simp only [slotMove, hpc]
    split <;> rfl
  case nominate =>
    simp only [slotMove, hpc]
    cases n.storage.markValidator n.context.header.slot <;> rfl
  case collectMerge =>
    simp only [slotMove, hpc]
    cases n.storage.mergeContributors E.order n.context.header.slot <;> rfl
  case completeUpdate =>
    simp only [slotMove, hpc]
    split <;> rfl
  all_goals simp [slotMove, hpc, Node.ask_eq, Node.resetSynchronized, Node.setOperation]

/-- A call on the chain moves the run as `chainMove` does. -/
theorem chainRun_slotMove (E : SlotEnv) (n : Node) (any : Bool) {call : ChainCall}
    (h : n.pc.chainCall = some call) (hcall : n.pc.nextCall any = call) :
    match chainMove E.archive E.pendingBlock n.context.broadcastBlock any (n.chainRun any)
      n.chain with
    | .ok (r, chain) => (slotMove E n).1.chain = chain ∧ (slotMove E n).1.chainRun any = r
    | .error f => (slotMove E n).1 = n.fail f := by
  have hmove := slotMove_chain E n any h
  have hnext : ∀ r chain, chainMove E.archive E.pendingBlock n.context.broadcastBlock any
      ⟨call, n.context.blockIndex, n.fetched⟩ n.chain = .ok (r, chain) →
      (slotMove E n).1.pc.nextCall any = r.call := by
    intro r chain hr
    cases hpc : n.pc <;> simp only [hpc, SlotPc.chainCall, Option.some.injEq, reduceCtorEq] at h <;>
      subst h <;> simp only [chainMove] at hr
    · cases hr
      simp [slotMove, hpc, SlotPc.nextCall, SlotPc.rank]
    · split at hr <;> cases hr
      next b hget => simp [slotMove, hpc, hget, SlotPc.nextCall, SlotPc.rank]
    · cases hr
      simp [slotMove, hpc, SlotPc.nextCall, SlotPc.rank]
    · split at hr <;> cases hr
      next chain' hset => simp [slotMove, hpc, hset, SlotPc.nextCall, SlotPc.rank]
  rw [Node.chainRun, hcall]
  rcases hr : chainMove E.archive E.pendingBlock n.context.broadcastBlock any
    ⟨call, n.context.blockIndex, n.fetched⟩ n.chain with f | ⟨r, chain⟩
  · rwa [hr] at hmove
  · rw [hr] at hmove
    obtain ⟨hchain, hindex, hfetched⟩ := hmove
    exact ⟨hchain, by rw [Node.chainRun, hindex, hfetched, hnext r chain hr]⟩

/-- Every other call leaves the chain, and what the chain sees of the run. -/
theorem chainRun_slotMove_of_none (E : SlotEnv) (n : Node) (any : Bool)
    (h : n.pc.chainCall = none) :
    (slotMove E n).1.chain = n.chain ∧ (slotMove E n).1.chainRun any = n.chainRun any := by
  obtain ⟨hchain, hindex⟩ := slotMove_chain_of_none E n h
  have hcall := slotMove_pc (R := fun pc pc' => pc.chainCall = none →
    ∀ any, pc'.nextCall any = pc.nextCall any) (by decide +kernel) E n h any
  have hfetched := slotMove_fetched E n (by
    rintro hpc
    rw [hpc] at h
    cases h)
  exact ⟨hchain, by rw [Node.chainRun, hcall, hindex, hfetched, Node.chainRun]⟩

/-- The next call is the one that is made now, by what was decided about the slot. -/
theorem SlotPc.nextCall_of_chainCall {pc : SlotPc} {any : Bool} {call : ChainCall}
    (h : pc.chainCall = some call) (hany : 10 ≤ pc.rank → (any = true ↔ 11 ≤ pc.rank)) :
    pc.nextCall any = call := by
  have hall : ∀ pc : SlotPc, ∀ any, (10 ≤ pc.rank → (any = true ↔ 11 ≤ pc.rank)) →
      ∀ call ∈ pc.chainCall, pc.nextCall any = call := by decide +kernel
  exact hall pc any hany call h

/-- A run that wakes up is before the same call. -/
theorem SlotPc.Woken.nextCall {pc pc' : SlotPc} (h : pc.Woken pc') (any : Bool) :
    pc'.nextCall any = pc.nextCall any := by
  rcases h with rfl | ⟨w, rfl, rfl⟩
  · rfl
  · cases w <;> rfl

/-! ## The chain of a node -/

/-- The run will still use the index that it remembers. -/
def SlotPc.usesIndex (pc : SlotPc) : Bool :=
  3 ≤ pc.rank ∧ pc.rank ≤ 27 ∧ pc ≠ .removeDelete ∧ pc ≠ .stopped

namespace ClusterState

/-- The slots whose blocks were appended after that of `s`. -/
def addedAfter (K : ClusterState) (a : String) (s : ℕ) : List ℕ :=
  ((K.added a).dropWhile (· ≠ s)).tail

/-- A run removes its element only when every run that was added later is done with its index, and
the index it looks up fits the parameter of `getByIndex`. -/
def Undisturbed (K : ClusterState) : ClusterAction → Prop
  | .slot a s =>
      (((K.process a).run s).pc = .removeGet →
        ((K.process a).run s).context.blockIndex < 2 ^ 31) ∧
      (((K.process a).run s).pc = .removeDelete →
        ∀ s' ∈ K.addedAfter a s, ((K.process a).run s').pc.usesIndex = false)
  | _ => True

instance (K : ClusterState) : ∀ act, Decidable (K.Undisturbed act)
  | .slot _ _ => inferInstanceAs (Decidable (_ ∧ _))
  | .wake _ _ | .handle _ | .receive _ _ | .createChannel _ _ => .isTrue trivial

end ClusterState

/-- The pending block is pending. -/
theorem SlotEnv.state_pendingBlock (E : SlotEnv) : E.pendingBlock.state = .PENDING := by
  cases hb : E.popped with
  | none => simp [pendingBlock, hb, Block.ofData]
  | some b => simpa [pendingBlock, hb] using (E.popped_queued b hb).2

namespace Cluster

variable {C : Cluster} {a : String}

theorem pending_injective (C : Cluster) (ha : a ∈ C.addresses) :
    Function.Injective fun s => (C.env a s).pendingBlock := by
  intro s s' h
  have hslot := congrArg Block.slot h
  simpa only [C.pending_slot a ha] using hslot

theorem pending_not_mem (hC : C.Complete) (ha : a ∈ C.addresses) (s : ℕ) :
    C.archive.serialize (C.env a s).pendingBlock ∉ C.chain a := by
  intro hmem
  have hstate := hC a ha _ hmem
  rw [SlotEnv.state_pendingBlock] at hstate
  cases hstate

/-- What the runs of the node `a` bring to its chain. -/
def chainRuns (hC : C.Complete) (ha : a ∈ C.addresses) : ChainRuns ℕ where
  archive := C.archive
  chain := C.chain a
  pending := fun s => (C.env a s).pendingBlock
  isAnyNodeContributing := C.contributes
  broadcastBlock := C.block
  pending_state := fun s => (C.env a s).state_pendingBlock
  broadcastBlock_state := fun s => (C.deployment s).block_state
  pending_injective := C.pending_injective ha
  pending_not_mem := pending_not_mem hC ha

end Cluster

/-- The chain of the node `a` is that of its runs. -/
structure Chained (C : Cluster) (a : String) (K : ClusterState) (c : ChainState ℕ) : Prop where
  chain : c.chain = (K.process a).chain
  run : ∀ s, c.run s = ((K.process a).run s).chainRun (C.contributes s)
  added : c.added = K.added a

/-- Only an update writes the complete block. -/
theorem chainMove_broadcastBlock {A : BlockArchive} {pending b b' : Block} {any : Bool}
    {r : ChainRun} {chain : List String} (h : r.call = .update → b = b') :
    chainMove A pending b any r chain = chainMove A pending b' any r chain := by
  cases hcall : r.call with
  | update => rw [h hcall]
  | _ => simp only [chainMove, hcall]

/-- A run that is past its index has no call on the chain left but the removal. -/
theorem SlotPc.nextCall_of_usesIndex {pc : SlotPc} {any : Bool} (h : pc.usesIndex = false)
    (hadd : pc.nextCall any ≠ .add) : pc.nextCall any = .remove ∨ pc.nextCall any = .done := by
  have hall : ∀ pc : SlotPc, ∀ any, pc.usesIndex = false → pc.nextCall any ≠ .add →
      pc.nextCall any = .remove ∨ pc.nextCall any = .done := by decide +kernel
  exact hall pc any h hadd

namespace Chained

variable {C : Cluster} {a : String} {K K' : ClusterState} {c : ChainState ℕ}

/-- What the chain does not see. -/
theorem stay (h : Chained C a K c) (hchain : (K'.process a).chain = (K.process a).chain)
    (hrun : ∀ s any, ((K'.process a).run s).chainRun any = ((K.process a).run s).chainRun any)
    (hadded : K'.added a = K.added a) : Chained C a K' c :=
  ⟨h.chain.trans hchain.symm, fun s => (h.run s).trans (hrun s _).symm, h.added.trans hadded.symm⟩

variable {hC : C.Complete} {ha : a ∈ C.addresses}

/-- The condition on a step of the cluster is that of the runs. -/
theorem undisturbed (h : Chained C a K c) (hc : ChainState.Inv (C.chainRuns hC ha) c) {s : ℕ}
    (hok : K.Undisturbed (.slot a s)) {call : ChainCall}
    (hcall : ((K.process a).run s).pc.chainCall = some call)
    (hnext : ((K.process a).run s).pc.nextCall (C.contributes s) = call) : c.Undisturbed s := by
  have hrun : (c.run s).call = call := by rw [h.run s, Node.chainRun, hnext]
  rw [ChainState.Undisturbed, hrun]
  cases call with
  | add | update | done => trivial
  | getByIndex =>
    have hpc : ((K.process a).run s).pc = .removeGet := by
      revert hcall
      generalize ((K.process a).run s).pc = pc
      revert pc
      decide +kernel
    simpa only [h.run s, Node.chainRun] using hok.1 hpc
  | remove =>
    have hpc : ((K.process a).run s).pc = .removeDelete := by
      revert hcall
      generalize ((K.process a).run s).pc = pc
      revert pc
      decide +kernel
    intro s' hs'
    have hlater : s' ∈ K.addedAfter a s := by
      simpa only [ClusterState.addedAfter, ChainState.addedAfter, h.added] using hs'
    have hmem : s' ∈ c.added := (List.dropWhile_sublist _).subset (List.mem_of_mem_tail hs')
    have hadd := (hc.mem_added s').1 hmem
    rw [h.run s'] at hadd ⊢
    exact SlotPc.nextCall_of_usesIndex (hok.2 hpc s' hlater) hadd

/-- **A call on the chain** is one of the runs. -/
theorem slot_call (h : Chained C a K c) (hc : ChainState.Inv (C.chainRuns hC ha) c) {s : ℕ}
    (hok : K.Undisturbed (.slot a s)) {call : ChainCall}
    (hcall : ((K.process a).run s).pc.chainCall = some call)
    (hnext : ((K.process a).run s).pc.nextCall (C.contributes s) = call)
    (hblock : call = .update → ((K.process a).run s).context.broadcastBlock = C.block s)
    (hstep : C.step K (.slot a s) = some K') :
    ∃ c', c.Undisturbed s ∧ c.step (C.chainRuns hC ha) s = some c' ∧ Chained C a K' c' := by
  obtain ⟨-, p, hp, rfl⟩ := ClusterState.step_slot_eq_some hstep
  obtain ⟨-, -, n', hn', rfl⟩ := Process.step_slot_eq_some hp
  change n' = (slotMove (C.env a s) (K.view a s)).1 at hn'
  have hundisturbed := h.undisturbed hc hok hcall hnext
  have hrun : c.run s = (K.view a s).chainRun (C.contributes s) := h.run s
  have hmove := chainRun_slotMove (C.env a s) (K.view a s) (C.contributes s) hcall hnext
  have hbroadcast : (c.run s).call = .update →
      (K.view a s).context.broadcastBlock = C.block s := by
    rw [hrun]
    exact fun hupdate => hblock (hnext.symm.trans hupdate)
  rw [← hrun, C.archive_eq a ha s, chainMove_broadcastBlock hbroadcast,
    show (K.view a s).chain = c.chain from h.chain.symm] at hmove
  have hstepEq : c.step (C.chainRuns hC ha) s =
      match chainMove C.archive (C.env a s).pendingBlock (C.block s) (C.contributes s) (c.run s)
        c.chain with
      | .ok (run, chain) => some { c with
          chain
          run := Function.update c.run s run
          added := if (c.run s).call = .add then c.added ++ [s] else c.added
          owners := c.nextOwners (C.chainRuns hC ha) s }
      | .error f => some { c with failure := some f } := by
    rw [ChainState.step, if_neg]
    · rfl
    · have hdone : ∀ pc : SlotPc, pc.chainCall ≠ some .done := by decide +kernel
      rw [hc.failure, hrun, Node.chainRun]
      simp only [Option.isSome_none, Bool.false_or, decide_eq_true_eq]
      exact fun hnone => hdone _ (hcall.trans (congrArg some (hnext.symm.trans hnone)))
  rcases hr : chainMove C.archive (C.env a s).pendingBlock (C.block s) (C.contributes s) (c.run s)
    c.chain with f | ⟨r, chain⟩
  · rw [hr] at hstepEq
    have hfailure := (hc.step hundisturbed hstepEq).failure
    cases hfailure
  · rw [hr] at hstepEq hmove
    refine ⟨_, hundisturbed, hstepEq, ?_⟩
    obtain ⟨hchain, hafter⟩ := hmove
    constructor
    case chain => simpa [hn'] using hchain.symm
    case run =>
      intro s'
      by_cases hs : s' = s
      · subst hs
        simpa [hn'] using hafter.symm
      · simpa [hs] using h.run s'
    case added =>
      have hadd : (c.run s).call = .add ↔ (K.view a s).pc = .saveAdd := by
        have hall : ∀ pc : SlotPc, pc.chainCall = some .add ↔ pc = .saveAdd := by decide +kernel
        rw [← hall, hrun, Node.chainRun]
        change (K.view a s).pc.nextCall _ = _ ↔ ((K.process a).run s).pc.chainCall = _
        rw [hcall, show (K.view a s).pc.nextCall (C.contributes s) = call from hnext,
          Option.some.injEq]
      by_cases hpc : (K.view a s).pc = .saveAdd
      · simp [hpc, hadd, h.added]
      · simp [hpc, hadd, h.added]

/-- **One step of the cluster** is at most one call on the chain of the node. -/
theorem step {ok' : Sys → Action → Prop} (h : Chained C a K c) (ht : Tracks C ok' K)
    (hD : C.Distinct) (hc : ChainState.Inv (C.chainRuns hC ha) c) {act : ClusterAction}
    (hok : K.Undisturbed act) (hstep : C.step K act = some K') :
    Chained C a K' c ∨ ∃ s c', c.Undisturbed s ∧ c.step (C.chainRuns hC ha) s = some c' ∧
      Chained C a K' c' := by
  cases act with
  | slot b s =>
    by_cases hab : a = b
    · subst hab
      cases hcall : ((K.process a).run s).pc.chainCall with
      | some call =>
        refine .inr ⟨s, h.slot_call hc hok hcall (SlotPc.nextCall_of_chainCall hcall
          (ht.decided ha)) (fun hupdate => ht.block_eq hD ha ?_) hstep⟩
        have hrank : ∀ pc : SlotPc, pc.chainCall = some .update → 26 ≤ pc.rank := by
          decide +kernel
        exact hrank _ (hupdate ▸ hcall)
      | none =>
        obtain ⟨-, p, hp, rfl⟩ := ClusterState.step_slot_eq_some hstep
        obtain ⟨-, -, n', hn', rfl⟩ := Process.step_slot_eq_some hp
        change n' = (slotMove (C.env a s) (K.view a s)).1 at hn'
        have hnone : n'.chain = (K.process a).chain ∧
            ∀ any, n'.chainRun any = ((K.process a).run s).chainRun any := by
          rw [hn']
          exact ⟨(chainRun_slotMove_of_none (C.env a s) (K.view a s) true hcall).1,
            fun any => (chainRun_slotMove_of_none (C.env a s) (K.view a s) any hcall).2⟩
        refine .inl (h.stay (by simpa using hnone.1) (fun s' any => ?_) ?_)
        · by_cases hs : s' = s
          · subst hs
            simpa using hnone.2 any
          · simp [hs]
        · have hpc : (K.view a s).pc ≠ .saveAdd := by
            intro hpc
            rw [show ((K.process a).run s).pc = .saveAdd from hpc] at hcall
            cases hcall
          simp [hpc]
    · obtain ⟨-, p, hp, rfl⟩ := ClusterState.step_slot_eq_some hstep
      refine .inl (h.stay (by simp [hab]) (fun s' any => by simp [hab]) ?_)
      by_cases hpc : (K.view b s).pc = .saveAdd <;> simp [hpc, hab]
  | wake b s =>
    obtain ⟨-, p, hp, rfl⟩ := ClusterState.step_wake_eq_some hstep
    by_cases hab : a = b
    · subst hab
      obtain ⟨w, hpc, rfl⟩ := Process.step_wake_eq_some hp
      refine .inl (h.stay (by simp) (fun s' any => ?_) rfl)
      by_cases hs : s' = s
      · subst hs
        have hwoken := SlotPc.Woken.nextCall (.inr ⟨w, hpc, rfl⟩) any
        simp [Node.chainRun, hwoken, Process.view]
      · simp [hs]
    · exact .inl (h.stay (by simp [hab]) (fun s' any => by simp [hab]) rfl)
  | handle b =>
    obtain ⟨-, p, hp, rfl⟩ := ClusterState.step_handle_eq_some hstep
    by_cases hab : a = b
    · subst hab
      obtain ⟨-, op, rest, n, -, -, rfl⟩ := Process.step_handle_eq_some hp
      refine .inl (h.stay (by simp) (fun s' any => ?_) rfl)
      obtain ⟨storage, pc, todo, failure, hexec, hpc, -⟩ :=
        op.exec_frame { (K.process a).view ((K.process a).run s') with todo := rest }
      have hnext := hpc.nextCall any
      simp only [ClusterState.process_setProcess, if_true, Node.chainRun, hexec]
      rw [hnext]
      rfl
    · exact .inl (h.stay (by simp [hab]) (fun s' any => by simp [hab]) rfl)
  | receive b b' =>
    obtain ⟨-, m, rest, p, -, hp, rfl⟩ := ClusterState.step_receive_eq_some hstep
    by_cases hab : a = b
    · subst hab
      obtain ⟨n, -, rfl⟩ := Option.map_eq_some_iff.1 hp
      exact .inl (h.stay (by simp) (fun s' any => by simp) rfl)
    · exact .inl (h.stay (by simp [hab]) (fun s' any => by simp [hab]) rfl)
  | createChannel b author =>
    obtain ⟨-, rfl⟩ := ClusterState.step_createChannel_eq_some hstep
    exact .inl (h.stay rfl (fun _ _ => rfl) rfl)

end Chained

/-! ## All chains -/

/-- The runs of `a` lead to a chain like that of `a`. -/
def Ledgered (C : Cluster) (hC : C.Complete) (K : ClusterState) : Prop :=
  ∀ a, ∀ ha : a ∈ C.addresses, Tracked (ChainState.step (C.chainRuns hC ha))
    ChainState.Undisturbed (ChainState.start (C.chainRuns hC ha)) (Chained C a) K

namespace Ledgered

variable {C : Cluster} {hC : C.Complete} {K K' : ClusterState}

theorem step {ok' : Sys → Action → Prop} (h : Ledgered C hC K) (ht : Tracks C ok' K)
    (hD : C.Distinct) {act : ClusterAction} (hok : K.Undisturbed act)
    (hstep : C.step K act = some K') : Ledgered C hC K' :=
  fun a ha => (h a ha).move fun _ hr hc => hc.step ht hD (ChainState.inv_of_reaches hr) hok hstep

theorem start (C : Cluster) (hC : C.Complete) : Ledgered C hC C.start :=
  fun _ _ => .start ⟨rfl, fun _ => rfl, rfl⟩

end Ledgered

/-- The chains of all nodes, in every run whose steps do not disturb each other. -/
theorem Cluster.ledgered_of_reaches {C : Cluster} {K : ClusterState}
    {ok : ClusterState → ClusterAction → Prop} (hD : C.Distinct) (hC : C.Complete)
    (hok : ∀ K act, ok K act → K.Undisturbed act) (h : Reaches C.step ok C.start K) :
    Ledgered C hC K := by
  have hinv := h.invariant (I := fun K => Ledgered C hC K ∧ Tracks C (fun _ _ => True) K)
    ⟨.start C hC, .start C _⟩ fun K act _ hi hact hs =>
      ⟨hi.1.step hi.2 hD (hok K act hact) hs, hi.2.step (fun _ _ _ _ _ => trivial) hs⟩
  exact hinv.1

/-- `PendingBlockSaver::save` has appended the block. -/
def SlotPc.appended (pc : SlotPc) : Prop := SlotPc.saveBlock.rank ≤ pc.rank

instance : DecidablePred SlotPc.appended := fun pc => inferInstanceAs (Decidable (_ ≤ pc.rank))

/-- What the chain of `a` has for the slot `s`, once its run has appended its block: first this
block, in the end the complete one, or nothing. -/
def ClusterState.entry (C : Cluster) (K : ClusterState) (a : String) (s : ℕ) : Option Block :=
  if ((K.process a).run s).pc = .stopped then none
  else if ((K.process a).run s).pc.saved then some (C.block s)
  else some (C.env a s).pendingBlock

/-- What is in the chain for a run that was added. -/
theorem Chained.content_eq {C : Cluster} {a : String} {K : ClusterState} {c : ChainState ℕ}
    {hC : C.Complete} {ha : a ∈ C.addresses} {ok' : Sys → Action → Prop} (h : Chained C a K c)
    (ht : Tracks C ok' K) {s : ℕ} (hadd : (c.run s).call ≠ .add) :
    c.content (C.chainRuns hC ha) s = (K.entry C a s).map C.archive.serialize := by
  have hdecided := ht.decided ha (s := s)
  have hcall : ∀ pc : SlotPc, ∀ any, (10 ≤ pc.rank → (any = true ↔ 11 ≤ pc.rank)) →
      pc.nextCall any ≠ .add →
      (pc.nextCall any = .done ↔ pc = .stopped ∨ pc.saved) ∧
        (pc = .stopped → any = false) ∧ (pc.saved → pc ≠ .stopped ∧ any = true) := by
    decide +kernel
  have hrun : (c.run s).call = ((K.process a).run s).pc.nextCall (C.contributes s) := by
    rw [h.run s, Node.chainRun]
  rw [hrun] at hadd
  obtain ⟨hdone, hstopped, hsaved⟩ := hcall _ _ hdecided hadd
  rw [ClusterState.entry]
  by_cases hstop : ((K.process a).run s).pc = .stopped
  · rw [if_pos hstop, ChainState.content, hrun, hdone.2 (.inl hstop)]
    simp [Cluster.chainRuns, hstopped hstop]
  · rw [if_neg hstop]
    by_cases hsave : ((K.process a).run s).pc.saved
    · rw [if_pos hsave, ChainState.content, hrun, hdone.2 (.inr hsave)]
      simp [Cluster.chainRuns, (hsaved hsave).2]
    · rw [if_neg hsave, ChainState.content_pending (by rwa [hrun]) fun hnone =>
        (hdone.1 (hrun ▸ hnone)).elim hstop hsave]
      rfl

/-- **The chain of a node**: the initial chain, and behind it one element for each run that has
appended its block and not removed it, in the order of the appends. -/
theorem Ledgered.chain_eq {C : Cluster} {hC : C.Complete} {K : ClusterState}
    {ok' : Sys → Action → Prop} (h : Ledgered C hC K) (ht : Tracks C ok' K) {a : String}
    (ha : a ∈ C.addresses) : (K.added a).Nodup ∧
      (∀ s, s ∈ K.added a ↔ ((K.process a).run s).pc.appended) ∧
      (K.process a).chain =
        C.chain a ++ ((K.added a).filterMap (K.entry C a)).map C.archive.serialize := by
  refine (h a ha).elim fun c hr hc => ?_
  have hinv := ChainState.inv_of_reaches hr
  refine ⟨hc.added ▸ hinv.nodup, fun s => ?_, ?_⟩
  · have hadd : ∀ pc : SlotPc, ∀ any, pc.nextCall any ≠ .add ↔ pc.appended := by decide +kernel
    rw [← hc.added, hinv.mem_added, hc.run s]
    exact hadd _ _
  rw [← hc.chain, hinv.chain_eq, List.map_filterMap, hc.added]
  exact congrArg _ (List.filterMap_congr fun s hs =>
    hc.content_eq ht ((hinv.mem_added s).1 (hc.added ▸ hs)))

/-- When the runs are over, the chain has the complete blocks of the slots with contributors. -/
theorem ClusterState.filterMap_entry {C : Cluster} {K : ClusterState} {ok' : Sys → Action → Prop}
    (ht : Tracks C ok' K) {a : String} (ha : a ∈ C.addresses) {added : List ℕ}
    (hover : ∀ s ∈ added, ((K.process a).run s).pc.saved ∨ ((K.process a).run s).pc = .stopped) :
    added.filterMap (K.entry C a) = (added.filter C.contributes).map C.block := by
  rw [← List.filterMap_eq_map, List.filterMap_filter]
  refine List.filterMap_congr fun s hs => ?_
  rw [entry]
  rcases hover s hs with hsaved | hstop
  · have h28 : 28 ≤ ((K.process a).run s).pc.rank := hsaved
    have hbusy : C.contributes s = true := (ht.decided ha (by omega)).2 (by omega)
    have hne : ((K.process a).run s).pc ≠ .stopped := by
      intro hstop
      rw [hstop] at h28
      exact absurd h28 (by decide)
    simp [hne, hsaved, hbusy]
  · have hidle : C.contributes s = false := by
      have hiff := ht.decided ha (s := s) (by rw [hstop]; decide)
      rw [hstop] at hiff
      simpa [SlotPc.rank] using hiff
    simp [hstop, hidle]

/-- **The chains are replicated.**  In every run of all slots, without collisions and without steps
that disturb others: the chain of every node is the initial one, followed by one element for each
run that was added and has not removed its own, in the order in which they were added; and when the
runs of two nodes are over, which have started with the same chain and have added the slots with
contributors in the same order, their chains are the same. -/
theorem Cluster.chains_replicated {C : Cluster} {K : ClusterState} (hD : C.Distinct)
    (hC : C.Complete) (h : Reaches C.step ClusterState.Undisturbed C.start K) :
    (∀ a ∈ C.addresses, (K.added a).Nodup ∧
      (∀ s, s ∈ K.added a ↔ ((K.process a).run s).pc.appended) ∧
      (K.process a).chain =
        C.chain a ++ ((K.added a).filterMap (K.entry C a)).map C.archive.serialize) ∧
    ∀ a ∈ C.addresses, ∀ b ∈ C.addresses, C.chain a = C.chain b →
      (K.added a).filter C.contributes = (K.added b).filter C.contributes →
      (∀ x ∈ [a, b], ∀ s ∈ K.added x,
        ((K.process x).run s).pc.saved ∨ ((K.process x).run s).pc = .stopped) →
      (K.process a).chain = (K.process b).chain := by
  have hl := Cluster.ledgered_of_reaches hD hC (fun _ _ => id) h
  have ht := Cluster.tracks_of_reaches h
  refine ⟨fun a ha => hl.chain_eq ht ha, fun a ha b hb hchain hadded hover => ?_⟩
  rw [(hl.chain_eq ht ha).2.2, (hl.chain_eq ht hb).2.2, hchain,
    ClusterState.filterMap_entry ht ha (hover a (by simp)),
    ClusterState.filterMap_entry ht hb (hover b (by simp)), hadded]

/-! ## Two overlapping slots -/

theorem twoNodes_distinct : twoNodes.Distinct := by
  intro s x hx y hy hne
  have hx : x ∈ ["a", "b"] := hx
  have hy : y ∈ ["a", "b"] := hy
  simp only [List.mem_cons, List.not_mem_nil, or_false] at hx hy
  rcases hx with rfl | rfl <;> rcases hy with rfl | rfl
  · exact absurd rfl hne
  · exact (by decide : (7 : ℕ) ≠ 5)
  · exact (by decide : (5 : ℕ) ≠ 7)
  · exact absurd rfl hne

theorem twoNodes_complete : twoNodes.Complete := fun _ _ _ h => absurd h List.not_mem_nil

/-- The nodes inspect the slot 3, and find nobody who contributes. -/
def idleSlot : List Action :=
  List.replicate 4 (.slot "a") ++ List.replicate 4 (.slot "b") ++ deliver "a" "b" 6 ++
    deliver "b" "a" 6 ++ List.replicate 6 (.slot "a") ++ List.replicate 6 (.slot "b")

/-- The slot 3 begins while the slot 2 is inspected, and ends after it. -/
def overlappingSlots : List ClusterAction :=
  (relayPairSaves.take 7).map (Action.inSlot 2) ++ List.replicate 3 (.slot "a" 3) ++
    ((relayPairSaves.drop 7).take 7).map (Action.inSlot 2) ++ List.replicate 3 (.slot "b" 3) ++
    (relayPairSaves.drop 14).map (Action.inSlot 2) ++ idleSlot.map (Action.inSlot 3)

set_option maxRecDepth 4000 in
theorem Cluster.chains_replicated_twoNodes : ∃ K : ClusterState,
    K.added "a" = [2, 3] ∧ (K.process "a").chain = (K.process "b").chain ∧
      (K.process "a").chain =
        ([2, 3].filterMap (K.entry twoNodes "a")).map textArchive.serialize := by
  obtain ⟨K, hK, h⟩ := exists_reaches twoNodes.step ClusterState.Undisturbed twoNodes.start
    overlappingSlots (fun K => K.added "a" = [2, 3] ∧ K.added "b" = [2, 3] ∧
      ∀ x ∈ ["a", "b"], ∀ s ∈ K.added x,
        ((K.process x).run s).pc.saved ∨ ((K.process x).run s).pc = .stopped) (by decide +kernel)
  simp only [decide_eq_true_eq] at h
  obtain ⟨ha, hb, hover⟩ := h
  obtain ⟨hchains, hsame⟩ := chains_replicated twoNodes_distinct twoNodes_complete hK
  refine ⟨K, ha, hsame "a" (by decide) "b" (by decide) rfl (by rw [ha, hb]) hover, ?_⟩
  · have hchain := (hchains "a" (by decide)).2.2
    rwa [ha] at hchain

end BlockchainMessaging
