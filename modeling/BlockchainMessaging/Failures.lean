import BlockchainMessaging.Chain
import BlockchainMessaging.Voting

/-!
# What can fail

A node that works on its slot finds what it needs: a synchronization context, its own block at
the end of its chain, a marked validator with a channel to it, and every flag that it reads.
So, until the slot is cleared, no call of either of its threads ends the process, with one
exception: in the election the lock that is owned already may be locked again.

## Main definitions

* `Equipped` — what a node finds.
* `Sound`, `sound_of_reaches` — no other failure.
-/

namespace BlockchainMessaging

open ConsensusStorage

/-! ## The synchronization context -/

/-- The slot has a synchronization context. -/
def ConsensusStorage.HasCondition (st : ConsensusStorage) (s : ℕ) : Prop :=
  ∃ p, st.conditions.find s = some (some p) ∧ p < st.allocated.length

/-- A slot without an entry gets a context. -/
theorem ConsensusStorage.hasCondition_initConditions {st : ConsensusStorage} {s : ℕ}
    (h : st.conditions.find s = none) : (st.initConditions s).HasCondition s := by
  refine ⟨st.allocated.length, ?_, ?_⟩
  · rw [find_initConditions, if_pos ⟨rfl, h⟩]
  · have hmem : s ∉ st.conditions.keys := by
      rw [UnorderedMap.mem_keys, h]
      simp
    simp [initConditions, hmem]

/-- No object is freed. -/
theorem length_allocated_slotMove (E : SlotEnv) (n : Node) :
    n.storage.allocated.length ≤ (slotMove E n).1.storage.allocated.length := by
  rcases slotMove_rest E n with h | ⟨-, h⟩ | ⟨-, h⟩ | ⟨-, p, -, h⟩ | ⟨-, h⟩
  · rw [(rest_eq h).2.1]
  · rw [h, initConditions]
    split <;> simp
  · rw [h, getSlotSynchronizationContext]
    split <;> simp
  · rw [h, storeSynchronized, List.length_set]
  · rw [h, clearSlot]

theorem HandlerOp.length_allocated_exec (op : HandlerOp) (n : Node) :
    n.storage.allocated.length ≤ (op.exec n).storage.allocated.length := by
  rcases op.exec_rest n with h | ⟨-, h⟩ | ⟨-, p, -, h⟩ | ⟨-, h⟩
  · rw [(rest_eq h).2.1]
  · rw [h, ConsensusStorage.initConditions]
    split <;> simp
  · rw [h, ConsensusStorage.storeSynchronized, List.length_set]
  · rw [h, getSlotSynchronizationContext]
    split <;> simp

/-! ## What a node finds -/

/-- The pending block stands in the chain. -/
def SlotPc.holdsPending (pc : SlotPc) : Bool := 3 ≤ pc.rank ∧ pc.rank ≤ 27 ∧ pc ≠ .stopped

/-- What the node `x` finds at its place in the code. -/
structure Equipped (D : Deployment) (x : String) (n : Node) : Prop where
  /-- The slot has a context, unless neither the tick nor a message has come yet. -/
  condition : n.pc.rank ≤ 28 → n.storage.HasCondition D.slot ∨
    n.pc.rank = 0 ∧ n.storage.conditions.find D.slot = none ∧
      (n.todo = [] ∨ ∃ rest, n.todo = .initConditions :: rest)
  fresh : n.pc.rank ≤ 2 → n.chain = D.chain x
  pending : n.pc.holdsPending = true →
    n.chain = D.chain x ++ [(D.env x).archive.serialize (D.env x).pendingBlock] ∧
      n.context.blockIndex = (D.chain x).length
  completed : 28 ≤ n.pc.rank →
    n.chain = D.chain x ++ [(D.env x).archive.serialize n.context.broadcastBlock]
  /-- Flags are not asked for before they are there. -/
  uploading : .isAllContributorsDataCollected ∈ n.todo → 8 ≤ n.pc.rank

namespace Equipped

variable {D : Deployment} {x : String} {n : Node}

theorem hasCondition (he : Equipped D x n) (h1 : 1 ≤ n.pc.rank) (h28 : n.pc.rank ≤ 28) :
    n.storage.HasCondition D.slot := by
  refine (he.condition h28).resolve_right ?_
  rintro ⟨h0, -⟩
  omega

/-- The update of `completeUpdate` goes through. -/
theorem update_eq (he : Equipped D x n) (hpc : n.pc = .completeUpdate) (b : Block) :
    RedisDB.update (D.env x).archive b n.context.blockIndex n.chain =
      some (D.chain x ++ [(D.env x).archive.serialize b]) := by
  obtain ⟨hchain, hindex⟩ := he.pending (by rw [hpc]; rfl)
  rw [hchain, hindex, RedisDB.update_last]

/-- The read of `removeGet` finds a block. -/
theorem getByIndex_eq (he : Equipped D x n) (hx : x ∈ D.addresses) (hpc : n.pc = .removeGet) :
    ∃ b, RedisDB.getByIndex (D.env x).archive n.context.blockIndex n.chain = some (some b) := by
  obtain ⟨hchain, hindex⟩ := he.pending (by rw [hpc]; rfl)
  rw [hindex]
  refine RedisDB.exists_getByIndex _ (by simp [hchain]) fun text htext => ?_
  rw [hchain, List.mem_append, List.mem_singleton] at htext
  rcases htext with htext | rfl
  · exact D.chain_serialized x hx text htext
  · exact ⟨_, rfl⟩

/-- A call of the slot thread. -/
theorem slotMove (he : Equipped D x n) (hx : x ∈ D.addresses) :
    Equipped D x (slotMove (D.env x) n).1 := by
  have hchain := slotMove_chain_of_none (D.env x) n
  have hrank := slotMove_rank (D.env x) n
  constructor
  case condition =>
    intro h28
    have hclear : n.pc ≠ .completeClear := by
      intro hclear
      simp [BlockchainMessaging.slotMove, hclear, SlotPc.rank] at h28
    by_cases hinit : n.pc = .initConditions
    · refine .inl ?_
      have hstorage : (BlockchainMessaging.slotMove (D.env x) n).1.storage =
          n.storage.initConditions D.slot := by
        simp [BlockchainMessaging.slotMove, hinit, D.env_slot x hx]
      rcases he.condition (hrank.trans h28) with ⟨p, hp, hlt⟩ | ⟨-, hnone, -⟩
      · exact ⟨p, slotMove_find hclear hp, hlt.trans_le (length_allocated_slotMove _ _)⟩
      · rw [hstorage]
        exact hasCondition_initConditions hnone
    · have h1 : ∀ pc : SlotPc, pc ≠ .initConditions → 1 ≤ pc.rank := by decide +kernel
      obtain ⟨p, hp, hlt⟩ := he.hasCondition (h1 _ hinit) (hrank.trans h28)
      exact .inl ⟨p, slotMove_find hclear hp, hlt.trans_le (length_allocated_slotMove _ _)⟩
  case fresh =>
    intro h2
    have hback := slotMove_pc (R := fun pc pc' => pc'.rank ≤ 2 →
      pc.rank ≤ 2 ∧ (pc = .saveAdd ∨ pc.chainCall = none)) (by decide +kernel) (D.env x) n h2
    obtain ⟨hle, hadd | hnone⟩ := hback
    · simp [BlockchainMessaging.slotMove, hadd, SlotPc.rank] at h2
    · rw [(hchain hnone).1, he.fresh hle]
  case pending =>
    intro hholds
    have hback := slotMove_pc (R := fun pc pc' => pc'.holdsPending = true →
      pc = .saveAdd ∨ pc.holdsPending = true ∧
        (pc ∈ [SlotPc.removeGet, .removeDelete, .completeUpdate] ∨ pc.chainCall = none))
      (by decide +kernel) (D.env x) n hholds
    rcases hback with hadd | ⟨hbefore, hcall | hnone⟩
    · have hfresh := he.fresh (by rw [hadd]; decide)
      simp [BlockchainMessaging.slotMove, hadd, hfresh]
    · simp only [List.mem_cons, List.not_mem_nil, or_false] at hcall
      rcases hcall with hget | hdelete | hupdate
      · have hkept : (BlockchainMessaging.slotMove (D.env x) n).1.chain = n.chain ∧
            (BlockchainMessaging.slotMove (D.env x) n).1.context = n.context := by
          simp only [BlockchainMessaging.slotMove, hget]
          split <;> exact ⟨rfl, rfl⟩
        rw [hkept.1, hkept.2]
        exact he.pending hbefore
      · simp [BlockchainMessaging.slotMove, hdelete, SlotPc.holdsPending] at hholds
      · simp [BlockchainMessaging.slotMove, hupdate, he.update_eq hupdate, SlotPc.holdsPending,
          SlotPc.rank] at hholds
    · rw [(hchain hnone).1, (hchain hnone).2]
      exact he.pending hbefore
  case completed =>
    intro h28
    have hback := slotMove_pc (R := fun pc pc' => 28 ≤ pc'.rank →
      pc = .completeUpdate ∨ 28 ≤ pc.rank ∧ pc.chainCall = none ∧ pc ≠ .collectMerge ∧
        pc ≠ .awaitBlock) (by decide +kernel) (D.env x) n h28
    rcases hback with hupdate | ⟨h28, hnone, hmerge, hawait⟩
    · simp [BlockchainMessaging.slotMove, hupdate, he.update_eq hupdate]
    · rw [(hchain hnone).1, he.completed h28, slotMove_context,
        slotContext_broadcastBlock _ hmerge hawait]
  case uploading =>
    rw [(slotMove_frame (D.env x) n).1]
    exact fun h => (he.uploading h).trans hrank

/-- What is not a call of the slot thread. -/
theorem passive (he : Equipped D x n) {n' : Node} (hcontext : n'.context = n.context)
    (hchain : n'.chain = n.chain) (hpc : n.pc.Woken n'.pc)
    (hcondition : n.pc.rank ≤ 28 → n'.storage.HasCondition D.slot ∨
      n.pc.rank = 0 ∧ n'.storage.conditions.find D.slot = none ∧
        (n'.todo = [] ∨ ∃ rest, n'.todo = .initConditions :: rest))
    (huploading : .isAllContributorsDataCollected ∈ n'.todo → 8 ≤ n.pc.rank) :
    Equipped D x n' := by
  have hrank := hpc.rank_eq
  have hholds : n'.pc.holdsPending = n.pc.holdsPending := by
    rcases hpc with h | ⟨w, h, h'⟩
    · rw [h]
    · rw [h, h']
      cases w <;> rfl
  constructor
  case condition => simpa only [hrank] using hcondition
  case fresh => simpa only [hrank, hchain] using he.fresh
  case pending => simpa only [hholds, hchain, hcontext] using he.pending
  case completed => simpa only [hrank, hchain, hcontext] using he.completed
  case uploading => simpa only [hrank] using huploading

/-- A call of the consensus thread. -/
theorem handle (he : Equipped D x n) (hl : Local D x n) {op : HandlerOp} {rest : List HandlerOp}
    (htodo : n.todo = op :: rest) : Equipped D x (op.exec { n with todo := rest }) := by
  have hslot := (hl.sender (by simp [htodo])).1
  have hrest : ∀ o ∈ (op.exec { n with todo := rest }).todo, o ∈ n.todo := by
    rw [htodo]
    rcases op.exec_todo { n with todo := rest } with h | ⟨-, h⟩
    · rw [h]
      exact fun o ho => List.mem_cons_of_mem _ ho
    · simp [h]
  have hlength := op.length_allocated_exec { n with todo := rest }
  refine he.passive (op.exec_context _) ?_ (op.exec_pc _) (fun h28 => ?_)
    fun h => he.uploading (hrest _ h)
  · obtain ⟨st, pc, todo, failure, h, -⟩ := op.exec_frame { n with todo := rest }
    rw [h]
  · rcases he.condition h28 with ⟨p, hp, hlt⟩ | ⟨h0, hnone, hinit⟩
    · exact .inl ⟨p, HandlerOp.exec_find hp, hlt.trans_le hlength⟩
    · obtain rfl : op = .initConditions := by
        rcases hinit with hinit | ⟨rest', hinit⟩
        · simp [htodo] at hinit
        · rw [htodo] at hinit
          exact (List.cons.inj hinit).1
      refine .inl ?_
      simp only [HandlerOp.exec, hslot]
      exact hasCondition_initConditions hnone

theorem wake (he : Equipped D x n) {w : Waiter} (hpc : n.pc = .wait w .asleep) :
    Equipped D x { n with pc := .wait w .eval } :=
  he.passive rfl rfl (.inr ⟨w, hpc, rfl⟩) he.condition he.uploading

/-- The receipt of a message: before the tick it can only be one of the inspection, and an
upload comes after it. -/
theorem receive (he : Equipped D x n) {m : ConsensusMessage} {todo : List HandlerOp}
    (hm : handlerScript m = some todo)
    (hearly : m.header.operation = .INSPECTION ∨ 8 ≤ n.pc.rank ∨
      m.header.operation ≠ .UPLOADING ∧ 1 ≤ n.pc.rank) :
    Equipped D x { n with header := m.header, todo } := by
  refine he.passive rfl rfl (.inl rfl) (fun h28 => (he.condition h28).imp_right ?_) ?_
  · rintro ⟨h0, hnone, -⟩
    refine ⟨h0, hnone, .inr ?_⟩
    have hop : m.header.operation = .INSPECTION := by
      rcases hearly with hop | h8 | ⟨-, h1⟩
      · exact hop
      · omega
      · omega
    rw [handlerScript] at hm
    split at hm <;> cases hm <;> simp_all
  · intro h
    have hop : m.header.operation = .UPLOADING := by
      rw [handlerScript] at hm
      split at hm <;> cases hm <;> simp_all
    rcases hearly with hop' | h8 | ⟨hne, -⟩
    · rw [hop] at hop'
      cases hop'
    · exact h8
    · exact absurd hop hne

theorem start (hx : x ∈ D.addresses) : Equipped D x (D.start.node x) := by
  constructor
  case condition => exact fun _ => .inr ⟨rfl, D.condition_eq x hx, .inl rfl⟩
  all_goals simp [Deployment.start, SlotPc.rank, SlotPc.holdsPending]

end Equipped

/-! ## The failures -/

/-- When a call ends the process of the node, this is why: the election locks what is locked,
or a handler looks for the slot after `clearSlot`. -/
def Node.Fails (n : Node) (f : Failure) : Prop :=
  f = .lockOwned ∧ n.pc = .wait .election .lock ∧ n.owned = true ∨
    29 ≤ n.pc.rank ∧ (f = .nullContext ∨ f = .badOptional)

/-- Every node finds what it needs, and fails for no other reason. -/
structure Sound (D : Deployment) (s : Sys) : Prop where
  voted : Voted D s
  equipped : ∀ x ∈ D.addresses, Equipped D x (s.node x)
  failure : ∀ x ∈ D.addresses, ∀ f, (s.node x).failure = some f → (s.node x).Fails f

/-- How far the sender of a message has come. -/
theorem Voted.sender_rank {D : Deployment} {s : Sys} {x y : String} {m : ConsensusMessage}
    (hi : Voted D s) (hm : m ∈ (s.channel y x).sent) :
    m.header.operation = .INSPECTION ∨
      m.header.operation = .ELECTION ∧ 13 ≤ (s.node y).pc.rank ∨ 18 ≤ (s.node y).pc.rank := by
  have hmail := hi.inspected.ledger.base.mail y x m hm
  have hex := hi.inspected.ledger.exchange y hmail.source x hmail.target.1 hmail.target.2
  have hout : ∀ op ∈ m.updates, op ∈ outbox (D.env y) (s.node y) x := by
    intro op hop
    rw [← hex.flatMap_sent]
    exact List.mem_flatMap.2 ⟨m, hm, hop⟩
  have hwf := hmail.wellFormed
  rw [handlerScript] at hwf
  split at hwf
  · next hop _ => exact .inl hop
  · next v hop hbody =>
    have hvotes := votes_of_mem_outbox (hout (.fillElectionValue v) (by
      simp [ConsensusMessage.updates, handlerScript, hop, hbody, HandlerOp.isUpdate]))
    exact .inr (.inl ⟨hop, (hi.inspected.ledger.base.known y hmail.source).rank_of_votes hvotes⟩)
  · next b hop hbody =>
    exact .inr (.inr (rank_of_mem_outbox (hout (.addBlock b) (by
      simp [ConsensusMessage.updates, handlerScript, hop, hbody, HandlerOp.isUpdate]))))
  · next b hop hbody =>
    exact .inr (.inr (rank_of_mem_outbox (hout (.addBlock b) (by
      simp [ConsensusMessage.updates, handlerScript, hop, hbody, HandlerOp.isUpdate]))))
  · exact absurd rfl hwf

namespace Sound

variable {D : Deployment} {s s' : Sys} {act : Action} {x : String}

/-- A flag that is asked for is there. -/
theorem isAllContributorsDataCollected_ne_none (hi : Voted D s) (hx : x ∈ D.addresses)
    (h8 : 8 ≤ (s.node x).pc.rank) (h28 : (s.node x).pc.rank ≤ 28) :
    ((s.node x).storage.isAllContributorsDataCollected D.slot).1 ≠ none := by
  refine ConsensusStorage.isAllContributorsDataCollected_ne_none fun a ha => ?_
  have ha := ((hi.inspected.ledger.base.known x hx).mem_keys a).1 ha
  rw [hi.inspected.flags x hx h8 h28 a ha]
  rfl

/-- Of all reasons to fail, the slot thread meets one. -/
theorem lockOwned_of_failsWith (hi : Sound D s) (hx : x ∈ D.addresses) {f : Failure}
    (h : failsWith (D.env x) (s.node x) f) :
    f = .lockOwned ∧ (s.node x).pc = .wait .election .lock ∧ (s.node x).owned = true := by
  have hl := hi.voted.inspected.ledger.base.known x hx
  have he := hi.equipped x hx
  have hslot : 4 ≤ (s.node x).pc.rank → (s.node x).context.header.slot = D.slot := hl.slot_eq hx
  have hflags : 8 ≤ (s.node x).pc.rank → (s.node x).pc.rank ≤ 28 →
      ∀ a ∈ (s.node x).storage.contexts.keys,
        ((s.node x).storage.context a D.slot).isContributing.isSome := by
    intro h8 h28 a ha
    rw [hi.voted.inspected.flags x hx h8 h28 a ((hl.mem_keys a).1 ha)]
    rfl
  cases f with
  | nullContext =>
    obtain ⟨⟨w, hpc⟩, hnone⟩ := h
    have hrank : 4 ≤ (s.node x).pc.rank ∧ (s.node x).pc.rank ≤ 28 := by
      rw [hpc]
      cases w <;> decide
    obtain ⟨p, hp, -⟩ := he.hasCondition (by omega) hrank.2
    rw [hslot hrank.1] at hnone
    exact absurd hp (hnone p)
  | badOptional =>
    exfalso
    rcases h with ⟨⟨phase, hpc⟩, hnone⟩ | ⟨hpc, hnone⟩ | ⟨hpc, hnone⟩
    · have hrank : (s.node x).pc.rank = 19 := by simp [hpc, SlotPc.rank]
      rw [hslot (by omega)] at hnone
      exact isAllContributorsDataCollected_ne_none hi.voted hx (by omega) (by omega) hnone
    · rw [hslot (by rw [hpc]; decide)] at hnone
      exact isAnyNodeContributing_ne_none (hflags (by rw [hpc]; decide) (by rw [hpc]; decide)) hnone
    · rw [hslot (by rw [hpc]; decide), mergeContributors_eq _
        (hl.markedValidator_eq hx (by rw [hpc]; rfl)) (D.cString x hx)
        (hflags (by rw [hpc]; decide) (by rw [hpc]; decide))] at hnone
      cases hnone
  | noBlock =>
    obtain ⟨hpc, hnone⟩ := h
    obtain ⟨b, hb⟩ := he.getByIndex_eq hx hpc
    rw [hb] at hnone
    cases hnone
  | lockOwned =>
    obtain ⟨⟨w, hpc⟩, howned⟩ := h
    have hmay := hl.owned howned
    rw [hpc] at hmay
    cases w <;> first | exact ⟨rfl, hpc, howned⟩ | cases hmay
  | noValidator =>
    exfalso
    rcases h with ⟨hpc, hnone⟩ | ⟨hpc, hnone⟩
    · obtain ⟨v, -, hv, -⟩ := hl.nominate hx hpc
      rw [hslot (by rw [hpc]; decide), markValidator, hv] at hnone
      cases hnone
    · obtain ⟨m, hm, hmarks⟩ := hl.marked (by rw [hpc]; rfl)
      rw [hslot (by rw [hpc]; decide), markedValidator_eq ((hl.mem_keys m).2 hm) (by simp [hmarks])
        fun a _ ha => by simpa [hmarks] using ha] at hnone
      cases hnone
  | noChannel =>
    obtain ⟨hpc, hnone⟩ := h
    obtain ⟨hmem, hself⟩ := hl.validator (by rw [hpc]; decide)
    rw [hl.role false (by rw [hpc]; rfl)] at hself
    exact absurd ((D.mem_remotes x hx _).2 ⟨hmem, by simpa using hself⟩) hnone
  | redisError =>
    exfalso
    rcases h with ⟨hpc, hnone⟩ | ⟨hpc, hnone⟩
    · obtain ⟨b, hb⟩ := he.getByIndex_eq hx hpc
      rw [hb] at hnone
      cases hnone
    · rw [he.update_eq hpc] at hnone
      cases hnone
  | badArchive => exact h.elim

/-- A failure of the slot thread. -/
theorem failure_slotMove (hi : Sound D s) (hx : x ∈ D.addresses)
    (hnone : (s.node x).failure = none) {f : Failure}
    (h : (slotMove (D.env x) (s.node x)).1.failure = some f) :
    (slotMove (D.env x) (s.node x)).1.Fails f := by
  rcases slotMove_failure (D.env x) (s.node x) with hsame | ⟨f', hf', hfails⟩
  · simp [hsame, hnone] at h
  · obtain ⟨rfl, hpc, howned⟩ := hi.lockOwned_of_failsWith hx hfails
    obtain rfl : f = .lockOwned := by
      rw [hf'] at h
      exact (Option.some.inj h).symm
    refine .inl ⟨rfl, ?_⟩
    simp [slotMove, hpc, waitMove, howned, Node.fail]

/-- A failure of the consensus thread. -/
theorem failure_exec (hi : Sound D s) (hx : x ∈ D.addresses) (hnone : (s.node x).failure = none)
    {op : HandlerOp} {rest : List HandlerOp} (htodo : (s.node x).todo = op :: rest) {f : Failure}
    (h : (op.exec { s.node x with todo := rest }).failure = some f) :
    (op.exec { s.node x with todo := rest }).Fails f := by
  have hrank := (op.exec_pc { s.node x with todo := rest }).rank_eq
  have hslot := ((hi.voted.inspected.ledger.base.known x hx).sender (by simp [htodo])).1
  have he := hi.equipped x hx
  rcases op.exec_failure { s.node x with todo := rest } with hsame | ⟨hf, hderefs, hnull⟩ |
    ⟨hf, rfl, hbad⟩
  · rw [hsame] at h
    exact absurd (hnone.symm.trans h) (by simp)
  · rw [hf] at h
    refine .inr ⟨?_, .inl (Option.some.inj h).symm⟩
    rw [hrank]
    by_contra hle
    rcases he.condition (Nat.lt_succ_iff.1 (not_le.1 hle)) with
      ⟨p, hp, -⟩ | ⟨-, -, hinit⟩
    · exact hnull p (by simpa [hslot] using hp)
    · rcases hinit with hinit | ⟨rest', hinit⟩
      · simp [htodo] at hinit
      · rw [htodo] at hinit
        obtain ⟨rfl, -⟩ := List.cons.inj hinit
        cases hderefs
  · rw [hf] at h
    refine .inr ⟨?_, .inr (Option.some.inj h).symm⟩
    rw [hrank]
    by_contra hle
    refine isAllContributorsDataCollected_ne_none hi.voted hx
      (he.uploading (by simp [htodo])) (Nat.lt_succ_iff.1 (not_le.1 hle)) ?_
    simpa [hslot] using hbad

theorem equipped_step (hi : Sound D s) (hx : x ∈ D.addresses) (h : Sys.step D s act = some s') :
    Equipped D x (s'.node x) := by
  have hb := hi.voted.inspected.ledger.base
  have he := hi.equipped x hx
  have hstep := hb.nodeStep h x
  generalize s'.node x = n' at hstep ⊢
  cases hstep with
  | other => exact he
  | slot => exact he.slotMove hx
  | wake _ hpc => exact he.wake hpc
  | handle _ htodo => exact he.handle (hb.known x hx) htodo
  | @receive y m rest todo _ _ hchannel hscript =>
    have hsent : m ∈ (s.channel y x).sent := by simp [Channel.sent, hchannel]
    have hm := hb.mail y x m hsent
    refine he.receive hscript ?_
    rcases hi.voted.sender_rank hsent with hop | ⟨hop, h13⟩ | h18
    · exact .inl hop
    · have := hi.voted.inspected.sent y hm.source (by omega) x hx
      exact .inr (.inr ⟨by simp [hop], by omega⟩)
    · have := hi.voted.sent y hm.source (by omega) x hx
      exact .inr (.inl (by omega))

theorem failure_step (hi : Sound D s) (hx : x ∈ D.addresses) (h : Sys.step D s act = some s')
    {f : Failure} (hf : (s'.node x).failure = some f) : (s'.node x).Fails f := by
  have hstep := hi.voted.inspected.ledger.base.nodeStep h x
  generalize s'.node x = n' at hstep hf ⊢
  cases hstep with
  | other => exact hi.failure x hx f hf
  | slot hnone => exact hi.failure_slotMove hx hnone hf
  | wake hnone => simp [hnone] at hf
  | handle hnone htodo => exact hi.failure_exec hx hnone htodo hf
  | receive hnone => simp [hnone] at hf

theorem step (hi : Sound D s) (h : Sys.step D s act = some s') : Sound D s' where
  voted := hi.voted.step h
  equipped _ hx := hi.equipped_step hx h
  failure _ hx _ hf := hi.failure_step hx h hf

theorem start (D : Deployment) : Sound D D.start :=
  ⟨.start D, fun _ hx => .start hx, by simp [Deployment.start]⟩

end Sound

theorem sound_of_reaches {D : Deployment} {s : Sys} {ok : Sys → Action → Prop}
    (h : Reaches (Sys.step D) ok D.start s) : Sound D s :=
  h.invariant (.start D) fun _ _ _ hi _ hs => hi.step hs

end BlockchainMessaging
