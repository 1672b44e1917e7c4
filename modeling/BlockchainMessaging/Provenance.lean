import BlockchainMessaging.Chain
import BlockchainMessaging.Service

/-!
# Where messages come from

A block is taken apart and put together on its way: the validator appends the data of others to its
own and sorts it, blocks are serialized and sent, and stored under the addresses of their senders.
Whatever the threads do, in whichever order, and whether or not an election has gone wrong, no
message comes up that was not in a block that some run has popped, and none there that no client has
pushed.

## Main definitions

* `Block.Consists` — all messages of a block have a property.
* `Process.Consists`, `ClusterState.Consists` — so it is for all blocks that are stored, in hand or
  on their way.
* `Cluster.nothing_invented` — what is on a chain or in the queue of a client was pushed.
-/

namespace BlockchainMessaging

open ConsensusStorage

/-- All messages of the block have the property `P`. -/
def Block.Consists (P : Message → Prop) (b : Block) : Prop := ∀ m ∈ b.data, P m

variable {P : Message → Prop}

theorem Block.consists_default : Block.Consists P {} := fun _ hm => absurd hm List.not_mem_nil

/-! ## One run -/

namespace ConsensusStorage

variable {st st' : ConsensusStorage} {s : ℕ}

/-- What the loop of `mergeContributors` collects is in the table. -/
theorem mem_contributedData {v : String} {as : List String} {data : List Message}
    (h : st.contributedData v s as = some data) {m : Message} (hm : m ∈ data) :
    ∃ a, m ∈ (st.context a s).block.data := by
  induction as generalizing data with
  | nil =>
    cases h
    cases hm
  | cons a as ih =>
    simp only [contributedData] at h
    split at h
    · exact ih h hm
    · simp only [Option.bind_eq_bind, Option.bind_eq_some_iff, Option.pure_def,
        Option.some.injEq] at h
      obtain ⟨flag, -, rest, hrest, rfl⟩ := h
      rcases List.mem_append.1 hm with hm | hm
      · split at hm
        · exact ⟨a, hm⟩
        · cases hm
      · exact ih hrest hm

/-- **The merge** makes a block of what is in the table. -/
theorem consists_mergeContributors {order : TimestampSort} {b : Block}
    (htable : ∀ a s, ((st.context a s).block).Consists P)
    (h : st.mergeContributors order s = some (b, st')) : b.Consists P := by
  simp only [mergeContributors, Option.bind_eq_bind, Option.bind_eq_some_iff, Option.pure_def,
    Option.some.injEq, Prod.mk.injEq] at h
  obtain ⟨v, -, data, hdata, rfl, -⟩ := h
  intro m hm
  rcases List.mem_append.1 ((order.perm _).mem_iff.1 hm) with hm | hm
  · rw [context_access, context_accessAll] at hm
    exact htable _ _ m hm
  · obtain ⟨a, ha⟩ := mem_contributedData hdata hm
    rw [context_access, context_accessAll] at ha
    exact htable a s m ha

end ConsensusStorage

/-- All blocks of a node have messages with the property `P` only, and so have those that were
written to its chain since it was `chain₀`. -/
structure Node.Consists (P : Message → Prop) (A : BlockArchive) (chain₀ : List String) (n : Node) :
    Prop where
  table : ∀ a s, ((n.storage.context a s).block).Consists P
  block : n.context.block.Consists P
  broadcastBlock : n.context.broadcastBlock.Consists P
  chain : ∀ text ∈ n.chain, text ∈ chain₀ ∨ ∃ b : Block, b.Consists P ∧ A.serialize b = text

namespace Node.Consists

variable {E : SlotEnv} {n : Node} {A : BlockArchive} {chain₀ : List String}

/-- The table after a call. -/
theorem table_slotMove (h : n.Consists P A chain₀) (a : String) (s : ℕ) :
    (((slotMove E n).1.storage.context a s).block).Consists P := by
  by_cases hpc : n.pc ∈ [SlotPc.saveBlock, .relayBlock, .collectMerge, .completeClear]
  · have hown : ∀ c : ConsensusContext, c.block.Consists P →
        ((if a = E.self then { c with block := n.context.block } else c).block).Consists P := by
      intro c hc
      split
      · exact h.block
      · exact hc
    rw [slotMove_table]
    split
    · simp only [List.mem_cons, List.not_mem_nil, or_false] at hpc
      rcases hpc with hpc | hpc | hpc | hpc <;> simp only [slotEffect, hpc]
      · exact hown _ (h.table a s)
      · exact hown _ (h.table a s)
      · cases hmerge : n.storage.mergeContributors E.order n.context.header.slot with
        | none => exact h.table a s
        | some r =>
          simp only
          split
          · exact consists_mergeContributors h.table hmerge
          · exact h.table a s
      · exact Block.consists_default
    · exact h.table a s
  · rw [slotMove_block E hpc]
    exact h.table a s

/-- The blocks in the slot context after a call. -/
theorem context_slotMove (h : n.Consists P A chain₀) (hpending : E.pendingBlock.Consists P) :
    (slotMove E n).1.context.block.Consists P ∧
      (slotMove E n).1.context.broadcastBlock.Consists P := by
  rw [slotMove_context]
  constructor
  · by_cases hadd : n.pc = .saveAdd
    · simpa only [slotContext, hadd] using hpending
    by_cases hupdate : n.pc = .completeUpdate
    · simp only [slotContext, hupdate]
      split
      · exact h.block
      · exact h.block
    rw [slotContext_block E hadd hupdate]
    exact h.block
  · by_cases hmerge : n.pc = .collectMerge
    · simp only [slotContext, hmerge]
      split
      · next r hr => exact consists_mergeContributors h.table hr
      · exact h.broadcastBlock
    by_cases hawait : n.pc = .awaitBlock
    · simp only [slotContext, hawait]
      exact h.table _ _
    rw [slotContext_broadcastBlock E hmerge hawait]
    exact h.broadcastBlock

/-- The chain after a call. -/
theorem chain_slotMove (h : n.Consists P E.archive chain₀) (hpending : E.pendingBlock.Consists P) :
    ∀ text ∈ (slotMove E n).1.chain,
      text ∈ chain₀ ∨ ∃ b : Block, b.Consists P ∧ E.archive.serialize b = text := by
  intro text htext
  cases hcall : n.pc.chainCall with
  | none =>
    rw [(slotMove_chain_of_none E n hcall).1] at htext
    exact h.chain text htext
  | some call =>
    have hmove := slotMove_chain E n true hcall
    cases call with
    | add =>
      simp only [chainMove] at hmove
      rw [hmove.1, RedisDB.add_fst] at htext
      rcases List.mem_append.1 htext with htext | htext
      · exact h.chain text htext
      · exact .inr ⟨_, hpending, (List.mem_singleton.1 htext).symm⟩
    | getByIndex =>
      simp only [chainMove] at hmove
      rcases hget : RedisDB.getByIndex E.archive n.context.blockIndex n.chain with _ | _ | b <;>
        simp only [hget] at hmove
      · rw [hmove] at htext
        exact h.chain text htext
      · rw [hmove] at htext
        exact h.chain text htext
      · rw [hmove.1] at htext
        exact h.chain text htext
    | remove =>
      simp only [chainMove] at hmove
      rw [hmove.1] at htext
      exact h.chain text (List.mem_of_mem_erase htext)
    | update =>
      simp only [chainMove] at hmove
      cases hupdate : RedisDB.update E.archive n.context.broadcastBlock n.context.blockIndex
          n.chain with
      | none =>
        simp only [hupdate] at hmove
        rw [hmove] at htext
        exact h.chain text htext
      | some chain =>
        simp only [hupdate] at hmove
        rw [hmove.1] at htext
        simp only [RedisDB.update, RedisList.lset] at hupdate
        split at hupdate
        · cases hupdate
          rcases List.mem_or_eq_of_mem_set htext with htext | rfl
          · exact h.chain text htext
          · exact .inr ⟨_, h.broadcastBlock, rfl⟩
        · cases hupdate
    | done =>
      have hnot : ∀ pc : SlotPc, pc.chainCall ≠ some .done := by decide +kernel
      exact absurd hcall (hnot n.pc)

/-- **A call** makes no messages. -/
theorem slotMove (h : n.Consists P E.archive chain₀) (hpending : E.pendingBlock.Consists P) :
    (BlockchainMessaging.slotMove E n).1.Consists P E.archive chain₀ where
  table := h.table_slotMove
  block := (h.context_slotMove hpending).1
  broadcastBlock := (h.context_slotMove hpending).2
  chain := h.chain_slotMove hpending

/-- The blocks in the messages that a call sends. -/
theorem sends (h : n.Consists P A chain₀) {target : String} {m : ConsensusMessage} {b : Block}
    (hm : (target, m) ∈ slotSends E n) (hb : m.body = .block b) : b.Consists P := by
  simp only [slotSends] at hm
  split at hm
  · obtain ⟨_, -, heq⟩ := List.mem_map.1 hm
    cases heq
    cases hb
  · obtain ⟨_, -, heq⟩ := List.mem_map.1 hm
    cases heq
    cases hb
  · split at hm
    · cases List.mem_singleton.1 hm
      cases hb
      exact h.block
    · cases hm
  · split at hm
    · obtain ⟨_, -, heq⟩ := List.mem_map.1 hm
      cases heq
      cases hb
      exact h.broadcastBlock
    · cases hm
  · cases hm

end Node.Consists

/-! ## One process -/

/-- The same for all runs of a process, and for what its consensus thread has in hand. -/
structure Process.Consists (P : Message → Prop) (A : BlockArchive) (chain₀ : List String)
    (p : Process ℕ) : Prop where
  run : ∀ s, (p.view (p.run s)).Consists P A chain₀
  todo : ∀ b, .addBlock b ∈ p.todo → b.Consists P

namespace Process.Consists

variable {E : ℕ → SlotEnv} {p p' : Process ℕ} {A : BlockArchive} {chain₀ : List String}

theorem slot (h : p.Consists P A chain₀) {s : ℕ} (hA : (E s).archive = A)
    (hpending : (E s).pendingBlock.Consists P) (hstep : p.step E (.slot s) = some p') :
    p'.Consists P A chain₀ := by
  subst hA
  obtain ⟨-, -, n, hn, rfl⟩ := Process.step_slot_eq_some hstep
  have hmove := (h.run s).slotMove hpending
  rw [← hn] at hmove
  refine ⟨fun r => ?_, h.todo⟩
  by_cases hr : r = s
  · subst hr
    exact ⟨hmove.table, by simpa [view] using hmove.block,
      by simpa [view] using hmove.broadcastBlock, hmove.chain⟩
  · exact ⟨hmove.table, by simpa [view, hr] using (h.run r).block,
      by simpa [view, hr] using (h.run r).broadcastBlock, hmove.chain⟩

theorem wake (h : p.Consists P A chain₀) {s : ℕ} (hstep : p.step E (.wake s) = some p') :
    p'.Consists P A chain₀ := by
  obtain ⟨w, -, rfl⟩ := Process.step_wake_eq_some hstep
  refine ⟨fun r => ?_, h.todo⟩
  by_cases hr : r = s
  · subst hr
    exact ⟨(h.run r).table, by simpa [view] using (h.run r).block,
      by simpa [view] using (h.run r).broadcastBlock, (h.run r).chain⟩
  · exact ⟨(h.run r).table, by simpa [view, hr] using (h.run r).block,
      by simpa [view, hr] using (h.run r).broadcastBlock, (h.run r).chain⟩

theorem handle (h : p.Consists P A chain₀) (hstep : p.step E .handle = some p') :
    p'.Consists P A chain₀ := by
  obtain ⟨-, op, rest, n, htodo, rfl, rfl⟩ := Process.step_handle_eq_some hstep
  have htable (a : String) (s : ℕ) :
      (((op.exec { p.consensus with todo := rest }).storage.context a s).block).Consists P := by
    have hold := (h.run 0).table a s
    rw [HandlerOp.exec_table]
    split
    · cases op with
      | addBlock b => exact h.todo b (by simp [htodo])
      | _ => exact hold
    · exact hold
  have hchain : (op.exec { p.consensus with todo := rest }).chain = p.chain := by
    obtain ⟨st, pc, todo, failure, heq, -, -⟩ := op.exec_frame { p.consensus with todo := rest }
    rw [heq]
    rfl
  refine ⟨fun r => ⟨htable, ?_, ?_, (h.run r).chain⟩, fun b hb => h.todo b ?_⟩
  · simpa [view] using (h.run r).block
  · simpa [view] using (h.run r).broadcastBlock
  · have hmem : .addBlock b ∈ (op.exec { p.consensus with todo := rest }).todo := hb
    rw [htodo]
    rcases op.exec_todo { p.consensus with todo := rest } with heq | ⟨-, heq⟩
    · rw [heq] at hmem
      exact List.mem_cons_of_mem _ hmem
    · rw [heq] at hmem
      cases hmem

theorem receive (h : p.Consists P A chain₀) {m : ConsensusMessage}
    (hm : ∀ b, m.body = .block b → b.Consists P) (hstep : p.step E (.receive m) = some p') :
    p'.Consists P A chain₀ := by
  obtain ⟨n, hn, rfl⟩ := Option.map_eq_some_iff.1 hstep
  obtain ⟨-, htodo, hn⟩ := receiveStep_eq_some hn
  refine ⟨fun r => ⟨(h.run r).table, (h.run r).block, (h.run r).broadcastBlock, (h.run r).chain⟩,
    fun b hb => ?_⟩
  cases hscript : handlerScript m with
  | none =>
    simp only [hscript] at hn
    rw [hn] at hb
    exact h.todo b hb
  | some script =>
    simp only [hscript] at hn
    rw [hn] at hb
    refine hm b ?_
    obtain ⟨header, body⟩ := m
    cases hop : header.operation <;> cases body <;> simp [handlerScript, hop] at hscript <;>
      subst hscript <;> simp at hb
    all_goals rw [hb]

end Process.Consists

/-! ## The cluster -/

/-- What a block brings to a queue is in the block. -/
theorem Consumer.mem_queues_publish {c : Consumer} {block : Block} {channel : String} {m : Message}
    (h : m ∈ (c.publish block).queues channel) : m ∈ c.queues channel ∨ m ∈ block.data := by
  have hfold := foldl_sendDataToClients block.data (c.clientNames.map clientChannel) c.queues
    (c.nodup.map clientChannel_injective) channel
  simp only [publish, hfold] at h
  rcases List.mem_append.1 h with h | h
  · exact .inl h
  · split at h
    · exact .inr h
    · cases h

/-- The same for all processes, for the messages between them, and for the queues of the clients. -/
structure ClusterState.Consists (P : Message → Prop) (C : Cluster) (K : ClusterState) : Prop where
  process : ∀ a ∈ C.addresses, (K.process a).Consists P C.archive (C.chain a)
  mail : ∀ a b, ∀ m ∈ (K.channel a b).inFlight, ∀ block, m.body = .block block → block.Consists P
  queue : ∀ a channel, ∀ m ∈ (K.consumer a).queues channel, P m

namespace ClusterState.Consists

variable {C : Cluster} {K K' : ClusterState} {a : String} {p : Process ℕ}

theorem setProcess (h : K.Consists P C) (hp : p.Consists P C.archive (C.chain a)) :
    (K.setProcess a p).Consists P C where
  process x hx := by
    rw [process_setProcess]
    split
    · next heq => exact heq ▸ hp
    · exact h.process x hx
  mail := h.mail
  queue := h.queue

theorem publish (h : K.Consists P C) {sends : List Send} (hsends : ∀ target m block,
      (target, m) ∈ sends → m.body = .block block → block.Consists P) :
    (K.publish a sends).Consists P C where
  process := h.process
  mail source target m hm block hblock := by
    simp only [ClusterState.publish] at hm
    split at hm
    · next hsource =>
      rcases List.mem_append.1 hm with hm | hm
      · exact h.mail a target m hm block hblock
      · obtain ⟨⟨t, _⟩, hmem, heq⟩ := List.mem_filterMap.1 hm
        split at heq
        · cases heq
          exact hsends t _ block hmem hblock
        · cases heq
    · exact h.mail source target m hm block hblock
  queue := h.queue

theorem deliver (h : K.Consists P C) {b : String} {m : ConsensusMessage}
    {rest : List ConsensusMessage} (hchannel : (K.channel b a).inFlight = m :: rest) :
    (K.deliver a b m rest).Consists P C where
  process := h.process
  mail source target m' hm' block hblock := by
    simp only [ClusterState.deliver] at hm'
    split at hm'
    · have hmem : m' ∈ (K.channel b a).inFlight := by
        rw [hchannel]
        exact List.mem_cons_of_mem m hm'
      exact h.mail b a m' hmem block hblock
    · exact h.mail source target m' hm' block hblock
  queue := h.queue

theorem record (h : K.Consists P C) {s : ℕ} {n : Node} (hn : n.context.broadcastBlock.Consists P) :
    (K.record a s n).Consists P C where
  process := by
    rw [process_record]
    exact h.process
  mail := by
    rw [channel_record]
    exact h.mail
  queue x channel m hm := by
    rw [consumer_record] at hm
    split at hm
    · by_cases hx : x = a
      · subst hx
        rw [Function.update_self] at hm
        rcases Consumer.mem_queues_publish hm with hm | hm
        · exact h.queue x channel m hm
        · exact hn m hm
      · rw [Function.update_of_ne hx] at hm
        exact h.queue x channel m hm
    · exact h.queue x channel m hm

/-- **One step** makes no messages. -/
theorem step (h : K.Consists P C) {env : String → ℕ → SlotEnv}
    (hA : ∀ a ∈ C.addresses, ∀ s, (env a s).archive = C.archive)
    (hpending : ∀ a ∈ C.addresses, ∀ s, (env a s).pendingBlock.Consists P) {act : ClusterAction}
    (hstep : K.step C.addresses env act = some K') : K'.Consists P C := by
  cases act with
  | slot a s =>
    obtain ⟨ha, p, hp, rfl⟩ := step_slot_eq_some hstep
    have hview : (K.view a s).Consists P C.archive (C.chain a) := (h.process a ha).run s
    have hprocess := (h.process a ha).slot (hA a ha s) (hpending a ha s) hp
    exact ((h.setProcess hprocess).publish fun _ _ _ => hview.sends).record hview.broadcastBlock
  | wake a s =>
    obtain ⟨ha, p, hp, rfl⟩ := step_wake_eq_some hstep
    exact h.setProcess ((h.process a ha).wake hp)
  | handle a =>
    obtain ⟨ha, p, hp, rfl⟩ := step_handle_eq_some hstep
    exact h.setProcess ((h.process a ha).handle hp)
  | receive a b =>
    obtain ⟨ha, m, rest, p, hchannel, hp, rfl⟩ := step_receive_eq_some hstep
    have hm := h.mail b a m (by simp [hchannel])
    exact (h.setProcess ((h.process a ha).receive hm hp)).deliver hchannel
  | createChannel a author =>
    obtain ⟨-, rfl⟩ := step_createChannel_eq_some hstep
    refine ⟨h.process, h.mail, fun x channel m hm => h.queue x channel m ?_⟩
    by_cases hx : x = a
    · subst hx
      simpa using hm
    · simpa [hx] using hm

theorem start (C : Cluster) : C.start.Consists P C where
  process a ha := by
    refine ⟨fun s => ⟨fun b r => ?_, Block.consists_default, Block.consists_default,
      fun text => .inl⟩, fun b hb => absurd hb List.not_mem_nil⟩
    have hcontext : ((C.start.process a).view ((C.start.process a).run s)).storage.context b r =
        .fresh ((C.storage a).stamp b r 0) := C.context_eq a ha b r
    rw [hcontext]
    exact Block.consists_default
  mail _ _ _ hm := absurd hm List.not_mem_nil
  queue _ _ _ hm := absurd hm List.not_mem_nil

end ClusterState.Consists

/-! ## With the buffers -/

theorem Block.Consists.mono {Q : Message → Prop} {b : Block} (h : b.Consists P)
    (hPQ : ∀ m, P m → Q m) : b.Consists Q := fun m hm => hPQ m (h m hm)

theorem ClusterState.Consists.mono {Q : Message → Prop} {C : Cluster} {K : ClusterState}
    (h : K.Consists P C) (hPQ : ∀ m, P m → Q m) : K.Consists Q C where
  process a ha := by
    have hp := h.process a ha
    refine ⟨fun s => ⟨fun b r => ((hp.run s).table b r).mono hPQ, (hp.run s).block.mono hPQ,
      (hp.run s).broadcastBlock.mono hPQ, fun text htext => ?_⟩,
      fun b hb => (hp.todo b hb).mono hPQ⟩
    exact ((hp.run s).chain text htext).imp_right fun ⟨b, hb, heq⟩ => ⟨b, hb.mono hPQ, heq⟩
  mail a b m hm block hblock := (h.mail a b m hm block hblock).mono hPQ
  queue a channel m hm := hPQ m (h.queue a channel m hm)

/-- A client has sent the message to one of the nodes. -/
def ServiceState.Pushed (C : Cluster) (L : ServiceState) (m : Message) : Prop :=
  ∃ a ∈ C.addresses, m ∈ (L.buffer a).pushed

/-- All messages, wherever they are, were pushed. -/
structure Sourced (C : Cluster) (L : ServiceState) : Prop where
  cluster : L.cluster.Consists (L.Pushed C) C
  taking : ∀ a s, (L.taking a s).block.Consists (L.Pushed C)
  buffer : ∀ a, (L.buffer a).Inv

namespace Sourced

variable {C : Cluster} {L L' : ServiceState} {a : String}

theorem start (C : Cluster) : Sourced C C.opening where
  cluster := .start C
  taking _ _ _ hm := absurd hm List.not_mem_nil
  buffer _ := BufferRuns.inv_start

/-- What was pushed stays so. -/
theorem pushed_setBuffer {b : BufferRuns ℕ} (hpushed : ∀ m ∈ (L.buffer a).pushed, m ∈ b.pushed)
    (m : Message) (h : L.Pushed C m) : (L.setBuffer a b).Pushed C m := by
  obtain ⟨x, hx, hm⟩ := h
  refine ⟨x, hx, ?_⟩
  by_cases hxa : x = a
  · subst hxa
    simpa [ServiceState.setBuffer] using hpushed m hm
  · simpa [ServiceState.setBuffer, hxa] using hm

/-- A call on a buffer. -/
theorem setBuffer (h : Sourced C L) {b : BufferRuns ℕ} (hinv : b.Inv)
    (hpushed : ∀ m ∈ (L.buffer a).pushed, m ∈ b.pushed) : Sourced C (L.setBuffer a b) := by
  have hmono := pushed_setBuffer (C := C) hpushed
  refine ⟨h.cluster.mono hmono, fun x s => (h.taking x s).mono hmono, fun x => ?_⟩
  by_cases hxa : x = a
  · subst hxa
    simpa [ServiceState.setBuffer] using hinv
  · simpa [ServiceState.setBuffer, hxa] using h.buffer x

/-- What a run finds in the buffer was pushed. -/
theorem take (h : Sourced C L) (ha : a ∈ C.addresses) (now : ℕ) :
    (L.take a now).block.Consists (L.Pushed C) := by
  intro m hm
  refine ⟨a, ha, (h.buffer a).pushed.mem_iff.2 ?_⟩
  cases hpop : (L.buffer a).buffer.pop.1 with
  | none =>
    simp only [Taking.block, ServiceState.take, hpop, Option.getD_none, Block.data_ofData] at hm
    cases hm
  | some block =>
    simp only [Taking.block, ServiceState.take, hpop, Option.getD_some] at hm
    have hmem : block ∈ (L.buffer a).buffer.blocks := Buffer.mem_of_pop hpop
    simp only [BufferRuns.messages, List.mem_append, List.mem_flatMap]
    exact .inl (.inr ⟨block, hmem, hm⟩)

/-- **One step** of the system. -/
theorem step (h : Sourced C L) {act : ServiceAction} (hstep : C.serve L act = some L') :
    Sourced C L' := by
  cases act with
  | push a message =>
    obtain ⟨-, b, hb, rfl⟩ := Cluster.serve_push_eq_some hstep
    have hinv := (h.buffer a).step hb
    cases hb
    exact h.setBuffer hinv fun m hm => List.mem_append_left _ hm
  | save a s now =>
    obtain ⟨b, hb, rfl⟩ := Cluster.serve_save_eq_some hstep
    have hinv := (h.buffer a).step hb
    obtain ⟨-, rfl⟩ := BufferRuns.step_save_eq_some hb
    exact h.setBuffer hinv fun _ => id
  | pop a s now =>
    obtain ⟨ha, -, b, hb, rfl⟩ := Cluster.serve_pop_eq_some hstep
    have hinv := (h.buffer a).step hb
    obtain ⟨-, rfl⟩ := BufferRuns.step_pop_eq_some hb
    have htaking (x : String) (r : ℕ) : (Function.update L.taking a
        (Function.update (L.taking a) s (L.take a now)) x r).block.Consists (L.Pushed C) := by
      by_cases hx : x = a
      · subst hx
        by_cases hr : r = s
        · simpa [hr] using h.take ha now
        · simpa [hr] using h.taking x r
      · simpa [hx] using h.taking x r
    have hset := h.setBuffer hinv fun _ => id
    exact ⟨hset.cluster, fun x r => (htaking x r).mono (pushed_setBuffer fun _ => id), hset.buffer⟩
  | move act =>
    obtain ⟨-, K, hK, rfl⟩ := Cluster.serve_move_eq_some hstep
    have hA : ∀ a ∈ C.addresses, ∀ s, (L.env C a s).archive = C.archive := C.archive_eq
    have hpending : ∀ a ∈ C.addresses, ∀ s, (L.env C a s).pendingBlock.Consists (L.Pushed C) :=
      fun a _ s => h.taking a s
    exact ⟨h.cluster.step hA hpending hK, h.taking, h.buffer⟩

end Sourced

/-- **Nothing is invented.**  In every run of the system, with or without collisions and failures:
what a client gets, and what is written to a chain, consists of messages that clients have pushed to
the nodes. -/
theorem Cluster.nothing_invented {C : Cluster} {L : ServiceState}
    (h : Reachable C.serve C.opening L) {a : String} (ha : a ∈ C.addresses) :
    (∀ channel, ∀ m ∈ (L.cluster.consumer a).queues channel, L.Pushed C m) ∧
      ∀ text ∈ (L.cluster.process a).chain, text ∈ C.chain a ∨
        ∃ block : Block, (∀ m ∈ block.data, L.Pushed C m) ∧ C.archive.serialize block = text := by
  have hs : Sourced C L := h.invariant (.start C) fun _ _ _ hi _ hstep => hi.step hstep
  exact ⟨hs.cluster.queue a, ((hs.cluster.process a ha).run 0).chain⟩

/-- A message that a client has just sent to `a` is on the chain of `a`. -/
theorem Cluster.nothing_invented_twoNodes : ∃ (L : ServiceState) (block : Block),
    (L.cluster.process "a").chain = [textArchive.serialize block] ∧ block.data.length = 1 ∧
      ∀ m ∈ block.data, L.Pushed twoNodes m := by
  obtain ⟨L, h, hL⟩ := exists_reaches twoNodes.serve (fun _ _ => True) twoNodes.opening
    ([.push "a" ⟨900, "x", "ann"⟩, .move (.slot "a" 2), .move (.slot "a" 2), .save "a" 2 1000,
      .pop "a" 2 1000, .move (.slot "a" 2)])
    (fun L => (L.cluster.process "a").chain =
      [textArchive.serialize ⟨.PENDING, 1000, 2, [⟨900, "x", "ann"⟩]⟩]) (by decide +kernel)
  simp only [decide_eq_true_eq] at h hL
  obtain ⟨-, hchain⟩ := nothing_invented h (a := "a") (by decide)
  obtain hmem | ⟨block, hpushed, heq⟩ := hchain _ (by rw [hL]; exact List.mem_singleton_self _)
  · cases hmem
  · have hblock := textArchive.serialize_injective heq
    exact ⟨L, block, by rw [hL, hblock], by rw [hblock]; rfl, hpushed⟩

end BlockchainMessaging
