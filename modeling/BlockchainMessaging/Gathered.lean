import BlockchainMessaging.Merging
import BlockchainMessaging.Settled

/-!
# The block of a slot

Without collisions all nodes nominate the same validator `v`.  Every contributor sends it one
block, so what `v` has collected before it merges is what all contributors had pending, and
the merged block is what it sends to everybody else, once.  Messages can come early, but what
a node finds in its table was sent for it; so every node ends the slot with the same block.

## Main definitions

* `Settled.outbox_eq` — everything a node has sent, in terms of `v`.
* `Deployment.Completes` — what is expected of the block of the slot.
* `Gathered`, `gathered_of_reaches` — the way of the block, from the contributors to all.
* `block_consistency` — the blocks that are saved are equal and complete.
-/

namespace BlockchainMessaging

open ConsensusStorage

/-- `v` wins the election of the first values. -/
def Deployment.Elects (D : Deployment) (v : String) : Prop :=
  Wins D.addresses (fun a => (D.env a).draw 0) v

/-- With different first values, somebody wins. -/
theorem Deployment.Distinct.exists_elects {D : Deployment} (hD : D.Distinct) {x : String}
    (hx : x ∈ D.addresses) : ∃ v, D.Elects v :=
  exists_wins (List.ne_nil_of_mem hx) hD

/-! ## What is sent, and what is left to execute -/

/-- What ends with the one `z` of a list is the list. -/
theorem eq_nil_of_append_eq {α : Type} {as bs l : List α} {z : α} (h : as ++ bs = l ++ [z])
    (hz : z ∈ as) (hl : z ∉ l) : bs = [] := by
  rcases List.eq_nil_or_concat' bs with hbs | ⟨bs', b, rfl⟩
  · exact hbs
  · rw [← List.append_assoc] at h
    obtain ⟨rfl, -⟩ := List.append_inj' h rfl
    exact absurd (List.mem_append_left _ hz) hl

namespace Settled

variable {D : Deployment} {s : Sys} {v x y : String}

/-- **Everything a node has sent**, when `v` is the validator. -/
theorem outbox_eq (hs : Settled D s) (hv : D.Elects v) (hy : y ∈ D.addresses) (x : String) :
    outbox (D.env y) (s.node y) x =
      (if 7 ≤ (s.node y).pc.rank then
        [.addContext, .setContribution (D.env y).isContributing] else []) ++
      (if 13 ≤ (s.node y).pc.rank then [.fillElectionValue ((D.env y).draw 0)] else []) ++
      (if 18 ≤ (s.node y).pc.rank ∧ (D.env y).isContributing = true ∧ y ≠ v ∧ x = v then
        [.addBlock (D.env y).pendingBlock] else []) ++
      (if 24 ≤ (s.node y).pc.rank ∧ y = v then
        [.addBlock (s.node y).context.broadcastBlock, .marAsResolved] else []) := by
  have hrole := hs.role hv hy
  have hvotes : (List.range (s.node y).votes).map
      (fun k => HandlerOp.fillElectionValue ((D.env y).draw k)) =
      if 13 ≤ (s.node y).pc.rank then [.fillElectionValue ((D.env y).draw 0)] else [] := by
    rw [hs.votes_eq hy]
    split <;> rfl
  have hrelay : (18 ≤ (s.node y).pc.rank ∧ (D.env y).isContributing = true ∧
      (s.node y).context.isValidator = false ∧ x = (s.node y).context.validator) ↔
      (18 ≤ (s.node y).pc.rank ∧ (D.env y).isContributing = true ∧ y ≠ v ∧ x = v) := by
    refine and_congr_right fun h18 => ?_
    rw [(hrole (by omega)).1, (hrole (by omega)).2, decide_eq_false_iff_not, eq_comm (a := v)]
  have hbroadcast : (24 ≤ (s.node y).pc.rank ∧ (s.node y).context.isValidator = true) ↔
      24 ≤ (s.node y).pc.rank ∧ y = v := by
    refine and_congr_right fun h24 => ?_
    rw [(hrole (by omega)).2, decide_eq_true_iff, eq_comm]
  simp only [outbox, hvotes, hrelay, hbroadcast]

/-- Who is not the validator only sends a block to it. -/
theorem outbox_peer (hs : Settled D s) (hv : D.Elects v) (hy : y ∈ D.addresses) (hyv : y ≠ v)
    (x : String) : outbox (D.env y) (s.node y) x =
      (if 7 ≤ (s.node y).pc.rank then
        [.addContext, .setContribution (D.env y).isContributing] else []) ++
      (if 13 ≤ (s.node y).pc.rank then [.fillElectionValue ((D.env y).draw 0)] else []) ++
      (if 18 ≤ (s.node y).pc.rank ∧ (D.env y).isContributing = true ∧ x = v then
        [.addBlock (D.env y).pendingBlock] else []) := by
  rw [hs.outbox_eq hv hy]
  simp [hyv]

/-- The validator sends everybody the same. -/
theorem outbox_validator (hs : Settled D s) (hv : D.Elects v) (hvmem : v ∈ D.addresses)
    (x : String) : outbox (D.env v) (s.node v) x =
      (if 7 ≤ (s.node v).pc.rank then
        [.addContext, .setContribution (D.env v).isContributing] else []) ++
      (if 13 ≤ (s.node v).pc.rank then [.fillElectionValue ((D.env v).draw 0)] else []) ++
      (if 24 ≤ (s.node v).pc.rank then [.addBlock (s.node v).context.broadcastBlock] else []) ++
      (if 24 ≤ (s.node v).pc.rank then [.marAsResolved] else []) := by
  rw [hs.outbox_eq hv hvmem]
  by_cases h24 : 24 ≤ (s.node v).pc.rank <;> simp [h24]

/-- After its vote, who is neither the validator nor uploads to `x` sends nothing to `x`. -/
theorem pending_of_heard (hs : Settled D s) (hv : D.Elects v) (hy : y ∈ D.addresses)
    (hx : x ∈ D.addresses) (hne : x ≠ y) (hyv : y ≠ v)
    (hrelay : x = v → (D.env y).isContributing = false) (hheard : 0 < s.heard y x) :
    s.pending y x = [] := by
  have hex := hs.ledger.exchange y hy x hx hne
  have h13 := (hs.ledger.base.known y hy).rank_of_votes (hheard.trans_le hex.heard_le)
  have hsent := hex.sent
  have hnone : ¬ (18 ≤ (s.node y).pc.rank ∧ (D.env y).isContributing = true ∧ x = v) := by
    rintro ⟨-, hflag, hxv⟩
    rw [hrelay hxv] at hflag
    cases hflag
  rw [hs.outbox_peer hv hy hyv, if_pos (by omega), if_pos h13, if_neg hnone,
    List.append_nil] at hsent
  -- The vote is the last thing that was sent, and it was executed.
  have hvote : .fillElectionValue ((D.env y).draw 0) ∈ s.executed y x := by
    have hfirst : (D.env y).draw 0 ∈ ballots (s.executed y x) := by
      rw [hex.ballots_executed.1]
      exact List.mem_map_of_mem (List.mem_range.2 hheard)
    obtain ⟨op, hop, hopv⟩ := List.mem_filterMap.1 hfirst
    cases op <;> simp [HandlerOp.vote] at hopv
    rwa [hopv] at hop
  exact eq_nil_of_append_eq hsent.symm hvote (by simp)

/-- An upload is the last thing that is sent to the validator. -/
theorem uploaded (hs : Settled D s) (hv : D.Elects v) (hvmem : v ∈ D.addresses)
    (hy : y ∈ D.addresses) (hyv : y ≠ v) {b : Block} (hb : .addBlock b ∈ s.executed y v) :
    (D.env y).isContributing = true ∧ b = (D.env y).pendingBlock ∧ s.pending y v = [] ∧
      ∀ now, (replay now (s.executed y v)).block = (D.env y).pendingBlock := by
  have hex := hs.ledger.exchange y hy v hvmem (Ne.symm hyv)
  have hmem := hex.mem_outbox hb
  have h18 := rank_of_mem_outbox hmem
  have hsent := hex.sent
  rw [hs.outbox_peer hv hy hyv, if_pos (by omega), if_pos (by omega)] at hmem hsent
  have hflag : (D.env y).isContributing = true := by
    by_contra hflag
    simp [hflag] at hmem
  rw [if_pos ⟨h18, hflag, rfl⟩] at hmem hsent
  have hblock : b = (D.env y).pendingBlock := by simpa using hmem
  subst hblock
  have hpending := eq_nil_of_append_eq hsent.symm hb (by simp)
  rw [hpending, List.append_nil] at hsent
  refine ⟨hflag, rfl, hpending, fun now => ?_⟩
  rw [← hsent, replay_append_singleton]
  rfl

/-- The broadcast is the last thing that is sent to the others. -/
theorem broadcasted (hs : Settled D s) (hv : D.Elects v) (hvmem : v ∈ D.addresses)
    (hx : x ∈ D.addresses) (hxv : x ≠ v) (hm : .marAsResolved ∈ s.executed v x) :
    24 ≤ (s.node v).pc.rank ∧ s.pending v x = [] ∧
      ∀ now, (replay now (s.executed v x)).block = (s.node v).context.broadcastBlock := by
  have hex := hs.ledger.exchange v hvmem x hx hxv
  have hmem := hex.mem_outbox hm
  have hsent := hex.sent
  rw [hs.outbox_validator hv hvmem] at hmem hsent
  have h24 : 24 ≤ (s.node v).pc.rank := by
    by_contra h24
    simp only [h24, if_false, List.append_nil, List.mem_append] at hmem
    rcases hmem with hmem | hmem
    all_goals split at hmem <;> simp at hmem
  rw [if_pos (by omega), if_pos (by omega), if_pos h24, if_pos h24] at hsent
  have hpending := eq_nil_of_append_eq hsent.symm hm (by simp)
  rw [hpending, List.append_nil] at hsent
  refine ⟨h24, hpending, fun now => ?_⟩
  rw [← hsent, replay_append_singleton, HandlerOp.effect, replay_append_singleton]
  rfl

end Settled

/-! ## The merged block -/

/-- Nothing is pending where nothing was popped. -/
theorem SlotEnv.data_pendingBlock {E : SlotEnv} (h : E.isContributing = false) :
    E.pendingBlock.data = [] := by
  rw [isContributing, Option.isSome_eq_false_iff, Option.isNone_iff_eq_none] at h
  simp [pendingBlock, h]

/-- What is contributed is not empty. -/
theorem SlotEnv.data_pendingBlock_ne_nil {E : SlotEnv} (h : E.isContributing = true) :
    E.pendingBlock.data ≠ [] := by
  obtain ⟨b, hb⟩ := Option.isSome_iff_exists.1 h
  simpa [pendingBlock, hb] using (E.popped_queued b hb).1

/-- What all contributors have pending. -/
def Deployment.pendingData (D : Deployment) : List Message :=
  (D.addresses.filter fun a => (D.env a).isContributing).flatMap fun a =>
    (D.env a).pendingBlock.data

/-- The block is the complete one of the slot: it has the data of all contributors, sorted. -/
structure Deployment.Completes (D : Deployment) (b : Block) : Prop where
  state : b.state = .COMPLETED
  sorted : b.data.Pairwise fun message₁ message₂ => message₁.timestamp ≤ message₂.timestamp
  perm : b.data.Perm D.pendingData

section Merged

variable {D : Deployment} {st : ConsensusStorage} {v : String}

/-- Who does not contribute adds nothing. -/
theorem Deployment.pendingData_eq (D : Deployment) :
    D.pendingData = D.addresses.flatMap fun a => (D.env a).pendingBlock.data := by
  rw [pendingData]
  induction D.addresses with
  | nil => rfl
  | cons a as ih =>
    rw [List.filter_cons, List.flatMap_cons, ← ih]
    split
    · rfl
    · next hflag =>
      rw [SlotEnv.data_pendingBlock (Bool.not_eq_true _ ▸ hflag), List.nil_append]

/-- **A merge of everybody's pending block completes the slot.** -/
theorem completes_mergedBlock (order : TimestampSort)
    (hkeys : st.contexts.keys.Perm D.addresses) (hv : v ∈ D.addresses)
    (hflags : ∀ a ∈ D.addresses,
      (st.context a D.slot).isContributing = some (D.env a).isContributing)
    (hblocks : ∀ a ∈ D.addresses, a = v ∨ (D.env a).isContributing = true →
      (st.context a D.slot).block = (D.env a).pendingBlock) :
    D.Completes (mergedBlock order st v D.slot) := by
  have hcontribution : ∀ a ∈ D.addresses, a ≠ v →
      st.contribution v D.slot a = (D.env a).pendingBlock.data := by
    intro a ha hne
    rw [contribution, hflags a ha]
    by_cases hflag : (D.env a).isContributing = true
    · rw [if_pos ⟨hne, by rw [hflag]⟩, hblocks a ha (.inr hflag)]
    · rw [if_neg (by simp [hflag]), SlotEnv.data_pendingBlock (by simpa using hflag)]
  refine ⟨rfl, order.sorted _, (order.perm _).trans ?_⟩
  have hcons := List.perm_cons_erase hv
  have hothers : (D.addresses.erase v).flatMap (st.contribution v D.slot) =
      (D.addresses.erase v).flatMap fun a => (D.env a).pendingBlock.data := by
    refine List.flatMap_congr fun a ha => ?_
    have ha := (D.nodup.mem_erase_iff).1 ha
    exact hcontribution a ha.2 ha.1
  calc (st.context v D.slot).block.data ++ st.contexts.keys.flatMap (st.contribution v D.slot)
    _ = (D.env v).pendingBlock.data ++ st.contexts.keys.flatMap (st.contribution v D.slot) := by
      rw [hblocks v hv (.inl rfl)]
    List.Perm _ ((D.env v).pendingBlock.data ++
        (v :: D.addresses.erase v).flatMap (st.contribution v D.slot)) :=
      ((hkeys.trans hcons).flatMap_right _).append_left _
    _ = (v :: D.addresses.erase v).flatMap fun a => (D.env a).pendingBlock.data := by
      rw [List.flatMap_cons, List.flatMap_cons, hothers]
      simp [contribution]
    List.Perm _ (D.addresses.flatMap fun a => (D.env a).pendingBlock.data) :=
      hcons.symm.flatMap_right _
    _ = D.pendingData := D.pendingData_eq.symm

end Merged

/-! ## The way of the block -/

/-- The blocks of the contributors go to the validator `v`, and the merged block to all. -/
structure Gathered (D : Deployment) (v : String) (s : Sys) : Prop where
  settled : Settled D s
  /-- Who merges has executed all uploads. -/
  collected : 20 ≤ (s.node v).pc.rank → ∀ y ∈ D.addresses, y ≠ v →
    (D.env y).isContributing = true → .addBlock (D.env y).pendingBlock ∈ s.executed y v
  merged : 21 ≤ (s.node v).pc.rank → D.Completes (s.node v).context.broadcastBlock
  /-- Who has the block has executed the broadcast. -/
  resolved : ∀ x ∈ D.addresses, x ≠ v → 25 ≤ (s.node x).pc.rank →
    .marAsResolved ∈ s.executed v x
  received : ∀ x ∈ D.addresses, x ≠ v → 26 ≤ (s.node x).pc.rank →
    (s.node x).context.broadcastBlock = (s.node v).context.broadcastBlock

namespace Gathered

variable {D : Deployment} {s s' : Sys} {act : Action} {v x y : String}

/-- What was executed stays executed. -/
theorem mem_executed (hl : Ledger D s) (hy : y ∈ D.addresses) (hx : x ∈ D.addresses)
    (hne : x ≠ y) (h : Sys.step D s act = some s') {op : HandlerOp}
    (hop : op ∈ s.executed y x) : op ∈ s'.executed y x := by
  rw [(Sys.queueStep hl.base hy hx hne (hl.exchange y hy x hx hne).received h).executed]
  exact List.mem_append_left _ hop

/-- The block to be broadcast is only replaced by a merge or by a broadcast. -/
theorem broadcastBlock_eq (h : Sys.step D s act = some s') (hmerge : (s.node x).pc ≠ .collectMerge)
    (hawait : (s.node x).pc ≠ .awaitBlock) :
    (s'.node x).context.broadcastBlock = (s.node x).context.broadcastBlock := by
  by_cases hslot : act = .slot x
  · subst hslot
    rw [(Sys.node_slot h).2.2, slotMove_context, slotContext_broadcastBlock _ hmerge hawait]
  · rw [(Sys.node_passive h hslot).1]

/-- Whether a node is the validator, where only the validator comes, or only the others. -/
theorem eq_of_role (hg : Gathered D v s) (hv : D.Elects v) (hx : x ∈ D.addresses)
    (h16 : 16 ≤ (s.node x).pc.rank) {b : Bool} (hrole : (s.node x).pc.role = some b) :
    decide (v = x) = b := by
  rw [← (hg.settled.role hv hx h16).2]
  exact (hg.settled.ledger.base.known x hx).role b hrole

/-- The validator merges when all have uploaded. -/
theorem collected_step (hg : Gathered D v s) (hv : D.Elects v) (hvmem : v ∈ D.addresses)
    (h : Sys.step D s act = some s') (h20 : 20 ≤ (s'.node v).pc.rank) (hy : y ∈ D.addresses)
    (hyv : y ≠ v) (hflag : (D.env y).isContributing = true) :
    .addBlock (D.env y).pendingBlock ∈ s'.executed y v := by
  have hs := hg.settled
  refine mem_executed hs.ledger hy hvmem (Ne.symm hyv) h ?_
  by_cases h20' : 20 ≤ (s.node v).pc.rank
  · exact hg.collected h20' y hy hyv hflag
  · obtain rfl := Sys.eq_slot_of_rank_lt h ((not_le.1 h20').trans_le h20)
    have hback := slotMove_pc (R := fun pc pc' => 20 ≤ pc'.rank → 20 ≤ pc.rank ∨
      pc = .wait .contributorsData .enter ∧ pc' = .broadcast ∨
      pc ∈ [.wait .contributorsData .early, .wait .contributorsData .eval] ∧
        pc' = .collectMerge) (by decide +kernel) (D.env v) (s.node v)
    rw [(Sys.node_slot h).2.2] at h20
    rcases (hback h20).resolve_left h20' with ⟨hpc, hpc'⟩ | ⟨hpc, hpc'⟩
    · have hrole := (hs.role hv hvmem (by rw [hpc]; decide)).2
      exact absurd hpc' ((slotMove_enter_ne _).1 hpc (by simpa using hrole))
    · have hphase : ∃ phase, (s.node v).pc = .wait .contributorsData phase := by
        simp only [List.mem_cons, List.not_mem_nil, or_false] at hpc
        rcases hpc with hpc | hpc <;> exact ⟨_, hpc⟩
      obtain ⟨phase, hpc⟩ := hphase
      have hl := hs.ledger.base.known v hvmem
      have hready := slotMove_done (D.env v) hpc hpc'
      have hrank : (s.node v).pc.rank = 19 := by simp [hpc, SlotPc.rank]
      simp only [Waiter.predicate, isAllContributorsDataCollected_eq_true,
        hl.slot_eq hvmem (by omega)] at hready
      have hcontributes := hs.agreed.voted.inspected.flags v hvmem (by omega) (by omega) y hy
      rw [hflag] at hcontributes
      have hdata := (hready y ((hl.mem_keys y).2 hy)).resolve_left (by simp [hcontributes])
      -- A block with data in the table of `v` was uploaded.
      have hex := hs.ledger.exchange y hy v hvmem (Ne.symm hyv)
      have hblock := (hex.replayed (by omega)).block
      have hmem := @mem_of_replay_block _ (s.executed y v) fun hempty => by
        rw [← hblock] at hempty
        exact hdata.2 (by rw [hempty]; rfl)
      rwa [(hs.uploaded hv hvmem hy hyv hmem).2.1] at hmem

/-- What is merged is complete. -/
theorem completes (hg : Gathered D v s) (hv : D.Elects v) (hvmem : v ∈ D.addresses)
    (hpc : (s.node v).pc = .collectMerge) :
    D.Completes (mergedBlock (D.env v).order (s.node v).storage v D.slot) := by
  have hs := hg.settled
  have hl := hs.ledger.base.known v hvmem
  refine completes_mergedBlock _ hl.keys_perm hvmem
    (hs.agreed.voted.inspected.flags v hvmem (by rw [hpc]; decide) (by rw [hpc]; decide)) ?_
  intro y hy hcontributes
  by_cases hyv : y = v
  · subst hyv
    exact (hs.ledger.base.own y hvmem).block (by rw [hpc]; decide) (by rw [hpc]; decide)
  · have hmem := hg.collected (by rw [hpc]; decide) y hy hyv (hcontributes.resolve_left hyv)
    have hex := hs.ledger.exchange y hy v hvmem (Ne.symm hyv)
    rw [(hex.replayed (by rw [hpc]; decide)).block]
    exact (hs.uploaded hv hvmem hy hyv hmem).2.2.2 _

theorem merged_step (hg : Gathered D v s) (hv : D.Elects v) (hvmem : v ∈ D.addresses)
    (h : Sys.step D s act = some s') (h21 : 21 ≤ (s'.node v).pc.rank) :
    D.Completes (s'.node v).context.broadcastBlock := by
  have hs := hg.settled
  by_cases h21' : 21 ≤ (s.node v).pc.rank
  · rw [broadcastBlock_eq h]
    · exact hg.merged h21'
    · intro hpc
      simp [hpc, SlotPc.rank] at h21'
    · intro hpc
      have := hg.eq_of_role hv hvmem (by omega) (b := false) (by rw [hpc]; rfl)
      simp at this
  · obtain rfl := Sys.eq_slot_of_rank_lt h ((not_le.1 h21').trans_le h21)
    have hback := slotMove_pc (R := fun pc pc' => 21 ≤ pc'.rank → 21 ≤ pc.rank ∨
      pc = .wait .contributorsData .enter ∧ pc' = .broadcast ∨ pc = .collectMerge)
      (by decide +kernel) (D.env v) (s.node v)
    have hnode := (Sys.node_slot h).2.2
    rw [hnode] at h21 ⊢
    rcases (hback h21).resolve_left h21' with ⟨hpc, hpc'⟩ | hpc
    · have hrole := (hs.role hv hvmem (by rw [hpc]; decide)).2
      exact absurd hpc' ((slotMove_enter_ne _).1 hpc (by simpa using hrole))
    · have hl := hs.ledger.base.known v hvmem
      have hflags : ∀ a ∈ (s.node v).storage.contexts.keys,
          ((s.node v).storage.context a D.slot).isContributing.isSome := by
        intro a ha
        rw [hs.agreed.voted.inspected.flags v hvmem (by rw [hpc]; decide) (by rw [hpc]; decide)
          a ((hl.mem_keys a).1 ha)]
        rfl
      have hmerge := mergeContributors_eq (D.env v).order
        (hl.markedValidator_eq hvmem (by rw [hpc]; rfl)) (D.cString v hvmem) hflags
      rw [slotMove_context]
      simp only [slotContext, hpc, hl.slot_eq hvmem (by rw [hpc]; decide), hmerge]
      exact hg.completes hv hvmem hpc

/-- Who leaves the wait for the broadcast has found the validator resolved. -/
theorem isResolved_of_awaitBlock {n : Node} (E : SlotEnv) (hne : n.pc ≠ .awaitBlock)
    (h : (slotMove E n).1.pc = .awaitBlock) :
    (n.storage.context n.context.validator n.context.header.slot).isResolved = true := by
  have hback := slotMove_pc (R := fun pc pc' => pc' = .awaitBlock → pc ≠ .awaitBlock →
    pc = .awaitResolved ∨ ∃ phase ∈ [WaitPhase.early, .eval], pc = .wait .broadcast phase)
    (by decide +kernel) E n h hne
  rcases hback with hpc | ⟨phase, -, hpc⟩
  · simp only [slotMove, hpc, Node.ask_eq, Waiter.predicate, isResolved] at h
    split at h
    · next hresolved => simpa using hresolved
    · cases h
    · cases h
  · simpa [Waiter.predicate, isResolved] using slotMove_done E (w := .broadcast) hpc h

theorem resolved_step (hg : Gathered D v s) (hv : D.Elects v) (hvmem : v ∈ D.addresses)
    (hx : x ∈ D.addresses) (hxv : x ≠ v) (h : Sys.step D s act = some s')
    (h25 : 25 ≤ (s'.node x).pc.rank) : .marAsResolved ∈ s'.executed v x := by
  have hs := hg.settled
  refine mem_executed hs.ledger hvmem hx hxv h ?_
  by_cases h25' : 25 ≤ (s.node x).pc.rank
  · exact hg.resolved x hx hxv h25'
  · obtain rfl := Sys.eq_slot_of_rank_lt h ((not_le.1 h25').trans_le h25)
    have hback := slotMove_pc (R := fun pc pc' => 25 ≤ pc'.rank → 25 ≤ pc.rank ∨
      16 ≤ pc.rank ∧ pc.rank ≤ 28 ∧ (pc = .wait .broadcast .enter ∧ pc' = .completeUpdate ∨
        pc ≠ .awaitBlock ∧ pc' = .awaitBlock)) (by decide +kernel) (D.env x) (s.node x)
    rw [(Sys.node_slot h).2.2] at h25
    obtain ⟨h16, h28, hback⟩ := (hback h25).resolve_left h25'
    have hrole := hs.role hv hx h16
    rcases hback with ⟨hpc, hpc'⟩ | ⟨hne, hpc'⟩
    · exact absurd hpc' ((slotMove_enter_ne _).2 hpc (by simpa [Ne.symm hxv] using hrole.2))
    · have hresolved := isResolved_of_awaitBlock _ hne hpc'
      rw [hrole.1, (hs.ledger.base.known x hx).slot_eq hx (by omega)] at hresolved
      have hex := hs.ledger.exchange v hvmem x hx hxv
      rw [(hex.replayed h28).isResolved] at hresolved
      exact (replay_isResolved _ _).1 hresolved

theorem received_step (hg : Gathered D v s) (hv : D.Elects v) (hvmem : v ∈ D.addresses)
    (hx : x ∈ D.addresses) (hxv : x ≠ v) (h : Sys.step D s act = some s')
    (h26 : 26 ≤ (s'.node x).pc.rank) :
    (s'.node x).context.broadcastBlock = (s'.node v).context.broadcastBlock := by
  have hs := hg.settled
  -- The validator has sent its block, and keeps it.
  have hkept : 25 ≤ (s.node x).pc.rank → 24 ≤ (s.node v).pc.rank ∧
      (s'.node v).context.broadcastBlock = (s.node v).context.broadcastBlock := by
    intro h25
    have h24 := (hs.broadcasted hv hvmem hx hxv (hg.resolved x hx hxv h25)).1
    refine ⟨h24, broadcastBlock_eq h ?_ ?_⟩
    · intro hpc
      simp [hpc, SlotPc.rank] at h24
    · intro hpc
      have := hg.eq_of_role hv hvmem (by omega) (b := false) (by rw [hpc]; rfl)
      simp at this
  by_cases h26' : 26 ≤ (s.node x).pc.rank
  · rw [broadcastBlock_eq h, hg.received x hx hxv h26', (hkept (by omega)).2]
    all_goals
      intro hpc
      simp [hpc, SlotPc.rank] at h26'
  · obtain rfl := Sys.eq_slot_of_rank_lt h ((not_le.1 h26').trans_le h26)
    have hback := slotMove_pc (R := fun pc pc' => 26 ≤ pc'.rank → 26 ≤ pc.rank ∨
      pc = .wait .broadcast .enter ∧ pc' = .completeUpdate ∨ pc = .awaitBlock)
      (by decide +kernel) (D.env x) (s.node x)
    have hnode := (Sys.node_slot h).2.2
    rw [hnode] at h26 ⊢
    rcases (hback h26).resolve_left h26' with ⟨hpc, hpc'⟩ | hpc
    · have hrole := (hs.role hv hx (by rw [hpc]; decide)).2
      exact absurd hpc' ((slotMove_enter_ne _).2 hpc (by simpa [Ne.symm hxv] using hrole))
    · have h25 : 25 ≤ (s.node x).pc.rank := by rw [hpc]; decide
      have hex := hs.ledger.exchange v hvmem x hx hxv
      rw [(hkept h25).2, ← (hs.broadcasted hv hvmem hx hxv (hg.resolved x hx hxv h25)).2.2 _,
        ← (hex.replayed (by rw [hpc]; decide)).block, slotMove_context]
      simp only [slotContext, hpc, (hs.role hv hx (by rw [hpc]; decide)).1,
        (hs.ledger.base.known x hx).slot_eq hx (by rw [hpc]; decide)]

theorem step (hg : Gathered D v s) (hD : D.Distinct) (hv : D.Elects v) (hvmem : v ∈ D.addresses)
    (h : Sys.step D s act = some s') : Gathered D v s' where
  settled := hg.settled.step hD h
  collected h20 _ hy hyv hflag := hg.collected_step hv hvmem h h20 hy hyv hflag
  merged h21 := hg.merged_step hv hvmem h h21
  resolved _ hx hxv h25 := hg.resolved_step hv hvmem hx hxv h h25
  received _ hx hxv h26 := hg.received_step hv hvmem hx hxv h h26

theorem start (D : Deployment) (v : String) : Gathered D v D.start := by
  refine ⟨.start D, ?_, ?_, ?_, ?_⟩
  all_goals simp [Deployment.start, SlotPc.rank]

end Gathered

/-- **The block is gathered and distributed**, in every run without collisions. -/
theorem gathered_of_reaches {D : Deployment} {s : Sys} {ok : Sys → Action → Prop} {v : String}
    (hD : D.Distinct) (hv : D.Elects v) (h : Reaches (Sys.step D) ok D.start s) :
    Gathered D v s :=
  h.invariant (.start D v) fun _ _ _ hi _ hs => hi.step hD hv hv.1 hs

namespace Gathered

variable {D : Deployment} {s : Sys} {v x y : String}

/-- Who has the block has executed everything that was sent to it. -/
theorem pending_eq_nil (hg : Gathered D v s) (hv : D.Elects v) (hx : x ∈ D.addresses)
    (h25 : 25 ≤ (s.node x).pc.rank) (hy : y ∈ D.addresses) (hne : y ≠ x) :
    s.pending y x = [] := by
  have hs := hg.settled
  have hheard := hs.heard x hx (by omega) y hy hne
  by_cases hyv : y = v
  · subst hyv
    exact (hs.broadcasted hv hy hx (Ne.symm hne) (hg.resolved x hx (Ne.symm hne) h25)).2.1
  · by_cases hrelay : x = v ∧ (D.env y).isContributing = true
    · obtain ⟨rfl, hflag⟩ := hrelay
      exact (hs.uploaded hv hx hy hyv (hg.collected (by omega) y hy hyv hflag)).2.2.1
    · refine hs.pending_of_heard hv hy hx (Ne.symm hne) hyv (fun hxv => ?_) hheard
      simpa [hxv] using hrelay

/-- **Nothing comes late**: no message is on its way to a node that has the block. -/
theorem inFlight_eq_nil (hg : Gathered D v s) (hv : D.Elects v) (hx : x ∈ D.addresses)
    (h25 : 25 ≤ (s.node x).pc.rank) (y : String) : (s.channel y x).inFlight = [] := by
  refine List.eq_nil_iff_forall_not_mem.2 fun m hm => ?_
  have hmail := hg.settled.ledger.base.mail y x m (List.mem_append_right _ hm)
  have hpending := hg.pending_eq_nil hv hx h25 hmail.source hmail.target.2.symm
  have hupdates : m.updates = [] := by
    have hflight := (List.append_eq_nil_iff.1 hpending).2
    exact List.flatMap_eq_nil_iff.1 hflight m hm
  -- Every message asks for an update.
  have hwf := hmail.wellFormed
  obtain ⟨⟨operation, node, address, timestamp, slot⟩, body⟩ := m
  cases operation <;> cases body <;>
    simp [ConsensusMessage.updates, handlerScript, List.filter_cons,
      HandlerOp.isUpdate] at hwf hupdates

end Gathered

/-! ## What is saved -/

/-- `CompleteBlockSaver::save` has written its block. -/
def SlotPc.saved (pc : SlotPc) : Prop := SlotPc.completeClear.rank ≤ pc.rank

instance : DecidablePred SlotPc.saved := fun pc => inferInstanceAs (Decidable (_ ≤ pc.rank))

/-- Who has saved a block has saved the one that the validator has merged. -/
theorem Gathered.saved {D : Deployment} {s : Sys} {v x : String} (hg : Gathered D v s)
    (hv : D.Elects v) (hvmem : v ∈ D.addresses) (hx : x ∈ D.addresses)
    (hsaved : (s.node x).pc.saved) :
    D.Completes (s.node v).context.broadcastBlock ∧
      (s.node x).chain =
        D.chain x ++ [(D.env x).archive.serialize (s.node v).context.broadcastBlock] := by
  have h28 : 28 ≤ (s.node x).pc.rank := hsaved
  have hchain := (hg.settled.rounds.sound.equipped x hx).completed h28
  by_cases hxv : x = v
  · subst hxv
    exact ⟨hg.merged (by omega), hchain⟩
  · have hmem := hg.resolved x hx hxv (by omega)
    have h24 := (hg.settled.broadcasted hv hvmem hx hxv hmem).1
    rw [hg.received x hx hxv (by omega)] at hchain
    exact ⟨hg.merged (by omega), hchain⟩

/-- **Block consistency and no message loss**, in every run without collisions: any two nodes
that have saved their block have saved the same one, complete, sorted, and with the data of all
contributors. -/
theorem block_consistency {D : Deployment} {s : Sys} (hD : D.Distinct)
    (h : Reachable (Sys.step D) D.start s) {x y : String} (hx : x ∈ D.addresses)
    (hy : y ∈ D.addresses) (hsx : (s.node x).pc.saved) (hsy : (s.node y).pc.saved) :
    ∃ b, D.Completes b ∧ (s.node x).chain = D.chain x ++ [(D.env x).archive.serialize b] ∧
      (s.node y).chain = D.chain y ++ [(D.env y).archive.serialize b] := by
  obtain ⟨v, hv⟩ := hD.exists_elects hx
  have hg := gathered_of_reaches hD hv h
  obtain ⟨hcompletes, hchain⟩ := hg.saved hv hv.1 hx hsx
  exact ⟨_, hcompletes, hchain, (hg.saved hv hv.1 hy hsy).2⟩

/-- The pair, with values by which `b` is the validator, so that `a` has to upload. -/
def relayPair : Deployment :=
  pair (fun x _ => if x = "a" then 7 else 5) fun x _ => by split <;> decide

/-- `b` gets the block of `a`, and `a` the merged block of `b`. -/
def relayPairSaves : List Action :=
  pairVotes ++ List.replicate 8 (.slot "a") ++ deliver "b" "a" 4 ++
    List.replicate 13 (.slot "b") ++ deliver "a" "b" 4 ++ List.replicate 7 (.slot "a")

set_option maxRecDepth 4000 in
theorem block_consistency_relayPair :
    ∃ (s : Sys) (b : Block), b.data.Perm [⟨900, "x", "a"⟩] ∧
      (s.node "a").chain = [textArchive.serialize b] ∧
      (s.node "b").chain = [textArchive.serialize b] := by
  obtain ⟨s, hs, h⟩ := exists_reaches (Sys.step relayPair) (fun _ _ => True) relayPair.start
    relayPairSaves (fun s => (s.node "a").pc.saved ∧ (s.node "b").pc.saved) (by decide +kernel)
  simp only [decide_eq_true_eq] at h
  obtain ⟨b, hb, ha, hb'⟩ := block_consistency (x := "a") (y := "b") (by decide) hs (by decide)
    (by decide) h.1 h.2
  exact ⟨s, b, hb.perm, ha, hb'⟩

end BlockchainMessaging
