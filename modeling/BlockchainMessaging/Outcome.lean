import BlockchainMessaging.Gathered
import BlockchainMessaging.Publication

/-!
# The block of a slot is determined

Which node merges, what it merges and in which order it meets the entries of its table is settled
before the first step: by the first values that are drawn, by what was collected in the buffers and
by the iteration order of the table of the winner, to which no address is added.  So without
collisions the block of a slot does not depend on the order in which threads move and messages
arrive: whoever writes or publishes a block, in whichever run, writes and publishes this one.

## Main definitions

* `Deployment.block` — the block of the slot, from the inputs alone.
* `Determined`, `determined_of_reaches` — every node that has a block has this one.
* `Deployment.block_determined` — what is written and published.
-/

namespace BlockchainMessaging

open ConsensusStorage

/-! ## The block, from the inputs -/

namespace Deployment

variable {D : Deployment} {v : String}

instance (D : Deployment) (v : String) : Decidable (D.Elects v) :=
  inferInstanceAs (Decidable (Wins D.addresses _ v))

/-- Who wins the election of the first values, if anybody does. -/
def winner (D : Deployment) : String := (D.addresses.find? fun v => D.Elects v).getD ""

/-- What `v` merges: its own data, and that of the others in the order of its table. -/
def merged (D : Deployment) (v : String) : Block :=
  { (D.env v).pendingBlock with
    state := .COMPLETED
    data := (D.env v).order.sort ((D.env v).pendingBlock.data ++
      (D.storage v).contexts.keys.flatMap fun a =>
        if a = v then [] else (D.env a).pendingBlock.data) }

/-- The block of the slot. -/
def block (D : Deployment) : Block := D.merged D.winner

theorem winner_eq (hv : D.Elects v) : D.winner = v := by
  obtain ⟨w, hw⟩ : ∃ w, D.addresses.find? (fun w => D.Elects w) = some w :=
    Option.isSome_iff_exists.1 (List.find?_isSome.2 ⟨v, hv.1, decide_eq_true hv⟩)
  have hwins : D.Elects w := by simpa using List.find?_some hw
  rw [winner, hw, Option.getD_some]
  exact Wins.unique hwins hv

theorem block_eq (hv : D.Elects v) : D.block = D.merged v := by
  rw [block, winner_eq hv]

theorem block_state (D : Deployment) : D.block.state = .COMPLETED := rfl

/-- **The merge makes the block of the slot**, where the table has what everybody has sent. -/
theorem mergedBlock_eq {st : ConsensusStorage}
    (hkeys : st.contexts.keys = (D.storage v).contexts.keys) (hv : v ∈ D.addresses)
    (hflags : ∀ a ∈ D.addresses,
      (st.context a D.slot).isContributing = some (D.env a).isContributing)
    (hblocks : ∀ a ∈ D.addresses, a = v ∨ (D.env a).isContributing = true →
      (st.context a D.slot).block = (D.env a).pendingBlock) :
    mergedBlock (D.env v).order st v D.slot = D.merged v := by
  have hcontribution : ∀ a ∈ (D.storage v).contexts.keys,
      st.contribution v D.slot a = if a = v then [] else (D.env a).pendingBlock.data := by
    intro a ha
    have ha := (D.mem_keys v hv a).1 ha
    rw [contribution, hflags a ha]
    by_cases hne : a = v
    · simp [hne]
    · by_cases hflag : (D.env a).isContributing = true
      · rw [if_pos ⟨hne, by rw [hflag]⟩, hblocks a ha (.inr hflag), if_neg hne]
      · rw [if_neg (by simp [hflag]), if_neg hne, SlotEnv.data_pendingBlock (by simpa using hflag)]
  rw [mergedBlock, merged, hkeys, List.flatMap_congr hcontribution, hblocks v hv (.inl rfl)]

/-- The block of the slot is complete. -/
theorem completes_block (D : Deployment) (hv : D.Elects v) : D.Completes D.block := by
  rw [block_eq hv]
  refine ⟨rfl, (D.env v).order.sorted _, ((D.env v).order.perm _).trans ?_⟩
  have hkeys : (D.storage v).contexts.keys.Perm D.addresses :=
    (List.perm_ext_iff_of_nodup (D.storage v).contexts.nodup D.nodup).2 (D.mem_keys v hv.1)
  have hcons := List.perm_cons_erase hv.1
  have hothers : (D.addresses.erase v).flatMap (fun a =>
      if a = v then [] else (D.env a).pendingBlock.data) =
      (D.addresses.erase v).flatMap fun a => (D.env a).pendingBlock.data :=
    List.flatMap_congr fun a ha => if_neg ((D.nodup.mem_erase_iff).1 ha).1
  have hmerged := (hkeys.trans hcons).flatMap_right fun a =>
    if a = v then [] else (D.env a).pendingBlock.data
  rw [List.flatMap_cons, if_pos rfl, List.nil_append, hothers] at hmerged
  have hall := hcons.symm.flatMap_right fun a => (D.env a).pendingBlock.data
  rw [List.flatMap_cons] at hall
  rw [D.pendingData_eq]
  exact (hmerged.append_left _).trans hall

end Deployment

/-! ## Who has the block -/

/-- No address is added to a table, and whoever has a block has the block of the slot. -/
structure Determined (D : Deployment) (v : String) (s : Sys) : Prop where
  gathered : Gathered D v s
  keys : ∀ x ∈ D.addresses, (s.node x).storage.contexts.keys = (D.storage x).contexts.keys
  merged : 21 ≤ (s.node v).pc.rank → (s.node v).context.broadcastBlock = D.merged v
  published : ∀ x ∈ D.addresses, (s.node x).published =
    if (s.node x).pc = .returned then [(s.node x).context.broadcastBlock] else []

namespace Determined

variable {D : Deployment} {s s' : Sys} {act : Action} {v x : String}

theorem keys_step (hd : Determined D v s) (hx : x ∈ D.addresses)
    (h : Sys.step D s act = some s') :
    (s'.node x).storage.contexts.keys = (D.storage x).contexts.keys := by
  have hbase := hd.gathered.settled.ledger.base
  have hl := hbase.known x hx
  have hkeys := hd.keys x hx
  have hstep := hbase.nodeStep h x
  generalize s'.node x = n' at hstep ⊢
  cases hstep with
  | other => exact hkeys
  | slot => exact (slotMove_keys (hl.knownAddresses hx)).trans hkeys
  | wake => exact hkeys
  | @handle op rest _ htodo =>
    have hsender := (hl.sender (by simp [htodo])).2.1
    refine Eq.trans ?_ hkeys
    exact (op.exec_touched { s.node x with todo := rest }).keys_eq
      (fun a ha => D.cString a ((hl.mem_keys a).1 ha)) fun a ha => by
        rw [ha]
        exact (hl.mem_keys _).2 hsender
  | receive => exact hkeys

/-- The validator merges what all have sent. -/
theorem merged_step (hd : Determined D v s) (hv : D.Elects v) (hvmem : v ∈ D.addresses)
    (h : Sys.step D s act = some s') (h21 : 21 ≤ (s'.node v).pc.rank) :
    (s'.node v).context.broadcastBlock = D.merged v := by
  have hg := hd.gathered
  have hs := hg.settled
  by_cases h21' : 21 ≤ (s.node v).pc.rank
  · rw [Gathered.broadcastBlock_eq h, hd.merged h21']
    · intro hpc
      simp [hpc, SlotPc.rank] at h21'
    · intro hpc
      have := hg.eq_of_role hv hvmem (by omega) (b := false) (by rw [hpc]; rfl)
      simp at this
  · obtain rfl := Sys.eq_slot_of_rank_lt h ((not_le.1 h21').trans_le h21)
    have hback := slotMove_pc (R := fun pc pc' => 21 ≤ pc'.rank → 21 ≤ pc.rank ∨
      pc = .wait .contributorsData .enter ∧ pc' = .broadcast ∨ pc = .collectMerge)
      (by decide +kernel) (D.env v) (s.node v)
    rw [(Sys.node_slot h).2.2] at h21 ⊢
    rcases (hback h21).resolve_left h21' with ⟨hpc, hpc'⟩ | hpc
    · have hrole := (hs.role hv hvmem (by rw [hpc]; decide)).2
      exact absurd hpc' ((slotMove_enter_ne _).1 hpc (by simpa using hrole))
    · have hl := hs.ledger.base.known v hvmem
      have hflags := hs.agreed.voted.inspected.flags v hvmem (by rw [hpc]; decide)
        (by rw [hpc]; decide)
      have hblocks : ∀ y ∈ D.addresses, y = v ∨ (D.env y).isContributing = true →
          ((s.node v).storage.context y D.slot).block = (D.env y).pendingBlock := by
        intro y hy hcontributes
        by_cases hyv : y = v
        · subst hyv
          exact (hs.ledger.base.own y hvmem).block (by rw [hpc]; decide) (by rw [hpc]; decide)
        · have hmem := hg.collected (by rw [hpc]; decide) y hy hyv
            (hcontributes.resolve_left hyv)
          have hex := hs.ledger.exchange y hy v hvmem (Ne.symm hyv)
          rw [(hex.replayed (by rw [hpc]; decide)).block]
          exact (hs.uploaded hv hvmem hy hyv hmem).2.2.2 _
      have hmerge := mergeContributors_eq (D.env v).order
        (hl.markedValidator_eq hvmem (by rw [hpc]; rfl)) (D.cString v hvmem) fun a ha => by
          rw [hflags a ((hl.mem_keys a).1 ha)]
          rfl
      rw [slotMove_context]
      simp only [slotContext, hpc, hl.slot_eq hvmem (by rw [hpc]; decide), hmerge]
      exact Deployment.mergedBlock_eq (hd.keys v hvmem) hvmem hflags hblocks

/-- A node publishes once, when it returns. -/
theorem published_step (hd : Determined D v s) (hx : x ∈ D.addresses)
    (h : Sys.step D s act = some s') : (s'.node x).published =
      if (s'.node x).pc = .returned then [(s'.node x).context.broadcastBlock] else [] := by
  have hpublished := hd.published x hx
  have hstep := hd.gathered.settled.ledger.base.nodeStep h x
  generalize s'.node x = n' at hstep ⊢
  have hstay : ∀ {pc pc' : SlotPc}, pc.Woken pc' → (pc' = .returned ↔ pc = .returned) := by
    rintro pc pc' (rfl | ⟨w, rfl, rfl⟩)
    · exact Iff.rfl
    · simp
  cases hstep with
  | other => exact hpublished
  | slot hnone hblocked =>
    obtain ⟨hmove, hkept⟩ := slotMove_published (D.env x) (s.node x)
    have hreturned : (s.node x).pc ≠ .returned := by
      intro hpc
      rw [hpc] at hblocked
      cases hblocked
    rw [if_neg hreturned] at hpublished
    have hback := slotMove_pc (R := fun pc pc' => pc' = .returned →
      pc = .publishBlock ∨ pc = .returned) (by decide +kernel) (D.env x) (s.node x)
    by_cases hpc : (s.node x).pc = .publishBlock
    · have hnext : (slotMove (D.env x) (s.node x)).1.pc = .returned := by simp [slotMove, hpc]
      rw [hmove, if_pos hpc, hpublished, if_pos hnext, hkept (by rw [hpc]; decide)]
      rfl
    · have hnext : (slotMove (D.env x) (s.node x)).1.pc ≠ .returned := fun h =>
        (hback h).elim hpc hreturned
      rw [hmove, if_neg hpc, hpublished, if_neg hnext]
  | wake hnone hpc =>
    rw [if_neg (by simp [hpc])] at hpublished
    simpa using hpublished
  | @handle op rest _ htodo =>
    have hpc := op.exec_pc { s.node x with todo := rest }
    obtain ⟨storage, pc, todo, failure, hexec, -, -⟩ := op.exec_frame { s.node x with todo := rest }
    rw [hexec] at hpc ⊢
    simp only [hstay hpc]
    exact hpublished
  | receive => exact hpublished

theorem step (hd : Determined D v s) (hD : D.Distinct) (hv : D.Elects v) (hvmem : v ∈ D.addresses)
    (h : Sys.step D s act = some s') : Determined D v s' where
  gathered := hd.gathered.step hD hv hvmem h
  keys _ hx := hd.keys_step hx h
  merged h21 := hd.merged_step hv hvmem h h21
  published _ hx := hd.published_step hx h

theorem start (D : Deployment) (v : String) : Determined D v D.start :=
  ⟨.start D v, fun _ _ => rfl, by simp [Deployment.start, SlotPc.rank],
    fun _ _ => by simp [Deployment.start]⟩

/-- Whoever has received or merged a block has the block of the slot. -/
theorem broadcastBlock_eq (hd : Determined D v s) (hv : D.Elects v) (hvmem : v ∈ D.addresses)
    (hx : x ∈ D.addresses) (h26 : 26 ≤ (s.node x).pc.rank) :
    (s.node x).context.broadcastBlock = D.block := by
  rw [Deployment.block_eq hv]
  by_cases hxv : x = v
  · subst hxv
    exact hd.merged (by omega)
  · have hg := hd.gathered
    have h24 := (hg.settled.broadcasted hv hvmem hx hxv (hg.resolved x hx hxv (by omega))).1
    rw [hg.received x hx hxv h26, hd.merged (by omega)]

end Determined

/-- **The block is determined**, in every run without collisions. -/
theorem determined_of_reaches {D : Deployment} {s : Sys} {ok : Sys → Action → Prop} {v : String}
    (hD : D.Distinct) (hv : D.Elects v) (h : Reaches (Sys.step D) ok D.start s) :
    Determined D v s :=
  h.invariant (.start D v) fun _ _ _ hi _ hs => hi.step hD hv hv.1 hs

/-- **The block of a slot depends on nothing but the inputs**: in every run without collisions, what
a node writes to its chain and what it publishes is the one block that the inputs determine, and
this block is complete. -/
theorem Deployment.block_determined {D : Deployment} {s : Sys} (hD : D.Distinct)
    (h : Reachable (Sys.step D) D.start s) {x : String} (hx : x ∈ D.addresses) :
    D.Completes D.block ∧
      ((s.node x).pc.saved →
        (s.node x).chain = D.chain x ++ [(D.env x).archive.serialize D.block]) ∧
      (s.node x).published = if (s.node x).pc = .returned then [D.block] else [] := by
  obtain ⟨v, hv⟩ := hD.exists_elects hx
  have hd := determined_of_reaches hD hv h
  refine ⟨D.completes_block hv, fun hsaved => ?_, ?_⟩
  · have h28 : 28 ≤ (s.node x).pc.rank := hsaved
    rw [(hd.gathered.settled.rounds.sound.equipped x hx).completed h28,
      hd.broadcastBlock_eq hv hv.1 hx (by omega)]
  · rw [hd.published x hx]
    split
    · next hpc => rw [hd.broadcastBlock_eq hv hv.1 hx (by rw [hpc]; decide)]
    · rfl

/-- Both nodes of the pair save and publish the block that can be read off the pair. -/
theorem Deployment.block_determined_relayPair :
    relayPair.block = ⟨.COMPLETED, 1000, 2, [⟨900, "x", "a"⟩]⟩ ∧
    ∃ s : Sys, (s.node "b").published = [relayPair.block] ∧
      (s.node "a").chain = [textArchive.serialize relayPair.block] := by
  obtain ⟨s, hs, h⟩ := exists_reaches (Sys.step relayPair) (fun _ _ => True) relayPair.start
    (relayPairSaves ++ List.replicate 2 (.slot "b"))
    (fun s => (s.node "a").pc.saved ∧ (s.node "b").pc = .returned) (by decide +kernel)
  simp only [decide_eq_true_eq] at h
  refine ⟨by decide +kernel, s, ?_, ?_⟩
  · rw [(block_determined (by decide) hs (x := "b") (by decide)).2.2, if_pos h.2]
  · exact (block_determined (by decide) hs (x := "a") (by decide)).2.1 h.1

end BlockchainMessaging
