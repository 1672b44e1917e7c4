import BlockchainMessaging.Replication

/-!
# From the contributors to the clients

The last call of a run hands the complete block of its slot to the `Consumer` of the node, which
sends the data to the queues of all clients that are registered by then.  All nodes have the same
block of a slot, and it has the data of all contributors.  So what was collected for a slot on any
node reaches every client of every node once, in the same order everywhere, whatever other slots are
on their way; and nothing else reaches a client.

## Main definitions

* `Delivered` — what a client has got between two states.
* `Cluster.delivered_exactly_once` — it has got the block of each slot that has returned, once.
-/

namespace BlockchainMessaging

/-- A client stays registered. -/
theorem Consumer.mem_clientNames_createChannel {c : Consumer} {client author : String}
    (h : client ∈ c.clientNames) : client ∈ (c.createChannel author).clientNames := by
  rw [createChannel]
  split
  · exact h
  · exact List.mem_append_left _ h

/-- A run returns when it has published, and stays where it is. -/
theorem slotMove_returned (E : SlotEnv) {n : Node} (hblocked : n.pc.blocked = false) :
    (slotMove E n).1.pc = .returned ↔ n.pc = .publishBlock := by
  have hback := slotMove_pc (R := fun pc pc' => pc.blocked = false → pc' = .returned →
    pc = .publishBlock) (by decide +kernel) E n hblocked
  exact ⟨hback, fun hpc => by simp [slotMove, hpc]⟩

/-- A node on which no run has returned has published nothing. -/
theorem Cluster.queues_eq_nil {C : Cluster} {K : ClusterState}
    {ok : ClusterState → ClusterAction → Prop} (h : Reaches C.step ok C.start K) {a : String}
    (hfresh : ∀ s, ((K.process a).run s).pc ≠ .returned) (channel : String) :
    (K.consumer a).queues channel = [] := by
  induction h with
  | refl => rfl
  | @tail K K' act _ _ hstep ih =>
    have hbefore : ∀ s, ((K.process a).run s).pc ≠ .returned := by
      intro s hpc
      have hrank := Cluster.rank_le hstep a s
      rw [hpc] at hrank
      have hlast : ∀ pc : SlotPc, SlotPc.returned.rank ≤ pc.rank → pc = .returned := by
        decide +kernel
      exact hfresh s (hlast _ hrank)
    rw [← ih hbefore]
    cases act with
    | slot b s =>
      have hrun := Cluster.run_slot (a := b) hstep
      obtain ⟨-, p, -, rfl⟩ := ClusterState.step_slot_eq_some hstep
      by_cases hpc : (K.view b s).pc = .publishBlock
      · have hab : a ≠ b := by
          rintro rfl
          refine hfresh s ?_
          rw [hrun.2]
          exact (slotMove_returned (C.env a s) (n := K.view a s) hrun.1).2 hpc
        simp [hpc, hab]
      · simp [hpc]
    | wake b s =>
      obtain ⟨-, p, -, rfl⟩ := ClusterState.step_wake_eq_some hstep
      rfl
    | handle b =>
      obtain ⟨-, p, -, rfl⟩ := ClusterState.step_handle_eq_some hstep
      rfl
    | receive b c =>
      obtain ⟨-, m, rest, p, -, -, rfl⟩ := ClusterState.step_receive_eq_some hstep
      rfl
    | createChannel b author =>
      obtain ⟨-, rfl⟩ := ClusterState.step_createChannel_eq_some hstep
      by_cases hab : a = b
      · simp [hab]
      · simp [hab]

/-- Between `K` and `K'` the client of the node `a` has got the data of the blocks of these slots,
in this order, and they are those whose runs have returned in the meantime. -/
structure Delivered (C : Cluster) (a client : String) (K K' : ClusterState) (slots : List ℕ) :
    Prop where
  nodup : slots.Nodup
  mem_iff : ∀ s, s ∈ slots ↔
    ((K'.process a).run s).pc = .returned ∧ ((K.process a).run s).pc ≠ .returned
  queue : (K'.consumer a).queues (Consumer.clientChannel client) =
    (K.consumer a).queues (Consumer.clientChannel client) ++
      slots.flatMap fun s => (C.block s).data
  registered : client ∈ (K'.consumer a).clientNames
  stays : ∀ s, ((K.process a).run s).pc = .returned → ((K'.process a).run s).pc = .returned

namespace Delivered

variable {C : Cluster} {a client : String} {K K' K'' : ClusterState} {slots : List ℕ}

theorem refl (h : client ∈ (K.consumer a).clientNames) : Delivered C a client K K [] :=
  ⟨List.nodup_nil, by simp, by simp, h, fun _ => id⟩

/-- A step in which no run of the node returns, and after which the queue is as before. -/
theorem stay (h : Delivered C a client K K' slots)
    (hpc : ∀ s, ((K''.process a).run s).pc = .returned ↔ ((K'.process a).run s).pc = .returned)
    (hqueue : (K''.consumer a).queues = (K'.consumer a).queues)
    (hregistered : client ∈ (K''.consumer a).clientNames) : Delivered C a client K K'' slots :=
  ⟨h.nodup, fun s => by rw [h.mem_iff, hpc], by rw [hqueue, h.queue], hregistered,
    fun s hs => (hpc s).2 (h.stays s hs)⟩

/-- The last call of a run. -/
theorem publish {s : ℕ} (h : Delivered C a client K K' slots)
    (hpc : ((K'.process a).run s).pc = .publishBlock)
    (hblock : ((K'.process a).run s).context.broadcastBlock = C.block s)
    (hstep : C.step K' (.slot a s) = some K'') : Delivered C a client K K'' (slots ++ [s]) := by
  have hconsumer : K''.consumer a = (K'.consumer a).publish (C.block s) := by
    obtain ⟨-, p, -, rfl⟩ := ClusterState.step_slot_eq_some hstep
    have hview : (K'.view a s).pc = .publishBlock := hpc
    have hview' : (K'.view a s).context.broadcastBlock = C.block s := hblock
    simp [hview, hview']
  obtain ⟨hblocked, hrun⟩ := Cluster.run_slot hstep
  have hreturned : ∀ s', ((K''.process a).run s').pc = .returned ↔
      ((K'.process a).run s').pc = .returned ∨ s' = s := by
    intro s'
    by_cases hs : s' = s
    · subst hs
      have hview : (K'.view a s').pc = .publishBlock := hpc
      simp only [hrun, or_true, iff_true]
      exact (slotMove_returned (C.env a s') (n := K'.view a s') hblocked).2 hview
    · have hwoken := Cluster.run_other (a := a) (s := s')
        (fun heq => hs (ClusterAction.slot.inj heq).2.symm) hstep
      simp only [hs, or_false]
      rcases hwoken with heq | ⟨w, heq, heq'⟩
      · rw [heq]
      · simp [heq, heq']
  have hnot : ((K'.process a).run s).pc ≠ .returned := by simp [hpc]
  constructor
  case nodup =>
    refine List.nodup_append.2 ⟨h.nodup, List.nodup_singleton s, ?_⟩
    rintro s' hs' _ hs rfl
    rw [List.mem_singleton.1 hs] at hs'
    exact hnot ((h.mem_iff s).1 hs').1
  case mem_iff =>
    intro s'
    rw [List.mem_append, List.mem_singleton, h.mem_iff, hreturned]
    have hfresh : s' = s → ((K.process a).run s').pc ≠ .returned := by
      rintro rfl hs
      exact hnot (h.stays s' hs)
    tauto
  case queue =>
    rw [hconsumer, Consumer.queues_publish, if_pos h.registered, h.queue]
    simp
  case registered =>
    rw [hconsumer]
    exact h.registered
  case stays => exact fun s' hs => (hreturned s').2 (.inl (h.stays s' hs))

/-- Any other step delivers nothing. -/
theorem step_other (h : Delivered C a client K K' slots) {act : ClusterAction}
    (hstep : C.step K' act = some K'')
    (hpublish : ∀ s, act = .slot a s → ((K'.process a).run s).pc ≠ .publishBlock) :
    Delivered C a client K K'' slots := by
  have hreturned : ∀ s, ((K''.process a).run s).pc = .returned ↔
      ((K'.process a).run s).pc = .returned := by
    intro s
    by_cases hact : act = .slot a s
    · subst hact
      obtain ⟨hblocked, hrun⟩ := Cluster.run_slot hstep
      have hmove := slotMove_returned (C.env a s) (n := K'.view a s) hblocked
      rw [hrun, hmove]
      constructor
      · exact fun hpc => absurd hpc (hpublish s rfl)
      · intro hpc
        rw [hpc] at hblocked
        cases hblocked
    · rcases Cluster.run_other hact hstep with heq | ⟨w, heq, heq'⟩
      · rw [heq]
      · simp [heq, heq']
  cases act with
  | slot b s =>
    obtain ⟨-, p, -, rfl⟩ := ClusterState.step_slot_eq_some hstep
    have hconsumer : (((K'.setProcess b p).publish b
        (slotSends (C.env b s) (K'.view b s))).record b s (K'.view b s)).consumer a =
        K'.consumer a := by
      by_cases hpc : (K'.view b s).pc = .publishBlock
      · have hab : a ≠ b := by
          rintro rfl
          exact hpublish s rfl hpc
        simp [hpc, hab]
      · simp [hpc]
    exact h.stay hreturned (by rw [hconsumer]) (by rw [hconsumer]; exact h.registered)
  | wake b s =>
    obtain ⟨-, p, -, rfl⟩ := ClusterState.step_wake_eq_some hstep
    exact h.stay hreturned rfl h.registered
  | handle b =>
    obtain ⟨-, p, -, rfl⟩ := ClusterState.step_handle_eq_some hstep
    exact h.stay hreturned rfl h.registered
  | receive b b' =>
    obtain ⟨-, m, rest, p, -, -, rfl⟩ := ClusterState.step_receive_eq_some hstep
    exact h.stay hreturned rfl h.registered
  | createChannel b author =>
    obtain ⟨-, rfl⟩ := ClusterState.step_createChannel_eq_some hstep
    by_cases hab : a = b
    · subst hab
      refine h.stay hreturned ?_ ?_
      · simp
      · simpa using Consumer.mem_clientNames_createChannel h.registered
    · refine h.stay hreturned ?_ ?_
      · simp [hab]
      · simpa [hab] using h.registered

/-- **One step** delivers at most one block: the last call of a run. -/
theorem step {ok' : Sys → Action → Prop} (h : Delivered C a client K K' slots)
    (ht : Tracks C ok' K') (hD : C.Distinct) (ha : a ∈ C.addresses) {act : ClusterAction}
    (hstep : C.step K' act = some K'') :
    (∃ s, act = .slot a s ∧ ((K'.process a).run s).pc = .publishBlock ∧
      Delivered C a client K K'' (slots ++ [s])) ∨
    (∀ s, act = .slot a s → ((K'.process a).run s).pc ≠ .publishBlock) ∧
      Delivered C a client K K'' slots := by
  by_cases hpublish : ∃ s, act = .slot a s ∧ ((K'.process a).run s).pc = .publishBlock
  · obtain ⟨s, rfl, hpc⟩ := hpublish
    exact .inl ⟨s, rfl, hpc, h.publish hpc (ht.block_eq hD ha (by rw [hpc]; decide)) hstep⟩
  · simp only [not_exists, not_and] at hpublish
    exact .inr ⟨hpublish, h.step_other hstep hpublish⟩

/-- **A run** delivers the blocks of some slots. -/
theorem of_reaches {ok : ClusterState → ClusterAction → Prop} (hD : C.Distinct)
    (h : Reaches C.step ok C.start K) (h' : Reaches C.step ok K K') (ha : a ∈ C.addresses)
    (hclient : client ∈ (K.consumer a).clientNames) : ∃ slots, Delivered C a client K K' slots := by
  have ht := Cluster.tracks_of_reaches h.reachable
  refine (h'.invariant (I := fun K' => Tracks C (fun _ _ => True) K' ∧
      ∃ slots, Delivered C a client K K' slots) ⟨ht, [], .refl hclient⟩ ?_).2
  rintro K' act K'' ⟨ht, slots, hd⟩ - hs
  refine ⟨ht.step (fun _ _ _ _ _ => trivial) hs, ?_⟩
  rcases hd.step ht hD ha hs with ⟨s, -, -, hd⟩ | ⟨-, hd⟩
  · exact ⟨_, hd⟩
  · exact ⟨slots, hd⟩

end Delivered

/-- **What is collected reaches every client once.**  In every run of all slots without collisions:
from a state in which a client is registered with a node to any later one, the queue of the client
grows by the data of the blocks of just those slots whose runs return on the node in the meantime,
each once; and the block of such a slot, which is the same on all nodes, has the data of all
contributors. -/
theorem Cluster.delivered_exactly_once {C : Cluster} {K K' : ClusterState} (hD : C.Distinct)
    (h : Reachable C.step C.start K) (h' : Reachable C.step K K') {a client : String}
    (ha : a ∈ C.addresses) (hclient : client ∈ (K.consumer a).clientNames) :
    ∃ slots : List ℕ, slots.Nodup ∧
      (∀ s, s ∈ slots ↔
        ((K'.process a).run s).pc = .returned ∧ ((K.process a).run s).pc ≠ .returned) ∧
      (K'.consumer a).queues (Consumer.clientChannel client) =
        (K.consumer a).queues (Consumer.clientChannel client) ++
          slots.flatMap (fun s => (C.block s).data) ∧
      ∀ s ∈ slots, (C.deployment s).Completes (C.block s) := by
  obtain ⟨slots, hd⟩ := Delivered.of_reaches hD h h' ha hclient
  refine ⟨slots, hd.nodup, hd.mem_iff, hd.queue, fun s _ => ?_⟩
  obtain ⟨v, hv⟩ := (hD s).exists_elects ha
  exact (C.deployment s).completes_block hv

/-- Both runs for the slot 2 return. -/
def bothReturn : List ClusterAction :=
  (relayPairSaves ++ List.replicate 2 (Action.slot "b")).map (Action.inSlot 2)

/-- A client of `b` gets the message that was collected on `a`. -/
theorem Cluster.delivered_exactly_once_twoNodes : ∃ K : ClusterState,
    ⟨900, "x", "a"⟩ ∈ (K.consumer "b").queues "c_ClientChannel" := by
  obtain ⟨K, hK, h⟩ := exists_reaches twoNodes.step (fun _ _ => True) twoNodes.start
    [.createChannel "b" "c"] (fun K => "c" ∈ (K.consumer "b").clientNames ∧
      ((K.process "b").run 2).pc ≠ .returned ∧
      (runWhile twoNodes.step (fun _ _ => True) K bothReturn).any
        (fun K => ((K.process "b").run 2).pc = .returned) = true) (by decide +kernel)
  simp only [decide_eq_true_eq] at h
  obtain ⟨hclient, hbefore, hrun⟩ := h
  obtain ⟨K', hK', hreturned⟩ := exists_reaches twoNodes.step _ K bothReturn _ hrun
  obtain ⟨slots, -, hslots, hqueue, -⟩ := delivered_exactly_once twoNodes_distinct hK hK'
    (a := "b") (by decide) hclient
  refine ⟨K', ?_⟩
  have hmem : 2 ∈ slots := (hslots 2).2 ⟨by simpa using hreturned, hbefore⟩
  have hblock : (twoNodes.block 2).data = [⟨900, "x", "a"⟩] := by decide +kernel
  rw [show "c_ClientChannel" = Consumer.clientChannel "c" from rfl, hqueue]
  refine List.mem_append_right _ (List.mem_flatMap.2 ⟨2, hmem, ?_⟩)
  rw [hblock]
  exact List.mem_singleton_self _

end BlockchainMessaging
