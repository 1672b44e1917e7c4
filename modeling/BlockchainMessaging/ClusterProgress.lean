import BlockchainMessaging.Progress
import BlockchainMessaging.Replication

/-!
# Progress of all slots

Where the threads of a node leave each other's messages and elements alone, no process of a cluster
fails, whatever slots overlap: the calls on the chain are served, because those of the runs are, and
for all other calls a failure would be one of the nodes of a single slot, which have none.  And when
for some slot nothing is left to do, its runs have finished on all nodes, even if others have not.

## Main definitions

* `ClusterState.Whole` — a run does not move while a message for its slot is handled.
* `ClusterState.Quiet` — nothing is left to do for a slot.
* `Cluster.slots_progress` — no process fails, and quiet slots are finished.
-/

namespace BlockchainMessaging

open ConsensusStorage

/-! ## The conditions -/

namespace ClusterState

/-- A run moves when the consensus thread has no message for its slot in hand. -/
def Whole (K : ClusterState) : ClusterAction → Prop
  | .slot a s | .wake a s => (K.process a).header.slot = s → (K.process a).todo = []
  | _ => True

instance (K : ClusterState) : ∀ act, Decidable (K.Whole act)
  | .slot _ _ | .wake _ _ => inferInstanceAs (Decidable (_ → _))
  | .handle _ | .receive _ _ | .createChannel _ _ => .isTrue trivial

/-- The run has a call to make, or sleeps in a wait whose predicate is true.  In the second case the
thread has to be woken up, by a `notify` or by chance: one that has missed its `notify` counts as
able to move all the same. -/
def canMove (C : Cluster) (K : ClusterState) (a : String) (s : ℕ) : Bool :=
  (C.step K (.slot a s)).isSome || (C.step K (.wake a s)).isSome &&
    ((K.process a).run s).pc.sleepsIn.any fun w => w.ready (K.view a s)

/-- No message for the slot is on its way or in hand, and no run for it can go on.  A thread that
sleeps has a false predicate then, so this excludes the states that a lost wake-up leads to. -/
def Quiet (C : Cluster) (K : ClusterState) (s : ℕ) : Prop :=
  ∀ a ∈ C.addresses,
    (∀ b ∈ C.addresses, ∀ m ∈ (K.channel b a).inFlight, m.header.slot ≠ s) ∧
      ((K.process a).header.slot = s → (K.process a).todo = []) ∧ K.canMove C a s = false

instance (C : Cluster) (K : ClusterState) (s : ℕ) : Decidable (K.Quiet C s) :=
  inferInstanceAs (Decidable (∀ a ∈ C.addresses,
    (∀ b ∈ C.addresses, ∀ m ∈ (K.channel b a).inFlight, m.header.slot ≠ s) ∧
      ((K.process a).header.slot = s → (K.process a).todo = []) ∧ K.canMove C a s = false))

end ClusterState

/-- What holds when deliveries are whole. -/
theorem progressing_of_reaches {D : Deployment} {S : Sys} {v : String} (hD : D.Distinct)
    (hv : D.Elects v) (h : Reaches (Sys.step D) WholeDeliveries D.start S) : Progressing D v S :=
  h.invariant (.start D v) fun _ _ _ hi hok hs => hi.step hD hv hok hs

/-- A node with no message for the slot in hand has none. -/
theorem Follows.todo_eq_nil {s : ℕ} {p : Process ℕ} {m : Node} (h : Follows s p m)
    (hf : p.failure = none) (htodo : p.header.slot = s → p.todo = []) : m.todo = [] := by
  by_cases hs : p.header.slot = s
  · rw [(h.mine hf hs).1, htodo hs]
  · exact h.others hf hs

/-- The nodes of a slot may do what the cluster does. -/
theorem ClusterState.permits_of_whole {C : Cluster} {K K' : ClusterState} {act : ClusterAction}
    (hok : K.Whole act) (hf : ∀ a ∈ C.addresses, (K.process a).failure = none)
    (hstep : C.step K act = some K') : K.Permits C WholeDeliveries act := by
  intro s b hact S hp
  cases act with
  | slot a r =>
    cases hact
    have ha := (ClusterState.step_slot_eq_some hstep).1
    exact (hp.node a ha).todo_eq_nil (hf a ha) hok
  | wake a r =>
    cases hact
    have ha := (ClusterState.step_wake_eq_some hstep).1
    exact (hp.node a ha).todo_eq_nil (hf a ha) hok
  | handle a =>
    cases hact
    trivial
  | receive a a' =>
    obtain ⟨m, -, hm⟩ := Option.map_eq_some_iff.1 hact
    cases hm
    trivial
  | createChannel a author => cases hact

/-! ## No process fails -/

/-- A call on the chain is served, because that of the runs is. -/
theorem Chained.served {C : Cluster} {a : String} {K : ClusterState} {c : ChainState ℕ}
    {hC : C.Complete} {ha : a ∈ C.addresses} {ok' : Sys → Action → Prop} (h : Chained C a K c)
    (ht : Tracks C ok' K) (hc : ChainState.Inv (C.chainRuns hC ha) c) {s : ℕ}
    (hok : K.Undisturbed (.slot a s)) : Alike.Served (C.env a s) (K.view a s) := by
  have hview : (K.view a s).chain = c.chain := h.chain.symm
  constructor
  case getByIndex =>
    intro hpc
    have hcall : ((K.process a).run s).pc.chainCall = some .getByIndex := by
      rw [show ((K.process a).run s).pc = .removeGet from hpc]
      rfl
    have hnext := SlotPc.nextCall_of_chainCall hcall (ht.decided ha)
    have hown := hc.onOwn (h.undisturbed hc hok hcall hnext)
    have hrun : (c.run s).call = .getByIndex := by rw [h.run s, Node.chainRun, hnext]
    simp only [ChainState.OnOwn, hrun] at hown
    rw [h.run s] at hown
    rw [C.archive_eq a ha s, hview]
    exact ⟨_, hown.2.2⟩
  case update =>
    intro hpc
    have hcall : ((K.process a).run s).pc.chainCall = some .update := by
      rw [show ((K.process a).run s).pc = .completeUpdate from hpc]
      rfl
    have hnext := SlotPc.nextCall_of_chainCall hcall (ht.decided ha)
    have hown := hc.onOwn (h.undisturbed hc hok hcall hnext)
    have hrun : (c.run s).call = .update := by rw [h.run s, Node.chainRun, hnext]
    simp only [ChainState.OnOwn, hrun] at hown
    obtain ⟨n, hn⟩ := Int.eq_ofNat_of_zero_le hown.1
    have hlt : n < c.chain.length := by
      rw [← hc.length_eq]
      rw [hn, Int.toNat_natCast] at hown
      exact (List.getElem?_eq_some_iff.1 hown.2).1
    have hindex : (K.view a s).context.blockIndex = n := by
      rw [← hn, h.run s]
      rfl
    exact ⟨_, by rw [RedisDB.update, hindex, hview, RedisList.lset_natCast _ hlt]⟩

/-- The state of a cluster in which no process has failed. -/
structure Healthy (C : Cluster) (hC : C.Complete) (K : ClusterState) : Prop where
  tracks : Tracks C WholeDeliveries K
  ledgered : Ledgered C hC K
  failure : ∀ a ∈ C.addresses, (K.process a).failure = none

namespace Healthy

variable {C : Cluster} {hC : C.Complete} {K K' : ClusterState} {a b : String} {s : ℕ}

/-- A node of the slot that makes a step does not fail. -/
theorem node_failure (hD : C.Distinct) {S S' : Sys} {act : Action}
    (hS : Reaches (Sys.step (C.deployment s)) WholeDeliveries (C.deployment s).start S)
    (hok : WholeDeliveries S act) (hstep : Sys.step (C.deployment s) S act = some S')
    (ha : a ∈ C.addresses) : (S'.node a).failure = none := by
  obtain ⟨v, hv⟩ := (hD s).exists_elects ha
  exact (progressing_of_reaches (hD s) hv (hS.tail hok hstep)).failure a ha

/-- A call of a run. -/
theorem failure_slot (h : Healthy C hC K) (hD : C.Distinct) (hwhole : K.Whole (.slot a s))
    (hundisturbed : K.Undisturbed (.slot a s)) {p : Process ℕ} (ha : a ∈ C.addresses)
    (hp : (K.process a).step (C.env a) (.slot s) = some p) : p.failure = none := by
  have hserved : Alike.Served (C.env a s) (K.view a s) := (h.ledgered a ha).elim fun c hr hc =>
    hc.served h.tracks (ChainState.inv_of_reaches hr) hundisturbed
  refine (h.tracks.tracked s).elim fun S hS hproj => ?_
  have hf := h.failure a ha
  have hfollows := hproj.node a ha
  have halike : Alike s (K.view a s) (S.node a) := hfollows.alike hf
  have hsound := sound_of_reaches hS
  have he := hsound.equipped a ha
  have hmserved : Alike.Served (C.env a s) (S.node a) :=
    ⟨fun hpc => he.getByIndex_eq ha hpc, fun hpc => ⟨_, he.update_eq hpc _⟩⟩
  have hon := (hsound.voted.inspected.ledger.base.known a ha).onSlot
  obtain ⟨-, hblocked, -, -, -, -, -, -, hfailure⟩ := Process.view_slot hp
  have hmove := halike.slotMove (h.tracks.tied ha hS) (C.env_slot a ha s) (C.pending_slot a ha s)
    (halike.toSameRun.onSlot hon) hserved hmserved
  have hmf : (S.node a).failure = none := halike.failure.trans hf
  have hmb : (S.node a).pc.blocked = false := by
    rw [halike.pc]
    exact hblocked
  have hmodel : Sys.step (C.deployment s) S (.slot a) =
      some ((S.setNode a (slotMove (C.env a s) (S.node a)).1).publish a
        (slotMove (C.env a s) (S.node a)).2) := by
    simp [Sys.step, slotStep, hmf, hmb, ha, Cluster.deployment]
  have hmwhole : WholeDeliveries S (.slot a) := hfollows.todo_eq_nil hf hwhole
  have hnode := node_failure hD hS hmwhole hmodel ha
  rw [hfailure]
  refine hmove.failure.symm.trans ?_
  simpa using hnode

/-- A call of a consensus thread. -/
theorem failure_handle (h : Healthy C hC K) (hD : C.Distinct)
    {p : Process ℕ} (ha : a ∈ C.addresses) (hp : (K.process a).step (C.env a) .handle = some p) :
    p.failure = none := by
  refine (h.tracks.tracked (K.process a).header.slot).elim fun S hS hproj => ?_
  have hf := h.failure a ha
  have hfollows := hproj.node a ha
  have halike := hfollows.alike hf
  have ht := h.tracks.tied ha hS
  obtain ⟨-, -, op, rest, htodo, hview⟩ := Process.view_handle hp
  obtain ⟨hmtodo, hmheader⟩ := hfollows.mine hf rfl
  obtain ⟨hexec, -⟩ := Alike.exec
    (n := { (K.process a).view ((K.process a).run (K.process a).header.slot) with todo := rest })
    (m := { S.node a with todo := rest }) { halike with }
    ⟨ht.left, ht.right, ht.leftPointers, ht.rightPointers⟩ (hmheader (by simp [htodo])) rfl rfl op
  have hmf : (S.node a).failure = none := halike.failure.trans hf
  have hmodel : Sys.step (C.deployment (K.process a).header.slot) S (.handle a) =
      some (S.setNode a (op.exec { S.node a with todo := rest })) := by
    simp [Sys.step, handlerStep, hmtodo, htodo, hmf, ha, Cluster.deployment]
  have hmwhole : WholeDeliveries S (.handle a) := trivial
  have hnode := node_failure hD hS hmwhole hmodel ha
  rw [← hview] at hexec
  refine hexec.failure.symm.trans ?_
  simpa using hnode

/-- The receipt of a message: it can be deserialized. -/
theorem failure_receive (h : Healthy C hC K) {m : ConsensusMessage}
    {rest : List ConsensusMessage} {p : Process ℕ}
    (hchannel : (K.channel b a).inFlight = m :: rest)
    (hp : (K.process a).step (C.env a) (.receive m) = some p) : p.failure = none := by
  refine (h.tracks.tracked m.header.slot).elim fun S hS hproj => ?_
  have hmem : m ∈ (S.channel b a).sent := by
    refine List.mem_append_right _ ?_
    rw [hproj.channel, Channel.ofSlot, hchannel]
    simp
  have hwf := ((sound_of_reaches hS).voted.inspected.ledger.base.mail b a m hmem).wellFormed
  obtain ⟨n, hn, rfl⟩ := Option.map_eq_some_iff.1 hp
  obtain ⟨hf, -, hmsg⟩ := receiveStep_eq_some hn
  obtain ⟨todo, htodo⟩ := Option.ne_none_iff_exists'.1 hwf
  rw [htodo] at hmsg
  rw [hmsg]
  exact hf

/-- **One step** keeps all processes alive. -/
theorem step (h : Healthy C hC K) (hD : C.Distinct) {act : ClusterAction} (hwhole : K.Whole act)
    (hundisturbed : K.Undisturbed act) (hstep : C.step K act = some K') : Healthy C hC K' := by
  refine ⟨h.tracks.step (ClusterState.permits_of_whole hwhole h.failure hstep) hstep,
    h.ledgered.step h.tracks hD hundisturbed hstep, fun x hx => ?_⟩
  have hset : ∀ {a : String} {p : Process ℕ}, p.failure = none →
      ((K.setProcess a p).process x).failure = none := by
    intro a p hp
    by_cases hxa : x = a
    · simpa [hxa] using hp
    · simpa [hxa] using h.failure x hx
  cases act with
  | slot a s =>
    obtain ⟨ha, p, hp, rfl⟩ := ClusterState.step_slot_eq_some hstep
    simpa using hset (h.failure_slot hD hwhole hundisturbed ha hp)
  | wake a s =>
    obtain ⟨ha, p, hp, rfl⟩ := ClusterState.step_wake_eq_some hstep
    obtain ⟨w, -, rfl⟩ := Process.step_wake_eq_some hp
    exact hset (h.failure a ha)
  | handle a =>
    obtain ⟨ha, p, hp, rfl⟩ := ClusterState.step_handle_eq_some hstep
    exact hset (h.failure_handle hD ha hp)
  | receive a b =>
    obtain ⟨ha, m, rest, p, hchannel, hp, rfl⟩ := ClusterState.step_receive_eq_some hstep
    exact hset (h.failure_receive hchannel hp)
  | createChannel a author =>
    obtain ⟨-, rfl⟩ := ClusterState.step_createChannel_eq_some hstep
    exact h.failure x hx

theorem start (C : Cluster) (hC : C.Complete) : Healthy C hC C.start :=
  ⟨.start C _, .start C hC, fun _ _ => rfl⟩

end Healthy

/-! ## Quiet slots -/

/-- What a run waits for, it finds on both nodes or on none. -/
theorem Alike.ready {s : ℕ} {n m : Node} (h : Alike s n m) (ht : Alike.Tied s n m)
    (hslot : n.context.header.slot = s) (h28 : n.pc.rank ≤ 28) (w : Waiter) :
    w.ready m = w.ready n := by
  have hanswer := (h.predicate hslot w).1
  cases w with
  | inspection | election | contributorsData => simp only [Waiter.ready, hanswer]
  | broadcast =>
    rcases h.find_eq ht.left ht.right h28 with ⟨hp, hq⟩ | ⟨p, q, hp, hq, hfind, hfind'⟩
    · simp only [Waiter.ready, hp, hq, Option.any_none, Bool.false_and]
    · simp only [Waiter.ready, hp, hq, hanswer, Option.any_some,
        h.storage.loadSynchronized_eq hfind hfind']

/-- The run can go on if and only if the node of its slot can. -/
theorem Healthy.canMove_eq {C : Cluster} {hC : C.Complete} {K : ClusterState} {S : Sys} {a : String}
    {s : ℕ} (h : Healthy C hC K) (ha : a ∈ C.addresses)
    (hS : Reaches (Sys.step (C.deployment s)) WholeDeliveries (C.deployment s).start S)
    (hproj : Projects C s K S) : Sys.canMove (C.deployment s) S a = K.canMove C a s := by
  have hf := h.failure a ha
  have halike : Alike s (K.view a s) (S.node a) := (hproj.node a ha).alike hf
  have hpc : (S.node a).pc = ((K.process a).run s).pc := halike.pc
  have hmf : (S.node a).failure = none := halike.failure.trans hf
  have hslot : (Sys.step (C.deployment s) S (.slot a)).isSome =
      (C.step K (.slot a s)).isSome := by
    cases hblocked : ((K.process a).run s).pc.blocked <;>
      simp [Sys.step, Cluster.step, ClusterState.step, Cluster.deployment, ha, Process.step,
        slotStep, Process.view, hpc, hmf, hf, hblocked]
  have hwake : (Sys.step (C.deployment s) S (.wake a)).isSome =
      (C.step K (.wake a s)).isSome := by
    simp only [Sys.step, Cluster.step, ClusterState.step, Cluster.deployment, ha, if_true,
      Process.step, wakeStep, Process.view, hpc, hmf, hf, Option.isSome_map]
    split <;> rfl
  have hready : (S.node a).pc.sleepsIn.any (fun w => w.ready (S.node a)) =
      ((K.process a).run s).pc.sleepsIn.any fun w => w.ready (K.view a s) := by
    rw [hpc]
    cases hsleep : ((K.process a).run s).pc.sleepsIn with
    | none => rfl
    | some w =>
      have hrank : ∀ pc : SlotPc, pc.sleepsIn.isSome = true → 4 ≤ pc.rank ∧ pc.rank ≤ 28 := by
        decide +kernel
      obtain ⟨h4, h28⟩ := hrank _ (by rw [hsleep]; rfl)
      have hon := h.tracks.onSlot ha s
      exact halike.ready (h.tracks.tied ha hS) ((hon.header h4).trans (C.pending_slot a ha s)) h28 w
  rw [Sys.canMove, ClusterState.canMove, hslot, hwake, hready]

/-- Where nothing is left to do for a slot, its nodes are quiet. -/
theorem ClusterState.Quiet.projects {C : Cluster} {hC : C.Complete} {K : ClusterState} {S : Sys}
    {s : ℕ} (hq : K.Quiet C s) (h : Healthy C hC K)
    (hS : Reaches (Sys.step (C.deployment s)) WholeDeliveries (C.deployment s).start S)
    (hproj : Projects C s K S) : BlockchainMessaging.Quiet (C.deployment s) S := by
  intro a ha
  obtain ⟨hchannel, htodo, hmove⟩ := hq a ha
  refine ⟨fun b hb => ?_, (hproj.node a ha).todo_eq_nil (h.failure a ha) htodo, ?_⟩
  · rw [hproj.channel, Channel.ofSlot, List.filter_eq_nil_iff]
    exact fun m hm => by simpa using hchannel b hb m hm
  · rw [h.canMove_eq ha hS hproj, hmove]

/-- A run that keeps to the conditions keeps all processes alive. -/
theorem healthy_of_reaches {C : Cluster} {K : ClusterState} (hD : C.Distinct) (hC : C.Complete)
    (h : Reaches C.step (fun K act => K.Whole act ∧ K.Undisturbed act) C.start K) :
    Healthy C hC K :=
  h.invariant (.start C hC) fun _ _ _ hi hok hs => hi.step hD hok.1 hok.2 hs

/-- A slot for which nothing is left to do has finished. -/
theorem Healthy.finished {C : Cluster} {hC : C.Complete} {K : ClusterState} {a : String} {s : ℕ}
    (h : Healthy C hC K) (hD : C.Distinct) (ha : a ∈ C.addresses) (hq : K.Quiet C s) :
    ((K.process a).run s).pc.finished := by
  refine (h.tracks.tracked s).elim fun S hS hproj => ?_
  obtain ⟨v, hv⟩ := (hD s).exists_elects ha
  have hp := progressing_of_reaches (hD s) hv hS
  have hfinished := (hq.projects h hS hproj).finished hp hv ha
  rwa [(hproj.node a ha).run.pc] at hfinished

/-- **Progress of all slots.**  In every run of all slots without collisions in which no run moves
while a message for its slot is handled, and none disturbs the elements of others: no process
fails, and a slot for which nothing is left to do, as `Quiet` says, has finished on all nodes,
whatever the other slots are doing. -/
theorem Cluster.slots_progress {C : Cluster} {K : ClusterState} (hD : C.Distinct) (hC : C.Complete)
    (h : Reaches C.step (fun K act => K.Whole act ∧ K.Undisturbed act) C.start K) {a : String}
    (ha : a ∈ C.addresses) : (K.process a).failure = none ∧
      ∀ s, K.Quiet C s → ((K.process a).run s).pc.finished := by
  have hinv := healthy_of_reaches hD hC h
  exact ⟨hinv.failure a ha, fun s hq => hinv.finished hD ha hq⟩

set_option maxRecDepth 4000 in
theorem Cluster.slots_progress_twoNodes : ∃ K : ClusterState,
    (K.process "a").failure = none ∧ ((K.process "a").run 2).pc.finished ∧
      ¬ ((K.process "a").run 3).pc.finished := by
  obtain ⟨K, hK, h⟩ := exists_reaches twoNodes.step (fun K act => K.Whole act ∧ K.Undisturbed act)
    twoNodes.start (List.replicate 6 (.slot "a" 3) ++ List.replicate 3 (.slot "b" 3) ++
      (relayPairSaves ++ List.replicate 2 (Action.slot "a") ++
        List.replicate 2 (Action.slot "b")).map (Action.inSlot 2))
    (fun K => K.Quiet twoNodes 2 ∧ ¬ ((K.process "a").run 3).pc.finished) (by decide +kernel)
  simp only [decide_eq_true_eq] at h
  obtain ⟨hfailure, hquiet⟩ := slots_progress twoNodes_distinct twoNodes_complete hK (a := "a")
    (by decide)
  exact ⟨K, hfailure, hquiet 2 h.1, h.2⟩

end BlockchainMessaging
