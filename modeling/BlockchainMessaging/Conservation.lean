import BlockchainMessaging.Lib.Regroup
import BlockchainMessaging.ClusterProgress
import BlockchainMessaging.Delivery
import BlockchainMessaging.Service

/-!
# No message is lost

From the thread that receives the messages of the clients of one node to the queue of a client of
another one, a message is in one place at a time: not saved, in a queued block, in the block of a
run, or in the queue.  A client that was registered early gets all messages of all nodes, but for
those that are still on their way.

## Main definitions

* `ServiceState.buffered`, `ServiceState.inSlots` — where a message is before it is published.
* `Cluster.nothing_lost` — every message is in one place.
* `Cluster.all_delivered` — when everything is over, every client has got all messages.
-/

namespace BlockchainMessaging

namespace ServiceState

/-- The messages in the buffer of `a`, saved or not. -/
def buffered (L : ServiceState) (a : String) : List Message :=
  (L.buffer a).buffer.messages ++ (L.buffer a).buffer.blocks.flatMap Block.data

/-- The messages that runs of `a` have popped, for slots other than these. -/
def inSlots (L : ServiceState) (slots : List ℕ) (a : String) : List Message :=
  ((L.popped a).filter (· ∉ slots)).flatMap fun s => (L.taking a s).block.data

end ServiceState

namespace Supplied

variable {C : Cluster} {L : ServiceState} {slots : List ℕ}

/-- What was pushed is in the buffer, or was popped. -/
theorem pushed_perm (h : Supplied L) (a : String) : (L.buffer a).pushed.Perm
    (L.buffered a ++ (L.popped a).flatMap fun s => (L.taking a s).block.data) := by
  have hpushed := (h.buffer a).pushed
  have hblock : ∀ t : Taking, t.popped.toList.flatMap Block.data = t.block.data := by
    rintro ⟨_ | b, hq, now⟩
    · rfl
    · simp [Taking.block]
  rw [BufferRuns.messages, h.blocks a, List.flatMap_assoc] at hpushed
  simp only [hblock] at hpushed
  exact hpushed

/-- **The accounts.**  What was pushed to all nodes is what they have popped for these slots, slot
by slot, and the rest. -/
theorem pushed_perm_slots (h : Supplied L) (hslots : slots.Nodup) :
    (C.addresses.flatMap fun a => (L.buffer a).pushed).Perm
      ((slots.flatMap fun s => C.addresses.flatMap fun a => (L.taking a s).block.data) ++
        C.addresses.flatMap fun a => L.buffered a ++ L.inSlots slots a) := by
  have hcolumns := perm_columns (d := fun a s => (L.taking a s).block.data) C.addresses
    (fun a _ => h.nodup a) hslots fun a _ s _ hs => by
      rw [h.idle a s hs]
      rfl
  have hrows := List.Perm.flatMap_left C.addresses fun a _ => h.pushed_perm a
  refine hrows.trans ((List.flatMap_append_perm _ _ _).symm.trans ?_)
  refine (hcolumns.append_left _).trans ?_
  refine List.perm_append_comm.trans ?_
  rw [List.append_assoc]
  refine List.Perm.append_left _ (List.perm_append_comm.trans ?_)
  exact List.flatMap_append_perm _ _ _

/-- What a client receives is what was popped for the slots of the blocks. -/
theorem received_perm (h : Supplied L) (hD : C.Distinct) {b : String} (hb : b ∈ C.addresses) :
    (slots.flatMap fun s => ((C.popping L.taking h.slot_eq).block s).data).Perm
      (slots.flatMap fun s => C.addresses.flatMap fun a => (L.taking a s).block.data) := by
  refine List.Perm.flatMap_left slots fun s _ => ?_
  have hdistinct : ((C.popping L.taking h.slot_eq).deployment s).Distinct := hD s
  obtain ⟨v, hv⟩ := hdistinct.exists_elects hb
  have hperm := (((C.popping L.taking h.slot_eq).deployment s).completes_block hv).perm
  rw [Deployment.pendingData_eq] at hperm
  exact hperm

end Supplied

/-- **Nothing is lost, and nothing comes twice.**  In every run of the system without collisions, in
which what is popped belongs to the slot of the run: since a client was registered with `b`, it has
got just the messages that were pushed to all nodes, but for those that are in a buffer or in the
block of a slot which has not returned on `b` since then. -/
theorem Cluster.nothing_lost {C : Cluster} {L₀ L : ServiceState} (hD : C.Distinct)
    (h₀ : Reaches C.serve ServiceState.Punctual C.opening L₀)
    (h : Reaches C.serve ServiceState.Punctual L₀ L) {b client : String} (hb : b ∈ C.addresses)
    (hclient : client ∈ (L₀.cluster.consumer b).clientNames) :
    ∃ slots received, (∀ s, s ∈ slots ↔ ((L.cluster.process b).run s).pc = .returned ∧
        ((L₀.cluster.process b).run s).pc ≠ .returned) ∧
      (L.cluster.consumer b).queues (Consumer.clientChannel client) =
        (L₀.cluster.consumer b).queues (Consumer.clientChannel client) ++ received ∧
      (C.addresses.flatMap fun a => (L.buffer a).pushed).Perm
        (received ++ C.addresses.flatMap fun a => L.buffered a ++ L.inSlots slots a) := by
  obtain ⟨hs, hbefore, hsince⟩ := Cluster.supplied_of_reaches (fun _ _ => True)
    (fun _ _ => id) (fun _ _ _ => trivial) h₀ h
  have hdistinct : (C.popping L.taking hs.slot_eq).Distinct := hD
  obtain ⟨slots, hd⟩ := Delivered.of_reaches hdistinct hbefore hsince hb hclient
  refine ⟨slots, _, hd.mem_iff, hd.queue, ?_⟩
  refine (hs.pushed_perm_slots hd.nodup).trans ?_
  exact (hs.received_perm hD hb).symm.append_right _

/-- These steps of the nodes of the slot 2, in the system. -/
def moves (acts : List Action) : List ServiceAction := acts.map fun act => .move (act.inSlot 2)

/-- A client sends a message to `a` just before the slot 2 begins, and `b` publishes the block. -/
def messageArrives : List ServiceAction :=
  .push "a" ⟨900, "x", "ann"⟩ ::
    moves (relayPairSaves.take 2) ++ [.save "a" 2 1000, .pop "a" 2 1000] ++
    moves ((relayPairSaves.drop 2).take 7) ++ [.save "b" 2 1000, .pop "b" 2 1000] ++
    moves (relayPairSaves.drop 9 ++ List.replicate 2 (.slot "b"))

set_option maxRecDepth 4000 in
theorem Cluster.nothing_lost_twoNodes : ∃ L : ServiceState,
    (L.cluster.consumer "b").queues "c_ClientChannel" = [⟨900, "x", "ann"⟩] := by
  obtain ⟨L₀, h₀, hL₀⟩ := exists_reaches twoNodes.serve ServiceState.Punctual twoNodes.opening
    [.move (.createChannel "b" "c")]
    (fun L₀ => "c" ∈ (L₀.cluster.consumer "b").clientNames ∧
      (L₀.cluster.consumer "b").queues "c_ClientChannel" = [] ∧
      ((L₀.cluster.process "b").run 2).pc ≠ .returned ∧
      (runWhile twoNodes.serve ServiceState.Punctual L₀ messageArrives).any (fun L =>
        (L.buffer "a").pushed = [⟨900, "x", "ann"⟩] ∧ (L.buffer "b").pushed = [] ∧
        L.buffered "a" = [] ∧ L.buffered "b" = [] ∧ L.popped "a" = [2] ∧ L.popped "b" = [2] ∧
        ((L.cluster.process "b").run 2).pc = .returned) = true) (by decide +kernel)
  simp only [decide_eq_true_eq] at hL₀
  obtain ⟨hclient, hempty, hbefore, hrun⟩ := hL₀
  obtain ⟨L, h, hL⟩ := exists_reaches twoNodes.serve _ L₀ messageArrives _ hrun
  simp only [decide_eq_true_eq] at hL
  obtain ⟨ha, hb, ha', hb', hpopped, hpopped', hreturned⟩ := hL
  obtain ⟨slots, received, hslots, hqueue, hperm⟩ :=
    nothing_lost twoNodes_distinct h₀ h (b := "b") (by decide) hclient
  have hmem : 2 ∈ slots := (hslots 2).2 ⟨hreturned, hbefore⟩
  have haddresses : twoNodes.addresses = ["a", "b"] := rfl
  simp [haddresses, ha, hb, ha', hb', ServiceState.inSlots, hpopped, hpopped', hmem] at hperm
  refine ⟨L, ?_⟩
  rw [show "c_ClientChannel" = Consumer.clientChannel "c" from rfl, hqueue, hperm,
    show Consumer.clientChannel "c" = "c_ClientChannel" from rfl, hempty]
  rfl

/-! ## When everything is over -/

namespace ServiceState

/-- The conditions for progress, and that what is popped belongs to the slot of the run. -/
def Orderly (L : ServiceState) : ServiceAction → Prop
  | .move act => L.cluster.Whole act ∧ L.cluster.Undisturbed act
  | act => L.Punctual act

instance (L : ServiceState) (act : ServiceAction) : Decidable (L.Orderly act) :=
  match act with
  | .push a message => inferInstanceAs (Decidable (L.Punctual (.push a message)))
  | .save a s now => inferInstanceAs (Decidable (L.Punctual (.save a s now)))
  | .pop a s now => inferInstanceAs (Decidable (L.Punctual (.pop a s now)))
  | .move _ => inferInstanceAs (Decidable (_ ∧ _))

theorem Orderly.punctual {L : ServiceState} {act : ServiceAction} (h : L.Orderly act) :
    L.Punctual act := by
  cases act with
  | move act => trivial
  | _ => exact h

end ServiceState

/-- A run makes its call unless it is blocked, whatever it takes from outside. -/
theorem isSome_slotStep (E : SlotEnv) (n : Node) :
    (slotStep E n).isSome = !(n.failure.isSome || n.pc.blocked) := by
  rw [slotStep]
  cases n.failure.isSome || n.pc.blocked <;> rfl

theorem ClusterState.isSome_step_slot (addresses : List String) (env : String → ℕ → SlotEnv)
    (K : ClusterState) (a : String) (s : ℕ) : (K.step addresses env (.slot a s)).isSome =
      (decide (a ∈ addresses) &&
        !((K.process a).failure.isSome || ((K.process a).run s).pc.blocked)) := by
  by_cases ha : a ∈ addresses
  · simp only [step, ha, if_true, decide_true, Bool.true_and, Process.step, Option.isSome_map,
      isSome_slotStep]
    rfl
  · simp [step, ha]

/-- So what is popped does not matter. -/
theorem Cluster.quiet_popping {C : Cluster} {taking : String → ℕ → Taking}
    {hslot : ∀ a s, (taking a s).block.slot = s} {K : ClusterState} {s : ℕ} (h : K.Quiet C s) :
    K.Quiet (C.popping taking hslot) s := by
  intro a ha
  obtain ⟨hchannel, htodo, hmove⟩ := h a ha
  refine ⟨hchannel, htodo, ?_⟩
  rw [← hmove]
  simp only [ClusterState.canMove, step, ClusterState.isSome_step_slot]
  rfl

namespace Healthy

variable {C : Cluster} {hC : C.Complete} {K : ClusterState} {a : String} {s : ℕ}

/-- Where nothing is left to do, no run is about to make a call. -/
theorem blocked (h : Healthy C hC K) (ha : a ∈ C.addresses) (hq : K.Quiet C s) :
    ((K.process a).run s).pc.blocked = true := by
  have hmove := (hq a ha).2.2
  by_contra hblocked
  simp [ClusterState.canMove, Cluster.step, ClusterState.isSome_step_slot, ha, h.failure a ha,
    hblocked] at hmove

/-- For a slot that has ended without a block, nobody has popped anything. -/
theorem popped_eq_none (h : Healthy C hC K) (ha : a ∈ C.addresses)
    (hpc : ((K.process a).run s).pc = .stopped) :
    ∀ b ∈ C.addresses, (C.env b s).popped = none := by
  intro b hb
  have hdecided := h.tracks.decided (s := s) ha (by simp [hpc, SlotPc.rank])
  have hnot : C.contributes s ≠ true := by
    rw [Ne, hdecided, hpc]
    decide
  by_contra hpopped
  refine hnot (Cluster.contributes_iff.2 ⟨b, hb, ?_⟩)
  rw [SlotEnv.isContributing, Option.isSome_iff_ne_none]
  exact hpopped

end Healthy

namespace Supplied

variable {C : Cluster} {L : ServiceState} {a b : String} {slots : List ℕ}

/-- Without a run between its save and its pop there is no queued block. -/
theorem blocks_eq_nil (h : Supplied L) (hbetween : ∀ s, (L.buffer a).call s ≠ .pop) :
    (L.buffer a).buffer.blocks = [] := by
  obtain ⟨between, hmem, hle⟩ := (h.buffer a).queued
  have hempty : between = ∅ := Finset.eq_empty_of_forall_notMem fun s hs =>
    hbetween s ((hmem s).1 hs)
  rw [hempty, Finset.card_empty, Nat.le_zero] at hle
  exact List.eq_nil_of_length_eq_zero hle

/-- A run that has called `save` and is over has popped. -/
theorem call_ne_pop (h : Supplied L) {hC : (C.popping L.taking h.slot_eq).Complete}
    (hhealthy : Healthy (C.popping L.taking h.slot_eq) hC L.cluster) (ha : a ∈ C.addresses)
    (hquiet : ∀ s, (L.buffer a).call s ≠ .save → L.cluster.Quiet C s) (s : ℕ) :
    (L.buffer a).call s ≠ .pop := by
  intro hcall
  have hblocked := hhealthy.blocked (s := s) ha
    (Cluster.quiet_popping (hquiet s (by rw [hcall]; decide)))
  have hrank : 3 ≤ ((L.cluster.process a).run s).pc.rank := by
    have hall : ∀ pc : SlotPc, pc.blocked = true → 3 ≤ pc.rank := by decide +kernel
    exact hall _ hblocked
  have hdone := (h.mem_popped a s).1 (h.done a s hrank)
  rw [hcall] at hdone
  cases hdone

/-- What was popped for slots that have ended without a block is nothing. -/
theorem inSlots_eq_nil (h : Supplied L) {hC : (C.popping L.taking h.slot_eq).Complete}
    (hhealthy : Healthy (C.popping L.taking h.slot_eq) hC L.cluster) (ha : a ∈ C.addresses)
    (hb : b ∈ C.addresses)
    (hstopped : ∀ s ∈ L.popped a, s ∉ slots → ((L.cluster.process b).run s).pc = .stopped) :
    L.inSlots slots a = [] := by
  rw [ServiceState.inSlots, List.flatMap_eq_nil_iff]
  intro s hs
  rw [List.mem_filter, decide_eq_true_eq] at hs
  have hnone := hhealthy.popped_eq_none hb (hstopped s hs.1 hs.2) a ha
  have hpopped : (L.taking a s).popped = none := hnone
  rw [Taking.block, hpopped]
  rfl

/-- When nothing is left to do for the slots whose runs have called `save`, a client that has got
nothing before has got all that was saved. -/
theorem pushed_perm_quiet (h : Supplied L) (hD : C.Distinct) (hC : C.Complete) {client : String}
    {K₀ : ClusterState} (hhealthy : Healthy (C.popping L.taking h.slot_eq) hC L.cluster)
    (hd : Delivered (C.popping L.taking h.slot_eq) b client K₀ L.cluster slots)
    (hb : b ∈ C.addresses) (hfresh : ∀ s, ((K₀.process b).run s).pc ≠ .returned)
    (hquiet : ∀ a ∈ C.addresses, ∀ s, (L.buffer a).call s ≠ .save → L.cluster.Quiet C s) :
    (C.addresses.flatMap fun a => (L.buffer a).pushed).Perm
      ((slots.flatMap fun s => ((C.popping L.taking h.slot_eq).block s).data) ++
        C.addresses.flatMap fun a => (L.buffer a).buffer.messages) := by
  refine (h.pushed_perm_slots hd.nodup).trans
    (((h.received_perm hD hb).symm.append_right _).trans ?_)
  refine List.Perm.of_eq (congrArg _ (List.flatMap_congr fun a ha => ?_))
  have hblocks := h.blocks_eq_nil (h.call_ne_pop hhealthy ha (hquiet a ha))
  have hstopped : ∀ s ∈ L.popped a, s ∉ slots →
      ((L.cluster.process b).run s).pc = .stopped := by
    intro s hpopped hnot
    have hcall := (h.mem_popped a s).1 hpopped
    have hfinished := hhealthy.finished hD hb
      (Cluster.quiet_popping (hquiet a ha s (by rw [hcall]; decide)))
    exact hfinished.resolve_left fun hpc => hnot ((hd.mem_iff s).2 ⟨hpc, hfresh s⟩)
  rw [h.inSlots_eq_nil hhealthy ha hb hstopped, ServiceState.buffered, hblocks]
  simp

end Supplied

/-- **When everything is over, everything has arrived.**  In every run of the system without
collisions that is orderly: once nothing is left to do, as `Quiet` says, for the slots whose runs
have called `save`, a client that was registered with `b` before any run returned there has got just
the messages that were pushed to all nodes, but for those that no run has saved. -/
theorem Cluster.all_delivered {C : Cluster} {L₀ L : ServiceState} (hD : C.Distinct)
    (hC : C.Complete) (h₀ : Reaches C.serve ServiceState.Orderly C.opening L₀)
    (h : Reaches C.serve ServiceState.Orderly L₀ L) {b client : String} (hb : b ∈ C.addresses)
    (hclient : client ∈ (L₀.cluster.consumer b).clientNames)
    (hfresh : ∀ s, ((L₀.cluster.process b).run s).pc ≠ .returned)
    (hquiet : ∀ a ∈ C.addresses, ∀ s, (L.buffer a).call s ≠ .save → L.cluster.Quiet C s) :
    ∃ received, (L.cluster.consumer b).queues (Consumer.clientChannel client) =
        (L₀.cluster.consumer b).queues (Consumer.clientChannel client) ++ received ∧
      (C.addresses.flatMap fun a => (L.buffer a).pushed).Perm
        (received ++ C.addresses.flatMap fun a => (L.buffer a).buffer.messages) := by
  obtain ⟨hs, hbefore, hsince⟩ := Cluster.supplied_of_reaches
    (fun K act => K.Whole act ∧ K.Undisturbed act) (fun _ _ => ServiceState.Orderly.punctual)
    (fun _ _ => id) h₀ h
  have hdistinct : (C.popping L.taking hs.slot_eq).Distinct := hD
  have hcomplete : (C.popping L.taking hs.slot_eq).Complete := hC
  have hhealthy := healthy_of_reaches hdistinct hcomplete (hbefore.trans hsince)
  obtain ⟨slots, hd⟩ := Delivered.of_reaches hdistinct hbefore hsince hb hclient
  exact ⟨_, hd.queue, hs.pushed_perm_quiet hD hC hhealthy hd hb hfresh hquiet⟩

/-- The runs for the slot 2 are the only ones that save. -/
def ServiceAction.inSlotTwo : ServiceAction → Bool
  | .save _ s _ => s = 2
  | _ => true

/-- So all others have not saved. -/
theorem Cluster.call_eq_save {C : Cluster} {L : ServiceState}
    (h : Reaches C.serve (fun L act => L.Orderly act ∧ act.inSlotTwo = true) C.opening L)
    (a : String) {s : ℕ} (hs : s ≠ 2) : (L.buffer a).call s = .save := by
  refine h.invariant (I := fun L => ∀ a, (L.buffer a).call s = .save) (fun _ => rfl) ?_ a
  intro L act L' hcall hok hstep x
  cases act with
  | push b message =>
    obtain ⟨-, _, hb, rfl⟩ := serve_push_eq_some hstep
    cases hb
    by_cases hx : x = b
    · simpa [ServiceState.setBuffer, hx] using hcall b
    · simpa [ServiceState.setBuffer, hx] using hcall x
  | save b r now =>
    obtain ⟨_, hb, rfl⟩ := serve_save_eq_some hstep
    obtain ⟨-, rfl⟩ := BufferRuns.step_save_eq_some hb
    have hr : s ≠ r := fun heq => hs (heq.trans (by simpa [ServiceAction.inSlotTwo] using hok.2))
    by_cases hx : x = b
    · simpa [ServiceState.setBuffer, hx, hr] using hcall b
    · simpa [ServiceState.setBuffer, hx] using hcall x
  | pop b r now =>
    obtain ⟨-, -, _, hb, rfl⟩ := serve_pop_eq_some hstep
    obtain ⟨hpop, rfl⟩ := BufferRuns.step_pop_eq_some hb
    have hr : s ≠ r := by
      rintro rfl
      rw [hcall b] at hpop
      cases hpop
    by_cases hx : x = b
    · simpa [ServiceState.setBuffer, hx, hr] using hcall b
    · simpa [ServiceState.setBuffer, hx] using hcall x
  | move act =>
    obtain ⟨-, K, -, rfl⟩ := serve_move_eq_some hstep
    exact hcall x

set_option maxRecDepth 4000 in
theorem Cluster.all_delivered_twoNodes : ∃ L : ServiceState,
    (L.cluster.consumer "b").queues "c_ClientChannel" = [⟨900, "x", "ann"⟩] := by
  obtain ⟨L₀, h₀, hL₀⟩ := exists_reaches twoNodes.serve
    (fun L act => L.Orderly act ∧ act.inSlotTwo = true) twoNodes.opening
    [.move (.createChannel "b" "c")]
    (fun L₀ => "c" ∈ (L₀.cluster.consumer "b").clientNames ∧
      (L₀.cluster.consumer "b").queues "c_ClientChannel" = [] ∧ L₀.popped "b" = [] ∧
      (runWhile twoNodes.serve (fun L act => L.Orderly act ∧ act.inSlotTwo = true) L₀
        (messageArrives ++ moves (List.replicate 2 (.slot "a")))).any (fun L =>
          (L.buffer "a").pushed = [⟨900, "x", "ann"⟩] ∧ (L.buffer "b").pushed = [] ∧
          (L.buffer "a").buffer.messages = [] ∧ (L.buffer "b").buffer.messages = [] ∧
          L.cluster.Quiet twoNodes 2) = true) (by decide +kernel)
  simp only [decide_eq_true_eq] at hL₀
  obtain ⟨hclient, hempty, hpopped, hrun⟩ := hL₀
  obtain ⟨L, h, hL⟩ := exists_reaches twoNodes.serve _ L₀ _ _ hrun
  simp only [decide_eq_true_eq] at hL
  obtain ⟨ha, hb, ha', hb', hquiet⟩ := hL
  have hsave := fun a s (hs : s ≠ 2) => call_eq_save (h₀.trans h) a hs
  have h₀ : Reaches twoNodes.serve ServiceState.Orderly twoNodes.opening L₀ :=
    h₀.mono fun _ _ => And.left
  have h : Reaches twoNodes.serve ServiceState.Orderly L₀ L := h.mono fun _ _ => And.left
  obtain ⟨hs, -⟩ := supplied_of_reaches (fun _ _ => True)
    (fun _ _ => ServiceState.Orderly.punctual) (fun _ _ _ => trivial) h₀ .refl
  obtain ⟨received, hqueue, hperm⟩ := all_delivered twoNodes_distinct twoNodes_complete h₀ h
    (b := "b") (by decide) hclient (fun s hreturned => by
      have hmem := hs.done "b" s (by simp [hreturned, SlotPc.rank])
      simp [hpopped] at hmem) fun a _ s hcall => by
        by_cases htwo : s = 2
        · exact htwo ▸ hquiet
        · exact absurd (hsave a s htwo) hcall
  have haddresses : twoNodes.addresses = ["a", "b"] := rfl
  simp [haddresses, ha, hb, ha', hb'] at hperm
  refine ⟨L, ?_⟩
  rw [show "c_ClientChannel" = Consumer.clientChannel "c" from rfl, hqueue, hperm,
    show Consumer.clientChannel "c" = "c_ClientChannel" from rfl, hempty]
  rfl

end BlockchainMessaging
