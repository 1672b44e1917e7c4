import BlockchainMessaging.EndToEnd
import BlockchainMessaging.Lib.Abreast

/-!
# In the same order

What the clients of one node read, they read in the same order.  Clients of different nodes do so as
well, if the nodes return from their slots in the same order: it is enough that a run publishes only
when of the other slots those that have returned on one of the two nodes have returned on both.  At
every point one client may be ahead of the other, but neither will ever have read something else.

## Main definitions

* `ClusterState.InStep` — the condition on two nodes.
* `Cluster.same_slots` — the slots whose blocks two clients get.
* `Messaging.same_order` — what the two clients print.
-/

namespace BlockchainMessaging

/-! ## Two nodes -/

/-- A run of one of the two nodes publishes when the same other slots have returned on both. -/
def ClusterState.InStep (a b : String) (K : ClusterState) : ClusterAction → Prop
  | .slot x s => x = a ∨ x = b → ((K.process x).run s).pc = .publishBlock →
      ∀ r ∈ K.added a ++ K.added b, r ≠ s →
        (((K.process a).run r).pc = .returned ↔ ((K.process b).run r).pc = .returned)
  | _ => True

instance (a b : String) (K : ClusterState) (act : ClusterAction) : Decidable (K.InStep a b act) :=
  match act with
  | .slot _ _ => inferInstanceAs (Decidable (_ → _ → _))
  | .wake _ _ | .handle _ | .receive _ _ | .createChannel _ _ => .isTrue trivial

namespace Cluster

variable {C : Cluster} {K K' : ClusterState} {act : ClusterAction} {a : String} {s : ℕ}

/-- What was added stays in the history. -/
theorem mem_added_step (hstep : C.step K act = some K') (h : s ∈ K.added a) : s ∈ K'.added a := by
  cases act with
  | slot b r =>
    obtain ⟨-, p, -, rfl⟩ := ClusterState.step_slot_eq_some hstep
    by_cases hadd : (K.view b r).pc = .saveAdd
    · by_cases hab : a = b
      · subst hab
        simp [hadd, h]
      · simp [hadd, hab, h]
    · simpa [hadd] using h
  | wake b r =>
    obtain ⟨-, p, -, rfl⟩ := ClusterState.step_wake_eq_some hstep
    exact h
  | handle b =>
    obtain ⟨-, p, -, rfl⟩ := ClusterState.step_handle_eq_some hstep
    exact h
  | receive b c =>
    obtain ⟨-, m, rest, p, -, -, rfl⟩ := ClusterState.step_receive_eq_some hstep
    exact h
  | createChannel b author =>
    obtain ⟨-, rfl⟩ := ClusterState.step_createChannel_eq_some hstep
    exact h

/-- A run that is beyond `PendingBlockSaver::save` has appended its block. -/
theorem mem_added_of_rank {ok : ClusterState → ClusterAction → Prop}
    (h : Reaches C.step ok C.start K) : ∀ a s, 3 ≤ ((K.process a).run s).pc.rank →
      s ∈ K.added a := by
  refine h.invariant (I := fun K => ∀ a s, 3 ≤ ((K.process a).run s).pc.rank → s ∈ K.added a)
    (fun a s hrank => ?_) fun K act K' hi _ hstep a s hrank => ?_
  · simp [Cluster.start, Process.start, SlotPc.rank] at hrank
  · by_cases hact : act = .slot a s
    · subst hact
      rw [(run_slot hstep).2] at hrank
      -- Either the run was beyond the call that appends, or this was the call.
      have hpc := slotMove_pc (R := fun pc pc' => 3 ≤ pc'.rank → 3 ≤ pc.rank ∨ pc = .saveAdd)
        (by decide +kernel) (C.env a s) (K.view a s) hrank
      rcases hpc with hbefore | hadd
      · exact mem_added_step hstep (hi a s hbefore)
      · obtain ⟨-, p, -, rfl⟩ := ClusterState.step_slot_eq_some hstep
        simp [hadd]
    · rw [(run_other hact hstep).rank_eq] at hrank
      exact mem_added_step hstep (hi a s hrank)

end Cluster

/-- Two clients have got the blocks of the same slots in the same order, but for the last one. -/
def Together (C : Cluster) (a b client client' : String) (K K' : ClusterState) : Prop :=
  ∃ slots slots', Delivered C a client K K' slots ∧ Delivered C b client' K K' slots' ∧
    Abreast slots slots'

namespace Together

variable {C : Cluster} {a b client client' : String} {K K' K'' : ClusterState}

/-- When one of the two nodes publishes, they have published the same other slots. -/
theorem agree {slots slots' : List ℕ} (hd : Delivered C a client K K' slots)
    (hd' : Delivered C b client' K K' slots')
    (hsame : ∀ r, ((K.process a).run r).pc = .returned ↔ ((K.process b).run r).pc = .returned)
    {ok : ClusterState → ClusterAction → Prop} (hreach : Reaches C.step ok C.start K') {x : String}
    {s : ℕ} (hx : x = a ∨ x = b) (hpc : ((K'.process x).run s).pc = .publishBlock)
    (hok : K'.InStep a b (.slot x s)) (r : ℕ) (hr : r ≠ s) : r ∈ slots ↔ r ∈ slots' := by
  have hboth : ((K'.process a).run r).pc = .returned ↔ ((K'.process b).run r).pc = .returned := by
    by_cases hadded : r ∈ K'.added a ++ K'.added b
    · exact hok hx hpc r hadded hr
    · rw [List.mem_append, not_or] at hadded
      have hrank : 3 ≤ SlotPc.returned.rank := by decide
      have hadd := Cluster.mem_added_of_rank hreach
      constructor
      · exact fun hpc => absurd (hadd a r (by rwa [hpc])) hadded.1
      · exact fun hpc => absurd (hadd b r (by rwa [hpc])) hadded.2
  rw [hd.mem_iff, hd'.mem_iff, hboth, Ne, Ne, hsame]

/-- **One step** of the cluster. -/
theorem step (h : Together C a b client client' K K')
    {ok : ClusterState → ClusterAction → Prop} (hreach : Reaches C.step ok C.start K')
    (hD : C.Distinct) (ha : a ∈ C.addresses) (hb : b ∈ C.addresses)
    (hsame : ∀ r, ((K.process a).run r).pc = .returned ↔ ((K.process b).run r).pc = .returned)
    {act : ClusterAction} (hok : K'.InStep a b act) (hstep : C.step K' act = some K'') :
    Together C a b client client' K K'' := by
  obtain ⟨slots, slots', hd, hd', habreast⟩ := h
  have ht := Cluster.tracks_of_reaches hreach
  rcases hd.step ht hD ha hstep with ⟨s, rfl, hpc, hnew⟩ | ⟨hother, hnew⟩
  · have hfresh : s ∉ slots := fun hs => by simpa [hpc] using ((hd.mem_iff s).1 hs).1
    have hagree := agree hd hd' hsame hreach (.inl rfl) hpc hok
    have hahead := habreast.append hd.nodup hd'.nodup hfresh hagree
    rcases hd'.step ht hD hb hstep with ⟨s', hact, hpc', hnew'⟩ | ⟨-, hnew'⟩
    · -- The clients are at the same node.
      cases hact
      have hfresh' : s ∉ slots' := fun hs => by simpa [hpc'] using ((hd'.mem_iff s).1 hs).1
      refine ⟨_, _, hnew, hnew', (hahead.symm.append hd'.nodup hnew.nodup hfresh' ?_).symm⟩
      intro r hr
      simp [hagree r hr, hr]
    · exact ⟨_, _, hnew, hnew', hahead⟩
  · rcases hd'.step ht hD hb hstep with ⟨s, rfl, hpc, hnew'⟩ | ⟨-, hnew'⟩
    · have hfresh : s ∉ slots' := fun hs => by simpa [hpc] using ((hd'.mem_iff s).1 hs).1
      have hagree := agree hd hd' hsame hreach (.inr rfl) hpc hok
      refine ⟨_, _, hnew, hnew', (habreast.symm.append hd'.nodup hd.nodup hfresh ?_).symm⟩
      exact fun r hr => (hagree r hr).symm
    · exact ⟨_, _, hnew, hnew', habreast⟩

/-- **A run** of the cluster. -/
theorem of_reaches {ok : ClusterState → ClusterAction → Prop}
    (hInStep : ∀ K act, ok K act → K.InStep a b act) (hD : C.Distinct)
    (h : Reaches C.step ok C.start K) (h' : Reaches C.step ok K K') (ha : a ∈ C.addresses)
    (hb : b ∈ C.addresses) (hclient : client ∈ (K.consumer a).clientNames)
    (hclient' : client' ∈ (K.consumer b).clientNames)
    (hsame : ∀ r, ((K.process a).run r).pc = .returned ↔ ((K.process b).run r).pc = .returned) :
    Together C a b client client' K K' := by
  refine (h'.invariant (I := fun K' => Reaches C.step ok C.start K' ∧
    Together C a b client client' K K') ⟨h, [], [], .refl hclient, .refl hclient', .same _⟩ ?_).2
  rintro K' act K'' ⟨hreach, htogether⟩ hok hstep
  exact ⟨hreach.tail hok hstep,
    htogether.step hreach hD ha hb hsame (hInStep _ _ hok) hstep⟩

end Together

namespace ServiceState

/-- The two nodes are in step, and what is popped belongs to the slot of the run. -/
def InStep (a b : String) (L : ServiceState) : ServiceAction → Prop
  | .move act => L.cluster.InStep a b act
  | act => L.Punctual act

instance (a b : String) (L : ServiceState) (act : ServiceAction) : Decidable (L.InStep a b act) :=
  match act with
  | .move act => inferInstanceAs (Decidable (L.cluster.InStep a b act))
  | .push _ _ => inferInstanceAs (Decidable True)
  | .save _ _ _ => inferInstanceAs (Decidable True)
  | .pop a s now => inferInstanceAs (Decidable (L.Punctual (.pop a s now)))

variable {a b : String}

theorem InStep.punctual {L : ServiceState} {act : ServiceAction} (h : L.InStep a b act) :
    L.Punctual act := by
  cases act with
  | move act => trivial
  | _ => exact h

/-- What clients do is in step. -/
theorem inStep_of_not_internal (L : ServiceState) (act : ServiceAction)
    (h : act.internal = false) : L.InStep a b act := by
  obtain ⟨c, message, rfl⟩ | ⟨c, author, rfl⟩ := ServiceAction.of_not_internal h
  · trivial
  · trivial

end ServiceState

/-! ## Two clients -/

/-- What was printed stays printed. -/
theorem Listener.printed_grows {messageSerializer : MessageSerializer} {s t : Listener}
    {a : ListenAction} (h : s.step messageSerializer a = some t) : s.printed <+: t.printed := by
  cases a with
  | receive msg =>
    cases h
    exact List.prefix_rfl
  | handle =>
    simp only [Listener.step] at h
    split at h
    · split at h
      · cases h
        exact List.prefix_rfl
      · cases h
        exact List.prefix_rfl
    · cases h
      exact List.prefix_rfl
    · obtain ⟨message, -, h⟩ := Option.bind_eq_some_iff.1 h
      cases h
      exact List.prefix_append _ _
    · cases h
      exact List.prefix_rfl

namespace Messaging

variable {ι : Type} {M : Messaging ι} {S : MessageServer.{0, 0, 0} String String}

/-- The nodes of the two clients are in step, and the commands are proper. -/
def InStep (M : Messaging ι) (i j : ι) (W : MessagingState ι S) : MessagingAction ι → Prop
  | .serve act => W.service.InStep (M.client i).host (M.client j).host act
  | act => M.Proper W act

instance (i j : ι) (W : MessagingState ι S) (act : MessagingAction ι) :
    Decidable (M.InStep i j W act) :=
  match act with
  | .serve act => inferInstanceAs (Decidable (W.service.InStep _ _ act))
  | .connect i => inferInstanceAs (Decidable (M.Proper W (.connect i)))
  | .command i line now lost =>
      inferInstanceAs (Decidable (M.Proper W (.command i line now lost)))
  | .control a => inferInstanceAs (Decidable (M.Proper W (.control a)))
  | .channel a queName behind =>
      inferInstanceAs (Decidable (M.Proper W (.channel a queName behind)))
  | .cancel a queName lost =>
      inferInstanceAs (Decidable (M.Proper W (.cancel a queName lost)))
  | .listen i behind => inferInstanceAs (Decidable (M.Proper W (.listen i behind)))
  | .handle i => inferInstanceAs (Decidable (M.Proper W (.handle i)))

theorem InStep.proper {W : MessagingState ι S} {i j : ι} {act : MessagingAction ι}
    (h : M.InStep i j W act) : M.Proper W act := by
  cases act with
  | serve act => trivial
  | _ => exact h

variable [DecidableEq ι]

/-- What was printed stays printed. -/
theorem printed_step {W W' : MessagingState ι S} {act : MessagingAction ι}
    (h : M.step W act = some W') (i : ι) : (W.listener i).printed <+: (W'.listener i).printed := by
  have hupdate : ∀ {j : ι} {l : Listener}, (W.listener j).printed <+: l.printed →
      (W.listener i).printed <+: (Function.update W.listener j l i).printed := by
    intro j l hl
    by_cases hij : i = j
    · subst hij
      simpa using hl
    · simp [hij]
  cases act with
  | connect j =>
    obtain ⟨-, rfl⟩ := step_connect_eq_some h
    exact hupdate List.prefix_rfl
  | command j line now lost =>
    rw [(step_command_frame h).2]
  | control a =>
    obtain ⟨-, data, rest, -, ⟨-, rfl⟩ | ⟨queName, author, L, -, -, rfl⟩⟩ := step_control_eq_some h
    · exact List.prefix_rfl
    · exact List.prefix_rfl
  | channel a queName behind =>
    obtain ⟨-, -, body, rest, message, L, -, -, -, rfl⟩ := step_channel_eq_some h
    exact List.prefix_rfl
  | cancel a queName lost =>
    obtain ⟨-, -, rfl⟩ := step_cancel_eq_some h
    exact List.prefix_rfl
  | listen j behind =>
    obtain ⟨-, body, rest, l, -, hl, rfl⟩ := step_listen_eq_some h
    exact hupdate (Listener.printed_grows hl)
  | handle j =>
    obtain ⟨-, l, hl, rfl⟩ := step_handle_eq_some h
    exact hupdate (Listener.printed_grows hl)
  | serve act =>
    obtain ⟨-, L, -, rfl⟩ := step_serve_eq_some h
    cases W.service.published act <;> exact List.prefix_rfl

theorem printed_of_reaches {W W' : MessagingState ι S}
    {ok : MessagingState ι S → MessagingAction ι → Prop} (h : Reaches M.step ok W W') (i : ι) :
    (W.listener i).printed <+: (W'.listener i).printed :=
  h.invariant (I := fun W' => (W.listener i).printed <+: (W'.listener i).printed)
    List.prefix_rfl fun _ _ _ hi _ hs => hi.trans (printed_step hs i)

/-- **Clients read the same in the same order.**  In every run of the whole system without
collisions in which the nodes of two clients are in step: from a state in which both are registered,
the same runs have returned on their nodes, and each has printed what it was sent, to any later one,
what one of them prints is the beginning of what the other one prints. -/
theorem same_order {W₀ W : MessagingState ι S} (hM : M.CleanNames) (hD : M.cluster.Distinct)
    {i j : ι} (h₀ : Reaches M.step (M.InStep i j) M.start W₀)
    (h : Reaches M.step (M.InStep i j) W₀ W)
    (hregistered : ∀ k ∈ [i, j], (M.client k).clientName ∈
      (W₀.service.cluster.consumer (M.client k).host).clientNames)
    (hsame : ∀ r, ((W₀.service.cluster.process (M.client i).host).run r).pc = .returned ↔
      ((W₀.service.cluster.process (M.client j).host).run r).pc = .returned)
    (hread : ∀ k ∈ [i, j], (W₀.listener k).printed =
      (W₀.service.cluster.consumer (M.client k).host).queues (M.clientChannel k)) :
    ∃ new new', (W.listener i).printed = (W₀.listener i).printed ++ new ∧
      (W.listener j).printed = (W₀.listener j).printed ++ new' ∧
      (new <+: new' ∨ new' <+: new) := by
  have hc := carried_of_reaches (fun _ _ => InStep.proper) hM (h₀.trans h)
  obtain ⟨hsupplied, hbefore, hsince⟩ := Cluster.supplied_of_reaches
    (fun K act => K.InStep (M.client i).host (M.client j).host act)
    (fun _ _ => ServiceState.InStep.punctual) (fun _ _ => id)
    (service_of_reaches (fun _ _ => id) ServiceState.inStep_of_not_internal h₀)
    (service_of_reaches (fun _ _ => id) ServiceState.inStep_of_not_internal h)
  have hdistinct : (M.cluster.popping W.service.taking hsupplied.slot_eq).Distinct := hD
  obtain ⟨slots, slots', hd, hd', habreast⟩ := Together.of_reaches (fun _ _ => id) hdistinct
    hbefore hsince (M.host_mem i) (M.host_mem j) (hregistered i (by simp))
    (hregistered j (by simp)) hsame
  -- Each of the two prints, of the blocks of its slots, as much as it has received.
  have hnew : ∀ k ∈ [i, j], ∀ {slots : List ℕ},
      Delivered (M.cluster.popping W.service.taking hsupplied.slot_eq) (M.client k).host
        (M.client k).clientName W₀.service.cluster W.service.cluster slots →
      ∃ new, (W.listener k).printed = (W₀.listener k).printed ++ new ∧
        new <+: slots.flatMap fun s =>
          ((M.cluster.popping W.service.taking hsupplied.slot_eq).block s).data := by
    intro k hk slots hd
    obtain ⟨new, hprinted⟩ := printed_of_reaches h k
    obtain ⟨unread, waiting, hqueue, -⟩ := (hc.outbound k).exists_unread
    have hall := hd.queue
    rw [show Consumer.clientChannel (M.client k).clientName = M.clientChannel k from rfl, hqueue,
      ← hread k hk, ← hprinted, List.append_assoc, List.append_assoc] at hall
    refine ⟨new, hprinted.symm, ?_⟩
    rw [← List.append_cancel_left hall]
    exact List.prefix_append _ _
  obtain ⟨new, hprinted, hstarts⟩ := hnew i (by simp) hd
  obtain ⟨new', hprinted', hstarts'⟩ := hnew j (by simp) hd'
  refine ⟨new, new', hprinted, hprinted', ?_⟩
  rcases habreast.comparable _ with hcomparable | hcomparable
  · exact List.prefix_or_prefix_of_prefix (hstarts.trans hcomparable) hstarts'
  · exact List.prefix_or_prefix_of_prefix hstarts (hstarts'.trans hcomparable)

/-- `ann` speaks, and both print what they get. -/
def bothRead : List (MessagingAction Bool) :=
  annSpeaks.drop 3 ++ (messageArrives.tail ++ moves (List.replicate 2 (.slot "a"))).map .serve ++
    [true, false].flatMap fun i => .listen i "@behind" :: List.replicate 4 (.handle i)

set_option maxRecDepth 8000 in
theorem same_order_twoClients : ∃ W : MessagingState Bool memory,
    (W.listener true).printed.length = 1 ∧
      (W.listener true).printed = (W.listener false).printed := by
  obtain ⟨W₀, h₀, hW₀⟩ := exists_reaches twoClients.step (twoClients.InStep true false)
    (twoClients.start : MessagingState Bool memory) (bobRegisters ++ annSpeaks.take 3)
    (fun W₀ => (∀ k ∈ [true, false],
        (bobAndAnn k).clientName ∈ (W₀.service.cluster.consumer (bobAndAnn k).host).clientNames ∧
        W₀.service.popped (bobAndAnn k).host = [] ∧ (W₀.listener k).printed = [] ∧
        (W₀.service.cluster.consumer (bobAndAnn k).host).queues (twoClients.clientChannel k) = []) ∧
      (runWhile twoClients.step (twoClients.InStep true false) W₀ bothRead).any (fun W =>
        (W.listener true).printed.length = 1 ∧ (W.listener false).printed.length = 1) = true)
    (by decide +kernel)
  simp only [decide_eq_true_eq] at hW₀
  obtain ⟨hbefore, hrun⟩ := hW₀
  obtain ⟨W, h, hW⟩ := exists_reaches twoClients.step _ W₀ _ _ hrun
  simp only [decide_eq_true_eq] at hW
  obtain ⟨hs, -⟩ := Cluster.supplied_of_reaches (fun _ _ => True)
    (fun _ _ => ServiceState.InStep.punctual) (fun _ _ _ => trivial)
    (service_of_reaches (fun _ _ => id) ServiceState.inStep_of_not_internal h₀) .refl
  have hfresh : ∀ k ∈ [true, false], ∀ s,
      ((W₀.service.cluster.process (bobAndAnn k).host).run s).pc ≠ .returned := by
    intro k hk s hreturned
    have hmem := hs.done _ s (by rw [hreturned]; decide)
    rw [(hbefore k hk).2.1] at hmem
    cases hmem
  obtain ⟨new, new', hprinted, hprinted', hcomparable⟩ := same_order twoClients_cleanNames
    twoNodes_distinct h₀ h (fun k hk => (hbefore k hk).1)
    (fun r => iff_of_false (hfresh true (by simp) r) (hfresh false (by simp) r))
    fun k hk => (hbefore k hk).2.2.1.trans (hbefore k hk).2.2.2.symm
  rw [(hbefore true (by simp)).2.2.1, List.nil_append] at hprinted
  rw [(hbefore false (by simp)).2.2.1, List.nil_append] at hprinted'
  refine ⟨W, hW.1, ?_⟩
  rw [← hprinted, ← hprinted'] at hcomparable
  rcases hcomparable with hstarts | hstarts
  · exact hstarts.eq_of_length (hW.1.trans hW.2.symm)
  · exact (hstarts.eq_of_length (hW.2.trans hW.1.symm)).symm

end Messaging

end BlockchainMessaging
