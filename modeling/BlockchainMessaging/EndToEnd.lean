import BlockchainMessaging.Conversation

/-!
# What everyone reads

The whole system, from what is typed at one client to what is printed at another.  A run of it
contains a run of the nodes with their buffers, in which the messages come from the channels; so
what holds of these runs holds here.  When nothing is left to do anywhere, the channels have been
read, the slots have finished, and the queues of the clients are empty; then all that was said is
printed, once, at each client that was there in time.

## Main definitions

* `Messaging.Orderly` — the conditions on commands, and those on the nodes.
* `Messaging.service_of_reaches` — the run of the nodes in a run of the system.
* `Messaging.everyone_reads` — what is said is what is read.
-/

namespace BlockchainMessaging

/-- When nothing waits in the channels, everything that was said has arrived. -/
theorem Inbound.sent_perm {ι : Type} {M : Messaging ι} {S : MessageServer.{0, 0, 0} String String}
    {a : String} {alive : Prop} {b : Broker S} {consumed clientNames : List String}
    {sent arrived : List (String × Message)}
    (h : Inbound M a alive b consumed clientNames sent arrived) (halive : alive)
    (hempty : ∀ queName ∈ consumed, b.bodies queName = []) : sent.Perm arrived := by
  rw [List.perm_iff_count]
  intro e
  have hcount : ∀ l : List (String × Message),
      l.count e = (l.filter fun e' => e'.1 = e.1).count e :=
    fun l => (List.count_filter (by simp)).symm
  by_cases hreserved : M.Reserved a e.1
  · rw [List.count_eq_zero_of_not_mem fun he => h.sent e he hreserved,
      List.count_eq_zero_of_not_mem fun he => (h.arrived e he).1 hreserved]
  · obtain ⟨lost, waiting, hwaiting, -, hsent, hlost⟩ := h.channel e.1 hreserved
    have hbodies : b.bodies e.1 = [] := by
      by_cases hdeclared : b.declared e.1 = true
      · exact hempty e.1 (h.consumed e.1 hreserved hdeclared)
      · exact Broker.bodies_of_not_declared (Bool.eq_false_iff.2 hdeclared)
    rw [hbodies] at hwaiting
    rw [hlost halive, List.map_eq_nil_iff.1 hwaiting.symm, List.append_nil, List.map_nil,
      List.append_nil] at hsent
    rw [hcount sent, hcount arrived, hsent]

namespace Messaging

variable {ι : Type} {M : Messaging ι} {S : MessageServer.{0, 0, 0} String String}

/-- The nodes work as they should, and the commands are proper. -/
def Orderly (M : Messaging ι) (W : MessagingState ι S) : MessagingAction ι → Prop
  | .serve act => W.service.Orderly act
  | act => M.Proper W act

instance (W : MessagingState ι S) (act : MessagingAction ι) : Decidable (M.Orderly W act) :=
  match act with
  | .serve act => inferInstanceAs (Decidable (W.service.Orderly act))
  | .connect i => inferInstanceAs (Decidable (M.Proper W (.connect i)))
  | .command i line now lost =>
      inferInstanceAs (Decidable (M.Proper W (.command i line now lost)))
  | .control a => inferInstanceAs (Decidable (M.Proper W (.control a)))
  | .channel a queName behind =>
      inferInstanceAs (Decidable (M.Proper W (.channel a queName behind)))
  | .cancel a queName lost =>
      inferInstanceAs (Decidable (M.Proper W (.cancel a queName lost)))
  | .listen i behind => inferInstanceAs (Decidable (M.Proper W (.listen i behind)))
  | .handle i => inferInstanceAs (Decidable (M.Proper W (.handle i)))

theorem Orderly.proper {W : MessagingState ι S} {act : MessagingAction ι} (h : M.Orderly W act) :
    M.Proper W act := by
  cases act with
  | serve act => trivial
  | _ => exact h

variable [DecidableEq ι]

/-- What a step of the system is for the nodes: nothing, a step of their own, or that a client sends
something. -/
theorem service_step {W W' : MessagingState ι S} {act : MessagingAction ι}
    (h : M.step W act = some W') : W'.service = W.service ∨
      ∃ k, M.cluster.serve W.service k = some W'.service ∧
        (act = .serve k ∨ k.internal = false) := by
  cases act with
  | connect i =>
    obtain ⟨-, rfl⟩ := step_connect_eq_some h
    exact .inl rfl
  | command i line now lost => exact .inl (step_command_frame h).1
  | control a =>
    obtain ⟨-, data, rest, -, ⟨-, rfl⟩ | ⟨queName, author, L, -, hL, rfl⟩⟩ :=
      step_control_eq_some h
    · exact .inl rfl
    · exact .inr ⟨_, hL, .inr rfl⟩
  | channel a queName behind =>
    obtain ⟨-, -, body, rest, message, L, -, -, hL, rfl⟩ := step_channel_eq_some h
    exact .inr ⟨_, hL, .inr rfl⟩
  | cancel a queName lost =>
    obtain ⟨-, -, rfl⟩ := step_cancel_eq_some h
    exact .inl rfl
  | listen i behind =>
    obtain ⟨-, body, rest, l, -, -, rfl⟩ := step_listen_eq_some h
    exact .inl rfl
  | handle i =>
    obtain ⟨-, l, -, rfl⟩ := step_handle_eq_some h
    exact .inl rfl
  | serve act =>
    obtain ⟨-, L, hL, rfl⟩ := step_serve_eq_some h
    exact .inr ⟨act, hL, .inl rfl⟩

/-- A run of the system contains a run of the nodes. -/
theorem service_of_reaches {ok : MessagingState ι S → MessagingAction ι → Prop}
    {okS : ServiceState → ServiceAction → Prop}
    (hserve : ∀ W act, ok W (.serve act) → okS W.service act)
    (hclients : ∀ L act, act.internal = false → okS L act) {W₀ W : MessagingState ι S}
    (h : Reaches M.step ok W₀ W) : Reaches M.cluster.serve okS W₀.service W.service := by
  induction h with
  | refl => exact .refl
  | tail _ hok hstep ih =>
    rcases service_step hstep with heq | ⟨k, hk, rfl | hinternal⟩
    · rwa [heq]
    · exact ih.tail (hserve _ _ hok) hk
    · exact ih.tail (hclients _ _ hinternal) hk

/-- What clients do is orderly. -/
theorem orderly_of_not_internal (L : ServiceState) (act : ServiceAction)
    (h : act.internal = false) : L.Orderly act := by
  obtain ⟨a, message, rfl⟩ | ⟨a, author, rfl⟩ := ServiceAction.of_not_internal h
  · trivial
  · exact ⟨trivial, trivial⟩

/-- **Everyone reads what everyone says.**  In every run of the whole system without collisions that
is orderly: once nothing is left to do, as `Quiet` says, for the slots whose runs have called
`save`, nothing waits in a channel or in the queue of the client, and the client has printed what it
received, a client that was registered before any run returned on its node has printed just the
messages that were said at all nodes, once each, but for those that no run has saved. -/
theorem everyone_reads {W₀ W : MessagingState ι S} (hM : M.CleanNames) (hD : M.cluster.Distinct)
    (hC : M.cluster.Complete) (h₀ : Reaches M.step M.Orderly M.start W₀)
    (h : Reaches M.step M.Orderly W₀ W) {i : ι}
    (hclient : (M.client i).clientName ∈
      (W₀.service.cluster.consumer (M.client i).host).clientNames)
    (hfresh : ∀ s, ((W₀.service.cluster.process (M.client i).host).run s).pc ≠ .returned)
    (hquiet : ∀ a ∈ M.cluster.addresses, ∀ s, (W.service.buffer a).call s ≠ .save →
      W.service.cluster.Quiet M.cluster s)
    (hchannels : ∀ a ∈ M.cluster.addresses, ∀ queName ∈ W.consumed a,
      (W.broker a).bodies queName = [])
    (hqueue : (W.broker (M.client i).host).bodies (M.clientChannel i) = [])
    (hread : (W.listener i).pending = []) :
    (M.cluster.addresses.flatMap fun a => (W.sent a).map Prod.snd).Perm
      ((W.listener i).printed ++
        M.cluster.addresses.flatMap fun a => (W.service.buffer a).buffer.messages) := by
  have hc := carried_of_reaches (fun _ _ => Orderly.proper) hM (h₀.trans h)
  have hs₀ : Reaches M.cluster.serve ServiceState.Orderly M.cluster.opening W₀.service :=
    service_of_reaches (fun _ _ => id) orderly_of_not_internal h₀
  have hs : Reaches M.cluster.serve ServiceState.Orderly W₀.service W.service :=
    service_of_reaches (fun _ _ => id) orderly_of_not_internal h
  obtain ⟨hsupplied, hbefore, hsince⟩ := Cluster.supplied_of_reaches
    (fun K act => K.Whole act ∧ K.Undisturbed act) (fun _ _ => ServiceState.Orderly.punctual)
    (fun _ _ => id) hs₀ hs
  have hdistinct : (M.cluster.popping W.service.taking hsupplied.slot_eq).Distinct := hD
  have hcomplete : (M.cluster.popping W.service.taking hsupplied.slot_eq).Complete := hC
  have hhealthy := healthy_of_reaches hdistinct hcomplete (hbefore.trans hsince)
  obtain ⟨slots, hd⟩ := Delivered.of_reaches hdistinct hbefore hsince (M.host_mem i) hclient
  -- All that the node has published to the client is printed.
  have hprinted : (W.listener i).printed = slots.flatMap fun s =>
      ((M.cluster.popping W.service.taking hsupplied.slot_eq).block s).data := by
    obtain ⟨unread, waiting, hall, hunread, hwaiting, -⟩ := (hc.outbound i).exists_unread
    rw [hread] at hunread
    rw [hqueue] at hwaiting
    rw [List.map_eq_nil_iff.1 hunread.symm, List.map_eq_nil_iff.1 hwaiting.symm, List.append_nil,
      List.append_nil, clientChannel, hd.queue,
      Cluster.queues_eq_nil hbefore hfresh, List.nil_append] at hall
    exact hall.symm
  have hsaid : (M.cluster.addresses.flatMap fun a => (W.sent a).map Prod.snd).Perm
      (M.cluster.addresses.flatMap fun a => (W.service.buffer a).pushed) := by
    refine List.Perm.flatMap_left _ fun a ha => ?_
    rw [hc.pushed]
    exact ((hc.inbound a).sent_perm (hhealthy.failure a ha) (hchannels a ha)).map Prod.snd
  rw [hprinted]
  exact hsaid.trans
    (hsupplied.pushed_perm_quiet hD hC hhealthy hd (M.host_mem i) hfresh hquiet)

/-- What `ann` has said goes through the slot 2, and `bob` prints it. -/
def bobReads : List (MessagingAction Bool) :=
  annSpeaks ++ (messageArrives.tail ++ moves (List.replicate 2 (.slot "a"))).map .serve ++
    .listen true "@behind" :: List.replicate 4 (.handle true)

/-- Only the runs for the slot 2 save. -/
def inSlotTwo {ι : Type} : MessagingAction ι → Bool
  | .serve act => act.inSlotTwo
  | _ => true

theorem inSlotTwo_of_not_internal (L : ServiceState) (act : ServiceAction)
    (h : act.internal = false) : L.Orderly act ∧ act.inSlotTwo = true := by
  refine ⟨orderly_of_not_internal L act h, ?_⟩
  cases act with
  | save a s now => cases h
  | _ => rfl

set_option maxRecDepth 8000 in
theorem everyone_reads_twoClients : ∃ W : MessagingState Bool memory,
    (W.listener true).printed = [⟨900, "hello", "ann"⟩] := by
  obtain ⟨W₀, h₀, hW₀⟩ := exists_reaches twoClients.step
    (fun W act => twoClients.Orderly W act ∧ inSlotTwo act = true)
    (twoClients.start : MessagingState Bool memory) bobRegisters
    (fun W₀ => "bob" ∈ (W₀.service.cluster.consumer "b").clientNames ∧
      W₀.service.popped "b" = [] ∧
      (runWhile twoClients.step
        (fun W act => twoClients.Orderly W act ∧ inSlotTwo act = true) W₀ bobReads).any (fun W =>
          (W.sent "a").map Prod.snd = [⟨900, "hello", "ann"⟩] ∧ W.sent "b" = [] ∧
          (W.service.buffer "a").buffer.messages = [] ∧
          (W.service.buffer "b").buffer.messages = [] ∧
          W.service.cluster.Quiet twoNodes 2 ∧
          (∀ a ∈ twoNodes.addresses, ∀ queName ∈ W.consumed a,
            (W.broker a).bodies queName = []) ∧
          (W.broker "b").bodies "bob_ClientChannel" = [] ∧ (W.listener true).pending = []) = true)
    (by decide +kernel)
  simp only [decide_eq_true_eq] at hW₀
  obtain ⟨hclient, hpopped, hrun⟩ := hW₀
  obtain ⟨W, h, hW⟩ := exists_reaches twoClients.step _ W₀ _ _ hrun
  simp only [decide_eq_true_eq] at hW
  obtain ⟨ha, hb, ha', hb', hquiet, hchannels, hqueue, hread⟩ := hW
  have hsave := fun a s (hs : s ≠ 2) => Cluster.call_eq_save
    (service_of_reaches (fun _ _ h => h) inSlotTwo_of_not_internal (h₀.trans h)) a hs
  have h₀ : Reaches twoClients.step twoClients.Orderly twoClients.start W₀ :=
    h₀.mono fun _ _ => And.left
  have h : Reaches twoClients.step twoClients.Orderly W₀ W := h.mono fun _ _ => And.left
  obtain ⟨hs, -⟩ := Cluster.supplied_of_reaches (fun _ _ => True)
    (fun _ _ => ServiceState.Orderly.punctual) (fun _ _ _ => trivial)
    (service_of_reaches (fun _ _ => id) orderly_of_not_internal h₀) .refl
  have hfresh : ∀ s, ((W₀.service.cluster.process "b").run s).pc ≠ .returned := by
    intro s hreturned
    have hmem := hs.done "b" s (by simp [hreturned, SlotPc.rank])
    simp [hpopped] at hmem
  have hperm := everyone_reads twoClients_cleanNames twoNodes_distinct twoNodes_complete h₀ h
    (i := true) hclient hfresh (fun a _ s hcall => by
      by_cases htwo : s = 2
      · exact htwo ▸ hquiet
      · exact absurd (hsave a s htwo) hcall) hchannels hqueue hread
  have haddresses : twoClients.cluster.addresses = ["a", "b"] := rfl
  simp [haddresses, ha, hb, ha', hb'] at hperm
  exact ⟨W, hperm.symm⟩

end Messaging

end BlockchainMessaging
