import BlockchainMessaging.Conservation
import BlockchainMessaging.Provenance
import BlockchainMessaging.Traffic

/-!
# What is said arrives

In the whole system a node receives from each of its channels what its clients have said there, word
by word and in order, but for what still waits; and what the node has published to a client is
printed, in order, but for what the client has not printed or not received yet.  This holds in every
run with proper commands, whatever the nodes do in between, and even if an election goes wrong.
Only a node whose process has ended may have lost something that was on its way to it.

## Main definitions

* `Carried` — the invariant of the whole system.
* `Messaging.conversation` — every message is in one place, in its order.
-/

namespace BlockchainMessaging

/-! ## Steps of the nodes -/

namespace Cluster

variable {C : Cluster} {L L' : ServiceState} {act : ServiceAction}

/-- Nothing is received from clients in an internal step. -/
theorem pushed_serve (hact : act.internal = true) (h : C.serve L act = some L') (a : String) :
    (L'.buffer a).pushed = (L.buffer a).pushed := by
  cases act with
  | push b message => cases hact
  | save b s now =>
    obtain ⟨_, hb, rfl⟩ := serve_save_eq_some h
    obtain ⟨-, rfl⟩ := BufferRuns.step_save_eq_some hb
    by_cases ha : a = b
    · simp [ServiceState.setBuffer, ha]
    · simp [ServiceState.setBuffer, ha]
  | pop b s now =>
    obtain ⟨-, -, _, hb, rfl⟩ := serve_pop_eq_some h
    obtain ⟨-, rfl⟩ := BufferRuns.step_pop_eq_some hb
    by_cases ha : a = b
    · simp [ServiceState.setBuffer, ha]
    · simp [ServiceState.setBuffer, ha]
  | move act =>
    obtain ⟨-, K, -, rfl⟩ := serve_move_eq_some h
    rfl

/-- A process that is alive has been alive before. -/
theorem failure_serve (h : C.serve L act = some L') {a : String}
    (halive : (L'.cluster.process a).failure = none) : (L.cluster.process a).failure = none := by
  cases act with
  | push b message =>
    obtain ⟨-, _, -, rfl⟩ := serve_push_eq_some h
    exact halive
  | save b s now =>
    obtain ⟨_, -, rfl⟩ := serve_save_eq_some h
    exact halive
  | pop b s now =>
    obtain ⟨-, -, _, -, rfl⟩ := serve_pop_eq_some h
    exact halive
  | move act =>
    obtain ⟨-, K, hK, rfl⟩ := serve_move_eq_some h
    rw [← Option.not_isSome_iff_eq_none]
    intro hended
    have hstays := ClusterState.failure_step hK a hended
    rw [halive] at hstays
    cases hstays

/-- The consumers after an internal step. -/
theorem consumer_serve (hact : act.internal = true) (h : C.serve L act = some L') (a : String) :
    L'.cluster.consumer a = match L.published act with
      | some (b, block) =>
          if a = b then (L.cluster.consumer b).publish block else L.cluster.consumer a
      | none => L.cluster.consumer a := by
  cases act with
  | push b message => cases hact
  | save b s now =>
    obtain ⟨_, -, rfl⟩ := serve_save_eq_some h
    rfl
  | pop b s now =>
    obtain ⟨-, -, _, -, rfl⟩ := serve_pop_eq_some h
    rfl
  | move act =>
    obtain ⟨-, K, hK, rfl⟩ := serve_move_eq_some h
    cases act with
    | slot b s =>
      obtain ⟨-, p, -, rfl⟩ := ClusterState.step_slot_eq_some hK
      by_cases hpc : (L.cluster.view b s).pc = .publishBlock
      · simp [ServiceState.published, hpc, Function.update_apply]
      · simp [ServiceState.published, hpc]
    | wake b s =>
      obtain ⟨-, p, -, rfl⟩ := ClusterState.step_wake_eq_some hK
      rfl
    | handle b =>
      obtain ⟨-, p, -, rfl⟩ := ClusterState.step_handle_eq_some hK
      rfl
    | receive b c =>
      obtain ⟨-, m, rest, p, -, -, rfl⟩ := ClusterState.step_receive_eq_some hK
      rfl
    | createChannel b author => cases hact

end Cluster

/-- A block that is published consists of messages that were pushed. -/
theorem Sourced.published {C : Cluster} {L L' : ServiceState} (h : Sourced C L)
    {act : ServiceAction} (hstep : C.serve L act = some L') {a : String} {block : Block}
    (hblock : L.published act = some (a, block)) : block.Consists (L.Pushed C) := by
  simp only [ServiceState.published] at hblock
  split at hblock
  · next b s =>
    split at hblock
    · cases hblock
      obtain ⟨-, K, hK, rfl⟩ := Cluster.serve_move_eq_some hstep
      obtain ⟨hb, -⟩ := ClusterState.step_slot_eq_some hK
      exact ((h.cluster.process a hb).run s).broadcastBlock
    · cases hblock
  · cases hblock

/-! ## The invariant -/

section Carried

variable {ι : Type} {M : Messaging ι} {S : MessageServer.{0, 0, 0} String String}

/-- Everything that was said is in one place. -/
structure Carried (M : Messaging ι) (W : MessagingState ι S) : Prop where
  inbound : ∀ a, Inbound M a ((W.service.cluster.process a).failure = none) (W.broker a)
    (W.consumed a) (W.service.cluster.consumer a).clientNames (W.sent a) (W.arrived a)
  outbound : ∀ i, Outbound M i (W.broker (M.client i).host) (W.listener i) (W.running i)
    ((W.service.cluster.consumer (M.client i).host).queues (M.clientChannel i))
  pushed : ∀ a, (W.service.buffer a).pushed = (W.arrived a).map Prod.snd
  sourced : Sourced M.cluster W.service

namespace Carried

variable {W W' : MessagingState ι S}

theorem start (M : Messaging ι) : Carried M (M.start : MessagingState ι S) where
  inbound a := .start M a _
  outbound i := .start M i _
  pushed _ := rfl
  sourced := .start M.cluster

/-- What was pushed is clean. -/
theorem clean (h : Carried M W) {m : Message} (hm : W.service.Pushed M.cluster m) : m.Clean := by
  obtain ⟨a, -, hm⟩ := hm
  rw [h.pushed] at hm
  obtain ⟨e, he, rfl⟩ := List.mem_map.1 hm
  exact ((h.inbound a).arrived e he).2.clean

/-- The rest of the system is as before. -/
structure Elsewhere (M : Messaging ι) (a : String) (W W' : MessagingState ι S) : Prop where
  alive : ∀ x, x ≠ a → (W'.service.cluster.process x).failure = none →
    (W.service.cluster.process x).failure = none
  broker : ∀ x, x ≠ a → W'.broker x = W.broker x
  consumed : ∀ x, x ≠ a → W'.consumed x = W.consumed x
  consumer : ∀ x, x ≠ a → W'.service.cluster.consumer x = W.service.cluster.consumer x
  sent : ∀ x, x ≠ a → W'.sent x = W.sent x
  arrived : ∀ x, x ≠ a → W'.arrived x = W.arrived x
  listener : ∀ i, (M.client i).host ≠ a → W'.listener i = W.listener i
  running : ∀ i, (M.client i).host ≠ a → W'.running i = W.running i

/-- At one server only. -/
theorem Elsewhere.setBroker (M : Messaging ι) (W : MessagingState ι S) (a : String)
    (b : Broker S) : Elsewhere M a W (W.setBroker a b) where
  alive _ _ := id
  broker _ hx := Function.update_of_ne hx _ _
  consumed _ _ := rfl
  consumer _ _ := rfl
  sent _ _ := rfl
  arrived _ _ := rfl
  listener _ _ := rfl
  running _ _ := rfl

/-- A step at one node, and at its clients. -/
theorem of_node (h : Carried M W) {a : String} (helse : Elsewhere M a W W')
    (hin : Inbound M a ((W'.service.cluster.process a).failure = none) (W'.broker a)
      (W'.consumed a) (W'.service.cluster.consumer a).clientNames (W'.sent a) (W'.arrived a))
    (hout : ∀ i, (M.client i).host = a → Outbound M i (W'.broker a) (W'.listener i)
      (W'.running i) ((W'.service.cluster.consumer a).queues (M.clientChannel i)))
    (hpushed : ∀ x, (W'.service.buffer x).pushed = (W'.arrived x).map Prod.snd)
    (hsourced : Sourced M.cluster W'.service) : Carried M W' where
  inbound x := by
    by_cases hx : x = a
    · exact hx ▸ hin
    · rw [helse.broker x hx, helse.consumed x hx, helse.consumer x hx, helse.sent x hx,
        helse.arrived x hx]
      exact (h.inbound x).mono (helse.alive x hx)
  outbound i := by
    by_cases hi : (M.client i).host = a
    · rw [hi]
      exact hout i hi
    · rw [helse.broker _ hi, helse.consumer _ hi, helse.listener i hi, helse.running i hi]
      exact h.outbound i
  pushed := hpushed
  sourced := hsourced

/-- A client publishes to a queue that is none of a client. -/
theorem publish (h : Carried M W) {i : ι} {queName body : String}
    {sent : List (String × Message)}
    (hne : ∀ client, queName ≠ Consumer.clientChannel client)
    (hin : Inbound M (M.client i).host
      ((W.service.cluster.process (M.client i).host).failure = none)
      ((W.broker (M.client i).host).publish (queName, body)) (W.consumed (M.client i).host)
      (W.service.cluster.consumer (M.client i).host).clientNames sent
      (W.arrived (M.client i).host)) :
    Carried M { W.setBroker (M.client i).host
      ((W.broker (M.client i).host).publish (queName, body)) with
        sent := Function.update W.sent (M.client i).host sent } := by
  refine h.of_node { Elsewhere.setBroker M W _ _ with
    sent := fun x hx => Function.update_of_ne hx _ _ } ?_ ?_ h.pushed h.sourced
  · simpa [MessagingState.setBroker] using hin
  · intro j hj
    have hout := (h.outbound j).publish_other body (hne _)
    rw [hj] at hout
    simpa [MessagingState.setBroker] using hout

variable [DecidableEq ι]

/-- Clients of other nodes are others. -/
theorem update_of_host_ne {α : Type} (f : ι → α) {i j : ι} (x : α)
    (h : (M.client j).host ≠ (M.client i).host) : Function.update f i x j = f j :=
  Function.update_of_ne (by rintro rfl; exact h rfl) _ _

/-- A client starts. -/
theorem connect (h : Carried M W) {i : ι} (hstep : M.step W (.connect i) = some W') :
    Carried M W' := by
  obtain ⟨hrunning, rfl⟩ := Messaging.step_connect_eq_some hstep
  refine h.of_node { Elsewhere.setBroker M W _ _ with
    listener := fun _ hj => update_of_host_ne W.listener _ hj
    running := fun _ hj => update_of_host_ne W.running _ hj } ?_ ?_ h.pushed h.sourced
  · refine (h.inbound _).congr ?_ ?_ ?_
    · intro queName _
      simp [MessagingState.setBroker]
    · intro queName hdeclared
      simp [MessagingState.setBroker, hdeclared]
    · intro queName hreserved hdeclared
      have hne : queName ≠ M.clientChannel i := Messaging.ne_clientChannel hreserved _
      simpa [MessagingState.setBroker, hne] using hdeclared
  · intro j hj
    by_cases hij : j = i
    · subst hij
      simpa [MessagingState.setBroker] using (h.outbound j).connect hrunning
    · have hout := (h.outbound j).declareQueue (M.clientChannel i)
      simpa [MessagingState.setBroker, hij, hj] using hout

/-- A client is left, when nothing is on its way to it. -/
theorem exit (h : Carried M W) {i : ι} (hpending : (W.listener i).pending = []) :
    Carried M { W.setBroker (M.client i).host
      ((W.broker (M.client i).host).cancel (M.clientChannel i) 0) with
        running := Function.update W.running i false } := by
  refine h.of_node { Elsewhere.setBroker M W _ _ with
    running := fun _ hj => update_of_host_ne W.running _ hj } ?_ ?_ h.pushed h.sourced
  · refine (h.inbound _).congr ?_ ?_ ?_
    · intro queName _
      simp [MessagingState.setBroker, Broker.bodies_cancel_zero]
    · intro queName hdeclared
      simpa [MessagingState.setBroker] using hdeclared
    · intro queName _ hdeclared
      simpa [MessagingState.setBroker] using hdeclared
  · intro j hj
    by_cases hij : j = i
    · subst hij
      simpa [MessagingState.setBroker] using (h.outbound j).exit hpending
    · have hout := (h.outbound j).cancel_other 0 (M.clientChannel_ne (Ne.symm hij) hj.symm)
      rw [hj] at hout
      simpa [MessagingState.setBroker, hij] using hout

/-- A line is typed. -/
theorem command (h : Carried M W) (hM : M.CleanNames) {i : ι} {line : String} {now lost : ℕ}
    (hok : M.Proper W (.command i line now lost))
    (hstep : M.step W (.command i line now lost) = some W') : Carried M W' := by
  obtain ⟨hline, hproper⟩ := hok
  simp only [Messaging.step] at hstep
  split at hstep
  · next hrunning =>
    obtain ⟨action, haction, hstep⟩ := Option.bind_eq_some_iff.1 hstep
    have hwords := App.words_of_interpret haction
    replace hproper := hproper action haction
    have hdeclared := (h.outbound i).declared hrunning
    cases action with
    | createQueue queName =>
      cases hstep
      have hname : Text.Clean ((M.client i).serverName ++ "_ControlChannel") :=
        (hM i).1.append (by decide)
      have htarget : Text.Clean "CreateChannel" := by decide
      have hin := (h.inbound _).createQueue (.of_typed hM hline hwords htarget hname now) hproper
        hdeclared
      have hcarried := h.publish (M.controlChannel_ne_clientChannel _) hin
      rw [Function.update_eq_self] at hcarried
      rw [← M.controlChannel_host i] at hcarried
      exact hcarried
    | sendMessage queName message =>
      have htarget : Text.Clean "Send" := by decide
      have hin := (h.inbound _).sendMessage
        (.of_typed hM hline hwords.2 htarget (hline.word hwords.1) now) hproper
      have hcarried := h.publish (Messaging.ne_clientChannel hproper) hin
      have hsent : (if (W.broker (M.client i).host).declared queName then
          Function.update W.sent (M.client i).host (W.sent (M.client i).host ++
            [(queName, Client.message (M.client i) now message)]) else W.sent) =
          Function.update W.sent (M.client i).host
            (if (W.broker (M.client i).host).declared queName then
              W.sent (M.client i).host ++ [(queName, Client.message (M.client i) now message)]
            else W.sent (M.client i).host) := by
        split
        · rfl
        · rw [Function.update_eq_self]
      cases hstep
      rw [hsent]
      exact hcarried
    | exit =>
      obtain ⟨hpending, rfl⟩ := hproper
      cases hstep
      exact h.exit hpending
    | getMessages queName date => cases hwords
    | print text =>
      cases hstep
      exact h
    | skip =>
      cases hstep
      exact h
  · cases hstep

/-- The node receives from its control queue. -/
theorem control (h : Carried M W) {a : String} (hstep : M.step W (.control a) = some W') :
    Carried M W' := by
  obtain ⟨requests, hrequests, hposted⟩ := (h.inbound a).control
  obtain ⟨-, data, rest, hdata, hstep⟩ := Messaging.step_control_eq_some hstep
  rw [hrequests] at hdata
  obtain ⟨p, requests, rfl, rfl, rfl⟩ := List.map_eq_cons_iff.1 hdata
  obtain ⟨hp, hreserved, hauthor⟩ := hposted p List.mem_cons_self
  have hne := M.controlChannel_ne_clientChannel a
  rcases hstep with ⟨-, rfl⟩ | ⟨queName, author, L, hrequest, hL, rfl⟩
  · refine h.of_node (.setBroker M W a _) ?_ ?_ h.pushed h.sourced
    · simpa [MessagingState.setBroker] using (h.inbound a).ignore
    · rintro j rfl
      simpa [MessagingState.setBroker] using (h.outbound j).deliver_other (hne _)
  · rw [hp.handleControlMessage, Option.some_inj] at hrequest
    split at hrequest
    · cases hrequest
      have hsourced := h.sourced.step hL
      obtain ⟨-, K, hK, rfl⟩ := Cluster.serve_move_eq_some hL
      obtain ⟨-, rfl⟩ := ClusterState.step_createChannel_eq_some hK
      refine h.of_node (a := a) { Elsewhere.setBroker M W a _ with
        consumed := fun x hx => Function.update_of_ne hx _ _
        consumer := fun x hx => Function.update_of_ne hx _ _ } ?_ ?_ h.pushed hsourced
      · rw [← Broker.declared_deliver _ (M.controlChannel a)] at hauthor
        have hin := (h.inbound a).ignore.createChannel hreserved hauthor
          fun client hclient => (ConsumerRun.mem_clientNames_createChannel _ _ _).1 hclient
        simpa [MessagingState.setBroker] using hin
      · rintro j rfl
        simpa [MessagingState.setBroker] using
          ((h.outbound j).deliver_other (hne _)).declareQueue p.2.data
    · cases hrequest

/-- The node receives from a channel. -/
theorem channel (h : Carried M W) {a queName behind : String}
    (hstep : M.step W (.channel a queName behind) = some W') : Carried M W' := by
  obtain ⟨halive, hqueName, body, rest, message, L, hbody, hdecode, hL, rfl⟩ :=
    Messaging.step_channel_eq_some hstep
  have hreserved := (h.inbound a).proper queName hqueName
  obtain ⟨message', hdecode', hin⟩ := (h.inbound a).deliver halive hqueName hbody
  cases (hdecode' behind).symm.trans hdecode
  have hsourced := h.sourced.step hL
  obtain ⟨-, _, hb, rfl⟩ := Cluster.serve_push_eq_some hL
  cases hb
  refine h.of_node (a := a) { Elsewhere.setBroker M W a _ with
    arrived := fun x hx => Function.update_of_ne hx _ _ } ?_ ?_ ?_ hsourced
  · simpa [MessagingState.setBroker, ServiceState.setBuffer] using hin
  · rintro j rfl
    simpa [MessagingState.setBroker, ServiceState.setBuffer] using
      (h.outbound j).deliver_other (Messaging.ne_clientChannel hreserved _)
  · intro x
    by_cases hx : x = a
    · subst hx
      simp [ServiceState.setBuffer, h.pushed]
    · simp [ServiceState.setBuffer, hx, h.pushed]

/-- A consumer of a node whose process has ended is cancelled. -/
theorem cancel (h : Carried M W) {a queName : String} {lost : ℕ}
    (hstep : M.step W (.cancel a queName lost) = some W') : Carried M W' := by
  obtain ⟨hended, hqueName, rfl⟩ := Messaging.step_cancel_eq_some hstep
  refine h.of_node (.setBroker M W a _) ?_ ?_ h.pushed h.sourced
  · simpa [MessagingState.setBroker] using (h.inbound a).cancel hended queName lost
  · rintro j rfl
    have hne : queName ≠ M.clientChannel j := by
      rcases hqueName with rfl | hmem
      · exact M.controlChannel_ne_clientChannel _ _
      · exact Messaging.ne_clientChannel ((h.inbound _).proper _ hmem) _
    simpa [MessagingState.setBroker] using (h.outbound j).cancel_other lost hne

/-- A client receives. -/
theorem listen (h : Carried M W) {i : ι} {behind : String} (hok : M.Proper W (.listen i behind))
    (hstep : M.step W (.listen i behind) = some W') : Carried M W' := by
  obtain ⟨hrunning, body, rest, l, hbody, hl, rfl⟩ := Messaging.step_listen_eq_some hstep
  have hout := h.outbound i
  rw [hrunning] at hout
  refine h.of_node { Elsewhere.setBroker M W _ _ with
    listener := fun _ hj => update_of_host_ne W.listener _ hj } ?_ ?_ h.pushed h.sourced
  · refine (h.inbound _).congr ?_ ?_ ?_
    · intro queName hne
      simp [MessagingState.setBroker, Broker.bodies_deliver, Messaging.clientChannel, hne]
    · intro queName hdeclared
      simpa [MessagingState.setBroker] using hdeclared
    · intro queName _ hdeclared
      simpa [MessagingState.setBroker] using hdeclared
  · intro j hj
    by_cases hij : j = i
    · subst hij
      simpa [MessagingState.setBroker, hrunning] using hout.listen hbody hok hl
    · have hne := M.clientChannel_ne (Ne.symm hij) hj.symm
      have hout := (h.outbound j).deliver_other hne
      rw [hj] at hout
      simpa [MessagingState.setBroker, hij] using hout

/-- The timer thread of a client goes on. -/
theorem handle (h : Carried M W) {i : ι} (hstep : M.step W (.handle i) = some W') :
    Carried M W' := by
  obtain ⟨hrunning, l, hl, rfl⟩ := Messaging.step_handle_eq_some hstep
  refine ⟨h.inbound, fun j => ?_, h.pushed, h.sourced⟩
  by_cases hij : j = i
  · subst hij
    have hout := h.outbound j
    rw [hrunning] at hout
    simpa [hrunning] using hout.handle hl
  · simpa [hij] using h.outbound j

/-- The nodes go on. -/
theorem serve (h : Carried M W) {act : ServiceAction} (hstep : M.step W (.serve act) = some W') :
    Carried M W' := by
  obtain ⟨hact, L, hL, rfl⟩ := Messaging.step_serve_eq_some hstep
  have hsourced := h.sourced.step hL
  have hpushed := Cluster.pushed_serve hact hL
  have hconsumer := Cluster.consumer_serve hact hL
  have halive := fun x => Cluster.failure_serve hL (a := x)
  cases hpublished : W.service.published act with
  | none =>
    rw [hpublished] at hconsumer
    refine ⟨fun a => ?_, fun i => ?_, fun a => ?_, hsourced⟩
    · simpa [MessagingState.publish, hconsumer] using (h.inbound a).mono (halive a)
    · simpa [MessagingState.publish, hconsumer] using h.outbound i
    · exact (hpushed a).trans (h.pushed a)
  | some p =>
    obtain ⟨a, block⟩ := p
    rw [hpublished] at hconsumer
    have hclean : ∀ m ∈ block.data, m.Clean := fun m hm =>
      h.clean (h.sourced.published hL hpublished m hm)
    refine h.of_node (a := a) { Elsewhere.setBroker M W a _ with
      alive := fun x _ => halive x
      consumer := fun x hx => (hconsumer x).trans (if_neg hx) } ?_ ?_
      (fun x => (hpushed x).trans (h.pushed x)) hsourced
    · have hin := ((h.inbound a).mono (halive a)).publish M.messageSerializer block.data
      simpa [MessagingState.publish, MessagingState.setBroker, hconsumer, Consumer.publish]
        using hin
    · rintro j rfl
      have hout := (h.outbound j).publish (W.service.cluster.consumer (M.client j).host).nodup
        ((h.inbound _).registered _) hclean
      simpa [MessagingState.publish, MessagingState.setBroker, hconsumer,
        Consumer.queues_publish, Messaging.clientChannel] using hout

/-- **One step** of the system. -/
theorem step (h : Carried M W) (hM : M.CleanNames) {act : MessagingAction ι}
    (hok : M.Proper W act) (hstep : M.step W act = some W') : Carried M W' := by
  cases act with
  | connect i => exact h.connect hstep
  | command i line now lost => exact h.command hM hok hstep
  | control a => exact h.control hstep
  | channel a queName behind => exact h.channel hstep
  | cancel a queName lost => exact h.cancel hstep
  | listen i behind => exact h.listen hok hstep
  | handle i => exact h.handle hstep
  | serve act => exact h.serve hstep

end Carried

theorem Messaging.carried_of_reaches [DecidableEq ι] {M : Messaging ι} {W : MessagingState ι S}
    {ok : MessagingState ι S → MessagingAction ι → Prop} (hok : ∀ W act, ok W act → M.Proper W act)
    (hM : M.CleanNames) (h : Reaches M.step ok M.start W) : Carried M W :=
  h.invariant (.start M) fun _ _ _ hi ho hs => hi.step hM (hok _ _ ho) hs

/-- What a client has received was printed, or is in its buffer. -/
theorem Outbound.exists_unread {M : Messaging ι} {i : ι} {b : Broker S} {l : Listener}
    {running : Bool} {queue : List Message} (h : Outbound M i b l running queue) :
    ∃ unread waiting : List Message, queue = l.printed ++ unread ++ waiting ∧
      l.pending.map (Client.decode M.messageSerializer) = unread.map some ∧
      b.bodies (M.clientChannel i) = waiting.map M.messageSerializer.serialize ∧
      ∀ m ∈ waiting, m.Clean := by
  obtain ⟨received, waiting, hreceived, hwaiting, hclean, rfl⟩ := h.queue
  obtain ⟨shown, hpushed, hshown⟩ := h.listener
  rw [hpushed, List.map_append, hshown] at hreceived
  obtain ⟨printed, unread, rfl, hprinted, hunread⟩ := List.map_eq_append_iff.1 hreceived.symm
  rw [List.map_injective_iff.2 (Option.some_injective _) hprinted]
  exact ⟨unread, waiting, rfl, hunread.symm, hwaiting, hclean⟩

end Carried

/-! ## Two clients -/

/-- `bob` at the node `b`, and `ann` at the node `a`. -/
def bobAndAnn (i : Bool) : ClientInfo := if i then ⟨"b", "b", "bob"⟩ else ⟨"a", "a", "ann"⟩

theorem bobAndAnn_host (i : Bool) : (bobAndAnn i).host ∈ twoNodes.addresses := by
  cases i <;> decide

theorem bobAndAnn_serverName (i : Bool) : (bobAndAnn i).serverName =
    (twoNodes.storage (bobAndAnn i).host).nodeConfiguration.self.name := by
  cases i <;> rfl

theorem bobAndAnn_injective (i j : Bool) (h : (bobAndAnn i).host = (bobAndAnn j).host)
    (_ : (bobAndAnn i).clientName = (bobAndAnn j).clientName) : i = j := by
  revert i j
  decide

/-- A server that keeps everything in memory. -/
abbrev memory : MessageServer String String := .inMemory String String

/-- Two nodes, with a client each. -/
def twoClients : Messaging Bool where
  cluster := twoNodes
  headerSerializer := headerSerializer
  messageSerializer := messageSerializer
  client := bobAndAnn
  host_mem := bobAndAnn_host
  serverName_eq := bobAndAnn_serverName
  injective := bobAndAnn_injective

theorem twoClients_cleanNames : twoClients.CleanNames := by
  intro i
  cases i <;> decide

/-- `bob` registers. -/
def bobRegisters : List (MessagingAction Bool) :=
  [.connect true, .command true "init room" 100 0, .control "b"]

/-- `ann` says something, just before the slot 2 begins. -/
def annSpeaks : List (MessagingAction Bool) :=
  [.connect false, .command false "init room" 200 0, .control "a",
    .command false "SEND room hello" 900 0, .channel "a" "room" "@behind"]

end BlockchainMessaging
