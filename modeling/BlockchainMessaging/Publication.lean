import Mathlib.Data.List.Sort
import BlockchainMessaging.Chain

/-!
# What the clients see

The last call of a run hands the complete block to `Consumer::publish`, which sends its messages
to the queue of every client that is registered by then.  The runs of a node do not wait for each
other, so a run that is held up may publish after the run of the next slot has, although its
block stands before the other's in the chain.

## Main definitions

* `Consumer`, `Consumer.createChannel`, `Consumer.publish` — the clients and their queues.
* `Publication`, `Publication.step` — the runs of a node, their calls on the chain and their
  publications.
* `Publication.Orderly` — the condition on a step.
-/

namespace BlockchainMessaging

/-! ## The consumer -/

/-- The part of `Consumer` that publishes. -/
structure Consumer where
  clientNames : List String := []
  /-- The messages that were published to a queue. -/
  queues : String → List Message := fun _ => []
  /-- `createChannel` adds no name twice. -/
  nodup : clientNames.Nodup := by exact List.nodup_nil

namespace Consumer

/-- `createChannel`, when the queue is declared: the author becomes a client. -/
def createChannel (c : Consumer) (author : String) : Consumer :=
  if h : author ∈ c.clientNames then c
  else { c with
    clientNames := c.clientNames ++ [author]
    nodup := by simpa using c.nodup.concat h }

/-- The queue of a client. -/
def clientChannel (clientName : String) : String := clientName ++ "_ClientChannel"

/-- `sendDataToClients`. -/
def sendDataToClients (messages : List Message) (queues : String → List Message)
    (clientChannel : String) : String → List Message :=
  Function.update queues clientChannel (queues clientChannel ++ messages)

/-- `publish`. -/
def publish (c : Consumer) (block : Block) : Consumer :=
  { c with
    queues := (c.clientNames.map clientChannel).foldl (sendDataToClients block.data) c.queues }

theorem clientChannel_injective : Function.Injective clientChannel :=
  fun _ _ => (String.append_left_inj _).1

/-- Every queue of the list gets the messages once. -/
theorem foldl_sendDataToClients (messages : List Message) (channels : List String) :
    ∀ queues : String → List Message, channels.Nodup → ∀ channel,
      channels.foldl (sendDataToClients messages) queues channel =
        queues channel ++ if channel ∈ channels then messages else [] := by
  induction channels with
  | nil => simp
  | cons first rest ih =>
    intro queues hnodup channel
    rw [List.nodup_cons] at hnodup
    rw [List.foldl_cons, ih _ hnodup.2]
    by_cases hfirst : channel = first
    · subst hfirst
      simp [sendDataToClients, hnodup.1]
    · simp [sendDataToClients, hfirst]

theorem queues_publish (c : Consumer) (block : Block) (client : String) :
    (c.publish block).queues (clientChannel client) =
      c.queues (clientChannel client) ++ if client ∈ c.clientNames then block.data else [] := by
  have hfold := foldl_sendDataToClients block.data (c.clientNames.map clientChannel) c.queues
    (c.nodup.map clientChannel_injective) (clientChannel client)
  simpa [publish, clientChannel_injective.eq_iff] using hfold

@[simp] theorem queues_createChannel (c : Consumer) (author : String) :
    (c.createChannel author).queues = c.queues := by
  rw [createChannel]
  split <;> rfl

end Consumer

/-! ## The machine -/

/-- The slot thread hands over the block that it has written to the chain, when it has cleared the
slot. -/
theorem slotMove_published (E : SlotEnv) (n : Node) :
    (slotMove E n).1.published =
        (if n.pc = .publishBlock then n.published ++ [n.context.broadcastBlock] else n.published) ∧
      (27 ≤ n.pc.rank → (slotMove E n).1.context.broadcastBlock = n.context.broadcastBlock) := by
  constructor
  · by_cases hwait : ∃ w phase, n.pc = .wait w phase
    · obtain ⟨w, phase, hpc⟩ := hwait
      obtain ⟨st, sync, owned, pc, failure, h⟩ := waitMove_frame w n phase
      simp [slotMove, hpc, h]
    · obtain ⟨st, chain, context, pc, fetched, failure, h⟩ := slotMove_fields E hwait
      rw [h]
      cases n.pc <;> rfl
  · intro hrank
    rw [slotMove_context]
    refine slotContext_broadcastBlock E ?_ ?_
    · intro hpc
      simp [hpc, SlotPc.rank] at hrank
    · intro hpc
      simp [hpc, SlotPc.rank] at hrank

/-- The chain, the runs on it, and what they published: every run with the clients of the time. -/
structure Publication (ι : Type) where
  chain : ChainState ι
  consumer : Consumer := {}
  log : List (ι × List String) := []

/-- What can happen. -/
inductive PublicationAction (ι : Type)
  /-- The next call of a run on the chain. -/
  | chain (r : ι)
  /-- `publishBlock` of a run. -/
  | publish (r : ι)
  /-- A client registers. -/
  | createChannel (author : String)
  deriving DecidableEq, Repr

/-- A call on the chain moves one run, which was not done, and appends it if the call is its
first. -/
theorem ChainState.step_frame {ι : Type} [DecidableEq ι] {R : ChainRuns ι} {c c' : ChainState ι}
    {r : ι} (h : c.step R r = some c') : (c.run r).call ≠ .done ∧
      (∀ r' ≠ r, c'.run r' = c.run r') ∧
      c'.added = if (c.run r).call = .add then c.added ++ [r] else c.added := by
  rw [ChainState.step] at h
  split at h
  · cases h
  · next hready =>
    simp only [Bool.or_eq_true, decide_eq_true_eq, not_or] at hready
    refine ⟨hready.2, ?_⟩
    split at h
    · cases h
      exact ⟨fun r' hr => Function.update_of_ne hr _ _, rfl⟩
    · next f hf =>
      cases h
      refine ⟨fun _ _ => rfl, ?_⟩
      split
      · next hadd => simp [chainMove, hadd] at hf
      · rfl

namespace Publication

variable {ι : Type} (R : ChainRuns ι)

/-- The slot of a run. -/
def slot (r : ι) : ℕ := (R.pending r).slot

/-- The runs whose blocks went to the queue of a client, in this order. -/
def delivered (s : Publication ι) (client : String) : List ι :=
  (s.log.filter fun e => client ∈ e.2).map Prod.fst

/-- No run has made a call yet. -/
def start : Publication ι := { chain := .start R }

section Step

variable [DecidableEq ι]

/-- One step. -/
def step (s : Publication ι) : PublicationAction ι → Option (Publication ι)
  | .chain r => (s.chain.step R r).map fun chain => { s with chain }
  | .publish r =>
      if s.chain.failure.isNone ∧ (s.chain.run r).call = .done ∧ R.isAnyNodeContributing r = true ∧
          r ∉ s.log.map Prod.fst then
        some { s with
          consumer := s.consumer.publish (R.broadcastBlock r)
          log := s.log ++ [(r, s.consumer.clientNames)] }
      else none
  | .createChannel author => some { s with consumer := s.consumer.createChannel author }

/-- The pending blocks are appended in slot order. -/
def InSlotOrder (s : Publication ι) : PublicationAction ι → Prop
  | .chain r => (s.chain.run r).call = .add → ∀ r' ∈ s.chain.added, slot R r' < slot R r
  | _ => True

/-- Also, the calls on the chain do not disturb each other, and a run publishes only while no run
of a later slot has published to a client. -/
def Orderly (s : Publication ι) (act : PublicationAction ι) : Prop :=
  InSlotOrder R s act ∧
    match act with
    | .chain r => s.chain.Undisturbed r
    | .publish r => ∀ e ∈ s.log, e.2 ≠ [] → slot R e.1 < slot R r
    | .createChannel _ => True

instance (s : Publication ι) : ∀ act, Decidable (InSlotOrder R s act)
  | .chain _ => inferInstanceAs (Decidable (_ → _))
  | .publish _ => .isTrue trivial
  | .createChannel _ => .isTrue trivial

instance (s : Publication ι) : ∀ act, Decidable (Orderly R s act)
  | .chain _ => inferInstanceAs (Decidable (_ ∧ ChainState.Undisturbed _ _))
  | .publish _ => inferInstanceAs (Decidable (_ ∧ ∀ e ∈ s.log, _))
  | .createChannel _ => inferInstanceAs (Decidable (_ ∧ True))

end Step

/-! ## The invariant -/

/-- The log of the publications goes with the chain and with the queues. -/
structure Inv (s : Publication ι) : Prop where
  chain : ChainState.Inv R s.chain
  added : s.chain.added.Pairwise fun r r' => slot R r < slot R r'
  done : ∀ e ∈ s.log, (s.chain.run e.1).call = .done ∧ R.isAnyNodeContributing e.1 = true
  ordered : s.log.Pairwise fun e e' => e.2 ≠ [] → e'.2 ≠ [] → slot R e.1 < slot R e'.1
  queues : ∀ client, s.consumer.queues (Consumer.clientChannel client) =
    (s.delivered client).flatMap fun r => (R.broadcastBlock r).data

variable {R} {s s' : Publication ι}

theorem inv_start : Inv R (start R) :=
  ⟨ChainState.inv_start, List.Pairwise.nil, fun _ h => absurd h List.not_mem_nil,
    List.Pairwise.nil, fun _ => rfl⟩

theorem delivered_append (e : ι × List String) (client : String) {chain : ChainState ι}
    {consumer : Consumer} :
    delivered { chain, consumer, log := s.log ++ [e] } client =
      s.delivered client ++ if client ∈ e.2 then [e.1] else [] := by
  rw [delivered, List.filter_append, List.map_append, delivered]
  by_cases h : client ∈ e.2 <;> simp [h]

/-- **One step keeps the invariant**, if it meets the condition. -/
theorem Inv.step [DecidableEq ι] (h : Inv R s) {act : PublicationAction ι} (hok : Orderly R s act)
    (hstep : s.step R act = some s') : Inv R s' := by
  cases act with
  | chain r =>
    obtain ⟨c, hc, rfl⟩ := Option.map_eq_some_iff.1 hstep
    obtain ⟨hdone, hother, hadded⟩ := ChainState.step_frame hc
    refine ⟨h.chain.step hok.2 hc, ?_, fun e he => ?_, h.ordered, h.queues⟩
    · rw [hadded]
      split
      · next hadd =>
        refine List.pairwise_append.2 ⟨h.added, List.pairwise_singleton _ _, fun r' hr' b hb => ?_⟩
        rw [List.mem_singleton.1 hb]
        exact hok.1 hadd r' hr'
      · exact h.added
    · have hne : e.1 ≠ r := by
        rintro rfl
        exact hdone (h.done e he).1
      rw [hother e.1 hne]
      exact h.done e he
  | publish r =>
    rw [Publication.step] at hstep
    split at hstep
    · next hready =>
      cases hstep
      refine ⟨h.chain, h.added, fun e he => ?_, ?_, fun client => ?_⟩
      · rcases List.mem_append.1 he with he | he
        · exact h.done e he
        · rw [List.mem_singleton.1 he]
          exact ⟨hready.2.1, hready.2.2.1⟩
      · refine List.pairwise_append.2 ⟨h.ordered, List.pairwise_singleton _ _,
          fun e he e' he' hne _ => ?_⟩
        rw [List.mem_singleton.1 he']
        exact hok.2 e he hne
      · rw [Consumer.queues_publish, h.queues, delivered_append, List.flatMap_append]
        split <;> simp
    · cases hstep
  | createChannel author =>
    cases hstep
    exact ⟨h.chain, h.added, h.done, h.ordered, fun client => by
      rw [Consumer.queues_createChannel]
      exact h.queues client⟩

/-! ## The order of the chain -/

/-- The blocks that went to a client are in slot order. -/
theorem Inv.delivered_pairwise (h : Inv R s) (client : String) :
    (s.delivered client).Pairwise fun r r' => slot R r < slot R r' := by
  rw [delivered, List.pairwise_map, List.pairwise_filter]
  refine h.ordered.imp fun hlt he he' => hlt ?_ ?_
  · exact List.ne_nil_of_mem (by simpa using he)
  · exact List.ne_nil_of_mem (by simpa using he')

/-- What went to a client is a part of the chain, in the order of the chain. -/
theorem Inv.delivered_sublist (h : Inv R s) (client : String) :
    ((s.delivered client).map fun r => R.archive.serialize (R.broadcastBlock r)).Sublist
      s.chain.chain := by
  have hslots := h.delivered_pairwise client
  have hdone : ∀ r ∈ s.delivered client,
      (s.chain.run r).call = .done ∧ R.isAnyNodeContributing r = true := by
    intro r hr
    obtain ⟨e, he, rfl⟩ := List.mem_map.1 hr
    exact h.done e (List.mem_filter.1 he).1
  have hsub : (s.delivered client).Sublist s.chain.added := by
    have : Std.Antisymm fun r r' => slot R r < slot R r' :=
      ⟨fun _ _ hlt hgt => absurd (hlt.trans hgt) (lt_irrefl _)⟩
    have hnodup : (s.delivered client).Nodup := hslots.imp fun hlt heq => by
      rw [heq] at hlt
      exact lt_irrefl _ hlt
    have hsubset : s.delivered client ⊆ s.chain.added := fun r hr => by
      rw [h.chain.mem_added, (hdone r hr).1]
      exact nofun
    exact List.sublist_of_subperm_of_pairwise (List.subperm_of_subset hnodup hsubset) hslots h.added
  have hcontent : (s.delivered client).filterMap (s.chain.content R) =
      (s.delivered client).map fun r => R.archive.serialize (R.broadcastBlock r) := by
    rw [← List.filterMap_eq_map]
    exact List.filterMap_congr fun r hr => by
      simp [ChainState.content, (hdone r hr).1, (hdone r hr).2]
  rw [← hcontent, h.chain.chain_eq]
  exact (hsub.filterMap _).trans (List.sublist_append_right _ _)

/-- **Clients see blocks in chain order**, in every run whose steps meet the condition: the queue of
a client holds the data of blocks, one after the other, that stand in the chain in this order, and
this is the order of their slots. -/
theorem delivered_in_order [DecidableEq ι]
    (hr : Reaches (Publication.step R) (Orderly R) (start R) s) (client : String) :
    (s.delivered client).Pairwise (fun r r' => slot R r < slot R r') ∧
      ((s.delivered client).map fun r => R.archive.serialize (R.broadcastBlock r)).Sublist
        s.chain.chain ∧
      s.consumer.queues (Consumer.clientChannel client) =
        (s.delivered client).flatMap fun r => (R.broadcastBlock r).data := by
  have h : Inv R s := hr.invariant inv_start fun _ _ _ h hok hstep => h.step hok hstep
  exact ⟨h.delivered_pairwise client, h.delivered_sublist client, h.queues client⟩

end Publication

/-! ## Two runs -/

/-- The block of a slot with one message. -/
def oneMessage (slot : ℕ) (state : BlockState) : Block :=
  { state, timestamp := slot * Time.SLOT, slot, data := [⟨slot * Time.SLOT - 100, "x", "a"⟩] }

/-- The runs of slot 2 and of slot 3, in both of which a message was collected. -/
def twoSlots : ChainRuns Bool where
  archive := textArchive
  chain := []
  pending := fun later => oneMessage (if later then 3 else 2) .PENDING
  isAnyNodeContributing := fun _ => true
  broadcastBlock := fun later => oneMessage (if later then 3 else 2) .COMPLETED
  pending_state := by decide
  broadcastBlock_state := by decide
  pending_injective := by
    intro r r'
    cases r <;> cases r' <;> simp [oneMessage]
  pending_not_mem := by decide

/-- Both runs write their blocks, in slot order. -/
def bothWrite : List (PublicationAction Bool) :=
  [.createChannel "c", .chain false, .chain true, .chain false, .chain true]

/-- Who writes first publishes first. -/
theorem Publication.delivered_in_order_twoSlots : ∃ s : Publication Bool,
    s.delivered "c" = [false, true] ∧
      (s.consumer.queues "c_ClientChannel").map Message.timestamp = [900, 1400] := by
  obtain ⟨s, hr, hs⟩ := exists_reaches (step twoSlots) (Orderly twoSlots) (start twoSlots)
    (bothWrite ++ [.publish false, .publish true]) (fun s => s.delivered "c" = [false, true])
    (by decide +kernel)
  simp only [decide_eq_true_eq] at hs
  refine ⟨s, hs, ?_⟩
  rw [show "c_ClientChannel" = Consumer.clientChannel "c" from rfl,
    (delivered_in_order hr "c").2.2, hs]
  rfl

/-- The run of slot 3 publishes before the run of slot 2, whose block stands before its own. -/
theorem Publication.not_delivered_in_order_twoSlots :
    ¬ ∀ s, Reaches (step twoSlots) (InSlotOrder twoSlots) (start twoSlots) s →
      (s.delivered "c").Pairwise fun r r' => slot twoSlots r < slot twoSlots r' := by
  intro hall
  obtain ⟨s, hr, hs⟩ := exists_reaches (step twoSlots) (InSlotOrder twoSlots) (start twoSlots)
    (bothWrite ++ [.publish true, .publish false]) (fun s => s.delivered "c" = [true, false])
    (by decide +kernel)
  simp only [decide_eq_true_eq] at hs
  have hpairwise := hall s hr
  rw [hs] at hpairwise
  exact absurd hpairwise (by decide)

end BlockchainMessaging
