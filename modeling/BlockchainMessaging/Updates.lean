import BlockchainMessaging.HandlerSpec
import BlockchainMessaging.Network

/-!
# Updates on their way

What one node tells another is a sequence of updates of one table entry.  An update that
`y` has sent to `x` is in the channel, or among the calls that the consensus thread of `x`
has still to make, until `x` executes it: `Sys.pending s y x` is this queue.

Every invariant of the system rests on what a node knows about itself in every run: which
keys its table has, which slot and which address stand in its header, which block it works
on, and where in the code it can be.

## Main definitions

* `HandlerOp.isUpdate`, `ConsensusMessage.updates`, `Sys.pending` — the queues.
* `Sys.step_slot_eq_some` and its companions — what a step of the system is.
* `Local`, `Base` — what every node knows about itself.
* `NodeStep`, `Base.nodeStep` — what a step of the system does to one node.
-/

namespace BlockchainMessaging

open ConsensusStorage

/-! ## The queues -/

/-- The call changes an entry of the table. -/
def HandlerOp.isUpdate : HandlerOp → Bool
  | .addContext => true
  | .setContribution _ => true
  | .fillElectionValue _ => true
  | .addBlock _ => true
  | .marAsResolved => true
  | _ => false

/-- The updates that a message asks for. -/
def ConsensusMessage.updates (m : ConsensusMessage) : List HandlerOp :=
  ((handlerScript m).getD []).filter HandlerOp.isUpdate

namespace Sys

variable {D : Deployment} {s s' : Sys} {a b x y : String}

/-- The updates of the message of `y` that `x` has in hand. -/
def inHand (s : Sys) (y x : String) : List HandlerOp :=
  if (s.node x).header.address = y then (s.node x).todo.filter HandlerOp.isUpdate else []

/-- The updates that `y` has sent to `x` and `x` has not executed yet, oldest first. -/
def pending (s : Sys) (y x : String) : List HandlerOp :=
  s.inHand y x ++ (s.channel y x).inFlight.flatMap ConsensusMessage.updates

/-! ## The steps -/

theorem step_slot_eq_some (h : step D s (.slot a) = some s') :
    a ∈ D.addresses ∧ (s.node a).failure = none ∧ (s.node a).pc.blocked = false ∧
      s' = (s.setNode a (slotMove (D.env a) (s.node a)).1).publish a
        (slotSends (D.env a) (s.node a)) := by
  simp only [step] at h
  split at h
  · next ha =>
    obtain ⟨r, hr, rfl⟩ := Option.map_eq_some_iff.1 h
    obtain ⟨hf, hb, rfl⟩ := slotStep_eq_some hr
    exact ⟨ha, hf, hb, by rw [slotMove_sends]⟩
  · cases h

theorem step_wake_eq_some (h : step D s (.wake a) = some s') :
    a ∈ D.addresses ∧ (s.node a).failure = none ∧ ∃ w, (s.node a).pc = .wait w .asleep ∧
      s' = s.setNode a { s.node a with pc := .wait w .eval } := by
  simp only [step] at h
  split at h
  · next ha =>
    obtain ⟨n, hn, rfl⟩ := Option.map_eq_some_iff.1 h
    obtain ⟨hf, w, hw, rfl⟩ := wakeStep_eq_some hn
    exact ⟨ha, hf, w, hw, rfl⟩
  · cases h

theorem step_handle_eq_some (h : step D s (.handle a) = some s') :
    a ∈ D.addresses ∧ (s.node a).failure = none ∧ ∃ op rest, (s.node a).todo = op :: rest ∧
      s' = s.setNode a (op.exec { s.node a with todo := rest }) := by
  simp only [step] at h
  split at h
  · next ha =>
    obtain ⟨n, hn, rfl⟩ := Option.map_eq_some_iff.1 h
    obtain ⟨hf, op, rest, htodo, rfl⟩ := handlerStep_eq_some hn
    exact ⟨ha, hf, op, rest, htodo, rfl⟩
  · cases h

theorem step_receive_eq_some (h : step D s (.receive a b) = some s') :
    a ∈ D.addresses ∧ (s.node a).failure = none ∧ (s.node a).todo = [] ∧
      ∃ m rest, (s.channel b a).inFlight = m :: rest ∧
        s' = (s.setNode a (match handlerScript m with
          | some todo => { s.node a with header := m.header, todo }
          | none => (s.node a).fail .badArchive)).deliver a b m rest := by
  simp only [step] at h
  split at h
  · next ha =>
    split at h
    · cases h
    · next m rest hchannel =>
      obtain ⟨n, hn, rfl⟩ := Option.map_eq_some_iff.1 h
      obtain ⟨hf, htodo, hm⟩ := receiveStep_eq_some hn
      refine ⟨ha, hf, htodo, m, rest, hchannel, ?_⟩
      cases hscript : handlerScript m <;> simp only [hscript] at hm ⊢ <;> rw [hm]
  · cases h

@[simp] theorem node_setNode (s : Sys) (a : String) (n : Node) (x : String) :
    (s.setNode a n).node x = if x = a then n else s.node x := by
  simp only [setNode, Function.update_apply]

@[simp] theorem channel_setNode (s : Sys) (a : String) (n : Node) :
    (s.setNode a n).channel = s.channel := rfl

@[simp] theorem node_publish (s : Sys) (a : String) (sends : List Send) :
    (s.publish a sends).node = s.node := rfl

@[simp] theorem node_deliver (s : Sys) (a b : String) (m : ConsensusMessage)
    (rest : List ConsensusMessage) : (s.deliver a b m rest).node = s.node := rfl

/-- A call of the slot thread of `x` is a call of `slotMove`. -/
theorem node_slot (h : step D s (.slot x) = some s') :
    (s.node x).failure = none ∧ (s.node x).pc.blocked = false ∧
      s'.node x = (slotMove (D.env x) (s.node x)).1 := by
  obtain ⟨-, hf, hb, rfl⟩ := step_slot_eq_some h
  exact ⟨hf, hb, by simp⟩

/-- What is not a call of the slot thread of `x` leaves most of `x` alone. -/
theorem node_passive {act : Action} (h : step D s act = some s') (hne : act ≠ .slot x) :
    (s'.node x).context = (s.node x).context ∧ (s'.node x).chain = (s.node x).chain ∧
      (s'.node x).draws = (s.node x).draws ∧ (s'.node x).sync = (s.node x).sync ∧
      (s'.node x).owned = (s.node x).owned ∧ (s.node x).pc.Woken (s'.node x).pc := by
  cases act with
  | slot a =>
    obtain ⟨-, -, -, rfl⟩ := step_slot_eq_some h
    have hxa : x ≠ a := fun hxa => hne (by rw [hxa])
    simp [hxa, SlotPc.Woken]
  | wake a =>
    obtain ⟨-, -, w, hw, rfl⟩ := step_wake_eq_some h
    by_cases hxa : x = a
    · subst hxa
      simp [hw, SlotPc.Woken]
    · simp [hxa, SlotPc.Woken]
  | handle a =>
    obtain ⟨-, -, op, rest, -, rfl⟩ := step_handle_eq_some h
    by_cases hxa : x = a
    · subst hxa
      obtain ⟨st, pc, todo, failure, hexec, hpc, -⟩ :=
        op.exec_frame { s.node x with todo := rest }
      simpa [hexec] using hpc
    · simp [hxa, SlotPc.Woken]
  | receive a b =>
    obtain ⟨-, -, -, m, rest, -, rfl⟩ := step_receive_eq_some h
    by_cases hxa : x = a
    · subst hxa
      cases handlerScript m <;> simp [SlotPc.Woken, Node.fail]
    · simp [hxa, SlotPc.Woken]

/-- No slot thread goes back. -/
theorem rank_le {act : Action} (h : step D s act = some s') (x : String) :
    (s.node x).pc.rank ≤ (s'.node x).pc.rank := by
  by_cases hact : act = .slot x
  · subst hact
    rw [(node_slot h).2.2]
    exact slotMove_rank _ _
  · exact (node_passive h hact).2.2.2.2.2.rank_eq.ge

/-- Only its own slot thread takes a node further. -/
theorem eq_slot_of_rank_lt {act : Action} (h : step D s act = some s') {x : String}
    (hlt : (s.node x).pc.rank < (s'.node x).pc.rank) : act = .slot x := by
  by_contra hact
  exact hlt.ne ((node_passive h hact).2.2.2.2.2).rank_eq.symm

/-- Who leaves the election nominates next. -/
theorem nominate_of_rank {act : Action} (h : step D s act = some s') {x : String}
    (hin : (s.node x).pc.rank < 14) (hleft : 14 ≤ (s'.node x).pc.rank) :
    (s'.node x).pc = .nominate := by
  obtain rfl := eq_slot_of_rank_lt h (hin.trans_le hleft)
  have hnext := slotMove_pc (R := fun pc pc' => pc.rank < 14 → 14 ≤ pc'.rank → pc' = .nominate)
    (by decide +kernel) (D.env x) (s.node x) hin
  rw [(node_slot h).2.2] at hleft ⊢
  exact hnext hleft

/-- No draw is taken back. -/
theorem draws_le {act : Action} (h : step D s act = some s') (x : String) :
    (s.node x).draws ≤ (s'.node x).draws := by
  by_cases hact : act = .slot x
  · subst hact
    have hdraws := slotMove_draws (D.env x) (s.node x)
    rw [(node_slot h).2.2]
    split at hdraws
    · simp [(Prod.mk.inj hdraws).1]
    · simp [(Prod.mk.inj hdraws).1]
  · exact (node_passive h hact).2.2.1.ge

/-- After the election, no more values are drawn. -/
theorem draws_eq {act : Action} (h : step D s act = some s') {x : String}
    (h14 : 14 ≤ (s.node x).pc.rank) : (s'.node x).draws = (s.node x).draws := by
  by_cases hact : act = .slot x
  · subst hact
    have hdraws := slotMove_draws (D.env x) (s.node x)
    rw [(node_slot h).2.2]
    split at hdraws
    · next again hpc =>
      rw [hpc] at h14
      cases again <;> simp [SlotPc.rank] at h14
    · exact (Prod.mk.inj hdraws).1
  · exact (node_passive h hact).2.2.1

/-- What is not a call of a thread of `x` leaves its storage alone. -/
theorem storage_eq {act : Action} (h : step D s act = some s') (hslot : act ≠ .slot x)
    (hhandle : act ≠ .handle x) : (s'.node x).storage = (s.node x).storage := by
  cases act with
  | slot a =>
    obtain ⟨-, -, -, rfl⟩ := step_slot_eq_some h
    have hxa : x ≠ a := fun hxa => hslot (by rw [hxa])
    simp [hxa]
  | wake a =>
    obtain ⟨-, -, w, hw, rfl⟩ := step_wake_eq_some h
    by_cases hxa : x = a <;> simp [hxa]
  | handle a =>
    obtain ⟨-, -, op, rest, -, rfl⟩ := step_handle_eq_some h
    have hxa : x ≠ a := fun hxa => hhandle (by rw [hxa])
    simp [hxa]
  | receive a b =>
    obtain ⟨-, -, -, m, rest, -, rfl⟩ := step_receive_eq_some h
    by_cases hxa : x = a
    · cases handlerScript m <;> simp [hxa, Node.fail]
    · simp [hxa]

/-- No message marks anybody. -/
theorem isValidator_eq {act : Action} (h : step D s act = some s') (hne : act ≠ .slot x)
    (a : String) (slot : ℕ) : ((s'.node x).storage.context a slot).isValidator =
      ((s.node x).storage.context a slot).isValidator := by
  by_cases hhandle : act = .handle x
  · subst hhandle
    obtain ⟨-, -, op, rest, -, rfl⟩ := step_handle_eq_some h
    simpa using op.exec_field { s.node x with todo := rest }
      ConsensusContext.isValidator (.inl fun node c => by cases op <;> rfl) a
  · rw [storage_eq h hne hhandle]

/-- The messages among `sends` that go to `x`. -/
def sendsTo (sends : List Send) (x : String) : List ConsensusMessage :=
  sends.filterMap fun m => if m.1 = x then some m.2 else none

theorem mem_sendsTo {sends : List Send} {x : String} {m : ConsensusMessage} :
    m ∈ sendsTo sends x ↔ (x, m) ∈ sends := by
  simp only [sendsTo, List.mem_filterMap]
  constructor
  · rintro ⟨⟨a, m'⟩, hmem, heq⟩
    split at heq
    · next hax =>
      cases heq
      rwa [← show a = x from hax]
    · cases heq
  · exact fun hmem => ⟨_, hmem, by simp⟩

theorem inFlight_publish (s : Sys) (a : String) (sends : List Send) (y x : String) :
    ((s.publish a sends).channel y x).inFlight =
      (s.channel y x).inFlight ++ if y = a then sendsTo sends x else [] := by
  by_cases h : y = a <;> simp [publish, sendsTo, h]

theorem sent_publish (s : Sys) (a : String) (sends : List Send) (y x : String) :
    ((s.publish a sends).channel y x).sent =
      (s.channel y x).sent ++ if y = a then sendsTo sends x else [] := by
  by_cases h : y = a <;> simp [Channel.sent, publish, sendsTo, h]

theorem delivered_publish (s : Sys) (a : String) (sends : List Send) (y x : String) :
    ((s.publish a sends).channel y x).delivered = (s.channel y x).delivered := by
  by_cases h : y = a <;> simp [publish, h]

theorem channel_deliver (s : Sys) (a b : String) (m : ConsensusMessage)
    (rest : List ConsensusMessage) (y x : String) :
    (s.deliver a b m rest).channel y x =
      if y = b ∧ x = a then ⟨(s.channel b a).delivered ++ [m], rest⟩ else s.channel y x := by
  by_cases h : y = b ∧ x = a
  · simp [deliver, h]
  · simp [deliver, h]

/-- A delivery sends nothing. -/
theorem sent_deliver {s : Sys} {a b : String} {m : ConsensusMessage}
    {rest : List ConsensusMessage} (h : (s.channel b a).inFlight = m :: rest) (y x : String) :
    ((s.deliver a b m rest).channel y x).sent = (s.channel y x).sent := by
  rw [channel_deliver]
  split
  · next hyx =>
    obtain ⟨rfl, rfl⟩ := hyx
    simp [Channel.sent, h]
  · rfl

/-- A message to all peers goes to each of them once. -/
theorem sendsTo_map (remotes : List String) (hnodup : remotes.Nodup) (m : ConsensusMessage)
    (x : String) : sendsTo (remotes.map fun a => (a, m)) x = if x ∈ remotes then [m] else [] := by
  induction remotes with
  | nil => rfl
  | cons r rs ih =>
    obtain ⟨hr, hrs⟩ := List.nodup_cons.1 hnodup
    have ih := ih hrs
    simp only [sendsTo, List.map_cons, List.filterMap_cons] at ih ⊢
    by_cases hx : r = x
    · subst hx
      simp [ih, hr]
    · simp [hx, ih, Ne.symm hx]

end Sys

/-! ## What a node knows about itself -/

/-- Whether only the validator, or only another node, comes here. -/
def SlotPc.role : SlotPc → Option Bool
  | .relayBlock | .relayPublish | .relayResolved => some false
  | .wait .contributorsData .enter => none
  | .wait .contributorsData _ | .collectMerge | .collectResolved | .collectReset => some true
  | .wait .broadcast .enter => none
  | .wait .broadcast _ | .awaitResolved | .awaitBlock | .awaitReset => some false
  | _ => none

/-- The places where the lock of a wait may be owned.  Only the election goes back to where it
takes the lock. -/
def SlotPc.mayOwn : SlotPc → Bool
  | .wait .election .lock => true
  | .wait _ .eval | .wait _ .window | .wait _ .asleep => true
  | .inspectionReset | .electPresent | .electUnique | .electRecheck | .electRemoveDuplicates |
    .electReset => true
  | .collectMerge | .collectResolved | .collectReset => true
  | .awaitResolved | .awaitBlock | .awaitReset => true
  | _ => false

/-- How many of its election values a node has sent. -/
def Node.votes (n : Node) : ℕ :=
  match n.pc with
  | .votePublish _ => n.draws - 1
  | _ => n.draws

/-- Only a publication changes how many values were sent. -/
theorem slotMove_votes (E : SlotEnv) (n : Node) :
    (slotMove E n).1.votes =
      match n.pc with
      | .votePublish _ => n.draws
      | _ => n.votes := by
  have hdraws := slotMove_draws E n
  have hpc' := slotMove_pc (R := fun pc pc' => pc' ∈ [SlotPc.votePublish false, .votePublish true] →
    pc ∈ [SlotPc.voteFill false, .voteFill true, .votePublish false, .votePublish true])
    (by decide +kernel) E n
  cases hpc : n.pc
  case voteFill again => simp [slotMove, Node.votes, hpc, Node.setOperation]
  case votePublish again => cases again <;> simp [slotMove, Node.votes, hpc]
  all_goals
    simp only [hpc, Prod.mk.injEq, List.mem_cons, reduceCtorEq, List.not_mem_nil, or_false,
      imp_false, not_or] at hdraws hpc'
    simp only [Node.votes, hpc]
    split
    · next again h => cases again <;> simp [h] at hpc'
    · exact hdraws.1

theorem Node.votes_le_draws (n : Node) : n.votes ≤ n.draws := by
  rw [votes]
  split <;> omega

/-- What the node `x` knows about itself, in every run. -/
structure Local (D : Deployment) (x : String) (n : Node) : Prop where
  mem_keys : ∀ a, a ∈ n.storage.contexts.keys ↔ a ∈ D.addresses
  nodeConfiguration : n.storage.nodeConfiguration = (D.env x).configuration
  onSlot : n.OnSlot (D.env x)
  address : 4 ≤ n.pc.rank → n.context.header.address = x ∧
    n.context.serializedHeader = n.context.header
  operation : ∀ o ∈ n.pc.operation, n.context.header.operation = o
  isContributing : 3 ≤ n.pc.rank → n.context.isContributing = (D.env x).isContributing
  block : 3 ≤ n.pc.rank → n.pc.rank ≤ 27 → n.context.block = (D.env x).pendingBlock
  validator : 16 ≤ n.pc.rank → n.context.validator ∈ D.addresses ∧
    n.context.isValidator = decide (n.context.validator = x)
  role : ∀ b ∈ n.pc.role, n.context.isValidator = b
  relays : 16 ≤ n.pc.rank → n.pc.rank ≤ 18 → n.context.isContributing = true
  draws : n.draws = 0 ∧ n.pc.rank ≤ 11 ∨ n.draws = 1 ∧ n.pc.rank = 12 ∨
    0 < n.votes ∧ 13 ≤ n.pc.rank
  electionValue : ∀ again, n.pc = .votePublish again →
    n.electionValue = (D.env x).draw (n.draws - 1)
  unmarked : n.pc.rank ≤ 14 → ∀ a, (n.storage.context a D.slot).isValidator = false
  marked : n.pc.rank = 15 → ∃ m ∈ D.addresses, ∀ a,
    (n.storage.context a D.slot).isValidator = decide (a = m)
  markedValidator : 16 ≤ n.pc.rank → n.pc.rank ≤ 28 → ∀ a,
    (n.storage.context a D.slot).isValidator = decide (a = n.context.validator)
  owned : n.owned = true → n.pc.mayOwn = true
  sender : n.todo ≠ [] → n.header.slot = D.slot ∧ n.header.address ∈ D.addresses ∧
    n.header.address ≠ x
  scripted : Scripted n.todo

namespace Local

variable {D : Deployment} {x : String} {n : Node}

/-- The slot thread only uses addresses that the table holds. -/
theorem knownAddresses (hl : Local D x n) (hx : x ∈ D.addresses) :
    KnownAddresses (D.env x) n := by
  constructor
  case self => rwa [hl.mem_keys, D.self_eq x hx]
  case configured =>
    intro a ha
    rw [hl.nodeConfiguration, NodeConfiguration.addresses, List.mem_cons] at ha
    rw [hl.mem_keys]
    rcases ha with rfl | ha
    · rwa [D.self_address hx]
    · exact ((D.mem_remotes x hx a).1 ha).1
  case cString => exact fun a ha => D.cString a ((hl.mem_keys a).1 ha)
  case header =>
    intro hpc
    rwa [(hl.address (by rw [hpc]; decide)).1, hl.mem_keys]
  case validator =>
    intro hpc
    rw [hl.mem_keys]
    refine (hl.validator ?_).1
    have hall : ∀ pc : SlotPc, pc.readsValidator = true → 16 ≤ pc.rank := by decide +kernel
    exact hall _ hpc

/-- The table holds everybody. -/
theorem keys_perm (hl : Local D x n) : n.storage.contexts.keys.Perm D.addresses :=
  (List.perm_ext_iff_of_nodup n.storage.contexts.nodup D.nodup).2 hl.mem_keys

theorem slot_eq (hl : Local D x n) (hx : x ∈ D.addresses) (h : 4 ≤ n.pc.rank) :
    n.context.header.slot = D.slot := by
  rw [hl.onSlot.header h, D.pending_slot x hx]

/-- Who has sent a vote is in the election, or past it. -/
theorem rank_of_votes (hl : Local D x n) (h : 0 < n.votes) : 13 ≤ n.pc.rank := by
  rcases hl.draws with ⟨h0, -⟩ | ⟨h1, h12⟩ | ⟨-, h13⟩
  · have := n.votes_le_draws
    omega
  · have hpc : ∀ pc : SlotPc, pc.rank = 12 → pc = .votePublish false := by decide +kernel
    simp [Node.votes, hpc _ h12, h1] at h
  · exact h13

/-- A nomination marks the elected address and no other. -/
theorem nominate (hl : Local D x n) (hx : x ∈ D.addresses) (hpc : n.pc = .nominate) :
    ∃ v ∈ D.addresses, n.storage.electedValidator D.slot = some v ∧
      (BlockchainMessaging.slotMove (D.env x) n).1.pc = .relayValidator ∧
      ∀ a, ((BlockchainMessaging.slotMove (D.env x) n).1.storage.context a D.slot).isValidator =
        decide (a = v) := by
  have hslot := hl.slot_eq hx (by rw [hpc]; decide)
  obtain ⟨v, hv⟩ := exists_electedValidator ((hl.mem_keys x).2 hx) D.slot
  have hmem := (hl.mem_keys v).1 (electedValidator_mem hv)
  refine ⟨v, hmem, hv, slotMove_nominate _ hpc (by rw [hslot, hv]), fun a => ?_⟩
  have hfalse := hl.unmarked (by rw [hpc]; decide) a
  have hwork : n.workSlot = D.slot := by simp [Node.workSlot, hpc, hslot]
  simp only [slotMove_table, hwork, if_true, slotEffect, hpc, hslot, hv, Option.map_some,
    D.cString v hmem, Option.some.injEq]
  by_cases ha : v = a
  · simp [ha]
  · simp [ha, Ne.symm ha, hfalse]

/-- The header names the message that is sent next. -/
theorem operation_slotMove (hl : Local D x n) :
    ∀ o ∈ (slotMove (D.env x) n).1.pc.operation,
      (slotMove (D.env x) n).1.context.header.operation = o := by
  intro o ho
  have hback := slotMove_pc (R := fun pc pc' => pc'.operation = none ∨
    pc'.operation = pc.operation ∨
    pc = .saveBlock ∧ pc'.operation = some .INSPECTION ∨
    pc ∈ [SlotPc.voteFill false, .voteFill true] ∧ pc'.operation = some .ELECTION ∨
    pc = .relayValidator ∧ pc'.operation = some .UPLOADING) (by decide +kernel) (D.env x) n
  rw [Option.mem_def] at ho
  rw [slotMove_context]
  simp only [ho, reduceCtorEq, false_or, Option.some.injEq] at hback
  rcases hback with hsame | ⟨hsave, rfl⟩ | ⟨hfill, rfl⟩ | ⟨hrelay, rfl⟩
  · rw [slotContext_operation _ (by simp [← hsame])]
    exact hl.operation o hsame.symm
  · simp [slotContext, hsave]
  · simp only [List.mem_cons, List.not_mem_nil, or_false] at hfill
    rcases hfill with hfill | hfill <;> simp [slotContext, hfill, Node.setOperation]
  · simp only [slotContext, hrelay]
    split <;> simp [Node.setOperation]

/-- Until the update the block is the one that was popped. -/
theorem block_slotMove (hl : Local D x n) (hrank : 3 ≤ (slotMove (D.env x) n).1.pc.rank)
    (hle : (slotMove (D.env x) n).1.pc.rank ≤ 27) :
    (slotMove (D.env x) n).1.context.block = (D.env x).pendingBlock := by
  have hback := slotMove_pc (R := fun pc pc' => 3 ≤ pc'.rank → pc'.rank ≤ 27 →
    pc = .saveAdd ∨ 3 ≤ pc.rank ∧ pc.rank ≤ 27)
    (by decide +kernel) (D.env x) n hrank hle
  rw [slotMove_context]
  rcases hback with hadd | ⟨h3, h27⟩
  · simp [slotContext, hadd]
  · have hadd : n.pc ≠ .saveAdd := fun h => by simp [h, SlotPc.rank] at h3
    by_cases hupdate : n.pc = .completeUpdate
    · -- Only a refused update leaves the thread before `clearSlot`.
      simp only [slotMove, hupdate] at hle
      split at hle
      · simp [SlotPc.rank] at hle
      · next hrefused =>
        have hkept : (slotContext (D.env x) n).block = n.context.block := by
          simp only [slotContext, hupdate, hrefused]
        rw [hkept]
        exact hl.block h3 h27
    · rw [slotContext_block _ hadd hupdate]
      exact hl.block h3 h27

/-- Each of the two last waits is entered by whom it is for. -/
theorem role_slotMove (hl : Local D x n) :
    ∀ b ∈ (slotMove (D.env x) n).1.pc.role,
      (slotMove (D.env x) n).1.context.isValidator = b := by
  intro b hb
  have hback := slotMove_pc (R := fun pc pc' => pc'.role = none ∨
    pc'.role = pc.role ∧ pc ≠ .relayValidator ∨
    pc = .wait .contributorsData .enter ∧ pc'.role = some true ∧ pc' ≠ .broadcast ∨
    pc = .wait .broadcast .enter ∧ pc'.role = some false ∧ pc' ≠ .completeUpdate ∨
    pc = .relayValidator ∧ pc' = .relayBlock) (by decide +kernel) (D.env x) n
  rw [Option.mem_def] at hb
  rw [slotMove_context]
  simp only [hb, reduceCtorEq, false_or, Option.some.injEq] at hback
  rcases hback with ⟨hsame, hrelay⟩ | ⟨henter, rfl, hne⟩ | ⟨henter, rfl, hne⟩ | ⟨hrelay, hpc'⟩
  · rw [(slotContext_validator _ hrelay).2]
    exact hl.role b hsame.symm
  · rw [(slotContext_validator _ (by simp [henter])).2]
    by_contra hv
    exact hne ((slotMove_enter _).1 henter (by simpa using hv))
  · rw [(slotContext_validator _ (by simp [henter])).2]
    by_contra hv
    exact hne ((slotMove_enter _).2 henter (by simpa using hv))
  · obtain ⟨v, hv, hif⟩ := slotMove_relayValidator (D.env x) hrelay (by simp [hpc'])
    rw [hpc'] at hb hif
    obtain rfl : false = b := by simpa [SlotPc.role] using hb
    have hself : cStr v ≠ (D.env x).self := by
      intro hself
      simp [hself] at hif
    simp [slotContext, hrelay, hv, hself]

/-- Who stands in the election, or past it, has sent a vote. -/
theorem draws_slotMove (hl : Local D x n) :
    (slotMove (D.env x) n).1.draws = 0 ∧ (slotMove (D.env x) n).1.pc.rank ≤ 11 ∨
      (slotMove (D.env x) n).1.draws = 1 ∧ (slotMove (D.env x) n).1.pc.rank = 12 ∨
      0 < (slotMove (D.env x) n).1.votes ∧ 13 ≤ (slotMove (D.env x) n).1.pc.rank := by
  have hdraws := slotMove_draws (D.env x) n
  have hvotes := slotMove_votes (D.env x) n
  have hrank := slotMove_pc (R := fun pc pc' =>
    (pc.rank ≤ 11 → pc = .voteFill false ∨ pc ≠ .voteFill true ∧ pc'.rank ≤ 11) ∧
    (pc.rank = 12 → pc = .votePublish false) ∧ (13 ≤ pc.rank → 13 ≤ pc'.rank))
    (by decide +kernel) (D.env x) n
  rcases hl.draws with ⟨h0, h11⟩ | ⟨h1, h12⟩ | ⟨hv, h13⟩
  · by_cases hfill : n.pc = .voteFill false
    · refine .inr (.inl ?_)
      simp [slotMove, hfill, h0, SlotPc.rank, Node.setOperation]
    · obtain ⟨hne, h11'⟩ := (hrank.1 h11).resolve_left hfill
      refine .inl ⟨?_, h11'⟩
      split at hdraws
      · next again hagain => cases again <;> contradiction
      · exact (Prod.mk.inj hdraws).1.trans h0
  · refine .inr (.inr ?_)
    simp [slotMove, hrank.2.1 h12, h1, Node.votes, SlotPc.rank]
  · refine .inr (.inr ⟨?_, hrank.2.2 h13⟩)
    rw [hvotes]
    split
    · exact lt_of_lt_of_le hv n.votes_le_draws
    · exact hv

/-- From the relay to the end of the slot, the thread knows who is marked. -/
theorem markedValidator_slotMove (hl : Local D x n) (hx : x ∈ D.addresses)
    (h16 : 16 ≤ (slotMove (D.env x) n).1.pc.rank) (h28 : (slotMove (D.env x) n).1.pc.rank ≤ 28)
    (a : String) : ((slotMove (D.env x) n).1.storage.context a D.slot).isValidator =
      decide (a = (slotMove (D.env x) n).1.context.validator) := by
  have hback := slotMove_pc (R := fun pc pc' => 16 ≤ pc'.rank ∧ pc'.rank ≤ 28 →
    pc ≠ .nominate ∧ (pc = .relayValidator ∧ pc' ≠ .relayValidator ∨
      pc ≠ .relayValidator ∧ 16 ≤ pc.rank ∧ pc.rank ≤ 28))
    (by decide +kernel) (D.env x) n ⟨h16, h28⟩
  have hclear : n.pc ≠ .completeClear := by
    intro hclear
    simp [slotMove, hclear, SlotPc.rank] at h28
  obtain ⟨hnominate, hrelay | ⟨hrelay, h16, h28⟩⟩ := hback
  · obtain ⟨v, hv, -⟩ := slotMove_relayValidator _ hrelay.1 hrelay.2
    obtain ⟨m, -, hmarks⟩ := hl.marked (by rw [hrelay.1]; rfl)
    have hslot := hl.slot_eq hx (by rw [hrelay.1]; decide)
    obtain ⟨hmem, hmark⟩ := markedValidator_eq_some hv
    rw [hslot, hmarks v, decide_eq_true_eq] at hmark
    subst hmark
    rw [slotMove_isValidator _ hnominate hclear, hmarks a, slotMove_context]
    simp [slotContext, hrelay.1, hv, D.cString v ((hl.mem_keys v).1 hmem)]
  · rw [slotMove_isValidator _ hnominate hclear, slotMove_context,
      (slotContext_validator _ hrelay).1]
    exact hl.markedValidator h16 h28 a

/-- Where the lock is owned, it may be. -/
theorem owned_slotMove (hl : Local D x n) (howned : (slotMove (D.env x) n).1.owned = true) :
    (slotMove (D.env x) n).1.pc.mayOwn = true := by
  have hback := slotMove_pc (R := fun pc pc' => pc.mayOwn = true → pc'.mayOwn = true ∨
    pc ∈ [SlotPc.inspectionReset, .electReset, .collectReset, .awaitReset] ∨
    pc = .electUnique) (by decide +kernel) (D.env x) n
  rcases owned_of_slotMove howned with ⟨w, hlock⟩ | ⟨hown, hnone, hnot⟩
  · by_cases hfree : n.owned = true
    · -- A lock that is owned already is refused.
      have : (slotMove (D.env x) n).1.pc = n.pc := by
        simp [slotMove, hlock, waitMove, hfree, Node.fail]
      rw [this]
      exact hl.owned hfree
    · simp [slotMove, hlock, waitMove, hfree, SlotPc.mayOwn]
  · rcases hback (hl.owned hown) with hmay | hreset | hunique
    · exact hmay
    · exact absurd hreset hnone
    · simp [slotMove, hunique, hnot hunique, SlotPc.mayOwn]

/-- A call of the slot thread. -/
theorem slotMove (hl : Local D x n) (hx : x ∈ D.addresses) :
    Local D x (slotMove (D.env x) n).1 := by
  have hframe := slotMove_frame (D.env x) n
  have hcontext := slotMove_context (D.env x) n
  constructor
  case mem_keys =>
    intro a
    rw [slotMove_keys (hl.knownAddresses hx)]
    exact hl.mem_keys a
  case nodeConfiguration => rw [slotMove_nodeConfiguration, hl.nodeConfiguration]
  case onSlot => exact hl.onSlot.slotMove
  case address =>
    intro hrank
    have hback := slotMove_pc (R := fun pc pc' => 4 ≤ pc'.rank → pc = .saveBlock ∨ 4 ≤ pc.rank)
      (by decide +kernel) (D.env x) n hrank
    rw [hcontext]
    by_cases hsave : n.pc = .saveBlock
    · refine ⟨?_, slotContext_serializedHeader _ (.inl hsave)⟩
      simpa [slotContext, hsave] using D.self_address hx
    · have h := hl.address (hback.resolve_left hsave)
      exact ⟨(slotContext_header_address _ hsave).trans h.1,
        slotContext_serializedHeader _ (.inr h.2)⟩
  case operation => exact hl.operation_slotMove
  case isContributing =>
    intro hrank
    have hback := slotMove_pc (R := fun pc pc' => 3 ≤ pc'.rank → pc = .saveAdd ∨ 3 ≤ pc.rank)
      (by decide +kernel) (D.env x) n hrank
    rw [hcontext]
    by_cases hadd : n.pc = .saveAdd
    · simp [slotContext, hadd]
    · rw [slotContext_isContributing _ hadd]
      exact hl.isContributing (hback.resolve_left hadd)
  case block => exact hl.block_slotMove
  case validator =>
    intro hrank
    have hback := slotMove_pc (R := fun pc pc' => 16 ≤ pc'.rank →
      pc = .relayValidator ∧ pc' ≠ .relayValidator ∨ pc ≠ .relayValidator ∧ 16 ≤ pc.rank)
      (by decide +kernel) (D.env x) n hrank
    rw [hcontext]
    rcases hback with ⟨hrelay, hne⟩ | ⟨hrelay, h16⟩
    · obtain ⟨v, hv, -⟩ := slotMove_relayValidator _ hrelay hne
      have hmem := (hl.mem_keys v).1 (markedValidator_eq_some hv).1
      simp [slotContext, hrelay, hv, D.cString v hmem, D.self_eq x hx, hmem]
    · rw [(slotContext_validator _ hrelay).1, (slotContext_validator _ hrelay).2]
      exact hl.validator h16
  case role => exact hl.role_slotMove
  case relays =>
    intro h16 h18
    have hback := slotMove_pc (R := fun pc pc' => 16 ≤ pc'.rank ∧ pc'.rank ≤ 18 →
      pc = .relayValidator ∧ pc' = .relayBlock ∨
      pc ≠ .saveAdd ∧ 16 ≤ pc.rank ∧ pc.rank ≤ 18) (by decide +kernel) (D.env x) n ⟨h16, h18⟩
    rw [hcontext]
    rcases hback with ⟨hrelay, hpc'⟩ | ⟨hadd, h16, h18⟩
    · rw [slotContext_isContributing _ (by simp [hrelay])]
      obtain ⟨v, hv, hif⟩ := slotMove_relayValidator (D.env x) hrelay (by simp [hpc'])
      rw [hpc'] at hif
      by_contra hc
      simp [hc] at hif
    · rw [slotContext_isContributing _ hadd]
      exact hl.relays h16 h18
  case draws => exact hl.draws_slotMove
  case electionValue =>
    intro again hpc'
    have hback := slotMove_pc
      (R := fun pc pc' => pc' ∈ [SlotPc.votePublish false, .votePublish true] →
        pc ∈ [SlotPc.voteFill false, .voteFill true] ∨ pc' = pc) (by decide +kernel) (D.env x) n
    simp only [hpc', List.mem_cons, SlotPc.votePublish.injEq, List.not_mem_nil, or_false] at hback
    have hdraws := slotMove_draws (D.env x) n
    rcases hback (by cases again <;> simp) with hfill | hsame
    · have hfill : ∃ again, n.pc = .voteFill again := by rcases hfill with h | h <;> exact ⟨_, h⟩
      obtain ⟨again', hfill⟩ := hfill
      simp only [hfill, Prod.mk.injEq] at hdraws
      simp [hdraws]
    · simp only [← hsame, Prod.mk.injEq] at hdraws
      rw [hdraws.1, hdraws.2]
      exact hl.electionValue again hsame.symm
  case unmarked =>
    intro hrank a
    have hback := slotMove_pc (R := fun pc pc' => pc'.rank ≤ 14 →
      pc.rank ≤ 14 ∧ (pc = .nominate → pc' = .nominate) ∧ pc ≠ .completeClear)
      (by decide +kernel) (D.env x) n hrank
    by_cases hnominate : n.pc = .nominate
    · obtain ⟨v, -, -, hpc', -⟩ := hl.nominate hx hnominate
      simp [hpc', SlotPc.rank] at hrank
    · rw [slotMove_isValidator _ hnominate hback.2.2]
      exact hl.unmarked hback.1 a
  case marked =>
    intro hrank
    have hback := slotMove_pc (R := fun pc pc' => pc'.rank = 15 →
      pc = .nominate ∨ pc.rank = 15 ∧ pc ≠ .completeClear)
      (by decide +kernel) (D.env x) n hrank
    rcases hback with hnominate | ⟨h15, hclear⟩
    · obtain ⟨v, hv, -, -, hmarks⟩ := hl.nominate hx hnominate
      exact ⟨v, hv, hmarks⟩
    · obtain ⟨m, hm, hmarks⟩ := hl.marked h15
      have hnominate : n.pc ≠ .nominate := fun h => by simp [h, SlotPc.rank] at h15
      exact ⟨m, hm, fun a => by rw [slotMove_isValidator _ hnominate hclear, hmarks a]⟩
  case markedValidator => exact hl.markedValidator_slotMove hx
  case owned => exact hl.owned_slotMove
  case sender => rw [hframe.1, hframe.2]; exact hl.sender
  case scripted => rw [hframe.1]; exact hl.scripted

/-- What is not a call of the slot thread. -/
theorem passive (hl : Local D x n) {storage : ConsensusStorage} {pc : SlotPc} {header : Header}
    {todo : List HandlerOp} {failure : Option Failure}
    (hkeys : ∀ a, a ∈ storage.contexts.keys ↔ a ∈ D.addresses)
    (hconfiguration : storage.nodeConfiguration = (D.env x).configuration)
    (hmarks : ∀ a, (storage.context a D.slot).isValidator =
      (n.storage.context a D.slot).isValidator)
    (hpc : n.pc.Woken pc) (hsender : todo ≠ [] → header.slot = D.slot ∧
      header.address ∈ D.addresses ∧ header.address ≠ x) (hscripted : Scripted todo) :
    Local D x { n with storage, pc, header, todo, failure } := by
  have hrank := hpc.rank_eq
  have hsame : pc.operation = n.pc.operation ∧ pc.role = n.pc.role ∧
      (∀ again, pc = .votePublish again → n.pc = .votePublish again) ∧
      pc.mayOwn = n.pc.mayOwn := by
    rcases hpc with rfl | ⟨w, hw, rfl⟩
    · exact ⟨rfl, rfl, fun _ h => h, rfl⟩
    · rw [hw]
      cases w <;> exact ⟨rfl, rfl, (fun _ h => by cases h), rfl⟩
  have hvotes : ({ n with storage, pc, header, todo, failure } : Node).votes = n.votes := by
    rcases hpc with rfl | ⟨w, hw, rfl⟩
    · rfl
    · simp [Node.votes, hw]
  exact
    { mem_keys := hkeys
      nodeConfiguration := hconfiguration
      onSlot := ⟨by simpa [hrank] using hl.onSlot.block, by simpa [hrank] using hl.onSlot.header⟩
      address := by simpa [hrank] using hl.address
      operation := by simpa only [hsame.1] using hl.operation
      isContributing := by simpa [hrank] using hl.isContributing
      block := by simpa [hrank] using hl.block
      validator := by simpa [hrank] using hl.validator
      role := by simpa only [hsame.2.1] using hl.role
      relays := by simpa [hrank] using hl.relays
      draws := by simpa only [hrank, hvotes] using hl.draws
      electionValue := fun again h => hl.electionValue again (hsame.2.2.1 again h)
      unmarked := by simpa [hrank, hmarks] using hl.unmarked
      marked := by simpa [hrank, hmarks] using hl.marked
      markedValidator := by simpa [hrank, hmarks] using hl.markedValidator
      owned := by simpa only [hsame.2.2.2] using hl.owned
      sender := hsender
      scripted := hscripted }

/-- A call of the consensus thread. -/
theorem handle (hl : Local D x n) {op : HandlerOp} {rest : List HandlerOp}
    (htodo : n.todo = op :: rest) : Local D x (op.exec { n with todo := rest }) := by
  have hsender := hl.sender (by simp [htodo])
  have hscripted := hl.scripted
  rw [htodo] at hscripted
  have hkeys := (op.exec_touched { n with todo := rest }).keys_eq
    (fun a ha => D.cString a ((hl.mem_keys a).1 ha))
    (fun a ha => by rw [ha]; exact (hl.mem_keys _).2 hsender.2.1)
  have hconfiguration := op.exec_nodeConfiguration { n with todo := rest }
  have hrest := op.exec_todo { n with todo := rest }
  have hmarks := fun a => op.exec_field { n with todo := rest }
    (s := D.slot) ConsensusContext.isValidator (.inl fun node c => by cases op <;> rfl) a
  obtain ⟨storage, pc, todo, failure, h, hpc, -⟩ := op.exec_frame { n with todo := rest }
  rw [h] at hkeys hconfiguration hrest hmarks ⊢
  refine hl.passive (fun a => ?_) (hconfiguration.trans hl.nodeConfiguration) hmarks hpc
    (fun _ => hsender) ?_
  · rw [hkeys]
    exact hl.mem_keys a
  · rcases hrest with hrest | ⟨-, hrest⟩
    · rw [show todo = rest from hrest]
      exact hscripted.tail
    · rw [show todo = [] from hrest]
      trivial

/-- The receipt of a message. -/
theorem receive (hl : Local D x n) {m : ConsensusMessage} {todo : List HandlerOp}
    (hm : handlerScript m = some todo) (hslot : m.header.slot = D.slot)
    (haddress : m.header.address ∈ D.addresses) (hne : m.header.address ≠ x) :
    Local D x { n with header := m.header, todo } :=
  hl.passive hl.mem_keys hl.nodeConfiguration (fun _ => rfl) (.inl rfl)
    (fun _ => ⟨hslot, haddress, hne⟩) (scripted_handlerScript hm)

theorem wake (hl : Local D x n) {w : Waiter} (hpc : n.pc = .wait w .asleep) :
    Local D x { n with pc := .wait w .eval } :=
  hl.passive hl.mem_keys hl.nodeConfiguration (fun _ => rfl) (.inr ⟨w, hpc, rfl⟩) hl.sender
    hl.scripted

/-- A node before the tick. -/
theorem start (hx : x ∈ D.addresses) : Local D x (D.start.node x) := by
  constructor
  case mem_keys => exact D.mem_keys x hx
  case nodeConfiguration => exact D.configuration_eq x hx
  case onSlot => constructor <;> simp [Deployment.start, SlotPc.rank]
  case draws => exact .inl ⟨rfl, by simp [Deployment.start, SlotPc.rank]⟩
  case unmarked => simp [Deployment.start, D.context_eq x hx, ConsensusContext.fresh]
  case scripted => trivial
  all_goals simp [Deployment.start, SlotPc.rank, SlotPc.operation, SlotPc.role]

end Local

/-- The election value of a node was removed and is about to be drawn again. -/
def SlotPc.redraws : SlotPc → Bool
  | .electReset => true
  | .voteFill true => true
  | _ => false

/-- What stands in the own entry of the node `x`, in every run. -/
structure OwnEntry (D : Deployment) (x : String) (n : Node) : Prop where
  isContributing : 6 ≤ n.pc.rank → n.pc.rank ≤ 28 →
    (n.storage.context x D.slot).isContributing = some (D.env x).isContributing
  electionValue : 12 ≤ n.pc.rank → n.pc.rank ≤ 28 →
    (n.storage.context x D.slot).electionValue =
      if n.pc.redraws then 0 else (D.env x).draw (n.draws - 1)
  block : 4 ≤ n.pc.rank → n.pc.rank ≤ 20 →
    (n.storage.context x D.slot).block = (D.env x).pendingBlock

namespace OwnEntry

variable {D : Deployment} {x : String} {n : Node}

/-- A call of the slot thread. -/
theorem slotMove (ho : OwnEntry D x n) (hl : Local D x n) (hx : x ∈ D.addresses) :
    OwnEntry D x (slotMove (D.env x) n).1 := by
  have hself := D.self_eq x hx
  have hwork : 3 ≤ n.pc.rank → n.workSlot = D.slot := by
    intro h3
    rw [Node.workSlot]
    split
    · rw [hl.onSlot.block h3, D.pending_slot x hx]
    · next hsave =>
      refine hl.slot_eq hx ?_
      have hrank : ∀ pc : SlotPc, 3 ≤ pc.rank → pc = .saveBlock ∨ 4 ≤ pc.rank := by
        decide +kernel
      exact (hrank _ h3).resolve_left hsave
  -- `clearSlot` is the last call of these.
  have hclear : (BlockchainMessaging.slotMove (D.env x) n).1.pc.rank ≤ 28 →
      n.pc ≠ .completeClear := by
    rintro hrank hclear
    simp [BlockchainMessaging.slotMove, hclear, SlotPc.rank] at hrank
  constructor
  case isContributing =>
    intro h6 h28
    have hback := slotMove_pc (R := fun pc pc' => 6 ≤ pc'.rank →
      pc = .notifyContribution ∨ pc ≠ .notifyContribution ∧ 6 ≤ pc.rank)
      (by decide +kernel) (D.env x) n h6
    rcases hback with hset | ⟨hset, h6⟩
    · rw [slotMove_table, hwork (by rw [hset]; decide), if_pos rfl]
      simp [slotEffect, hset, hself, hl.isContributing (by rw [hset]; decide)]
    · rw [slotMove_isContributing _ hset (hclear h28)]
      exact ho.isContributing h6 ((slotMove_rank _ _).trans h28)
  case electionValue =>
    intro h12 h28
    have hback := slotMove_pc (R := fun pc pc' => 12 ≤ pc'.rank →
      pc ∈ [SlotPc.voteFill false, .voteFill true] ∨ pc = .electRemoveDuplicates ∨
        pc ≠ .electRemoveDuplicates ∧ 12 ≤ pc.rank ∧ pc'.redraws = pc.redraws)
      (by decide +kernel) (D.env x) n h12
    by_cases hfill : ∃ again, n.pc = .voteFill again
    · obtain ⟨again, hfill⟩ := hfill
      rw [slotMove_table, hwork (by rw [hfill]; cases again <;> decide), if_pos rfl]
      simp [slotEffect, hfill, hself, BlockchainMessaging.slotMove, SlotPc.redraws,
        Node.setOperation]
    · have hfill : ∀ again, n.pc ≠ .voteFill again := fun again h => hfill ⟨again, h⟩
      rcases hback with h | hremove | ⟨hremove, h12, hredraws⟩
      · simp [hfill] at h
      · rw [slotMove_table, hwork (by rw [hremove]; decide), if_pos rfl]
        simp [slotEffect, hremove, (hl.mem_keys x).2 hx, BlockchainMessaging.slotMove,
          SlotPc.redraws]
      · have hdraws := slotMove_draws (D.env x) n
        split at hdraws
        · next again h => exact absurd h (hfill again)
        · rw [slotMove_electionValue _ hfill hremove (hclear h28), hredraws,
            (Prod.mk.inj hdraws).1]
          exact ho.electionValue h12 ((slotMove_rank _ _).trans h28)
  case block =>
    intro h4 h20
    have hback := slotMove_pc (R := fun pc pc' => 4 ≤ pc'.rank →
      pc = .saveBlock ∨ pc ≠ .saveBlock ∧ 4 ≤ pc.rank) (by decide +kernel) (D.env x) n h4
    have h20' := (slotMove_rank (D.env x) n).trans h20
    rcases hback with hsave | ⟨hsave, h4'⟩
    · rw [slotMove_table, hwork (by rw [hsave]; decide), if_pos rfl]
      simp [slotEffect, hsave, hself, hl.block (by rw [hsave]; decide) (by rw [hsave]; decide)]
    · by_cases hrelay : n.pc = .relayBlock
      · rw [slotMove_table, hwork (by rw [hrelay]; decide), if_pos rfl]
        simp [slotEffect, hrelay, hself, hl.block (by rw [hrelay]; decide) (by rw [hrelay]; decide)]
      · by_cases hmerge : n.pc = .collectMerge
        · -- Only a merge that throws leaves the thread where it is.
          simp only [BlockchainMessaging.slotMove, hmerge] at h20 ⊢
          split at h20
          · simp [SlotPc.rank] at h20
          · next hnone =>
            simpa [hnone, Node.fail] using ho.block h4' h20'
        · rw [slotMove_block _ (by simp [hsave, hrelay, hmerge, hclear (h20.trans (by decide))])]
          exact ho.block h4' h20'

/-- What is not a call of the slot thread. -/
theorem passive (ho : OwnEntry D x n) {n' : Node} (hpc : n.pc.Woken n'.pc)
    (hdraws : n'.draws = n.draws)
    (hentry : n'.storage.context x D.slot = n.storage.context x D.slot) : OwnEntry D x n' := by
  have hredraws : n'.pc.redraws = n.pc.redraws := by
    rcases hpc with h | ⟨w, h, h'⟩
    · rw [h]
    · rw [h, h']
      rfl
  constructor
  case isContributing => simpa [hpc.rank_eq, hentry] using ho.isContributing
  case electionValue => simpa [hpc.rank_eq, hentry, hdraws, hredraws] using ho.electionValue
  case block => simpa [hpc.rank_eq, hentry] using ho.block

end OwnEntry

/-! ## The invariant under all others -/

/-- A message that `y` sends to `x`. -/
structure Mail (D : Deployment) (y x : String) (m : ConsensusMessage) : Prop where
  source : y ∈ D.addresses
  target : x ∈ D.addresses ∧ x ≠ y
  address : m.header.address = y
  slot : m.header.slot = D.slot
  wellFormed : handlerScript m ≠ none

/-- Every node knows what it should of itself, and every message is what it should be. -/
structure Base (D : Deployment) (s : Sys) : Prop where
  known : ∀ x ∈ D.addresses, Local D x (s.node x)
  own : ∀ x ∈ D.addresses, OwnEntry D x (s.node x)
  mail : ∀ y x, ∀ m ∈ (s.channel y x).sent, Mail D y x m

/-- What a step of the system does to the node `x`. -/
inductive NodeStep (D : Deployment) (s : Sys) (x : String) : Action → Node → Prop
  | other {act : Action} : NodeStep D s x act (s.node x)
  | slot (hnone : (s.node x).failure = none) (hblocked : (s.node x).pc.blocked = false) :
      NodeStep D s x (.slot x) (slotMove (D.env x) (s.node x)).1
  | wake {w : Waiter} (hnone : (s.node x).failure = none) (hpc : (s.node x).pc = .wait w .asleep) :
      NodeStep D s x (.wake x) { s.node x with pc := .wait w .eval }
  | handle {op : HandlerOp} {rest : List HandlerOp} (hnone : (s.node x).failure = none)
      (htodo : (s.node x).todo = op :: rest) :
      NodeStep D s x (.handle x) (op.exec { s.node x with todo := rest })
  | receive {y : String} {m : ConsensusMessage} {rest : List ConsensusMessage}
      {todo : List HandlerOp} (hnone : (s.node x).failure = none) (hidle : (s.node x).todo = [])
      (hchannel : (s.channel y x).inFlight = m :: rest) (hscript : handlerScript m = some todo) :
      NodeStep D s x (.receive x y) { s.node x with header := m.header, todo }

namespace Base

variable {D : Deployment} {s s' : Sys} {x y : String}

/-- What the slot thread sends is mail. -/
theorem mail_slotSends {n : Node} (hl : Local D y n) (hy : y ∈ D.addresses)
    {m : ConsensusMessage} (hm : m ∈ Sys.sendsTo (slotSends (D.env y) n) x) : Mail D y x m := by
  have hoperation := hl.operation
  -- A message to a peer, with the header of the node.
  have hmail : ∀ header : Header, x ∈ (D.env y).remotes → m.header = header →
      header.address = y → header.slot = D.slot → handlerScript m ≠ none → Mail D y x m := by
    rintro header hx rfl haddress hslot hwf
    exact ⟨hy, (D.mem_remotes y hy x).1 hx, haddress, hslot, hwf⟩
  simp only [Sys.mem_sendsTo, slotSends] at hm
  split at hm
  · next hpc =>
    obtain ⟨a, ha, heq⟩ := List.mem_map.1 hm
    obtain ⟨haddress, hheader⟩ := hl.address (by rw [hpc]; decide)
    cases heq
    refine hmail n.context.header ha hheader haddress (hl.slot_eq hy (by rw [hpc]; decide)) ?_
    simp [handlerScript, hheader, hoperation .INSPECTION (by rw [hpc]; rfl)]
  · next again hpc =>
    obtain ⟨a, ha, heq⟩ := List.mem_map.1 hm
    have hrank : 4 ≤ n.pc.rank := by rw [hpc]; cases again <;> decide
    obtain ⟨haddress, hheader⟩ := hl.address hrank
    cases heq
    refine hmail n.context.header ha hheader haddress (hl.slot_eq hy hrank) ?_
    simp [handlerScript, hheader, hoperation .ELECTION (by rw [hpc]; rfl)]
  · next hpc =>
    split at hm
    · next hmem =>
      obtain ⟨haddress, hheader⟩ := hl.address (by rw [hpc]; decide)
      cases List.mem_singleton.1 hm
      refine hmail n.context.header hmem hheader haddress (hl.slot_eq hy (by rw [hpc]; decide)) ?_
      simp [handlerScript, hheader, hoperation .UPLOADING (by rw [hpc]; rfl)]
    · cases hm
  · next hpc =>
    split at hm
    · obtain ⟨a, ha, heq⟩ := List.mem_map.1 hm
      obtain ⟨haddress, -⟩ := hl.address (by rw [hpc]; decide)
      cases heq
      exact hmail _ ha rfl haddress (hl.slot_eq hy (by rw [hpc]; decide)) (by
        simp [handlerScript, Node.setOperation])
    · cases hm
  · cases hm

/-- **Every step of the system is one of these for the node `x`.** -/
theorem nodeStep (hb : Base D s) {act : Action} (h : Sys.step D s act = some s') (x : String) :
    NodeStep D s x act (s'.node x) := by
  cases act with
  | slot a =>
    obtain ⟨-, hnone, hblocked, rfl⟩ := Sys.step_slot_eq_some h
    by_cases hxa : x = a
    · subst hxa
      simpa using NodeStep.slot hnone hblocked
    · simpa [hxa] using NodeStep.other
  | wake a =>
    obtain ⟨-, hnone, w, hw, rfl⟩ := Sys.step_wake_eq_some h
    by_cases hxa : x = a
    · subst hxa
      simpa using NodeStep.wake hnone hw
    · simpa [hxa] using NodeStep.other
  | handle a =>
    obtain ⟨-, hnone, op, rest, htodo, rfl⟩ := Sys.step_handle_eq_some h
    by_cases hxa : x = a
    · subst hxa
      simpa using NodeStep.handle hnone htodo
    · simpa [hxa] using NodeStep.other
  | receive a b =>
    obtain ⟨-, hnone, hidle, m, rest, hchannel, rfl⟩ := Sys.step_receive_eq_some h
    have hm := hb.mail b a m (by simp [Channel.sent, hchannel])
    obtain ⟨todo, htodo⟩ := Option.ne_none_iff_exists'.1 hm.wellFormed
    by_cases hxa : x = a
    · subst hxa
      simpa [htodo] using NodeStep.receive hnone hidle hchannel htodo
    · simpa [hxa] using NodeStep.other

theorem known_step (hb : Base D s) {act : Action} (h : Sys.step D s act = some s')
    (hx : x ∈ D.addresses) : Local D x (s'.node x) := by
  have hl := hb.known x hx
  have hstep := hb.nodeStep h x
  generalize s'.node x = n' at hstep ⊢
  cases hstep with
  | other => exact hl
  | slot => exact hl.slotMove hx
  | wake _ hpc => exact hl.wake hpc
  | handle _ htodo => exact hl.handle htodo
  | @receive y m rest todo _ _ hchannel hscript =>
    have hm := hb.mail y x m (by simp [Channel.sent, hchannel])
    exact hl.receive hscript hm.slot (hm.address ▸ hm.source)
      (by rw [hm.address]; exact hm.target.2.symm)

theorem own_step (hb : Base D s) {act : Action} (h : Sys.step D s act = some s')
    (hx : x ∈ D.addresses) : OwnEntry D x (s'.node x) := by
  by_cases hslot : act = .slot x
  · subst hslot
    rw [(Sys.node_slot h).2.2]
    exact (hb.own x hx).slotMove (hb.known x hx) hx
  · obtain ⟨-, -, hdraws, -, -, hpc⟩ := Sys.node_passive h hslot
    refine (hb.own x hx).passive hpc hdraws ?_
    by_cases hhandle : act = .handle x
    · subst hhandle
      obtain ⟨-, -, op, rest, htodo, rfl⟩ := Sys.step_handle_eq_some h
      have hsender := (hb.known x hx).sender (by simp [htodo])
      simp [HandlerOp.exec_table, hsender.2.2.symm]
    · rw [Sys.storage_eq h hslot hhandle]

theorem mail_step (hb : Base D s) {act : Action} (h : Sys.step D s act = some s') (y x : String)
    {m : ConsensusMessage} (hm : m ∈ (s'.channel y x).sent) : Mail D y x m := by
  cases act with
  | slot a =>
    obtain ⟨ha, -, -, rfl⟩ := Sys.step_slot_eq_some h
    simp only [Sys.sent_publish, Sys.channel_setNode, List.mem_append] at hm
    rcases hm with hm | hm
    · exact hb.mail y x m hm
    · split at hm
      · next hya =>
        subst hya
        exact mail_slotSends (hb.known y ha) ha hm
      · cases hm
  | wake a =>
    obtain ⟨-, -, w, -, rfl⟩ := Sys.step_wake_eq_some h
    exact hb.mail y x m hm
  | handle a =>
    obtain ⟨-, -, op, rest, -, rfl⟩ := Sys.step_handle_eq_some h
    exact hb.mail y x m hm
  | receive a b =>
    obtain ⟨-, -, -, m', rest, hchannel, rfl⟩ := Sys.step_receive_eq_some h
    rw [Sys.sent_deliver (s := s.setNode a _) hchannel] at hm
    exact hb.mail y x m hm

theorem step (hb : Base D s) {act : Action} (h : Sys.step D s act = some s') : Base D s' :=
  ⟨fun _ => hb.known_step h, fun _ => hb.own_step h, fun y x _ => hb.mail_step h y x⟩

theorem start (D : Deployment) : Base D D.start where
  known := fun _ hx => .start hx
  own := fun x hx => by constructor <;> simp [Deployment.start, SlotPc.rank]
  mail := by simp [Deployment.start, Channel.sent]

end Base

end BlockchainMessaging
