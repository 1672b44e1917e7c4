import Mathlib.Data.List.Induction
import BlockchainMessaging.Updates

/-!
# What was sent and what was executed

Between two nodes `y` and `x` there is one sequence of updates: those that `y` has sent, in
order.  Where `y` stands in its code determines this sequence (`outbox`); `x` has executed a
prefix of it (`Sys.executed`), and the rest is pending.  The entry of `y` in the table of `x`
is what the executed prefix makes of an empty entry (`replay`), up to the election value,
which `x` may have removed.

So whatever `x` finds in the entry of `y`, `y` was there to send it.

## Main definitions

* `outbox`, `outbox_slotMove` — everything a node has sent to a peer.
* `Sys.executed` — the updates that were executed, and what a step does to them.
* `replay`, `Exchange`, `exchange_of_reaches` — the entry is the replay of the prefix.
-/

namespace BlockchainMessaging

open ConsensusStorage

/-! ## The sender -/

/-- The updates that the next call of the slot thread of a node sends to its peer `x`. -/
def sentUpdates (n : Node) (x : String) : List HandlerOp :=
  match n.pc with
  | .notifyPublish => [.addContext, .setContribution n.context.isContributing]
  | .votePublish _ => [.fillElectionValue n.electionValue]
  | .relayPublish => if x = n.context.validator then [.addBlock n.context.block] else []
  | .broadcast =>
      if n.context.isValidator then [.addBlock n.context.broadcastBlock, .marAsResolved] else []
  | _ => []

/-- The updates in the messages that are sent. -/
theorem flatMap_sendsTo {D : Deployment} {x y : String} {n : Node} (hl : Local D y n)
    (hy : y ∈ D.addresses) (hx : x ∈ D.addresses) (hne : x ≠ y) :
    (Sys.sendsTo (slotSends (D.env y) n) x).flatMap ConsensusMessage.updates =
      sentUpdates n x := by
  have hremote : x ∈ (D.env y).remotes := (D.mem_remotes y hy x).2 ⟨hx, hne⟩
  have hnodup := D.nodup_remotes y hy
  have hoperation := hl.operation
  cases hpc : n.pc
  case notifyPublish =>
    have hheader := (hl.address (by rw [hpc]; decide)).2
    have := hoperation .INSPECTION (by rw [hpc]; rfl)
    simp [slotSends, sentUpdates, hpc, Sys.sendsTo_map _ hnodup, hremote,
      ConsensusMessage.updates, handlerScript, hheader, this, List.filter_cons, HandlerOp.isUpdate]
  case votePublish again =>
    have hheader := (hl.address (by rw [hpc]; cases again <;> decide)).2
    have := hoperation .ELECTION (by rw [hpc]; rfl)
    simp [slotSends, sentUpdates, hpc, Sys.sendsTo_map _ hnodup, hremote,
      ConsensusMessage.updates, handlerScript, hheader, this, List.filter_cons, HandlerOp.isUpdate]
  case relayPublish =>
    have hheader := (hl.address (by rw [hpc]; decide)).2
    have := hoperation .UPLOADING (by rw [hpc]; rfl)
    by_cases hv : x = n.context.validator
    · simp [slotSends, sentUpdates, hpc, ← hv, hremote, Sys.sendsTo, ConsensusMessage.updates,
        handlerScript, hheader, this, List.filter_cons, HandlerOp.isUpdate]
    · simp only [slotSends, sentUpdates, hpc, hv, if_false]
      split <;> simp [Sys.sendsTo, Ne.symm hv]
  case broadcast =>
    by_cases hv : n.context.isValidator = true
    · simp [slotSends, sentUpdates, hpc, hv, Sys.sendsTo_map _ hnodup, hremote,
        ConsensusMessage.updates, handlerScript, Node.setOperation, List.filter_cons,
        HandlerOp.isUpdate]
    · simp [slotSends, sentUpdates, hpc, hv, Sys.sendsTo]
  all_goals simp [slotSends, sentUpdates, hpc, Sys.sendsTo]

/-- Everything that a node has sent to its peer `x`, as updates: its flag, its election
values, its block if it is a contributor and `x` the validator, and the complete block if it
is the validator itself. -/
def outbox (E : SlotEnv) (n : Node) (x : String) : List HandlerOp :=
  (if 7 ≤ n.pc.rank then [.addContext, .setContribution E.isContributing] else []) ++
  (List.range n.votes).map (fun k => .fillElectionValue (E.draw k)) ++
  (if 18 ≤ n.pc.rank ∧ E.isContributing = true ∧ n.context.isValidator = false ∧
      x = n.context.validator then [.addBlock E.pendingBlock] else []) ++
  (if 24 ≤ n.pc.rank ∧ n.context.isValidator = true then
    [.addBlock n.context.broadcastBlock, .marAsResolved] else [])

theorem outbox_congr {E : SlotEnv} {n n' : Node} {x : String} (hvotes : n'.votes = n.votes)
    (h7 : 7 ≤ n'.pc.rank ↔ 7 ≤ n.pc.rank)
    (h18 : (18 ≤ n'.pc.rank ∧ E.isContributing = true ∧ n'.context.isValidator = false ∧
        x = n'.context.validator) ↔
      18 ≤ n.pc.rank ∧ E.isContributing = true ∧ n.context.isValidator = false ∧
        x = n.context.validator)
    (h24 : (24 ≤ n'.pc.rank ∧ n'.context.isValidator = true) ↔
      24 ≤ n.pc.rank ∧ n.context.isValidator = true)
    (hblock : 24 ≤ n.pc.rank ∧ n.context.isValidator = true →
      n'.context.broadcastBlock = n.context.broadcastBlock) : outbox E n' x = outbox E n x := by
  simp only [outbox, hvotes, h7, h18, h24]
  congr 1
  split
  · next h => rw [hblock h]
  · rfl

/-- **The outbox grows by what is sent.** -/
theorem outbox_slotMove {D : Deployment} {x y : String} {n : Node} (hl : Local D y n)
    (hy : y ∈ D.addresses) :
    outbox (D.env y) (slotMove (D.env y) n).1 x =
      outbox (D.env y) n x ++ sentUpdates n x := by
  have hdraws := hl.draws
  have hvotes := slotMove_votes (D.env y) n
  have hcontext := slotMove_context (D.env y) n
  have hrank := slotMove_pc (R := fun pc pc' =>
    pc ∉ [SlotPc.notifyPublish, .relayPublish, .broadcast] →
      (7 ≤ pc'.rank ↔ 7 ≤ pc.rank) ∧ (24 ≤ pc'.rank ↔ 24 ≤ pc.rank) ∧
      (18 ≤ pc'.rank ↔ 18 ≤ pc.rank ∨ pc = .relayValidator ∧ 18 ≤ pc'.rank))
    (by decide +kernel) (D.env y) n
  cases hpc : n.pc
  case notifyPublish =>
    have hcontributing := hl.isContributing (by rw [hpc]; decide)
    have h0 : n.draws = 0 := by simpa [hpc, SlotPc.rank] using hdraws
    simp [outbox, slotMove, sentUpdates, hpc, SlotPc.rank, Node.votes, h0, hcontributing]
  case votePublish again =>
    have hvalue := hl.electionValue again hpc
    obtain ⟨k, hk⟩ : ∃ k, n.draws = k + 1 := by
      refine Nat.exists_eq_succ_of_ne_zero fun h0 => ?_
      have := n.votes_le_draws
      cases again <;> simp [hpc, SlotPc.rank, h0] at hdraws
      omega
    cases again <;>
      simp [outbox, slotMove, sentUpdates, hpc, SlotPc.rank, Node.votes, hk, hvalue,
        List.range_succ]
  case relayPublish =>
    have hcontributing := hl.isContributing (by rw [hpc]; decide)
    have hrelays := hl.relays (by rw [hpc]; decide) (by rw [hpc]; decide)
    have hblock := hl.block (by rw [hpc]; decide) (by rw [hpc]; decide)
    have hrole := hl.role false (by rw [hpc]; rfl)
    have hremote : n.context.validator ∈ (D.env y).remotes := by
      obtain ⟨hmem, hself⟩ := hl.validator (by rw [hpc]; decide)
      refine (D.mem_remotes y hy _).2 ⟨hmem, ?_⟩
      simpa [hrole] using hself
    simp [outbox, slotMove, sentUpdates, hpc, SlotPc.rank, Node.votes, hremote, hrole, hblock,
      ← hcontributing, hrelays]
  case broadcast =>
    simp [outbox, slotMove, sentUpdates, hpc, SlotPc.rank, Node.votes, Node.setOperation]
  case relayValidator =>
    have hcontributing := hl.isContributing (by rw [hpc]; decide)
    have hearly : n.pc.rank = 15 := by rw [hpc]; rfl
    obtain ⟨h7, h24, -⟩ := hrank (by simp [hpc])
    simp only [hpc] at hvotes
    simp only [sentUpdates, hpc, List.append_nil]
    refine outbox_congr hvotes h7 ?_ ?_ ?_
    · -- Who skips the relay is the validator or has nothing to relay.
      refine iff_of_false ?_ (by omega)
      rintro ⟨hlate, hf, hv, -⟩
      obtain ⟨v, hmarked, hpc'⟩ := slotMove_relayValidator (D.env y) hpc fun h => by
        simp [h, SlotPc.rank] at hlate
      rw [hcontext] at hv
      have hself : cStr v ≠ (D.env y).self := by simpa [slotContext, hpc, hmarked] using hv
      rw [← hcontributing] at hf
      simp [hpc', hself, hf, SlotPc.rank] at hlate
    · exact iff_of_false (by omega) (by omega)
    · omega
  all_goals
    simp only [sentUpdates, hpc, List.append_nil]
    simp only [hpc, List.mem_cons, reduceCtorEq, List.not_mem_nil, or_false, not_false_eq_true,
      true_imp_iff, false_and] at hrank hvotes
    rw [← hpc] at hrank
    obtain ⟨h7, h24, h18⟩ := hrank
    obtain ⟨hvalidator, hrole⟩ := slotContext_validator (D.env y) (n := n) (by simp [hpc])
    refine outbox_congr hvotes h7 ?_ ?_ fun hlate => ?_
    · rw [h18, hcontext, hvalidator, hrole]
    · rw [h24, hcontext, hrole]
    · rw [hcontext]
      refine slotContext_broadcastBlock _ ?_ ?_
      · rintro h
        simp [h, SlotPc.rank] at hlate
      · rintro h
        simp [h, hl.role false (by rw [h]; rfl)] at hlate

/-- What is not a call of the slot thread leaves the outbox alone. -/
theorem outbox_passive {E : SlotEnv} {n n' : Node} {x : String}
    (hcontext : n'.context = n.context) (hdraws : n'.draws = n.draws) (hpc : n.pc.Woken n'.pc) :
    outbox E n' x = outbox E n x := by
  have hvotes : n'.votes = n.votes := by
    rcases hpc with h | ⟨w, h, h'⟩
    · simp [Node.votes, h, hdraws]
    · simp [Node.votes, h, h', hdraws]
  simp only [outbox, hvotes, hpc.rank_eq, hcontext]

/-! ## The receiver -/

namespace Sys

variable {D : Deployment} {s s' : Sys} {act : Action} {x y : String}

/-- The updates of `y` that `x` has received. -/
def received (s : Sys) (y x : String) : List HandlerOp :=
  (s.channel y x).delivered.flatMap ConsensusMessage.updates

/-- The updates of `y` that `x` has executed: all that it has received but those in hand. -/
def executed (s : Sys) (y x : String) : List HandlerOp :=
  (s.received y x).take ((s.received y x).length - (s.inHand y x).length)

theorem executed_eq {done : List HandlerOp} (h : s.received y x = done ++ s.inHand y x) :
    s.executed y x = done := by
  simp [executed, h]

/-- The update that a step executes, of those that `y` has sent to `x`. -/
def executes (s : Sys) (act : Action) (y x : String) : List HandlerOp :=
  if act = .handle x ∧ (s.node x).header.address = y then
    ((s.node x).todo.take 1).filter HandlerOp.isUpdate
  else []

/-- What is in hand was received last. -/
def Received (s : Sys) (y x : String) : Prop :=
  s.received y x = s.executed y x ++ s.inHand y x

/-- A call that ends the handler leaves no update out. -/
theorem filter_exec_todo {n : Node} {op : HandlerOp} {rest : List HandlerOp}
    (h : Scripted (op :: rest)) : (op.exec { n with todo := rest }).todo.filter HandlerOp.isUpdate =
      rest.filter HandlerOp.isUpdate := by
  rcases op.exec_todo { n with todo := rest } with htodo | ⟨hcheck, htodo⟩
  · rw [htodo]
  · have hrest : rest = [.storeSynchronized, .notifyAll] := by
      cases op <;> first | exact h | cases hcheck
    rw [htodo, hrest]
    rfl

/-- The updates that a step sends from `y` to `x`. -/
def sends (s : Sys) (act : Action) (y x : String) : List HandlerOp :=
  if act = .slot y then sentUpdates (s.node y) x else []

/-- What a step does to the queue from `y` to `x`. -/
structure QueueStep (s s' : Sys) (act : Action) (y x : String) : Prop where
  received : s'.received y x = s.executed y x ++ s.executes act y x ++ s'.inHand y x
  pending : s.pending y x ++ s.sends act y x = s.executes act y x ++ s'.pending y x

/-- The message in hand is a matter of the consensus thread. -/
theorem inHand_setNode {a : String} {n : Node} (htodo : n.todo = (s.node a).todo)
    (hheader : n.header = (s.node a).header) : (s.setNode a n).inHand y x = s.inHand y x := by
  simp only [inHand, node_setNode]
  split
  · next hxa => rw [htodo, hheader, hxa]
  · rfl

/-- **One step and the queue between two nodes.** -/
theorem queueStep (hb : Base D s) (hy : y ∈ D.addresses) (hx : x ∈ D.addresses) (hne : x ≠ y)
    (hr : s.Received y x) (h : step D s act = some s') : QueueStep s s' act y x := by
  cases act with
  | slot a =>
    obtain ⟨ha, -, -, rfl⟩ := step_slot_eq_some h
    have hreceived : Sys.received ((s.setNode a (slotMove (D.env a) (s.node a)).1).publish a
        (slotSends (D.env a) (s.node a))) y x = s.received y x := by
      simp only [received, delivered_publish, channel_setNode]
    have hhand : Sys.inHand ((s.setNode a (slotMove (D.env a) (s.node a)).1).publish a
        (slotSends (D.env a) (s.node a))) y x = s.inHand y x :=
      inHand_setNode (slotMove_frame _ _).1 (slotMove_frame _ _).2
    constructor
    · simpa [hreceived, hhand, executes, Received] using hr
    · simp only [pending, hhand, inFlight_publish, channel_setNode, executes, sends,
        reduceCtorEq, false_and, if_false, List.nil_append, List.flatMap_append,
        Action.slot.injEq, List.append_assoc]
      congr 2
      by_cases hay : a = y
      · subst hay
        simp [flatMap_sendsTo (hb.known a ha) ha hx hne]
      · simp [hay, Ne.symm hay]
  | wake a =>
    obtain ⟨ha, -, w, hw, rfl⟩ := step_wake_eq_some h
    have hhand : (s.setNode a { s.node a with pc := .wait w .eval }).inHand y x =
        s.inHand y x := inHand_setNode rfl rfl
    constructor
    · rw [hhand]
      simpa [executes, Received, received] using hr
    · simp [pending, hhand, executes, sends]
  | handle a =>
    obtain ⟨ha, -, op, rest, htodo, rfl⟩ := step_handle_eq_some h
    have hhand : s.inHand y x = s.executes (.handle a) y x ++
        (s.setNode a (op.exec { s.node a with todo := rest })).inHand y x := by
      simp only [inHand, node_setNode, executes, Action.handle.injEq]
      by_cases hax : a = x
      · subst hax
        have hscripted := (hb.known a ha).scripted
        rw [htodo] at hscripted
        by_cases hay : (s.node a).header.address = y
        · simp only [if_true, HandlerOp.exec_header, hay, htodo, List.take_succ_cons,
            List.take_zero, and_self, filter_exec_todo hscripted]
          rw [← List.filter_append]
          rfl
        · simp [hay]
      · simp [hax, Ne.symm hax]
    have hreceived : Sys.received (s.setNode a (op.exec { s.node a with todo := rest })) y x =
        s.received y x := rfl
    constructor
    · rw [hreceived, List.append_assoc, ← hhand]
      exact hr
    · simp [pending, hhand, sends]
  | receive a b =>
    obtain ⟨ha, -, htodo, m, rest, hchannel, rfl⟩ := step_receive_eq_some h
    have hm := hb.mail b a m (by simp [Channel.sent, hchannel])
    obtain ⟨script, hscript⟩ := Option.ne_none_iff_exists'.1 hm.wellFormed
    have hupdates : m.updates = script.filter HandlerOp.isUpdate := by
      simp [ConsensusMessage.updates, hscript]
    simp only [hscript]
    have hexecutes : s.executes (.receive a b) y x = [] := by simp [executes]
    have hsends : s.sends (.receive a b) y x = [] := by simp [sends]
    by_cases hax : a = x
    · subst hax
      have hidle : s.inHand y a = [] := by simp [inHand, htodo]
      have hreceived : s.received y a = s.executed y a := by
        have := hr
        rwa [Received, hidle, List.append_nil] at this
      by_cases hby : b = y
      · subst hby
        constructor <;>
          simp [hexecutes, hsends, pending, received, inHand, htodo, channel_deliver, hm.address,
            hupdates, hchannel, ← hreceived]
      · constructor <;>
          simp [hexecutes, hsends, pending, received, inHand, htodo, channel_deliver, hm.address,
            hby, Ne.symm hby, ← hreceived]
    · constructor
      · simpa [hexecutes, received, inHand, channel_deliver, Ne.symm hax, Received] using hr
      · simp [hexecutes, hsends, pending, inHand, channel_deliver, Ne.symm hax]

theorem QueueStep.executed (hq : QueueStep s s' act y x) :
    s'.executed y x = s.executed y x ++ s.executes act y x :=
  executed_eq hq.received

theorem QueueStep.kept (hq : QueueStep s s' act y x) : s'.Received y x := by
  rw [Received, hq.executed]
  exact hq.received

end Sys

/-- What a list of updates makes of an entry that is made at the time `now`. -/
def replay (now : ℕ) (ops : List HandlerOp) : ConsensusContext :=
  ops.foldl (fun c op => op.effect "" c) (.fresh now)

@[simp] theorem replay_nil (now : ℕ) : replay now [] = .fresh now := rfl

@[simp] theorem replay_append_singleton (now : ℕ) (ops : List HandlerOp) (op : HandlerOp) :
    replay now (ops ++ [op]) = op.effect "" (replay now ops) := by
  simp [replay]

/-- The entry `c` is the replay of the executed updates, but for the name of the node, for the
mark of the validator, and for an election value that was removed. -/
structure Replayed (now : ℕ) (c : ConsensusContext) (ops : List HandlerOp) : Prop where
  isContributing : c.isContributing = (replay now ops).isContributing
  electionValue : c.electionValue = 0 ∨ c.electionValue = (replay now ops).electionValue
  block : c.block = (replay now ops).block
  isResolved : c.isResolved = (replay now ops).isResolved

theorem Replayed.effect {now : ℕ} {c : ConsensusContext} {ops : List HandlerOp}
    (h : Replayed now c ops) (op : HandlerOp) (node : String) :
    Replayed now (op.effect node c) (ops ++ [op].filter HandlerOp.isUpdate) := by
  obtain ⟨h₁, h₂, h₃, h₄⟩ := h
  cases op <;>
    constructor <;>
      simp [HandlerOp.effect, HandlerOp.isUpdate, List.filter_cons] <;> assumption

/-- Where the validator merges, it is marked itself. -/
theorem Local.markedValidator_eq {D : Deployment} {x : String} {n : Node} (hl : Local D x n)
    (hx : x ∈ D.addresses) (h : n.pc.role = some true) :
    n.storage.markedValidator D.slot = some x := by
  have hrank : ∀ pc : SlotPc, pc.role = some true → 16 ≤ pc.rank ∧ pc.rank ≤ 28 := by
    decide +kernel
  obtain ⟨h16, h28⟩ := hrank _ h
  have hself : n.context.validator = x := by
    have := (hl.validator h16).2
    simpa [hl.role true h] using this
  have hmarks := hl.markedValidator h16 h28
  rw [hself] at hmarks
  exact ConsensusStorage.markedValidator_eq ((hl.mem_keys x).2 hx) (by simp [hmarks])
    fun a _ ha => by simpa [hmarks] using ha

/-- A call of the slot thread, short of `clearSlot`, keeps the entries of the peers. -/
theorem Replayed.slotMove {D : Deployment} {x y : String} {n : Node} (hl : Local D x n)
    (hx : x ∈ D.addresses) (hne : x ≠ y) (hrank : (slotMove (D.env x) n).1.pc.rank ≤ 28)
    {now : ℕ} {ops : List HandlerOp} (h : Replayed now (n.storage.context y D.slot) ops) :
    Replayed now ((slotMove (D.env x) n).1.storage.context y D.slot) ops := by
  have hself : ¬ y = (D.env x).self := by
    rw [D.self_eq x hx]
    exact hne.symm
  rw [slotMove_table]
  split
  · simp only [slotEffect, hself, if_false]
    split
    case h_3 | h_6 | h_7 =>
      split
      · exact ⟨h.isContributing, by first | exact .inl rfl | exact h.electionValue, h.block,
          h.isResolved⟩
      · exact h
    case h_10 hpc =>
      split
      · next b st hmerge =>
        have hmarked := hl.markedValidator_eq hx (by rw [hpc]; rfl)
        have hother : ¬ (n.storage.markedValidator n.context.header.slot).map cStr = some y := by
          rw [hl.slot_eq hx (by rw [hpc]; decide), hmarked]
          simpa [D.cString x hx] using hne
        rw [if_neg hother]
        exact h
      · exact h
    case h_11 hpc => simp [BlockchainMessaging.slotMove, hpc, SlotPc.rank] at hrank
    all_goals exact h
  · exact h

/-- What the nodes `y` and `x` have exchanged. -/
structure Exchange (D : Deployment) (s : Sys) (y x : String) : Prop where
  sent : outbox (D.env y) (s.node y) x = s.executed y x ++ s.pending y x
  received : s.Received y x
  replayed : (s.node x).pc.rank ≤ 28 →
    Replayed ((D.storage x).stamp y D.slot 0) ((s.node x).storage.context y D.slot)
      (s.executed y x)

namespace Exchange

variable {D : Deployment} {s s' : Sys} {act : Action} {x y : String}

/-- The outbox of `y` grows by what the step sends. -/
theorem outbox_step (hb : Base D s) (hy : y ∈ D.addresses) (h : Sys.step D s act = some s') :
    outbox (D.env y) (s'.node y) x = outbox (D.env y) (s.node y) x ++ s.sends act y x := by
  by_cases hact : act = .slot y
  · subst hact
    rw [(Sys.node_slot h).2.2, outbox_slotMove (hb.known y hy) hy]
    simp [Sys.sends]
  · obtain ⟨hcontext, -, hdraws, -, -, hpc⟩ := Sys.node_passive h hact
    simp [outbox_passive hcontext hdraws hpc, Sys.sends, hact]

/-- The entry of `y` in the table of `x` follows what the step executes. -/
theorem replayed_step (hb : Base D s) (hx : x ∈ D.addresses) (hne : x ≠ y)
    (hi : Exchange D s y x) (h : Sys.step D s act = some s')
    (hrank : (s'.node x).pc.rank ≤ 28) :
    Replayed ((D.storage x).stamp y D.slot 0) ((s'.node x).storage.context y D.slot)
      (s.executed y x ++ s.executes act y x) := by
  by_cases hslot : act = .slot x
  · subst hslot
    have hnode := (Sys.node_slot h).2.2
    rw [hnode] at hrank ⊢
    simpa [Sys.executes] using
      (hi.replayed ((slotMove_rank _ _).trans hrank)).slotMove (hb.known x hx) hx hne hrank
  · have hpc := (Sys.node_passive h hslot).2.2.2.2.2
    have hr := hi.replayed (by rwa [← hpc.rank_eq])
    by_cases hhandle : act = .handle x
    · subst hhandle
      obtain ⟨-, -, op, rest, htodo, rfl⟩ := Sys.step_handle_eq_some h
      have hsender := (hb.known x hx).sender (by simp [htodo])
      simp only [Sys.node_setNode, if_true, HandlerOp.exec_table, Sys.executes, htodo,
        List.take_succ_cons, List.take_zero, true_and, hsender.1, and_true]
      by_cases hy : y = (s.node x).header.address
      · simpa only [← hy, if_true] using hr.effect op _
      · simpa only [hy, Ne.symm hy, if_false, List.append_nil] using hr
    · rw [Sys.storage_eq h hslot hhandle]
      simpa [Sys.executes, hhandle] using hr

theorem step (hb : Base D s) (hy : y ∈ D.addresses) (hx : x ∈ D.addresses) (hne : x ≠ y)
    (hi : Exchange D s y x) (h : Sys.step D s act = some s') : Exchange D s' y x := by
  have hq := Sys.queueStep hb hy hx hne hi.received h
  constructor
  case sent =>
    rw [outbox_step hb hy h, hi.sent, List.append_assoc, hq.pending, ← List.append_assoc,
      hq.executed]
  case received => exact hq.kept
  case replayed =>
    intro hrank
    rw [hq.executed]
    exact hi.replayed_step hb hx hne h hrank

end Exchange

/-- Every two nodes of the deployment have exchanged what they should. -/
structure Ledger (D : Deployment) (s : Sys) : Prop where
  base : Base D s
  exchange : ∀ y ∈ D.addresses, ∀ x ∈ D.addresses, x ≠ y → Exchange D s y x

theorem Ledger.step {D : Deployment} {s s' : Sys} {act : Action} (hi : Ledger D s)
    (h : Sys.step D s act = some s') : Ledger D s' :=
  ⟨hi.base.step h, fun y hy x hx hne => (hi.exchange y hy x hx hne).step hi.base hy hx hne h⟩

theorem Ledger.start (D : Deployment) : Ledger D D.start := by
  refine ⟨.start D, fun y _ x hx _ => ?_⟩
  constructor
  case sent => simp [outbox, Deployment.start, SlotPc.rank, Node.votes, Sys.executed,
    Sys.received, Sys.pending, Sys.inHand]
  case received => simp [Sys.Received, Deployment.start, Sys.executed, Sys.received, Sys.inHand]
  case replayed =>
    intro _
    simp only [Deployment.start, D.context_eq x hx y]
    constructor <;> simp [Sys.executed, Sys.received, replay, ConsensusContext.fresh]

/-- **In every run, every entry is the replay of what was sent and executed.** -/
theorem ledger_of_reaches {D : Deployment} {s : Sys} {ok : Sys → Action → Prop}
    (h : Reaches (Sys.step D) ok D.start s) : Ledger D s :=
  h.invariant (.start D) fun _ _ _ hi _ hs => hi.step hs

/-! ## What an entry says about its sender -/

theorem mem_outbox_setContribution {E : SlotEnv} {n : Node} {x : String} {flag : Bool} :
    .setContribution flag ∈ outbox E n x ↔ 7 ≤ n.pc.rank ∧ flag = E.isContributing := by
  simp only [outbox, List.mem_append, List.mem_map, reduceCtorEq, and_false, exists_false,
    or_false]
  constructor
  · rintro ((h | h) | h)
    all_goals split at h <;> simp_all
  · rintro ⟨h, rfl⟩
    simp [h]

theorem votes_of_mem_outbox {E : SlotEnv} {n : Node} {x : String} {v : ℕ}
    (h : .fillElectionValue v ∈ outbox E n x) : 0 < n.votes := by
  simp only [outbox, List.mem_append, List.mem_map] at h
  rcases h with ((h | ⟨k, hk, -⟩) | h) | h
  · split at h <;> simp at h
  · have hk := List.mem_range.1 hk
    omega
  · split at h <;> simp at h
  · split at h <;> simp at h

theorem rank_of_mem_outbox {E : SlotEnv} {n : Node} {x : String} {b : Block}
    (h : .addBlock b ∈ outbox E n x) : 18 ≤ n.pc.rank := by
  simp only [outbox, List.mem_append, List.mem_map, reduceCtorEq, and_false, exists_false,
    or_false] at h
  rcases h with (h | h) | h
  · split at h <;> simp at h
  · split at h
    · next hlate => exact hlate.1
    · cases h
  · split at h
    · next hlate => omega
    · cases h

/-- A flag in an entry was set. -/
theorem mem_of_replay_isContributing {now : ℕ} {ops : List HandlerOp} {flag : Bool}
    (h : (replay now ops).isContributing = some flag) : .setContribution flag ∈ ops := by
  induction ops using List.reverseRecOn with
  | nil => cases h
  | append_singleton ops op ih =>
    rw [replay_append_singleton] at h
    cases op <;> simp only [HandlerOp.effect] at h <;> simp_all

/-- A block in an entry was added. -/
theorem mem_of_replay_block {now : ℕ} {ops : List HandlerOp}
    (h : (replay now ops).block ≠ Block.ofData now []) :
    .addBlock (replay now ops).block ∈ ops := by
  induction ops using List.reverseRecOn with
  | nil => exact absurd rfl h
  | append_singleton ops op ih =>
    rw [replay_append_singleton] at h ⊢
    cases op <;> simp only [HandlerOp.effect] at h ⊢ <;> simp_all

/-- An entry is resolved when an update has resolved it. -/
theorem replay_isResolved (now : ℕ) (ops : List HandlerOp) :
    (replay now ops).isResolved = true ↔ .marAsResolved ∈ ops := by
  induction ops using List.reverseRecOn with
  | nil => simp [ConsensusContext.fresh]
  | append_singleton ops op ih =>
    rw [replay_append_singleton]
    cases op <;> simp [HandlerOp.effect, ih]

/-- An entry has a flag when an update has set one. -/
theorem replay_isContributing_isSome (now : ℕ) {ops : List HandlerOp} {flag : Bool}
    (h : .setContribution flag ∈ ops) : (replay now ops).isContributing.isSome = true := by
  induction ops using List.reverseRecOn with
  | nil => cases h
  | append_singleton ops op ih =>
    rw [replay_append_singleton]
    cases op <;> simp [HandlerOp.effect] at h ⊢ <;> exact ih h

namespace Exchange

variable {D : Deployment} {s : Sys} {x y : String}

/-- The messages of `y` to `x` carry the outbox. -/
theorem flatMap_sent (hi : Exchange D s y x) :
    (s.channel y x).sent.flatMap ConsensusMessage.updates = outbox (D.env y) (s.node y) x := by
  rw [hi.sent, Channel.sent, List.flatMap_append, Sys.pending, ← List.append_assoc, ← hi.received]
  rfl

theorem mem_outbox (hi : Exchange D s y x) {op : HandlerOp} (h : op ∈ s.executed y x) :
    op ∈ outbox (D.env y) (s.node y) x := by
  rw [hi.sent]
  exact List.mem_append_left _ h

/-- A flag in the entry of `y` is the one that `y` has sent. -/
theorem flag (hi : Exchange D s y x) (hrank : (s.node x).pc.rank ≤ 28) {flag : Bool}
    (h : ((s.node x).storage.context y D.slot).isContributing = some flag) :
    7 ≤ (s.node y).pc.rank ∧ flag = (D.env y).isContributing := by
  rw [(hi.replayed hrank).isContributing] at h
  exact mem_outbox_setContribution.1 (hi.mem_outbox (mem_of_replay_isContributing h))

end Exchange

end BlockchainMessaging
