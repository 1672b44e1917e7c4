import BlockchainMessaging.Ledger
import BlockchainMessaging.Plain

/-!
# The inspection barrier

Nobody leaves the wait for the inspection before everybody has sent a flag, because a flag in
the table of a node is one that its sender has sent, and nothing but `clearSlot` removes it.
So whoever goes on has seen all flags, and all who go on have seen the same: whether the slot
is idle is decided in the same way everywhere.

## Main definitions

* `Inspected`, `inspected_of_reaches` — what is known after the wait.
* `inspection_barrier` — the barrier and the agreement on idle slots.
-/

namespace BlockchainMessaging

open ConsensusStorage

/-- What the nodes know of each other's flags. -/
structure Inspected (D : Deployment) (s : Sys) : Prop where
  ledger : Ledger D s
  /-- Who has left the wait knows that everybody has sent a flag. -/
  sent : ∀ x ∈ D.addresses, 8 ≤ (s.node x).pc.rank → ∀ y ∈ D.addresses,
    7 ≤ (s.node y).pc.rank
  /-- Until the slot is cleared, it has all flags. -/
  flags : ∀ x ∈ D.addresses, 8 ≤ (s.node x).pc.rank → (s.node x).pc.rank ≤ 28 →
    ∀ y ∈ D.addresses, ((s.node x).storage.context y D.slot).isContributing =
      some (D.env y).isContributing
  /-- Who has decided about the slot has decided by these flags. -/
  idle : ∀ x ∈ D.addresses, (s.node x).pc.rank = 10 → ∀ y ∈ D.addresses,
    (D.env y).isContributing = false
  busy : ∀ x ∈ D.addresses, 11 ≤ (s.node x).pc.rank → ∃ y ∈ D.addresses,
    (D.env y).isContributing = true

namespace Inspected

variable {D : Deployment} {s s' : Sys} {act : Action} {x : String}

/-- Every flag that is there is the right one. -/
theorem flag_eq (hl : Ledger D s) (hx : x ∈ D.addresses) (h8 : 8 ≤ (s.node x).pc.rank)
    (h28 : (s.node x).pc.rank ≤ 28) {y : String} (hy : y ∈ D.addresses)
    (h : ((s.node x).storage.context y D.slot).isContributing.isSome) :
    7 ≤ (s.node y).pc.rank ∧
      ((s.node x).storage.context y D.slot).isContributing = some (D.env y).isContributing := by
  by_cases hne : x = y
  · subst hne
    exact ⟨by omega, (hl.base.own x hx).isContributing (by omega) h28⟩
  · obtain ⟨flag, hflag⟩ := Option.isSome_iff_exists.1 h
    obtain ⟨h7, rfl⟩ := (hl.exchange y hy x hx hne).flag h28 hflag
    exact ⟨h7, hflag⟩

/-- The flags are there after the wait, and stay until the slot is cleared. -/
theorem isSome_step (hi : Inspected D s) (hx : x ∈ D.addresses)
    (h : Sys.step D s act = some s') (h8 : 8 ≤ (s'.node x).pc.rank)
    (h28 : (s'.node x).pc.rank ≤ 28) {y : String} (hy : y ∈ D.addresses) :
    ((s'.node x).storage.context y D.slot).isContributing.isSome := by
  have hl := hi.ledger.base.known x hx
  have h28' := (Sys.rank_le h x).trans h28
  by_cases hslot : act = .slot x
  · subst hslot
    obtain ⟨-, -, hnode⟩ := Sys.node_slot h
    rw [hnode] at h8 h28 ⊢
    have hback := slotMove_pc (R := fun pc pc' => 8 ≤ pc'.rank → pc ≠ .notifyContribution ∧
      (8 ≤ pc.rank ∨ pc ∈ [.wait .inspection .early, .wait .inspection .eval] ∧
        pc' = .inspectionReset)) (by decide +kernel) (D.env x) (s.node x) h8
    obtain ⟨hset, hback⟩ := hback
    have hclear : (s.node x).pc ≠ .completeClear := by
      intro hclear
      simp [slotMove, hclear, SlotPc.rank] at h28
    rw [slotMove_isContributing _ hset hclear]
    rcases hback with h8' | ⟨hpc, hdone⟩
    · rw [hi.flags x hx h8' h28' y hy]
      rfl
    · -- The predicate of the wait was true.
      simp only [List.mem_cons, List.not_mem_nil, or_false] at hpc
      have hready : (Waiter.inspection.predicate (s.node x)).1 = some true := by
        rcases hpc with hpc | hpc <;> exact slotMove_done _ hpc hdone
      have hslot := hl.slot_eq hx (by rcases hpc with hpc | hpc <;> rw [hpc] <;> decide)
      simp only [Waiter.predicate, areAllContributorsConfirmed_eq_true, hslot] at hready
      exact hready y ((hl.mem_keys y).2 hy)
  · have hpc := (Sys.node_passive h hslot).2.2.2.2.2
    rw [hpc.rank_eq] at h8
    have hflag := hi.flags x hx h8 h28' y hy
    by_cases hhandle : act = .handle x
    · subst hhandle
      obtain ⟨-, -, op, rest, -, rfl⟩ := Sys.step_handle_eq_some h
      simp only [Sys.node_setNode, if_true, HandlerOp.exec_table]
      split
      · cases op <;> simp [HandlerOp.effect, hflag]
      · simp [hflag]
    · rw [Sys.storage_eq h hslot hhandle, hflag]
      rfl

/-- What `tryRemove` decides. -/
theorem decided (hi : Inspected D s) (hx : x ∈ D.addresses)
    (hpc : (s.node x).pc = .removeCheck) :
    ((s.node x).storage.isAnyNodeContributing D.slot).1 =
      some (decide (∃ y ∈ D.addresses, (D.env y).isContributing = true)) := by
  have hl := hi.ledger.base.known x hx
  have hflags := hi.flags x hx (by rw [hpc]; decide) (by rw [hpc]; decide)
  have hfalse : ((s.node x).storage.isAnyNodeContributing D.slot).1 = some false ↔
      ∀ y ∈ D.addresses, (D.env y).isContributing = false := by
    rw [isAnyNodeContributing_eq_false]
    constructor
    · intro h y hy
      simpa [hflags y hy] using h y ((hl.mem_keys y).2 hy)
    · intro h y hy
      have hy := (hl.mem_keys y).1 hy
      rw [hflags y hy, h y hy]
  have hne : ((s.node x).storage.isAnyNodeContributing D.slot).1 ≠ none :=
    isAnyNodeContributing_ne_none fun y hy => by simp [hflags y ((hl.mem_keys y).1 hy)]
  by_cases hbusy : ∃ y ∈ D.addresses, (D.env y).isContributing = true
  · obtain ⟨y, hy, hflag⟩ := hbusy
    obtain ⟨answer, hanswer⟩ := Option.ne_none_iff_exists'.1 hne
    rw [hanswer, decide_eq_true ⟨y, hy, hflag⟩]
    cases answer
    · simp [hfalse.1 hanswer y hy] at hflag
    · rfl
  · rw [decide_eq_false hbusy, hfalse]
    simpa using hbusy

/-- Where the decision stands behind a node, it was made at `removeCheck`. -/
theorem decided_step (hi : Inspected D s) (hx : x ∈ D.addresses)
    (h : Sys.step D s act = some s') (h10 : 10 ≤ (s'.node x).pc.rank) :
    10 ≤ (s.node x).pc.rank ∧ ((s.node x).pc.rank = 10 ↔ (s'.node x).pc.rank = 10) ∨
      ((s'.node x).pc.rank = if ∃ y ∈ D.addresses, (D.env y).isContributing = true then 11
        else 10) := by
  by_cases hslot : act = .slot x
  · subst hslot
    obtain ⟨-, -, hnode⟩ := Sys.node_slot h
    rw [hnode] at h10 ⊢
    have hback := slotMove_pc (R := fun pc pc' => 10 ≤ pc'.rank →
      pc = .removeCheck ∨ 10 ≤ pc.rank ∧ (pc.rank = 10 ↔ pc'.rank = 10))
      (by decide +kernel) (D.env x) (s.node x) h10
    rcases hback with hpc | hback
    · have hslot := (hi.ledger.base.known x hx).slot_eq hx (by rw [hpc]; decide)
      have hdecided := hi.decided hx hpc
      rw [← hslot] at hdecided
      rw [slotMove_removeCheck _ hpc hdecided]
      simp only [decide_eq_true_eq]
      exact .inr (by split <;> rfl)
    · exact .inl hback
  · rw [((Sys.node_passive h hslot).2.2.2.2.2).rank_eq] at h10 ⊢
    exact .inl ⟨h10, Iff.rfl⟩

theorem step (hi : Inspected D s) (h : Sys.step D s act = some s') : Inspected D s' := by
  have hledger := hi.ledger.step h
  have hflag : ∀ x ∈ D.addresses, 8 ≤ (s'.node x).pc.rank → (s'.node x).pc.rank ≤ 28 →
      ∀ y ∈ D.addresses, 7 ≤ (s'.node y).pc.rank ∧
        ((s'.node x).storage.context y D.slot).isContributing = some (D.env y).isContributing :=
    fun x hx h8 h28 y hy => flag_eq hledger hx h8 h28 hy (hi.isSome_step hx h h8 h28 hy)
  constructor
  case ledger => exact hledger
  case sent =>
    intro x hx h8 y hy
    by_cases h8' : 8 ≤ (s.node x).pc.rank
    · exact (hi.sent x hx h8' y hy).trans (Sys.rank_le h y)
    · refine (hflag x hx h8 ?_ y hy).1
      obtain rfl := Sys.eq_slot_of_rank_lt h ((not_le.1 h8').trans_le h8)
      have hjump := slotMove_pc (R := fun pc pc' => 8 ≤ pc.rank ∨ pc'.rank ≤ 28)
        (by decide +kernel) (D.env x) (s.node x)
      rw [(Sys.node_slot h).2.2]
      exact hjump.resolve_left h8'
  case flags => exact fun x hx h8 h28 y hy => (hflag x hx h8 h28 y hy).2
  case idle =>
    intro x hx h10 y hy
    rcases hi.decided_step hx h h10.ge with ⟨-, hsame⟩ | hdecided
    · exact hi.idle x hx (hsame.2 h10) y hy
    · by_contra hflag
      rw [if_pos ⟨y, hy, by simpa using hflag⟩, h10] at hdecided
      cases hdecided
  case busy =>
    intro x hx h11
    rcases hi.decided_step hx h (by omega) with ⟨h10, hsame⟩ | hdecided
    · exact hi.busy x hx (by omega)
    · by_contra hidle
      rw [if_neg hidle] at hdecided
      omega

end Inspected

theorem Inspected.start (D : Deployment) : Inspected D D.start := by
  refine ⟨.start D, ?_, ?_, ?_, ?_⟩
  all_goals simp [Deployment.start, SlotPc.rank]

theorem inspected_of_reaches {D : Deployment} {s : Sys} {ok : Sys → Action → Prop}
    (h : Reaches (Sys.step D) ok D.start s) : Inspected D s :=
  h.invariant (.start D) fun _ _ _ hi _ hs => hi.step hs

/-! ## The barrier -/

/-- `waitForNodesInspection` is behind the slot thread. -/
def SlotPc.inspected (pc : SlotPc) : Prop := SlotPc.inspectionReset.rank ≤ pc.rank

/-- `clearSlot` is behind the slot thread. -/
def SlotPc.cleared (pc : SlotPc) : Prop := SlotPc.publishBlock.rank ≤ pc.rank

/-- `tryRemove` has asked whether anybody contributes. -/
def SlotPc.decided (pc : SlotPc) : Prop := SlotPc.removeGet.rank ≤ pc.rank

/-- `tryRemove` drops the placeholder, and the handlers stop. -/
def SlotPc.stops : SlotPc → Bool
  | .removeGet | .removeDelete | .stopped => true
  | _ => false

instance : DecidablePred SlotPc.inspected := fun pc => by unfold SlotPc.inspected; infer_instance
instance : DecidablePred SlotPc.cleared := fun pc => by unfold SlotPc.cleared; infer_instance
instance : DecidablePred SlotPc.decided := fun pc => by unfold SlotPc.decided; infer_instance

theorem SlotPc.stops_iff {pc : SlotPc} : pc.stops = true ↔ pc.rank = 10 := by
  revert pc
  decide +kernel

/-- Over this channel the sender has said, in its messages of the inspection, that its flag is
`flag`, and nothing else. -/
def Channel.Inspected (c : Channel) (flag : Bool) : Prop :=
  (∃ m ∈ c.sent, m.header.operation = .INSPECTION) ∧
    ∀ m ∈ c.sent, m.header.operation = .INSPECTION → m.body = .contribution flag

/-- A flag in an outbox was sent in an inspection message, and no other flag was. -/
theorem Exchange.inspected {D : Deployment} {s : Sys} {y z : String} (hb : Base D s)
    (hi : Exchange D s y z) (h7 : 7 ≤ (s.node y).pc.rank) :
    (s.channel y z).Inspected (D.env y).isContributing := by
  have hmem : ∀ flag, (∃ m ∈ (s.channel y z).sent, .setContribution flag ∈ m.updates) ↔
      flag = (D.env y).isContributing := by
    intro flag
    rw [← List.mem_flatMap, hi.flatMap_sent, mem_outbox_setContribution]
    simp [h7]
  -- An inspection message sets a flag, and no other message does.
  have hupdates : ∀ m ∈ (s.channel y z).sent, ∀ flag, .setContribution flag ∈ m.updates ↔
      m.header.operation = .INSPECTION ∧ m.body = .contribution flag := by
    intro m hm flag
    have hwf := (hb.mail y z m hm).wellFormed
    obtain ⟨⟨operation, node, address, timestamp, slot⟩, body⟩ := m
    cases operation <;> cases body <;> simp [handlerScript] at hwf <;>
      simp [ConsensusMessage.updates, handlerScript, HandlerOp.isUpdate, eq_comm]
  constructor
  · obtain ⟨m, hm, hset⟩ := (hmem _).2 rfl
    exact ⟨m, hm, ((hupdates m hm _).1 hset).1⟩
  · intro m hm hop
    have hwf := (hb.mail y z m hm).wellFormed
    cases hbody : m.body with
    | contribution flag =>
      rw [← (hmem flag).1 ⟨m, hm, (hupdates m hm flag).2 ⟨hop, hbody⟩⟩]
    | electionValue v => simp [handlerScript, hop, hbody] at hwf
    | block b => simp [handlerScript, hop, hbody] at hwf

/-- **The inspection barrier.**  In every run: who has left the wait and not yet cleared the
slot has of every node the flag that this node has sent to all others; who has decided about
an idle slot has decided as everybody else; and the question is never asked with a flag
missing. -/
theorem inspection_barrier {D : Deployment} {s : Sys} (h : Reachable (Sys.step D) D.start s) :
    (∀ x ∈ D.addresses, (s.node x).pc.inspected → ¬ (s.node x).pc.cleared →
      ∀ y ∈ D.addresses, ∃ flag,
        ((s.node x).storage.context y D.slot).isContributing = some flag ∧
          ∀ z ∈ D.addresses, z ≠ y → (s.channel y z).Inspected flag) ∧
    (∀ x ∈ D.addresses, ∀ y ∈ D.addresses, (s.node x).pc.decided → (s.node y).pc.decided →
      (s.node x).pc.stops = (s.node y).pc.stops) ∧
    ∀ x ∈ D.addresses, (s.node x).pc = .removeCheck → ∀ y ∈ (s.node x).storage.contexts.keys,
      ((s.node x).storage.context y (s.node x).context.header.slot).isContributing.isSome := by
  have hi := inspected_of_reaches h
  refine ⟨fun x hx hpast hclear y hy => ?_, fun x hx y hy hdx hdy => ?_, fun x hx hpc y hy => ?_⟩
  · have h8 : 8 ≤ (s.node x).pc.rank := hpast
    have h28 : (s.node x).pc.rank ≤ 28 := Nat.lt_succ_iff.1 (not_le.1 hclear)
    exact ⟨_, hi.flags x hx h8 h28 y hy, fun z hz hne =>
      (hi.ledger.exchange y hy z hz hne).inspected hi.ledger.base (hi.sent x hx h8 y hy)⟩
  · -- Who stops has seen all flags false, who goes on has seen one true.
    have hbusy : ∀ a ∈ D.addresses, ∀ b ∈ D.addresses, 10 ≤ (s.node b).pc.rank →
        (s.node a).pc.rank = 10 → (s.node b).pc.rank = 10 := by
      intro a ha b hb h10 hidle
      by_contra hne
      obtain ⟨c, hc, hflag⟩ := hi.busy b hb (by omega)
      simp [hi.idle a ha hidle c hc] at hflag
    rw [Bool.eq_iff_iff, SlotPc.stops_iff, SlotPc.stops_iff]
    exact ⟨hbusy x hx y hy hdy, hbusy y hy x hx hdx⟩
  · have hl := hi.ledger.base.known x hx
    rw [hl.slot_eq hx (by rw [hpc]; decide),
      hi.flags x hx (by rw [hpc]; decide) (by rw [hpc]; decide) y ((hl.mem_keys y).1 hy)]
    rfl

/-- Both nodes of the pair get through the inspection. -/
def pairInspects : List Action :=
  List.replicate 7 (.slot "a") ++ List.replicate 7 (.slot "b") ++ deliver "a" "b" 6 ++
    deliver "b" "a" 6 ++ List.replicate 3 (.slot "a") ++ List.replicate 4 (.slot "b")

/-- The pair, with different election values. -/
def quickPair : Deployment :=
  pair (fun x _ => if x = "a" then 5 else 7) fun x _ => by split <;> decide

set_option maxRecDepth 4000 in
theorem inspection_barrier_pair :
    ∃ s : Sys, (s.node "a").pc = .removeCheck ∧ (s.node "b").pc = .voteFill false ∧
      ∃ flag, ((s.node "a").storage.context "b" 2).isContributing = some flag ∧
        (s.channel "b" "a").Inspected flag := by
  obtain ⟨s, hs, h⟩ := exists_reaches (Sys.step quickPair) (fun _ _ => True) quickPair.start
    pairInspects (fun s => (s.node "a").pc = .removeCheck ∧ (s.node "b").pc = .voteFill false)
    (by decide +kernel)
  simp only [decide_eq_true_eq] at h
  obtain ⟨flag, hflag, hsent⟩ := (inspection_barrier hs).1 "a" (by decide) (by rw [h.1]; decide)
    (by rw [h.1]; decide) "b" (by decide)
  exact ⟨s, h.1, h.2, flag, hflag, hsent "a" (by decide) (by decide)⟩

end BlockchainMessaging
