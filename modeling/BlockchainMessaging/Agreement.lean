import BlockchainMessaging.Ballot
import BlockchainMessaging.Voting

/-!
# Agreement on the validator

A node leaves the election as soon as its own value is unique in its own table.  Values that
collide are drawn again, and a drawn value replaces the one before it, so two nodes may look
at values of different rounds and elect different validators; and when several addresses
share the value that wins, the iteration order of the table decides.

Apart from this the nodes agree.  If a node only nominates when it has executed as many votes
of each peer as it has drawn values itself, and the value that wins is held by one address,
then all who nominate have seen the same round, and mark its winner.

## Main definitions

* `Node.HasMarked` — the node has marked this address.
* `NominatesFromRound` — the condition on a step.
* `validator_agreement` — all who have nominated have marked the same address.
-/

namespace BlockchainMessaging

open ConsensusStorage

/-- `nominateValidator` is behind the slot thread. -/
def SlotPc.nominated (pc : SlotPc) : Prop := SlotPc.relayValidator.rank ≤ pc.rank

instance : DecidablePred SlotPc.nominated := fun pc => by unfold SlotPc.nominated; infer_instance

/-- The node has marked `m`, and no other address, as the validator of the slot: so says the
table until it is cleared, and so says the slot context once it has been filled in. -/
structure Node.HasMarked (slot : ℕ) (n : Node) (m : String) : Prop where
  table : n.pc.nominated → ¬ n.pc.cleared → ∀ a,
    (n.storage.context a slot).isValidator = decide (a = m)
  validator : SlotPc.relayBlock.rank ≤ n.pc.rank → n.context.validator = m

/-- A node nominates only from the values of one round, the one of its own last draw, and only
when one address holds the value that wins. -/
def NominatesFromRound (D : Deployment) (s : Sys) : Action → Prop
  | .slot x => (s.node x).pc = .nominate →
      (∀ y ∈ D.addresses, y ≠ x → s.heard y x = (s.node x).draws) ∧
        ∃ m ∈ (s.node x).storage.contexts.keys, Wins (s.node x).storage.contexts.keys
          (fun a => ((s.node x).storage.context a D.slot).electionValue) m
  | _ => True

instance (D : Deployment) (s : Sys) (act : Action) : Decidable (NominatesFromRound D s act) := by
  unfold NominatesFromRound
  split <;> infer_instance

/-- All who have nominated have marked the winner of the same round. -/
structure Agreed (D : Deployment) (s : Sys) : Prop where
  voted : Voted D s
  marked : ∀ x ∈ D.addresses, (s.node x).pc.nominated → ∃ m,
    Wins D.addresses (fun a => (D.env a).draw ((s.node x).draws - 1)) m ∧
      (s.node x).HasMarked D.slot m
  /-- The round was seen by all. -/
  draws_le : ∀ x ∈ D.addresses, (s.node x).pc.nominated → ∀ y ∈ D.addresses,
    (s.node x).draws ≤ (s.node y).draws

namespace Agreed

variable {D : Deployment} {s s' : Sys} {act : Action} {x y : String}

/-- At a nomination that meets the condition, the table holds the values of one round. -/
theorem electionValue_eq (hi : Voted D s) (hx : x ∈ D.addresses)
    (hpc : (s.node x).pc = .nominate)
    (hheard : ∀ y ∈ D.addresses, y ≠ x → s.heard y x = (s.node x).draws) (hy : y ∈ D.addresses) :
    ((s.node x).storage.context y D.slot).electionValue =
      (D.env y).draw ((s.node x).draws - 1) := by
  by_cases hne : y = x
  · subst hne
    have := (hi.inspected.ledger.base.own y hx).electionValue (by rw [hpc]; decide)
      (by rw [hpc]; decide)
    simpa [hpc, SlotPc.redraws] using this
  · have hpos := hi.full x hx (by simp [Node.full, hpc]) y hy
    have hvote := (hi.inspected.ledger.exchange y hy x hx (Ne.symm hne)).vote
      (by rw [hpc]; decide) hpos
    rw [hvote.2, hheard y hy hne]

/-- A nomination that meets the condition marks the winner of the round. -/
theorem nominate (hi : Voted D s) (hx : x ∈ D.addresses) (hpc : (s.node x).pc = .nominate)
    (hok : NominatesFromRound D s (.slot x)) :
    ∃ m, Wins D.addresses (fun a => (D.env a).draw ((s.node x).draws - 1)) m ∧
      (slotMove (D.env x) (s.node x)).1.HasMarked D.slot m := by
  have hl := hi.inspected.ledger.base.known x hx
  obtain ⟨hheard, m, -, hwins⟩ := hok hpc
  obtain ⟨v, -, helected, hpc', hmarks⟩ := hl.nominate hx hpc
  obtain rfl : m = v := by
    rw [electedValidator_eq hwins] at helected
    exact Option.some.inj helected
  refine ⟨m, (hwins.perm hl.keys_perm).congr fun a ha => ?_, fun _ _ => hmarks, fun hlate => ?_⟩
  · exact (electionValue_eq hi hx hpc hheard ha).symm
  · rw [hpc'] at hlate
    exact absurd hlate (by decide)

/-- What was marked stays marked. -/
theorem hasMarked_slotMove {n : Node} (hl : Local D x n) (hx : x ∈ D.addresses) {m : String}
    (hpast : n.pc.nominated) (h : n.HasMarked D.slot m) :
    (slotMove (D.env x) n).1.HasMarked D.slot m := by
  have hnominate : n.pc ≠ .nominate := fun hpc => by
    rw [hpc] at hpast
    exact absurd hpast (by decide)
  constructor
  case table =>
    intro _ hclear a
    have hpc : n.pc ≠ .completeClear := by
      rintro hpc
      simp [slotMove, hpc, SlotPc.cleared] at hclear
    rw [slotMove_isValidator _ hnominate hpc]
    exact h.table hpast (fun hcleared => hclear (hcleared.trans (slotMove_rank _ _))) a
  case validator =>
    intro hlate
    have hback := slotMove_pc (R := fun pc pc' => SlotPc.relayBlock.rank ≤ pc'.rank →
      pc = .relayValidator ∧ pc' ≠ .relayValidator ∨
        pc ≠ .relayValidator ∧ SlotPc.relayBlock.rank ≤ pc.rank)
      (by decide +kernel) (D.env x) n hlate
    rw [slotMove_context]
    rcases hback with ⟨hrelay, hne⟩ | ⟨hrelay, hlate⟩
    · obtain ⟨v, hv, -⟩ := slotMove_relayValidator _ hrelay hne
      obtain ⟨hmem, hmark⟩ := markedValidator_eq_some hv
      rw [hl.slot_eq hx (by rw [hrelay]; decide),
        h.table hpast (by rw [hrelay]; decide), decide_eq_true_eq] at hmark
      subst hmark
      simp [slotContext, hrelay, hv, D.cString v ((hl.mem_keys v).1 hmem)]
    · rw [(slotContext_validator _ hrelay).1]
      exact h.validator hlate

/-- What was marked stays marked when another thread moves. -/
theorem hasMarked_passive (h : Sys.step D s act = some s') (hne : act ≠ .slot x) {m : String}
    (hm : (s.node x).HasMarked D.slot m) : (s'.node x).HasMarked D.slot m := by
  obtain ⟨hcontext, -, -, -, -, hpc⟩ := Sys.node_passive h hne
  constructor
  case table =>
    simp only [SlotPc.nominated, SlotPc.cleared, hpc.rank_eq, Sys.isValidator_eq h hne]
    exact hm.table
  case validator =>
    rw [hpc.rank_eq, hcontext]
    exact hm.validator

theorem step (hi : Agreed D s) (hok : NominatesFromRound D s act)
    (h : Sys.step D s act = some s') : Agreed D s' := by
  have hrank : ∀ x, (s.node x).pc.nominated → 14 ≤ (s.node x).pc.rank := fun x hpast =>
    (show 14 ≤ SlotPc.relayValidator.rank by decide).trans hpast
  -- Either the node had nominated before, or it does so now.
  have hnew : ∀ x ∈ D.addresses, (s'.node x).pc.nominated → (s.node x).pc.nominated ∨
      (s.node x).pc = .nominate ∧ act = .slot x := by
    intro x hx hpast
    by_cases hslot : act = .slot x
    · subst hslot
      have hback := slotMove_pc (R := fun pc pc' => SlotPc.relayValidator.rank ≤ pc'.rank →
        SlotPc.relayValidator.rank ≤ pc.rank ∨ pc = .nominate)
        (by decide +kernel) (D.env x) (s.node x)
      rw [(Sys.node_slot h).2.2] at hpast
      exact (hback hpast).imp_right fun hpc => ⟨hpc, rfl⟩
    · refine .inl ?_
      rwa [SlotPc.nominated, ((Sys.node_passive h hslot).2.2.2.2.2).rank_eq] at hpast
  constructor
  case voted => exact hi.voted.step h
  case marked =>
    intro x hx hpast
    rcases hnew x hx hpast with hpast | ⟨hpc, rfl⟩
    · obtain ⟨m, hwins, hm⟩ := hi.marked x hx hpast
      rw [Sys.draws_eq h (hrank x hpast)]
      refine ⟨m, hwins, ?_⟩
      by_cases hslot : act = .slot x
      · subst hslot
        rw [(Sys.node_slot h).2.2]
        exact hasMarked_slotMove (hi.voted.inspected.ledger.base.known x hx) hx hpast hm
      · exact hasMarked_passive h hslot hm
    · obtain ⟨m, hwins, hm⟩ := nominate hi.voted hx hpc hok
      rw [Sys.draws_eq h (by rw [hpc]; decide), (Sys.node_slot h).2.2]
      exact ⟨m, hwins, hm⟩
  case draws_le =>
    intro x hx hpast y hy
    rcases hnew x hx hpast with hpast | ⟨hpc, rfl⟩
    · rw [Sys.draws_eq h (hrank x hpast)]
      exact (hi.draws_le x hx hpast y hy).trans (Sys.draws_le h y)
    · rw [Sys.draws_eq h (by rw [hpc]; decide)]
      refine le_trans ?_ (Sys.draws_le h y)
      by_cases hne : y = x
      · rw [hne]
      · have hex := hi.voted.inspected.ledger.exchange y hy x hx (Ne.symm hne)
        rw [← (hok hpc).1 y hy hne]
        exact hex.heard_le.trans (s.node y).votes_le_draws

end Agreed

/-- **Validator agreement**, in every run in which every node nominates from the values of one
round: any two nodes that have nominated have marked the same address. -/
theorem validator_agreement {D : Deployment} {s : Sys}
    (h : Reaches (Sys.step D) (NominatesFromRound D) D.start s) {x y : String}
    (hx : x ∈ D.addresses) (hy : y ∈ D.addresses) (hnx : (s.node x).pc.nominated)
    (hny : (s.node y).pc.nominated) :
    ∃ m ∈ D.addresses, (s.node x).HasMarked D.slot m ∧ (s.node y).HasMarked D.slot m := by
  have hi : Agreed D s := by
    refine h.invariant ⟨.start D, ?_, ?_⟩ fun _ _ _ hi hok hs => hi.step hok hs
    all_goals simp [Deployment.start, SlotPc.nominated, SlotPc.rank]
  obtain ⟨m, hwins, hm⟩ := hi.marked x hx hnx
  obtain ⟨m', hwins', hm'⟩ := hi.marked y hy hny
  have hdraws : (s.node x).draws = (s.node y).draws :=
    le_antisymm (hi.draws_le x hx hnx y hy) (hi.draws_le y hy hny x hx)
  rw [hdraws] at hwins
  obtain rfl := hwins.unique hwins'
  exact ⟨m, hwins.1, hm, hm'⟩

/-- Both nodes of the pair vote, and get each other's vote. -/
def pairVotes : List Action :=
  pairInspects ++ List.replicate 3 (.slot "a") ++ List.replicate 2 (.slot "b") ++
    deliver "a" "b" 4 ++ deliver "b" "a" 4

set_option maxRecDepth 4000 in
theorem validator_agreement_pair :
    ∃ s : Sys, (s.node "a").pc = .relayValidator ∧ (s.node "b").pc = .relayValidator ∧
      ∃ m ∈ quickPair.addresses, (s.node "a").HasMarked 2 m ∧ (s.node "b").HasMarked 2 m := by
  obtain ⟨s, hs, h⟩ := exists_reaches (Sys.step quickPair) (NominatesFromRound quickPair)
    quickPair.start (pairVotes ++ List.replicate 4 (.slot "a") ++ List.replicate 4 (.slot "b"))
    (fun s => (s.node "a").pc = .relayValidator ∧ (s.node "b").pc = .relayValidator)
    (by decide +kernel)
  simp only [decide_eq_true_eq] at h
  exact ⟨s, h.1, h.2, validator_agreement (x := "a") (y := "b") hs (by decide) (by decide)
    (by rw [h.1]; decide) (by rw [h.2]; decide)⟩

/-- Three nodes, of which `a` and `b` first draw 5, and `c` draws 9. -/
def trio : Deployment :=
  Deployment.plain ["a", "b", "c"] (by decide) (by decide) 2
    (fun x => if x = "a" then [⟨900, "x", "a"⟩] else [])
    (fun x k => if x = "c" then 9 else if k = 0 then 5 else 20)
    fun x k => by split <;> [decide; (split <;> decide)]

/-- All three inspect and vote. -/
def trioVotes : List Action :=
  List.replicate 7 (.slot "a") ++ List.replicate 7 (.slot "b") ++ List.replicate 7 (.slot "c") ++
    deliver "a" "b" 4 ++ deliver "a" "c" 6 ++ deliver "b" "a" 4 ++ deliver "b" "c" 6 ++
    deliver "c" "a" 4 ++ deliver "c" "b" 6 ++
    List.replicate 6 (.slot "a") ++ List.replicate 6 (.slot "b") ++ List.replicate 6 (.slot "c")

/-- `c` elects from 5, 5, 9.  Meanwhile `a` draws 20, and `b` elects from 20, 5, 9. -/
def trioElects : List Action :=
  deliver "c" "a" 2 ++ deliver "c" "b" 4 ++ List.replicate 4 (.slot "c") ++
    deliver "a" "b" 2 ++ deliver "a" "c" 4 ++ List.replicate 10 (.slot "a") ++
    deliver "b" "a" 2 ++ deliver "b" "c" 4 ++ deliver "b" "a" 4 ++ List.replicate 4 (.slot "b")

set_option maxRecDepth 4000 in
/-- `b` and `c` mark different addresses. -/
theorem not_validator_agreement_trio :
    ¬ ∀ s, Reachable (Sys.step trio) trio.start s → ∀ x ∈ trio.addresses, ∀ y ∈ trio.addresses,
      (s.node x).pc.nominated → (s.node y).pc.nominated →
        ∃ m ∈ trio.addresses, (s.node x).HasMarked 2 m ∧ (s.node y).HasMarked 2 m := by
  intro hall
  obtain ⟨s, hs, h⟩ := exists_reaches (Sys.step trio) (fun _ _ => True) trio.start
    (trioVotes ++ trioElects)
    (fun s => (s.node "b").pc = .relayValidator ∧ (s.node "c").pc = .relayValidator ∧
      ((s.node "b").storage.context "b" 2).isValidator = true ∧
      ((s.node "c").storage.context "b" 2).isValidator = false)
    (by decide +kernel)
  simp only [decide_eq_true_eq] at h
  obtain ⟨hb, hc, hmark, hmark'⟩ := h
  obtain ⟨m, -, hm, hm'⟩ := hall s hs "b" (by decide) "c" (by decide) (by rw [hb]; decide)
    (by rw [hc]; decide)
  have h₁ := hm.table (by rw [hb]; decide) (by rw [hb]; decide) "b"
  have h₂ := hm'.table (by rw [hc]; decide) (by rw [hc]; decide) "b"
  rw [hmark] at h₁
  rw [hmark', ← h₁] at h₂
  cases h₂

end BlockchainMessaging
