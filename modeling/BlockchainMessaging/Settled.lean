import BlockchainMessaging.Election

/-!
# Slots without collisions

When no two nodes draw the same value first, nobody draws a second time: the election has one
round, and all nodes nominate the one whose value wins in it.

## Main definitions

* `Deployment.Distinct` — the first values are different.
* `Settled`, `settled_of_reaches` — the election has one round, and everybody hears it.
* `Settled.role` — who the validator is.
-/

namespace BlockchainMessaging

open ConsensusStorage

/-- No two nodes draw the same value first. -/
def Deployment.Distinct (D : Deployment) : Prop :=
  ∀ x ∈ D.addresses, ∀ y ∈ D.addresses, x ≠ y → (D.env x).draw 0 ≠ (D.env y).draw 0

instance (D : Deployment) : Decidable D.Distinct :=
  inferInstanceAs (Decidable (∀ x ∈ D.addresses, ∀ y ∈ D.addresses, x ≠ y →
    (D.env x).draw 0 ≠ (D.env y).draw 0))

/-- Only who has seen a collision comes here. -/
def SlotPc.repeats : SlotPc → Bool
  | .electRemoveDuplicates | .electReset | .voteFill true | .votePublish true => true
  | _ => false

/-- The election has one round. -/
structure Settled (D : Deployment) (s : Sys) : Prop where
  rounds : Rounds D s
  agreed : Agreed D s
  once : ∀ x ∈ D.addresses, (s.node x).draws ≤ 1 ∧ (s.node x).pc.repeats = false
  /-- Who has left the election has executed a vote of everybody. -/
  heard : ∀ x ∈ D.addresses, 14 ≤ (s.node x).pc.rank → ∀ y ∈ D.addresses, y ≠ x →
    0 < s.heard y x

namespace Settled

variable {D : Deployment} {s s' : Sys} {act : Action} {x y : String}

theorem ledger (hs : Settled D s) : Ledger D s := hs.agreed.voted.inspected.ledger

/-- No round has ended. -/
theorem wipes_eq_zero (hs : Settled D s) (hx : x ∈ D.addresses) : (s.node x).wipes = 0 := by
  obtain ⟨hdraws, hrepeats⟩ := hs.once x hx
  have hredraws : ∀ pc : SlotPc, pc.repeats = false → pc.redraws = false := by decide +kernel
  simp only [Node.wipes, hredraws _ hrepeats, Bool.false_eq_true, if_false]
  omega

/-- Every vote belongs to the one round. -/
theorem inRounds (hs : Settled D s) (h : Sys.step D s act = some s') : InRounds D s act := by
  cases act with
  | slot x =>
    intro hremove
    have hx := (Sys.step_slot_eq_some h).1
    have hrepeats := (hs.once x hx).2
    rw [hremove] at hrepeats
    cases hrepeats
  | handle x =>
    intro hvote
    obtain ⟨hx, -, op, rest, htodo, -⟩ := Sys.step_handle_eq_some h
    obtain ⟨-, hy, hne⟩ := (hs.ledger.base.known x hx).sender (by simp [htodo])
    have hcount := (hs.ledger.exchange _ hy x hx hne.symm).ballots_executed.2
    have hdraws := (hs.once _ hy).1
    have hvotes := (s.node (s.node x).header.address).votes_le_draws
    -- The vote in hand is not among those that were executed.
    have hpending : 0 < (ballots (s.pending (s.node x).header.address x)).length := by
      rw [htodo] at hvote
      cases op <;> simp [HandlerOp.vote] at hvote
      simp [Sys.pending, Sys.inHand, htodo, ballots, List.filter_cons, HandlerOp.isUpdate,
        HandlerOp.vote]
    have : s.heard (s.node x).header.address x = 0 := by omega
    omega
  | wake x => trivial
  | receive x y => trivial

/-- A nomination sees the values of the one round. -/
theorem nominates (hs : Settled D s) (hD : D.Distinct) (h : Sys.step D s act = some s') :
    NominatesFromRound D s act := by
  cases act with
  | slot x =>
    intro hpc
    have hx := (Sys.step_slot_eq_some h).1
    have hl := hs.ledger.base.known x hx
    have hfull : (s.node x).full = true := by simp [Node.full, hpc]
    have hdraws : (s.node x).draws = 1 := by
      have := (hs.once x hx).1
      have := (s.node x).votes_le_draws
      have := hl.draws
      rw [hpc] at this
      simp only [SlotPc.rank] at this
      omega
    constructor
    · intro y hy hne
      have hpos := hs.agreed.voted.full x hx hfull y hy
      rw [((hs.rounds.round x hx y hy hne).present (by rw [hpc]; decide)).1 hpos,
        hs.wipes_eq_zero hx, hdraws]
    · have hdistinct : ∀ a ∈ (s.node x).storage.contexts.keys,
          ∀ b ∈ (s.node x).storage.contexts.keys, a ≠ b →
          ((s.node x).storage.context a D.slot).electionValue ≠
            ((s.node x).storage.context b D.slot).electionValue := by
        intro a ha b hb hab
        have ha := (hl.mem_keys a).1 ha
        have hb := (hl.mem_keys b).1 hb
        rw [hs.rounds.electionValue_eq hx hfull ha, hs.rounds.electionValue_eq hx hfull hb,
          hs.wipes_eq_zero hx]
        exact hD a ha b hb hab
      obtain ⟨m, hm⟩ := exists_wins (List.ne_nil_of_mem ((hl.mem_keys x).2 hx)) hdistinct
      exact ⟨m, hm.1, hm⟩
  | wake x => trivial
  | handle x => trivial
  | receive x y => trivial

/-- Nobody sees a collision, so nobody draws again. -/
theorem once_step (hs : Settled D s) (hD : D.Distinct) (hx : x ∈ D.addresses)
    (h : Sys.step D s act = some s') :
    (s'.node x).draws ≤ 1 ∧ (s'.node x).pc.repeats = false := by
  obtain ⟨hdraws, hrepeats⟩ := hs.once x hx
  by_cases hslot : act = .slot x
  · subst hslot
    have hl := hs.ledger.base.known x hx
    rw [(Sys.node_slot h).2.2]
    constructor
    · have hmove := slotMove_draws (D.env x) (s.node x)
      split at hmove
      · next again hpc =>
        have hlocal := hl.draws
        rw [hpc] at hrepeats hlocal
        cases again with
        | true => cases hrepeats
        | false =>
          simp only [SlotPc.rank] at hlocal
          rw [(Prod.mk.inj hmove).1]
          omega
      · rwa [(Prod.mk.inj hmove).1]
    · have hback := slotMove_pc (R := fun pc pc' => pc.repeats = false →
        pc'.repeats = false ∨ pc = .electRecheck) (by decide +kernel) (D.env x) (s.node x) hrepeats
      rcases hback with hback | hpc
      · exact hback
      · have hfull : (s.node x).full = true := by simp [Node.full, hpc]
        have hunique := (hs.rounds.isElectionValueUnique_iff hx hfull).2 (by
          rw [hs.wipes_eq_zero hx]
          exact fun y hy hne => hD y hy x hx hne)
        simp [slotMove, hpc, hunique, SlotPc.repeats]
  · obtain ⟨-, -, hmove, -, -, hpc⟩ := Sys.node_passive h hslot
    rw [hmove]
    refine ⟨hdraws, ?_⟩
    rcases hpc with hpc | ⟨w, -, hpc⟩
    · rwa [hpc]
    · rw [hpc]
      rfl

theorem heard_step (hs : Settled D s) (hx : x ∈ D.addresses) (h : Sys.step D s act = some s')
    (h14 : 14 ≤ (s'.node x).pc.rank) (hy : y ∈ D.addresses) (hne : y ≠ x) : 0 < s'.heard y x := by
  by_cases h14' : 14 ≤ (s.node x).pc.rank
  · have hpos := hs.heard x hx h14' y hy hne
    rw [Sys.heard_step hs.ledger hy hx hne h]
    omega
  · -- The node has just left the election, with a full table.
    have hpc := Sys.nominate_of_rank h (not_le.1 h14') h14
    have hpos := (hs.agreed.voted.step h).full x hx (by simp [Node.full, hpc]) y hy
    exact ((hs.ledger.step h).exchange y hy x hx hne.symm |>.vote (by rw [hpc]; decide) hpos).1

theorem step (hs : Settled D s) (hD : D.Distinct) (h : Sys.step D s act = some s') :
    Settled D s' where
  rounds := hs.rounds.step (hs.inRounds h) h
  agreed := hs.agreed.step (hs.nominates hD h) h
  once _ hx := hs.once_step hD hx h
  heard _ hx h14 _ hy hne := hs.heard_step hx h h14 hy hne

theorem start (D : Deployment) : Settled D D.start := by
  refine ⟨.start D, ⟨.start D, ?_, ?_⟩, ?_, ?_⟩
  all_goals simp [Deployment.start, SlotPc.nominated, SlotPc.rank, SlotPc.repeats]

/-- Who the validator is, all know that have asked. -/
theorem role (hs : Settled D s) {v : String} (hv : Wins D.addresses (fun a => (D.env a).draw 0) v)
    (hx : x ∈ D.addresses) (h16 : 16 ≤ (s.node x).pc.rank) :
    (s.node x).context.validator = v ∧ (s.node x).context.isValidator = decide (v = x) := by
  have hl := hs.ledger.base.known x hx
  obtain ⟨m, hm, hmarked⟩ := hs.agreed.marked x hx
    (show SlotPc.relayValidator.rank ≤ _ from (by decide : _ ≤ 16).trans h16)
  have hdraws : (s.node x).draws - 1 = 0 := Nat.sub_eq_zero_of_le (hs.once x hx).1
  rw [hdraws] at hm
  obtain rfl := hm.unique hv
  have hvalidator := hmarked.validator h16
  exact ⟨hvalidator, by rw [(hl.validator h16).2, hvalidator]⟩

/-- How many votes a node has sent. -/
theorem votes_eq (hs : Settled D s) (hx : x ∈ D.addresses) :
    (s.node x).votes = if 13 ≤ (s.node x).pc.rank then 1 else 0 := by
  have hl := hs.ledger.base.known x hx
  have hle := (s.node x).votes_le_draws.trans (hs.once x hx).1
  split
  · next h13 =>
    rcases hl.draws with ⟨-, h11⟩ | ⟨-, h12⟩ | ⟨hpos, -⟩ <;> omega
  · next h13 =>
    by_contra hpos
    exact h13 (hl.rank_of_votes (Nat.pos_of_ne_zero hpos))

end Settled

/-- **Without collisions the election has one round**, in every run. -/
theorem settled_of_reaches {D : Deployment} {s : Sys} {ok : Sys → Action → Prop}
    (hD : D.Distinct) (h : Reaches (Sys.step D) ok D.start s) : Settled D s :=
  h.invariant (.start D) fun _ _ _ hi _ hs => hi.step hD hs

end BlockchainMessaging
