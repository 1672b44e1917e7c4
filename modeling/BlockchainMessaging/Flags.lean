import BlockchainMessaging.Gathered

/-!
# Contribution flags

Every flag that is read is there: the slot thread reads flags after the inspection and before
it clears the slot, and the handler of an upload is only at work when its sender, and so
everybody, is past the inspection.  But the handler reads them after it has added the block,
in a call of its own, and in between the slot thread of the validator can merge the block,
broadcast it and clear the slot.  Then the handler finds a new entry, without a flag.

## Main definitions

* `ClearsLate` — the condition on a step.
* `flags_known` — nobody reads a flag that is missing.
-/

namespace BlockchainMessaging

open ConsensusStorage

/-- The slot is cleared when no handler is about to read its flags. -/
def ClearsLate (s : Sys) : Action → Prop
  | .slot x => (s.node x).pc = .completeClear →
      .isAllContributorsDataCollected ∉ (s.node x).todo
  | _ => True

instance (s : Sys) : ∀ act, Decidable (ClearsLate s act)
  | .slot x => inferInstanceAs (Decidable ((s.node x).pc = .completeClear → _))
  | .wake _ => .isTrue trivial
  | .handle _ => .isTrue trivial
  | .receive _ _ => .isTrue trivial

/-- Nobody reads the flags of a slot that it has cleared, and so nobody fails to. -/
structure FlagsKnown (D : Deployment) (v : String) (s : Sys) : Prop where
  gathered : Gathered D v s
  asks : ∀ x ∈ D.addresses, .isAllContributorsDataCollected ∈ (s.node x).todo →
    (s.node x).pc.rank ≤ 28
  failure : ∀ x ∈ D.addresses, (s.node x).failure ≠ some .badOptional

namespace FlagsKnown

variable {D : Deployment} {s s' : Sys} {act : Action} {v x : String}

theorem asks_step (hf : FlagsKnown D v s) (hv : D.Elects v) (hx : x ∈ D.addresses)
    (hok : ClearsLate s act) (h : Sys.step D s act = some s')
    (hasks : .isAllContributorsDataCollected ∈ (s'.node x).todo) :
    (s'.node x).pc.rank ≤ 28 := by
  have hstep := hf.gathered.settled.ledger.base.nodeStep h x
  generalize s'.node x = n' at hstep hasks ⊢
  cases hstep with
  | other => exact hf.asks x hx hasks
  | slot =>
    rw [(slotMove_frame _ _).1] at hasks
    have hback := slotMove_pc (R := fun pc pc' => pc.rank ≤ 28 → pc'.rank ≤ 28 ∨
      pc = .completeClear) (by decide +kernel) (D.env x) (s.node x) (hf.asks x hx hasks)
    exact hback.resolve_right fun hpc => hok hpc hasks
  | @wake w => cases w <;> simp [SlotPc.rank]
  | @handle op rest _ htodo =>
    rw [((op.exec_pc { s.node x with todo := rest })).rank_eq]
    refine hf.asks x hx ?_
    rcases op.exec_todo { s.node x with todo := rest } with hrest | ⟨-, hrest⟩
    · rw [hrest] at hasks
      rw [htodo]
      exact List.mem_cons_of_mem _ hasks
    · simp [hrest] at hasks
  | receive _ _ hchannel =>
    -- No message comes to a node that has the block.
    by_contra hlate
    have h29 : 28 < (s.node x).pc.rank := not_le.1 hlate
    rw [hf.gathered.inFlight_eq_nil hv hx (by omega)] at hchannel
    cases hchannel

theorem failure_step (hf : FlagsKnown D v s) (hx : x ∈ D.addresses)
    (h : Sys.step D s act = some s') : (s'.node x).failure ≠ some .badOptional := by
  have hsound := hf.gathered.settled.rounds.sound
  have hbefore := hf.failure x hx
  have hstep := hf.gathered.settled.ledger.base.nodeStep h x
  generalize s'.node x = n' at hstep ⊢
  cases hstep with
  | other => exact hbefore
  | slot =>
    rcases slotMove_failure (D.env x) (s.node x) with hsame | ⟨f, hfail, hfails⟩
    · rwa [hsame]
    · rw [hfail, (hsound.lockOwned_of_failsWith hx hfails).1]
      simp
  | wake => exact hbefore
  | @handle op rest _ htodo =>
    rcases op.exec_failure { s.node x with todo := rest } with hsame | ⟨hnull, -⟩ |
      ⟨-, rfl, hbad⟩
    · rwa [hsame]
    · rw [hnull]
      simp
    · -- The flags are asked for before the slot is cleared, so they are there.
      have hasks : .isAllContributorsDataCollected ∈ (s.node x).todo := by simp [htodo]
      have hslot := ((hf.gathered.settled.ledger.base.known x hx).sender (by simp [htodo])).1
      refine absurd ?_ (Sound.isAllContributorsDataCollected_ne_none hsound.voted hx
        ((hsound.equipped x hx).uploading hasks) (hf.asks x hx hasks))
      simpa [hslot] using hbad
  | receive => exact hbefore

theorem step (hf : FlagsKnown D v s) (hD : D.Distinct) (hv : D.Elects v) (hok : ClearsLate s act)
    (h : Sys.step D s act = some s') : FlagsKnown D v s' where
  gathered := hf.gathered.step hD hv hv.1 h
  asks _ hx hasks := hf.asks_step hv hx hok h hasks
  failure _ hx := hf.failure_step hx h

theorem start (D : Deployment) (v : String) : FlagsKnown D v D.start :=
  ⟨.start D v, by simp [Deployment.start], by simp [Deployment.start]⟩

end FlagsKnown

/-- **Contribution flags are known whenever they are read**, in every run without collisions in
which the slot is not cleared under a handler that is about to read them. -/
theorem flags_known {D : Deployment} {s : Sys} (hD : D.Distinct)
    (h : Reaches (Sys.step D) ClearsLate D.start s) {x : String} (hx : x ∈ D.addresses) :
    (s.node x).failure ≠ some .badOptional := by
  obtain ⟨v, hv⟩ := hD.exists_elects hx
  have hf : FlagsKnown D v s :=
    h.invariant (.start D v) fun _ _ _ hi hok hs => hi.step hD hv hok hs
  exact hf.failure x hx

set_option maxRecDepth 4000 in
theorem flags_known_relayPair :
    ∃ s : Sys, (s.node "b").pc = .publishBlock ∧ (s.node "b").failure ≠ some .badOptional := by
  obtain ⟨s, hs, h⟩ := exists_reaches (Sys.step relayPair) ClearsLate relayPair.start
    (relayPairSaves ++ [.slot "b"]) (fun s => (s.node "b").pc = .publishBlock) (by decide +kernel)
  simp only [decide_eq_true_eq] at h
  exact ⟨s, h, flags_known (by decide) hs (by decide)⟩

set_option maxRecDepth 4000 in
/-- The handler of `b` has added the block of `a`; the slot thread of `b` merges it, broadcasts,
saves and clears; then the handler asks whether all data is collected. -/
theorem not_flags_known_relayPair :
    ¬ ∀ s, Reachable (Sys.step relayPair) relayPair.start s → ∀ x ∈ relayPair.addresses,
      (s.node x).failure ≠ some .badOptional := by
  intro hall
  obtain ⟨s, hs, h⟩ := exists_reaches (Sys.step relayPair) (fun _ _ => True) relayPair.start
    (pairVotes ++ List.replicate 8 (.slot "a") ++ deliver "b" "a" 1 ++
      List.replicate 14 (.slot "b") ++ [.handle "b"])
    (fun s => (s.node "b").failure = some .badOptional) (by decide +kernel)
  simp only [decide_eq_true_eq] at h
  exact hall s hs "b" (by decide) h

end BlockchainMessaging
