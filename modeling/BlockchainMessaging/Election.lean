import BlockchainMessaging.Agreement
import BlockchainMessaging.Failures

/-!
# The end of the election

When values collide, a node removes all values from its table, draws again, and waits for new
values of everybody.  But only those draw again who see a collision themselves.  So a node can
wait for the value of a node that has left the election: because the value of that node was
unique and was removed all the same, or because it was sent early and removed with the round
before.

Apart from this the election ends.  If a vote is only executed in the round it belongs to, and
values are only removed when every value is shared, then the nodes go through the election
round by round.  A waiting node then waits for a node that is one round behind; that node
waits as well, and so on down to a node that has left, with a value that is not shared.

## Main definitions

* `Node.wipes` — the rounds that a node has ended.
* `InRounds` — the condition on a step.
* `Rounds` — what holds in such runs.
* `election_ends` — when nothing is left to do in the election, all have left it.
-/

namespace BlockchainMessaging

open ConsensusStorage

/-! ## Rounds -/

/-- How often the node has removed the election values from its table. -/
def Node.wipes (n : Node) : ℕ := if n.pc.redraws then n.draws else n.draws - 1

/-- Votes are executed in the round they belong to: no vote of a node is executed before the
one before it was removed.  Values are only removed when everybody shares its value. -/
def InRounds (D : Deployment) (s : Sys) : Action → Prop
  | .handle x => ((s.node x).todo.head?.bind HandlerOp.vote).isSome →
      s.heard (s.node x).header.address x ≤ (s.node x).wipes
  | .slot x => (s.node x).pc = .electRemoveDuplicates →
      ∀ a ∈ (s.node x).storage.contexts.keys, ∃ b ∈ (s.node x).storage.contexts.keys, b ≠ a ∧
        ((s.node x).storage.context b D.slot).electionValue =
          ((s.node x).storage.context a D.slot).electionValue
  | _ => True

instance (D : Deployment) (s : Sys) : ∀ act, Decidable (InRounds D s act)
  | .handle x => inferInstanceAs (Decidable (_ → s.heard (s.node x).header.address x ≤ _))
  | .slot x => inferInstanceAs (Decidable (_ → ∀ a ∈ (s.node x).storage.contexts.keys, _))
  | .wake _ => .isTrue trivial
  | .receive _ _ => .isTrue trivial

/-- Only the removal ends a round. -/
theorem slotMove_wipes {D : Deployment} {x : String} {n : Node} (hl : Local D x n) :
    (slotMove (D.env x) n).1.wipes =
      if n.pc = .electRemoveDuplicates then n.wipes + 1 else n.wipes := by
  have hdraws := slotMove_draws (D.env x) n
  have hredraws := slotMove_pc (R := fun pc pc' => pc ≠ .electRemoveDuplicates →
    pc ∉ [SlotPc.voteFill false, .voteFill true] → pc'.redraws = pc.redraws)
    (by decide +kernel) (D.env x) n
  have hlocal := hl.draws
  cases hpc : n.pc
  case voteFill again =>
    have hfirst : again = false → n.draws = 0 := by
      rintro rfl
      simpa [hpc, SlotPc.rank] using hlocal
    cases again <;> simp_all [slotMove, Node.wipes, SlotPc.redraws, Node.setOperation]
  case electRemoveDuplicates =>
    have hpos : 0 < n.draws := by
      have := n.votes_le_draws
      simp [hpc, SlotPc.rank] at hlocal
      omega
    simp only [slotMove, Node.wipes, hpc, SlotPc.redraws, if_true]
    simp
    omega
  all_goals
    rw [hpc] at hredraws hdraws
    simp only [Prod.mk.injEq] at hdraws
    simp only [Node.wipes, hpc, hdraws.1, reduceCtorEq, if_false]
    rw [hredraws (by simp) (by simp)]

/-- What a removal leaves of the value of another node. -/
theorem electionValue_slotMove {D : Deployment} {x y : String} {n : Node} (hl : Local D x n)
    (hx : x ∈ D.addresses) (hy : y ∈ D.addresses) (hne : y ≠ x)
    (h28 : (slotMove (D.env x) n).1.pc.rank ≤ 28) :
    ((slotMove (D.env x) n).1.storage.context y D.slot).electionValue =
      if n.pc = .electRemoveDuplicates then 0
      else (n.storage.context y D.slot).electionValue := by
  have hclear : n.pc ≠ .completeClear := by
    intro hclear
    simp [slotMove, hclear, SlotPc.rank] at h28
  by_cases hremove : n.pc = .electRemoveDuplicates
  · have hslot := hl.slot_eq hx (by rw [hremove]; decide)
    have hwork : n.workSlot = D.slot := by simp [Node.workSlot, hremove, hslot]
    simp [slotMove_table, hwork, slotEffect, hremove, (hl.mem_keys y).2 hy]
  · rw [if_neg hremove]
    by_cases hfill : ∃ again, n.pc = .voteFill again
    · obtain ⟨again, hfill⟩ := hfill
      have hself : y ≠ (D.env x).self := by rwa [D.self_eq x hx]
      rw [slotMove_table]
      split <;> simp [slotEffect, hfill, hself]
    · exact slotMove_electionValue _ (fun again h => hfill ⟨again, h⟩) hremove hclear y D.slot

/-! ## One step and the votes -/

namespace Sys

variable {D : Deployment} {s s' : Sys} {act : Action} {x y : String}

/-- The votes that were executed are counted one by one. -/
theorem heard_step (hl : Ledger D s) (hy : y ∈ D.addresses) (hx : x ∈ D.addresses) (hne : y ≠ x)
    (h : step D s act = some s') :
    s'.heard y x = s.heard y x + (ballots (s.executes act y x)).length := by
  have hq := queueStep hl.base hy hx hne.symm (hl.exchange y hy x hx hne.symm).received h
  rw [heard, hq.executed, ballots_append, List.length_append, heard]

/-- Only a call of the consensus thread of `x` executes votes. -/
theorem heard_eq (hl : Ledger D s) (hy : y ∈ D.addresses) (hx : x ∈ D.addresses) (hne : y ≠ x)
    (h : step D s act = some s') (hact : act ≠ .handle x) : s'.heard y x = s.heard y x := by
  rw [heard_step hl hy hx hne h]
  simp [executes, hact, ballots]

end Sys

/-! ## The invariant -/

/-- Where `x` stands with the votes of `y`: in its present round it has executed none, and then
there is no value of `y` in its table, or one. -/
structure Round (D : Deployment) (s : Sys) (y x : String) : Prop where
  le : (s.node x).wipes ≤ s.heard y x
  ge : s.heard y x ≤ (s.node x).wipes + 1
  present : (s.node x).pc.rank ≤ 28 →
    (((s.node x).storage.context y D.slot).electionValue ≠ 0 ↔
      s.heard y x = (s.node x).wipes + 1)

/-- The places where the own value was seen to be unique, when the lock is owned. -/
def SlotPc.checked : SlotPc → Bool
  | .electPresent | .electUnique => true
  | _ => false

/-- The election, round by round. -/
structure Rounds (D : Deployment) (s : Sys) : Prop where
  sound : Sound D s
  round : ∀ x ∈ D.addresses, ∀ y ∈ D.addresses, y ≠ x → Round D s y x
  unique : ∀ x ∈ D.addresses, (s.node x).pc.checked = true → (s.node x).owned = true →
    ∀ y ∈ D.addresses, y ≠ x → (D.env y).draw (s.node x).wipes ≠ (D.env x).draw (s.node x).wipes
  free : ∀ x ∈ D.addresses, (s.node x).pc = .wait .election .lock → (s.node x).owned = false
  /-- Who has left had a value of its own in its last round. -/
  left : ∀ x ∈ D.addresses, 14 ≤ (s.node x).pc.rank → ∀ y ∈ D.addresses, y ≠ x →
    (D.env y).draw ((s.node x).draws - 1) ≠ (D.env x).draw ((s.node x).draws - 1)
  /-- In a round that has ended nobody had. -/
  shared : ∀ x ∈ D.addresses, ∀ k < (s.node x).wipes, ∀ a ∈ D.addresses, ∃ b ∈ D.addresses,
    b ≠ a ∧ (D.env b).draw k = (D.env a).draw k

namespace Round

variable {D : Deployment} {s s' : Sys} {act : Action} {x y : String}

/-- A call of the slot thread of `x`. -/
theorem slot (hr : Round D s y x) (hv : Voted D s) (hx : x ∈ D.addresses) (hy : y ∈ D.addresses)
    (hne : y ≠ x) (h : Sys.step D s (.slot x) = some s') : Round D s' y x := by
  have hledger := hv.inspected.ledger
  have hl := hledger.base.known x hx
  have hnode := (Sys.node_slot h).2.2
  have hheard := Sys.heard_eq hledger hy hx hne h (by simp)
  have hwipes := slotMove_wipes hl
  rw [← hnode] at hwipes
  by_cases hremove : (s.node x).pc = .electRemoveDuplicates
  · -- All values are present, so the round is complete.
    have hfull := hr.present (by rw [hremove]; decide)
    rw [if_pos hremove] at hwipes
    have hcomplete := hfull.1 (hv.full x hx (by simp [Node.full, hremove]) y hy)
    refine ⟨by omega, by omega, fun h28 => ?_⟩
    rw [hnode] at h28
    rw [hnode, electionValue_slotMove hl hx hy hne h28, if_pos hremove, ← hnode]
    omega
  · rw [if_neg hremove] at hwipes
    refine ⟨by rw [hheard, hwipes]; exact hr.le, by rw [hheard, hwipes]; exact hr.ge, fun h28 => ?_⟩
    rw [hheard, hwipes]
    rw [hnode] at h28 ⊢
    rw [electionValue_slotMove hl hx hy hne h28, if_neg hremove]
    exact hr.present ((slotMove_rank _ _).trans h28)

/-- What is not a call of the slot thread of `x` ends no round. -/
theorem wipes_eq (h : Sys.step D s act = some s') (hact : act ≠ .slot x) :
    (s'.node x).wipes = (s.node x).wipes := by
  obtain ⟨-, -, hdraws, -, -, hpc⟩ := Sys.node_passive h hact
  have hredraws : (s'.node x).pc.redraws = (s.node x).pc.redraws := by
    rcases hpc with hpc | ⟨w, hpc, hpc'⟩
    · rw [hpc]
    · rw [hpc, hpc']
      rfl
  rw [Node.wipes, hdraws, hredraws, Node.wipes]

/-- A call of the consensus thread of `x`. -/
theorem handle (hr : Round D s y x) (hl : Ledger D s) (hx : x ∈ D.addresses)
    (hy : y ∈ D.addresses) (hne : y ≠ x) (hok : InRounds D s (.handle x))
    (h : Sys.step D s (.handle x) = some s') : Round D s' y x := by
  have hheard := Sys.heard_step hl hy hx hne h
  have hwipes := wipes_eq (x := x) h (by simp)
  have hrank := ((Sys.node_passive h (x := x) (by simp)).2.2.2.2.2).rank_eq
  obtain ⟨-, -, op, rest, htodo, hs'⟩ := Sys.step_handle_eq_some h
  have hnode : s'.node x = op.exec { s.node x with todo := rest } := by simp [hs']
  have hsender := (hl.base.known x hx).sender (by simp [htodo])
  have hvalue : ((s'.node x).storage.context y D.slot).electionValue =
      if (s.node x).header.address = y then
        (op.effect "" ((s.node x).storage.context y D.slot)).electionValue
      else ((s.node x).storage.context y D.slot).electionValue := by
    rw [hnode, HandlerOp.exec_table]
    by_cases hyx : (s.node x).header.address = y
    · rw [if_pos ⟨hyx.symm, hsender.1.symm⟩, if_pos hyx]
      cases op <;> rfl
    · rw [if_neg fun h => hyx h.1.symm, if_neg hyx]
  have hexecuted : ballots (s.executes (.handle x) y x) =
      if (s.node x).header.address = y then op.vote.toList else [] := by
    simp only [Sys.executes, htodo, true_and, List.take_succ_cons, List.take_zero]
    split
    · cases op <;> rfl
    · rfl
  rw [hexecuted] at hheard
  by_cases hvote : (s.node x).header.address = y ∧ op.vote.isSome
  · obtain ⟨rfl, hvote⟩ := hvote
    obtain ⟨v, hv⟩ := Option.isSome_iff_exists.1 hvote
    have hle := hok (by simp [htodo, hv])
    have hge := hr.le
    obtain rfl : op = .fillElectionValue v := by
      cases op <;> simp_all [HandlerOp.vote]
    have hnext := (hl.exchange _ hy x hx hne.symm).next_vote rfl htodo
    have hdraw := ((D.env (s.node x).header.address).draw_range
      (s.heard (s.node x).header.address x)).1
    simp only [if_true, hv, Option.toList_some, List.length_singleton] at hheard
    refine ⟨by omega, by omega, fun _ => ?_⟩
    rw [hheard, hwipes, hvalue, if_pos rfl]
    simp only [HandlerOp.effect]
    omega
  · have hsame : (if (s.node x).header.address = y then op.vote.toList else []) = [] := by
      split
      · next hyx =>
        simp only [hyx, true_and, Option.not_isSome_iff_eq_none] at hvote
        rw [hvote]
        rfl
      · rfl
    have hvalue' : ((s'.node x).storage.context y D.slot).electionValue =
        ((s.node x).storage.context y D.slot).electionValue := by
      rw [hvalue]
      split
      · next hyx => cases op <;> simp_all [HandlerOp.vote, HandlerOp.effect]
      · rfl
    rw [hsame] at hheard
    refine ⟨by rw [hheard, hwipes]; exact hr.le, by rw [hheard, hwipes]; exact hr.ge, fun h28 => ?_⟩
    rw [hheard, hwipes, hvalue']
    exact hr.present (by rwa [← hrank])

theorem step (hr : Round D s y x) (hv : Voted D s) (hx : x ∈ D.addresses) (hy : y ∈ D.addresses)
    (hne : y ≠ x) (hok : InRounds D s act) (h : Sys.step D s act = some s') : Round D s' y x := by
  by_cases hslot : act = .slot x
  · subst hslot
    exact hr.slot hv hx hy hne h
  · by_cases hhandle : act = .handle x
    · subst hhandle
      exact hr.handle hv.inspected.ledger hx hy hne hok h
    · have hheard := Sys.heard_eq hv.inspected.ledger hy hx hne h hhandle
      have hrank := ((Sys.node_passive h hslot).2.2.2.2.2).rank_eq
      have hwipes := wipes_eq h hslot
      constructor
      case le => rw [hheard, hwipes]; exact hr.le
      case ge => rw [hheard, hwipes]; exact hr.ge
      case present =>
        rw [hheard, hwipes, hrank, Sys.storage_eq h hslot hhandle]
        exact hr.present

end Round

namespace Rounds

variable {D : Deployment} {s s' : Sys} {act : Action} {x y : String}

/-- In a full table stand the values of one round. -/
theorem electionValue_eq (hr : Rounds D s) (hx : x ∈ D.addresses)
    (hfull : (s.node x).full = true) (hy : y ∈ D.addresses) :
    ((s.node x).storage.context y D.slot).electionValue = (D.env y).draw (s.node x).wipes := by
  have hv := hr.sound.voted
  have hpos := hv.full x hx hfull y hy
  have hplace : ∀ n : Node, n.full = true → 12 ≤ n.pc.rank ∧ n.pc.rank ≤ 28 ∧
      n.pc.redraws = false := by
    intro n hn
    rw [Node.full] at hn
    split at hn <;> simp_all [SlotPc.rank, SlotPc.redraws]
  obtain ⟨h12, h28, hredraws⟩ := hplace _ hfull
  by_cases hne : y = x
  · subst hne
    have hown := (hv.inspected.ledger.base.own y hx).electionValue h12 h28
    simpa [Node.wipes, hredraws] using hown
  · have hvote := (hv.inspected.ledger.exchange y hy x hx (Ne.symm hne)).vote h28 hpos
    have hround := ((hr.round x hx y hy hne).present h28).1 hpos
    rw [hvote.2, hround, Nat.add_sub_cancel]

/-- In a full table, the check of the own value is a check of the round. -/
theorem isElectionValueUnique_iff (hr : Rounds D s) (hx : x ∈ D.addresses)
    (hfull : (s.node x).full = true) :
    ((s.node x).storage.isElectionValueUnique (D.env x).self
        (s.node x).context.header.slot).1 = true ↔
      ∀ y ∈ D.addresses, y ≠ x →
        (D.env y).draw (s.node x).wipes ≠ (D.env x).draw (s.node x).wipes := by
  have hl := hr.sound.voted.inspected.ledger.base.known x hx
  have hslot : 4 ≤ (s.node x).pc.rank := by
    rw [Node.full] at hfull
    split at hfull <;> simp_all [SlotPc.rank]
  rw [D.self_eq x hx, ConsensusStorage.isElectionValueUnique_iff ((hl.mem_keys x).2 hx),
    hl.slot_eq hx hslot, hr.electionValue_eq hx hfull hx]
  constructor
  · intro h y hy hne
    rw [← hr.electionValue_eq hx hfull hy]
    exact h y ((hl.mem_keys y).2 hy) hne
  · intro h y hy hne
    have hy := (hl.mem_keys y).1 hy
    rw [hr.electionValue_eq hx hfull hy]
    exact h y hy hne

/-- Where the own value is looked at again, it was looked at before, or just now. -/
theorem unique_step (hr : Rounds D s) (hx : x ∈ D.addresses) (h : Sys.step D s act = some s')
    (hchecked : (s'.node x).pc.checked = true) (howned : (s'.node x).owned = true)
    (hy : y ∈ D.addresses) (hne : y ≠ x) :
    (D.env y).draw (s'.node x).wipes ≠ (D.env x).draw (s'.node x).wipes := by
  have hl := hr.sound.voted.inspected.ledger.base.known x hx
  by_cases hslot : act = .slot x
  · subst hslot
    have hwipes := slotMove_wipes hl
    have hlock := slotMove_owned (D.env x) (s.node x)
    have hback := slotMove_pc (R := fun pc pc' => pc'.checked = true →
      pc ∈ [SlotPc.wait .election .enter, .votePublish true] ∨ pc = .electRecheck ∨
        pc.checked = true) (by decide +kernel) (D.env x) (s.node x)
    rw [(Sys.node_slot h).2.2] at hchecked howned ⊢
    rcases hback hchecked with hpc | hpc | hpc
    · -- The lock is not owned there.
      have hmay := hl.owned
      simp only [List.mem_cons, List.not_mem_nil, or_false] at hpc
      rcases hpc with hpc | hpc
      all_goals
        simp only [hpc] at hlock hmay
        rw [hlock] at howned
        cases hmay howned
    · have hcheck : ((s.node x).storage.isElectionValueUnique (D.env x).self
          (s.node x).context.header.slot).1 = true := by
        by_contra hcheck
        simp [slotMove, hpc, hcheck, SlotPc.checked] at hchecked
      rw [hwipes, if_neg (by simp [hpc])]
      exact (hr.isElectionValueUnique_iff hx (by simp [Node.full, hpc])).1 hcheck y hy hne
    · have hbefore : (s.node x).owned = true := by
        revert hlock
        cases hpc' : (s.node x).pc <;> simp [SlotPc.checked, hpc'] at hpc <;> simp [howned]
      rw [hwipes, if_neg (by rintro hremove; simp [hremove, SlotPc.checked] at hpc)]
      exact hr.unique x hx hpc hbefore y hy hne
  · obtain ⟨-, -, -, -, hlock, hpc⟩ := Sys.node_passive h hslot
    have hbefore : (s.node x).pc.checked = true := by
      rcases hpc with hpc | ⟨w, -, hpc⟩
      · rwa [← hpc]
      · simp [hpc, SlotPc.checked] at hchecked
    rw [Round.wipes_eq h hslot]
    exact hr.unique x hx hbefore (by rwa [← hlock]) y hy hne

/-- The election never locks what it has locked. -/
theorem free_step (hr : Rounds D s) (hx : x ∈ D.addresses) (h : Sys.step D s act = some s')
    (hlock : (s'.node x).pc = .wait .election .lock) : (s'.node x).owned = false := by
  have hv := hr.sound.voted
  have hl := hv.inspected.ledger.base.known x hx
  by_cases hslot : act = .slot x
  · subst hslot
    have howned := slotMove_owned (D.env x) (s.node x)
    have hback := slotMove_pc (R := fun pc pc' => pc' = .wait .election .lock →
      pc = .wait .election .early ∨ pc = .wait .election .lock ∨ pc = .electPresent ∨
        pc = .electUnique) (by decide +kernel) (D.env x) (s.node x)
    rw [(Sys.node_slot h).2.2] at hlock ⊢
    by_contra hown
    rw [Bool.not_eq_false] at hown
    rcases hback hlock with hpc | hpc | hpc | hpc
    · simp only [hpc] at howned
      have hmay := hl.owned (by rw [← howned, hown])
      rw [hpc] at hmay
      cases hmay
    · have hfree := hr.free x hx hpc
      simp [slotMove, hpc, waitMove, hfree] at hlock
    · simp only [hpc] at howned
      have hfull : (s.node x).full = true := by simp [Node.full, hpc, ← howned, hown]
      have hpresent : ((s.node x).storage.areAllElectionValuesPresent
          (s.node x).context.header.slot).1 = some true := by
        rw [areAllElectionValuesPresent_eq_true, hl.slot_eq hx (by rw [hpc]; decide)]
        intro y hy
        exact Nat.pos_of_ne_zero (hv.full x hx hfull y ((hl.mem_keys y).1 hy))
      simp [slotMove, hpc, Node.ask_eq, hpresent] at hlock
    · have hbefore : (s.node x).owned = true := by
        simp only [hpc] at howned
        split at howned
        · simp [hown] at howned
        · rw [← howned, hown]
      have hcheck := (hr.isElectionValueUnique_iff hx (by simp [Node.full, hpc])).2
        (hr.unique x hx (by simp [hpc, SlotPc.checked]) hbefore)
      simp [slotMove, hpc, hcheck] at hlock
  · obtain ⟨-, -, -, -, howned, hpc⟩ := Sys.node_passive h hslot
    rw [howned]
    refine hr.free x hx ?_
    rcases hpc with hpc | ⟨w, -, hpc⟩
    · rw [← hpc, hlock]
    · simp [hpc] at hlock

/-- Who leaves now has seen that its value is unique. -/
theorem left_step (hr : Rounds D s) (hx : x ∈ D.addresses) (h : Sys.step D s act = some s')
    (h14 : 14 ≤ (s'.node x).pc.rank) (hy : y ∈ D.addresses) (hne : y ≠ x) :
    (D.env y).draw ((s'.node x).draws - 1) ≠ (D.env x).draw ((s'.node x).draws - 1) := by
  by_cases h14' : 14 ≤ (s.node x).pc.rank
  · rw [Sys.draws_eq h h14']
    exact hr.left x hx h14' y hy hne
  · obtain rfl := Sys.eq_slot_of_rank_lt h ((not_le.1 h14').trans_le h14)
    have hback := slotMove_pc (R := fun pc pc' => 14 ≤ pc'.rank → 14 ≤ pc.rank ∨
      pc = .electUnique) (by decide +kernel) (D.env x) (s.node x)
    have hdraws := slotMove_draws (D.env x) (s.node x)
    rw [(Sys.node_slot h).2.2] at h14 ⊢
    have hpc := (hback h14).resolve_left h14'
    have hcheck : ((s.node x).storage.isElectionValueUnique (D.env x).self
        (s.node x).context.header.slot).1 = true := by
      by_contra hcheck
      simp [slotMove, hpc, hcheck, SlotPc.rank] at h14
    have hunique := (hr.isElectionValueUnique_iff hx (by simp [Node.full, hpc])).1 hcheck y hy hne
    have hwipes : (s.node x).wipes = (s.node x).draws - 1 := by
      simp [Node.wipes, hpc, SlotPc.redraws]
    simp only [hpc, Prod.mk.injEq] at hdraws
    rwa [hdraws.1, ← hwipes]

/-- A round only ends when no value in it is unique. -/
theorem shared_step (hr : Rounds D s) (hx : x ∈ D.addresses) (hok : InRounds D s act)
    (h : Sys.step D s act = some s') {k : ℕ} (hk : k < (s'.node x).wipes) {a : String}
    (ha : a ∈ D.addresses) :
    ∃ b ∈ D.addresses, b ≠ a ∧ (D.env b).draw k = (D.env a).draw k := by
  have hl := hr.sound.voted.inspected.ledger.base.known x hx
  by_cases hslot : act = .slot x
  · subst hslot
    rw [(Sys.node_slot h).2.2, slotMove_wipes hl] at hk
    split at hk
    · next hremove =>
      rcases Nat.lt_succ_iff_lt_or_eq.1 hk with hk | rfl
      · exact hr.shared x hx k hk a ha
      · have hfull : (s.node x).full = true := by simp [Node.full, hremove]
        obtain ⟨b, hb, hne, hsame⟩ := hok hremove a ((hl.mem_keys a).2 ha)
        have hb := (hl.mem_keys b).1 hb
        rw [hr.electionValue_eq hx hfull hb, hr.electionValue_eq hx hfull ha] at hsame
        exact ⟨b, hb, hne, hsame⟩
    · exact hr.shared x hx k hk a ha
  · rw [Round.wipes_eq h hslot] at hk
    exact hr.shared x hx k hk a ha

theorem step (hr : Rounds D s) (hok : InRounds D s act) (h : Sys.step D s act = some s') :
    Rounds D s' where
  sound := hr.sound.step h
  round _ hx _ hy hne := (hr.round _ hx _ hy hne).step hr.sound.voted hx hy hne hok h
  unique _ hx hchecked howned _ hy hne := hr.unique_step hx h hchecked howned hy hne
  free _ hx hlock := hr.free_step hx h hlock
  left _ hx h14 _ hy hne := hr.left_step hx h h14 hy hne
  shared _ hx _ hk _ ha := hr.shared_step hx hok h hk ha

theorem start (D : Deployment) : Rounds D D.start := by
  refine ⟨.start D, fun x hx y _ _ => ?_, ?_, ?_, ?_, ?_⟩
  · refine ⟨?_, ?_, fun _ => ?_⟩
    all_goals simp [Deployment.start, Node.wipes, SlotPc.redraws, Sys.heard, Sys.executed,
      Sys.received, Sys.inHand, ballots, D.context_eq x hx y, ConsensusContext.fresh]
  all_goals simp [Deployment.start, SlotPc.rank, Node.wipes, SlotPc.redraws]

end Rounds

/-! ## When nothing is left to do -/

/-- `sendElectionValue` has begun. -/
def SlotPc.voting (pc : SlotPc) : Prop := (SlotPc.voteFill false).rank ≤ pc.rank

/-- `ElectionWaiter::wait` has returned. -/
def SlotPc.elected (pc : SlotPc) : Prop := SlotPc.nominate.rank ≤ pc.rank

/-- The wait in which the slot thread sleeps. -/
def SlotPc.sleepsIn : SlotPc → Option Waiter
  | .wait w .asleep => some w
  | _ => none

/-- The slot thread has a call to make, or sleeps in a wait whose predicate is true. -/
def Sys.canMove (D : Deployment) (s : Sys) (x : String) : Bool :=
  (Sys.step D s (.slot x)).isSome ||
    (Sys.step D s (.wake x)).isSome && (s.node x).pc.sleepsIn.any fun w => w.ready (s.node x)

/-- No vote is under way, and nobody who is still in the election can go on. -/
def ElectionQuiet (D : Deployment) (s : Sys) : Prop :=
  ∀ x ∈ D.addresses,
    (∀ y ∈ D.addresses, ∀ m ∈ (s.channel y x).inFlight, m.header.operation ≠ .ELECTION) ∧
    (∀ op ∈ (s.node x).todo, op.vote = none) ∧
    ((s.node x).pc.rank < SlotPc.nominate.rank → Sys.canMove D s x = false)

instance : DecidablePred SlotPc.voting := fun pc => inferInstanceAs (Decidable (_ ≤ pc.rank))

instance : DecidablePred SlotPc.elected := fun pc => inferInstanceAs (Decidable (_ ≤ pc.rank))

instance (D : Deployment) (s : Sys) : Decidable (ElectionQuiet D s) :=
  inferInstanceAs (Decidable (∀ x ∈ D.addresses,
    (∀ y ∈ D.addresses, ∀ m ∈ (s.channel y x).inFlight, m.header.operation ≠ .ELECTION) ∧
    (∀ op ∈ (s.node x).todo, op.vote = none) ∧
    ((s.node x).pc.rank < SlotPc.nominate.rank → Sys.canMove D s x = false)))

namespace ElectionQuiet

variable {D : Deployment} {s : Sys} {x y : String}

/-- With no vote under way, all votes were executed. -/
theorem heard_eq (hq : ElectionQuiet D s) (hl : Ledger D s) (hy : y ∈ D.addresses)
    (hx : x ∈ D.addresses) (hne : y ≠ x) : s.heard y x = (s.node y).votes := by
  obtain ⟨hmail, htodo, -⟩ := hq x hx
  have hother : ∀ m : ConsensusMessage, m.header.operation ≠ .ELECTION →
      ∀ op ∈ m.updates, op.vote = none := by
    rintro ⟨⟨operation, node, address, timestamp, slot⟩, body⟩ hm op hop
    cases operation <;> cases body <;>
      simp_all [ConsensusMessage.updates, handlerScript, List.filter_cons, HandlerOp.isUpdate]
    all_goals rcases hop with rfl | rfl <;> rfl
  have hpending : ballots (s.pending y x) = [] := by
    refine List.filterMap_eq_nil_iff.2 fun op hop => ?_
    rcases List.mem_append.1 hop with hhand | hflight
    · rw [Sys.inHand] at hhand
      split at hhand
      · exact htodo op (List.mem_filter.1 hhand).1
      · cases hhand
    · obtain ⟨m, hm, hop⟩ := List.mem_flatMap.1 hflight
      exact hother m (hmail y hy m hm) op hop
  have hcount := (hl.exchange y hy x hx hne.symm).ballots_executed.2
  rwa [hpending, List.length_nil, Nat.add_zero] at hcount

/-- Whoever is still in the election sleeps, and finds a value missing. -/
theorem asleep (hq : ElectionQuiet D s) (hr : Rounds D s) (hx : x ∈ D.addresses)
    (hvoting : (s.node x).pc.voting) (hstays : ¬ (s.node x).pc.elected) :
    (s.node x).pc = .wait .election .asleep ∧
      ∃ y ∈ D.addresses, ((s.node x).storage.context y D.slot).electionValue = 0 := by
  have hrank : (s.node x).pc.rank < SlotPc.nominate.rank := not_le.1 hstays
  have hfailure : (s.node x).failure = none := by
    by_contra hfailure
    obtain ⟨f, hf⟩ := Option.ne_none_iff_exists'.1 hfailure
    rcases hr.sound.failure x hx f hf with ⟨-, hpc, howned⟩ | ⟨h29, -⟩
    · rw [hr.free x hx hpc] at howned
      cases howned
    · exact absurd (h29.trans_lt hrank) (by decide)
  have hmove := (hq x hx).2.2 hrank
  rw [Sys.canMove, Bool.or_eq_false_iff] at hmove
  obtain ⟨hslot, hwake⟩ := hmove
  have hblocked : (s.node x).pc.blocked = true := by
    by_contra hblocked
    simp [Sys.step, hx, slotStep, hfailure, hblocked] at hslot
  have hplace : ∀ pc : SlotPc, pc.blocked = true → (SlotPc.voteFill false).rank ≤ pc.rank →
      pc.rank < SlotPc.nominate.rank → pc = .wait .election .asleep := by decide +kernel
  have hpc := hplace _ hblocked hvoting hrank
  refine ⟨hpc, ?_⟩
  have hl := hr.sound.voted.inspected.ledger.base.known x hx
  have hmissing : ((s.node x).storage.areAllElectionValuesPresent D.slot).1 ≠ some true := by
    simpa [Sys.step, hx, wakeStep, hpc, hfailure, SlotPc.sleepsIn, Waiter.ready,
      Waiter.predicate, hl.slot_eq hx (by rw [hpc]; decide)] using hwake
  rw [Ne, areAllElectionValuesPresent_eq_true] at hmissing
  push Not at hmissing
  obtain ⟨y, hy, hzero⟩ := hmissing
  exact ⟨y, (hl.mem_keys y).1 hy, Nat.le_zero.1 hzero⟩

/-- Whoever is still in the election waits for a node that has drawn once less. -/
theorem behind (hq : ElectionQuiet D s) (hr : Rounds D s)
    (hvoting : ∀ y ∈ D.addresses, (s.node y).pc.voting) (hx : x ∈ D.addresses)
    (hstays : ¬ (s.node x).pc.elected) :
    ∃ y ∈ D.addresses, (s.node x).wipes = (s.node y).draws ∧
      (s.node x).draws = (s.node y).draws + 1 := by
  have hledger := hr.sound.voted.inspected.ledger
  have hl := hledger.base.known x hx
  obtain ⟨hpc, y, hy, hzero⟩ := hq.asleep hr hx (hvoting x hx) hstays
  have hwipes : (s.node x).wipes = (s.node x).draws - 1 := by
    simp [Node.wipes, hpc, SlotPc.redraws]
  have hpos : 0 < (s.node x).draws := by
    have := (s.node x).votes_le_draws
    rcases hl.draws with ⟨-, h11⟩ | ⟨-, h12⟩ | ⟨hvotes, -⟩
    · simp [hpc, SlotPc.rank] at h11
    · simp [hpc, SlotPc.rank] at h12
    · omega
  have hne : y ≠ x := by
    rintro rfl
    have hown := (hledger.base.own y hx).electionValue (by rw [hpc]; decide) (by rw [hpc]; decide)
    rw [hzero, hpc] at hown
    have := ((D.env y).draw_range ((s.node y).draws - 1)).1
    simp [SlotPc.redraws] at hown
    omega
  -- The vote of the present round has not been executed, so it was not sent.
  have hround := hr.round x hx y hy hne
  have hmissed : s.heard y x ≠ (s.node x).wipes + 1 := fun h =>
    (hround.present (by rw [hpc]; decide)).2 h hzero
  have hheard : s.heard y x = (s.node x).wipes := by
    have := hround.le
    have := hround.ge
    omega
  have hvotes : (s.node y).votes = (s.node y).draws := by
    by_cases hleft : (s.node y).pc.elected
    · cases hpcy : (s.node y).pc
      case votePublish again =>
        rw [hpcy] at hleft
        cases again <;> exact absurd hleft (by decide)
      all_goals simp [Node.votes, hpcy]
    · simp [Node.votes, (hq.asleep hr hy (hvoting y hy) hleft).1]
  rw [hq.heard_eq hledger hy hx hne, hvotes] at hheard
  exact ⟨y, hy, hheard.symm, by omega⟩

end ElectionQuiet

/-- Going through the election round by round, everybody leaves it. -/
theorem ElectionQuiet.elected {D : Deployment} {s : Sys} (hq : ElectionQuiet D s)
    (hr : Rounds D s) (hvoting : ∀ x ∈ D.addresses, (s.node x).pc.voting) {x : String}
    (hx : x ∈ D.addresses) : (s.node x).pc.elected := by
  -- By induction on the round in which `x` waits.
  have hall : ∀ k, ∀ x ∈ D.addresses, (s.node x).draws = k → (s.node x).pc.elected := by
    intro k
    induction k using Nat.strong_induction_on with
    | _ k ih =>
      intro x hx hk
      by_contra hstays
      obtain ⟨y, hy, hwipes, hdraws⟩ := hq.behind hr hvoting hx hstays
      have hleft := ih _ (by omega) y hy rfl
      have hpos : 0 < (s.node y).draws := by
        have h14 : 14 ≤ (s.node y).pc.rank := hleft
        have := (s.node y).votes_le_draws
        have := (hr.sound.voted.inspected.ledger.base.known y hy).draws
        omega
      -- `y` has left with a value of its own, in a round that `x` has ended.
      obtain ⟨b, hb, hne, hsame⟩ := hr.shared x hx ((s.node y).draws - 1) (by omega) y hy
      exact hr.left y hy hleft b hb hne hsame
  exact hall _ x hx rfl

/-- **The election ends**, in every run that goes through it round by round: when all have
begun to vote, and there is nothing left to do in the election, all have left it. -/
theorem election_ends {D : Deployment} {s : Sys}
    (h : Reaches (Sys.step D) (InRounds D) D.start s)
    (hvoting : ∀ x ∈ D.addresses, (s.node x).pc.voting) (hquiet : ElectionQuiet D s) {x : String}
    (hx : x ∈ D.addresses) : (s.node x).pc.elected :=
  hquiet.elected (h.invariant (.start D) fun _ _ _ hi hok hs => hi.step hok hs) hvoting hx

/-- The pair, with values that collide in the first round. -/
def tiedPair : Deployment :=
  pair (fun x k => if k = 0 then 5 else if x = "a" then 7 else 9) fun x k => by
    split <;> [decide; (split <;> decide)]

set_option maxRecDepth 4000 in
/-- Both see the collision, and both draw again. -/
theorem election_ends_tiedPair :
    ∃ s : Sys, (s.node "a").draws = 2 ∧ (s.node "a").pc.elected := by
  obtain ⟨s, hs, h⟩ := exists_reaches (Sys.step tiedPair) (InRounds tiedPair) tiedPair.start
    (pairVotes ++ List.replicate 10 (.slot "a") ++ List.replicate 10 (.slot "b") ++
      deliver "a" "b" 4 ++ deliver "b" "a" 4 ++ List.replicate 2 (.slot "a") ++
      List.replicate 2 (.slot "b"))
    (fun s => (s.node "a").draws = 2 ∧ (∀ x ∈ tiedPair.addresses, (s.node x).pc.voting) ∧
      ElectionQuiet tiedPair s)
    (by decide +kernel)
  simp only [decide_eq_true_eq] at h
  exact ⟨s, h.1, election_ends hs h.2.1 h.2.2 (by decide)⟩

set_option maxRecDepth 4000 in
/-- `a` draws 7 before `b` has looked at its table.  So `b` leaves with 5, and `a`, which has
removed this 5, waits for good. -/
theorem not_election_ends_tiedPair :
    ¬ ∀ s, Reachable (Sys.step tiedPair) tiedPair.start s →
      (∀ x ∈ tiedPair.addresses, (s.node x).pc.voting) → ElectionQuiet tiedPair s →
      ∀ x ∈ tiedPair.addresses, (s.node x).pc.elected := by
  intro hall
  obtain ⟨s, hs, h⟩ := exists_reaches (Sys.step tiedPair) (fun _ _ => True) tiedPair.start
    (pairVotes ++ List.replicate 14 (.slot "a") ++ deliver "b" "a" 4 ++
      List.replicate 3 (.slot "b"))
    (fun s => (s.node "a").pc = .wait .election .asleep ∧
      (∀ x ∈ tiedPair.addresses, (s.node x).pc.voting) ∧ ElectionQuiet tiedPair s)
    (by decide +kernel)
  simp only [decide_eq_true_eq] at h
  have hleft := hall s hs h.2.1 h.2.2 "a" (by decide)
  rw [h.1] at hleft
  exact absurd hleft (by decide)

end BlockchainMessaging
