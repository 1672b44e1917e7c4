import BlockchainMessaging.Inspection

/-!
# Votes

The election values that a node sends are its draws, in order, and a peer executes them in
this order.  So it is enough to count: when `x` has executed `k` votes of `y`, what stands in
the entry of `y` is the `k`-th draw of `y`, unless `x` has removed it.

Whether all values are present is checked at one place, and a node is past this check until
it removes the values itself; so whoever nominates still has all of them, and everybody has
voted by then.

## Main definitions

* `ballots`, `Sys.heard` — the votes in a list of updates, and how many were executed.
* `Node.full` — the places where all values are present.
* `Voted`, `voted_of_reaches` — the invariant.
-/

namespace BlockchainMessaging

open ConsensusStorage

/-! ## Counting votes -/

/-- The value that the update fills in. -/
def HandlerOp.vote : HandlerOp → Option ℕ
  | .fillElectionValue value => some value
  | _ => none

/-- The values that a list of updates fills in, in order. -/
def ballots (ops : List HandlerOp) : List ℕ := ops.filterMap HandlerOp.vote

@[simp] theorem ballots_append (ops ops' : List HandlerOp) :
    ballots (ops ++ ops') = ballots ops ++ ballots ops' := List.filterMap_append

@[simp] theorem ballots_singleton (op : HandlerOp) : ballots [op] = op.vote.toList := by
  cases op <;> rfl

/-- What a node has sent are its draws, in order. -/
theorem ballots_outbox (E : SlotEnv) (n : Node) (x : String) :
    ballots (outbox E n x) = (List.range n.votes).map E.draw := by
  have hvotes : ∀ ks : List ℕ, ballots (ks.map fun k => .fillElectionValue (E.draw k)) =
      ks.map E.draw := by
    intro ks
    simp [ballots, List.filterMap_map, Function.comp_def, HandlerOp.vote]
  have hnone : ∀ (p : Prop) [Decidable p] (ops : List HandlerOp), ballots ops = [] →
      ballots (if p then ops else []) = [] := by
    intro p _ ops hops
    split
    · exact hops
    · rfl
  simp only [outbox, ballots_append, hvotes]
  rw [hnone _ _ rfl, hnone _ _ rfl, hnone _ _ rfl]
  simp

/-- The last value that was filled in is the one that stands in the entry. -/
theorem electionValue_replay (now : ℕ) (ops : List HandlerOp) :
    (replay now ops).electionValue = (ballots ops).getLast?.getD 0 := by
  induction ops using List.reverseRecOn with
  | nil => rfl
  | append_singleton ops op ih =>
    rw [replay_append_singleton, ballots_append, ballots_singleton]
    cases op <;> simp [HandlerOp.effect, HandlerOp.vote, ih]

/-- How many votes of `y` the node `x` has executed. -/
def Sys.heard (s : Sys) (y x : String) : ℕ := (ballots (s.executed y x)).length

namespace Exchange

variable {D : Deployment} {s : Sys} {x y : String}

/-- The votes that were executed are the first draws. -/
theorem ballots_executed (hi : Exchange D s y x) :
    ballots (s.executed y x) = (List.range (s.heard y x)).map (D.env y).draw ∧
      s.heard y x + (ballots (s.pending y x)).length = (s.node y).votes := by
  have hsent := congrArg ballots hi.sent
  rw [ballots_outbox, ballots_append] at hsent
  have hlength : (s.node y).votes = s.heard y x + (ballots (s.pending y x)).length := by
    simpa [Sys.heard] using congrArg List.length hsent
  refine ⟨?_, hlength.symm⟩
  have htake := congrArg (List.take (s.heard y x)) hsent
  have hleft : (ballots (s.executed y x) ++ ballots (s.pending y x)).take (s.heard y x) =
      ballots (s.executed y x) := List.take_left' rfl
  rw [hleft, ← List.map_take, List.take_range, hlength,
    Nat.min_eq_left (Nat.le_add_right _ _)] at htake
  exact htake.symm

theorem heard_le (hi : Exchange D s y x) : s.heard y x ≤ (s.node y).votes := by
  have := hi.ballots_executed.2
  omega

/-- A value that is there is the last draw that was executed. -/
theorem vote (hi : Exchange D s y x) (h28 : (s.node x).pc.rank ≤ 28)
    (h : ((s.node x).storage.context y D.slot).electionValue ≠ 0) :
    0 < s.heard y x ∧ ((s.node x).storage.context y D.slot).electionValue =
      (D.env y).draw (s.heard y x - 1) := by
  have hvalue := (hi.replayed h28).electionValue.resolve_left h
  rw [electionValue_replay, hi.ballots_executed.1] at hvalue
  cases hk : s.heard y x with
  | zero => simp [hk] at hvalue; exact absurd hvalue h
  | succ k => simpa [hk, List.range_succ] using hvalue

/-- What is about to be filled in is the next draw. -/
theorem next_vote (hi : Exchange D s y x) {v : ℕ} {rest : List HandlerOp}
    (hsender : (s.node x).header.address = y)
    (htodo : (s.node x).todo = .fillElectionValue v :: rest) :
    v = (D.env y).draw (s.heard y x) := by
  have hsent := congrArg ballots hi.sent
  rw [ballots_outbox, ballots_append, hi.ballots_executed.1] at hsent
  have hpending : ballots (s.pending y x) = v :: ballots
      (rest.filter HandlerOp.isUpdate ++ (s.channel y x).inFlight.flatMap
        ConsensusMessage.updates) := by
    simp [Sys.pending, Sys.inHand, hsender, htodo, ballots, HandlerOp.vote, HandlerOp.isUpdate,
      List.filter_cons]
  have hget := congrArg (fun l => l[s.heard y x]?) hsent
  rw [hpending] at hget
  simp only [List.getElem?_map, List.length_map, List.length_range, le_refl,
    List.getElem?_append_right, Nat.sub_self, List.getElem?_cons_zero] at hget
  obtain ⟨k, hk, hv⟩ := Option.map_eq_some_iff.1 hget
  have hk' := List.getElem?_eq_some_iff.1 hk
  obtain ⟨hlt, hk'⟩ := hk'
  rw [List.getElem_range] at hk'
  rw [hk', hv]

end Exchange

/-! ## All values are present -/

/-- The slot thread is past a check that all values are present. -/
def Node.full (n : Node) : Bool :=
  match n.pc with
  | .electUnique | .electRecheck | .electRemoveDuplicates | .nominate => true
  | .electPresent => n.owned
  | _ => false

/-- Where all values are present after a call, they were before, or the call has checked. -/
theorem full_slotMove {D : Deployment} {x : String} {n : Node} (hl : Local D x n)
    (h : (slotMove (D.env x) n).1.full = true) :
    n.full = true ∧ n.pc ≠ .electRemoveDuplicates ∨
      n.pc = .electPresent ∧ (slotMove (D.env x) n).1.pc = .electUnique ∨
      ∃ phase, n.pc = .wait .election phase ∧ (slotMove (D.env x) n).1.pc = .electRecheck := by
  have howned := slotMove_owned (D.env x) n
  have hmay := hl.owned
  simp only [Node.full] at h
  split at h
  · next hpc =>
    have hback := slotMove_pc (R := fun pc pc' => pc' = .electUnique →
      pc = .electPresent ∨ pc = .electUnique) (by decide +kernel) (D.env x) n hpc
    rcases hback with hp | hp
    · exact .inr (.inl ⟨hp, hpc⟩)
    · exact .inl (by simp [Node.full, hp])
  · next hpc =>
    have hback := slotMove_pc (R := fun pc pc' => pc' = .electRecheck →
      pc = .wait .election .early ∨ pc = .wait .election .eval ∨ pc = .electRecheck)
      (by decide +kernel) (D.env x) n hpc
    rcases hback with hp | hp | hp
    · exact .inr (.inr ⟨_, hp, hpc⟩)
    · exact .inr (.inr ⟨_, hp, hpc⟩)
    · exact .inl (by simp [Node.full, hp])
  · next hpc =>
    have hback := slotMove_pc (R := fun pc pc' => pc' = .electRemoveDuplicates →
      pc = .electRecheck ∨ pc = .electRemoveDuplicates) (by decide +kernel) (D.env x) n hpc
    rcases hback with hp | hp
    · exact .inl (by simp [Node.full, hp])
    · simp [slotMove, hp] at hpc
  · next hpc =>
    have hback := slotMove_pc (R := fun pc pc' => pc' = .nominate →
      pc = .electUnique ∨ pc = .nominate) (by decide +kernel) (D.env x) n hpc
    rcases hback with hp | hp <;> exact .inl (by simp [Node.full, hp])
  · next hpc =>
    have hback := slotMove_pc (R := fun pc pc' => pc' = .electPresent →
      pc ∈ [SlotPc.wait .election .enter, .votePublish true] ∨ pc = .electRecheck ∨
        pc = .electPresent) (by decide +kernel) (D.env x) n hpc
    rcases hback with hp | hp | hp
    · -- The lock is not owned there.
      simp only [List.mem_cons, List.not_mem_nil, or_false] at hp
      rcases hp with hp | hp
      all_goals
        simp only [hp] at howned hmay
        rw [howned] at h
        cases hmay h
    · exact .inl (by simp [Node.full, hp])
    · simp only [hp] at howned
      exact .inl (by simp [Node.full, hp, ← howned, h])
  · cases h

/-- What is known of each other's votes. -/
structure Voted (D : Deployment) (s : Sys) : Prop where
  inspected : Inspected D s
  /-- Past the check, all values are still there. -/
  full : ∀ x ∈ D.addresses, (s.node x).full = true → ∀ y ∈ D.addresses,
    ((s.node x).storage.context y D.slot).electionValue ≠ 0
  /-- Who has left the election knows that everybody has voted. -/
  sent : ∀ x ∈ D.addresses, 14 ≤ (s.node x).pc.rank → ∀ y ∈ D.addresses,
    13 ≤ (s.node y).pc.rank

namespace Voted

variable {D : Deployment} {s s' : Sys} {act : Action} {x y : String}

theorem full_step (hi : Voted D s) (hx : x ∈ D.addresses) (h : Sys.step D s act = some s')
    (hfull : (s'.node x).full = true) (hy : y ∈ D.addresses) :
    ((s'.node x).storage.context y D.slot).electionValue ≠ 0 := by
  have hledger := hi.inspected.ledger
  have hl := hledger.base.known x hx
  by_cases hslot : act = .slot x
  · subst hslot
    obtain ⟨-, -, hnode⟩ := Sys.node_slot h
    rw [hnode] at hfull ⊢
    have hpresent : ((s.node x).storage.context y D.slot).electionValue ≠ 0 ∧
        (∀ again, (s.node x).pc ≠ .voteFill again) ∧
        (s.node x).pc ≠ .electRemoveDuplicates ∧ (s.node x).pc ≠ .completeClear := by
      have hpos : ((s.node x).storage.areAllElectionValuesPresent
          (s.node x).context.header.slot).1 = some true → 4 ≤ (s.node x).pc.rank →
          ((s.node x).storage.context y D.slot).electionValue ≠ 0 := by
        intro hall h4
        rw [areAllElectionValuesPresent_eq_true, hl.slot_eq hx h4] at hall
        exact (hall y ((hl.mem_keys y).2 hy)).ne'
      rcases full_slotMove hl hfull with ⟨hbefore, hremove⟩ | ⟨hpc, hpc'⟩ | ⟨phase, hpc, hpc'⟩
      · refine ⟨hi.full x hx hbefore y hy, fun again hpc => ?_, hremove, fun hpc => ?_⟩ <;>
          simp [Node.full, hpc] at hbefore
      · exact ⟨hpos (slotMove_electPresent _ hpc hpc') (by rw [hpc]; decide), by simp [hpc]⟩
      · exact ⟨hpos (slotMove_done _ hpc hpc') (by simp [hpc, SlotPc.rank]), by simp [hpc]⟩
    obtain ⟨hpos, hfill, hremove, hclear⟩ := hpresent
    rwa [slotMove_electionValue _ hfill hremove hclear]
  · obtain ⟨-, -, -, -, howned, hpc⟩ := Sys.node_passive h hslot
    have hbefore : (s.node x).full = true := by
      rcases hpc with hpc | ⟨w, -, hpc⟩
      · simpa [Node.full, hpc, howned] using hfull
      · simp [Node.full, hpc] at hfull
    have hpos := hi.full x hx hbefore y hy
    by_cases hhandle : act = .handle x
    · subst hhandle
      obtain ⟨-, -, op, rest, htodo, rfl⟩ := Sys.step_handle_eq_some h
      simp only [Sys.node_setNode, if_true, HandlerOp.exec_table]
      split
      · next hsender =>
        cases op with
        | fillElectionValue v =>
          have hne := (hl.sender (by simp [htodo])).2.2
          rw [← hsender.1] at hne
          have hv := (hledger.exchange y hy x hx hne.symm).next_vote hsender.1.symm htodo
          have := ((D.env y).draw_range (s.heard y x)).1
          simp only [HandlerOp.effect]
          omega
        | _ => exact hpos
      · exact hpos
    · rwa [Sys.storage_eq h hslot hhandle]

theorem step (hi : Voted D s) (h : Sys.step D s act = some s') : Voted D s' := by
  have hinspected := hi.inspected.step h
  constructor
  case inspected => exact hinspected
  case full => exact fun x hx hfull y hy => hi.full_step hx h hfull hy
  case sent =>
    intro x hx h14 y hy
    by_cases h14' : 14 ≤ (s.node x).pc.rank
    · exact (hi.sent x hx h14' y hy).trans (Sys.rank_le h y)
    · have hpc := Sys.nominate_of_rank h (not_le.1 h14') h14
      have hpos := hi.full_step hx h (by simp [Node.full, hpc]) hy
      by_cases hne : x = y
      · subst hne
        omega
      · have hex := hinspected.ledger.exchange y hy x hx hne
        have hheard := (hex.vote (by rw [hpc]; decide) hpos).1
        exact (hinspected.ledger.base.known y hy).rank_of_votes (hheard.trans_le hex.heard_le)

theorem start (D : Deployment) : Voted D D.start :=
  ⟨.start D, by simp [Deployment.start, Node.full], by simp [Deployment.start, SlotPc.rank]⟩

end Voted

theorem voted_of_reaches {D : Deployment} {s : Sys} {ok : Sys → Action → Prop}
    (h : Reaches (Sys.step D) ok D.start s) : Voted D s :=
  h.invariant (.start D) fun _ _ _ hi _ hs => hi.step hs

end BlockchainMessaging
