import BlockchainMessaging.Updates
import BlockchainMessaging.WakeUp

/-!
# The lock of the election

`ElectionWaiter::wait` makes its lock before its loop.  The body of the loop takes it, and gives
it up only on the way to another draw.  So the second time around the lock is owned already, and
nothing goes wrong as long as the loop ends there: the values are all present, and the own value
was unique a moment ago.  A value that is drawn again may arrive in this moment.

## Main definitions

* `SlotPc.owns` — where the lock can be owned.
* `LoopEnds` — the condition on a step: with the lock owned, the loop ends.
-/

namespace BlockchainMessaging

/-- The places where the lock of a wait is owned, if the loop of the election ends when it is
owned. -/
def SlotPc.owns (pc : SlotPc) : Bool := pc.mayOwn && decide (pc ≠ .wait .election .lock)

/-- When the condition of the election's loop is evaluated with the lock owned, all values are
still present and the own value is still unique. -/
def LoopEnds (E : SlotEnv) (n : Node) : NodeAction → Prop
  | .slot => n.owned = true →
      (n.pc = .electPresent →
        (n.storage.areAllElectionValuesPresent n.context.header.slot).1 = some true) ∧
      (n.pc = .electUnique →
        (n.storage.isElectionValueUnique E.self n.context.header.slot).1 = true)
  | _ => True

instance (E : SlotEnv) (n : Node) : ∀ a : NodeAction, Decidable (LoopEnds E n a)
  | .slot => inferInstanceAs (Decidable (_ → (_ → _) ∧ (_ → _)))
  | .wake => .isTrue trivial
  | .handle => .isTrue trivial
  | .receive _ => .isTrue trivial

/-- The lock is owned only where no wait takes it. -/
structure Unlocked (n : Node) : Prop where
  failure : n.failure ≠ some .lockOwned
  owns : n.owned = true → n.pc.owns = true

variable {E : SlotEnv} {n n' : Node}

/-- Who is about to take the lock does not own it. -/
theorem Unlocked.free (hi : Unlocked n) {w : Waiter} (hpc : n.pc = .wait w .lock) :
    n.owned = false := by
  by_contra howned
  have howns := hi.owns (by simpa using howned)
  rw [hpc] at howns
  cases w <;> cases howns

/-- A call of the slot thread. -/
private theorem Unlocked.slot (hi : Unlocked n) (hok : LoopEnds E n .slot) :
    Unlocked (slotMove E n).1 := by
  constructor
  case failure =>
    rcases slotMove_failure E n with hsame | ⟨f, hf, hwhy⟩
    · rw [hsame]
      exact hi.failure
    · rw [hf]
      rintro ⟨⟩
      obtain ⟨⟨w, hpc⟩, howned⟩ := hwhy
      rw [hi.free hpc] at howned
      cases howned
  case owns =>
    intro howned
    -- The lock is given up on every way out of the places where it is owned, but for the loop.
    have hback := slotMove_pc (R := fun pc pc' => pc.owns = true → pc'.owns = true ∨
      pc ∈ [SlotPc.inspectionReset, .electReset, .collectReset, .awaitReset, .electPresent,
        .electUnique]) (by decide +kernel) E n
    rcases owned_of_slotMove howned with ⟨w, hlock⟩ | ⟨hown, hreset, hnot⟩
    · simp only [slotMove, hlock, waitMove, hi.free hlock]
      cases w <;> rfl
    · rcases hback (hi.owns hown) with howns | hexit
      · exact howns
      · obtain hpresent | hunique : n.pc = .electPresent ∨ n.pc = .electUnique := by
          simp_all
        · simp [slotMove, hpresent, Node.ask_eq, (hok hown).1 hpresent, SlotPc.owns,
            SlotPc.mayOwn]
        · have hsome := (hok hown).2 hunique
          rw [hnot hunique] at hsome
          cases hsome

/-- What the calls of the consensus thread and a spurious wake-up can do. -/
private theorem Unlocked.passive (hi : Unlocked n) (hpc : n.pc.Woken n'.pc)
    (howned : n'.owned = n.owned) (hf : n'.failure ≠ some .lockOwned) : Unlocked n' := by
  refine ⟨hf, fun h => ?_⟩
  have howns := hi.owns (howned ▸ h)
  rcases hpc with hpc | ⟨w, hpc, hpc'⟩
  · rwa [hpc]
  · rw [hpc']
    cases w <;> rfl

/-- **One step keeps the invariant**, if the loop ends when it should. -/
theorem Unlocked.step (hi : Unlocked n) {a : NodeAction} (hok : LoopEnds E n a)
    (hstep : nodeStep E n a = some n') : Unlocked n' := by
  cases a with
  | slot =>
    obtain ⟨r, hr, rfl⟩ := Option.map_eq_some_iff.1 hstep
    obtain ⟨-, -, rfl⟩ := slotStep_eq_some hr
    exact hi.slot hok
  | wake =>
    obtain ⟨-, w, hpc, rfl⟩ := wakeStep_eq_some hstep
    exact hi.passive (.inr ⟨w, hpc, rfl⟩) rfl hi.failure
  | handle =>
    obtain ⟨hf, op, rest, -, rfl⟩ := handlerStep_eq_some hstep
    refine hi.passive (op.exec_pc { n with todo := rest }) ?_ ?_
    · obtain ⟨st, pc, todo, failure, h, -, -⟩ := op.exec_frame { n with todo := rest }
      rw [h]
    · rcases op.exec_failure { n with todo := rest } with h | ⟨h, -⟩ | ⟨h, -⟩
      · rw [h]
        exact hi.failure
      · simp [h]
      · simp [h]
  | receive m =>
    obtain ⟨-, -, hm⟩ := receiveStep_eq_some hstep
    split at hm
    · subst hm
      exact hi.passive (.inl rfl) rfl hi.failure
    · subst hm
      exact hi.passive (.inl rfl) rfl (by simp [Node.fail])

/-- **No wait takes a lock that is owned already**, in every run in which the loop of the election
ends whenever its condition is evaluated with the lock owned. -/
theorem lock_free {n₀ : Node} (howned : n₀.owned = false) (hf : n₀.failure = none)
    (hr : Reaches (nodeStep E) (LoopEnds E) n₀ n) :
    (∀ w, n.pc = .wait w .lock → n.owned = false) ∧ n.failure ≠ some .lockOwned := by
  have hinit : Unlocked n₀ := ⟨by simp [hf], fun h => by simp [howned] at h⟩
  have hi := hr.invariant hinit fun _ _ _ hi hok hstep => hi.step hok hstep
  exact ⟨fun w hpc => hi.free hpc, hi.failure⟩

/-! ## A value that is drawn again -/

/-- The node `a` with two peers, about to work on slot 2. -/
def elector : SlotEnv := plainEnv "a" ["b", "c"] 2 [] (fun _ => 5) five_range

/-- The node before the tick. -/
def electorUnstarted : Node := { storage := emptyStorage elector, chain := [] }

/-- A message to `a` and the calls it is handled with. -/
def arrive (operation : ConsensusOperation) (b : String) (body : ConsensusBody) (calls : ℕ) :
    List NodeAction :=
  .receive (plainMessage operation b 2 body) :: List.replicate calls .handle

/-- `b` and `c` draw 7 while `a` is about to wait, so `a` leaves the wait with a value of its own,
and evaluates the first half of the loop's condition. -/
def untilUnique : List NodeAction :=
  List.replicate 7 .slot ++
    arrive .INSPECTION "b" (.contribution true) 4 ++
    arrive .INSPECTION "c" (.contribution false) 6 ++
    List.replicate 8 .slot ++
    arrive .ELECTION "b" (.electionValue 7) 2 ++ arrive .ELECTION "c" (.electionValue 7) 4 ++
    List.replicate 4 .slot

set_option maxRecDepth 4000 in
/-- When `a` goes on, it leaves the election. -/
theorem lock_free_elector : ∃ n : Node, n.pc = .nominate ∧ n.failure ≠ some .lockOwned := by
  obtain ⟨n, hr, hpc⟩ := exists_reaches (nodeStep elector) (LoopEnds elector) electorUnstarted
    (untilUnique ++ [.slot]) (fun n => n.pc = .nominate) (by decide +kernel)
  exact ⟨n, by simpa using hpc, (lock_free rfl rfl hr).2⟩

set_option maxRecDepth 4000 in
/-- When `b` draws again, and its 5 arrives before the second half of the condition is evaluated,
`a` locks a lock that it owns. -/
theorem not_lock_free_elector :
    ¬ ∀ n, Reachable (nodeStep elector) electorUnstarted n → n.failure ≠ some .lockOwned := by
  intro hall
  obtain ⟨n, hr, hf⟩ := exists_reaches (nodeStep elector) (fun _ _ => True) electorUnstarted
    (untilUnique ++ arrive .ELECTION "b" (.electionValue 5) 4 ++ [.slot, .slot])
    (fun n => n.failure = some .lockOwned) (by decide +kernel)
  exact hall n hr (by simpa using hf)

end BlockchainMessaging
