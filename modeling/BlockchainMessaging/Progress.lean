import BlockchainMessaging.Gathered
import BlockchainMessaging.WakeUp

/-!
# Progress of a whole slot

When deliveries are whole, and there are no collisions, a slot does not get stuck.  Whoever
waits finds what it waits for when everybody has got everything: the flags, since nobody can
be stuck before it has sent its own; the values; the uploads, at the validator; and at all
others the broadcast, together with the flag of the synchronization context, which is stored
after the block and not reset before the wait.  And nothing comes after the slot was cleared,
because everything that is sent to a node is executed before it has its block.

## Main definitions

* `WholeDeliveries` — the condition on a step.
* `Progressing` — what holds in such runs.
* `Quiet`, `slot_progress` — when nothing is left to do, the slot has ended everywhere.
-/

namespace BlockchainMessaging

open ConsensusStorage

/-- The slot thread moves when the consensus thread has no message in hand. -/
def WholeDeliveries (s : Sys) : Action → Prop
  | .slot x | .wake x => (s.node x).todo = []
  | _ => True

instance (s : Sys) : ∀ act, Decidable (WholeDeliveries s act)
  | .slot x | .wake x => inferInstanceAs (Decidable ((s.node x).todo = []))
  | .handle _ => .isTrue trivial
  | .receive _ _ => .isTrue trivial

/-! ## The flag of the synchronization context -/

/-- The flag of the context of the slot is set. -/
def ConsensusStorage.Signalled (st : ConsensusStorage) (s : ℕ) : Prop :=
  ∃ p, st.conditions.find s = some (some p) ∧ st.loadSynchronized p = true

section Signalled

variable {st st' : ConsensusStorage} {n : Node} {s p : ℕ}

theorem lt_of_loadSynchronized (h : st.loadSynchronized p = true) : p < st.allocated.length := by
  by_contra hle
  rw [loadSynchronized, List.getElem?_eq_none (not_lt.1 hle)] at h
  cases h

theorem loadSynchronized_initConditions (h : st.loadSynchronized p = true) (s : ℕ) :
    (st.initConditions s).loadSynchronized p = true := by
  rw [initConditions]
  split
  · exact h
  · rw [loadSynchronized, List.getElem?_append_left (lt_of_loadSynchronized h)]
    exact h

theorem loadSynchronized_getSlotSynchronizationContext (st : ConsensusStorage) (s p : ℕ) :
    (st.getSlotSynchronizationContext s).2.loadSynchronized p = st.loadSynchronized p := by
  rw [getSlotSynchronizationContext]
  split <;> rfl

theorem loadSynchronized_storeSynchronized (hp : p < st.allocated.length) :
    (st.storeSynchronized p true).loadSynchronized p = true := by
  simp [loadSynchronized, ConsensusStorage.storeSynchronized, hp]

/-- The handler only sets flags. -/
theorem ConsensusStorage.Signalled.exec (h : n.storage.Signalled s) (op : HandlerOp) :
    (op.exec n).storage.Signalled s := by
  obtain ⟨p, hfind, hload⟩ := h
  refine ⟨p, HandlerOp.exec_find hfind, ?_⟩
  rcases op.exec_rest n with hr | ⟨-, hr⟩ | ⟨-, q, -, hr⟩ | ⟨-, hr⟩
  · rwa [loadSynchronized, (rest_eq hr).2.1]
  · rw [hr]
    exact loadSynchronized_initConditions hload _
  · rw [hr]
    by_cases hqp : q = p
    · subst hqp
      exact loadSynchronized_storeSynchronized (lt_of_loadSynchronized hload)
    · rw [loadSynchronized, ConsensusStorage.storeSynchronized, List.getElem?_set_ne hqp]
      exact hload
  · rw [hr, loadSynchronized_getSlotSynchronizationContext]
    exact hload

/-- `storeSynchronized` sets the flag of its slot. -/
theorem signalled_storeSynchronized (hslot : n.header.slot = s) (h : n.storage.HasCondition s) :
    (HandlerOp.exec .storeSynchronized n).storage.Signalled s := by
  obtain ⟨p, hfind, hlt⟩ := h
  have hstorage : (HandlerOp.exec .storeSynchronized n).storage =
      n.storage.storeSynchronized p true := by
    simp [HandlerOp.exec, getSlotSynchronizationContext, hslot, hfind]
  rw [hstorage]
  exact ⟨p, hfind, loadSynchronized_storeSynchronized hlt⟩

/-- The slot thread keeps the flag, unless it resets it or clears the slot. -/
theorem ConsensusStorage.Signalled.slotMove {E : SlotEnv} (h : n.storage.Signalled s)
    (hreset : n.pc ∉ [SlotPc.inspectionReset, .electReset, .collectReset, .awaitReset])
    (hclear : n.pc ≠ .completeClear) : (slotMove E n).1.storage.Signalled s := by
  obtain ⟨p, hfind, hload⟩ := h
  refine ⟨p, slotMove_find hclear hfind, ?_⟩
  rcases slotMove_rest E n with hr | ⟨-, hr⟩ | ⟨-, hr⟩ | ⟨hpc, -⟩ | ⟨hpc, -⟩
  · rwa [loadSynchronized, (rest_eq hr).2.1]
  · rw [hr]
    exact loadSynchronized_initConditions hload _
  · rw [hr, loadSynchronized_getSlotSynchronizationContext]
    exact hload
  · exact absurd hpc hreset
  · exact absurd hpc hclear

end Signalled

/-! ## The invariant -/

/-- What holds when deliveries are whole. -/
structure Progressing (D : Deployment) (v : String) (s : Sys) : Prop where
  gathered : Gathered D v s
  synced : ∀ x ∈ D.addresses, (s.node x).Synced
  /-- Nothing is left to handle when the slot is cleared. -/
  idle : ∀ x ∈ D.addresses, 29 ≤ (s.node x).pc.rank → (s.node x).todo = []
  failure : ∀ x ∈ D.addresses, (s.node x).failure = none
  /-- Who has executed the broadcast has the flag set, or is about to set it. -/
  signalled : ∀ x ∈ D.addresses, x ≠ v → 9 ≤ (s.node x).pc.rank → (s.node x).pc.rank ≤ 24 →
    .marAsResolved ∈ s.executed v x →
    (s.node x).todo = [.storeSynchronized, .notifyAll] ∨ (s.node x).storage.Signalled D.slot

namespace Progressing

variable {D : Deployment} {s s' : Sys} {act : Action} {v x y : String}

theorem synced_step (hp : Progressing D v s) (hx : x ∈ D.addresses)
    (h : Sys.step D s act = some s') : (s'.node x).Synced := by
  have hsynced := hp.synced x hx
  have hstep := hp.gathered.settled.ledger.base.nodeStep h x
  generalize s'.node x = n' at hstep ⊢
  cases hstep with
  | other => exact hsynced
  | slot => exact hsynced.slotMove
  | wake _ hpc => exact fun _ => hsynced (by rw [hpc]; rfl)
  | handle => exact hsynced.handle _ _
  | receive => exact hsynced

theorem idle_step (hp : Progressing D v s) (hv : D.Elects v) (hx : x ∈ D.addresses)
    (hok : WholeDeliveries s act) (h : Sys.step D s act = some s')
    (h29 : 29 ≤ (s'.node x).pc.rank) : (s'.node x).todo = [] := by
  have hstep := hp.gathered.settled.ledger.base.nodeStep h x
  generalize s'.node x = n' at hstep h29 ⊢
  cases hstep with
  | other => exact hp.idle x hx h29
  | slot =>
    rw [(slotMove_frame _ _).1]
    exact hok
  | wake => exact hok
  | @handle op rest _ htodo =>
    rw [((op.exec_pc { s.node x with todo := rest })).rank_eq] at h29
    rw [hp.idle x hx h29] at htodo
    cases htodo
  | receive _ _ hchannel =>
    have h29 : 29 ≤ (s.node x).pc.rank := h29
    rw [hp.gathered.inFlight_eq_nil hv hx (by omega)] at hchannel
    cases hchannel

theorem failure_step (hp : Progressing D v s) (hx : x ∈ D.addresses)
    (h : Sys.step D s act = some s') : (s'.node x).failure = none := by
  have hrounds := hp.gathered.settled.rounds
  have hnone := hp.failure x hx
  have hstep := hp.gathered.settled.ledger.base.nodeStep h x
  generalize s'.node x = n' at hstep ⊢
  cases hstep with
  | other => exact hnone
  | slot =>
    rcases slotMove_failure (D.env x) (s.node x) with hsame | ⟨f, -, hfails⟩
    · rwa [hsame]
    · obtain ⟨-, hpc, howned⟩ := hrounds.sound.lockOwned_of_failsWith hx hfails
      rw [hrounds.free x hx hpc] at howned
      cases howned
  | wake => exact hnone
  | @handle op rest _ htodo =>
    by_contra hfails
    obtain ⟨f, hf⟩ := Option.ne_none_iff_exists'.1 hfails
    have hrank := (op.exec_pc { s.node x with todo := rest }).rank_eq
    rcases hrounds.sound.failure_exec hx hnone htodo hf with ⟨-, hpc, howned⟩ | ⟨h29, -⟩
    · -- The handler leaves the thread where it is, with its lock.
      have hpc' : (s.node x).pc = .wait .election .lock := by
        rcases op.exec_pc { s.node x with todo := rest } with hsame | ⟨w, -, hwoken⟩
        · rwa [hsame] at hpc
        · simp [hwoken] at hpc
      obtain ⟨st, pc, todo, failure, hexec, -⟩ := op.exec_frame { s.node x with todo := rest }
      rw [hexec] at howned
      have howned : (s.node x).owned = true := howned
      rw [hrounds.free x hx hpc'] at howned
      cases howned
    · rw [hrank] at h29
      rw [hp.idle x hx h29] at htodo
      cases htodo
  | receive => exact hnone

/-- A call of the handler of `x`: the broadcast is executed, and then the flag is set. -/
theorem signalled_handle (hp : Progressing D v s) (hvmem : v ∈ D.addresses) (hx : x ∈ D.addresses)
    (hxv : x ≠ v) (h : Sys.step D s (.handle x) = some s') (h9 : 9 ≤ (s'.node x).pc.rank)
    (h24 : (s'.node x).pc.rank ≤ 24) (hm : .marAsResolved ∈ s'.executed v x) :
    (s'.node x).todo = [.storeSynchronized, .notifyAll] ∨
      (s'.node x).storage.Signalled D.slot := by
  have hs := hp.gathered.settled
  have hl := hs.ledger.base.known x hx
  have hq := Sys.queueStep hs.ledger.base hvmem hx hxv
    (hs.ledger.exchange v hvmem x hx hxv).received h
  obtain ⟨-, -, op, rest, htodo, rfl⟩ := Sys.step_handle_eq_some h
  simp only [Sys.node_setNode, if_true] at h9 h24 ⊢
  rw [(op.exec_pc { s.node x with todo := rest }).rank_eq] at h9 h24
  have hscripted := hl.scripted
  rw [htodo] at hscripted
  rw [hq.executed, List.mem_append] at hm
  rcases hm with hm | hm
  · rcases hp.signalled x hx hxv h9 h24 hm with hhand | hset
    · -- The flag is set now.
      rw [htodo] at hhand
      obtain ⟨rfl, rfl⟩ := List.cons.inj hhand
      have hcondition := (hs.rounds.sound.equipped x hx).hasCondition
        (show 1 ≤ (s.node x).pc.rank from (by decide : 1 ≤ 9).trans h9)
        (show (s.node x).pc.rank ≤ 28 from h24.trans (by decide))
      exact .inr (signalled_storeSynchronized (hl.sender (by simp [htodo])).1 hcondition)
    · exact .inr (ConsensusStorage.Signalled.exec (n := { s.node x with todo := rest }) hset op)
  · -- The call is the one that marks the validator as resolved.
    have hop : op = .marAsResolved := by
      rw [Sys.executes, htodo] at hm
      split at hm
      · simpa [eq_comm] using (List.mem_filter.1 hm).1
      · cases hm
    subst hop
    have hrest : rest = [.storeSynchronized, .notifyAll] := hscripted
    refine .inl ?_
    rcases HandlerOp.exec_todo .marAsResolved { s.node x with todo := rest } with h | ⟨h, -⟩
    · rw [h, hrest]
    · cases h

theorem signalled_step (hp : Progressing D v s) (hv : D.Elects v) (hx : x ∈ D.addresses)
    (hxv : x ≠ v) (h : Sys.step D s act = some s') (h9 : 9 ≤ (s'.node x).pc.rank)
    (h24 : (s'.node x).pc.rank ≤ 24) (hm : .marAsResolved ∈ s'.executed v x) :
    (s'.node x).todo = [.storeSynchronized, .notifyAll] ∨
      (s'.node x).storage.Signalled D.slot := by
  by_cases hhandle : act = .handle x
  · subst hhandle
    exact hp.signalled_handle hv.1 hx hxv h h9 h24 hm
  · have hs := hp.gathered.settled
    have hq := Sys.queueStep hs.ledger.base hv.1 hx hxv
      (hs.ledger.exchange v hv.1 x hx hxv).received h
    have hexecutes : s.executes act v x = [] := by simp [Sys.executes, hhandle]
    rw [hq.executed, hexecutes, List.append_nil] at hm
    have hsignalled := hp.signalled x hx hxv
    have hstep := hs.ledger.base.nodeStep h x
    generalize s'.node x = n' at hstep h9 h24 ⊢
    cases hstep with
    | other => exact hsignalled h9 h24 hm
    | slot =>
      have hrank := slotMove_rank (D.env x) (s.node x)
      -- The validator broadcasts when everybody is past the inspection.
      have h13 : 13 ≤ (s.node x).pc.rank := by
        have := (hs.broadcasted hv hv.1 hx hxv hm).1
        exact hs.agreed.voted.sent v hv.1 (by omega) x hx
      rcases hsignalled (by omega) (by omega) hm with hhand | hset
      · exact .inl (by rw [(slotMove_frame _ _).1, hhand])
      · refine .inr (hset.slotMove ?_ ?_)
        · have hrepeats := (hs.once x hx).2
          intro hreset
          simp only [List.mem_cons, List.not_mem_nil, or_false] at hreset
          rcases hreset with hpc | hpc | hpc | hpc
          · simp [hpc, SlotPc.rank] at h13
          · simp [hpc, SlotPc.repeats] at hrepeats
          · have := hp.gathered.eq_of_role hv hx (by rw [hpc]; decide) (b := true)
              (by rw [hpc]; rfl)
            exact hxv (of_decide_eq_true this).symm
          · rw [hpc] at hrank
            exact absurd (hrank.trans h24) (by decide)
        · intro hpc
          rw [hpc] at hrank
          exact absurd (hrank.trans h24) (by decide)
    | @wake w _ hpc =>
      have hrank : (SlotPc.wait w .eval).rank = (s.node x).pc.rank := by
        rw [hpc]
        cases w <;> rfl
      exact hsignalled (hrank ▸ h9) (hrank ▸ h24) hm
    | handle => exact absurd rfl hhandle
    | receive _ hidle =>
      refine .inr ((hsignalled h9 h24 hm).resolve_left fun hhand => ?_)
      rw [hidle] at hhand
      cases hhand

theorem step (hp : Progressing D v s) (hD : D.Distinct) (hv : D.Elects v)
    (hok : WholeDeliveries s act) (h : Sys.step D s act = some s') : Progressing D v s' where
  gathered := hp.gathered.step hD hv hv.1 h
  synced _ hx := hp.synced_step hx h
  idle _ hx h29 := hp.idle_step hv hx hok h h29
  failure _ hx := hp.failure_step hx h
  signalled _ hx hxv h9 h24 hm := hp.signalled_step hv hx hxv h h9 h24 hm

theorem start (D : Deployment) (v : String) : Progressing D v D.start := by
  refine ⟨.start D v, ?_, ?_, ?_, ?_⟩
  all_goals simp [Deployment.start, SlotPc.rank, Node.Synced, SlotPc.synced]

end Progressing

/-! ## When nothing is left to do -/

/-- `SlotHandler::handle` has returned. -/
def SlotPc.finished (pc : SlotPc) : Prop := pc = .returned ∨ pc = .stopped

/-- No message is on its way or in hand, and no slot thread can go on: who sleeps has a false
predicate. -/
def Quiet (D : Deployment) (s : Sys) : Prop :=
  ∀ x ∈ D.addresses, (∀ y ∈ D.addresses, (s.channel y x).inFlight = []) ∧
    (s.node x).todo = [] ∧ Sys.canMove D s x = false

instance : DecidablePred SlotPc.finished := fun pc =>
  inferInstanceAs (Decidable (pc = .returned ∨ pc = .stopped))

instance (D : Deployment) (s : Sys) : Decidable (Quiet D s) :=
  inferInstanceAs (Decidable (∀ x ∈ D.addresses,
    (∀ y ∈ D.addresses, (s.channel y x).inFlight = []) ∧
      (s.node x).todo = [] ∧ Sys.canMove D s x = false))

namespace Quiet

variable {D : Deployment} {s : Sys} {v x y : String}

/-- Everything that was sent was executed. -/
theorem executed_eq (hq : Quiet D s) (hl : Ledger D s) (hy : y ∈ D.addresses)
    (hx : x ∈ D.addresses) (hne : x ≠ y) :
    s.executed y x = outbox (D.env y) (s.node y) x := by
  obtain ⟨hflight, htodo, -⟩ := hq x hx
  have hpending : s.pending y x = [] := by
    simp [Sys.pending, Sys.inHand, htodo, hflight y hy]
  rw [(hl.exchange y hy x hx hne).sent, hpending, List.append_nil]

/-- Who has not returned sleeps, with its predicate false. -/
theorem asleep (hq : Quiet D s) (hp : Progressing D v s) (hx : x ∈ D.addresses)
    (hstays : ¬ (s.node x).pc.finished) :
    ∃ w, (s.node x).pc = .wait w .asleep ∧ w.ready (s.node x) = false := by
  have hnone := hp.failure x hx
  have hmove := (hq x hx).2.2
  rw [Sys.canMove, Bool.or_eq_false_iff] at hmove
  obtain ⟨hslot, hwake⟩ := hmove
  have hblocked : (s.node x).pc.blocked = true := by
    by_contra hblocked
    simp [Sys.step, hx, slotStep, hnone, hblocked] at hslot
  cases hpc : (s.node x).pc
  case wait w phase =>
    rw [hpc] at hblocked
    obtain rfl : phase = .asleep := by cases phase <;> first | rfl | cases hblocked
    refine ⟨w, rfl, ?_⟩
    simpa [Sys.step, hx, wakeStep, hpc, hnone, SlotPc.sleepsIn] using hwake
  case returned => exact absurd (.inl hpc) hstays
  case stopped => exact absurd (.inr hpc) hstays
  all_goals
    rw [hpc] at hblocked
    cases hblocked

/-- So everybody has sent its flag. -/
theorem rank_ge (hq : Quiet D s) (hp : Progressing D v s) (hx : x ∈ D.addresses) :
    7 ≤ (s.node x).pc.rank := by
  by_cases hfinished : (s.node x).pc.finished
  · rcases hfinished with hpc | hpc <;> rw [hpc] <;> decide
  · obtain ⟨w, hpc, -⟩ := hq.asleep hp hx hfinished
    rw [hpc]
    cases w <;> decide

/-- Who waits for flags has all of them. -/
theorem inspection_ready (hq : Quiet D s) (hp : Progressing D v s) (hx : x ∈ D.addresses)
    (hpc : (s.node x).pc = .wait .inspection .asleep) :
    Waiter.inspection.ready (s.node x) = true := by
  have hl := hp.gathered.settled.ledger
  have hlocal := hl.base.known x hx
  rw [ready_inspection, hlocal.slot_eq hx (by rw [hpc]; decide)]
  intro y hy
  have hy := (hlocal.mem_keys y).1 hy
  by_cases hne : x = y
  · subst hne
    rw [(hl.base.own x hx).isContributing (by rw [hpc]; decide) (by rw [hpc]; decide)]
    rfl
  · rw [((hl.exchange y hy x hx hne).replayed (by rw [hpc]; decide)).isContributing,
      hq.executed_eq hl hy hx hne]
    exact replay_isContributing_isSome _ (mem_outbox_setContribution.2 ⟨hq.rank_ge hp hy, rfl⟩)

/-- When somebody is past the inspection of a busy slot, everybody is. -/
theorem rank_ge_of_busy (hq : Quiet D s) (hp : Progressing D v s) (hx : x ∈ D.addresses)
    (h11 : 11 ≤ (s.node x).pc.rank) (hy : y ∈ D.addresses) : 13 ≤ (s.node y).pc.rank := by
  have hi := hp.gathered.settled.agreed.voted.inspected
  by_cases hfinished : (s.node y).pc.finished
  · rcases hfinished with hpc | hpc
    · rw [hpc]
      decide
    · obtain ⟨z, hz, hflag⟩ := hi.busy x hx h11
      rw [hi.idle y hy (by rw [hpc]; decide) z hz] at hflag
      cases hflag
  · obtain ⟨w, hpc, hready⟩ := hq.asleep hp hy hfinished
    cases w with
    | inspection =>
      rw [hq.inspection_ready hp hy hpc] at hready
      cases hready
    | election | contributorsData | broadcast =>
      rw [hpc]
      decide

/-- Nobody waits for a value. -/
theorem not_election (hq : Quiet D s) (hp : Progressing D v s) (hx : x ∈ D.addresses) :
    (s.node x).pc ≠ .wait .election .asleep := by
  intro hpc
  have hquiet : ElectionQuiet D s := by
    intro y hy
    obtain ⟨hflight, htodo, hmove⟩ := hq y hy
    exact ⟨fun z hz => by simp [hflight z hz], by simp [htodo], fun _ => hmove⟩
  have hvoting : ∀ y ∈ D.addresses, (s.node y).pc.voting := fun y hy =>
    le_trans (by decide) (hq.rank_ge_of_busy hp hx (by rw [hpc]; decide) hy)
  have helected := hquiet.elected hp.gathered.settled.rounds hvoting hx
  rw [hpc] at helected
  exact absurd helected (by decide)

/-- Who is past the election, as everybody else, has uploaded what it has to. -/
theorem rank_ge_of_elected (hq : Quiet D s) (hp : Progressing D v s) (hx : x ∈ D.addresses)
    (h11 : 11 ≤ (s.node x).pc.rank) (hy : y ∈ D.addresses) : 18 ≤ (s.node y).pc.rank := by
  have h13 := hq.rank_ge_of_busy hp hx h11 hy
  by_cases hfinished : (s.node y).pc.finished
  · rcases hfinished with hpc | hpc
    · rw [hpc]
      decide
    · rw [hpc] at h13
      exact absurd h13 (by decide)
  · obtain ⟨w, hpc, -⟩ := hq.asleep hp hy hfinished
    cases w with
    | inspection =>
      rw [hpc] at h13
      exact absurd h13 (by decide)
    | election => exact absurd hpc (hq.not_election hp hy)
    | contributorsData | broadcast =>
      rw [hpc]
      decide

/-- Who waits for uploads has all of them. -/
theorem contributorsData_ready (hq : Quiet D s) (hp : Progressing D v s) (hv : D.Elects v)
    (hx : x ∈ D.addresses) (hpc : (s.node x).pc = .wait .contributorsData .asleep) :
    Waiter.contributorsData.ready (s.node x) = true := by
  have hs := hp.gathered.settled
  have hlocal := hs.ledger.base.known x hx
  obtain rfl : v = x := of_decide_eq_true
    (hp.gathered.eq_of_role hv hx (by rw [hpc]; decide) (b := true) (by rw [hpc]; rfl))
  rw [ready_contributorsData, hlocal.slot_eq hx (by rw [hpc]; decide)]
  intro y hy
  have hy := (hlocal.mem_keys y).1 hy
  rw [hs.agreed.voted.inspected.flags v hx (by rw [hpc]; decide) (by rw [hpc]; decide) y hy]
  cases hflag : (D.env y).isContributing with
  | false => exact .inl rfl
  | true =>
    refine .inr ⟨rfl, ?_⟩
    by_cases hyv : y = v
    · subst hyv
      rw [(hs.ledger.base.own y hx).block (by rw [hpc]; decide) (by rw [hpc]; decide)]
      exact SlotEnv.data_pendingBlock_ne_nil hflag
    · have h18 := hq.rank_ge_of_elected hp hx (by rw [hpc]; decide) hy
      have hmem : .addBlock (D.env y).pendingBlock ∈ s.executed y v := by
        rw [hq.executed_eq hs.ledger hy hx (Ne.symm hyv), hs.outbox_peer hv hy hyv,
          if_pos (c := 18 ≤ _ ∧ _) ⟨h18, hflag, rfl⟩]
        simp
      rw [((hs.ledger.exchange y hy v hx (Ne.symm hyv)).replayed (by rw [hpc]; decide)).block,
        (hs.uploaded hv hx hy hyv hmem).2.2.2]
      exact SlotEnv.data_pendingBlock_ne_nil hflag

/-- Who waits for the broadcast has it, and the flag is set. -/
theorem broadcast_ready (hq : Quiet D s) (hp : Progressing D v s) (hv : D.Elects v)
    (hx : x ∈ D.addresses) (hpc : (s.node x).pc = .wait .broadcast .asleep) :
    Waiter.broadcast.ready (s.node x) = true := by
  have hs := hp.gathered.settled
  have hlocal := hs.ledger.base.known x hx
  have hxv : x ≠ v := fun hxv => of_decide_eq_false
    (hp.gathered.eq_of_role hv hx (by rw [hpc]; decide) (b := false) (by rw [hpc]; rfl)) hxv.symm
  -- The validator has returned, so it has broadcast.
  have h24 : 24 ≤ (s.node v).pc.rank := by
    have h18 := hq.rank_ge_of_elected hp hx (by rw [hpc]; decide) hv.1
    by_cases hfinished : (s.node v).pc.finished
    · rcases hfinished with hpcv | hpcv
      · rw [hpcv]
        decide
      · rw [hpcv] at h18
        exact absurd h18 (by decide)
    · obtain ⟨w, hpcv, hready⟩ := hq.asleep hp hv.1 hfinished
      cases w with
      | inspection | election =>
        rw [hpcv] at h18
        exact absurd h18 (by decide)
      | contributorsData =>
        rw [hq.contributorsData_ready hp hv hv.1 hpcv] at hready
        cases hready
      | broadcast =>
        rw [hpcv]
        decide
  have hmem : .marAsResolved ∈ s.executed v x := by
    rw [hq.executed_eq hs.ledger hv.1 hx hxv, hs.outbox_validator hv hv.1]
    simp [h24]
  obtain ⟨p, hsync, hfind⟩ := hp.synced x hx (by rw [hpc]; rfl)
  have hslot := hlocal.slot_eq hx (by rw [hpc]; decide)
  have hset := (hp.signalled x hx hxv (by rw [hpc]; decide) (by rw [hpc]; decide)
    hmem).resolve_left (by simp [(hq x hx).2.1])
  obtain ⟨p', hfind', hload⟩ := hset
  rw [hslot, hfind'] at hfind
  obtain rfl : p' = p := by simpa using hfind
  rw [ready_broadcast, hslot, (hs.role hv hx (by rw [hpc]; decide)).1,
    ((hs.ledger.exchange v hv.1 x hx hxv).replayed (by rw [hpc]; decide)).isResolved,
    replay_isResolved]
  exact ⟨by simp [hsync, hload], hmem⟩

/-- So everybody has returned. -/
theorem finished (hq : Quiet D s) (hp : Progressing D v s) (hv : D.Elects v)
    (hx : x ∈ D.addresses) : (s.node x).pc.finished := by
  by_contra hstays
  obtain ⟨w, hpc, hready⟩ := hq.asleep hp hx hstays
  cases w with
  | inspection =>
    rw [hq.inspection_ready hp hx hpc] at hready
    cases hready
  | election => exact hq.not_election hp hx hpc
  | contributorsData =>
    rw [hq.contributorsData_ready hp hv hx hpc] at hready
    cases hready
  | broadcast =>
    rw [hq.broadcast_ready hp hv hx hpc] at hready
    cases hready

end Quiet

/-- **Whole-slot progress without collisions**, in every run in which deliveries are whole: when
nothing is left to do, `SlotHandler::handle` has returned everywhere; and to a node that has
cleared the slot nothing is delivered any more. -/
theorem slot_progress {D : Deployment} {s : Sys} (hD : D.Distinct)
    (h : Reaches (Sys.step D) WholeDeliveries D.start s) {x : String} (hx : x ∈ D.addresses) :
    (Quiet D s → (s.node x).pc.finished) ∧
      ((s.node x).pc.cleared → (∀ y, Sys.step D s (.receive x y) = none) ∧
        Sys.step D s (.handle x) = none) := by
  obtain ⟨v, hv⟩ := hD.exists_elects hx
  have hp : Progressing D v s :=
    h.invariant (.start D v) fun _ _ _ hi hok hs => hi.step hD hv hok hs
  refine ⟨fun hq => hq.finished hp hv hx, fun hcleared => ?_⟩
  have h29 : 29 ≤ (s.node x).pc.rank := hcleared
  have hflight := hp.gathered.inFlight_eq_nil hv hx (by omega)
  exact ⟨fun y => by simp [Sys.step, hflight y], by simp [Sys.step, handlerStep, hp.idle x hx h29]⟩

set_option maxRecDepth 4000 in
theorem slot_progress_relayPair :
    ∃ s : Sys, (s.node "a").pc.finished ∧ (s.node "b").pc.finished ∧
      Sys.step relayPair s (.receive "b" "a") = none := by
  obtain ⟨s, hs, h⟩ := exists_reaches (Sys.step relayPair) WholeDeliveries relayPair.start
    (relayPairSaves ++ List.replicate 2 (.slot "a") ++ List.replicate 2 (.slot "b"))
    (fun s => Quiet relayPair s ∧ (s.node "b").pc.cleared) (by decide +kernel)
  simp only [decide_eq_true_eq] at h
  have hb := slot_progress (x := "b") (by decide) hs (by decide)
  exact ⟨s, (slot_progress (x := "a") (by decide) hs (by decide)).1 h.1, hb.1 h.1,
    (hb.2 h.2).1 "a"⟩

end BlockchainMessaging
