import BlockchainMessaging.Lib.Potential
import BlockchainMessaging.Progress
import Mathlib.Algebra.Group.Action.Defs

/-!
# A slot ends

A slot thread can be woken, go back to sleep, and be woken again; and with a collision the election
starts over.  Without collisions these are the only ways to go on for long: every call uses up some
of what is left of the slot, of the messages on their way, and of the handlers at work.  So a run is
bounded but for the sleeps that end for no reason, and from each state that whole deliveries lead
to, the slot can be finished everywhere.

## Main definitions

* `SlotPc.weight`, `SlotPc.publications` — what is left of the slot thread.
* `Sys.potential` — what is left of the system.
* `Deployment.run_bounded` — how long a run is.
* `Deployment.can_finish` — the slot can always be finished.
-/

namespace BlockchainMessaging

/-! ## What is left of a slot thread -/

namespace SlotPc

/-- What a place of a wait, or of the removal, is worth within its rank. -/
def credit : SlotPc → ℕ
  | .wait _ .eval => 7
  | .awaitResolved => 6
  | .wait _ .enter | .wait _ .window => 5
  | .wait _ .early | .wait _ .asleep => 4
  | .electRecheck => 3
  | .electPresent | .removeGet => 2
  | .electUnique | .removeDelete => 1
  | _ => 0

/-- What is left of the slot thread, with or without the lock of the wait that is running. -/
def weight (pc : SlotPc) (owned : Bool) : ℕ :=
  16 * (30 - pc.rank) + pc.credit + if owned then 0 else 8

/-- How many of the calls that send are still to come, without collisions. -/
def publications (pc : SlotPc) : ℕ :=
  if pc.rank ≤ 6 then 4 else if pc.rank ≤ 12 then 3 else if pc.rank ≤ 17 then 2
  else if pc.rank ≤ 23 then 1 else 0

/-- The place where a lock is taken. -/
def locks : SlotPc → Bool
  | .wait _ .lock => true
  | _ => false

/-- The places where something is sent. -/
def sends : SlotPc → Bool
  | .notifyPublish | .votePublish _ | .relayPublish | .broadcast => true
  | _ => false

theorem credit_le (pc : SlotPc) : pc.credit ≤ 7 := by
  have hall : ∀ pc : SlotPc, pc.credit ≤ 7 := by decide +kernel
  exact hall pc

theorem rank_le_thirty (pc : SlotPc) : pc.rank ≤ 30 := by
  have hall : ∀ pc : SlotPc, pc.rank ≤ 30 := by decide +kernel
  exact hall pc

theorem publications_le {pc pc' : SlotPc} (h : pc.rank ≤ pc'.rank) :
    pc'.publications ≤ pc.publications := by
  simp only [publications]
  split_ifs <;> omega

theorem publications_lt {pc pc' : SlotPc} (hsends : pc.sends = true) (hrepeats : pc.repeats = false)
    (hmem : pc' ∈ pc.next) : pc'.publications < pc.publications := by
  have hall : ∀ pc : SlotPc, pc.sends = true → pc.repeats = false → ∀ pc' ∈ pc.next,
      pc'.publications < pc.publications := by decide +kernel
  exact hall pc hsends hrepeats pc' hmem

/-- Whoever gets on to a later rank has less left. -/
theorem weight_lt_of_rank {pc pc' : SlotPc} (h : pc.rank < pc'.rank) (owned owned' : Bool) :
    pc'.weight owned' < pc.weight owned := by
  have hcredit := pc'.credit_le
  have hrank := pc'.rank_le_thirty
  simp only [weight]
  split_ifs <;> omega

theorem weight_owned_le (pc : SlotPc) (owned : Bool) : pc.weight true ≤ pc.weight owned := by
  cases owned <;> simp [weight]

/-- Within a rank, the calls lead from a place to one that is worth less.  Taking the lock is
worth more than what comes after it. -/
theorem weight_lt_of_next {pc pc' : SlotPc} (hmem : pc' ∈ pc.next) (hne : pc' ≠ pc)
    (hrepeats : pc.repeats = false) (hrepeats' : pc'.repeats = false) {owned owned' : Bool}
    (howned : if pc.locks then owned = false ∧ owned' = true else owned' = owned) :
    pc'.weight owned' < pc.weight owned := by
  have hall : ∀ pc : SlotPc, pc.repeats = false → ∀ pc' ∈ pc.next, pc' ≠ pc →
      pc'.repeats = false → ∀ owned owned' : Bool,
      (if pc.locks then owned = false ∧ owned' = true else owned' = owned) →
      pc'.weight owned' < pc.weight owned := by decide +kernel
  exact hall pc hrepeats pc' hmem hne hrepeats' owned owned' howned

end SlotPc

section SlotThread

variable {E : SlotEnv} {n : Node}

theorem Node.failure_ask_of_stays (n : Node) (q : Option Bool × ConsensusStorage)
    (yes no : SlotPc) (hyes : yes ≠ n.pc) (hno : no ≠ n.pc) (h : (n.ask q yes no).pc = n.pc) :
    (n.ask q yes no).failure ≠ none := by
  rw [n.ask_eq] at h ⊢
  rcases q with ⟨_ | _ | _, st⟩
  · simp
  · exact absurd h hno
  · exact absurd h hyes

theorem Node.failure_getContext_of_stays (n : Node) (pc : SlotPc) (hpc : pc ≠ n.pc)
    (h : (n.getContext pc).pc = n.pc) : (n.getContext pc).failure ≠ none := by
  rw [n.getContext_eq] at h ⊢
  cases hget : (n.storage.getSlotSynchronizationContext n.context.header.slot).1 with
  | none => simp [hget]
  | some p => simp [hget, hpc] at h

/-- Only a call that fails leaves the slot thread where it is. -/
theorem slotMove_failure_of_stays (hblocked : n.pc.blocked = false)
    (h : (slotMove E n).1.pc = n.pc) : (slotMove E n).1.failure ≠ none := by
  cases hpc : n.pc
  case wait w phase =>
    simp only [slotMove, hpc] at h ⊢
    rw [← hpc] at h
    have hask := n.failure_ask_of_stays (w.predicate n) w.done
    have hget := n.failure_getContext_of_stays
    rw [hpc] at hask hget h
    cases phase with
    | enter =>
      cases w with
      | inspection | election => exact hget _ (by decide) h
      | contributorsData | broadcast =>
        simp only [waitMove] at h ⊢
        cases hrole : n.context.isValidator
        · first | exact hget _ (by decide) (by simpa [hrole] using h) | simp [hrole] at h
        · first | exact hget _ (by decide) (by simpa [hrole] using h) | simp [hrole] at h
    | early => cases w <;> exact hask _ (by decide) (by decide) h
    | lock =>
      simp only [waitMove] at h ⊢
      split
      · simp [Node.fail]
      · simp_all
    | eval =>
      cases w with
      | broadcast =>
        simp only [waitMove] at h ⊢
        split at h
        · split at h <;> simp at h
        · exact hask _ (by decide) (by decide) h
      | inspection | election | contributorsData => exact hask _ (by decide) (by decide) h
    | window => simp [waitMove] at h
    | asleep => simp [hpc, SlotPc.blocked] at hblocked
  case removeCheck | electPresent | awaitResolved =>
    simp only [slotMove, hpc] at h ⊢
    rw [← hpc] at h
    exact n.failure_ask_of_stays _ _ _ (by simp [hpc]) (by simp [hpc]) h
  case electUnique | electRecheck | relayPublish =>
    simp only [slotMove, hpc] at h ⊢
    split at h <;> simp_all [Node.fail]
  case removeGet | completeUpdate =>
    simp only [slotMove, hpc] at h ⊢
    split at h <;> simp_all [Node.fail]
  case relayValidator =>
    simp only [slotMove, hpc] at h ⊢
    split at h
    · simp only at h
      split at h <;> cases h
    · simp [Node.fail]
  case nominate =>
    simp only [slotMove, hpc] at h ⊢
    cases hmark : n.storage.markValidator n.context.header.slot <;> simp_all [Node.fail]
  case collectMerge =>
    simp only [slotMove, hpc] at h ⊢
    cases hmerge : n.storage.mergeContributors E.order n.context.header.slot <;>
      simp_all [Node.fail]
  case votePublish again => cases again <;> simp [slotMove, hpc] at h
  case returned | stopped => simp [hpc, SlotPc.blocked] at hblocked
  all_goals simp [slotMove, hpc, Node.resetSynchronized, Node.setOperation] at h

theorem SlotPc.exists_of_locks {pc : SlotPc} (h : pc.locks = true) : ∃ w, pc = .wait w .lock := by
  cases pc
  case wait w phase =>
    cases phase
    case lock => exact ⟨w, rfl⟩
    all_goals cases h
  all_goals cases h

/-- The lock is owned then. -/
theorem owned_slotMove_of_locks (hlocks : n.pc.locks = true) :
    (slotMove E n).1.owned = true := by
  obtain ⟨w, hpc⟩ := SlotPc.exists_of_locks hlocks
  rw [slotMove_owned, hpc]

/-- It was not owned before, unless the call fails. -/
theorem owned_eq_false_of_locks (hlocks : n.pc.locks = true)
    (hmoved : (slotMove E n).1.pc ≠ n.pc) : n.owned = false := by
  obtain ⟨w, hpc⟩ := SlotPc.exists_of_locks hlocks
  by_contra howned
  have howned : n.owned = true := by simpa using howned
  simp [slotMove, hpc, waitMove, howned, Node.fail] at hmoved

/-- Within a rank the lock is kept, or still missing. -/
theorem slotMove_keeps (hlocks : n.pc.locks = false) (hrepeats : n.pc.repeats = false)
    (hrank : (slotMove E n).1.pc.rank ≤ n.pc.rank) : (slotMove E n).1.owned = n.owned := by
  have hresets : n.pc ∉ [SlotPc.inspectionReset, .electReset, .collectReset, .awaitReset] := by
    intro hmem
    simp only [List.mem_cons, List.not_mem_nil, or_false] at hmem
    rcases hmem with hpc | hpc | hpc | hpc
    · simp [slotMove, hpc, Node.resetSynchronized, SlotPc.rank] at hrank
    · simp [hpc, SlotPc.repeats] at hrepeats
    · simp [slotMove, hpc, Node.resetSynchronized, SlotPc.rank] at hrank
    · simp [slotMove, hpc, Node.resetSynchronized, SlotPc.rank] at hrank
  rw [slotMove_owned]
  split
  · next hpc => simp [hpc, SlotPc.locks] at hlocks
  · next hpc => simp [hpc] at hresets
  · next hpc => simp [hpc] at hresets
  · next hpc => simp [hpc] at hresets
  · next hpc => simp [hpc] at hresets
  · next hpc =>
    split
    · next hunique => simp [slotMove, hpc, hunique, SlotPc.rank] at hrank
    · rfl
  · rfl

/-- A call that gets on leaves less of the slot thread. -/
theorem weight_slotMove (hmoved : (slotMove E n).1.pc ≠ n.pc) (hrepeats : n.pc.repeats = false)
    (hrepeats' : (slotMove E n).1.pc.repeats = false) :
    (slotMove E n).1.pc.weight (slotMove E n).1.owned < n.pc.weight n.owned := by
  have hmem := (slotMove_next E n).resolve_left hmoved
  by_cases hrank : n.pc.rank < (slotMove E n).1.pc.rank
  · exact SlotPc.weight_lt_of_rank hrank _ _
  · apply SlotPc.weight_lt_of_next hmem hmoved hrepeats hrepeats'
    split
    · next hlocks => exact ⟨owned_eq_false_of_locks hlocks hmoved, owned_slotMove_of_locks hlocks⟩
    · next hlocks => exact slotMove_keeps (by simpa using hlocks) hrepeats (not_lt.1 hrank)

/-- At most one message goes to each peer. -/
theorem length_slotSends_le (E : SlotEnv) (n : Node) :
    (slotSends E n).length ≤ if n.pc.sends then E.remotes.length else 0 := by
  cases hpc : n.pc
  case relayPublish =>
    simp only [slotSends, hpc]
    split
    · next hmem => exact List.length_pos_of_mem hmem
    · simp
  case broadcast =>
    simp only [slotSends, hpc]
    split <;> simp [SlotPc.sends]
  all_goals simp [slotSends, hpc, SlotPc.sends]

/-- A call that fails sends nothing. -/
theorem slotSends_of_stays (h : (slotMove E n).1.pc = n.pc) : slotSends E n = [] := by
  simp only [slotSends]
  split
  · next hpc => simp [slotMove, hpc] at h
  · next again hpc => cases again <;> simp [slotMove, hpc] at h
  · next hpc =>
    split
    · next hmem => simp [slotMove, hpc, hmem] at h
    · rfl
  · next hpc => simp [slotMove, hpc, Node.setOperation] at h
  · rfl

/-- A call that gets on pays for what it sends with one of its publications. -/
theorem publications_slotMove (hmoved : (slotMove E n).1.pc ≠ n.pc)
    (hrepeats : n.pc.repeats = false) :
    (slotSends E n).length + E.remotes.length * (slotMove E n).1.pc.publications ≤
      E.remotes.length * n.pc.publications := by
  have hmem := (slotMove_next E n).resolve_left hmoved
  have hlength := length_slotSends_le E n
  split at hlength
  · next hsends =>
    have hpaid := Nat.mul_le_mul_left E.remotes.length
      (SlotPc.publications_lt hsends hrepeats hmem)
    rw [Nat.mul_succ] at hpaid
    omega
  · have hless := Nat.mul_le_mul_left E.remotes.length
      (SlotPc.publications_le (SlotPc.rank_le_of_mem_next hmem))
    omega

/-- What is left of the node: of its slot thread, which may also fail; of the messages that it
will send; and of the handler at work. -/
def Node.remaining (E : SlotEnv) (n : Node) : ℕ :=
  n.pc.weight n.owned + (if n.failure = none then 1 else 0) +
    25 * (E.remotes.length * n.pc.publications) + 4 * n.todo.length

/-- **A call of the slot thread** uses up what is left of the node. -/
theorem remaining_slotMove (hnone : n.failure = none) (hblocked : n.pc.blocked = false)
    (hrepeats : n.pc.repeats = false) (hrepeats' : (slotMove E n).1.pc.repeats = false) :
    (slotMove E n).1.remaining E + 25 * (slotSends E n).length + 1 ≤ n.remaining E := by
  have htodo := (slotMove_frame E n).1
  simp only [Node.remaining, htodo, hnone, if_true]
  by_cases hmoved : (slotMove E n).1.pc = n.pc
  · -- The call fails.
    have hfailure := slotMove_failure_of_stays hblocked hmoved
    have howned : n.pc.weight (slotMove E n).1.owned ≤ n.pc.weight n.owned := by
      by_cases hlocks : n.pc.locks = true
      · rw [owned_slotMove_of_locks hlocks]
        exact SlotPc.weight_owned_le n.pc n.owned
      · rw [slotMove_keeps (by simpa using hlocks) hrepeats (by rw [hmoved])]
    rw [slotSends_of_stays hmoved, if_neg hfailure, hmoved, List.length_nil]
    omega
  · have hweight := weight_slotMove hmoved hrepeats hrepeats'
    have hsends := publications_slotMove hmoved hrepeats
    split_ifs <;> omega

end SlotThread

/-! ## What is left of the system -/

/-- Waking costs no more than going back to sleep. -/
theorem SlotPc.Woken.weight_le {pc pc' : SlotPc} (h : pc.Woken pc') (owned : Bool) :
    pc'.weight owned ≤ pc.weight owned + 3 := by
  rcases h with rfl | ⟨w, rfl, rfl⟩
  · omega
  · cases w <;> simp only [weight, rank, credit] <;> omega

theorem SlotPc.Woken.publications_eq {pc pc' : SlotPc} (h : pc.Woken pc') :
    pc'.publications = pc.publications := by
  rw [publications, h.rank_eq, publications]

/-- **A call of the handler** uses up more than it gives the slot thread by waking it. -/
theorem remaining_exec (E : SlotEnv) {n : Node} {op : HandlerOp} {rest : List HandlerOp}
    (hnone : n.failure = none) (htodo : n.todo = op :: rest) :
    (op.exec { n with todo := rest }).remaining E + 1 ≤ n.remaining E := by
  obtain ⟨storage, pc, todo, failure, hexec, hpc, hleft⟩ := op.exec_frame { n with todo := rest }
  have hlength : todo.length ≤ rest.length := by
    rcases hleft with rfl | ⟨-, rfl⟩
    · exact le_rfl
    · exact Nat.zero_le _
  have hpc : n.pc.Woken pc := hpc
  have hweight := hpc.weight_le n.owned
  rw [hexec]
  simp only [Node.remaining, hpc.publications_eq, htodo, hnone, if_true, List.length_cons]
  split_ifs <;> omega

/-- A handler has six calls at most. -/
theorem length_handlerScript_le {m : ConsensusMessage} {todo : List HandlerOp}
    (h : handlerScript m = some todo) : todo.length ≤ 6 := by
  simp only [handlerScript] at h
  split at h <;> cases h <;> simp

namespace Sys

variable {D : Deployment} {s s' : Sys} {a b : String}

/-- How many messages from `a` are on their way to a node. -/
def outgoing (D : Deployment) (s : Sys) (a : String) : ℕ :=
  ∑ x ∈ D.addresses.toFinset, (s.channel a x).inFlight.length

/-- What is left of the system. -/
def potential (D : Deployment) (s : Sys) : ℕ :=
  ∑ a ∈ D.addresses.toFinset, (s.node a).remaining (D.env a) +
    25 * ∑ a ∈ D.addresses.toFinset, s.outgoing D a

/-- What changes at one node only. -/
theorem potential_setNode_le (ha : a ∈ D.addresses) {n : Node} {k m : ℕ}
    (h : n.remaining (D.env a) + k ≤ (s.node a).remaining (D.env a) + m) :
    (s.setNode a n).potential D + k ≤ s.potential D + m := by
  have hsum := sum_add_le_of_one (f := fun x => (s.node x).remaining (D.env x))
    (g := fun x => ((s.setNode a n).node x).remaining (D.env x)) (k := k) (m := m)
    (List.mem_toFinset.2 ha) (fun x _ hx => by simp [hx]) (by simpa using h)
  have hchannel : ∀ x, (s.setNode a n).outgoing D x = s.outgoing D x := fun _ => rfl
  simp only [potential, hchannel]
  omega

/-- Each message goes to one node. -/
theorem potential_publish_le (ha : a ∈ D.addresses) (s : Sys) (sends : List Send) :
    (s.publish a sends).potential D ≤ s.potential D + 25 * sends.length := by
  have hself : (s.publish a sends).outgoing D a ≤ s.outgoing D a + sends.length := by
    have hsends := sum_length_filterMap_le D.addresses.toFinset Prod.fst Prod.snd sends
    simp only [outgoing, inFlight_publish, if_true, List.length_append, Finset.sum_add_distrib]
    exact Nat.add_le_add_left hsends _
  have hsum := sum_add_le_of_one (f := s.outgoing D) (g := (s.publish a sends).outgoing D)
    (k := 0) (List.mem_toFinset.2 ha) (fun x _ hx => by simp [outgoing, inFlight_publish, hx]) hself
  simp only [potential, node_publish]
  omega

/-- What is delivered is not on its way any more. -/
theorem potential_deliver_lt (ha : a ∈ D.addresses) (hb : b ∈ D.addresses) {m : ConsensusMessage}
    {rest : List ConsensusMessage} (h : (s.channel b a).inFlight = m :: rest) :
    (s.deliver a b m rest).potential D + 25 ≤ s.potential D := by
  have hself : (s.deliver a b m rest).outgoing D b + 1 ≤ s.outgoing D b + 0 :=
    sum_add_le_of_one (List.mem_toFinset.2 ha) (fun x _ hx => by simp [channel_deliver, hx])
      (by simp [channel_deliver, h])
  have hsum := sum_add_le_of_one (f := s.outgoing D) (g := (s.deliver a b m rest).outgoing D)
    (List.mem_toFinset.2 hb) (fun x _ hx => by simp [outgoing, channel_deliver, hx]) hself
  simp only [potential, node_deliver]
  omega

end Sys

/-- What a spurious wakeup puts back. -/
def Action.gain : Action → ℕ
  | .wake _ => 4
  | _ => 0

/-- **Every step of the system** uses up what is left of it. -/
theorem Settled.potential_step {D : Deployment} {s s' : Sys} {act : Action} (hs : Settled D s)
    (hD : D.Distinct) (h : Sys.step D s act = some s') :
    s'.potential D + 1 ≤ s.potential D + act.gain := by
  cases act with
  | slot a =>
    have hrepeats' := fun ha => ((hs.step hD h).once a ha).2
    rw [(Sys.node_slot h).2.2] at hrepeats'
    obtain ⟨ha, hnone, hblocked, rfl⟩ := Sys.step_slot_eq_some h
    have hmove := remaining_slotMove hnone hblocked (hs.once a ha).2 (hrepeats' ha)
    have hnode := Sys.potential_setNode_le (s := s) (k := 25 * (slotSends (D.env a)
      (s.node a)).length + 1) (m := 0) ha (by omega)
    have hpublish := Sys.potential_publish_le ha
      (s.setNode a (slotMove (D.env a) (s.node a)).1) (slotSends (D.env a) (s.node a))
    simp only [Action.gain]
    omega
  | wake a =>
    obtain ⟨ha, hnone, w, hpc, rfl⟩ := Sys.step_wake_eq_some h
    apply Sys.potential_setNode_le ha
    have hwoken : (s.node a).pc.Woken (.wait w .eval) := .inr ⟨w, hpc, rfl⟩
    have hweight := hwoken.weight_le (s.node a).owned
    simp only [Node.remaining, hwoken.publications_eq, Action.gain]
    omega
  | handle a =>
    obtain ⟨ha, hnone, op, rest, htodo, rfl⟩ := Sys.step_handle_eq_some h
    apply Sys.potential_setNode_le ha
    exact remaining_exec (D.env a) hnone htodo
  | receive a b =>
    obtain ⟨ha, hnone, htodo, m, rest, hinFlight, rfl⟩ := Sys.step_receive_eq_some h
    have hmail := hs.ledger.base.mail b a m (by simp [Channel.sent, hinFlight])
    obtain ⟨todo, hscript⟩ := Option.ne_none_iff_exists'.1 hmail.wellFormed
    have hlength := length_handlerScript_le hscript
    simp only [hscript, Action.gain]
    have hnode := Sys.potential_setNode_le (s := s) (k := 0) (m := 24) ha
      (n := { s.node a with header := m.header, todo }) (by
        simp only [Node.remaining, htodo, List.length_nil]
        omega)
    have hdeliver := Sys.potential_deliver_lt (s := s.setNode a
      { s.node a with header := m.header, todo }) ha hmail.source hinFlight
    dsimp only at hnode hdeliver ⊢
    omega

/-! ## The two results -/

theorem Deployment.potential_start_le (D : Deployment) :
    D.start.potential D ≤ D.addresses.length * (489 + 100 * (D.addresses.length - 1)) := by
  have hnode : ∀ a ∈ D.addresses.toFinset, (D.start.node a).remaining (D.env a) ≤
      489 + 100 * (D.addresses.length - 1) := by
    intro a ha
    have ha := List.mem_toFinset.1 ha
    have hlength : (D.env a).remotes.length ≤ D.addresses.length - 1 := by
      rw [← List.length_erase_of_mem ha]
      refine ((D.nodup_remotes a ha).subperm fun b hb => ?_).length_le
      obtain ⟨hb, hne⟩ := (D.mem_remotes a ha b).1 hb
      exact (List.mem_erase_of_ne hne).2 hb
    simp only [Deployment.start, Node.remaining, SlotPc.weight, SlotPc.publications, SlotPc.rank,
      SlotPc.credit, List.length_nil]
    simp only [Nat.zero_le, if_true, if_false, Bool.false_eq_true]
    omega
  have hsum := Finset.sum_le_card_nsmul _ _ _ hnode
  have hchannel : ∑ a ∈ D.addresses.toFinset, D.start.outgoing D a = 0 := by
    simp [Sys.outgoing, Deployment.start]
  rw [List.toFinset_card_of_nodup D.nodup, smul_eq_mul] at hsum
  rw [Sys.potential, hchannel]
  omega

/-- A sleep ends without a notification. -/
def Action.wakes : Action → Bool
  | .wake _ => true
  | _ => false

theorem Action.sum_gain (acts : List Action) :
    (acts.map Action.gain).sum = 4 * acts.countP Action.wakes := by
  induction acts with
  | nil => rfl
  | cons act acts ih =>
    rw [List.map_cons, List.sum_cons, List.countP_cons, ih]
    cases act <;> simp only [Action.gain, Action.wakes, Bool.false_eq_true, if_true, if_false] <;>
      omega

/-- What a run uses up. -/
theorem Deployment.potential_run {D : Deployment} (hD : D.Distinct) {acts : List Action} {s : Sys}
    (h : acts.foldlM (Sys.step D) D.start = some s) :
    s.potential D + acts.length ≤ D.start.potential D + 4 * acts.countP Action.wakes := by
  have hstep : ∀ s act t, Settled D s → Sys.step D s act = some t →
      Settled D t ∧ t.potential D + 1 ≤ s.potential D + act.gain :=
    fun _ _ _ hs hstep => ⟨hs.step hD hstep, hs.potential_step hD hstep⟩
  rw [← Action.sum_gain]
  exact length_add_le hstep acts (.start D) h

/-- **Without collisions a slot does not go on forever**: whatever the order of the steps, a run
is bounded but for the sleeps that end for no reason. -/
theorem Deployment.run_bounded {D : Deployment} (hD : D.Distinct) {acts : List Action} {s : Sys}
    (h : acts.foldlM (Sys.step D) D.start = some s) :
    acts.length ≤ D.addresses.length * (489 + 100 * (D.addresses.length - 1)) +
      4 * acts.countP Action.wakes := by
  have hrun := D.potential_run hD h
  have hstart := D.potential_start_le
  omega

set_option maxRecDepth 4000 in
theorem Deployment.run_bounded_relayPair :
    ∃ s, relayPairSaves.foldlM (Sys.step relayPair) relayPair.start = some s ∧
      relayPairSaves.length ≤ 2 * 589 + 4 * relayPairSaves.countP Action.wakes := by
  have hruns : (relayPairSaves.foldlM (Sys.step relayPair) relayPair.start).isSome := by
    decide +kernel
  obtain ⟨s, hs⟩ := Option.isSome_iff_exists.1 hruns
  exact ⟨s, hs, Deployment.run_bounded (by decide) hs⟩

/-! ## The slot can be finished -/

theorem Sys.step_slot_eq {D : Deployment} {s : Sys} {a : String} (ha : a ∈ D.addresses)
    (hnone : (s.node a).failure = none) (hblocked : (s.node a).pc.blocked = false) :
    Sys.step D s (.slot a) = some ((s.setNode a (slotMove (D.env a) (s.node a)).1).publish a
      (slotSends (D.env a) (s.node a))) := by
  simp [Sys.step, ha, slotStep, hnone, hblocked, slotMove_sends]

section Evaluation

variable {E : SlotEnv} {n : Node} {w : Waiter}

/-- A call that gets on from `pc` to `pc'` without sending. -/
theorem remaining_le_of_weight {n' : Node} {k : ℕ} (htodo : n'.todo = n.todo)
    (hfailure : n.failure = none) (hrank : n.pc.rank ≤ n'.pc.rank)
    (hweight : n'.pc.weight n'.owned + k ≤ n.pc.weight n.owned) :
    n'.remaining E + k ≤ n.remaining E := by
  have hless := Nat.mul_le_mul_left E.remotes.length (SlotPc.publications_le hrank)
  simp only [Node.remaining, htodo, hfailure, if_true]
  split_ifs <;> omega

/-- Who evaluates a predicate that is true leaves the wait, or goes on with what is left of it. -/
theorem slotMove_eval_of_ready (hpc : n.pc = .wait w .eval) (hready : w.ready n = true) :
    (slotMove E n).1 = { n with
      storage := if w = .broadcast then n.storage else (w.predicate n).2
      pc := if w = .broadcast then .awaitResolved else w.done } := by
  cases w with
  | broadcast =>
    simp only [Waiter.ready, Bool.and_eq_true] at hready
    obtain ⟨p, hsync, hload⟩ := (Option.any_eq_true ..).1 hready.1
    simp [slotMove, hpc, waitMove, hsync, hload]
  | inspection | election | contributorsData =>
    have hq := of_decide_eq_true hready
    simp [slotMove, hpc, waitMove, Node.ask_eq, hq]

/-- That is worth more than the wakeup, but for the wait for the broadcast. -/
theorem remaining_eval_of_ready (hpc : n.pc = .wait w .eval) (hready : w.ready n = true)
    (hnone : n.failure = none) :
    (slotMove E n).1.remaining E + (if w = .broadcast then 1 else 4) ≤ n.remaining E := by
  rw [slotMove_eval_of_ready hpc hready]
  refine remaining_le_of_weight rfl hnone ?_ ?_
  · cases w <;> simp [hpc, SlotPc.rank, Waiter.done]
  · cases w <;> cases n.owned <;>
      simp [hpc, SlotPc.weight, SlotPc.rank, SlotPc.credit, Waiter.done]

/-- The wait for the broadcast has a second conjunct, and then ends. -/
theorem remaining_awaitResolved (hpc : n.pc = .awaitResolved)
    (hresolved : (Waiter.broadcast.predicate n).1 = some true) (hnone : n.failure = none) :
    (slotMove E n).1.remaining E + 3 ≤ n.remaining E := by
  have hmove : (slotMove E n).1 = { n with
      storage := (Waiter.broadcast.predicate n).2, pc := .awaitBlock } := by
    simp [slotMove, hpc, Node.ask_eq, hresolved]
  rw [hmove]
  refine remaining_le_of_weight rfl hnone ?_ ?_
  · simp [hpc, SlotPc.rank]
  · cases n.owned <;> simp [hpc, SlotPc.weight, SlotPc.rank, SlotPc.credit]

end Evaluation

section Progress

variable {D : Deployment} {s : Sys} {v x : String}

/-- A call of the slot thread that sends nothing. -/
theorem Sys.potential_slot_le {s' : Sys} {k : ℕ} (h : Sys.step D s (.slot x) = some s')
    (hsends : slotSends (D.env x) (s.node x) = [])
    (hless : (slotMove (D.env x) (s.node x)).1.remaining (D.env x) + k ≤
      (s.node x).remaining (D.env x)) : s'.potential D + k ≤ s.potential D := by
  obtain ⟨hx, -, -, rfl⟩ := Sys.step_slot_eq_some h
  have hnode := Sys.potential_setNode_le (s := s) (m := 0) hx hless
  have hpublish := Sys.potential_publish_le hx (s.setNode x (slotMove (D.env x) (s.node x)).1)
    (slotSends (D.env x) (s.node x))
  rw [hsends, List.length_nil] at hpublish
  rw [hsends]
  omega

/-- Whoever sleeps although its predicate is true can wake up, and go on. -/
theorem Progressing.exists_awake (hp : Progressing D v s) (hD : D.Distinct)
    (hx : x ∈ D.addresses) (htodo : (s.node x).todo = []) {w : Waiter}
    (hpc : (s.node x).pc = .wait w .asleep) (hready : w.ready (s.node x) = true) :
    ∃ t, Reaches (Sys.step D) WholeDeliveries s t ∧ t.potential D < s.potential D := by
  have hnone := hp.failure x hx
  have hwake : Sys.step D s (.wake x) =
      some (s.setNode x { s.node x with pc := .wait w .eval }) := by
    simp [Sys.step, hx, wakeStep, hpc, hnone, Node.wake]
  have hcost := hp.gathered.settled.potential_step hD hwake
  generalize hs₁ : s.setNode x { s.node x with pc := .wait w .eval } = s₁ at hwake hcost
  have hnode₁ : s₁.node x = { s.node x with pc := .wait w .eval } := by simp [← hs₁]
  have hpc₁ : (s₁.node x).pc = .wait w .eval := by rw [hnode₁]
  have hnone₁ : (s₁.node x).failure = none := by rw [hnode₁, hnone]
  have htodo₁ : (s₁.node x).todo = [] := by rw [hnode₁, htodo]
  have hready₁ : w.ready (s₁.node x) = true := by
    rw [hnode₁]
    cases w <;> exact hready
  have hmove := slotMove_eval_of_ready (E := D.env x) hpc₁ hready₁
  have heval := Sys.step_slot_eq hx hnone₁ (by rw [hpc₁]; rfl)
  have hless := Sys.potential_slot_le heval (by simp [slotSends, hpc₁])
    (remaining_eval_of_ready hpc₁ hready₁ hnone₁)
  have hok : WholeDeliveries s (.wake x) := htodo
  have hok₁ : WholeDeliveries s₁ (.slot x) := htodo₁
  have hrun := (Reaches.refl.tail hok hwake).tail hok₁ heval
  generalize hs₂ : (s₁.setNode x _).publish x _ = s₂ at heval hless hrun
  by_cases hw : w = .broadcast
  · -- Once the flag was seen, the block is asked for.
    subst hw
    have hnode₂ : s₂.node x = { s₁.node x with pc := .awaitResolved } := by
      rw [(Sys.node_slot heval).2.2, hmove]
      rfl
    have hpc₂ : (s₂.node x).pc = .awaitResolved := by rw [hnode₂]
    have hnone₂ : (s₂.node x).failure = none := by rw [hnode₂, hnone₁]
    have hresolved : (Waiter.broadcast.predicate (s₂.node x)).1 = some true := by
      simp only [Waiter.ready, Bool.and_eq_true, decide_eq_true_eq] at hready₁
      rw [hnode₂]
      exact hready₁.2
    have hask := Sys.step_slot_eq hx hnone₂ (by rw [hpc₂]; rfl)
    have hok₂ : WholeDeliveries s₂ (.slot x) := by
      show (s₂.node x).todo = []
      rw [hnode₂, htodo₁]
    have hless₂ := Sys.potential_slot_le hask (by simp [slotSends, hpc₂])
      (remaining_awaitResolved hpc₂ hresolved hnone₂)
    refine ⟨_, hrun.tail hok₂ hask, ?_⟩
    simp only [Action.gain, if_true] at hcost hless
    omega
  · refine ⟨s₂, hrun, ?_⟩
    rw [if_neg hw] at hless
    simp only [Action.gain] at hcost
    omega

/-- Until nothing is left to do, something can be done that leaves less. -/
theorem Progressing.exists_less (hp : Progressing D v s) (hD : D.Distinct)
    (hquiet : ¬ Quiet D s) :
    ∃ t, Reaches (Sys.step D) WholeDeliveries s t ∧ t.potential D < s.potential D := by
  have hone : ∀ act : Action, act.wakes = false → WholeDeliveries s act →
      (Sys.step D s act).isSome →
      ∃ t, Reaches (Sys.step D) WholeDeliveries s t ∧ t.potential D < s.potential D := by
    intro act hwakes hok hsome
    obtain ⟨t, ht⟩ := Option.isSome_iff_exists.1 hsome
    have hless := hp.gathered.settled.potential_step hD ht
    have hgain : act.gain = 0 := by cases act <;> first | rfl | cases hwakes
    exact ⟨t, Reaches.refl.tail hok ht, by omega⟩
  simp only [Quiet, not_forall, not_and_or] at hquiet
  obtain ⟨x, hx, hbusy⟩ := hquiet
  have hnone := hp.failure x hx
  by_cases htodo : (s.node x).todo = []
  · by_cases hflight : ∀ y ∈ D.addresses, (s.channel y x).inFlight = []
    · -- The slot thread has a call to make, or sleeps for no reason.
      have hmove : Sys.canMove D s x = true := by
        rcases hbusy with ⟨y, hy, hne⟩ | hne | hmove
        · exact absurd (hflight y hy) hne
        · exact absurd htodo hne
        · simpa using hmove
      simp only [Sys.canMove, Bool.or_eq_true, Bool.and_eq_true] at hmove
      rcases hmove with hslot | ⟨-, hready⟩
      · exact hone (.slot x) rfl htodo hslot
      · obtain ⟨w, hsleeps, hready⟩ := (Option.any_eq_true ..).1 hready
        have hpc : (s.node x).pc = .wait w .asleep := by
          cases hpc : (s.node x).pc
          case wait w' phase => cases phase <;> simp_all [SlotPc.sleepsIn]
          all_goals simp [hpc, SlotPc.sleepsIn] at hsleeps
        exact hp.exists_awake hD hx htodo hpc hready
    · simp only [not_forall] at hflight
      obtain ⟨y, hy, hne⟩ := hflight
      obtain ⟨m, rest, hchannel⟩ := List.exists_cons_of_ne_nil hne
      refine hone (.receive x y) rfl trivial ?_
      cases hscript : handlerScript m <;>
        simp [Sys.step, hx, hchannel, receiveStep, hnone, htodo, hscript]
  · obtain ⟨op, rest, hrest⟩ := List.exists_cons_of_ne_nil htodo
    refine hone (.handle x) rfl trivial ?_
    simp [Sys.step, hx, handlerStep, hrest, hnone]

end Progress

/-- **Without collisions a slot can always be finished**: from every state that whole deliveries
lead to, whole deliveries lead to one in which `SlotHandler::handle` has returned everywhere. -/
theorem Deployment.can_finish {D : Deployment} (hD : D.Distinct) {s : Sys}
    (h : Reaches (Sys.step D) WholeDeliveries D.start s) :
    ∃ t, Reaches (Sys.step D) WholeDeliveries s t ∧
      ∀ x ∈ D.addresses, (t.node x).pc.finished := by
  by_cases hempty : D.addresses = []
  · exact ⟨s, .refl, by simp [hempty]⟩
  · obtain ⟨x, hx⟩ := List.exists_mem_of_ne_nil _ hempty
    obtain ⟨v, hv⟩ := hD.exists_elects hx
    have hstep : ∀ s act t, Progressing D v s → WholeDeliveries s act →
        Sys.step D s act = some t → Progressing D v t :=
      fun _ _ _ hi hok hs => hi.step hD hv hok hs
    have hp := h.invariant (.start D v) hstep
    obtain ⟨t, ht, hpt, hquiet⟩ := exists_reaches_end (P := Quiet D) hstep
      (fun u hu => or_iff_not_imp_left.2 fun hq => hu.exists_less hD hq) hp
    exact ⟨t, ht, fun y hy => hquiet.finished hpt hv hy⟩

/-- The whole handler of `a` runs between the evaluation of the predicate and the sleep. -/
def relayPairSleeps : List Action :=
  List.replicate 11 (.slot "a") ++ List.replicate 7 (.slot "b") ++ .receive "a" "b" ::
    List.replicate 6 (.handle "a") ++ [.slot "a"]

theorem Deployment.can_finish_relayPair :
    ∃ s t, Reaches (Sys.step relayPair) WholeDeliveries s t ∧
      (s.node "a").pc = .wait .inspection .asleep ∧
      (t.node "a").pc.finished ∧ (t.node "b").pc.finished := by
  obtain ⟨s, hs, h⟩ := exists_reaches (Sys.step relayPair) WholeDeliveries relayPair.start
    relayPairSleeps (fun s => (s.node "a").pc = .wait .inspection .asleep) (by decide +kernel)
  simp only [decide_eq_true_eq] at h
  obtain ⟨t, ht, hfinished⟩ := Deployment.can_finish (by decide) hs
  exact ⟨s, t, ht, h, hfinished "a" (by decide), hfinished "b" (by decide)⟩

end BlockchainMessaging
