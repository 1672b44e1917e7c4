import BlockchainMessaging.Alike
import BlockchainMessaging.Cluster
import BlockchainMessaging.Failures
import BlockchainMessaging.Lib.Simulation

/-!
# One slot of a cluster

The slots of a cluster share storages, chains, consensus threads and channels.  Nevertheless each
slot runs as if it were the only one: whatever a cluster does, the nodes of a slot, with channels of
their own, could have done the same for this slot.  So what holds of all runs of one slot holds of
each slot of a cluster.  The chain is the exception, and is left out; where a call on it ends the
process of a node, the node of the slot just stops to move.

## Main definitions

* `Follows` — a node of one slot does what a process does for this slot.
* `Projects` — the nodes and channels of one slot do what the cluster does for it.
* `Cluster.tracked` — every reachable state of a cluster projects to every slot.
-/

namespace BlockchainMessaging

open ConsensusStorage

/-! ## Processes -/

/-- A call of the consensus thread does the same to what is shared, whoever looks on. -/
theorem HandlerOp.exec_shared (op : HandlerOp) {n m : Node} (hstorage : m.storage = n.storage)
    (hheader : m.header = n.header) (htodo : m.todo = n.todo) (hfailure : m.failure = n.failure) :
    (op.exec m).storage = (op.exec n).storage ∧ (op.exec m).todo = (op.exec n).todo ∧
      (op.exec m).failure = (op.exec n).failure := by
  cases op
  case notifyAll =>
    have hwake : ∀ n : Node, n.wake.todo = n.todo ∧ n.wake.failure = n.failure := by
      intro n
      obtain ⟨pc, h, -⟩ := n.wake_frame
      rw [h]
      exact ⟨rfl, rfl⟩
    simp only [exec, hstorage, hheader]
    split
    · split <;> split <;> simp [hwake, htodo, hfailure]
    · exact ⟨rfl, htodo, rfl⟩
  case storeSynchronized =>
    simp only [exec, hstorage, hheader]
    split <;> simp [htodo, hfailure]
  all_goals simp [exec, Node.check_eq, hstorage, hheader, htodo, hfailure]

namespace Process

variable {E : ℕ → SlotEnv} {p p' : Process ℕ} {r s : ℕ}

/-- Every run sees the call of the consensus thread. -/
theorem view_handle (h : step E p .handle = some p') :
    p.failure = none ∧ p'.header = p.header ∧ ∃ op rest, p.todo = op :: rest ∧
      ∀ r, p'.view (p'.run r) = op.exec { p.view (p.run r) with todo := rest } := by
  obtain ⟨hf, op, rest, n, htodo, hn, hp'⟩ := step_handle_eq_some h
  refine ⟨hf, by rw [hp'], op, rest, htodo, fun r => ?_⟩
  obtain ⟨hstorage, htodo', hfailure⟩ := op.exec_shared
    (n := { p.consensus with todo := rest }) (m := { p.view (p.run r) with todo := rest })
    rfl rfl rfl rfl
  obtain ⟨storage, pc, todo, failure, hexec, -, -⟩ :=
    op.exec_frame { p.view (p.run r) with todo := rest }
  rw [hexec] at hstorage htodo' hfailure
  rw [hp', hn, view]
  simp only [hexec, ← hstorage, ← htodo', ← hfailure]
  rfl

/-- Every run sees the call of another run. -/
theorem view_slot (h : step E p (.slot r) = some p') :
    p.failure = none ∧ (p.run r).pc.blocked = false ∧ p'.header = p.header ∧ p'.todo = p.todo ∧
      p'.run r = (slotMove (E r) (p.view (p.run r))).1 ∧
      p'.view (p'.run r) = (slotMove (E r) (p.view (p.run r))).1 ∧
      (∀ s ≠ r, p'.run s = p.run s) ∧
      p'.storage = (slotMove (E r) (p.view (p.run r))).1.storage ∧
      p'.failure = (slotMove (E r) (p.view (p.run r))).1.failure := by
  obtain ⟨hf, hb, n, hn, rfl⟩ := step_slot_eq_some h
  obtain ⟨htodo, hheader⟩ := slotMove_frame (E r) (p.view (p.run r))
  rw [← hn] at htodo hheader ⊢
  refine ⟨hf, hb, rfl, rfl, by simp, ?_, fun s hs => by simp [hs], rfl, rfl⟩
  rw [view]
  simp only [Function.update_self]
  rw [show p.header = n.header from hheader.symm, show p.todo = n.todo from htodo.symm]

/-- The pointers of the storage, and those of all runs, are in order. -/
structure Wired (p : Process ℕ) : Prop where
  pointersOk : p.storage.PointersOk
  linked : ∀ s, (p.view (p.run s)).Linked s

theorem Wired.step (hw : p.Wired) (hslot : ∀ s, (E s).slot = s)
    (hpending : ∀ s, (E s).pendingBlock.slot = s) (hon : ∀ s, (p.run s).OnSlot (E s))
    {act : ProcessAction ℕ} (h : step E p act = some p') : p'.Wired := by
  cases act with
  | slot r =>
    obtain ⟨-, -, -, -, -, hview, hrun, hstorage, -⟩ := view_slot h
    have hon' : (p.view (p.run r)).OnSlot (E r) := ⟨(hon r).block, (hon r).header⟩
    refine ⟨by rw [hstorage]; exact slotMove_pointersOk hw.pointersOk, fun s => ?_⟩
    by_cases hs : s = r
    · subst hs
      rw [hview]
      exact (hw.linked s).slotMove fun h4 => (hon'.header h4).trans (hpending s)
    · have hapart := apart_slotMove hon' fun _ => (hslot r).trans (hpending r).symm
      rw [hpending, ← hstorage] at hapart
      refine (hw.linked s).passive ?_ ?_ fun o ho => (hapart.condition s hs).trans ho
      · rw [hrun s hs]
        rfl
      · rw [hrun s hs]
        exact id
  | begin r =>
    obtain ⟨-, hrank, rfl⟩ := step_begin_eq_some h
    refine ⟨hw.pointersOk, fun s => ?_⟩
    by_cases hs : s = r
    · subst hs
      simp only [Function.update_self]
      exact (hw.linked s).passive rfl (fun _ => hrank.trans (by decide)) fun _ ho => ho
    · simp only [Function.update_of_ne hs]
      exact hw.linked s
  | init r =>
    obtain ⟨call, calls, -, rfl⟩ := step_init_eq_some h
    exact ⟨call.exec_pointersOk _ hw.pointersOk,
      fun s => (hw.linked s).passive rfl id fun _ => call.exec_find _⟩
  | wake r =>
    obtain ⟨w, hpc, rfl⟩ := step_wake_eq_some h
    refine ⟨hw.pointersOk, fun s => ?_⟩
    by_cases hs : s = r
    · subst hs
      simp only [Function.update_self]
      refine (hw.linked s).passive rfl (fun _ => ?_) fun _ ho => ho
      have hrank : (SlotPc.wait w .asleep).rank ≤ 28 := by cases w <;> decide
      exact (congrArg SlotPc.rank hpc).trans_le hrank
    · simp only [Function.update_of_ne hs]
      exact hw.linked s
  | handle =>
    obtain ⟨-, -, op, rest, -, hview⟩ := view_handle h
    refine ⟨?_, fun s => ?_⟩
    · have hp : (op.exec { p.view (p.run 0) with todo := rest }).storage.PointersOk :=
        HandlerOp.exec_pointersOk hw.pointersOk
      rwa [← hview 0] at hp
    · rw [hview s]
      exact Node.Linked.exec (n := { p.view (p.run s) with todo := rest }) (hw.linked s) op
  | receive m =>
    obtain ⟨-, hstorage, hrun, -, -⟩ := step_receive_eq_some h
    refine ⟨by rw [hstorage]; exact hw.pointersOk, fun s => ?_⟩
    refine (hw.linked s).passive ?_ ?_ fun o ho => ?_
    · rw [hrun]
      rfl
    · rw [hrun]
      exact id
    · rw [view, hstorage]
      exact ho

end Process

/-! ## One slot of a process -/

/-- The node `m` does what the process does for the slot `s`, as long as the process lives. -/
structure Follows (s : ℕ) (p : Process ℕ) (m : Node) : Prop where
  run : SameRun (p.run s) m
  alike : p.failure = none → Alike s (p.view (p.run s)) m
  mine : p.failure = none → p.header.slot = s →
    m.todo = p.todo ∧ (p.todo ≠ [] → m.header = p.header)
  others : p.failure = none → p.header.slot ≠ s → m.todo = []

namespace Follows

variable {E : ℕ → SlotEnv} {p p' : Process ℕ} {r s : ℕ} {m : Node}

/-- A call of the run: the node makes the same call, unless the chain ends the process. -/
theorem slot (h : Follows s p m) (ht : Alike.Tied s (p.view (p.run s)) m) (hslot : (E s).slot = s)
    (hpending : (E s).pendingBlock.slot = s) (hon : m.OnSlot (E s))
    (hserved : Alike.Served (E s) m) (hstep : p.step E (.slot s) = some p') :
    m.failure = none ∧ m.pc.blocked = false ∧ Follows s p' (slotMove (E s) m).1 ∨
      slotSends (E s) (p.view (p.run s)) = [] ∧ p'.failure ≠ none ∧ Follows s p' m := by
  obtain ⟨hf, hb, hheader, htodo, hrun, hview, -, hstorage, hfailure⟩ := Process.view_slot hstep
  have halike := h.alike hf
  have honSlot := halike.toSameRun.onSlot hon
  by_cases hn : Alike.Served (E s) (p.view (p.run s))
  · refine .inl ⟨halike.failure.trans hf, by rw [halike.pc]; exact hb, ?_⟩
    have hmove := halike.slotMove ht hslot hpending honSlot hn hserved
    obtain ⟨htodo', hheader'⟩ := slotMove_frame (E s) m
    constructor
    case run =>
      rw [hrun]
      exact hmove.toSameRun
    case alike =>
      intro _
      rw [hview]
      exact hmove
    case mine =>
      rw [hheader, htodo, htodo', hheader']
      exact fun _ => h.mine hf
    case others =>
      rw [hheader, htodo']
      exact fun _ => h.others hf
  · -- The chain does not serve the call: the process ends, and the node stays where it is.
    obtain ⟨f, hmove⟩ := Alike.slotMove_of_not_served hn
    rw [hmove] at hrun hfailure
    have hfail : p'.failure ≠ none := by simp [hfailure, Node.fail]
    refine .inr ⟨?_, hfail, ?_, fun hnone => absurd hnone hfail,
      fun hnone => absurd hnone hfail, fun hnone => absurd hnone hfail⟩
    · rw [← slotMove_sends, hmove]
    · rw [hrun]
      exact { halike.toSameRun with }

/-- What leaves the run alone, and says nothing about its slot. -/
theorem stay (h : Follows s p m) (hrun : SameRun (p.run s) (p'.run s))
    (hsync : (p'.run s).sync = (p.run s).sync)
    (hstorage : p'.failure = none → SameSlot s p.storage p'.storage)
    (hfailure : p'.failure = none → p.failure = none)
    (hmine : p'.failure = none → p'.header.slot = s →
      m.todo = p'.todo ∧ (p'.todo ≠ [] → m.header = p'.header))
    (hothers : p'.failure = none → p'.header.slot ≠ s → m.todo = []) : Follows s p' m := by
  obtain ⟨i, hi⟩ := hrun.context
  have hrun' : SameRun (p'.run s) m := by
    obtain ⟨j, hj⟩ := h.run.context
    exact ⟨⟨j, by rw [hj, hi]⟩, h.run.pc.trans hrun.pc.symm, h.run.owned.trans hrun.owned.symm,
      h.run.electionValue.trans hrun.electionValue.symm, h.run.draws.trans hrun.draws.symm,
      h.run.published.trans hrun.published.symm⟩
  refine ⟨hrun', fun hnone => ?_, hmine, hothers⟩
  have halike := h.alike (hfailure hnone)
  exact { hrun' with
    storage := (hstorage hnone).symm.trans halike.storage
    sync := halike.sync.trans (congrArg Option.isSome hsync.symm)
    failure := halike.failure.trans ((hfailure hnone).trans hnone.symm) }

/-- A call of the run for another slot. -/
theorem slot_other (h : Follows s p m) (hs : s ≠ r) (hw : p.Wired) (hslot : (E r).slot = r)
    (hpending : (E r).pendingBlock.slot = r) (hon : (p.run r).OnSlot (E r))
    (hknown : KnownAddresses (E r) (p.view (p.run r))) (hstep : p.step E (.slot r) = some p') :
    Follows s p' m := by
  obtain ⟨hf, -, hheader, htodo, -, -, hrun, hstorage, -⟩ := Process.view_slot hstep
  have hon' : (p.view (p.run r)).OnSlot (E r) := ⟨hon.block, hon.header⟩
  refine h.stay ?_ ?_ (fun _ => ?_) (fun _ => hf) (fun _ => ?_) fun _ => ?_
  · rw [hrun s hs]
    exact ⟨⟨_, rfl⟩, rfl, rfl, rfl, rfl, rfl⟩
  · rw [hrun s hs]
  · rw [hstorage]
    exact sameSlot_slotMove hon' hslot hpending hknown (hw.linked r) hw.pointersOk hs
  · rw [hheader, htodo]
    exact h.mine hf
  · rw [hheader]
    exact h.others hf

/-- The sleep of the run ends. -/
theorem wake (h : Follows s p m) (hstep : p.step E (.wake s) = some p') :
    ∃ w, m.failure = none ∧ m.pc = .wait w .asleep ∧
      Follows s p' { m with pc := .wait w .eval } := by
  have hf : p.failure = none := by
    obtain ⟨n, hn, -⟩ := Option.map_eq_some_iff.1 hstep
    exact (wakeStep_eq_some hn).1
  obtain ⟨w, hpc, rfl⟩ := Process.step_wake_eq_some hstep
  have halike := h.alike hf
  refine ⟨w, halike.failure.trans hf, h.run.pc.trans hpc, ?_⟩
  constructor
  case run =>
    simp only [Function.update_self]
    exact { halike.toSameRun with pc := rfl }
  case alike =>
    intro _
    simp only [Function.update_self]
    exact { halike with pc := rfl }
  case mine => exact h.mine
  case others => exact h.others

/-- The sleep of another run ends. -/
theorem wake_other (h : Follows s p m) (hs : s ≠ r) (hstep : p.step E (.wake r) = some p') :
    Follows s p' m := by
  obtain ⟨w, -, rfl⟩ := Process.step_wake_eq_some hstep
  have hrun : (Function.update p.run r { p.view (p.run r) with pc := .wait w .eval }) s = p.run s :=
    Function.update_of_ne hs _ _
  refine h.stay ?_ ?_ (fun _ => .refl s _) (fun hf => hf) h.mine h.others
  · simp only [hrun]
    exact ⟨⟨_, rfl⟩, rfl, rfl, rfl, rfl, rfl⟩
  · simp only [hrun]

/-- A call of the consensus thread for the slot. -/
theorem handle (h : Follows s p m) (ht : Alike.Tied s (p.view (p.run s)) m)
    (hheader : p.header.slot = s) (hstep : p.step E .handle = some p') :
    m.failure = none ∧ ∃ op rest, m.todo = op :: rest ∧
      Follows s p' (op.exec { m with todo := rest }) := by
  obtain ⟨hf, hheader', op, rest, htodo, hview⟩ := Process.view_handle hstep
  have halike := h.alike hf
  obtain ⟨hmtodo, hmheader⟩ := h.mine hf hheader
  refine ⟨halike.failure.trans hf, op, rest, hmtodo.trans htodo, ?_⟩
  have hsame : Alike s { p.view (p.run s) with todo := rest } { m with todo := rest } :=
    { halike with }
  have ht' : Alike.Tied s { p.view (p.run s) with todo := rest } { m with todo := rest } :=
    ⟨ht.left, ht.right, ht.leftPointers, ht.rightPointers⟩
  obtain ⟨hexec, htodo'⟩ := hsame.exec ht' (hmheader (by simp [htodo])) hheader rfl op
  rw [← hview s] at hexec htodo'
  constructor
  case run => exact { hexec.toSameRun with }
  case alike => exact fun _ => hexec
  case mine =>
    intro _ _
    refine ⟨htodo', fun _ => ?_⟩
    rw [HandlerOp.exec_header, hheader']
    exact hmheader (by simp [htodo])
  case others => exact fun _ hne => absurd (hheader' ▸ hheader) hne

/-- A call of the consensus thread for another slot. -/
theorem handle_other (h : Follows s p m) (hs : s ≠ p.header.slot) (hw : p.Wired)
    (hcString : ∀ a ∈ p.storage.contexts.keys, cStr a = a)
    (haddress : p.todo ≠ [] → p.header.address ∈ p.storage.contexts.keys)
    (hstep : p.step E .handle = some p') : Follows s p' m := by
  obtain ⟨hf, hheader, op, rest, htodo, hview⟩ := Process.view_handle hstep
  have hpc := exec_pc_eq (n := { p.view (p.run s) with todo := rest }) (hw.linked s) hw.pointersOk
    hs op
  have hstorage := sameSlot_exec (n := { p.view (p.run s) with todo := rest }) hcString
    (haddress (by simp [htodo])) hw.pointersOk hs op
  obtain ⟨storage, pc, todo, failure, hexec, -, -⟩ :=
    op.exec_frame { p.view (p.run s) with todo := rest }
  have hview' := hview s
  rw [hexec] at hview' hpc hstorage
  have hrun : ∀ {β : Type} (f : Node → β), f (p'.view (p'.run s)) =
      f { p.view (p.run s) with storage, pc, todo, failure } := fun f => congrArg f hview'
  refine h.stay ⟨⟨_, hrun Node.context⟩, (hrun Node.pc).trans hpc, hrun Node.owned,
    hrun Node.electionValue, hrun Node.draws, hrun Node.published⟩ (hrun Node.sync) (fun _ => ?_)
    (fun _ => hf) (fun _ hmine => ?_) fun _ _ => h.others hf (Ne.symm hs)
  · rw [show p'.storage = storage from hrun Node.storage]
    exact hstorage
  · exact absurd (hheader ▸ hmine).symm hs

/-- The receipt of a message for the slot. -/
theorem receive (h : Follows s p m) {msg : ConsensusMessage} (hslot : msg.header.slot = s)
    (hstep : p.step E (.receive msg) = some p') :
    ∃ m', receiveStep msg m = some m' ∧ Follows s p' m' := by
  obtain ⟨n, hn, rfl⟩ := Option.map_eq_some_iff.1 hstep
  obtain ⟨hf, htodo, hmsg⟩ := receiveStep_eq_some hn
  have hf' : p.failure = none := hf
  have htodo' : p.todo = [] := htodo
  have halike := h.alike hf'
  have hidle : m.todo = [] := by
    by_cases hheader : p.header.slot = s
    · rw [(h.mine hf' hheader).1, htodo']
    · exact h.others hf' hheader
  have hm : m.failure = none := halike.failure.trans hf'
  cases hscript : handlerScript msg with
  | some todo =>
    rw [hscript] at hmsg
    refine ⟨{ m with header := msg.header, todo }, by simp [receiveStep, hm, hidle, hscript], ?_⟩
    subst hmsg
    refine ⟨{ h.run with }, fun _ => ?_, fun _ _ => ⟨rfl, fun _ => rfl⟩,
      fun _ hne => absurd hslot hne⟩
    exact { halike with }
  | none =>
    rw [hscript] at hmsg
    refine ⟨m.fail .badArchive, by simp [receiveStep, hm, hidle, hscript], ?_⟩
    subst hmsg
    exact ⟨{ h.run with }, fun hnone => absurd hnone (by simp [Node.fail]),
      fun hnone => absurd hnone (by simp [Node.fail]),
      fun hnone => absurd hnone (by simp [Node.fail])⟩

/-- The receipt of a message for another slot. -/
theorem receive_other (h : Follows s p m) {msg : ConsensusMessage} (hslot : msg.header.slot ≠ s)
    (hstep : p.step E (.receive msg) = some p') : Follows s p' m := by
  obtain ⟨n, hn, rfl⟩ := Option.map_eq_some_iff.1 hstep
  obtain ⟨hf, htodo, hmsg⟩ := receiveStep_eq_some hn
  have hf' : p.failure = none := hf
  have htodo' : p.todo = [] := htodo
  have hidle : m.todo = [] := by
    by_cases hheader : p.header.slot = s
    · rw [(h.mine hf' hheader).1, htodo']
    · exact h.others hf' hheader
  refine h.stay ⟨⟨_, rfl⟩, rfl, rfl, rfl, rfl, rfl⟩ rfl (fun _ => .refl s _) (fun _ => hf')
    (fun _ hmine => ?_) fun _ _ => hidle
  cases hscript : handlerScript msg with
  | some todo =>
    rw [hscript] at hmsg
    subst hmsg
    exact absurd hmine hslot
  | none =>
    rw [hscript] at hmsg
    subst hmsg
    exact ⟨hidle.trans htodo'.symm, fun hne => absurd htodo' hne⟩

end Follows

/-! ## One slot of the channels -/

/-- What a channel carries for the slot `s`. -/
def Channel.ofSlot (s : ℕ) (c : Channel) : Channel where
  delivered := c.delivered.filter fun m => m.header.slot = s
  inFlight := c.inFlight.filter fun m => m.header.slot = s

/-- The nodes and channels of the slot `s` do what the cluster does for this slot. -/
structure Projects (C : Cluster) (s : ℕ) (K : ClusterState) (S : Sys) : Prop where
  node : ∀ x ∈ C.addresses, Follows s (K.process x) (S.node x)
  channel : ∀ y x, S.channel y x = (K.channel y x).ofSlot s

/-- The clients and the history are no part of it. -/
theorem Projects.record {C : Cluster} {s r : ℕ} {K : ClusterState} {S : Sys} {a : String} {n : Node}
    (h : Projects C s K S) : Projects C s (K.record a r n) S := by
  constructor
  · simpa using h.node
  · simpa using h.channel

/-- Nothing has begun. -/
theorem Projects.start (C : Cluster) (s : ℕ) :
    Projects C s C.start (C.deployment s).start := by
  refine ⟨fun x hx => ?_, fun y x => rfl⟩
  have hrun : SameRun ((C.start.process x).run s) ((C.deployment s).start.node x) :=
    ⟨⟨_, rfl⟩, rfl, rfl, rfl, rfl, rfl⟩
  exact ⟨hrun, fun _ => { hrun with storage := .refl s _, sync := rfl, failure := rfl },
    fun _ _ => ⟨rfl, fun hne => absurd rfl hne⟩, fun _ _ => rfl⟩

section Channels

variable {s : ℕ} {K : ClusterState} {S : Sys} {a b : String}

/-- Messages for the slot. -/
theorem channel_publish (h : ∀ y x, S.channel y x = (K.channel y x).ofSlot s) {sends : List Send}
    (hsends : ∀ x, ∀ m ∈ Sys.sendsTo sends x, m.header.slot = s) (y x : String) :
    (S.publish a sends).channel y x = ((K.publish a sends).channel y x).ofSlot s := by
  have hkeep : (Sys.sendsTo sends x).filter (fun m => m.header.slot = s) = Sys.sendsTo sends x :=
    List.filter_eq_self.2 fun m hm => by simpa using hsends x m hm
  simp only [Sys.publish, ClusterState.publish]
  split
  · simp only [h, Channel.ofSlot, List.filter_append]
    rw [← Sys.sendsTo, hkeep]
  · exact h y x

/-- Messages for another slot. -/
theorem channel_publish_other (h : ∀ y x, S.channel y x = (K.channel y x).ofSlot s)
    {sends : List Send} (hsends : ∀ x, ∀ m ∈ Sys.sendsTo sends x, m.header.slot ≠ s)
    (y x : String) : S.channel y x = ((K.publish a sends).channel y x).ofSlot s := by
  have hdrop : (Sys.sendsTo sends x).filter (fun m => m.header.slot = s) = [] :=
    List.filter_eq_nil_iff.2 fun m hm => by simpa using hsends x m hm
  simp only [ClusterState.publish]
  split
  · next hy =>
    simp only [h, Channel.ofSlot, List.filter_append, hy]
    rw [← Sys.sendsTo, hdrop, List.append_nil]
  · exact h y x

/-- The oldest message is for the slot. -/
theorem channel_deliver (h : ∀ y x, S.channel y x = (K.channel y x).ofSlot s)
    {m : ConsensusMessage} {rest : List ConsensusMessage} (hm : m.header.slot = s) (y x : String) :
    (S.deliver a b m (rest.filter fun m => m.header.slot = s)).channel y x =
      ((K.deliver a b m rest).channel y x).ofSlot s := by
  simp only [Sys.deliver, ClusterState.deliver]
  split
  · simp [h, Channel.ofSlot, hm]
  · exact h y x

/-- The oldest message is for another slot. -/
theorem channel_deliver_other (h : ∀ y x, S.channel y x = (K.channel y x).ofSlot s)
    {m : ConsensusMessage} {rest : List ConsensusMessage} (hm : m.header.slot ≠ s)
    (hchannel : (K.channel b a).inFlight = m :: rest) (y x : String) :
    S.channel y x = ((K.deliver a b m rest).channel y x).ofSlot s := by
  simp only [ClusterState.deliver]
  split
  · next hyx =>
    obtain ⟨rfl, rfl⟩ := hyx
    simp [h, Channel.ofSlot, hchannel, hm]
  · exact h y x

end Channels

/-! ## The nodes of one slot -/

/-- The pointers of every node are in order. -/
structure Sys.Wired (D : Deployment) (S : Sys) : Prop where
  linked : ∀ x ∈ D.addresses, (S.node x).Linked D.slot
  pointersOk : ∀ x ∈ D.addresses, (S.node x).storage.PointersOk

theorem Sys.Wired.step {D : Deployment} {S S' : Sys} {act : Action} (hi : S.Wired D)
    (hb : Base D S) (h : Sys.step D S act = some S') : S'.Wired D := by
  have hnode : ∀ x ∈ D.addresses, (S'.node x).Linked D.slot ∧ (S'.node x).storage.PointersOk := by
    intro x hx
    have hlinked := hi.linked x hx
    have hpointers := hi.pointersOk x hx
    have hstep := hb.nodeStep h x
    generalize S'.node x = n' at hstep ⊢
    cases hstep with
    | other => exact ⟨hlinked, hpointers⟩
    | slot =>
      exact ⟨hlinked.slotMove fun h4 => (hb.known x hx).slot_eq hx h4,
        slotMove_pointersOk hpointers⟩
    | @wake w _ hpc =>
      refine ⟨hlinked.passive rfl (fun _ => ?_) fun _ ho => ho, hpointers⟩
      rw [hpc]
      cases w <;> decide
    | @handle op rest =>
      exact ⟨Node.Linked.exec (n := { S.node x with todo := rest }) hlinked op,
        HandlerOp.exec_pointersOk (n := { S.node x with todo := rest }) hpointers⟩
    | receive => exact ⟨hlinked.passive rfl id fun _ ho => ho, hpointers⟩
  exact ⟨fun x hx => (hnode x hx).1, fun x hx => (hnode x hx).2⟩

theorem Sys.wired_of_reaches {D : Deployment} {S : Sys} {ok : Sys → Action → Prop}
    (hD : ∀ x ∈ D.addresses, (D.storage x).PointersOk)
    (h : Reaches (Sys.step D) ok D.start S) : S.Wired D := by
  have hinit : D.start.Wired D ∧ Base D D.start :=
    ⟨⟨fun x _ p hp => absurd hp (by simp [Deployment.start]), hD⟩, .start D⟩
  exact (h.invariant (I := fun S => S.Wired D ∧ Base D S) hinit fun _ _ _ hi _ hs =>
    ⟨hi.1.step hi.2 hs, hi.2.step hs⟩).1

/-! ## The projection -/

/-- No slot has a synchronization context before the first tick. -/
theorem Cluster.pointersOk (C : Cluster) {x : String} (hx : x ∈ C.addresses) :
    (C.storage x).PointersOk := by
  constructor
  case lt =>
    intro s p hp
    rw [C.condition_eq x hx s] at hp
    cases hp
  case inj =>
    intro s s' p hp
    rw [C.condition_eq x hx s] at hp
    cases hp

/-- What a step of the cluster is for the nodes of one slot. -/
def ClusterState.actionFor (K : ClusterState) : ClusterAction → Option (ℕ × Action)
  | .slot a s => some (s, .slot a)
  | .wake a s => some (s, .wake a)
  | .handle a => some ((K.process a).header.slot, .handle a)
  | .receive a b => (K.channel b a).inFlight.head?.map fun m => (m.header.slot, .receive a b)
  | .createChannel _ _ => none

/-- The nodes of the slot may do what the cluster does. -/
def ClusterState.Permits (C : Cluster) (ok' : Sys → Action → Prop) (K : ClusterState)
    (act : ClusterAction) : Prop :=
  ∀ s b, K.actionFor act = some (s, b) → ∀ S, Projects C s K S → ok' S b

/-- The state of a cluster, with a state of the nodes of each slot. -/
structure Tracks (C : Cluster) (ok' : Sys → Action → Prop) (K : ClusterState) : Prop where
  wired : ∀ x ∈ C.addresses, (K.process x).Wired
  tracked : ∀ s, Tracked (Sys.step (C.deployment s)) ok' (C.deployment s).start (Projects C s) K

namespace Tracks

variable {C : Cluster} {ok' : Sys → Action → Prop} {K K' : ClusterState} {a b x : String} {s : ℕ}

theorem onSlot (h : Tracks C ok' K) (hx : x ∈ C.addresses) (s : ℕ) :
    ((K.process x).run s).OnSlot (C.env x s) :=
  (h.tracked s).elim fun _ hS hp =>
    (hp.node x hx).run.onSlot ((sound_of_reaches hS).voted.inspected.ledger.base.known x hx).onSlot

/-- The table of a process that lives holds the addresses of the cluster. -/
theorem mem_keys (h : Tracks C ok' K) (hx : x ∈ C.addresses) (hf : (K.process x).failure = none)
    (b : String) : b ∈ (K.process x).storage.contexts.keys ↔ b ∈ C.addresses := by
  refine (h.tracked 0).elim fun S hS hp => ?_
  have hl := (sound_of_reaches hS).voted.inspected.ledger.base.known x hx
  have hkeys : (S.node x).storage.contexts.keys = (K.process x).storage.contexts.keys :=
    ((hp.node x hx).alike hf).storage.keys
  rw [← hkeys]
  exact hl.mem_keys b

theorem knownAddresses (h : Tracks C ok' K) (hx : x ∈ C.addresses)
    (hf : (K.process x).failure = none) (s : ℕ) : KnownAddresses (C.env x s) (K.view x s) :=
  (h.tracked s).elim fun _ hS hp => ((hp.node x hx).alike hf).knownAddresses
    (((sound_of_reaches hS).voted.inspected.ledger.base.known x hx).knownAddresses hx)

/-- The message in hand comes from a node of the cluster. -/
theorem address_mem (h : Tracks C ok' K) (hx : x ∈ C.addresses) (hf : (K.process x).failure = none)
    (htodo : (K.process x).todo ≠ []) : (K.process x).header.address ∈ C.addresses := by
  refine (h.tracked (K.process x).header.slot).elim fun S hS hp => ?_
  obtain ⟨hmtodo, hmheader⟩ := (hp.node x hx).mine hf rfl
  have hl := (sound_of_reaches hS).voted.inspected.ledger.base.known x hx
  have hsender := hl.sender (by rwa [hmtodo])
  rw [hmheader htodo] at hsender
  exact hsender.2.1

/-- The messages of a run are for its slot. -/
theorem slot_sends (h : Tracks C ok' K) (hx : x ∈ C.addresses) {y : String} {m : ConsensusMessage}
    (hm : m ∈ Sys.sendsTo (slotSends (C.env x s) (K.view x s)) y) : m.header.slot = s := by
  refine (h.tracked s).elim fun S hS hp => ?_
  have hl := (sound_of_reaches hS).voted.inspected.ledger.base.known x hx
  have hrun : SameRun (K.view x s) (S.node x) := { (hp.node x hx).run with }
  rw [← hrun.slotSends] at hm
  exact (Base.mail_slotSends (D := C.deployment s) hl hx hm).slot

/-- The run and the node of its slot hold pointers that are in order. -/
theorem tied (h : Tracks C ok' K) (hx : x ∈ C.addresses) {S : Sys}
    (hS : Reaches (Sys.step (C.deployment s)) ok' (C.deployment s).start S) :
    Alike.Tied s (K.view x s) (S.node x) := by
  have hwired := Sys.wired_of_reaches (D := C.deployment s) (fun x hx => C.pointersOk hx) hS
  exact ⟨(h.wired x hx).linked s, hwired.linked x hx, (h.wired x hx).pointersOk,
    hwired.pointersOk x hx⟩

/-- The pointers stay in order. -/
theorem wired_setProcess (h : Tracks C ok' K) (ha : a ∈ C.addresses) {p : Process ℕ}
    {act : ProcessAction ℕ} (hstep : (K.process a).step (C.env a) act = some p) :
    ∀ x ∈ C.addresses, ((K.setProcess a p).process x).Wired := by
  intro x hx
  by_cases hxa : x = a
  · simpa [hxa] using
      (h.wired a ha).step (C.env_slot a ha) (C.pending_slot a ha) (h.onSlot ha) hstep
  · simpa [hxa] using h.wired x hx

/-- A node of one slot makes a step, while all others stay as they are. -/
theorem follows_setNode {S : Sys} {p : Process ℕ} {n : Node} (hp : Projects C s K S)
    (hfollows : Follows s p n) :
    ∀ x ∈ C.addresses, Follows s ((K.setProcess a p).process x) ((S.setNode a n).node x) := by
  intro x hx
  by_cases hxa : x = a
  · simpa [hxa] using hfollows
  · simpa [hxa] using hp.node x hx

/-- The nodes of one slot stay as they are. -/
theorem follows_stay {S : Sys} {p : Process ℕ} (hp : Projects C s K S)
    (hfollows : Follows s p (S.node a)) :
    ∀ x ∈ C.addresses, Follows s ((K.setProcess a p).process x) (S.node x) := by
  intro x hx
  by_cases hxa : x = a
  · simpa [hxa] using hfollows
  · simpa [hxa] using hp.node x hx

/-- What a step of the cluster is for the nodes of the slot `s` in the state `S`: nothing, if it is
for another slot or ends a process; or the same step. -/
def Mirrors (C : Cluster) (s : ℕ) (K K' : ClusterState) (act : ClusterAction) (S : Sys) : Prop :=
  Projects C s K' S ∧ ((∀ b, K.actionFor act ≠ some (s, b)) ∨
      ∃ x, act = .slot x s ∧ (K.process x).failure = none ∧ (K'.process x).failure ≠ none) ∨
    ∃ b S', K.actionFor act = some (s, b) ∧ Sys.step (C.deployment s) S b = some S' ∧
      Projects C s K' S'

/-- A call of a run. -/
theorem mirrors_slot (h : Tracks C ok' K) {r : ℕ} (hstep : C.step K (.slot a r) = some K') {S : Sys}
    (hS : Reaches (Sys.step (C.deployment s)) ok' (C.deployment s).start S)
    (hproj : Projects C s K S) : Mirrors C s K K' (.slot a r) S := by
  obtain ⟨ha, p, hp, rfl⟩ := ClusterState.step_slot_eq_some hstep
  have hsound := sound_of_reaches hS
  have hf : (K.process a).failure = none := (Process.step_slot_eq_some hp).1
  by_cases hs : s = r
  · subst hs
    have hl := hsound.voted.inspected.ledger.base.known a ha
    have he := hsound.equipped a ha
    have hserved : Alike.Served (C.env a s) (S.node a) :=
      ⟨fun hpc => he.getByIndex_eq ha hpc, fun hpc => ⟨_, he.update_eq hpc _⟩⟩
    have hrun : SameRun (K.view a s) (S.node a) := { (hproj.node a ha).run with }
    rcases (hproj.node a ha).slot (h.tied ha hS) (C.env_slot a ha s) (C.pending_slot a ha s)
      hl.onSlot hserved hp with ⟨hf, hb, hfollows⟩ | ⟨hnone, hdead, hfollows⟩
    · refine .inr ⟨.slot a, (S.setNode a (slotMove (C.env a s) (S.node a)).1).publish a
        (slotSends (C.env a s) (K.view a s)), rfl, ?_,
        Projects.record ⟨follows_setNode hproj hfollows, ?_⟩⟩
      · rw [← hrun.slotSends, ← slotMove_sends]
        simp [Sys.step, slotStep, hf, hb, ha, Cluster.deployment]
      · exact channel_publish (S := S.setNode a _) (K := K.setProcess a p) hproj.channel
          fun _ _ hm => h.slot_sends ha hm
    · refine .inl ⟨Projects.record ⟨follows_stay hproj hfollows, ?_⟩,
        .inr ⟨a, rfl, hf, by simpa using hdead⟩⟩
      rw [show slotSends (C.env a s) (K.view a s) = [] from hnone]
      exact channel_publish_other (K := K.setProcess a p) hproj.channel
        fun _ _ hm => absurd hm (by simp [Sys.sendsTo])
  · have hother := (hproj.node a ha).slot_other hs (h.wired a ha) (C.env_slot a ha r)
      (C.pending_slot a ha r) (h.onSlot ha r) (h.knownAddresses ha hf r) hp
    refine .inl ⟨Projects.record ⟨follows_stay hproj hother, ?_⟩, .inl fun b hb => ?_⟩
    · exact channel_publish_other (K := K.setProcess a p) hproj.channel fun _ _ hm heq =>
        hs (heq.symm.trans (h.slot_sends ha hm))
    · cases hb
      exact hs rfl

/-- The end of a sleep. -/
theorem mirrors_wake {r : ℕ} (hstep : C.step K (.wake a r) = some K') {S : Sys}
    (hproj : Projects C s K S) : Mirrors C s K K' (.wake a r) S := by
  obtain ⟨ha, p, hp, rfl⟩ := ClusterState.step_wake_eq_some hstep
  by_cases hs : s = r
  · subst hs
    obtain ⟨w, hf, hpc, hfollows⟩ := (hproj.node a ha).wake hp
    refine .inr ⟨.wake a, _, rfl, ?_, follows_setNode hproj hfollows, hproj.channel⟩
    simp [Sys.step, wakeStep, Node.wake, hpc, hf, show a ∈ (C.deployment s).addresses from ha]
  · refine .inl ⟨⟨follows_stay hproj ((hproj.node a ha).wake_other hs hp), hproj.channel⟩,
      .inl fun b hb => ?_⟩
    cases hb
    exact hs rfl

/-- A call of a consensus thread. -/
theorem mirrors_handle (h : Tracks C ok' K) (hstep : C.step K (.handle a) = some K') {S : Sys}
    (hS : Reaches (Sys.step (C.deployment s)) ok' (C.deployment s).start S)
    (hproj : Projects C s K S) : Mirrors C s K K' (.handle a) S := by
  obtain ⟨ha, p, hp, rfl⟩ := ClusterState.step_handle_eq_some hstep
  have hf : (K.process a).failure = none := (Process.step_handle_eq_some hp).1
  by_cases hs : s = (K.process a).header.slot
  · obtain ⟨hnone, op, rest, htodo, hfollows⟩ :=
      (hproj.node a ha).handle (h.tied ha hS) hs.symm hp
    refine .inr ⟨.handle a, _, by rw [hs]; rfl, ?_, follows_setNode hproj hfollows, hproj.channel⟩
    simp [Sys.step, handlerStep, htodo, hnone, show a ∈ (C.deployment s).addresses from ha]
  · refine .inl ⟨⟨follows_stay hproj ((hproj.node a ha).handle_other hs (h.wired a ha) ?_ ?_ hp),
      hproj.channel⟩, .inl fun b hb => ?_⟩
    · exact fun b hb => C.cString b ((h.mem_keys ha hf b).1 hb)
    · exact fun htodo => (h.mem_keys ha hf _).2 (h.address_mem ha hf htodo)
    · cases hb
      exact hs rfl

/-- The receipt of a message. -/
theorem mirrors_receive (hstep : C.step K (.receive a b) = some K') {S : Sys}
    (hproj : Projects C s K S) : Mirrors C s K K' (.receive a b) S := by
  obtain ⟨ha, m, rest, p, hchannel, hp, rfl⟩ := ClusterState.step_receive_eq_some hstep
  by_cases hm : m.header.slot = s
  · obtain ⟨n, hn, hfollows⟩ := (hproj.node a ha).receive hm hp
    have hinFlight : (S.channel b a).inFlight = m :: rest.filter fun m => m.header.slot = s := by
      simp [hproj.channel, Channel.ofSlot, hchannel, hm]
    refine .inr ⟨.receive a b,
      (S.setNode a n).deliver a b m (rest.filter fun m => m.header.slot = s),
      by simp [ClusterState.actionFor, hchannel, hm], ?_, follows_setNode hproj hfollows,
      channel_deliver (S := S.setNode a n) (K := K.setProcess a p) hproj.channel hm⟩
    simp [Sys.step, hinFlight, hn, show a ∈ (C.deployment s).addresses from ha]
  · exact .inl ⟨⟨follows_stay hproj ((hproj.node a ha).receive_other hm hp),
      channel_deliver_other (K := K.setProcess a p) hproj.channel hm hchannel⟩,
      .inl (by simp [ClusterState.actionFor, hchannel, hm])⟩

/-- **One step of the cluster**, seen by the nodes of one slot. -/
theorem mirrors (h : Tracks C ok' K) {act : ClusterAction} (hstep : C.step K act = some K')
    {S : Sys} (hS : Reaches (Sys.step (C.deployment s)) ok' (C.deployment s).start S)
    (hproj : Projects C s K S) : Mirrors C s K K' act S := by
  cases act with
  | slot a r => exact h.mirrors_slot hstep hS hproj
  | wake a r => exact mirrors_wake hstep hproj
  | handle a => exact h.mirrors_handle hstep hS hproj
  | receive a b => exact mirrors_receive hstep hproj
  | createChannel a author =>
    obtain ⟨-, rfl⟩ := ClusterState.step_createChannel_eq_some hstep
    exact .inl ⟨⟨hproj.node, hproj.channel⟩, .inl fun b hb => by cases hb⟩

/-- A step of the cluster is tracked by the nodes of every slot, if they may make it. -/
theorem step (h : Tracks C ok' K) {act : ClusterAction} (hok : K.Permits C ok' act)
    (hstep : C.step K act = some K') : Tracks C ok' K' := by
  constructor
  case tracked =>
    refine fun s => (h.tracked s).move fun S hS hproj => ?_
    rcases h.mirrors hstep hS hproj with ⟨hproj', -⟩ | ⟨b, S', hact, hmove, hproj'⟩
    · exact .inl hproj'
    · exact .inr ⟨b, S', hok s b hact S hproj, hmove, hproj'⟩
  case wired =>
    cases act with
    | slot a r =>
      obtain ⟨ha, p, hp, rfl⟩ := ClusterState.step_slot_eq_some hstep
      simpa using h.wired_setProcess ha hp
    | wake a r =>
      obtain ⟨ha, p, hp, rfl⟩ := ClusterState.step_wake_eq_some hstep
      exact h.wired_setProcess ha hp
    | handle a =>
      obtain ⟨ha, p, hp, rfl⟩ := ClusterState.step_handle_eq_some hstep
      exact h.wired_setProcess ha hp
    | receive a b =>
      obtain ⟨ha, m, rest, p, -, hp, rfl⟩ := ClusterState.step_receive_eq_some hstep
      exact h.wired_setProcess ha hp
    | createChannel a author =>
      obtain ⟨-, rfl⟩ := ClusterState.step_createChannel_eq_some hstep
      exact h.wired

/-- Nothing has begun. -/
theorem start (C : Cluster) (ok' : Sys → Action → Prop) : Tracks C ok' C.start := by
  refine ⟨fun x hx => ⟨C.pointersOk hx, fun s p hp => absurd hp ?_⟩, fun s => .start (.start C s)⟩
  simp [Cluster.start, Process.start, Process.view]

end Tracks

/-- Every state of a run is tracked by the nodes of every slot. -/
theorem Cluster.tracks_of_reaches {C : Cluster} {K : ClusterState}
    {ok : ClusterState → ClusterAction → Prop} (h : Reaches C.step ok C.start K) :
    Tracks C (fun _ _ => True) K :=
  h.invariant (.start C _) fun _ _ _ hi _ hs => hi.step (fun _ _ _ _ _ => trivial) hs

/-- **A cluster projects to each of its slots.**  In every reachable state of a cluster, for every
slot, the nodes of this slot can reach a state in which each of them stands where the process stands
with its run for the slot, with the same block, validator and messages, and in which the channels
carry what those of the cluster carry for the slot. -/
theorem Cluster.projects_to_slots {C : Cluster} {K : ClusterState} (h : Reachable C.step C.start K)
    (s : ℕ) : ∃ S, Reachable (Sys.step (C.deployment s)) (C.deployment s).start S ∧
      Projects C s K S :=
  (Cluster.tracks_of_reaches h).tracked s

/-- The run of `a` for the slot 2 has sent its flag before that for the slot 3, and the flag is
handled: of what is on its way, the nodes of the slot 3 see the other one. -/
theorem Cluster.projects_to_slots_twoNodes : ∃ (K : ClusterState) (S : Sys),
    ((K.process "b").run 2).pc = .inspectionReset ∧ Projects twoNodes 3 K S ∧
      (S.node "b").pc = .initConditions ∧ (S.channel "a" "b").inFlight.length = 1 := by
  obtain ⟨K, hK, h⟩ := exists_reaches twoNodes.step (fun _ _ => True) twoNodes.start
    (List.replicate 7 (.slot "a" 2) ++ List.replicate 7 (.slot "a" 3) ++
      List.replicate 7 (.slot "b" 2) ++ (deliver "b" "a" 6).map (Action.inSlot 2) ++
      List.replicate 2 (.slot "b" 2))
    (fun K => ((K.process "b").run 2).pc = .inspectionReset ∧
      ((K.process "b").run 3).pc = .initConditions ∧
      ((K.channel "a" "b").ofSlot 3).inFlight.length = 1) (by decide +kernel)
  simp only [decide_eq_true_eq] at h
  obtain ⟨S, -, hS⟩ := Cluster.projects_to_slots hK 3
  exact ⟨K, S, h.1, hS, (hS.node "b" (by decide)).run.pc.trans h.2.1, by
    rw [hS.channel, h.2.2]⟩

end BlockchainMessaging
