import Mathlib.Data.List.TakeWhile
import BlockchainMessaging.Process
import BlockchainMessaging.SingleNode

/-!
# Who takes part

Nobody keeps a list of the participants: a quorum or an election ranges over the addresses that
the table holds.  These are the configured ones, and whatever addresses stood in the headers of
the messages that were handled; nothing else gets into the table, and nothing is ever removed
from it.  So the participants are the configured nodes exactly as long as nobody else writes to
the queue of a node.

## Main definitions

* `Process.Participant` — the addresses that the table may hold.
* `Process.participants` — what that means for a whole run.
-/

namespace BlockchainMessaging

open ConsensusStorage

namespace Process

variable {ι : Type}

/-- The addresses that a node has heard of: from its configuration, or in a header. -/
def heardOf (C : NodeConfiguration) (p : Process ι) : List String :=
  C.addresses ++ p.received.map fun m => m.header.address

/-- An address that the node has heard of, whole or cut at a NUL byte. -/
def Participant (C : NodeConfiguration) (p : Process ι) (a : String) : Prop :=
  ∃ b ∈ heardOf C p, a = b ∨ a = cStr b

end Process

theorem cStr_cStr (a : String) : cStr (cStr a) = cStr a := by
  simp [cStr, List.takeWhile_idem]

/-! ## One run -/

/-- The addresses that a run has taken down. -/
structure Node.Heard (P : String → Prop) (E : SlotEnv) (n : Node) : Prop where
  header : 4 ≤ n.pc.rank → n.context.header.address = E.self
  validator : 16 ≤ n.pc.rank → P n.context.validator

namespace Node.Heard

variable {P P' : String → Prop} {E : SlotEnv} {n n' : Node}

theorem mono (h : n.Heard P E) (hP : ∀ a, P a → P' a) : n.Heard P' E :=
  ⟨h.header, fun h16 => hP _ (h.validator h16)⟩

theorem woken (h : n.Heard P E) (hcontext : n'.context = n.context) (hpc : n.pc.Woken n'.pc) :
    n'.Heard P E := by
  have hrank := hpc.rank_eq
  exact ⟨by rw [hrank, hcontext]; exact h.header, by rw [hrank, hcontext]; exact h.validator⟩

theorem slotMove (h : n.Heard P E) (hc : ∀ a, P a → P (cStr a))
    (hkeys : ∀ a ∈ n.storage.contexts.keys, P a) : (slotMove E n).1.Heard P E := by
  have hcontext := slotMove_context E n
  constructor
  case header =>
    intro h4
    have hback := slotMove_pc (R := fun pc pc' => 4 ≤ pc'.rank → pc = .saveBlock ∨ 4 ≤ pc.rank)
      (by decide +kernel) E n h4
    rw [hcontext]
    by_cases hsave : n.pc = .saveBlock
    · simp [slotContext, hsave, SlotEnv.self]
    · rw [slotContext_header_address _ hsave]
      exact h.header (hback.resolve_left hsave)
  case validator =>
    intro h16
    have hback := slotMove_pc (R := fun pc pc' => 16 ≤ pc'.rank →
      pc = .relayValidator ∧ pc' ≠ .relayValidator ∨ pc ≠ .relayValidator ∧ 16 ≤ pc.rank)
      (by decide +kernel) E n h16
    rw [hcontext]
    rcases hback with ⟨hrelay, hne⟩ | ⟨hrelay, h16⟩
    · obtain ⟨v, hv, -⟩ := slotMove_relayValidator _ hrelay hne
      simp only [slotContext, hrelay, hv]
      exact hc v (hkeys v (markedValidator_eq_some hv).1)
    · rw [(slotContext_validator _ hrelay).1]
      exact h.validator h16

/-- A call of the run names addresses that the node has heard of. -/
theorem names (h : n.Heard P E) (hself : P E.self)
    (hconfigured : ∀ a ∈ n.storage.nodeConfiguration.addresses, P a) {a : String}
    (ha : n.Names E a) : P a := by
  rcases ha with rfl | ha | ⟨hpc, rfl⟩ | ⟨hpc, rfl⟩
  · exact hself
  · exact hconfigured a ha
  · rw [h.header (by rw [hpc]; decide)]
    exact hself
  · have hall : ∀ pc : SlotPc, pc.readsValidator = true → 16 ≤ pc.rank := by decide +kernel
    exact h.validator (hall _ hpc)

end Node.Heard

/-! ## All runs -/

namespace Process

variable {ι : Type} {E : ι → SlotEnv} {C : NodeConfiguration} {p p' : Process ι}

/-- All addresses are addresses that the node has heard of. -/
structure HeardOf (C : NodeConfiguration) (E : ι → SlotEnv) (p : Process ι) : Prop where
  nodeConfiguration : p.storage.nodeConfiguration = C
  keys : ∀ a ∈ p.storage.contexts.keys, Participant C p a
  header : p.todo ≠ [] → Participant C p p.header.address
  run : ∀ r, (p.run r).Heard (Participant C p) (E r)

theorem Participant.cStr {a : String} (h : Participant C p a) : Participant C p (cStr a) := by
  obtain ⟨b, hb, rfl | rfl⟩ := h
  · exact ⟨a, hb, .inr rfl⟩
  · exact ⟨b, hb, .inr (cStr_cStr b)⟩

theorem Participant.mono {ms : List ConsensusMessage} (hreceived : p'.received = p.received ++ ms)
    {a : String} (h : Participant C p a) : Participant C p' a := by
  obtain ⟨b, hb, ha⟩ := h
  refine ⟨b, ?_, ha⟩
  rw [heardOf, hreceived, List.map_append, ← List.append_assoc]
  exact List.mem_append_left _ hb

theorem participant_of_mem {a : String} (h : a ∈ C.addresses) : Participant C p a :=
  ⟨a, List.mem_append_left _ h, .inl rfl⟩

variable [DecidableEq ι]

theorem HeardOf.step (hi : HeardOf C E p) (hE : ∀ r, (E r).configuration = C)
    {act : ProcessAction ι} (h : step E p act = some p') : HeardOf C E p' := by
  have hself : ∀ r, Participant C p (E r).self := fun r => by
    refine participant_of_mem ?_
    rw [SlotEnv.self, hE r]
    exact List.mem_cons_self
  cases act with
  | slot r =>
    obtain ⟨-, -, n, hn, rfl⟩ := step_slot_eq_some h
    have hheard : (p.view (p.run r)).Heard (Participant C p) (E r) :=
      (hi.run r).woken rfl (.inl rfl)
    have hconfigured : ∀ a ∈ (p.view (p.run r)).storage.nodeConfiguration.addresses,
        Participant C p a := by
      intro a ha
      rw [show (p.view (p.run r)).storage = p.storage from rfl, hi.nodeConfiguration] at ha
      exact participant_of_mem ha
    constructor
    case nodeConfiguration =>
      rw [hn, slotMove_nodeConfiguration]
      exact hi.nodeConfiguration
    case keys =>
      rw [hn]
      exact (slotMove_touched (E r) _).within (fun _ => Participant.cStr)
        (fun _ => hheard.names (hself r) hconfigured) hi.keys
    case header => exact hi.header
    case run =>
      intro r'
      by_cases hr : r' = r
      · subst hr
        simp only [Function.update_self, hn]
        exact hheard.slotMove (fun _ => Participant.cStr) hi.keys
      · simp only [Function.update_of_ne hr]
        exact hi.run r'
  | begin r =>
    obtain ⟨-, -, rfl⟩ := step_begin_eq_some h
    refine ⟨hi.nodeConfiguration, hi.keys, hi.header, fun r' => ?_⟩
    by_cases hr : r' = r
    · subst hr
      simp only [Function.update_self]
      exact ⟨fun h4 => absurd h4 (by simp [SlotPc.rank]),
        fun h16 => absurd h16 (by simp [SlotPc.rank])⟩
    · simp only [Function.update_of_ne hr]
      exact hi.run r'
  | init r =>
    obtain ⟨call, calls, -, rfl⟩ := step_init_eq_some h
    constructor
    case nodeConfiguration =>
      rw [call.exec_nodeConfiguration]
      exact hi.nodeConfiguration
    case keys =>
      refine (call.exec_touched _ _).within (fun _ => Participant.cStr) (fun a ha => ?_) hi.keys
      rw [hi.nodeConfiguration] at ha
      exact participant_of_mem ha
    case header => exact hi.header
    case run => exact hi.run
  | wake r =>
    obtain ⟨w, hpc, rfl⟩ := step_wake_eq_some h
    refine ⟨hi.nodeConfiguration, hi.keys, hi.header, fun r' => ?_⟩
    by_cases hr : r' = r
    · subst hr
      simp only [Function.update_self]
      exact (hi.run r').woken rfl (.inr ⟨w, hpc, rfl⟩)
    · simp only [Function.update_of_ne hr]
      exact hi.run r'
  | handle =>
    obtain ⟨-, op, rest, n, htodo, hn, rfl⟩ := step_handle_eq_some h
    have hheader := hi.header (by simp [htodo])
    constructor
    case nodeConfiguration =>
      rw [hn, op.exec_nodeConfiguration]
      exact hi.nodeConfiguration
    case keys =>
      rw [hn]
      exact (op.exec_touched _).within (fun _ => Participant.cStr)
        (fun a ha => by rw [ha]; exact hheader) hi.keys
    case header => exact fun _ => hheader
    case run => exact fun r => (hi.run r).woken (op.exec_context _) (op.exec_pc _)
  | receive m =>
    obtain ⟨-, hstorage, hrun, hreceived, hheader⟩ := step_receive_eq_some h
    constructor
    case nodeConfiguration => rw [hstorage, hi.nodeConfiguration]
    case keys =>
      rw [hstorage]
      exact fun a ha => (hi.keys a ha).mono hreceived
    case header =>
      intro htodo
      refine ⟨m.header.address, ?_, .inl (by rw [hheader htodo])⟩
      rw [heardOf, hreceived]
      simp
    case run =>
      rw [hrun]
      exact fun r => (hi.run r).mono fun _ h => h.mono hreceived

/-- **Who takes part.**  The addresses that a quorum or an election ranges over come from the
configuration and from the headers of the messages that were received.  As long as these headers
hold configured addresses too, and no address has a NUL byte, nobody else takes part, and every
elected validator is the node itself or an address with a remote channel. -/
theorem participants (hE : ∀ r, (E r).configuration = C) {st : ConsensusStorage}
    (hst : st.nodeConfiguration = C) (hkeys : ∀ a ∈ st.contexts.keys, a ∈ C.addresses)
    (hr : Reachable (step E) (start st) p) :
    (∀ a ∈ p.storage.contexts.keys, Participant C p a) ∧
      ((∀ a ∈ C.addresses, cStr a = a) → (∀ m ∈ p.received, m.header.address ∈ C.addresses) →
        (∀ a ∈ p.storage.contexts.keys, a ∈ C.addresses) ∧
          ∀ s v, (p.storage.getValidator s).1 = some v →
            v = C.self.address ∨ v ∈ C.nodes.map NodeInfo.address) := by
  have hinit : HeardOf C E (start st : Process ι) :=
    ⟨hst, fun a ha => participant_of_mem (hkeys a ha), fun h => absurd rfl h,
      fun r => ⟨fun h => by simp [start, SlotPc.rank] at h,
        fun h => by simp [start, SlotPc.rank] at h⟩⟩
  have hi : HeardOf C E p :=
    hr.invariant hinit fun _ _ _ hi _ hstep => hi.step hE hstep
  refine ⟨hi.keys, fun hcString hreceived => ?_⟩
  have hconfigured : ∀ a ∈ p.storage.contexts.keys, a ∈ C.addresses := by
    intro a ha
    obtain ⟨b, hb, hab⟩ := hi.keys a ha
    have hmem : b ∈ C.addresses := by
      rcases List.mem_append.1 hb with hb | hb
      · exact hb
      · obtain ⟨m, hm, rfl⟩ := List.mem_map.1 hb
        exact hreceived m hm
    rcases hab with rfl | rfl
    · exact hmem
    · rwa [hcString b hmem]
  refine ⟨hconfigured, fun s v hv => ?_⟩
  obtain ⟨w, hw, rfl⟩ := Option.map_eq_some_iff.1 hv
  have hmem := hconfigured w (markedValidator_eq_some hw).1
  rw [hcString w hmem]
  simpa [NodeConfiguration.addresses] using hmem

end Process

/-! ## A stranger -/

/-- All runs work on slot 2, as the node `a` with the peer `b`. -/
def receiverProcess : Process ℕ := .start (emptyStorage receiver)

/-- A message for slot 2, with all the calls it may take to handle it. -/
def handled (operation : ConsensusOperation) (b : String) (body : ConsensusBody) (calls : ℕ) :
    List (ProcessAction ℕ) :=
  .receive (plainMessage operation b 2 body) :: List.replicate calls .handle

set_option maxRecDepth 4000 in
/-- Among `a` and `b` the validator is `b`. -/
theorem Process.participants_pair : ∃ p : Process ℕ, (p.storage.getValidator 2).1 = some "b" ∧
    ∀ a ∈ p.storage.contexts.keys, a ∈ receiver.configuration.addresses := by
  obtain ⟨p, hr, hp⟩ := exists_reaches (Process.step fun _ : ℕ => receiver) (fun _ _ => True)
    receiverProcess
    (List.replicate 7 (.slot 0) ++ handled .INSPECTION "b" (.contribution true) 6 ++
      List.replicate 5 (.slot 0) ++ handled .ELECTION "b" (.electionValue 6) 4 ++
      List.replicate 5 (.slot 0))
    (fun p => (p.storage.getValidator 2).1 = some "b" ∧
      ∀ m ∈ p.received, m.header.address ∈ receiver.configuration.addresses) (by decide +kernel)
  simp only [decide_eq_true_eq] at hp
  exact ⟨p, hp.1, ((participants (fun _ => rfl) rfl (fun a ha => by cases ha) hr).2
    (by decide +kernel) hp.2).1⟩

/-- The contribution of `z`, which is not configured, makes it a participant. -/
theorem Process.not_participants_stranger :
    ¬ ∀ p : Process ℕ, Reachable (Process.step fun _ : ℕ => receiver) receiverProcess p →
      ∀ a ∈ p.storage.contexts.keys, a ∈ receiver.configuration.addresses := by
  intro hall
  obtain ⟨p, hr, hp⟩ := exists_reaches (Process.step fun _ : ℕ => receiver) (fun _ _ => True)
    receiverProcess (handled .INSPECTION "z" (.contribution true) 2)
    (fun p => "z" ∈ p.storage.contexts.keys) (by decide +kernel)
  exact absurd (hall p hr "z" (by simpa using hp)) (by decide +kernel)

end BlockchainMessaging
