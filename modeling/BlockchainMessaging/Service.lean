import BlockchainMessaging.Lib.Simulation
import BlockchainMessaging.BufferRuns
import BlockchainMessaging.Cluster

/-!
# The cluster with its buffers

What a run collects is what it finds in the buffer of its node, and that is shared by all runs of
the node and by the thread that receives the messages of the clients.  `PendingBlockSaver::save`
locks the buffer twice, for `save` and for `pop`, before it appends the block; in between other runs
may come and take what this one has saved.

In `Cluster` the popped blocks are given from the start.  Here they come out of the buffers.  Since
a run does not look at its block before it appends it, a run of the whole system can be replayed in
a cluster to which the blocks were given beforehand; for this the popped blocks have to belong to
the slots of the runs that have popped them.

## Main definitions

* `Taking` — what a run pops.
* `ServiceState`, `ServiceAction`, `Cluster.serve` — the system.
* `Cluster.popping` — the cluster to which the blocks were given.
* `Served`, `Cluster.served_of_reaches` — the replay.
-/

namespace BlockchainMessaging

/-! ## What a run pops -/

/-- What a run gets from `buffer.pop()`, and the clock when it makes an empty block instead. -/
structure Taking where
  popped : Option Block
  queued : ∀ b ∈ popped, b.data ≠ [] ∧ b.state = .PENDING
  now : ℕ

namespace Taking

theorem queued_none : ∀ b ∈ (none : Option Block), b.data ≠ [] ∧ b.state = .PENDING := by simp

/-- Nothing, at the begin of the slot `s`. -/
def idle (s : ℕ) : Taking := ⟨none, queued_none, s * Time.SLOT⟩

/-- The block that is made of it. -/
def block (t : Taking) : Block := t.popped.getD (Block.ofData t.now [])

/-- The same run, popping this. -/
def env (t : Taking) (E : SlotEnv) : SlotEnv :=
  { E with
    popped := t.popped
    popped_queued := t.queued
    now := t.now }

theorem slot_idle (s : ℕ) : (idle s).block.slot = s :=
  Nat.mul_div_cancel s (show 0 < Time.SLOT by decide)

/-- Only the call that appends the block looks at what was popped. -/
theorem slotMove_env (t : Taking) (E : SlotEnv) {n : Node} (h : n.pc ≠ .saveAdd) :
    slotMove (t.env E) n = slotMove E n := by
  cases hpc : n.pc with
  | saveAdd => exact absurd hpc h
  | _ => simp only [slotMove, hpc] <;> rfl

end Taking

/-! ## The system -/

/-- The state of the cluster and of its buffers. -/
structure ServiceState where
  cluster : ClusterState
  /-- The buffer of a node, and which call its runs make next. -/
  buffer : String → BufferRuns ℕ
  /-- What the runs of a node have popped. -/
  taking : String → ℕ → Taking
  /-- The slots whose runs have popped, in this order. -/
  popped : String → List ℕ

/-- Who moves, and how. -/
inductive ServiceAction
  /-- `a` receives a message of a client. -/
  | push (a : String) (message : Message)
  /-- The run of `a` for the slot `s` calls `buffer.save()` when the clock shows `now`. -/
  | save (a : String) (s now : ℕ)
  /-- It calls `buffer.pop()`, and looks at the clock if there is nothing. -/
  | pop (a : String) (s now : ℕ)
  /-- Any other step. -/
  | move (act : ClusterAction)
  deriving DecidableEq, Repr

namespace ServiceState

/-- The run of `a` for the slot `s` is in `PendingBlockSaver::save`, and its process is alive. -/
def Saving (L : ServiceState) (a : String) (s : ℕ) : Prop :=
  ((L.cluster.process a).run s).pc = .saveAdd ∧ (L.cluster.process a).failure = none

instance (L : ServiceState) (a : String) (s : ℕ) : Decidable (L.Saving a s) :=
  inferInstanceAs (Decidable (_ ∧ _))

/-- A run appends its block after it has popped. -/
def HasPopped (L : ServiceState) : ClusterAction → Prop
  | .slot a s => ((L.cluster.process a).run s).pc = .saveAdd → (L.buffer a).call s = .done
  | _ => True

instance (L : ServiceState) (act : ClusterAction) : Decidable (L.HasPopped act) :=
  match act with
  | .slot _ _ => inferInstanceAs (Decidable (_ → _))
  | .wake _ _ => inferInstanceAs (Decidable True)
  | .handle _ => inferInstanceAs (Decidable True)
  | .receive _ _ => inferInstanceAs (Decidable True)
  | .createChannel _ _ => inferInstanceAs (Decidable True)

/-- What the run of `a` for the slot `s` finds in the buffer. -/
def take (L : ServiceState) (a : String) (now : ℕ) : Taking :=
  ⟨(L.buffer a).buffer.pop.1, Buffer.queued_of_pop, now⟩

/-- Replace one buffer. -/
def setBuffer (L : ServiceState) (a : String) (b : BufferRuns ℕ) : ServiceState :=
  { L with buffer := Function.update L.buffer a b }

/-- What the runs take from outside. -/
def env (L : ServiceState) (C : Cluster) (a : String) (s : ℕ) : SlotEnv :=
  (L.taking a s).env (C.env a s)

/-- What is popped, or made, belongs to the slot of the run. -/
def Punctual (L : ServiceState) : ServiceAction → Prop
  | .pop a s now => (L.take a now).block.slot = s
  | _ => True

instance (L : ServiceState) (act : ServiceAction) : Decidable (L.Punctual act) :=
  match act with
  | .push _ _ => inferInstanceAs (Decidable True)
  | .save _ _ _ => inferInstanceAs (Decidable True)
  | .pop _ _ _ => inferInstanceAs (Decidable (_ = _))
  | .move _ => inferInstanceAs (Decidable True)

end ServiceState

namespace Cluster

/-- One step of the system. -/
def serve (C : Cluster) (L : ServiceState) : ServiceAction → Option ServiceState
  | .push a message =>
      if a ∈ C.addresses then ((L.buffer a).step (.push message)).map (L.setBuffer a) else none
  | .save a s now =>
      if a ∈ C.addresses ∧ L.Saving a s then
        ((L.buffer a).step (.save s now)).map (L.setBuffer a)
      else none
  | .pop a s now =>
      if a ∈ C.addresses ∧ L.Saving a s then
        ((L.buffer a).step (.pop s)).map fun b => { L.setBuffer a b with
          taking := Function.update L.taking a
            (Function.update (L.taking a) s (L.take a now))
          popped := Function.update L.popped a (L.popped a ++ [s]) }
      else none
  | .move act =>
      if L.HasPopped act then
        (L.cluster.step C.addresses (L.env C) act).map fun K => { L with cluster := K }
      else none

/-- Nothing has begun, and the buffers are empty. -/
def opening (C : Cluster) : ServiceState where
  cluster := C.start
  buffer := fun _ => .start ℕ
  taking := fun _ s => .idle s
  popped := fun _ => []

/-- The cluster to whose runs these blocks were given. -/
def popping (C : Cluster) (taking : String → ℕ → Taking)
    (hslot : ∀ a s, (taking a s).block.slot = s) : Cluster :=
  { C with
    env := fun a s => (taking a s).env (C.env a s)
    archive_eq := C.archive_eq
    self_eq := C.self_eq
    mem_remotes := C.mem_remotes
    nodup_remotes := C.nodup_remotes
    env_slot := C.env_slot
    pending_slot := fun a _ s => hslot a s
    configuration_eq := C.configuration_eq }

/-- **A block may be given beforehand** to a run that has not appended it yet. -/
theorem replay_popping {C : Cluster} {taking taking' : String → ℕ → Taking}
    {hslot : ∀ a s, (taking a s).block.slot = s} {hslot' : ∀ a s, (taking' a s).block.slot = s}
    {a : String} {s : ℕ} (heq : ∀ b r, ¬ (b = a ∧ r = s) → taking' b r = taking b r)
    {ok : ClusterState → ClusterAction → Prop} {K₀ K : ClusterState}
    (h : Reaches (C.popping taking hslot).step ok K₀ K)
    (hK : ((K.process a).run s).pc.rank < 3) :
    Reaches (C.popping taking' hslot').step ok K₀ K := by
  refine h.replay (fun K => 3 ≤ ((K.process a).run s).pc.rank)
    (fun K act K' hstep hused => hused.trans (rank_le hstep a s)) (fun K act K' hstep hnot => ?_)
    (by omega)
  rw [← hstep]
  refine ClusterState.step_env fun b r hact => ?_
  by_cases hbr : b = a ∧ r = s
  · obtain ⟨rfl, rfl⟩ := hbr
    subst hact
    have hpc : (K.view b r).pc ≠ .saveAdd := by
      intro hpc
      apply hnot
      rw [(run_slot hstep).2]
      simp [slotMove, hpc, SlotPc.rank]
    exact ((taking' b r).slotMove_env _ hpc).trans ((taking b r).slotMove_env _ hpc).symm
  · simp only [popping, heq b r hbr]

end Cluster

/-! ## What is in the buffers -/

namespace BufferRuns

variable {ι : Type} [DecidableEq ι] {b b' : BufferRuns ι} {r : ι}

theorem step_save_eq_some {now : ℕ} (h : b.step (.save r now) = some b') :
    b.call r = .save ∧ b' = { b with
      buffer := b.buffer.save now
      call := Function.update b.call r .pop } := by
  simp only [step] at h
  split at h
  · next hcall => exact ⟨hcall, (Option.some.inj h).symm⟩
  · cases h

theorem step_pop_eq_some (h : b.step (.pop r) = some b') :
    b.call r = .pop ∧ b' = { b with
      buffer := b.buffer.pop.2
      call := Function.update b.call r .done
      popped := b.popped ++ b.buffer.pop.1.toList } := by
  simp only [step] at h
  split at h
  · next hcall => exact ⟨hcall, (Option.some.inj h).symm⟩
  · cases h

end BufferRuns

namespace Cluster

variable {C : Cluster} {L L' : ServiceState} {a : String} {s now : ℕ}

theorem serve_push_eq_some {message : Message} (h : C.serve L (.push a message) = some L') :
    a ∈ C.addresses ∧
      ∃ b, (L.buffer a).step (.push message) = some b ∧ L' = L.setBuffer a b := by
  simp only [serve] at h
  split at h
  · next ha =>
    obtain ⟨b, hb, rfl⟩ := Option.map_eq_some_iff.1 h
    exact ⟨ha, b, hb, rfl⟩
  · cases h

theorem serve_save_eq_some (h : C.serve L (.save a s now) = some L') :
    ∃ b, (L.buffer a).step (.save s now) = some b ∧ L' = L.setBuffer a b := by
  simp only [serve] at h
  split at h
  · obtain ⟨b, hb, rfl⟩ := Option.map_eq_some_iff.1 h
    exact ⟨b, hb, rfl⟩
  · cases h

theorem serve_pop_eq_some (h : C.serve L (.pop a s now) = some L') :
    a ∈ C.addresses ∧ ((L.cluster.process a).run s).pc = .saveAdd ∧
      ∃ b, (L.buffer a).step (.pop s) = some b ∧ L' = { L.setBuffer a b with
        taking := Function.update L.taking a (Function.update (L.taking a) s (L.take a now))
        popped := Function.update L.popped a (L.popped a ++ [s]) } := by
  simp only [serve] at h
  split at h
  · next hsaving =>
    obtain ⟨b, hb, rfl⟩ := Option.map_eq_some_iff.1 h
    exact ⟨hsaving.1, hsaving.2.1, b, hb, rfl⟩
  · cases h

theorem serve_move_eq_some {act : ClusterAction} (h : C.serve L (.move act) = some L') :
    L.HasPopped act ∧ ∃ K, L.cluster.step C.addresses (L.env C) act = some K ∧
      L' = { L with cluster := K } := by
  simp only [serve] at h
  split at h
  · next hpopped =>
    obtain ⟨K, hK, rfl⟩ := Option.map_eq_some_iff.1 h
    exact ⟨hpopped, K, hK, rfl⟩
  · cases h

end Cluster

/-- What was popped is known: by which run, once, and that it belongs to its slot. -/
structure Supplied (L : ServiceState) : Prop where
  slot_eq : ∀ a s, (L.taking a s).block.slot = s
  buffer : ∀ a, (L.buffer a).Inv
  nodup : ∀ a, (L.popped a).Nodup
  mem_popped : ∀ a s, s ∈ L.popped a ↔ (L.buffer a).call s = .done
  blocks : ∀ a, (L.buffer a).popped =
    (L.popped a).flatMap fun s => (L.taking a s).popped.toList
  idle : ∀ a s, s ∉ L.popped a → L.taking a s = .idle s
  done : ∀ a s, 3 ≤ ((L.cluster.process a).run s).pc.rank → s ∈ L.popped a

namespace Supplied

variable {C : Cluster} {L L' : ServiceState} {a : String} {s : ℕ}

theorem start (C : Cluster) : Supplied C.opening where
  slot_eq _ s := Taking.slot_idle s
  buffer _ := BufferRuns.inv_start
  nodup _ := List.nodup_nil
  mem_popped _ _ := by simp [Cluster.opening, BufferRuns.start]
  blocks _ := rfl
  idle _ _ _ := rfl
  done _ _ hrank := by simp [Cluster.opening, Cluster.start, Process.start, SlotPc.rank] at hrank

/-- A push, or a save. -/
theorem setBuffer (h : Supplied L) {b : BufferRuns ℕ} (hinv : b.Inv)
    (hpopped : b.popped = (L.buffer a).popped)
    (hcall : ∀ s, b.call s = .done ↔ (L.buffer a).call s = .done) :
    Supplied (L.setBuffer a b) where
  slot_eq := h.slot_eq
  buffer x := by
    by_cases hx : x = a
    · subst hx
      simpa [ServiceState.setBuffer] using hinv
    · simpa [ServiceState.setBuffer, hx] using h.buffer x
  nodup := h.nodup
  mem_popped x s := by
    by_cases hx : x = a
    · subst hx
      simpa [ServiceState.setBuffer, hcall] using h.mem_popped x s
    · simpa [ServiceState.setBuffer, hx] using h.mem_popped x s
  blocks x := by
    by_cases hx : x = a
    · subst hx
      simpa [ServiceState.setBuffer, hpopped] using h.blocks x
    · simpa [ServiceState.setBuffer, hx] using h.blocks x
  idle := h.idle
  done := h.done

/-- A pop. -/
theorem pop (h : Supplied L) {b : BufferRuns ℕ} {now : ℕ} (hslot : (L.take a now).block.slot = s)
    (hb : (L.buffer a).step (.pop s) = some b) :
    Supplied { L.setBuffer a b with
      taking := Function.update L.taking a (Function.update (L.taking a) s (L.take a now))
      popped := Function.update L.popped a (L.popped a ++ [s]) } := by
  have hinv := (h.buffer a).step hb
  obtain ⟨hcall, rfl⟩ := BufferRuns.step_pop_eq_some hb
  have hnew : s ∉ L.popped a := by
    intro hmem
    rw [h.mem_popped, hcall] at hmem
    cases hmem
  constructor
  case slot_eq =>
    intro x r
    by_cases hx : x = a
    · subst hx
      by_cases hr : r = s
      · subst hr
        simpa using hslot
      · simpa [hr] using h.slot_eq x r
    · simpa [hx] using h.slot_eq x r
  case buffer =>
    intro x
    by_cases hx : x = a
    · subst hx
      simpa [ServiceState.setBuffer] using hinv
    · simpa [ServiceState.setBuffer, hx] using h.buffer x
  case nodup =>
    intro x
    by_cases hx : x = a
    · subst hx
      simpa using (h.nodup x).append (List.nodup_singleton s) (by simpa using hnew)
    · simpa [hx] using h.nodup x
  case mem_popped =>
    intro x r
    by_cases hx : x = a
    · subst hx
      by_cases hr : r = s
      · simp [ServiceState.setBuffer, hr]
      · simpa [ServiceState.setBuffer, hr] using h.mem_popped x r
    · simpa [ServiceState.setBuffer, hx] using h.mem_popped x r
  case blocks =>
    intro x
    by_cases hx : x = a
    · subst hx
      have hold : ((L.popped x).flatMap fun r =>
          (Function.update (L.taking x) s (L.take x now) r).popped.toList) =
          (L.popped x).flatMap fun r => (L.taking x r).popped.toList :=
        List.flatMap_congr fun r hr => by
          rw [Function.update_of_ne]
          rintro rfl
          exact hnew hr
      have hpop : (L.buffer x).buffer.pop.1 = (L.take x now).popped := rfl
      simp [ServiceState.setBuffer, hold, h.blocks x, hpop]
    · simpa [ServiceState.setBuffer, hx] using h.blocks x
  case idle =>
    intro x r hr
    by_cases hx : x = a
    · subst hx
      simp only [Function.update_self, List.mem_append, List.mem_singleton, not_or] at hr
      simpa [hr.2] using h.idle x r hr.1
    · simp only [Function.update_of_ne hx] at hr
      simpa [hx] using h.idle x r hr
  case done =>
    intro x r hrank
    have hmem := h.done x r hrank
    by_cases hx : x = a
    · subst hx
      simp [hmem]
    · simpa [hx] using hmem

/-- **One step** of the system. -/
theorem step (h : Supplied L) {act : ServiceAction} (hok : L.Punctual act)
    (hstep : C.serve L act = some L') : Supplied L' := by
  cases act with
  | push a message =>
    obtain ⟨-, b, hb, rfl⟩ := Cluster.serve_push_eq_some hstep
    have hinv := (h.buffer a).step hb
    cases hb
    exact h.setBuffer hinv rfl fun _ => .rfl
  | save a s now =>
    obtain ⟨b, hb, rfl⟩ := Cluster.serve_save_eq_some hstep
    have hinv := (h.buffer a).step hb
    obtain ⟨hcall, rfl⟩ := BufferRuns.step_save_eq_some hb
    refine h.setBuffer hinv rfl fun r => ?_
    by_cases hr : r = s
    · simp [hr, hcall]
    · simp [hr]
  | pop a s now =>
    obtain ⟨-, -, b, hb, rfl⟩ := Cluster.serve_pop_eq_some hstep
    exact h.pop hok hb
  | move act =>
    obtain ⟨hpopped, K, hK, rfl⟩ := Cluster.serve_move_eq_some hstep
    have hcluster : (C.popping L.taking h.slot_eq).step L.cluster act = some K := hK
    refine { h with done := fun a s hrank => ?_ }
    by_cases hact : act = .slot a s
    · subst hact
      obtain ⟨-, hrun⟩ := Cluster.run_slot hcluster
      -- Either the run was beyond the call that appends, or this was the call.
      have hpc := slotMove_pc (R := fun pc pc' => 3 ≤ pc'.rank → 3 ≤ pc.rank ∨ pc = .saveAdd)
        (by decide +kernel) ((C.popping L.taking h.slot_eq).env a s) (L.cluster.view a s)
      rw [hrun] at hrank
      rcases hpc hrank with hbefore | hadd
      · exact h.done a s hbefore
      · exact (h.mem_popped a s).2 (hpopped hadd)
    · rw [(Cluster.run_other hact hcluster).rank_eq] at hrank
      exact h.done a s hrank

/-- What the cluster has done so far, it may do with the blocks that are known after the step. -/
theorem replay (h : Supplied L) {act : ServiceAction} (hok : L.Punctual act)
    (hstep : C.serve L act = some L') {ok : ClusterState → ClusterAction → Prop}
    {K₀ K : ClusterState} (hreach : Reaches (C.popping L.taking h.slot_eq).step ok K₀ K)
    (hbefore : ∀ a s, ((K.process a).run s).pc.rank ≤ ((L.cluster.process a).run s).pc.rank) :
    Reaches (C.popping L'.taking (h.step hok hstep).slot_eq).step ok K₀ K := by
  cases act with
  | push a message =>
    obtain ⟨-, b, -, rfl⟩ := Cluster.serve_push_eq_some hstep
    exact hreach
  | save a s now =>
    obtain ⟨b, -, rfl⟩ := Cluster.serve_save_eq_some hstep
    exact hreach
  | pop a s now =>
    obtain ⟨-, hpc, b, -, rfl⟩ := Cluster.serve_pop_eq_some hstep
    have hrank : ((L.cluster.process a).run s).pc.rank < 3 := by
      rw [hpc]
      decide
    refine Cluster.replay_popping (a := a) (s := s) (fun x r hne => ?_) hreach
      ((hbefore a s).trans_lt hrank)
    by_cases hx : x = a
    · subst hx
      have hr : r ≠ s := fun hr => hne ⟨rfl, hr⟩
      simp [hr]
    · simp [hx]
  | move act =>
    obtain ⟨-, K', -, rfl⟩ := Cluster.serve_move_eq_some hstep
    exact hreach

/-- The cluster makes a step or none. -/
theorem advance (h : Supplied L) {act : ServiceAction} (hok : L.Punctual act)
    (hstep : C.serve L act = some L') {ok : ClusterState → ClusterAction → Prop}
    (hmove : ∀ k, act = .move k → ok L.cluster k) :
    Reaches (C.popping L'.taking (h.step hok hstep).slot_eq).step ok L.cluster L'.cluster := by
  cases act with
  | push a message =>
    obtain ⟨-, b, -, rfl⟩ := Cluster.serve_push_eq_some hstep
    exact .refl
  | save a s now =>
    obtain ⟨b, -, rfl⟩ := Cluster.serve_save_eq_some hstep
    exact .refl
  | pop a s now =>
    obtain ⟨-, -, b, -, rfl⟩ := Cluster.serve_pop_eq_some hstep
    exact .refl
  | move act =>
    obtain ⟨-, K', hK', rfl⟩ := Cluster.serve_move_eq_some hstep
    exact Reaches.refl.tail (hmove act rfl) hK'

end Supplied

/-- **The replay.**  What the system has done between two states of a run, the cluster does to which
the blocks were given that have been popped in the end. -/
theorem Cluster.supplied_of_reaches {C : Cluster} {okS : ServiceState → ServiceAction → Prop}
    (ok : ClusterState → ClusterAction → Prop) (hpunctual : ∀ L act, okS L act → L.Punctual act)
    (hmove : ∀ L act, okS L (.move act) → ok L.cluster act) {L₀ L : ServiceState}
    (h₀ : Reaches C.serve okS C.opening L₀) (h : Reaches C.serve okS L₀ L) :
    ∃ hs : Supplied L,
      Reaches (C.popping L.taking hs.slot_eq).step ok C.start L₀.cluster ∧
        Reaches (C.popping L.taking hs.slot_eq).step ok L₀.cluster L.cluster := by
  have hstart : ∃ hs : Supplied L₀,
      Reaches (C.popping L₀.taking hs.slot_eq).step ok C.start L₀.cluster := by
    refine h₀.invariant (I := fun L => ∃ hs : Supplied L,
      Reaches (C.popping L.taking hs.slot_eq).step ok C.start L.cluster) ⟨.start C, .refl⟩ ?_
    rintro L act L' ⟨hs, hreach⟩ hok hstep
    have hp := hpunctual L act hok
    refine ⟨hs.step hp hstep, (hs.replay hp hstep hreach fun _ _ => le_rfl).trans ?_⟩
    exact hs.advance hp hstep (by
      rintro k rfl
      exact hmove L k hok)
  obtain ⟨hs₀, hreach₀⟩ := hstart
  refine h.invariant (I := fun L => ∃ hs : Supplied L,
    Reaches (C.popping L.taking hs.slot_eq).step ok C.start L₀.cluster ∧
      Reaches (C.popping L.taking hs.slot_eq).step ok L₀.cluster L.cluster) ⟨hs₀, hreach₀, .refl⟩ ?_
  rintro L act L' ⟨hs, hbefore, hsince⟩ hok hstep
  have hp := hpunctual L act hok
  have hrank := Cluster.rank_le_of_reaches hsince
  refine ⟨hs.step hp hstep, hs.replay hp hstep hbefore hrank,
    (hs.replay hp hstep hsince fun _ _ => le_rfl).trans ?_⟩
  exact hs.advance hp hstep (by
    rintro k rfl
    exact hmove L k hok)

end BlockchainMessaging
