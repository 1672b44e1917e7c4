import BlockchainMessaging.ClusterProgress
import BlockchainMessaging.Termination

/-!
# All slots come to an end

What a run of the cluster does for one slot is a run of the nodes of this slot, step by step; only a
call of the chain that ends its process is missing there.  So, without collisions, no slot goes on
forever, however many others are on their way.

## Main definitions

* `Cluster.slotActions` — the steps of a run that are for one slot.
* `Cluster.slots_bounded` — there are not many of them.
-/

namespace BlockchainMessaging

section Actions

variable {K : ClusterState} {act : ClusterAction} {s : ℕ}

/-- The step as one for the slot `s`, if it is one. -/
def ClusterState.actionsFor (K : ClusterState) (s : ℕ) (act : ClusterAction) : List Action :=
  match K.actionFor act with
  | some (r, b) => if r = s then [b] else []
  | none => []

theorem ClusterState.actionsFor_eq_nil (h : ∀ b, K.actionFor act ≠ some (s, b)) :
    K.actionsFor s act = [] := by
  rw [actionsFor]
  split
  · next r b hact =>
    refine if_neg ?_
    rintro rfl
    exact h b hact
  · rfl

theorem ClusterState.actionsFor_eq {b : Action} (h : K.actionFor act = some (s, b)) :
    K.actionsFor s act = [b] := by
  simp [actionsFor, h]

/-- The steps of a run that are for the slot `s`. -/
def Cluster.slotActions (C : Cluster) (s : ℕ) : ClusterState → List ClusterAction → List Action
  | _, [] => []
  | K, act :: acts =>
      K.actionsFor s act ++ (C.step K act).elim [] fun K' => C.slotActions s K' acts

end Actions

/-- The processes that have ended. -/
def ClusterState.ended (C : Cluster) (K : ClusterState) : ℕ :=
  C.addresses.countP fun x => (K.process x).failure.isSome

section Ended

variable {C : Cluster} {K K' : ClusterState} {act : ClusterAction}

theorem Cluster.ended_le (hstep : C.step K act = some K') : K.ended C ≤ K'.ended C :=
  List.countP_mono_left fun x _ hx => ClusterState.failure_step hstep x hx

/-- One more process has ended. -/
theorem Cluster.ended_lt (hstep : C.step K act = some K') {x : String} (hx : x ∈ C.addresses)
    (hnone : (K.process x).failure = none) (hsome : (K'.process x).failure ≠ none) :
    K.ended C < K'.ended C :=
  countP_lt_of_one (fun y _ hy => ClusterState.failure_step hstep y hy) hx (by rw [hnone]; rfl)
    (Option.isSome_iff_ne_none.2 hsome)

end Ended

/-- **What a run does for one slot** is a run of the nodes of this slot, but for a last call of each
process that has ended. -/
theorem Cluster.exists_slotActions {C : Cluster} {s : ℕ}
    (acts : List ClusterAction) : ∀ {K K' : ClusterState} {S : Sys}, Tracks C (fun _ _ => True) K →
      Reaches (Sys.step (C.deployment s)) (fun _ _ => True) (C.deployment s).start S →
      Projects C s K S → acts.foldlM C.step K = some K' →
      ∃ (bs : List Action) (S' : Sys), bs.foldlM (Sys.step (C.deployment s)) S = some S' ∧
        Projects C s K' S' ∧ bs.Sublist (C.slotActions s K acts) ∧
        (C.slotActions s K acts).length + K.ended C ≤ bs.length + K'.ended C := by
  induction acts with
  | nil =>
    intro K K' S _ _ hproj h
    cases h
    exact ⟨[], S, rfl, hproj, List.Sublist.refl _, le_rfl⟩
  | cons act acts ih =>
    intro K K' S ht hS hproj h
    rw [List.foldlM_cons, Option.bind_eq_bind, Option.bind_eq_some_iff] at h
    obtain ⟨K₁, hstep, hrun⟩ := h
    have ht₁ := ht.step (fun _ _ _ _ _ => trivial) hstep
    have hmono := Cluster.ended_le hstep
    rw [slotActions, hstep, Option.elim_some, List.length_append]
    rcases ht.mirrors hstep hS hproj with ⟨hproj₁, hmissing⟩ | ⟨b, S₁, hact, hmove, hproj₁⟩
    · -- The nodes of the slot do nothing.
      obtain ⟨bs, S', hbs, hproj', hsub, hle⟩ := ih ht₁ hS hproj₁ hrun
      refine ⟨bs, S', hbs, hproj', hsub.trans (List.sublist_append_right _ _), ?_⟩
      rcases hmissing with hother | ⟨x, rfl, hnone, hsome⟩
      · rw [ClusterState.actionsFor_eq_nil hother, List.length_nil]
        omega
      · have hended := Cluster.ended_lt hstep (ClusterState.step_slot_eq_some hstep).1 hnone hsome
        rw [ClusterState.actionsFor_eq (s := s) (b := .slot x) rfl, List.length_singleton]
        omega
    · -- They make the same step.
      obtain ⟨bs, S', hbs, hproj', hsub, hle⟩ := ih ht₁ (hS.tail trivial hmove) hproj₁ hrun
      rw [ClusterState.actionsFor_eq hact, List.length_singleton]
      refine ⟨b :: bs, S', ?_, hproj', hsub.cons_cons b, ?_⟩
      · rw [List.foldlM_cons, hmove]
        exact hbs
      · rw [List.length_cons]
        omega

/-- **No slot goes on forever**, whatever other slots do: in every run of the cluster without
collisions, the steps for one slot are bounded, but for the sleeps that end for no reason. -/
theorem Cluster.slots_bounded {C : Cluster} (hD : C.Distinct) {acts : List ClusterAction}
    {K : ClusterState} (h : acts.foldlM C.step C.start = some K) (s : ℕ) :
    (C.slotActions s C.start acts).length ≤
      C.addresses.length * (490 + 100 * (C.addresses.length - 1)) +
        4 * (C.slotActions s C.start acts).countP Action.wakes := by
  obtain ⟨bs, S, hbs, -, hsub, hle⟩ :=
    Cluster.exists_slotActions acts (.start C _) .refl (.start C s) h
  have hrun := (C.deployment s).potential_run (hD s) hbs
  have hstart := (C.deployment s).potential_start_le
  have hwakes := hsub.countP_le (p := Action.wakes)
  have hnone : C.start.ended C = 0 := List.countP_eq_zero.2 fun _ _ => Bool.false_ne_true
  have hall : K.ended C ≤ C.addresses.length := List.countP_le_length
  have hsplit : C.addresses.length * (490 + 100 * (C.addresses.length - 1)) =
      C.addresses.length * (489 + 100 * (C.addresses.length - 1)) + C.addresses.length := by
    rw [← Nat.mul_add_one]
    congr 1
    omega
  have haddresses : (C.deployment s).addresses = C.addresses := rfl
  rw [haddresses] at hstart
  omega

set_option maxRecDepth 4000 in
/-- Two slots at once: of the steps, those for the slot 2 are counted. -/
theorem Cluster.slots_bounded_twoNodes : ∃ K : ClusterState,
    overlappingSlots.foldlM twoNodes.step twoNodes.start = some K ∧
      (twoNodes.slotActions 2 twoNodes.start overlappingSlots).length <
        overlappingSlots.length ∧
      (twoNodes.slotActions 2 twoNodes.start overlappingSlots).length ≤
        2 * 590 + 4 * (twoNodes.slotActions 2 twoNodes.start overlappingSlots).countP
          Action.wakes := by
  have hruns : (overlappingSlots.foldlM twoNodes.step twoNodes.start).isSome := by
    decide +kernel
  obtain ⟨K, hK⟩ := Option.isSome_iff_exists.1 hruns
  exact ⟨K, hK, by decide +kernel, Cluster.slots_bounded twoNodes_distinct hK 2⟩

end BlockchainMessaging
