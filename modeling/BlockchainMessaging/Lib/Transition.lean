import Mathlib.Data.List.Induction

/-!
# Runs of a partial step function

A concurrent program is given here by a partial function `step : σ → α → Option σ`: an
action `a` names who moves and how, and `none` says that this action is not possible in
this state.  `Reaches step ok s₀ s` says that some finite run leads from `s₀` to `s`, each
of whose steps met the side condition `ok` in the state before it; `Reachable` is the case
without a side condition.  Every interleaving of the actions is a run, so a property of all
reachable states is a property of all interleavings.

## Main definitions

* `Reaches`, `Reachable` — states at the end of some run.
* `Reaches.invariant` — what one step preserves, every run preserves.
* `runWhile` — execute a list of actions, checking the side condition on the way;
  `exists_reaches` turns a successful execution into a run.
* `exists_foldlM` — an invariant of a state and the actions before it: where each action is
  possible, they can be executed to the end.
* `forall_prefix_iff` — where every action is possible, a run is a fold; an invariant that one
  kind of step may break holds all along if and only if no step breaks it.
-/

namespace BlockchainMessaging

universe u v

variable {σ : Type u} {α : Type v} {step : σ → α → Option σ} {ok ok' : σ → α → Prop}
variable {s₀ s t : σ}

/-- `s` is the end of a run from `s₀` all of whose steps meet `ok`. -/
inductive Reaches (step : σ → α → Option σ) (ok : σ → α → Prop) (s₀ : σ) : σ → Prop
  | refl : Reaches step ok s₀ s₀
  | tail {s t : σ} {a : α} :
      Reaches step ok s₀ s → ok s a → step s a = some t → Reaches step ok s₀ t

/-- `s` is the end of some run from `s₀`. -/
abbrev Reachable (step : σ → α → Option σ) (s₀ s : σ) : Prop :=
  Reaches step (fun _ _ => True) s₀ s

namespace Reaches

/-- **The invariant rule.**  What holds initially and is preserved by every step that meets
the side condition holds at the end of every such run. -/
theorem invariant {I : σ → Prop} (h₀ : I s₀)
    (hstep : ∀ s a t, I s → ok s a → step s a = some t → I t)
    (h : Reaches step ok s₀ s) : I s := by
  induction h with
  | refl => exact h₀
  | tail _ hok hs ih => exact hstep _ _ _ ih hok hs

/-- A weaker side condition admits more runs. -/
theorem mono (hok : ∀ s a, ok s a → ok' s a) (h : Reaches step ok s₀ s) :
    Reaches step ok' s₀ s := by
  induction h with
  | refl => exact .refl
  | tail _ ho hs ih => exact ih.tail (hok _ _ ho) hs

theorem reachable (h : Reaches step ok s₀ s) : Reachable step s₀ s :=
  h.mono fun _ _ _ => trivial

theorem trans (h : Reaches step ok s₀ s) (h' : Reaches step ok s t) :
    Reaches step ok s₀ t := by
  induction h' with
  | refl => exact h
  | tail _ ho hs ih => exact ih.tail ho hs

end Reaches

/-- Execute the actions in order, as long as each is possible and meets `ok`. -/
def runWhile (step : σ → α → Option σ) (ok : σ → α → Prop) [∀ s a, Decidable (ok s a)] :
    σ → List α → Option σ
  | s, [] => some s
  | s, a :: as => if ok s a then (step s a).bind fun t => runWhile step ok t as else none

theorem reaches_of_runWhile [∀ s a, Decidable (ok s a)] (as : List α) :
    ∀ {s t : σ}, runWhile step ok s as = some t → Reaches step ok s t := by
  induction as with
  | nil =>
      intro s t h
      cases h
      exact .refl
  | cons a as ih =>
      intro s t h
      simp only [runWhile] at h
      split at h
      · next hok =>
        obtain ⟨u, hu, ht⟩ := Option.bind_eq_some_iff.1 h
        exact (Reaches.refl.tail hok hu).trans (ih ht)
      · cases h

/-- A successful execution that ends in a state with `P` is a run to such a state. -/
theorem exists_reaches (step : σ → α → Option σ) (ok : σ → α → Prop)
    [∀ s a, Decidable (ok s a)] (s : σ) (as : List α) (P : σ → Bool)
    (h : (runWhile step ok s as).any P = true) : ∃ t, Reaches step ok s t ∧ P t = true := by
  cases hr : runWhile step ok s as with
  | none => simp [hr] at h
  | some t => exact ⟨t, reaches_of_runWhile as hr, by simpa [hr] using h⟩

/-- **The history rule.**  What holds initially of no action, and at each further action makes this
action possible and holds again, holds of all the actions and the state they lead to. -/
theorem exists_foldlM {I : List α → σ → Prop} (h₀ : I [] s₀) (as : List α)
    (hstep : ∀ p s, ∀ a ∈ as, I p s → ∃ t, step s a = some t ∧ I (p ++ [a]) t) :
    ∃ s, as.foldlM step s₀ = some s ∧ I as s := by
  induction as using List.reverseRecOn with
  | nil => exact ⟨s₀, rfl, h₀⟩
  | append_singleton as a ih =>
    obtain ⟨s, hs, hI⟩ := ih fun p s b hb => hstep p s b (List.mem_append_left _ hb)
    obtain ⟨t, ht, hI'⟩ := hstep as s a List.mem_concat_self hI
    refine ⟨t, ?_, hI'⟩
    rw [List.foldlM_append, hs, Option.bind_eq_bind, Option.bind_some, List.foldlM_cons, ht]
    rfl

/-- An invariant that a step keeps if and only if it meets a condition: it holds after each part
of a sequence of actions if and only if each action in it meets the condition. -/
theorem forall_prefix_iff {f : σ → α → σ} {I : σ → Prop} (h₀ : I s₀)
    (hstep : ∀ s a, I s → (I (f s a) ↔ ok s a)) (as : List α) :
    (∀ p, p <+: as → I (p.foldl f s₀)) ↔ ∀ p a, p ++ [a] <+: as → ok (p.foldl f s₀) a := by
  constructor
  · intro hI p a hp
    have h := hI (p ++ [a]) hp
    rw [List.foldl_append] at h
    exact (hstep _ a (hI p ((List.prefix_append p [a]).trans hp))).1 h
  · intro hok p
    induction p using List.reverseRecOn with
    | nil => exact fun _ => h₀
    | append_singleton p a ih =>
      intro hp
      rw [List.foldl_append]
      exact (hstep _ a (ih ((List.prefix_append p [a]).trans hp))).2 (hok p a hp)

end BlockchainMessaging
