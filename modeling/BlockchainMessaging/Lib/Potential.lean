import BlockchainMessaging.Lib.Transition
import Mathlib.Algebra.BigOperators.Group.Finset.Piecewise
import Mathlib.Algebra.GroupWithZero.Nat
import Mathlib.Algebra.Order.BigOperators.Group.Finset

/-!
# Potentials of runs

A run of a partial step function ends when each action uses up some of a potential.  Where some
actions put something back, the length of the run is bounded by the initial potential and by what
was put back on the way.

## Main definitions

* `length_add_le`, `exists_reaches_end` — the rules.
* `sum_add_le_of_one`, `sum_length_filterMap_le`, `countP_lt_of_one` — potentials that are sums over
  the members of a system.
-/

namespace BlockchainMessaging

universe u v

variable {σ : Type u} {α : Type v} {step : σ → α → Option σ}

/-- **The potential rule.**  If each action uses up one unit, and puts back at most `gain`, a run
has no more actions than there are units. -/
theorem length_add_le {I : σ → Prop} {Φ : σ → ℕ} {gain : α → ℕ}
    (hstep : ∀ s a t, I s → step s a = some t → I t ∧ Φ t + 1 ≤ Φ s + gain a) (as : List α) :
    ∀ {s t : σ}, I s → as.foldlM step s = some t →
      Φ t + as.length ≤ Φ s + (as.map gain).sum := by
  induction as with
  | nil =>
    intro s t _ h
    cases h
    simp
  | cons a as ih =>
    intro s t hs h
    rw [List.foldlM_cons, Option.bind_eq_bind, Option.bind_eq_some_iff] at h
    obtain ⟨u, hu, ht⟩ := h
    obtain ⟨hI, hle⟩ := hstep s a u hs hu
    have hrest := ih hI ht
    rw [List.length_cons, List.map_cons, List.sum_cons]
    omega

/-- **The rule for ends.**  If from each state with the invariant that is not an end a run leads
to less potential, then from each of them a run leads to an end. -/
theorem exists_reaches_end {ok : σ → α → Prop} {I P : σ → Prop} {Φ : σ → ℕ}
    (hI : ∀ s a t, I s → ok s a → step s a = some t → I t)
    (hrun : ∀ s, I s → P s ∨ ∃ t, Reaches step ok s t ∧ Φ t < Φ s) :
    ∀ {s : σ}, I s → ∃ t, Reaches step ok s t ∧ I t ∧ P t := by
  intro s hs
  induction hn : Φ s using Nat.strongRecOn generalizing s with
  | ind n ih =>
    subst hn
    rcases hrun s hs with hP | ⟨t, ht, hlt⟩
    · exact ⟨s, .refl, hs, hP⟩
    · obtain ⟨u, hu, hIu, hPu⟩ := ih _ hlt (ht.invariant hs hI) rfl
      exact ⟨u, ht.trans hu, hIu, hPu⟩

/-! ## Sums over the members -/

variable {ι : Type v}

/-- One member more has a property that the others keep. -/
theorem countP_lt_of_one {l : List ι} {p q : ι → Bool} (hkeep : ∀ x ∈ l, p x = true → q x = true)
    {a : ι} (ha : a ∈ l) (hp : p a = false) (hq : q a = true) : l.countP p < l.countP q := by
  obtain ⟨before, after, rfl⟩ := List.append_of_mem ha
  have hbefore : before.countP p ≤ before.countP q :=
    List.countP_mono_left fun x hx => hkeep x (List.mem_append_left _ hx)
  have hafter : after.countP p ≤ after.countP q :=
    List.countP_mono_left fun x hx =>
      hkeep x (List.mem_append_right _ (List.mem_cons_of_mem a hx))
  simp only [List.countP_append, List.countP_cons, hp, hq, if_true, Bool.false_eq_true, if_false]
  omega

variable [DecidableEq ι] {s : Finset ι} {f g : ι → ℕ}

/-- A sum of which one member changes. -/
theorem sum_add_le_of_one {a : ι} (ha : a ∈ s) (hother : ∀ x ∈ s, x ≠ a → g x ≤ f x) {k m : ℕ}
    (hself : g a + k ≤ f a + m) : ∑ x ∈ s, g x + k ≤ ∑ x ∈ s, f x + m := by
  have hrest : ∑ x ∈ s.erase a, g x ≤ ∑ x ∈ s.erase a, f x := by
    refine Finset.sum_le_sum fun x hx => ?_
    rw [Finset.mem_erase] at hx
    exact hother x hx.2 hx.1
  have hf := Finset.add_sum_erase s f ha
  have hg := Finset.add_sum_erase s g ha
  omega

/-- Every element of a list goes to one member at most. -/
theorem sum_length_filterMap_le {β γ : Type u} (s : Finset ι) (target : β → ι) (value : β → γ)
    (l : List β) :
    ∑ x ∈ s, (l.filterMap fun b => if target b = x then some (value b) else none).length ≤
      l.length := by
  induction l with
  | nil => simp
  | cons b l ih =>
    have hsplit : ∀ x,
        ((b :: l).filterMap fun b => if target b = x then some (value b) else none).length =
          (if target b = x then 1 else 0) +
            (l.filterMap fun b => if target b = x then some (value b) else none).length := by
      intro x
      by_cases hx : target b = x
      · simp [hx, Nat.add_comm]
      · simp [hx]
    have hone : ∑ x ∈ s, (if target b = x then 1 else 0) ≤ 1 := by
      rw [Finset.sum_ite_eq]
      split <;> omega
    simp only [hsplit, Finset.sum_add_distrib, List.length_cons]
    omega

end BlockchainMessaging
