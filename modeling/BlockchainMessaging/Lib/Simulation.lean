import BlockchainMessaging.Lib.Transition

/-!
# Tracking one system by another

Two systems are given by partial step functions.  A state of the first is *tracked* by the second
when the second can reach a state that is related to it.  To see that every reachable state is
tracked, it suffices to answer one step of the first system at a time, by any number of steps of the
second: none, where the second has nothing to do.

A state may be tracked by several systems at once, for instance by one for each index of a family;
`Tracked` is a property of the state alone, so such a statement is an ordinary invariant.

## Main definitions

* `Tracked` — a state that the other system can follow.
* `Tracked.stay`, `Tracked.move`, `Tracked.moves` — answers to one step: none, one, or some.
* `Tracked.trans` — tracking composes.
* `Reaches.tracked` — every state of a run is tracked.
* `Reaches.replay` — what a run has not used may as well have been different.
-/

namespace BlockchainMessaging

universe u v u' v' u'' v''

variable {σ : Type u} {α : Type v} {step : σ → α → Option σ} {ok : σ → α → Prop} {s₀ s s' : σ}
variable {τ : Type u'} {β : Type v'} {step' : τ → β → Option τ} {ok' : τ → β → Prop} {t₀ : τ}
variable {υ : Type u''} {γ : Type v''} {step'' : υ → γ → Option υ} {ok'' : υ → γ → Prop} {u₀ : υ}

/-- A run from `t₀` whose steps meet `ok'` leads to a state that is related to `s`. -/
def Tracked (step' : τ → β → Option τ) (ok' : τ → β → Prop) (t₀ : τ) (R : σ → τ → Prop) (s : σ) :
    Prop :=
  ∃ t, Reaches step' ok' t₀ t ∧ R s t

namespace Tracked

variable {R R' : σ → τ → Prop}

/-- What holds initially. -/
theorem start (h : R s t₀) : Tracked step' ok' t₀ R s := ⟨t₀, .refl, h⟩

/-- The other system does nothing. -/
theorem stay (h : Tracked step' ok' t₀ R s)
    (hR : ∀ t, Reaches step' ok' t₀ t → R s t → R' s' t) : Tracked step' ok' t₀ R' s' := by
  obtain ⟨t, ht, hst⟩ := h
  exact ⟨t, ht, hR t ht hst⟩

/-- The other system makes some steps. -/
theorem moves (h : Tracked step' ok' t₀ R s)
    (hR : ∀ t, Reaches step' ok' t₀ t → R s t → ∃ t', Reaches step' ok' t t' ∧ R' s' t') :
    Tracked step' ok' t₀ R' s' := by
  obtain ⟨t, ht, hst⟩ := h
  obtain ⟨t', ht', hst'⟩ := hR t ht hst
  exact ⟨t', ht.trans ht', hst'⟩

/-- The other system makes one step, or none. -/
theorem move (h : Tracked step' ok' t₀ R s)
    (hR : ∀ t, Reaches step' ok' t₀ t → R s t →
      R' s' t ∨ ∃ b t', ok' t b ∧ step' t b = some t' ∧ R' s' t') :
    Tracked step' ok' t₀ R' s' := by
  refine h.moves fun t ht hst => ?_
  rcases hR t ht hst with hst' | ⟨b, t', hb, ht', hst'⟩
  · exact ⟨t, .refl, hst'⟩
  · exact ⟨t', Reaches.refl.tail hb ht', hst'⟩

/-- What holds of all reachable states of the other system comes down along the relation. -/
theorem elim {P : Prop} (h : Tracked step' ok' t₀ R s)
    (hP : ∀ t, Reaches step' ok' t₀ t → R s t → P) : P := by
  obtain ⟨t, ht, hst⟩ := h
  exact hP t ht hst

/-- Tracking composes, if the second system is itself tracked by a third. -/
theorem trans {Q : τ → υ → Prop} (h : Tracked step' ok' t₀ R s)
    (h' : ∀ t, Reaches step' ok' t₀ t → Tracked step'' ok'' u₀ Q t) :
    Tracked step'' ok'' u₀ (fun s u => ∃ t, R s t ∧ Q t u) s := by
  obtain ⟨t, ht, hst⟩ := h
  obtain ⟨u, hu, htu⟩ := h' t ht
  exact ⟨u, hu, t, hst, htu⟩

end Tracked

/-- **The simulation rule.**  If the initial state is tracked, and every step from a tracked state
leads to a tracked state, every state of a run is tracked. -/
theorem Reaches.tracked {R : σ → τ → Prop} (h₀ : R s₀ t₀)
    (hstep : ∀ s a s' t, Reaches step' ok' t₀ t → R s t → ok s a → step s a = some s' →
      ∃ t', Reaches step' ok' t t' ∧ R s' t')
    (h : Reaches step ok s₀ s) : Tracked step' ok' t₀ R s :=
  h.invariant (.start h₀) fun _ _ _ hs hok hs' =>
    hs.moves fun t ht hst => hstep _ _ _ t ht hst hok hs'

/-- **The replay rule.**  Two step functions on the same states agree on all steps after which
something has not been used; what was used stays used.  Then a run that has not used it is a run of
both. -/
theorem Reaches.replay {step' : σ → α → Option σ} (used : σ → Prop)
    (hstays : ∀ s a s', step s a = some s' → used s → used s')
    (hagree : ∀ s a s', step s a = some s' → ¬ used s' → step' s a = some s')
    (h : Reaches step ok s₀ s) (hs : ¬ used s) : Reaches step' ok s₀ s := by
  induction h with
  | refl => exact .refl
  | @tail s s' a _ hok hstep ih =>
    have hbefore : ¬ used s := fun hused => hs (hstays s a s' hstep hused)
    exact (ih hbefore).tail hok (hagree s a s' hstep hs)

end BlockchainMessaging
