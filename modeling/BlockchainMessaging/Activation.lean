import BlockchainMessaging.Timer

/-!
# The last activation of a timer

The worker of a timeout switches the timer off when its callback is over: it counts itself down,
and then it calls `stop()`.  Between the two steps the timer may be stopped and activated again,
and then the old worker switches off what is not its own.

## Main definitions

* `Timer.Clear` — nobody is in between when the timer is activated.
* `Timer.Guarded` — what holds all along if this is so.
* `active_of_armed` — an activation stays active until it is over.
-/

namespace BlockchainMessaging

namespace Timer

variable {s t : Timer} {k : ℕ}

/-- Only the controlling thread calls `stop`. -/
def Controlled (_ : Timer) : TimerAction → Prop
  | .callbackStop _ => False
  | _ => True

instance (s : Timer) (a : TimerAction) : Decidable (s.Controlled a) :=
  match a with
  | .callbackStop _ => inferInstanceAs (Decidable False)
  | .set _ | .stop | .control | .worker _ => inferInstanceAs (Decidable True)

/-- The next step of the controlling thread is `active.store(true)`. -/
def activating (s : Timer) : Bool :=
  match s.control with
  | .activate _ => true
  | _ => false

/-- And it activates the timer only when no worker of a timeout stands between its
`counter.fetch_sub(1)` and its `stop()`. -/
def Clear (s : Timer) (a : TimerAction) : Prop :=
  s.Controlled a ∧ (a = .control → s.activating = true → ∀ w ∈ s.workers, w.step ≠ .stop)

instance (s : Timer) (a : TimerAction) : Decidable (s.Clear a) :=
  inferInstanceAs (Decidable (_ ∧ _))

/-- The timeout callback of an activation is over. -/
def CalledBack (s : Timer) (k : ℕ) : Prop := ∃ step, s.stepOf k = some step ∧ step.calledBack = true

/-- The set function has seen that the timer is not active. -/
def Setting (s : Timer) : Prop :=
  match s.control with
  | .idle | .check _ => False
  | _ => True

/-- The activation `k` is the last, and nobody is about to switch the timer off. -/
structure Armed (s : Timer) (k : ℕ) : Prop where
  active : s.active = true
  last : k + 1 = s.workers.length
  stop : ∀ j, s.stepOf j ≠ some .stop

/-- An activation is over or armed; while the next one is being set, those before are over; and
the next one finds nobody who is about to switch it off. -/
structure Guarded (s : Timer) : Prop where
  armed : ∀ k ∈ s.armed, s.CalledBack k ∨ s.Armed k
  setting : s.Setting → ∀ k ∈ s.armed, s.CalledBack k
  counting : ∀ kind, s.control = .count kind → s.active = true ∧ ∀ j, s.stepOf j ≠ some .stop
  spawning : ∀ k, s.control = .spawn k → s.Armed k

theorem stepOf_append (s : Timer) (w : TimerWorker) (k : ℕ) (counter : ℤ) (control : TimerControl) :
    stepOf { s with counter, control, workers := s.workers ++ [w] } k =
      if k = s.workers.length then some w.step else s.stepOf k := by
  simp only [stepOf, List.getElem?_append]
  by_cases hk : k < s.workers.length
  · rw [if_pos hk, if_neg (Nat.ne_of_lt hk)]
  · rw [if_neg hk]
    by_cases heq : k = s.workers.length
    · simp [heq]
    · have h₁ : s.workers[k]? = none := List.getElem?_eq_none (by omega)
      have h₂ : [w][k - s.workers.length]? = none :=
        List.getElem?_eq_none (by simp only [List.length_singleton]; omega)
      rw [if_neg heq, h₁, h₂]

theorem lt_length_of_stepOf {step : WorkerStep} (h : s.stepOf k = some step) :
    k < s.workers.length := by
  obtain ⟨w, hw, -⟩ := exists_of_stepOf h
  exact (List.getElem?_eq_some_iff.1 hw).1

/-! ## What a worker's step leaves as it was -/

section Worker

variable {w : TimerWorker} {next : WorkerStep}

theorem stepOf_eq_some (hw : s.workers[k]? = some w) : s.stepOf k = some w.step := by
  rw [stepOf, hw, Option.map_some]

/-- An activation that is over stays so. -/
theorem CalledBack.moveWorker {j : ℕ} (h : s.CalledBack j) (hw : s.workers[k]? = some w)
    (hnext : w.next s.active = some next) : (s.moveWorker k w next).CalledBack j := by
  obtain ⟨step, hstep, hback⟩ := h
  by_cases hjk : j = k
  · subst hjk
    rw [stepOf_eq_some hw] at hstep
    cases hstep
    exact ⟨next, by rw [stepOf_moveWorker next hw, if_pos rfl],
      TimerWorker.calledBack_next hnext hback⟩
  · exact ⟨step, by rw [stepOf_moveWorker next hw, if_neg hjk, hstep], hback⟩

/-- Where nobody is about to stop, nobody switches the timer off. -/
theorem active_moveWorker (hw : s.workers[k]? = some w) (next : WorkerStep)
    (hstop : ∀ j, s.stepOf j ≠ some .stop) : (s.moveWorker k w next).active = s.active :=
  if_neg fun hstep => hstop k (by rw [stepOf_eq_some hw, hstep])

/-- And only a worker that counts itself down after its callback is about to stop next. -/
theorem stop_moveWorker (hw : s.workers[k]? = some w) (hnext : w.next s.active = some next)
    (hstop : ∀ j, s.stepOf j ≠ some .stop) (hrelease : w.step ≠ .release) (j : ℕ) :
    (s.moveWorker k w next).stepOf j ≠ some .stop := by
  intro hj
  rw [stepOf_moveWorker next hw] at hj
  split at hj
  · cases hj
    exact hrelease (TimerWorker.release_of_next hnext)
  · exact hstop j hj

theorem Armed.moveWorker {j : ℕ} (h : s.Armed j) (hw : s.workers[k]? = some w)
    (hnext : w.next s.active = some next) (hrelease : w.step ≠ .release) :
    (s.moveWorker k w next).Armed j where
  active := (active_moveWorker hw next h.stop).trans h.active
  last := h.last.trans (length_workers_moveWorker s k w next).symm
  stop := stop_moveWorker hw hnext h.stop hrelease

end Worker

/-! ## Every step -/

theorem Armed.control_step (h : s.Armed k) {control : TimerControl} {armed : List ℕ} :
    Armed { s with control, armed } k := ⟨h.active, h.last, h.stop⟩

namespace Guarded

/-- The controlling thread moves on without touching what the others read. -/
theorem control_step (h : Guarded s) {control : TimerControl} {armed : List ℕ}
    (hk : k ∈ s.armed) :
    CalledBack { s with control, armed } k ∨ Armed { s with control, armed } k :=
  (h.armed k hk).imp_right fun harmed => harmed.control_step

theorem stepControl (h : Guarded s)
    (hclear : s.activating = true → ∀ w ∈ s.workers, w.step ≠ .stop)
    (hs : s.stepControl = some t) : Guarded t := by
  simp only [Timer.stepControl] at hs
  cases hc : s.control with
  | idle => simp [hc] at hs
  | check kind =>
    simp only [hc] at hs
    cases hs
    constructor
    case armed => exact fun k hk => h.control_step hk
    case setting =>
      intro hsetting k hk
      by_cases hactive : s.active = true
      · simp [Setting, hactive] at hsetting
      · exact (h.armed k hk).resolve_right fun harmed => hactive harmed.active
    case counting =>
      intro kind' hkind
      split at hkind <;> cases hkind
    case spawning =>
      intro k hk
      split at hk <;> cases hk
  | wait kind =>
    simp only [hc] at hs
    cases hs
    have hsetting : s.Setting := by simp [Setting, hc]
    constructor
    case armed => exact fun k hk => h.control_step hk
    case setting => exact fun _ => h.setting hsetting
    case counting =>
      intro kind' hkind
      split at hkind <;> cases hkind
    case spawning =>
      intro k hk
      split at hk <;> cases hk
  | activate kind =>
    simp only [hc] at hs
    cases hs
    have hsetting : s.Setting := by simp [Setting, hc]
    constructor
    case armed => exact fun k hk => .inl (h.setting hsetting k hk)
    case setting => exact fun _ => h.setting hsetting
    case counting =>
      refine fun _ _ => ⟨rfl, fun j hj => ?_⟩
      obtain ⟨w, hw, hstop⟩ := exists_of_stepOf hj
      exact hclear (by simp [activating, hc]) w (List.mem_of_getElem? hw) hstop
    case spawning => simp
  | count kind =>
    simp only [hc] at hs
    cases hs
    obtain ⟨hactive, hstop⟩ := h.counting kind hc
    have hcalled : ∀ k ∈ s.armed, CalledBack { s with
        counter := s.counter + 1
        workers := s.workers ++ [{ kind }]
        control := .spawn s.workers.length } k := by
      intro k hk
      obtain ⟨step, hstep, hback⟩ := h.setting (by simp [Setting, hc]) k hk
      refine ⟨step, ?_, hback⟩
      rw [stepOf_append, if_neg (Nat.ne_of_lt (lt_length_of_stepOf hstep)), hstep]
    constructor
    case armed => exact fun k hk => .inl (hcalled k hk)
    case setting => exact fun _ => hcalled
    case counting => simp
    case spawning =>
      intro k hk
      cases hk
      refine ⟨hactive, by simp, fun j => ?_⟩
      rw [stepOf_append]
      split
      · simp
      · exact hstop j
  | spawn k =>
    simp only [hc] at hs
    cases hs
    constructor
    case armed =>
      intro j hj
      rcases List.mem_append.1 hj with hj | hj
      · exact h.control_step hj
      · rw [List.mem_singleton.1 hj]
        exact .inr (h.spawning k hc).control_step
    case setting => simp [Setting]
    case counting => simp
    case spawning => simp

theorem stepWorker (hi : Inv s) (h : Guarded s) (hs : s.stepWorker k = some t) : Guarded t := by
  obtain ⟨w, next, hw, hspawn, hnext, rfl⟩ := stepWorker_eq_some hs
  constructor
  case armed =>
    intro j hj
    obtain hback | harmed := h.armed j hj
    · exact .inl (hback.moveWorker hw hnext)
    · by_cases hrelease : w.step = .release
      · -- The worker is pending, so it is that of the last activation.
        have hlast := hi.last k w hw (by rw [hrelease]; rfl)
        have hjk : j = k := by
          have := harmed.last
          omega
        subst hjk
        have hback : s.CalledBack j := ⟨w.step, stepOf_eq_some hw, by rw [hrelease]; rfl⟩
        exact .inl (hback.moveWorker hw hnext)
      · exact .inr (harmed.moveWorker hw hnext hrelease)
  case setting => exact fun hsetting j hj => (h.setting hsetting j hj).moveWorker hw hnext
  case counting =>
    intro kind hkind
    obtain ⟨hactive, hstop⟩ := h.counting kind hkind
    have hrelease : w.step ≠ .release := by
      intro hrelease
      have hp := hi.not_pending (hi.none kind (.inr hkind)) (List.mem_of_getElem? hw)
      rw [hrelease] at hp
      cases hp
    exact ⟨(active_moveWorker hw next hstop).trans hactive,
      stop_moveWorker hw hnext hstop hrelease⟩
  case spawning =>
    intro j hj
    have harmed := h.spawning j hj
    refine harmed.moveWorker hw hnext fun hrelease => ?_
    -- Only the worker that is being started is pending, and it does not move.
    have hlast := hi.last k w hw (by rw [hrelease]; rfl)
    have hjk : j = k := by
      have := harmed.last
      omega
    exact hspawn (hjk ▸ hj)

theorem step (hi : Inv s) (h : Guarded s) {a : TimerAction} (hok : s.Clear a)
    (hs : s.step a = some t) : Guarded t := by
  cases a with
  | set kind =>
    simp only [Timer.step] at hs
    split at hs
    · cases hs
      exact ⟨fun k hk => h.control_step hk, by simp [Setting], by simp, by simp⟩
    · cases hs
  | stop =>
    simp only [Timer.step] at hs
    split at hs
    · next hidle =>
      cases hs
      exact ⟨by simp, by simp, by simp [hidle], by simp [hidle]⟩
    · cases hs
  | control => exact h.stepControl (hok.2 rfl) hs
  | worker k => exact h.stepWorker hi hs
  | callbackStop k => exact hok.1.elim

end Guarded

end Timer

/-- **An old activation does not switch off a newer one.**  In every run in which the controlling
thread activates the timer only when no timeout is between its `counter.fetch_sub(1)` and its
`stop()`: of each activation whose set function has returned since the last `stop()`, the timeout
callback is over, or the timer is active. -/
theorem active_of_armed {s : Timer} (h : Reaches Timer.step Timer.Clear {} s) :
    ∀ k ∈ s.armed, s.CalledBack k ∨ s.active = true := by
  have hstart : Timer.Guarded {} := ⟨by simp, by simp, by simp, by simp⟩
  have hinv : Timer.Inv s ∧ Timer.Guarded s :=
    h.invariant (I := fun s => Timer.Inv s ∧ Timer.Guarded s) ⟨Timer.inv_start, hstart⟩
      fun _ _ _ hi hok hs => ⟨hi.1.step hs, hi.2.step hi.1 hok hs⟩
  intro k hk
  exact (hinv.2.armed k hk).imp_right Timer.Armed.active

/-- A timeout is over, and an interval is set after its `stop()`. -/
theorem active_of_armed_two : ∃ s : Timer, s.armed = [0, 1] ∧ s.workers.length = 2 ∧
    (s.CalledBack 1 ∨ s.active = true) := by
  obtain ⟨s, hs, h⟩ := exists_reaches Timer.step Timer.Clear {}
    [.set .timeout, .control, .control, .control, .control, .control, .worker 0, .worker 0,
      .worker 0, .worker 0, .worker 0, .set .interval, .control, .control, .control, .control,
      .control, .worker 1]
    (fun s => s.armed = [0, 1] ∧ s.workers.length = 2) (by decide +kernel)
  simp only [decide_eq_true_eq] at h
  exact ⟨s, h.1, h.2, active_of_armed hs 1 (by simp [h.1])⟩

/-- A timeout has counted itself down, is stopped, and an interval is set; and then the old worker
calls `stop()`. -/
theorem not_active_of_armed :
    ¬ ∀ s : Timer, Reaches Timer.step Timer.Controlled {} s →
      ∀ k ∈ s.armed, s.CalledBack k ∨ s.active = true := by
  intro hall
  obtain ⟨s, hs, h⟩ := exists_reaches Timer.step Timer.Controlled {}
    [.set .timeout, .control, .control, .control, .control, .control, .worker 0, .worker 0,
      .worker 0, .worker 0, .stop, .set .interval, .control, .control, .control, .control,
      .control, .worker 0]
    (fun s => s.armed = [1] ∧ s.active = false ∧ s.stepOf 1 = some .head) (by decide +kernel)
  simp only [decide_eq_true_eq] at h
  obtain ⟨harmed, hactive, hhead⟩ := h
  obtain ⟨step, hstep, hback⟩ | htrue := hall s hs 1 (by simp [harmed])
  · rw [hhead] at hstep
    cases hstep
    cases hback
  · rw [hactive] at htrue
    cases htrue

end BlockchainMessaging
