import Mathlib.Data.Int.Basic
import Mathlib.Data.List.Count
import Mathlib.Data.Option.Basic
import BlockchainMessaging.Lib.Transition

/-!
# The timer

`Timer` runs a callback in a thread of its own, once or again and again.  A thread is not waited
for when it is stopped: it looks at `active` when it wakes up.  So that it is gone before the next
one begins, each thread counts down `counter` at its end, and a set function waits until that is
zero.

One controlling thread calls `setTimeout`, `setInterval` and `stop`; each activation starts a
worker.  A step is one access to `active` or `counter`.  The sleeps are not steps, and `time`,
which says how long some of them are, is left out.

## Main definitions

* `TimerWorker`, `TimerControl` — where a worker and the controlling thread stand.
* `Timer`, `Timer.step` — all of them, with what they share.
* `one_worker` — no two workers are alive.
-/

namespace BlockchainMessaging

/-- Which of the two lambdas a worker runs. -/
inductive TimerKind
  | timeout
  | interval
  deriving DecidableEq, Repr

/-- What a worker does next. -/
inductive WorkerStep
  /-- `active.load()`: before the only sleep of a timeout, or in the condition of the loop. -/
  | head
  /-- `active.load()` after a sleep. -/
  | awake
  /-- The callback is running. -/
  | callback
  /-- `counter.fetch_sub(1)` after the callback of a timeout. -/
  | release
  /-- And then `stop()`. -/
  | stop
  | stopped
  /-- `counter.fetch_sub(1)` on a way out without `stop()`. -/
  | leave
  | returned
  deriving DecidableEq, Repr

/-- The worker has not counted itself down. -/
def WorkerStep.pending : WorkerStep → Bool
  | .stop | .stopped | .returned => false
  | _ => true

/-- The callback of a timeout is over. -/
def WorkerStep.calledBack : WorkerStep → Bool
  | .release | .stop | .stopped => true
  | _ => false

/-- A worker. -/
structure TimerWorker where
  kind : TimerKind
  step : WorkerStep := .head
  deriving DecidableEq, Repr

/-- What comes next.  Nothing does, once the thread has returned. -/
def TimerWorker.next (w : TimerWorker) (active : Bool) : Option WorkerStep :=
  match w.step with
  | .head => some (if active then .awake else .leave)
  | .awake => some (if active then .callback else .leave)
  | .callback =>
      match w.kind with
      | .timeout => some .release
      | .interval => some .head
  | .release => some .stop
  | .stop => some .stopped
  | .leave => some .returned
  | .stopped => none
  | .returned => none

/-- What the controlling thread does next. -/
inductive TimerControl
  /-- It is not in a set function. -/
  | idle
  /-- `throwErrorIfTimerAlreadyStarted`. -/
  | check (kind : TimerKind)
  /-- `waitForPendingCallbacks`. -/
  | wait (kind : TimerKind)
  /-- `active.store(true)`. -/
  | activate (kind : TimerKind)
  /-- `counter.fetch_add(1)`. -/
  | count (kind : TimerKind)
  /-- The thread of the worker `k` is started, and the function returns. -/
  | spawn (k : ℕ)
  deriving DecidableEq, Repr

/-- `Timer`, its controlling thread, and the workers by the number of their activation.  `armed`
is kept for the statements: the activations whose set function has returned since the last
`stop()`. -/
structure Timer where
  counter : ℤ := 0
  active : Bool := false
  control : TimerControl := .idle
  workers : List TimerWorker := []
  armed : List ℕ := []

/-- Who moves. -/
inductive TimerAction
  /-- `setTimeout` or `setInterval` is called. -/
  | set (kind : TimerKind)
  /-- `stop` is called. -/
  | stop
  /-- The set function goes on. -/
  | control
  | worker (k : ℕ)
  /-- The callback of a worker calls `stop`. -/
  | callbackStop (k : ℕ)
  deriving DecidableEq, Repr

namespace Timer

/-- Where a worker stands. -/
def stepOf (s : Timer) (k : ℕ) : Option WorkerStep := s.workers[k]?.map TimerWorker.step

/-- The next step of a set function. -/
def stepControl (s : Timer) : Option Timer :=
  match s.control with
  | .idle => none
  | .check kind => some { s with control := if s.active then .idle else .wait kind }
  | .wait kind => some { s with control := if s.counter ≠ 0 then .wait kind else .activate kind }
  | .activate kind => some { s with active := true, control := .count kind }
  | .count kind =>
      some { s with
        counter := s.counter + 1
        workers := s.workers ++ [{ kind }]
        control := .spawn s.workers.length }
  | .spawn k => some { s with control := .idle, armed := s.armed ++ [k] }

/-- The worker `k` does its step, and `next` comes after it. -/
def moveWorker (s : Timer) (k : ℕ) (w : TimerWorker) (next : WorkerStep) : Timer :=
  { s with
    counter := if w.step = .release ∨ w.step = .leave then s.counter - 1 else s.counter
    active := if w.step = .stop then false else s.active
    workers := s.workers.set k { w with step := next } }

/-- The next step of a worker whose thread has been started. -/
def stepWorker (s : Timer) (k : ℕ) : Option Timer := do
  let w ← s.workers[k]?
  guard (s.control ≠ .spawn k)
  let next ← w.next s.active
  return s.moveWorker k w next

/-- One step. -/
def step (s : Timer) : TimerAction → Option Timer
  | .set kind => if s.control = .idle then some { s with control := .check kind } else none
  | .stop => if s.control = .idle then some { s with active := false, armed := [] } else none
  | .control => s.stepControl
  | .worker k => s.stepWorker k
  | .callbackStop k =>
      if s.stepOf k = some .callback then some { s with active := false } else none

end Timer

/-! ## What a worker's step does -/

namespace TimerWorker

variable {w : TimerWorker} {active : Bool} {next : WorkerStep}

/-- It is counted down in the two steps that say so, and in no other. -/
theorem pending_next (h : w.next active = some next) :
    (w.step.pending = true ∧ next.pending = false ∧ (w.step = .release ∨ w.step = .leave)) ∨
      (next.pending = w.step.pending ∧ ¬ (w.step = .release ∨ w.step = .leave)) := by
  obtain ⟨kind, step⟩ := w
  cases step with
  | head => cases active <;> cases h <;> simp [WorkerStep.pending]
  | awake => cases active <;> cases h <;> simp [WorkerStep.pending]
  | callback => cases kind <;> cases h <;> simp [WorkerStep.pending]
  | release => cases h; simp [WorkerStep.pending]
  | stop => cases h; simp [WorkerStep.pending]
  | leave => cases h; simp [WorkerStep.pending]
  | stopped => cases h
  | returned => cases h

/-- A pending worker has been pending. -/
theorem pending_of_next (h : w.next active = some next) (hp : next.pending = true) :
    w.step.pending = true := by
  obtain ⟨hw, -, -⟩ | ⟨heq, -⟩ := pending_next h
  · exact hw
  · rwa [← heq]

/-- `stop()` comes after the callback of a timeout. -/
theorem release_of_next (h : w.next active = some .stop) : w.step = .release := by
  obtain ⟨kind, step⟩ := w
  cases step <;> cases active <;> cases kind <;> cases h <;> rfl

theorem calledBack_next (h : w.next active = some next) (hc : w.step.calledBack = true) :
    next.calledBack = true := by
  obtain ⟨kind, step⟩ := w
  cases step with
  | release => cases h; rfl
  | stop => cases h; rfl
  | stopped => cases h
  | head => cases hc
  | awake => cases hc
  | callback => cases hc
  | leave => cases hc
  | returned => cases hc

end TimerWorker

namespace Timer

variable {s t : Timer} {k : ℕ}

/-- A worker's step, taken apart. -/
theorem stepWorker_eq_some (h : s.stepWorker k = some t) :
    ∃ w next, s.workers[k]? = some w ∧ s.control ≠ .spawn k ∧ w.next s.active = some next ∧
      t = s.moveWorker k w next := by
  simp only [stepWorker, Option.bind_eq_bind, Option.bind_eq_some_iff, Option.guard_eq_some',
    Option.pure_def, Option.some.injEq] at h
  obtain ⟨w, hw, _, hspawn, next, hnext, rfl⟩ := h
  exact ⟨w, next, hw, hspawn, hnext, rfl⟩

theorem length_workers_moveWorker (s : Timer) (k : ℕ) (w : TimerWorker) (next : WorkerStep) :
    (s.moveWorker k w next).workers.length = s.workers.length := List.length_set

/-- After the step of one worker the others stand where they stood. -/
theorem stepOf_moveWorker {w : TimerWorker} (next : WorkerStep) (hw : s.workers[k]? = some w)
    (j : ℕ) : (s.moveWorker k w next).stepOf j = if j = k then some next else s.stepOf j := by
  have hk := (List.getElem?_eq_some_iff.1 hw).1
  simp only [stepOf, moveWorker, List.getElem?_set]
  by_cases hj : j = k
  · subst hj
    simp [hk]
  · rw [if_neg (Ne.symm hj), if_neg hj]

/-- The workers that have not counted themselves down. -/
def pending (s : Timer) : ℕ := s.workers.countP fun w => w.step.pending

theorem pending_moveWorker {w : TimerWorker} (next : WorkerStep) (hw : s.workers[k]? = some w) :
    (s.moveWorker k w next).pending + (if w.step.pending then 1 else 0) =
      s.pending + if next.pending then 1 else 0 := by
  obtain ⟨hk, hget⟩ := List.getElem?_eq_some_iff.1 hw
  have hcount : (s.moveWorker k w next).pending =
      s.pending - (if w.step.pending then 1 else 0) + if next.pending then 1 else 0 := by
    rw [pending, moveWorker, List.countP_set hk, hget, pending]
  have hpos : w.step.pending = true → 0 < s.pending := fun hp =>
    List.countP_pos_iff.2 ⟨w, List.mem_of_getElem? hw, hp⟩
  rw [hcount]
  split
  · next hp =>
    have := hpos hp
    omega
  · omega

theorem exists_of_stepOf {step : WorkerStep} (h : s.stepOf k = some step) :
    ∃ w, s.workers[k]? = some w ∧ w.step = step := Option.map_eq_some_iff.1 h

/-! ## One worker -/

/-- `counter` counts the pending workers; there is one at most, and it belongs to the last
activation; and there is none when the next one is about to be counted. -/
structure Inv (s : Timer) : Prop where
  counter : s.counter = s.pending
  le_one : s.counter ≤ 1
  last : ∀ k w, s.workers[k]? = some w → w.step.pending = true → k + 1 = s.workers.length
  none : ∀ kind, s.control = .activate kind ∨ s.control = .count kind → s.counter = 0

namespace Inv

theorem not_pending (h : Inv s) (h₀ : s.counter = 0) {w : TimerWorker} (hw : w ∈ s.workers) :
    w.step.pending = false := by
  have hcount : s.workers.countP (fun w => w.step.pending) = 0 := by
    have := h.counter
    rw [pending] at this
    omega
  simpa using List.countP_eq_zero.1 hcount w hw

/-- The controlling thread moves on without touching the workers. -/
theorem control_step (h : Inv s) {control : TimerControl} {active : Bool} {armed : List ℕ}
    (hnone : ∀ kind, control = .activate kind ∨ control = .count kind → s.counter = 0) :
    Inv { s with control, active, armed } where
  counter := h.counter
  le_one := h.le_one
  last := h.last
  none := hnone

theorem stepControl (h : Inv s) (hs : s.stepControl = some t) : Inv t := by
  simp only [Timer.stepControl] at hs
  cases hc : s.control with
  | idle => simp [hc] at hs
  | check kind =>
    simp only [hc] at hs
    cases hs
    refine h.control_step fun kind' hkind => ?_
    split at hkind <;> simp at hkind
  | wait kind =>
    simp only [hc] at hs
    cases hs
    refine h.control_step fun kind' hkind => ?_
    by_contra hzero
    simp [hzero] at hkind
  | activate kind =>
    simp only [hc] at hs
    cases hs
    exact h.control_step fun _ _ => h.none kind (.inl hc)
  | count kind =>
    simp only [hc] at hs
    cases hs
    have h₀ := h.none kind (.inr hc)
    constructor
    case counter =>
      have := h.counter
      simp only [pending] at this ⊢
      simp [this, WorkerStep.pending]
    case le_one =>
      show s.counter + 1 ≤ 1
      omega
    case last =>
      intro k w hw hp
      -- The workers before the new one are not pending.
      rw [List.getElem?_append] at hw
      split at hw
      · rw [h.not_pending h₀ (List.mem_of_getElem? hw)] at hp
        cases hp
      · next hk =>
        have hlt := (List.getElem?_eq_some_iff.1 hw).1
        simp at hlt ⊢
        omega
    case none => simp
  | spawn k =>
    simp only [hc] at hs
    cases hs
    exact h.control_step (by simp)

theorem stepWorker (h : Inv s) {k : ℕ} (hs : s.stepWorker k = some t) : Inv t := by
  obtain ⟨w, next, hw, -, hnext, rfl⟩ := stepWorker_eq_some hs
  have hlast : ∀ j w', (s.moveWorker k w next).workers[j]? = some w' →
      w'.step.pending = true → j + 1 = (s.moveWorker k w next).workers.length := by
    intro j w' hw' hp
    rw [length_workers_moveWorker]
    rw [moveWorker, List.getElem?_set] at hw'
    split at hw'
    · next hj =>
      -- The worker itself: it has been pending.
      split at hw'
      · cases hw'
        rw [← hj]
        exact h.last k w hw (TimerWorker.pending_of_next hnext hp)
      · cases hw'
    · exact h.last j w' hw' hp
  have hcounter := h.counter
  have hpending := pending_moveWorker next hw
  obtain ⟨hp, hnp, hdown⟩ | ⟨heq, hdown⟩ := TimerWorker.pending_next hnext
  · -- The worker counts itself down.
    have hminus : (s.moveWorker k w next).counter = s.counter - 1 := if_pos hdown
    simp only [hp, hnp, if_true, Bool.false_eq_true, if_false] at hpending
    constructor
    case counter => omega
    case le_one =>
      have := h.le_one
      omega
    case last => exact hlast
    case none =>
      intro kind hkind
      have := h.none kind hkind
      omega
  · have hsame : (s.moveWorker k w next).counter = s.counter := if_neg hdown
    rw [heq, Nat.add_right_cancel_iff] at hpending
    constructor
    case counter => rw [hsame, hpending, hcounter]
    case le_one => exact hsame ▸ h.le_one
    case last => exact hlast
    case none => exact fun kind hkind => hsame.trans (h.none kind hkind)

theorem step (h : Inv s) {a : TimerAction} (hs : s.step a = some t) : Inv t := by
  cases a with
  | set kind =>
    simp only [Timer.step] at hs
    split at hs
    · cases hs
      exact h.control_step (by simp)
    · cases hs
  | stop =>
    simp only [Timer.step] at hs
    split at hs
    · cases hs
      exact h.control_step h.none
    · cases hs
  | control => exact h.stepControl hs
  | worker k => exact h.stepWorker hs
  | callbackStop k =>
    simp only [Timer.step] at hs
    split at hs
    · cases hs
      exact h.control_step h.none
    · cases hs

end Inv

theorem inv_start : Inv {} where
  counter := rfl
  le_one := by decide
  last := by simp
  none := by simp

/-- A worker whose callback starts was pending before. -/
theorem pending_of_callback (hs : s.step (.worker k) = some t)
    (h : t.stepOf k = some .callback) : ∃ w, s.workers[k]? = some w ∧ w.step.pending = true := by
  obtain ⟨w, next, hw, -, hnext, rfl⟩ := stepWorker_eq_some hs
  rw [stepOf_moveWorker next hw, if_pos rfl] at h
  cases h
  exact ⟨w, hw, TimerWorker.pending_of_next hnext rfl⟩

end Timer

/-- **At most one live worker.**  In every run: `counter` is the number of workers that have not
counted themselves down, and at most one; no two callbacks run at the same time; and when the
worker of a later activation has been counted, as it has when its set function returns, no
callback of an earlier one starts. -/
theorem one_worker {s : Timer} (h : Reachable Timer.step {} s) :
    s.counter = s.pending ∧ s.counter ≤ 1 ∧
      (∀ j k, s.stepOf j = some .callback → s.stepOf k = some .callback → j = k) ∧
      ∀ j k t, j < k → k < s.workers.length → s.step (.worker j) = some t →
        t.stepOf j ≠ some .callback := by
  have hi : Timer.Inv s := h.invariant Timer.inv_start fun _ _ _ hi _ hs => hi.step hs
  refine ⟨hi.counter, hi.le_one, ?_, ?_⟩
  · intro j k hj hk
    obtain ⟨w, hw, hstep⟩ := Timer.exists_of_stepOf hj
    obtain ⟨w', hw', hstep'⟩ := Timer.exists_of_stepOf hk
    have hlast := hi.last j w hw (by rw [hstep]; rfl)
    have hlast' := hi.last k w' hw' (by rw [hstep']; rfl)
    omega
  · intro j k t hjk hk hs hcallback
    obtain ⟨w, hw, hp⟩ := Timer.pending_of_callback hs hcallback
    have hlast := hi.last j w hw hp
    omega

/-- An interval is stopped, a timeout is set, and the worker of the interval leaves first. -/
theorem one_worker_two : ∃ s : Timer, s.workers.length = 2 ∧ s.stepOf 1 = some .callback ∧
    s.counter ≤ 1 := by
  obtain ⟨s, hs, h⟩ := exists_reaches Timer.step (fun _ _ => True) {}
    [.set .interval, .control, .control, .control, .control, .control, .worker 0, .stop,
      .set .timeout, .control, .control, .worker 0, .worker 0, .control, .control, .control,
      .control, .worker 1, .worker 1]
    (fun s => s.workers.length = 2 ∧ s.stepOf 1 = some .callback) (by decide +kernel)
  simp only [decide_eq_true_eq] at h
  exact ⟨s, h.1, h.2, (one_worker hs).2.1⟩

end BlockchainMessaging
