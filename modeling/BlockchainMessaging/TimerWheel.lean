import Mathlib.Algebra.Order.BigOperators.Group.Finset
import Mathlib.Data.List.TakeWhile
import BlockchainMessaging.Itf
import BlockchainMessaging.Lib.Transition
import BlockchainMessaging.Lib.UnorderedMap

/-!
# The timer wheel

`TimerWheel` calls its callbacks once in each slot.  It waits for the end of the slot in which it
is started, and then it sleeps for the length of a slot before each tick; the time that the
callbacks take is not taken off.

A subscription is a handle with a number.  Handles are moved, not copied; but what they are moved
from keeps its number, and a handle may be used again after it was unsubscribed.

## Main definitions

* `TimerWheel.tick` — the clock at each tick.
* `TimerWheel`, `TimerWheel.step` — the callbacks, and the handles on them.
* `getSlot_tick_iff` — up to which tick no slot is skipped.
* `subscriptions_exact` — each tick calls what is subscribed.
-/

namespace BlockchainMessaging

/-! ## The clock -/

/-- `Time::getTimeToTheNearestSlot(timestamp)`. -/
def Time.getTimeToTheNearestSlot (timestamp : ℕ) : ℕ := Time.SLOT - timestamp % Time.SLOT

namespace TimerWheel

/-- The interval of the timer: the default of the constructor. -/
def slot : ℕ := 500

/-- The clock at the ticks of a wheel that is started at `t₀` and whose callbacks take the time
`d k` at the tick `k`. -/
def tick (t₀ : ℕ) (d : ℕ → ℕ) : ℕ → ℕ
  | 0 => t₀ + (Time.getTimeToTheNearestSlot t₀ + 1) + slot
  | k + 1 => tick t₀ d k + d k + slot

/-- A tick is as long after the beginning of a slot as all callbacks before it took together. -/
theorem tick_eq (t₀ : ℕ) (d : ℕ → ℕ) (k : ℕ) :
    tick t₀ d k = Time.SLOT * (t₀ / Time.SLOT + k + 2) + (1 + ∑ i ∈ Finset.range k, d i) := by
  induction k with
  | zero =>
    have hmod := Nat.div_add_mod t₀ Time.SLOT
    have hlt : t₀ % Time.SLOT < Time.SLOT := Nat.mod_lt _ (by decide)
    simp only [tick, Time.getTimeToTheNearestSlot, slot, Finset.range_zero, Finset.sum_empty]
    simp only [Time.SLOT] at hmod hlt ⊢
    omega
  | succ k ih =>
    rw [tick, ih, Finset.sum_range_succ]
    simp only [slot, Time.SLOT]
    omega

theorem getSlot_tick (t₀ : ℕ) (d : ℕ → ℕ) (k : ℕ) :
    Time.getSlot (tick t₀ d k) =
      t₀ / Time.SLOT + k + 2 + (1 + ∑ i ∈ Finset.range k, d i) / Time.SLOT := by
  rw [Time.getSlot, tick_eq, Nat.mul_add_div (by decide)]

end TimerWheel

/-- **Up to which tick no slot is skipped.**  The slots at the first `n + 1` ticks are consecutive
if and only if the callbacks before the last of them took less than 499 milliseconds all
together. -/
theorem getSlot_tick_iff (t₀ : ℕ) (d : ℕ → ℕ) (n : ℕ) :
    (∀ k < n, Time.getSlot (TimerWheel.tick t₀ d (k + 1)) =
        Time.getSlot (TimerWheel.tick t₀ d k) + 1) ↔
      ∑ i ∈ Finset.range n, d i < 499 := by
  simp only [TimerWheel.getSlot_tick]
  constructor
  · intro h
    -- The delay stays in one slot, and it begins in the first.
    have hdelay : ∀ k ≤ n, (1 + ∑ i ∈ Finset.range k, d i) / Time.SLOT = 0 := by
      intro k
      induction k with
      | zero => simp [Time.SLOT]
      | succ k ih =>
        intro hk
        have hslot := h k (by omega)
        have hprev := ih (by omega)
        omega
    have := (Nat.div_eq_zero_iff_lt (by decide)).1 (hdelay n le_rfl)
    simp only [Time.SLOT] at this
    omega
  · intro h k hk
    have hle : ∀ j ≤ n, (1 + ∑ i ∈ Finset.range j, d i) / Time.SLOT = 0 := by
      intro j hj
      have hsum : ∑ i ∈ Finset.range j, d i ≤ ∑ i ∈ Finset.range n, d i :=
        Finset.sum_le_sum_of_subset (Finset.range_subset_range.2 hj)
      refine Nat.div_eq_of_lt ?_
      simp only [Time.SLOT]
      omega
    rw [hle k hk.le, hle (k + 1) hk]
    omega

/-- Callbacks that take 499 milliseconds once. -/
theorem not_getSlot_tick :
    ¬ ∀ (t₀ : ℕ) (d : ℕ → ℕ), (∀ k, d k < 500) → ∀ k,
      Time.getSlot (TimerWheel.tick t₀ d (k + 1)) = Time.getSlot (TimerWheel.tick t₀ d k) + 1 := by
  intro hall
  have := hall 0 (fun k => if k = 0 then 499 else 0) (by intro k; split <;> decide) 0
  revert this
  decide

/-! ## The subscriptions -/

/-- `TimerWheel::Subscription`.  `timerWheel` is the pointer to the wheel, or null. -/
structure Subscription where
  id : ℕ
  timerWheel : Bool
  deriving DecidableEq, Repr

/-- A variable that holds a subscription.  `origin` says for the statements which call of
`subscribe` it came from. -/
structure Handle where
  subscription : Subscription
  origin : ℕ
  deriving DecidableEq, Repr

/-- What happened to a wheel, for the statements.  The calls of `subscribe` are numbered, and so
are their callbacks. -/
inductive WheelEvent
  | subscribed (n : ℕ)
  | unsubscribed (n : ℕ)
  /-- The callbacks were called, in this order. -/
  | tick (called : List ℕ)
  deriving DecidableEq, Repr

/-- `TimerWheel`, and the variables `ν` that hold subscriptions.  Two subscriptions are equal if
their ids are, and their hash is the id as an `int`; so the map is one from ids. -/
structure TimerWheel (ν : Type) where
  callbacks : UnorderedMap ℕ ℕ := .empty
  counter : ℕ := 0
  handles : ν → Option Handle := fun _ => none
  subscriptions : ℕ := 0
  log : List WheelEvent := []

/-- A call on the wheel, or on a subscription. -/
inductive WheelAction (ν : Type)
  /-- The result of `subscribe` goes into the variable `x`. -/
  | subscribe (x : ν)
  /-- `y = std::move(x)`, or `y` is constructed from it. -/
  | move (x y : ν)
  /-- `x.unsubscribe()`. -/
  | unsubscribe (x : ν)
  | tick

namespace TimerWheel

variable {ν : Type}

/-- `callbacks.emplace`: a bound key keeps its value. -/
def emplace (callbacks : UnorderedMap ℕ ℕ) (key callback : ℕ) : UnorderedMap ℕ ℕ :=
  if (callbacks.find key).isSome then callbacks else callbacks.set key callback

/-- The callbacks that the loop of a tick calls. -/
def called (s : TimerWheel ν) : List ℕ := s.callbacks.keys.filterMap s.callbacks.find

variable [DecidableEq ν]

/-- One call.  A null pointer must not be called. -/
def step (s : TimerWheel ν) : WheelAction ν → Option (TimerWheel ν)
  | .subscribe x =>
      some { s with
        callbacks := emplace s.callbacks s.counter s.subscriptions
        handles := Function.update s.handles x (some ⟨⟨s.counter, true⟩, s.subscriptions⟩)
        counter := (s.counter + 1) % 2 ^ 64
        subscriptions := s.subscriptions + 1
        log := s.log ++ [.subscribed s.subscriptions] }
  | .move x y => do
      let handle ← s.handles x
      return { s with
        handles := Function.update (Function.update s.handles y (some handle)) x
          (some { handle with subscription.timerWheel := false }) }
  | .unsubscribe x => do
      let handle ← s.handles x
      guard (handle.subscription.timerWheel = true)
      return { s with
        callbacks := s.callbacks.erase handle.subscription.id
        log := s.log ++ [.unsubscribed handle.origin] }
  | .tick => some { s with log := s.log ++ [.tick s.called] }

end TimerWheel

namespace WheelEvent

/-- How often the callback `n` was called. -/
def callsOf (n : ℕ) : WheelEvent → ℕ
  | .tick called => called.count n
  | _ => 0

/-- A tick. -/
def isTick : WheelEvent → Bool
  | .tick _ => true
  | _ => false

end WheelEvent

/-- The callback `n` is subscribed, and it was not unsubscribed. -/
def Subscribed (n : ℕ) (log : List WheelEvent) : Prop :=
  .subscribed n ∈ log ∧ .unsubscribed n ∉ log

instance (n : ℕ) (log : List WheelEvent) : Decidable (Subscribed n log) :=
  inferInstanceAs (Decidable (_ ∧ _))

/-- How often the callback `n` was called in all. -/
def callCount (n : ℕ) (log : List WheelEvent) : ℕ := (log.map (WheelEvent.callsOf n)).sum

/-- What happened from the subscription `n` to the first time that it was unsubscribed. -/
def subscribedSpan (n : ℕ) (log : List WheelEvent) : List WheelEvent :=
  (log.dropWhile (· ≠ .subscribed n)).takeWhile (· ≠ .unsubscribed n)

/-! ## One more event -/

section Log

variable {n : ℕ} {log : List WheelEvent}

/-- What follows the subscription contains what ends it. -/
def SpanOrdered (n : ℕ) (log : List WheelEvent) : Prop :=
  .unsubscribed n ∈ log → .unsubscribed n ∈ log.dropWhile (· ≠ .subscribed n)

theorem dropWhile_subscribed_concat (h : .subscribed n ∈ log) (e : WheelEvent) :
    (log ++ [e]).dropWhile (· ≠ .subscribed n) = log.dropWhile (· ≠ .subscribed n) ++ [e] := by
  rw [List.dropWhile_append, if_neg]
  rw [List.isEmpty_iff, List.dropWhile_eq_nil_iff]
  intro hall
  simpa using hall _ h

theorem dropWhile_subscribed_of_not_mem (h : .subscribed n ∉ log) :
    log.dropWhile (· ≠ .subscribed n) = [] := by
  rw [List.dropWhile_eq_nil_iff]
  intro e he
  simpa using fun heq : e = .subscribed n => h (heq ▸ he)

/-- What was unsubscribed was subscribed. -/
theorem SpanOrdered.subscribed (h : SpanOrdered n log) (hunsub : .unsubscribed n ∈ log) :
    .subscribed n ∈ log := by
  by_contra hsub
  have hdrop := h hunsub
  rw [dropWhile_subscribed_of_not_mem hsub] at hdrop
  cases hdrop

theorem SpanOrdered.concat (h : SpanOrdered n log) {e : WheelEvent}
    (he : e = .unsubscribed n → .subscribed n ∈ log) : SpanOrdered n (log ++ [e]) := by
  intro hmem
  rcases List.mem_append.1 hmem with hmem | hmem
  · have hdrop := h hmem
    by_cases hsub : .subscribed n ∈ log
    · rw [dropWhile_subscribed_concat hsub]
      exact List.mem_append_left _ hdrop
    · rw [dropWhile_subscribed_of_not_mem hsub] at hdrop
      cases hdrop
  · have heq := List.mem_singleton.1 hmem
    rw [dropWhile_subscribed_concat (he heq.symm)]
    exact List.mem_append_right _ hmem

/-- The span grows by a tick when the subscription is alive. -/
theorem countP_span_concat (h : SpanOrdered n log) (e : WheelEvent) :
    (subscribedSpan n (log ++ [e])).countP WheelEvent.isTick =
      (subscribedSpan n log).countP WheelEvent.isTick +
        if e.isTick = true ∧ Subscribed n log then 1 else 0 := by
  by_cases hsub : .subscribed n ∈ log
  · rw [subscribedSpan, dropWhile_subscribed_concat hsub, List.takeWhile_append]
    by_cases hunsub : .unsubscribed n ∈ log
    · -- The span has ended.
      have hlive : ¬ Subscribed n log := fun hlive => hlive.2 hunsub
      rw [if_neg, if_neg fun hand => hlive hand.2]
      · rfl
      · intro hlength
        have heq := List.takeWhile_eq_self_iff.1
          ((List.takeWhile_prefix _).eq_of_length hlength) _ (h hunsub)
        simp at heq
    · have hall : ∀ e ∈ log.dropWhile (· ≠ .subscribed n), decide (e ≠ .unsubscribed n) = true := by
        intro e he
        have hmem := (List.dropWhile_suffix _).subset he
        simpa using fun heq : e = .unsubscribed n => hunsub (heq ▸ hmem)
      have htake := List.takeWhile_eq_self_iff.2 hall
      rw [if_pos (by rw [htake]), subscribedSpan, htake, List.countP_append]
      have hlive : Subscribed n log := ⟨hsub, hunsub⟩
      cases e with
      | tick called => simp [WheelEvent.isTick, hlive]
      | subscribed m => simp [WheelEvent.isTick]
      | unsubscribed m =>
        by_cases hm : m = n <;> simp [hm, WheelEvent.isTick]
  · have hlive : ¬ Subscribed n log := fun hlive => hsub hlive.1
    have hdrop := dropWhile_subscribed_of_not_mem hsub
    rw [subscribedSpan, List.dropWhile_append, subscribedSpan, hdrop]
    cases e with
    | tick called => simp [hlive]
    | subscribed m => by_cases hm : m = n <;> simp [hm, WheelEvent.isTick]
    | unsubscribed m => by_cases hm : m = n <;> simp [hm, WheelEvent.isTick]

theorem subscribed_concat (e : WheelEvent) : Subscribed n (log ++ [e]) ↔
    (.subscribed n ∈ log ∨ e = .subscribed n) ∧ .unsubscribed n ∉ log ∧ e ≠ .unsubscribed n := by
  simp [Subscribed, eq_comm]

/-- Each tick called what was alive, once. -/
def ExactTicks (log : List WheelEvent) : Prop :=
  ∀ before called after, log = before ++ .tick called :: after →
    called.Nodup ∧ ∀ n, n ∈ called ↔ Subscribed n before

theorem ExactTicks.concat (h : ExactTicks log) {e : WheelEvent}
    (he : ∀ called, e = .tick called → called.Nodup ∧ ∀ n, n ∈ called ↔ Subscribed n log) :
    ExactTicks (log ++ [e]) := by
  intro before called after hlog
  rcases List.eq_nil_or_concat after with rfl | ⟨after, e', rfl⟩
  · obtain ⟨rfl, hlast⟩ := List.append_inj' hlog rfl
    exact he called (List.singleton_inj.1 hlast)
  · have hsplit : log ++ [e] = (before ++ .tick called :: after) ++ [e'] := by
      rw [hlog, List.concat_eq_append, List.append_assoc, List.cons_append]
    exact h before called after (List.append_inj' hsplit rfl).1

theorem callCount_concat (e : WheelEvent) :
    callCount n (log ++ [e]) = callCount n log + e.callsOf n := by
  simp [callCount]

/-- A tick that calls what is alive counts for the call and for the span. -/
theorem callsOf_tick {called : List ℕ} (hnodup : called.Nodup)
    (hmem : n ∈ called ↔ Subscribed n log) :
    (WheelEvent.tick called).callsOf n =
      if (WheelEvent.tick called).isTick = true ∧ Subscribed n log then 1 else 0 := by
  by_cases hlive : Subscribed n log
  · simp [WheelEvent.callsOf, WheelEvent.isTick, hlive,
      List.count_eq_one_of_mem hnodup (hmem.2 hlive)]
  · simp [WheelEvent.callsOf, WheelEvent.isTick, hlive,
      List.count_eq_zero_of_not_mem fun h => hlive (hmem.1 h)]

end Log

/-! ## The invariant -/

namespace TimerWheel

variable {ν : Type} {s t : TimerWheel ν}

/-- The ids are the numbers of the subscriptions; the map holds those that are alive; and so the
ticks called those that were. -/
structure Inv (s : TimerWheel ν) : Prop where
  counter : s.counter = s.subscriptions
  find : ∀ n callback, s.callbacks.find n = some callback ↔ callback = n ∧ Subscribed n s.log
  handles : ∀ x handle, s.handles x = some handle →
    handle.subscription.id = handle.origin ∧ handle.origin < s.subscriptions
  subscribed : ∀ n, .subscribed n ∈ s.log ↔ n < s.subscriptions
  ordered : ∀ n, SpanOrdered n s.log
  exact : ExactTicks s.log
  calls : ∀ n, callCount n s.log = (subscribedSpan n s.log).countP WheelEvent.isTick

namespace Inv

theorem start : Inv ({} : TimerWheel ν) where
  counter := rfl
  find := by simp [Subscribed]
  handles := by simp
  subscribed := by simp
  ordered := by simp [SpanOrdered]
  exact := by simp [ExactTicks]
  calls := fun _ => rfl

theorem called_eq (h : Inv s) : s.called = s.callbacks.keys := by
  have hsome : ∀ n ∈ s.callbacks.keys, s.callbacks.find n = some n := by
    intro n hn
    obtain ⟨callback, hfind⟩ := Option.isSome_iff_exists.1 ((s.callbacks.mem_keys n).1 hn)
    rw [hfind, ((h.find n callback).1 hfind).1]
  rw [called, List.filterMap_congr hsome, List.filterMap_some]

theorem mem_called (h : Inv s) (n : ℕ) : n ∈ s.called ↔ Subscribed n s.log := by
  rw [h.called_eq, s.callbacks.mem_keys, Option.isSome_iff_exists]
  constructor
  · rintro ⟨callback, hfind⟩
    exact ((h.find n callback).1 hfind).2
  · exact fun hlive => ⟨n, (h.find n n).2 ⟨rfl, hlive⟩⟩

theorem nodup_called (h : Inv s) : s.called.Nodup := by
  rw [h.called_eq]
  exact s.callbacks.nodup

/-- What the log says after one more event. -/
theorem log_concat (h : Inv s) {e : WheelEvent}
    (hunsub : ∀ n, e = .unsubscribed n → n < s.subscriptions)
    (htick : ∀ called, e = .tick called → called = s.called) :
    (∀ n, SpanOrdered n (s.log ++ [e])) ∧ ExactTicks (s.log ++ [e]) ∧
      ∀ n, callCount n (s.log ++ [e]) =
        (subscribedSpan n (s.log ++ [e])).countP WheelEvent.isTick := by
  refine ⟨fun n => (h.ordered n).concat fun he => (h.subscribed n).2 (hunsub n he), ?_, ?_⟩
  · refine h.exact.concat fun called he => ?_
    rw [htick called he]
    exact ⟨h.nodup_called, h.mem_called⟩
  · intro n
    rw [callCount_concat, countP_span_concat (h.ordered n), h.calls]
    congr 1
    cases e with
    | tick called =>
      rw [htick called rfl]
      exact callsOf_tick h.nodup_called (h.mem_called n)
    | subscribed m => simp [WheelEvent.callsOf, WheelEvent.isTick]
    | unsubscribed m => simp [WheelEvent.callsOf, WheelEvent.isTick]

variable [DecidableEq ν]

theorem subscribe (h : Inv s) {x : ν} (hs : s.step (.subscribe x) = some t)
    (hsub : t.subscriptions < 2 ^ 64) : Inv t := by
  cases hs
  have hfresh : .subscribed s.subscriptions ∉ s.log := by simp [h.subscribed]
  have hnever : .unsubscribed s.subscriptions ∉ s.log := fun hunsub =>
    hfresh ((h.ordered _).subscribed hunsub)
  have hnone : s.callbacks.find s.counter = none := by
    rw [h.counter]
    cases hfind : s.callbacks.find s.subscriptions with
    | none => rfl
    | some callback => exact absurd ((h.find _ _).1 hfind).2.1 hfresh
  obtain ⟨hordered, hexact, hcalls⟩ := h.log_concat (e := .subscribed s.subscriptions)
    (by simp) (by simp)
  constructor
  case counter =>
    show (s.counter + 1) % 2 ^ 64 = s.subscriptions + 1
    rw [h.counter]
    exact Nat.mod_eq_of_lt hsub
  case find =>
    intro n callback
    simp only [emplace, hnone, Option.isSome_none, Bool.false_eq_true, if_false]
    rw [UnorderedMap.find_set, subscribed_concat, h.counter]
    by_cases hn : n = s.subscriptions
    · subst hn
      simp [hnever, eq_comm]
    · rw [if_neg hn, h.find]
      simp [Subscribed, Ne.symm hn]
  case handles =>
    intro y handle hy
    by_cases hyx : y = x
    · subst hyx
      simp only [Function.update_self] at hy
      cases hy
      exact ⟨h.counter, Nat.lt_succ_self _⟩
    · simp only [Function.update_of_ne hyx] at hy
      exact (h.handles y handle hy).imp_right Nat.lt_succ_of_lt
  case subscribed =>
    intro n
    rw [List.mem_append, h.subscribed, List.mem_singleton, WheelEvent.subscribed.injEq]
    show _ ↔ n < s.subscriptions + 1
    omega
  case ordered => exact hordered
  case exact => exact hexact
  case calls => exact hcalls

theorem move (h : Inv s) {x y : ν} (hs : s.step (.move x y) = some t) : Inv t := by
  obtain ⟨handle, hx, hs⟩ := Option.bind_eq_some_iff.1 hs
  cases hs
  refine ⟨h.counter, h.find, ?_, h.subscribed, h.ordered, h.exact, h.calls⟩
  intro z handle' hz
  have hhandle := h.handles x handle hx
  by_cases hzx : z = x
  · subst hzx
    simp only [Function.update_self] at hz
    cases hz
    exact hhandle
  · simp only [Function.update_of_ne hzx] at hz
    by_cases hzy : z = y
    · subst hzy
      simp only [Function.update_self] at hz
      cases hz
      exact hhandle
    · simp only [Function.update_of_ne hzy] at hz
      exact h.handles z handle' hz

/-- Unsubscribing, taken apart. -/
theorem unsubscribe_eq_some {x : ν} (hs : s.step (.unsubscribe x) = some t) :
    ∃ handle, s.handles x = some handle ∧ t = { s with
      callbacks := s.callbacks.erase handle.subscription.id
      log := s.log ++ [.unsubscribed handle.origin] } := by
  obtain ⟨handle, hx, hs⟩ := Option.bind_eq_some_iff.1 hs
  obtain ⟨_, _, hs⟩ := Option.bind_eq_some_iff.1 hs
  exact ⟨handle, hx, (Option.some.inj hs).symm⟩

theorem unsubscribe (h : Inv s) {x : ν} (hs : s.step (.unsubscribe x) = some t) : Inv t := by
  obtain ⟨handle, hx, rfl⟩ := unsubscribe_eq_some hs
  obtain ⟨hid, horigin⟩ := h.handles x handle hx
  obtain ⟨hordered, hexact, hcalls⟩ := h.log_concat (e := .unsubscribed handle.origin)
    (by simpa using horigin) (by simp)
  constructor
  case counter => exact h.counter
  case find =>
    intro n callback
    rw [UnorderedMap.find_erase, subscribed_concat, hid]
    by_cases hn : n = handle.origin
    · simp [hn]
    · rw [if_neg hn, h.find]
      simp [Subscribed, Ne.symm hn]
  case handles => exact h.handles
  case subscribed =>
    intro n
    rw [List.mem_append, h.subscribed]
    simp
  case ordered => exact hordered
  case exact => exact hexact
  case calls => exact hcalls

theorem tick (h : Inv s) (hs : s.step .tick = some t) : Inv t := by
  cases hs
  obtain ⟨hordered, hexact, hcalls⟩ := h.log_concat (e := .tick s.called) (by simp) (by simp)
  constructor
  case counter => exact h.counter
  case find =>
    intro n callback
    rw [h.find, subscribed_concat]
    simp [Subscribed]
  case handles => exact h.handles
  case subscribed =>
    intro n
    rw [List.mem_append, h.subscribed]
    simp
  case ordered => exact hordered
  case exact => exact hexact
  case calls => exact hcalls

end Inv

/-- The subscriptions are only counted up. -/
theorem subscriptions_le [DecidableEq ν] {a : WheelAction ν} (hs : s.step a = some t) :
    s.subscriptions ≤ t.subscriptions := by
  cases a with
  | subscribe x =>
    cases hs
    exact Nat.le_succ _
  | move x y =>
    obtain ⟨handle, -, hs⟩ := Option.bind_eq_some_iff.1 hs
    cases hs
    rfl
  | unsubscribe x =>
    obtain ⟨handle, -, rfl⟩ := Inv.unsubscribe_eq_some hs
    rfl
  | tick =>
    cases hs
    rfl

theorem inv_of_reachable [DecidableEq ν] (h : Reachable step ({} : TimerWheel ν) s) :
    s.subscriptions < 2 ^ 64 → Inv s := by
  refine h.invariant (I := fun s => s.subscriptions < 2 ^ 64 → Inv s) (fun _ => .start)
    fun s a t hi _ hs hsub => ?_
  have h := hi ((subscriptions_le hs).trans_lt hsub)
  cases a with
  | subscribe x => exact h.subscribe hs hsub
  | move x y => exact h.move hs
  | unsubscribe x => exact h.unsubscribe hs
  | tick => exact h.tick hs

end TimerWheel

/-- **Each tick calls what is subscribed.**  In every run with less than `2 ^ 64` subscriptions:
each tick calls, once each, the callbacks that are subscribed and were not unsubscribed, and no
others; unsubscribing a handle removes the subscription it came from and no other; and each
callback was called as often as there were ticks between its subscription and the first time that
it was unsubscribed. -/
theorem subscriptions_exact {ν : Type} [DecidableEq ν] {s : TimerWheel ν}
    (h : Reachable TimerWheel.step {} s) (hsub : s.subscriptions < 2 ^ 64) :
    (∀ before called after, s.log = before ++ .tick called :: after →
        called.Nodup ∧ ∀ n, n ∈ called ↔ Subscribed n before) ∧
      (∀ x handle t, s.handles x = some handle → s.step (.unsubscribe x) = some t →
        ∀ n, n ∈ t.called ↔ n ∈ s.called ∧ n ≠ handle.origin) ∧
      ∀ n, callCount n s.log = (subscribedSpan n s.log).countP WheelEvent.isTick := by
  have hi := TimerWheel.inv_of_reachable h hsub
  refine ⟨hi.exact, ?_, hi.calls⟩
  intro x handle t hx hs n
  have hi' := hi.unsubscribe hs
  obtain ⟨handle', hx', rfl⟩ := TimerWheel.Inv.unsubscribe_eq_some hs
  rw [hx] at hx'
  cases hx'
  rw [hi'.mem_called, hi.mem_called, subscribed_concat]
  simp [Subscribed, eq_comm, and_assoc]

/-- Two callbacks, one of them unsubscribed twice. -/
theorem subscriptions_exact_two : ∃ s : TimerWheel Bool, s.subscriptions = 2 ∧
    callCount 0 s.log = 1 ∧ callCount 1 s.log = 2 ∧
      ∀ n, callCount n s.log = (subscribedSpan n s.log).countP WheelEvent.isTick := by
  obtain ⟨s, hs, h⟩ := exists_reaches TimerWheel.step (fun _ _ => True) {}
    [.subscribe false, .tick, .move false true, .unsubscribe true, .subscribe false, .tick,
      .unsubscribe true, .tick]
    (fun s => s.subscriptions = 2 ∧ callCount 0 s.log = 1 ∧ callCount 1 s.log = 2)
    (by decide +kernel)
  simp only [decide_eq_true_eq] at h
  exact ⟨s, h.1, h.2.1, h.2.2, (subscriptions_exact hs (by rw [h.1]; decide)).2.2⟩

end BlockchainMessaging
