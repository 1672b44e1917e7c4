import Mathlib.Data.List.Basic
import Mathlib.Logic.Function.Basic

/-!
# A message broker

A broker has queues with names, and each queue has one consumer.  What is published under a name
goes to the end of the queue of this name; where no such queue was declared, it is dropped, and the
sender is not told.  A queue that is declared again is as it was.  The consumer receives the oldest
body, and does not acknowledge it: the broker forgets a body when it sends it.  So when the consumer
goes away, the bodies that are on their way to it are lost, and these are the oldest ones.

How a server does this is its own matter: it is a parameter here, and what is known about it are the
laws of `MessageServer`, each about one call.

## Main definitions

* `MessageServer` — the calls of a server, and their laws.
* `Broker` — the state of a server.
* `Broker.declareQueue`, `Broker.publish`, `Broker.publishAll`, `Broker.deliver`, `Broker.cancel` —
  what happens to it.
* `MessageServer.inMemory` — a server.
-/

namespace BlockchainMessaging

universe u v w

/-- A server with queues of bodies. -/
structure MessageServer (ν : Type u) (α : Type v) [DecidableEq ν] where
  State : Type w
  initial : State
  /-- The queue exists. -/
  declared : State → ν → Bool
  /-- What was published to the queue, and has not come to the consumer; the oldest first. -/
  bodies : State → ν → List α
  declareQueue : State → ν → State
  publish : State → ν × α → State
  /-- The oldest body comes to the consumer. -/
  deliver : State → ν → State
  /-- The consumer goes away, with so many bodies on their way to it. -/
  cancel : State → ν → ℕ → State
  declared_initial : ∀ name, declared initial name = false
  bodies_of_not_declared : ∀ s name, declared s name = false → bodies s name = []
  declared_declareQueue : ∀ s name name', declared (declareQueue s name) name' =
    (decide (name' = name) || declared s name')
  bodies_declareQueue : ∀ s name name', bodies (declareQueue s name) name' = bodies s name'
  declared_publish : ∀ s message name, declared (publish s message) name = declared s name
  bodies_publish : ∀ s message name, bodies (publish s message) name =
    bodies s name ++ if declared s name ∧ message.1 = name then [message.2] else []
  declared_deliver : ∀ s name name', declared (deliver s name) name' = declared s name'
  bodies_deliver : ∀ s name name', bodies (deliver s name) name' =
    if name' = name then (bodies s name).tail else bodies s name'
  declared_cancel : ∀ s name lost name', declared (cancel s name lost) name' = declared s name'
  bodies_cancel : ∀ s name lost name', bodies (cancel s name lost) name' =
    if name' = name then (bodies s name).drop lost else bodies s name'

/-- The state of a server. -/
structure Broker {ν : Type u} {α : Type v} [DecidableEq ν] (S : MessageServer.{u, v, w} ν α) where
  state : S.State

namespace Broker

variable {ν : Type u} {α : Type v} [DecidableEq ν] {S : MessageServer.{u, v, w} ν α}

/-- No queue was declared. -/
def empty : Broker S := ⟨S.initial⟩

/-- The queue exists. -/
def declared (b : Broker S) (name : ν) : Bool := S.declared b.state name

/-- What waits in a queue, the oldest first. -/
def bodies (b : Broker S) (name : ν) : List α := S.bodies b.state name

/-- The queue exists from now on. -/
def declareQueue (b : Broker S) (name : ν) : Broker S := ⟨S.declareQueue b.state name⟩

/-- To the queue of this name, if there is one. -/
def publish (b : Broker S) (message : ν × α) : Broker S := ⟨S.publish b.state message⟩

/-- One message after the other. -/
def publishAll (b : Broker S) (messages : List (ν × α)) : Broker S := messages.foldl publish b

/-- The consumer has received the oldest body. -/
def deliver (b : Broker S) (name : ν) : Broker S := ⟨S.deliver b.state name⟩

/-- The consumer is gone, and so many bodies with it. -/
def cancel (b : Broker S) (name : ν) (lost : ℕ) : Broker S := ⟨S.cancel b.state name lost⟩

@[simp] theorem declared_empty (name : ν) : (empty : Broker S).declared name = false :=
  S.declared_initial name

@[simp] theorem bodies_empty (name : ν) : (empty : Broker S).bodies name = [] :=
  S.bodies_of_not_declared _ _ (S.declared_initial name)

/-- A queue that does not exist has nothing in it. -/
theorem bodies_of_not_declared {b : Broker S} {name : ν} (h : b.declared name = false) :
    b.bodies name = [] :=
  S.bodies_of_not_declared _ _ h

section Lemmas

variable (b : Broker S) (name name' : ν)

@[simp] theorem declared_declareQueue : (b.declareQueue name).declared name' =
    (decide (name' = name) || b.declared name') :=
  S.declared_declareQueue _ _ _

@[simp] theorem bodies_declareQueue : (b.declareQueue name).bodies name' = b.bodies name' :=
  S.bodies_declareQueue _ _ _

@[simp] theorem declared_publish (message : ν × α) :
    (b.publish message).declared name = b.declared name :=
  S.declared_publish _ _ _

theorem bodies_publish (message : ν × α) : (b.publish message).bodies name =
    b.bodies name ++ if b.declared name ∧ message.1 = name then [message.2] else [] :=
  S.bodies_publish _ _ _

@[simp] theorem declared_deliver : (b.deliver name).declared name' = b.declared name' :=
  S.declared_deliver _ _ _

theorem bodies_deliver : (b.deliver name).bodies name' =
    if name' = name then (b.bodies name).tail else b.bodies name' :=
  S.bodies_deliver _ _ _

@[simp] theorem declared_cancel (lost : ℕ) :
    (b.cancel name lost).declared name' = b.declared name' :=
  S.declared_cancel _ _ _ _

theorem bodies_cancel (lost : ℕ) : (b.cancel name lost).bodies name' =
    if name' = name then (b.bodies name).drop lost else b.bodies name' :=
  S.bodies_cancel _ _ _ _

/-- A consumer that has received everything loses nothing. -/
theorem bodies_cancel_zero : (b.cancel name 0).bodies name' = b.bodies name' := by
  rw [bodies_cancel, List.drop_zero]
  split
  · next h => rw [h]
  · rfl

@[simp] theorem declared_publishAll (messages : List (ν × α)) :
    (b.publishAll messages).declared name = b.declared name := by
  induction messages generalizing b with
  | nil => rfl
  | cons message messages ih =>
    rw [publishAll, List.foldl_cons, ← publishAll, ih, declared_publish]

/-- Each queue gets its own messages, in their order. -/
theorem bodies_publishAll (messages : List (ν × α)) : (b.publishAll messages).bodies name =
    b.bodies name ++ if b.declared name then
      (messages.filter fun message => message.1 = name).map Prod.snd else [] := by
  induction messages generalizing b with
  | nil => simp [publishAll]
  | cons message messages ih =>
    rw [publishAll, List.foldl_cons, ← publishAll, ih, bodies_publish, declared_publish]
    by_cases hdeclared : b.declared name = true
    · by_cases hname : message.1 = name
      · simp [hdeclared, hname]
      · simp [hdeclared, hname]
    · simp [hdeclared]

end Lemmas

end Broker

/-! ## A server -/

/-- A server that keeps a list for each queue. -/
def MessageServer.inMemory (ν : Type u) (α : Type v) [DecidableEq ν] : MessageServer ν α where
  State := ν → Option (List α)
  initial := fun _ => none
  declared := fun queue name => (queue name).isSome
  bodies := fun queue name => (queue name).getD []
  declareQueue := fun queue name => Function.update queue name (some ((queue name).getD []))
  publish := fun queue message =>
    Function.update queue message.1 ((queue message.1).map (· ++ [message.2]))
  deliver := fun queue name => Function.update queue name ((queue name).map List.tail)
  cancel := fun queue name lost => Function.update queue name ((queue name).map (List.drop lost))
  declared_initial := fun _ => rfl
  bodies_of_not_declared := fun queue name h => by
    rw [Option.isSome_eq_false_iff, Option.isNone_iff_eq_none] at h
    rw [h]
    rfl
  declared_declareQueue := fun queue name name' => by by_cases h : name' = name <;> simp [h]
  bodies_declareQueue := fun queue name name' => by by_cases h : name' = name <;> simp [h]
  declared_publish := fun queue message name => by by_cases h : name = message.1 <;> simp [h]
  bodies_publish := fun queue message name => by
    by_cases h : name = message.1
    · subst h
      cases queue message.1 <;> simp
    · simp [h, Ne.symm h]
  declared_deliver := fun queue name name' => by by_cases h : name' = name <;> simp [h]
  bodies_deliver := fun queue name name' => by
    by_cases h : name' = name
    · subst h
      cases queue name' <;> simp
    · simp [h]
  declared_cancel := fun queue name lost name' => by by_cases h : name' = name <;> simp [h]
  bodies_cancel := fun queue name lost name' => by
    by_cases h : name' = name
    · subst h
      cases queue name' <;> simp
    · simp [h]

end BlockchainMessaging
