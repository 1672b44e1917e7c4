import BlockchainMessaging.ClientFraming
import BlockchainMessaging.Lib.Transition

/-!
# The receiving side of a client

One thread of a client receives and pushes into a buffer; a timer thread looks into the buffer,
copies it, decodes and prints the copy, and clears the buffer.  Each call on the buffer locks it
for itself.  The line of `listen` that is to lock the whole round declares a variable of the name
`mutex`, and locks nothing; the receiver would not take that lock anyway.

## Main definitions

* `Common.Buffer` — the buffer, and its functions.
* `Listener`, `Listener.step` — the buffer, and how far the timer thread has come.
* `printed_or_buffered` — what is lost is what is pushed after the copy was made.
-/

namespace BlockchainMessaging

/-- `common::Buffer`. -/
structure Common.Buffer (dataType : Type) where
  data : List dataType := []

namespace Common.Buffer

variable {dataType : Type}

/-- `Buffer::pushBack`. -/
def pushBack (b : Buffer dataType) (message : dataType) : Buffer dataType :=
  { data := b.data ++ [message] }

/-- `Buffer::isEmpty`. -/
def isEmpty (b : Buffer dataType) : Bool := b.data.isEmpty

/-- `Buffer::getData`: a copy. -/
def getData (b : Buffer dataType) : List dataType := b.data

/-- `Buffer::clearBuffer`. -/
def clearBuffer (_ : Buffer dataType) : Buffer dataType := { data := [] }

end Common.Buffer

/-- Where the timer thread stands in `handleBufferedData`. -/
inductive ListenRound
  /-- Before `isEmpty`. -/
  | outside
  /-- Before `getData`. -/
  | notEmpty
  /-- In the loop over the copy, with `rest` to come. -/
  | printing (rest : List String)
  deriving DecidableEq, Repr

/-- A client that listens.  What was pushed so far is kept on the side, for the statements. -/
structure Listener where
  buffer : Common.Buffer String := {}
  round : ListenRound := .outside
  printed : List Message := []
  pushed : List String := []

/-- Who moves. -/
inductive ListenAction
  /-- The receiver's `onReceived`. -/
  | receive (msg : Received)
  /-- The next step of `handleBufferedData`. -/
  | handle

namespace Listener

/-- One step.  Where the decoding throws, the exception leaves the timer thread, and that is the
end of the program. -/
def step (messageSerializer : MessageSerializer) (s : Listener) : ListenAction → Option Listener
  | .receive msg =>
      some { s with
        buffer := s.buffer.pushBack msg.cString
        pushed := s.pushed ++ [msg.cString] }
  | .handle =>
      match s.round with
      | .outside => some (if s.buffer.isEmpty then s else { s with round := .notEmpty })
      | .notEmpty => some { s with round := .printing s.buffer.getData }
      | .printing (msg :: rest) => do
          let message ← Client.decode messageSerializer msg
          return { s with round := .printing rest, printed := s.printed ++ [message] }
      | .printing [] => some { s with buffer := s.buffer.clearBuffer, round := .outside }

/-- Nothing is pushed while the timer thread is between its copy and the clearing. -/
def Undisturbed (s : Listener) : ListenAction → Prop
  | .receive _ => s.round = .outside ∨ s.round = .notEmpty
  | .handle => True

instance (s : Listener) (a : ListenAction) : Decidable (s.Undisturbed a) :=
  match a with
  | .receive _ => inferInstanceAs (Decidable (_ ∨ _))
  | .handle => inferInstanceAs (Decidable True)

/-- What is to be printed: what is left of the copy, or what is in the buffer. -/
def pending (s : Listener) : List String :=
  match s.round with
  | .outside => s.buffer.data
  | .notEmpty => s.buffer.data
  | .printing rest => rest

variable {messageSerializer : MessageSerializer} {s t : Listener}

/-- What was pushed was printed or is to be printed, in this order. -/
def Inv (messageSerializer : MessageSerializer) (s : Listener) : Prop :=
  ∃ shown, s.pushed = shown ++ s.pending ∧
    shown.map (Client.decode messageSerializer) = s.printed.map some

theorem Inv.step {a : ListenAction} (h : Inv messageSerializer s) (hok : s.Undisturbed a)
    (hs : s.step messageSerializer a = some t) : Inv messageSerializer t := by
  obtain ⟨shown, hpushed, hshown⟩ := h
  cases a with
  | receive msg =>
    cases hs
    refine ⟨shown, ?_, hshown⟩
    rcases hok with hround | hround
    · simp [pending, hround, Common.Buffer.pushBack] at hpushed ⊢
      simp [hpushed]
    · simp [pending, hround, Common.Buffer.pushBack] at hpushed ⊢
      simp [hpushed]
  | handle =>
    simp only [Listener.step] at hs
    cases hround : s.round with
    | outside =>
      simp only [pending, hround] at hpushed
      simp only [hround] at hs
      split at hs
      · cases hs
        exact ⟨shown, by simpa [pending, hround] using hpushed, hshown⟩
      · cases hs
        exact ⟨shown, hpushed, hshown⟩
    | notEmpty =>
      simp only [pending, hround] at hpushed
      simp only [hround] at hs
      cases hs
      exact ⟨shown, hpushed, hshown⟩
    | printing rest =>
      simp only [pending, hround] at hpushed
      cases rest with
      | nil =>
        simp only [hround] at hs
        cases hs
        exact ⟨shown, hpushed, hshown⟩
      | cons msg rest =>
        simp only [hround] at hs
        obtain ⟨message, hmessage, hs⟩ := Option.bind_eq_some_iff.1 hs
        cases hs
        refine ⟨shown ++ [msg], ?_, ?_⟩
        · rw [hpushed, List.append_assoc]
          rfl
        · rw [List.map_append, List.map_append, hshown, List.map_singleton, hmessage,
            List.map_singleton]

end Listener

/-- **What a client receives is printed once or still in the buffer.**  In every run in which
nothing is pushed between a round's copy and its clearing, and at every point outside a round:
what was pushed is what was printed, message by message, followed by what is in the buffer. -/
theorem printed_or_buffered {messageSerializer : MessageSerializer} {s : Listener}
    (h : Reaches (Listener.step messageSerializer) Listener.Undisturbed {} s)
    (hround : s.round = .outside) :
    ∃ shown, s.pushed = shown ++ s.buffer.data ∧
      shown.map (Client.decode messageSerializer) = s.printed.map some := by
  have hi : Listener.Inv messageSerializer s :=
    h.invariant ⟨[], rfl, rfl⟩ fun _ _ _ hi hok hs => hi.step hok hs
  simpa [Listener.Inv, Listener.pending, hround] using hi

/-- Two messages arrive, one of them while the timer thread looks into the buffer. -/
theorem printed_or_buffered_two : ∃ s : Listener, s.pushed.length = 2 ∧ s.printed.length = 2 ∧
    ∃ shown, s.pushed = shown ++ s.buffer.data ∧
      shown.map (Client.decode messageSerializer) = s.printed.map some := by
  obtain ⟨s, hs, h⟩ := exists_reaches (Listener.step messageSerializer) Listener.Undisturbed {}
    [.receive ⟨messageSerializer.serialize ⟨1000, "hello", "ann"⟩, ""⟩, .handle,
      .receive ⟨messageSerializer.serialize ⟨1001, "world", "ann"⟩, ""⟩, .handle, .handle,
      .handle, .handle]
    (fun s => s.round = .outside ∧ s.pushed.length = 2 ∧ s.printed.length = 2) (by decide +kernel)
  simp only [decide_eq_true_eq] at h
  exact ⟨s, h.2.1, h.2.2, printed_or_buffered hs h.1⟩

/-- A message that arrives after the copy was made is lost. -/
theorem not_printed_or_buffered :
    ¬ ∀ s : Listener, Reachable (Listener.step messageSerializer) {} s → s.round = .outside →
      (∀ body ∈ s.pushed, (Client.decode messageSerializer body).isSome = true) →
        ∃ shown, s.pushed = shown ++ s.buffer.data ∧
          shown.map (Client.decode messageSerializer) = s.printed.map some := by
  intro hall
  obtain ⟨s, hs, h⟩ := exists_reaches (Listener.step messageSerializer) (fun _ _ => True) {}
    [.receive ⟨messageSerializer.serialize ⟨1000, "hello", "ann"⟩, ""⟩, .handle, .handle,
      .receive ⟨messageSerializer.serialize ⟨1001, "world", "ann"⟩, ""⟩, .handle, .handle]
    (fun s => s.round = .outside ∧ s.buffer.data = [] ∧ s.pushed.length = 2 ∧
      s.printed.length = 1 ∧
      ∀ body ∈ s.pushed, (Client.decode messageSerializer body).isSome = true)
    (by decide +kernel)
  simp only [decide_eq_true_eq] at h
  obtain ⟨hround, hdata, hpushed, hprinted, hdecode⟩ := h
  obtain ⟨shown, hshown, hmap⟩ := hall s hs hround hdecode
  rw [hdata, List.append_nil] at hshown
  have hlength := congrArg List.length hmap
  rw [List.length_map, List.length_map, ← hshown, hpushed, hprinted] at hlength
  cases hlength

end BlockchainMessaging
