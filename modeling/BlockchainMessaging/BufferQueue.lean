import BlockchainMessaging.BufferRuns

/-!
# The order of the buffer

`Buffer` is a queue in two stages: messages are collected, collected messages become a block, and
the blocks are taken out in the order in which they came.  To its users it is one queue of
messages, but for one of the two overloads of `push`: a vector is inserted in front of what has
been collected, and not behind it.

## Main definitions

* `Buffer.contents` — the messages in a buffer, from front to back.
* `BufferQueue`, `BufferQueue.call` — a buffer, and what was pushed and popped.
* `BufferQueue.InOrder` — first in, first out.
-/

namespace BlockchainMessaging

namespace Buffer

/-- The messages of the queued blocks, and then those that are not saved. -/
def contents (b : Buffer) : List Message := b.blocks.flatMap Block.data ++ b.messages

theorem contents_push (b : Buffer) (message : Message) :
    (b.push message).contents = b.contents ++ [message] := by
  simp [contents, push]

/-- A save moves the border between the two stages. -/
theorem contents_save (b : Buffer) (now : ℕ) : (b.save now).contents = b.contents := by
  rw [save]
  split
  · simp [contents]
  · rfl

/-- A pop takes what is in front. -/
theorem contents_pop (b : Buffer) :
    b.pop.1.toList.flatMap Block.data ++ b.pop.2.contents = b.contents := by
  obtain ⟨hblocks, hmessages⟩ := b.pop_eq
  rw [contents, hmessages, ← List.append_assoc, ← List.flatMap_append, hblocks, contents]

/-- A vector goes in between. -/
theorem contents_pushAll (b : Buffer) (messages : List Message) :
    (b.pushAll messages).contents = b.blocks.flatMap Block.data ++ (messages ++ b.messages) := rfl

end Buffer

/-- A call of one of the functions of a buffer. -/
inductive QueueCall
  | push (message : Message)
  | pushAll (messages : List Message)
  /-- A save when the clock shows `now`. -/
  | save (now : ℕ)
  | pop

/-- A buffer, with the messages that were pushed and the blocks that were popped. -/
structure BufferQueue where
  buffer : Buffer
  pushed : List Message
  popped : List Block

namespace BufferQueue

/-- An empty buffer. -/
def start : BufferQueue where
  buffer := ⟨[], [], Buffer.queued_nil⟩
  pushed := []
  popped := []

/-- One call. -/
def call (s : BufferQueue) : QueueCall → BufferQueue
  | .push message =>
      { s with buffer := s.buffer.push message, pushed := s.pushed ++ [message] }
  | .pushAll messages =>
      { s with buffer := s.buffer.pushAll messages, pushed := s.pushed ++ messages }
  | .save now => { s with buffer := s.buffer.save now }
  | .pop => { s with buffer := s.buffer.pop.2, popped := s.popped ++ s.buffer.pop.1.toList }

/-- First in, first out: the data of the popped blocks, that of the queued blocks and the unsaved
messages are what was pushed, in the order of the pushes. -/
def InOrder (s : BufferQueue) : Prop :=
  s.popped.flatMap Block.data ++ s.buffer.blocks.flatMap Block.data ++ s.buffer.messages = s.pushed

instance (s : BufferQueue) : Decidable s.InOrder := inferInstanceAs (Decidable (_ = _))

/-- A pushed vector and the messages that are not saved may change places. -/
def Commutes (s : BufferQueue) : QueueCall → Prop
  | .pushAll messages => messages ++ s.buffer.messages = s.buffer.messages ++ messages
  | _ => True

variable {s : BufferQueue}

theorem inOrder_iff : s.InOrder ↔ s.popped.flatMap Block.data ++ s.buffer.contents = s.pushed := by
  rw [InOrder, Buffer.contents, List.append_assoc]

/-- One call keeps the order, but for a vector that comes in front of other messages. -/
theorem inOrder_call (h : s.InOrder) (c : QueueCall) : (s.call c).InOrder ↔ s.Commutes c := by
  rw [inOrder_iff] at h ⊢
  cases c with
  | push message => simp [call, Commutes, Buffer.contents_push, ← h]
  | pushAll messages =>
    -- Up to the end of the queued blocks both sides are the same.
    rw [call, Commutes, Buffer.contents_pushAll, ← h, Buffer.contents]
    simp only [List.append_assoc, List.append_cancel_left_eq]
  | save now => simp [call, Commutes, Buffer.contents_save, h]
  | pop =>
    have hpop := s.buffer.contents_pop
    simp only [call, Commutes, List.flatMap_append, List.append_assoc, hpop, h]

end BufferQueue

/-- **When the buffer is a queue.**  In a sequence of calls, everything is in order after each of
them if and only if each vector that is pushed commutes with the messages that are unsaved at
that point; as it does when one of the two is empty. -/
theorem inOrder_iff_commutes (calls : List QueueCall) :
    (∀ p, p <+: calls → (p.foldl BufferQueue.call .start).InOrder) ↔
      ∀ p c, p ++ [c] <+: calls → (p.foldl BufferQueue.call .start).Commutes c := by
  have hstart : BufferQueue.start.InOrder := rfl
  exact forall_prefix_iff hstart (fun _ c h => BufferQueue.inOrder_call h c) calls

/-- A message, and then a vector of messages: the vector is in front. -/
theorem not_inOrder_pushAll :
    ¬ ∀ calls : List QueueCall, (calls.foldl BufferQueue.call .start).InOrder := by
  intro hall
  have := hall [.push ⟨900, "x", "ann"⟩, .pushAll [⟨950, "y", "ann"⟩]]
  revert this
  decide +kernel

end BlockchainMessaging
