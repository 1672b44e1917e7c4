import BlockchainMessaging.Itf

/-!
# The message buffer of a node

`Buffer` collects client messages.  `save` turns the messages collected so far into a
block and queues it, `pop` takes the oldest queued block.  The structure carries the one
fact about the queue that the consensus rests on: a queued block is pending and has data.

## Main definitions

* `Buffer` — unsaved messages and queued blocks.
* `Buffer.push` — a client message arrives.
* `Buffer.save`, `Buffer.pop` — the two calls of a slot.
-/

namespace BlockchainMessaging

/-- `Buffer`: unsaved messages, and a queue of blocks with data. -/
structure Buffer where
  messages : List Message
  blocks : List Block
  /-- Only `save` queues a block, and it never queues an empty or completed one. -/
  queued : ∀ b ∈ blocks, b.data ≠ [] ∧ b.state = .PENDING

namespace Buffer

/-- Nothing is queued. -/
theorem queued_nil : ∀ b ∈ ([] : List Block), b.data ≠ [] ∧ b.state = .PENDING := by simp

/-- `Buffer::push` of one message. -/
def push (b : Buffer) (message : Message) : Buffer :=
  { b with messages := b.messages ++ [message] }

/-- `Buffer::save` when the clock shows `now`. -/
def save (b : Buffer) (now : ℕ) : Buffer :=
  if h : b.messages ≠ [] then
    { messages := []
      blocks := b.blocks ++ [Block.ofData now b.messages]
      queued := by
        intro c hc
        rcases List.mem_append.1 hc with hc | hc
        · exact b.queued c hc
        · rw [List.mem_singleton.1 hc]
          exact ⟨h, rfl⟩ }
  else b

/-- `Buffer::pop`: the oldest queued block, if there is one. -/
def pop (b : Buffer) : Option Block × Buffer :=
  match h : b.blocks with
  | [] => (none, b)
  | c :: cs => (some c, { b with
      blocks := cs
      queued := fun d hd => b.queued d (by rw [h]; exact List.mem_cons_of_mem _ hd) })

/-- What `pop` hands out was queued. -/
theorem mem_of_pop {b : Buffer} {c : Block} (h : c ∈ b.pop.1) : c ∈ b.blocks := by
  rw [pop] at h
  split at h
  · cases h
  · next d ds hd =>
    cases h
    rw [hd]
    exact List.mem_cons_self

/-- So it is pending and has data. -/
theorem queued_of_pop {b : Buffer} (c : Block) (h : c ∈ b.pop.1) :
    c.data ≠ [] ∧ c.state = .PENDING :=
  b.queued c (mem_of_pop h)

end Buffer

end BlockchainMessaging
