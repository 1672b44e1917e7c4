import Mathlib.Data.Finset.Card
import BlockchainMessaging.Buffer
import BlockchainMessaging.Lib.Transition

/-!
# Many runs and one buffer

Every run of `SlotHandler` calls `Buffer::save` and then `Buffer::pop`, in two critical
sections, so one run may pop what another has saved, while clients push all the time.  What
matters is the count: a block that is queued was saved by some run, and every run that has
saved will still pop.

## Main definitions

* `Buffer.pushAll` — the other overload of `Buffer::push`.
* `BufferRuns`, `BufferRuns.step` — the buffer, and where each run stands.
* `buffered_once` — every message is in one place, and no block is left behind.
-/

namespace BlockchainMessaging

/-- `Buffer::push` of a vector: it is inserted in front. -/
def Buffer.pushAll (b : Buffer) (messages : List Message) : Buffer :=
  { b with messages := messages ++ b.messages }

/-- The call on the buffer that a run of `PendingBlockSaver::save` makes next. -/
inductive BufferCall
  | save
  | pop
  | done
  deriving DecidableEq, Repr

/-- The buffer, and all runs that use it.  `ι` names the runs.  What was pushed and what was
popped is kept on the side, for the statements. -/
structure BufferRuns (ι : Type) where
  buffer : Buffer
  call : ι → BufferCall
  pushed : List Message := []
  popped : List Block := []

/-- A call on the buffer. -/
inductive BufferAction (ι : Type)
  | push (message : Message)
  | pushAll (messages : List Message)
  /-- The run `r` saves when the clock shows `now`. -/
  | save (r : ι) (now : ℕ)
  | pop (r : ι)

namespace BufferRuns

/-- No run has begun, and nothing was pushed. -/
def start (ι : Type) : BufferRuns ι where
  buffer := ⟨[], [], Buffer.queued_nil⟩
  call := fun _ => .save

variable {ι : Type} [DecidableEq ι]

/-- One call. -/
def step (s : BufferRuns ι) : BufferAction ι → Option (BufferRuns ι)
  | .push message =>
      some { s with buffer := s.buffer.push message, pushed := s.pushed ++ [message] }
  | .pushAll messages =>
      some { s with buffer := s.buffer.pushAll messages, pushed := s.pushed ++ messages }
  | .save r now =>
      if s.call r = .save then
        some { s with buffer := s.buffer.save now, call := Function.update s.call r .pop }
      else none
  | .pop r =>
      if s.call r = .pop then
        some { s with
          buffer := s.buffer.pop.2
          call := Function.update s.call r .done
          popped := s.popped ++ s.buffer.pop.1.toList }
      else none

/-- The messages that are somewhere: unsaved, in a queued block, or in a popped one. -/
def messages (s : BufferRuns ι) : List Message :=
  s.buffer.messages ++ s.buffer.blocks.flatMap Block.data ++ s.popped.flatMap Block.data

end BufferRuns

namespace Buffer

/-- A save moves the messages into a block. -/
theorem perm_save (b : Buffer) (now : ℕ) :
    ((b.save now).messages ++ (b.save now).blocks.flatMap Block.data).Perm
      (b.messages ++ b.blocks.flatMap Block.data) := by
  rw [save]
  split
  · simpa using List.perm_append_comm
  · exact .refl _

theorem length_blocks_save (b : Buffer) (now : ℕ) :
    (b.save now).blocks.length ≤ b.blocks.length + 1 := by
  rw [save]
  split <;> simp

/-- A pop takes the oldest block, if there is one. -/
theorem pop_eq (b : Buffer) :
    b.pop.1.toList ++ b.pop.2.blocks = b.blocks ∧ b.pop.2.messages = b.messages := by
  rw [pop]
  split
  · next h => simp [h]
  · next c cs h => simp [h]

theorem length_blocks_pop (b : Buffer) : b.pop.2.blocks.length = b.blocks.length - 1 := by
  rw [pop]
  split
  · next h => simp [h]
  · next c cs h => simp [h]

end Buffer

namespace BufferRuns

variable {ι : Type} {s t : BufferRuns ι}

/-- Everything that was pushed is in one place; there is no more queued than runs that are
about to pop; what was popped has data. -/
structure Inv (s : BufferRuns ι) : Prop where
  pushed : s.pushed.Perm s.messages
  queued : ∃ between : Finset ι, (∀ r, r ∈ between ↔ s.call r = .pop) ∧
    s.buffer.blocks.length ≤ between.card
  popped : ∀ b ∈ s.popped, b.data ≠ []

theorem inv_start : Inv (start ι) where
  pushed := by simp [start, messages]
  queued := ⟨∅, by simp [start]⟩
  popped := by simp [start]

/-- A push changes neither the queue nor the runs. -/
theorem Inv.pushed_step (h : Inv s) {buffer : Buffer} {ms : List Message}
    (hblocks : buffer.blocks = s.buffer.blocks)
    (hmessages : buffer.messages.Perm (s.buffer.messages ++ ms)) :
    Inv { s with buffer, pushed := s.pushed ++ ms } where
  pushed := by
    have hp := (h.pushed.append_right ms)
    refine hp.trans ?_
    simp only [messages, hblocks, List.append_assoc]
    refine .trans ?_ (hmessages.symm.append_right _)
    rw [List.append_assoc]
    refine List.Perm.append_left _ ?_
    rw [← List.append_assoc]
    exact List.perm_append_comm
  queued := by simpa [hblocks] using h.queued
  popped := h.popped

theorem Inv.step [DecidableEq ι] {a : BufferAction ι} (h : Inv s) (hs : s.step a = some t) :
    Inv t := by
  obtain ⟨between, hmem, hle⟩ := h.queued
  cases a with
  | push message =>
    cases hs
    exact h.pushed_step rfl (by simp [Buffer.push])
  | pushAll ms =>
    cases hs
    exact h.pushed_step rfl List.perm_append_comm
  | save r now =>
    simp only [BufferRuns.step] at hs
    split at hs
    · next hcall =>
      cases hs
      have hr : r ∉ between := by simp [hmem, hcall]
      constructor
      case pushed =>
        exact h.pushed.trans ((s.buffer.perm_save now).symm.append_right _)
      case queued =>
        refine ⟨insert r between, fun r' => ?_, ?_⟩
        · by_cases hr' : r' = r
          · simp [hr']
          · simp [hr', hmem]
        · rw [Finset.card_insert_of_notMem hr]
          exact (s.buffer.length_blocks_save now).trans (Nat.succ_le_succ hle)
      case popped => exact h.popped
    · cases hs
  | pop r =>
    simp only [BufferRuns.step] at hs
    split at hs
    · next hcall =>
      cases hs
      have hr : r ∈ between := (hmem r).2 hcall
      obtain ⟨hblocks, hmessages⟩ := s.buffer.pop_eq
      constructor
      case pushed =>
        refine h.pushed.trans ?_
        simp only [messages, hmessages]
        nth_rewrite 1 [← hblocks]
        simp only [List.flatMap_append, List.append_assoc]
        refine List.Perm.append_left _ ?_
        rw [← List.append_assoc, ← List.append_assoc]
        refine .trans (List.perm_append_comm.append_right _) ?_
        rw [List.append_assoc, List.append_assoc]
        exact List.perm_append_comm.append_left _
      case queued =>
        refine ⟨between.erase r, fun r' => ?_, ?_⟩
        · by_cases hr' : r' = r
          · simp [hr']
          · simp [hr', hmem]
        · rw [Finset.card_erase_of_mem hr]
          exact s.buffer.length_blocks_pop.le.trans (Nat.sub_le_sub_right hle 1)
      case popped =>
        intro b hb
        rcases List.mem_append.1 hb with hb | hb
        · exact h.popped b hb
        · exact (Buffer.queued_of_pop b (Option.mem_toList.1 hb)).1
    · cases hs

end BufferRuns

/-- **Every buffered message goes into one block.**  In every run of calls: all messages pushed
so far are those unsaved, those in queued blocks and those in popped blocks; there are no more
queued blocks than runs between their save and their pop, so none is left behind when there is
no such run; and no popped block is empty. -/
theorem buffered_once {ι : Type} [DecidableEq ι] {s : BufferRuns ι}
    (h : Reachable BufferRuns.step (BufferRuns.start ι) s) :
    s.pushed.Perm (s.buffer.messages ++ s.buffer.blocks.flatMap Block.data ++
        s.popped.flatMap Block.data) ∧
      (∃ between : Finset ι, (∀ r, r ∈ between ↔ s.call r = .pop) ∧
        s.buffer.blocks.length ≤ between.card) ∧
      ((∀ r, s.call r ≠ .pop) → s.buffer.blocks = []) ∧
      ∀ b ∈ s.popped, b.data ≠ [] := by
  have hi : BufferRuns.Inv s :=
    h.invariant BufferRuns.inv_start fun _ _ _ hi _ hs => hi.step hs
  refine ⟨hi.pushed, hi.queued, fun hnone => ?_, hi.popped⟩
  obtain ⟨between, hmem, hle⟩ := hi.queued
  have hempty : between = ∅ := Finset.eq_empty_of_forall_notMem fun r hr => hnone r ((hmem r).1 hr)
  rw [hempty, Finset.card_empty] at hle
  exact List.eq_nil_of_length_eq_zero (Nat.le_zero.1 hle)

/-- The second run pops what the first has saved. -/
theorem buffered_once_twoRuns : ∃ s : BufferRuns Bool,
    s.call false = .pop ∧ s.call true = .done ∧ s.popped.map Block.data = [[⟨900, "x", "a"⟩]] ∧
      s.pushed.Perm (s.buffer.messages ++ s.buffer.blocks.flatMap Block.data ++
        s.popped.flatMap Block.data) := by
  obtain ⟨s, hs, h⟩ := exists_reaches BufferRuns.step (fun _ _ => True) (BufferRuns.start Bool)
    [.push ⟨900, "x", "a"⟩, .save false 1000, .push ⟨1100, "y", "a"⟩, .save true 1200, .pop true]
    (fun s => s.call false = .pop ∧ s.call true = .done ∧
      s.popped.map Block.data = [[⟨900, "x", "a"⟩]])
    (by decide +kernel)
  simp only [decide_eq_true_eq] at h
  exact ⟨s, h.1, h.2.1, h.2.2, (buffered_once hs).1⟩

end BlockchainMessaging
