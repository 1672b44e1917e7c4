import BlockchainMessaging.Archive
import BlockchainMessaging.Network

/-!
# Plain nodes and deployments

The smallest environment a node can run in, and the deployment of such nodes for any list of
addresses: what was collected in each buffer and which values are drawn is left open, all the
rest is as a fresh installation has it.

## Main definitions

* `plainEnv`, `emptyStorage` — one node.
* `Deployment.plain` — all nodes, each with a table that holds all addresses.
-/

namespace BlockchainMessaging

/-! ## One node -/

theorem Buffer.fst_pop (b : Buffer) : b.pop.1 = b.blocks.head? := by
  rw [pop]
  split
  · next h => simp [h]
  · next c cs h => simp [h]

/-- A buffer that was saved holds its messages in one block, if there are any. -/
theorem Buffer.pop_save (data : List Message) (now : ℕ) :
    ((⟨data, [], Buffer.queued_nil⟩ : Buffer).save now).pop.1 =
      if data = [] then none else some (Block.ofData now data) := by
  rw [fst_pop, save]
  by_cases h : data = []
  · simp [h]
  · simp [h]

/-- A node that collected `data` and draws the values of `draw`. -/
def plainEnv (address : String) (peers : List String) (slot : ℕ) (data : List Message)
    (draw : ℕ → ℕ) (h : ∀ k, 1 ≤ draw k ∧ draw k ≤ 65535) : SlotEnv where
  configuration := ⟨⟨address, address⟩, peers.map fun peer => ⟨peer, peer⟩⟩
  slot := slot
  popped := ((⟨data, [], Buffer.queued_nil⟩ : Buffer).save (slot * Time.SLOT)).pop.1
  popped_queued := Buffer.queued_of_pop
  now := slot * Time.SLOT
  draw := draw
  draw_range := h
  archive := textArchive
  order := mergeSort

/-- Five can be drawn. -/
theorem five_range (_ : ℕ) : (1 : ℕ) ≤ 5 ∧ 5 ≤ 65535 := by decide

/-- A storage nothing was done with yet.  The entries of a slot are made when it begins. -/
def emptyStorage (E : SlotEnv) : ConsensusStorage where
  nodeConfiguration := E.configuration
  contexts := .empty
  conditions := .empty
  allocated := []
  stamp := fun _ slot _ => slot * Time.SLOT

/-- A message of the node `b` for the slot. -/
def plainMessage (operation : ConsensusOperation) (b : String) (slot : ℕ) (body : ConsensusBody) :
    ConsensusMessage :=
  ⟨{ operation, node := b, address := b, slot }, body⟩

/-! ## All nodes -/

/-- The table of a storage that holds these addresses, and nothing about them. -/
def freshContexts (addresses : List String) (h : addresses.Nodup) :
    UnorderedMap String (UnorderedMap ℕ ConsensusContext) where
  keys := addresses
  find := fun a => if a ∈ addresses then some .empty else none
  nodup := h
  mem_keys := fun a => by by_cases ha : a ∈ addresses <;> simp [ha]

/-- Fresh nodes with these addresses, about to work on `slot`. -/
def Deployment.plain (addresses : List String) (hnodup : addresses.Nodup)
    (hcString : ∀ a ∈ addresses, cStr a = a) (slot : ℕ) (data : String → List Message)
    (draw : String → ℕ → ℕ) (hdraw : ∀ a k, 1 ≤ draw a k ∧ draw a k ≤ 65535) : Deployment where
  addresses := addresses
  nodup := hnodup
  cString := hcString
  slot := slot
  env := fun a =>
    plainEnv a (addresses.filter (· ≠ a)) slot (data a) (draw a) (hdraw a)
  self_eq := fun _ _ => rfl
  mem_remotes := fun a _ b => by simp [SlotEnv.remotes, plainEnv]
  nodup_remotes := fun a _ => by
    simpa [SlotEnv.remotes, plainEnv, Function.comp_def] using hnodup.filter _
  env_slot := fun _ _ => rfl
  pending_slot := fun a _ => by
    have hslot : Time.getSlot (slot * Time.SLOT) = slot := by
      simp [Time.getSlot, Time.SLOT]
    simp only [SlotEnv.pendingBlock, plainEnv, Buffer.pop_save]
    split <;> simp [Block.ofData, hslot]
  storage := fun a =>
    { emptyStorage (plainEnv a (addresses.filter (· ≠ a)) slot (data a) (draw a) (hdraw a)) with
      contexts := freshContexts addresses hnodup }
  configuration_eq := fun _ _ => rfl
  mem_keys := fun _ _ _ => Iff.rfl
  context_eq := fun a _ b => by
    by_cases hb : b ∈ addresses <;>
      simp [ConsensusStorage.context, ConsensusStorage.slots, freshContexts, hb]
  condition_eq := fun _ _ => rfl
  chain := fun _ => []
  chain_serialized := fun _ _ _ h => by cases h

/-- Two nodes, of which `a` has a message and `b` has none. -/
def pair (draw : String → ℕ → ℕ) (hdraw : ∀ x k, 1 ≤ draw x k ∧ draw x k ≤ 65535) : Deployment :=
  Deployment.plain ["a", "b"] (by decide) (by decide) 2
    (fun x => if x = "a" then [⟨900, "x", "a"⟩] else []) draw hdraw

/-- The steps that take a message of `b` to `a` and through its handler. -/
def deliver (a b : String) (calls : ℕ) : List Action :=
  .receive a b :: List.replicate calls (.handle a)

end BlockchainMessaging
