import BlockchainMessaging.Archive
import BlockchainMessaging.Lib.Transition
import BlockchainMessaging.NodeSpec

/-!
# Overlapping slots on one chain

Each tick starts a run of `SlotHandler` in a thread of its own, and a run may last longer
than a slot.  The runs of one node share one Redis list.  A run appends its pending block
and remembers the index at which it landed; much later it either looks the block up again
at this index and removes it by value, because nobody contributed, or overwrites the
element at this index with the complete block.

Here the runs are reduced to these calls: a state is the list, and for every run the next
call and what the run remembers.  `slotMove_chain` says that this is what `slotMove` does
to the chain.  Two histories are kept beside the list, the order of the appends and the
run that appended each element; no call reads them.

An index that is remembered is not adjusted when an earlier element is removed.  So the
runs stay on their own elements as long as a run removes its element only when every run
that was added later is done with its index; `intact_of_reaches` is this statement.

## Main definitions

* `ChainCall`, `ChainRun`, `chainMove` — the calls of one run.
* `ChainRuns`, `ChainState`, `ChainState.step` — all runs of a node.
* `ChainState.OnOwn` — the next call of a run acts on the element of this run.
* `ChainState.Undisturbed` — the condition on a step.
-/

namespace BlockchainMessaging

/-! ## The calls of one run -/

/-- The next call of a run on the chain. -/
inductive ChainCall
  | add
  | getByIndex
  | remove
  | update
  | done
  deriving DecidableEq, Repr

/-- What a run remembers between its calls on the chain. -/
structure ChainRun where
  call : ChainCall := .add
  blockIndex : ℤ := 0
  fetched : Block := {}
  deriving DecidableEq, Repr

/-- One call of a run on the chain. -/
def chainMove (A : BlockArchive) (pending broadcastBlock : Block) (isAnyNodeContributing : Bool)
    (r : ChainRun) (chain : List String) : Except Failure (ChainRun × List String) :=
  match r.call with
  | .add =>
      let added := RedisDB.add A pending chain
      .ok ({ r with
        call := if isAnyNodeContributing then .update else .getByIndex
        blockIndex := added.2 - 1 }, added.1)
  | .getByIndex =>
      match RedisDB.getByIndex A r.blockIndex chain with
      | some (some b) => .ok ({ r with call := .remove, fetched := b }, chain)
      | some none => .error .noBlock
      | none => .error .redisError
  | .remove => .ok ({ r with call := .done }, RedisDB.remove A r.fetched chain)
  | .update =>
      match RedisDB.update A broadcastBlock r.blockIndex chain with
      | some chain => .ok ({ r with call := .done }, chain)
      | none => .error .redisError
  | .done => .ok (r, chain)

/-- The call on the chain that the slot thread is about to make. -/
def SlotPc.chainCall : SlotPc → Option ChainCall
  | .saveAdd => some .add
  | .removeGet => some .getByIndex
  | .removeDelete => some .remove
  | .completeUpdate => some .update
  | _ => none

/-- The slot thread touches the chain, and what it remembers of it, with `chainMove`. -/
theorem slotMove_chain (E : SlotEnv) (n : Node) (any : Bool) {call : ChainCall}
    (h : n.pc.chainCall = some call) :
    match chainMove E.archive E.pendingBlock n.context.broadcastBlock any
        ⟨call, n.context.blockIndex, n.fetched⟩ n.chain with
    | .ok (r, chain) => (slotMove E n).1.chain = chain ∧
        (slotMove E n).1.context.blockIndex = r.blockIndex ∧ (slotMove E n).1.fetched = r.fetched
    | .error f => (slotMove E n).1 = n.fail f := by
  cases hpc : n.pc <;> simp only [hpc, SlotPc.chainCall, Option.some.injEq, reduceCtorEq] at h <;>
    subst h <;> simp only [chainMove, slotMove, hpc]
  · simp
  · rcases RedisDB.getByIndex E.archive n.context.blockIndex n.chain with _ | _ | b <;> simp
  · simp
  · rcases RedisDB.update E.archive n.context.broadcastBlock n.context.blockIndex n.chain
      with _ | chain <;> simp

/-- Every other call of the slot thread leaves the chain and the index alone. -/
theorem slotMove_chain_of_none (E : SlotEnv) (n : Node) (h : n.pc.chainCall = none) :
    (slotMove E n).1.chain = n.chain ∧
      (slotMove E n).1.context.blockIndex = n.context.blockIndex := by
  cases hpc : n.pc
  case saveAdd | removeGet | removeDelete | completeUpdate =>
    rw [hpc] at h
    cases h
  case wait w phase =>
    obtain ⟨st, sync, owned, pc, failure, hw⟩ := waitMove_frame w n phase
    simp [slotMove, hpc, hw]
  case electUnique | relayValidator | relayPublish =>
    simp only [slotMove, hpc]
    split <;> exact ⟨rfl, rfl⟩
  case nominate =>
    simp only [slotMove, hpc]
    cases n.storage.markValidator n.context.header.slot <;> exact ⟨rfl, rfl⟩
  case collectMerge =>
    simp only [slotMove, hpc]
    cases n.storage.mergeContributors E.order n.context.header.slot <;> exact ⟨rfl, rfl⟩
  all_goals simp [slotMove, hpc, Node.ask_eq, Node.resetSynchronized, Node.setOperation]

/-! ## All runs of a node -/

/-- What the runs of one node bring to its chain.  `ι` names the runs. -/
structure ChainRuns (ι : Type) where
  archive : BlockArchive
  /-- The chain before the first run. -/
  chain : List String
  /-- `context.block` of a run. -/
  pending : ι → Block
  /-- The answer of `isAnyNodeContributing` that a run gets. -/
  isAnyNodeContributing : ι → Bool
  /-- `context.broadcastBlock` of a run. -/
  broadcastBlock : ι → Block
  pending_state : ∀ r, (pending r).state = .PENDING
  broadcastBlock_state : ∀ r, (broadcastBlock r).state = .COMPLETED
  pending_injective : Function.Injective pending
  pending_not_mem : ∀ r, archive.serialize (pending r) ∉ chain

/-- The chain and the runs on it. -/
structure ChainState (ι : Type) where
  chain : List String
  run : ι → ChainRun := fun _ => {}
  failure : Option Failure := none
  /-- The runs in the order of their appends. -/
  added : List ι := []
  /-- Which run appended the element at a position of the chain. -/
  owners : List (Option ι)

namespace ChainState

section Machine

variable {ι : Type} (R : ChainRuns ι)

/-- No run has made a call yet. -/
def start : ChainState ι := { chain := R.chain, owners := R.chain.map fun _ => none }

/-- How a call changes the history of owners. -/
def nextOwners (s : ChainState ι) (r : ι) : List (Option ι) :=
  match (s.run r).call with
  | .add => s.owners ++ [some r]
  | .remove => s.owners.eraseIdx (s.chain.idxOf (R.archive.serialize (s.run r).fetched))
  | _ => s.owners

/-- The next call of the run `r`. -/
def step [DecidableEq ι] (s : ChainState ι) (r : ι) : Option (ChainState ι) :=
  if s.failure.isSome || (s.run r).call = .done then none
  else match chainMove R.archive (R.pending r) (R.broadcastBlock r)
      (R.isAnyNodeContributing r) (s.run r) s.chain with
    | .ok (run, chain) => some { s with
        chain
        run := Function.update s.run r run
        added := if (s.run r).call = .add then s.added ++ [r] else s.added
        owners := s.nextOwners R r }
    | .error f => some { s with failure := some f }

/-- The next call of the run `r` acts on the element that `r` appended, which is there. -/
def OnOwn (s : ChainState ι) (r : ι) : Prop :=
  match (s.run r).call with
  | .getByIndex => 0 ≤ (s.run r).blockIndex ∧
      s.owners[(s.run r).blockIndex.toNat]? = some (some r) ∧
      RedisDB.getByIndex R.archive (s.run r).blockIndex s.chain = some (some (R.pending r))
  | .remove =>
      s.owners[s.chain.idxOf (R.archive.serialize (s.run r).fetched)]? = some (some r)
  | .update => 0 ≤ (s.run r).blockIndex ∧
      s.owners[(s.run r).blockIndex.toNat]? = some (some r)
  | _ => True

/-- The runs that appended their element after `r` did. -/
def addedAfter [DecidableEq ι] (s : ChainState ι) (r : ι) : List ι :=
  (s.added.dropWhile (· ≠ r)).tail

/-- A run removes its element only when every run that was added later is done with its
index, and the index it looks up fits the parameter of `getByIndex`. -/
def Undisturbed [DecidableEq ι] (s : ChainState ι) (r : ι) : Prop :=
  match (s.run r).call with
  | .getByIndex => (s.run r).blockIndex < 2 ^ 31
  | .remove => ∀ r' ∈ s.addedAfter r, (s.run r').call = .remove ∨ (s.run r').call = .done
  | _ => True

instance [DecidableEq ι] (s : ChainState ι) (r : ι) : Decidable (s.Undisturbed r) := by
  unfold Undisturbed
  split <;> infer_instance

/-- The chain once all runs are done: what was there, and the complete blocks in the order
in which the contributing runs were added. -/
def Finished (s : ChainState ι) : Prop :=
  s.added.Nodup ∧
    s.chain = R.chain ++ (s.added.filter R.isAnyNodeContributing).map
      (fun r => R.archive.serialize (R.broadcastBlock r)) ∧
    ∀ r, R.archive.serialize (R.pending r) ∉ s.chain

end Machine

/-! ## The invariant -/

section Invariant

variable {ι : Type} (R : ChainRuns ι)

/-- The element of the run `r`, as long as it is in the chain. -/
def content (s : ChainState ι) (r : ι) : Option String :=
  match (s.run r).call with
  | .add => none
  | .done =>
      if R.isAnyNodeContributing r then some (R.archive.serialize (R.broadcastBlock r)) else none
  | _ => some (R.archive.serialize (R.pending r))

/-- Of a run that is in the chain, the history of owners keeps the name. -/
def owner (s : ChainState ι) (r : ι) : Option (Option ι) := (s.content R r).map fun _ => some r

/-- The chain is the initial one followed by the elements of the runs, in the order of their
appends, and a run that will still use its index has the index of its element. -/
structure Inv (s : ChainState ι) : Prop where
  failure : s.failure = none
  nodup : s.added.Nodup
  mem_added : ∀ r, r ∈ s.added ↔ (s.run r).call ≠ .add
  chain_eq : s.chain = R.chain ++ s.added.filterMap (s.content R)
  owners_eq : s.owners = (R.chain.map fun _ => none) ++ s.added.filterMap (s.owner R)
  contributing : ∀ r, (s.run r).call = .update → R.isAnyNodeContributing r = true
  idle : ∀ r, (s.run r).call = .getByIndex ∨ (s.run r).call = .remove →
    R.isAnyNodeContributing r = false
  fetched : ∀ r, (s.run r).call = .remove → (s.run r).fetched = R.pending r
  index : ∀ r l₁ l₂, s.added = l₁ ++ r :: l₂ →
    (s.run r).call = .getByIndex ∨ (s.run r).call = .update →
    (s.run r).blockIndex = (R.chain.length + (l₁.filterMap (s.content R)).length : ℕ)

variable {R} {s t : ChainState ι} {r : ι}

theorem length_owners (l : List ι) :
    (l.filterMap (s.owner R)).length = (l.filterMap (s.content R)).length := by
  induction l with
  | nil => rfl
  | cons r l ih =>
    simp only [List.filterMap_cons, owner]
    cases s.content R r <;> simpa [owner] using ih

/-- A serialized pending block is the element of its own run only. -/
theorem content_ne {r' : ι} (h : r' ≠ r) :
    s.content R r' ≠ some (R.archive.serialize (R.pending r)) := by
  have hpending : R.archive.serialize (R.pending r') ≠ R.archive.serialize (R.pending r) :=
    fun h' => h (R.pending_injective (R.archive.serialize_injective h'))
  have hcomplete : R.archive.serialize (R.broadcastBlock r') ≠
      R.archive.serialize (R.pending r) := fun h' => by
    have := congrArg Block.state (R.archive.serialize_injective h')
    rw [R.broadcastBlock_state, R.pending_state] at this
    cases this
  rw [content]
  split
  · simp
  · split
    · simpa using hcomplete
    · simp
  · simpa using hpending

/-- Runs that made no call have the same elements as before. -/
theorem filterMap_content {l : List ι} (h : ∀ r ∈ l, t.run r = s.run r) :
    l.filterMap (t.content R) = l.filterMap (s.content R) :=
  List.filterMap_congr fun r hr => by rw [content, content, h r hr]

theorem filterMap_owner {l : List ι} (h : ∀ r ∈ l, t.run r = s.run r) :
    l.filterMap (t.owner R) = l.filterMap (s.owner R) :=
  List.filterMap_congr fun r hr => by rw [owner, owner, content, content, h r hr]

/-- Where the run `r` stands in the order of the appends. -/
theorem Inv.split (h : Inv R s) (hr : (s.run r).call ≠ .add) :
    ∃ l₁ l₂, s.added = l₁ ++ r :: l₂ ∧ r ∉ l₁ ∧ r ∉ l₂ := by
  obtain ⟨l₁, l₂, hadded⟩ := List.append_of_mem ((h.mem_added r).2 hr)
  have hnodup := h.nodup
  rw [hadded, List.nodup_append, List.nodup_cons] at hnodup
  exact ⟨l₁, l₂, hadded, fun hmem => hnodup.2.2 r hmem r List.mem_cons_self rfl,
    hnodup.2.1.1⟩

/-- The chain around the element of the run `r`. -/
theorem Inv.chain_split (h : Inv R s) {l₁ l₂ : List ι} (hadded : s.added = l₁ ++ r :: l₂)
    {v : String} (hv : s.content R r = some v) :
    s.chain = (R.chain ++ l₁.filterMap (s.content R)) ++ v :: l₂.filterMap (s.content R) := by
  rw [h.chain_eq, hadded, List.filterMap_append, List.filterMap_cons_some hv,
    List.append_assoc]

/-- The history of owners around the element of the run `r`. -/
theorem Inv.owners_split (h : Inv R s) {l₁ l₂ : List ι} (hadded : s.added = l₁ ++ r :: l₂)
    {v : String} (hv : s.content R r = some v) :
    s.owners = ((R.chain.map fun _ => none) ++ l₁.filterMap (s.owner R)) ++
      some r :: l₂.filterMap (s.owner R) := by
  have howner : s.owner R r = some (some r) := by rw [owner, hv]; rfl
  rw [h.owners_eq, hadded, List.filterMap_append, List.filterMap_cons_some howner,
    List.append_assoc]

theorem length_before (l₁ : List ι) :
    ((R.chain.map fun _ => (none : Option ι)) ++ l₁.filterMap (s.owner R)).length =
      (R.chain ++ l₁.filterMap (s.content R)).length := by
  simp [length_owners]

theorem Inv.length_eq (h : Inv R s) : s.owners.length = s.chain.length := by
  rw [h.owners_eq, h.chain_eq, length_before]

theorem content_pending (h : (s.run r).call ≠ .add) (h' : (s.run r).call ≠ .done) :
    s.content R r = some (R.archive.serialize (R.pending r)) := by
  rw [content]
  split
  · contradiction
  · contradiction
  · rfl

/-- The element of a run is not before its own place. -/
theorem pending_not_mem_before {l₁ : List ι} (hr : r ∉ l₁) :
    R.archive.serialize (R.pending r) ∉ R.chain ++ l₁.filterMap (s.content R) := by
  intro hmem
  rcases List.mem_append.1 hmem with hmem | hmem
  · exact R.pending_not_mem r hmem
  · obtain ⟨r', hr', hc⟩ := List.mem_filterMap.1 hmem
    exact content_ne (by rintro rfl; exact hr hr') hc

/-- **Every run that meets the condition acts on its own element.** -/
theorem Inv.onOwn [DecidableEq ι] (h : Inv R s) (hok : s.Undisturbed r) : s.OnOwn R r := by
  have howner : ∀ l₁ l₂ v, s.added = l₁ ++ r :: l₂ → s.content R r = some v →
      s.owners[(R.chain ++ l₁.filterMap (s.content R)).length]? = some (some r) := by
    intro l₁ l₂ v hadded hv
    rw [h.owners_split hadded hv, ← length_before l₁, List.getElem?_append_right le_rfl]
    simp
  cases hcall : (s.run r).call with
  | add | done => simp [OnOwn, hcall]
  | getByIndex =>
    obtain ⟨l₁, l₂, hadded, -, -⟩ := h.split (r := r) (by simp [hcall])
    have hv := content_pending (R := R) (s := s) (r := r) (by simp [hcall]) (by simp [hcall])
    have hindex := h.index r l₁ l₂ hadded (.inl hcall)
    rw [← List.length_append] at hindex
    have hsmall : (R.chain ++ l₁.filterMap (s.content R)).length < 2 ^ 31 := by
      simp only [Undisturbed, hcall, hindex] at hok
      exact_mod_cast hok
    have hchain := h.chain_split hadded hv
    have hlt : (R.chain ++ l₁.filterMap (s.content R)).length < s.chain.length := by
      rw [hchain]
      simp
    have hget : s.chain[(R.chain ++ l₁.filterMap (s.content R)).length] =
        R.archive.serialize (R.pending r) := by
      simp only [hchain]
      rw [List.getElem_append_right le_rfl]
      simp
    simp only [OnOwn, hcall]
    refine ⟨by omega, ?_, ?_⟩
    · rw [hindex, Int.toNat_natCast]
      exact howner l₁ l₂ _ hadded hv
    · rw [hindex, RedisDB.getByIndex_natCast _ hlt hsmall, hget,
        R.archive.deserialize_serialize]
      rfl
  | remove =>
    obtain ⟨l₁, l₂, hadded, hr, -⟩ := h.split (r := r) (by simp [hcall])
    have hv := content_pending (R := R) (s := s) (r := r) (by simp [hcall]) (by simp [hcall])
    simp only [OnOwn, hcall]
    rw [h.fetched r hcall, h.chain_split hadded hv,
      List.idxOf_append_of_notMem (pending_not_mem_before hr), List.idxOf_cons_self]
    exact howner l₁ l₂ _ hadded hv
  | update =>
    obtain ⟨l₁, l₂, hadded, -, -⟩ := h.split (r := r) (by simp [hcall])
    have hv := content_pending (R := R) (s := s) (r := r) (by simp [hcall]) (by simp [hcall])
    have hindex := h.index r l₁ l₂ hadded (.inr hcall)
    rw [← List.length_append] at hindex
    simp only [OnOwn, hcall]
    refine ⟨by omega, ?_⟩
    rw [hindex, Int.toNat_natCast]
    exact howner l₁ l₂ _ hadded hv

/-- When all runs that were added are done, no placeholder is left. -/
theorem Inv.finished (h : Inv R s) (hdone : ∀ r ∈ s.added, (s.run r).call = .done) :
    s.Finished R := by
  have hcontent : ∀ r ∈ s.added, s.content R r =
      if R.isAnyNodeContributing r then some (R.archive.serialize (R.broadcastBlock r))
      else none := by
    intro r hr
    simp [content, hdone r hr]
  have hchain : s.chain = R.chain ++ (s.added.filter R.isAnyNodeContributing).map
      (fun r => R.archive.serialize (R.broadcastBlock r)) := by
    rw [h.chain_eq, List.filterMap_congr hcontent, ← List.filterMap_eq_map,
      List.filterMap_filter]
    rfl
  refine ⟨h.nodup, hchain, fun r hmem => ?_⟩
  rw [hchain] at hmem
  rcases List.mem_append.1 hmem with hmem | hmem
  · exact R.pending_not_mem r hmem
  · obtain ⟨r', -, hr'⟩ := List.mem_map.1 hmem
    have := congrArg Block.state (R.archive.serialize_injective hr')
    rw [R.broadcastBlock_state, R.pending_state] at this
    cases this

/-! ## The invariant is kept -/

theorem inv_start : Inv R (start R) where
  failure := rfl
  nodup := List.nodup_nil
  mem_added r := by simp [start]
  chain_eq := by simp [start]
  owners_eq := by simp [start]
  contributing r h := by simp [start] at h
  idle r h := by simp [start] at h
  fetched r h := by simp [start] at h
  index r l₁ l₂ h := by simp [start] at h

private theorem append_singleton_split {l l₁ l₂ : List ι} {r' : ι}
    (h : l ++ [r] = l₁ ++ r' :: l₂) :
    (r' = r ∧ l₁ = l) ∨ ∃ l₂', l = l₁ ++ r' :: l₂' := by
  rcases List.eq_nil_or_concat l₂ with rfl | ⟨l₂', b, rfl⟩
  · obtain ⟨hl, hr⟩ := List.append_inj' h rfl
    exact .inl ⟨(List.singleton_inj.1 hr).symm, hl.symm⟩
  · rw [List.concat_eq_append, ← List.cons_append, ← List.append_assoc] at h
    exact .inr ⟨l₂', (List.append_inj' h rfl).1⟩

theorem addedAfter_eq [DecidableEq ι] (h : Inv R s) {l₁ l₂ : List ι}
    (hsplit : s.added = l₁ ++ r :: l₂) : s.addedAfter r = l₂ := by
  have hnodup := h.nodup
  rw [hsplit, List.nodup_append] at hnodup
  have hne : ∀ a ∈ l₁, decide (a ≠ r) = true := fun a ha =>
    decide_eq_true (hnodup.2.2 a ha r List.mem_cons_self)
  rw [addedAfter, hsplit, List.dropWhile_append_of_pos hne]
  simp

/-! Each call, with `s` before it and `t` after it: only the run `r` has moved. -/

section Calls

variable (h : Inv R s) (hfail : t.failure = none) (hne : ∀ r' ≠ r, t.run r' = s.run r')

include h hfail hne

theorem Inv.add (hcall : (s.run r).call = .add)
    (hc : (t.run r).call = if R.isAnyNodeContributing r then .update else .getByIndex)
    (hindex : (t.run r).blockIndex = s.chain.length) (hadded : t.added = s.added ++ [r])
    (hchain : t.chain = s.chain ++ [R.archive.serialize (R.pending r)])
    (howners : t.owners = s.owners ++ [some r]) : Inv R t := by
  have hr : r ∉ s.added := fun hmem => (h.mem_added r).1 hmem hcall
  have hrun : ∀ r' ∈ s.added, t.run r' = s.run r' := fun r' hr' =>
    hne r' (by rintro rfl; exact hr hr')
  have hlater : (t.run r).call ≠ .add ∧ (t.run r).call ≠ .done ∧ (t.run r).call ≠ .remove := by
    rw [hc]
    split <;> simp
  have hcontent := content_pending (R := R) hlater.1 hlater.2.1
  constructor
  case failure => exact hfail
  case nodup =>
    rw [hadded]
    refine List.nodup_append.2 ⟨h.nodup, List.nodup_singleton r, ?_⟩
    rintro a ha b hb rfl
    exact hr (List.mem_singleton.1 hb ▸ ha)
  case mem_added =>
    intro r'
    by_cases hrr : r' = r
    · simp [hadded, hrr, hlater.1]
    · simp [hadded, hrr, hne r' hrr, h.mem_added]
  case chain_eq =>
    rw [hchain, hadded, List.filterMap_append, filterMap_content hrun,
      List.filterMap_cons_some hcontent, h.chain_eq]
    simp
  case owners_eq =>
    have howner : t.owner R r = some (some r) := by rw [owner, hcontent]; rfl
    rw [howners, hadded, List.filterMap_append, filterMap_owner hrun,
      List.filterMap_cons_some howner, h.owners_eq]
    simp
  case contributing =>
    intro r' hr'
    by_cases hrr : r' = r
    · subst hrr
      by_contra hany
      simp [hc, hany] at hr'
    · exact h.contributing r' (by rwa [hne r' hrr] at hr')
  case idle =>
    intro r' hr'
    by_cases hrr : r' = r
    · subst hrr
      cases hany : R.isAnyNodeContributing r'
      · rfl
      · simp [hc, hany] at hr'
    · exact h.idle r' (by rwa [hne r' hrr] at hr')
  case fetched =>
    intro r' hr'
    by_cases hrr : r' = r
    · subst hrr
      exact absurd hr' hlater.2.2
    · rw [hne r' hrr] at hr' ⊢
      exact h.fetched r' hr'
  case index =>
    intro r' l₁ l₂ hsplit hr'
    rw [hadded] at hsplit
    rcases append_singleton_split hsplit with ⟨rfl, rfl⟩ | ⟨l₂', hsplit'⟩
    · rw [hindex, h.chain_eq, filterMap_content hrun, List.length_append]
    · have hmem : r' ∈ s.added := by simp [hsplit']
      rw [hrun r' hmem] at hr' ⊢
      rw [filterMap_content fun a ha => hrun a (by simp [hsplit', ha])]
      exact h.index r' l₁ l₂' hsplit' hr'

/-- A later call of `r`: what is left to show for it. -/
private theorem Inv.later (hs : (s.run r).call ≠ .add) (ht : (t.run r).call ≠ .add)
    (ht' : (t.run r).call ≠ .update) (hadded : t.added = s.added)
    (hchain : t.chain = R.chain ++ s.added.filterMap (t.content R))
    (howners : t.owners = (R.chain.map fun _ => none) ++ s.added.filterMap (t.owner R))
    (hidle : (t.run r).call ≠ .done → R.isAnyNodeContributing r = false ∧
      (t.run r).call = .remove ∧ (t.run r).fetched = R.pending r)
    (hindex : ∀ r' l₁ l₂, r' ≠ r → s.added = l₁ ++ r' :: l₂ →
      (s.run r').call = .getByIndex ∨ (s.run r').call = .update →
      (l₁.filterMap (t.content R)).length = (l₁.filterMap (s.content R)).length) :
    Inv R t := by
  constructor
  case failure => exact hfail
  case nodup => rw [hadded]; exact h.nodup
  case mem_added =>
    intro r'
    by_cases hrr : r' = r
    · subst hrr
      simp [hadded, ht, h.mem_added, hs]
    · rw [hadded, hne r' hrr, h.mem_added]
  case chain_eq => rw [hadded, hchain]
  case owners_eq => rw [hadded, howners]
  case contributing =>
    intro r' hr'
    by_cases hrr : r' = r
    · subst hrr
      exact absurd hr' ht'
    · exact h.contributing r' (by rwa [hne r' hrr] at hr')
  case idle =>
    intro r' hr'
    by_cases hrr : r' = r
    · subst hrr
      exact (hidle (by rcases hr' with hr' | hr' <;> simp [hr'])).1
    · exact h.idle r' (by rwa [hne r' hrr] at hr')
  case fetched =>
    intro r' hr'
    by_cases hrr : r' = r
    · subst hrr
      exact (hidle (by simp [hr'])).2.2
    · rw [hne r' hrr] at hr' ⊢
      exact h.fetched r' hr'
  case index =>
    intro r' l₁ l₂ hsplit hr'
    rw [hadded] at hsplit
    by_cases hrr : r' = r
    · subst hrr
      rcases hr' with hr' | hr'
      · have := (hidle (by simp [hr'])).2.1
        simp [hr'] at this
      · exact absurd hr' ht'
    · rw [hne r' hrr] at hr' ⊢
      rw [hindex r' l₁ l₂ hrr hsplit hr']
      exact h.index r' l₁ l₂ hsplit hr'

/-- The look-up finds the run's own block. -/
theorem Inv.getByIndex (hcall : (s.run r).call = .getByIndex)
    (hc : (t.run r).call = .remove) (hfetched : (t.run r).fetched = R.pending r)
    (hadded : t.added = s.added) (hchain : t.chain = s.chain)
    (howners : t.owners = s.owners) : Inv R t := by
  have hcontent : t.content R = s.content R := by
    funext r'
    by_cases hrr : r' = r
    · simp [content, hrr, hcall, hc]
    · rw [content, content, hne r' hrr]
  have howner : t.owner R = s.owner R := by
    funext r'
    rw [owner, owner, hcontent]
  refine h.later hfail hne (r := r) (by simp [hcall]) (by simp [hc]) (by simp [hc]) hadded
    ?_ ?_ (fun _ => ⟨h.idle r (.inl hcall), hc, hfetched⟩) fun r' l₁ l₂ _ _ _ => ?_
  · rw [hchain, hcontent, h.chain_eq]
  · rw [howners, howner, h.owners_eq]
  · rw [hcontent]

/-- The complete block takes the place of the pending one. -/
theorem Inv.update (hcall : (s.run r).call = .update) (hc : (t.run r).call = .done)
    (hadded : t.added = s.added)
    (hchain : t.chain = s.chain.set (s.run r).blockIndex.toNat
      (R.archive.serialize (R.broadcastBlock r)))
    (howners : t.owners = s.owners) : Inv R t := by
  obtain ⟨l₁, l₂, hsplit, hr₁, hr₂⟩ := h.split (r := r) (by simp [hcall])
  have hbefore := content_pending (R := R) (s := s) (r := r) (by simp [hcall]) (by simp [hcall])
  have hafter : t.content R r = some (R.archive.serialize (R.broadcastBlock r)) := by
    simp [content, hc, h.contributing r hcall]
  have hrun : ∀ l : List ι, r ∉ l → ∀ r' ∈ l, t.run r' = s.run r' := fun l hr r' hr' =>
    hne r' (by rintro rfl; exact hr hr')
  have howner : t.owner R = s.owner R := by
    funext r'
    by_cases hrr : r' = r
    · rw [owner, owner, hrr, hbefore, hafter]
      rfl
    · rw [owner, owner, content, content, hne r' hrr]
  have hindex := h.index r l₁ l₂ hsplit (.inr hcall)
  rw [← List.length_append] at hindex
  refine h.later hfail hne (r := r) (by simp [hcall]) (by simp [hc]) (by simp [hc]) hadded
    ?_ ?_ (fun hnot => absurd hc hnot) fun r' l _ _ _ _ => ?_
  · rw [hchain, h.chain_split hsplit hbefore, hindex, Int.toNat_natCast,
      List.set_append_right _ _ le_rfl, hsplit, List.filterMap_append,
      List.filterMap_cons_some hafter, filterMap_content (hrun l₁ hr₁),
      filterMap_content (hrun l₂ hr₂)]
    simp
  · rw [howners, howner, h.owners_eq]
  · rw [← length_owners, ← length_owners, howner]

/-- The pending block leaves the chain; whoever comes behind it must not use an index. -/
theorem Inv.remove [DecidableEq ι] (hcall : (s.run r).call = .remove) (hc : (t.run r).call = .done)
    (hok : s.Undisturbed r) (hadded : t.added = s.added)
    (hchain : t.chain = s.chain.erase (R.archive.serialize (s.run r).fetched))
    (howners : t.owners =
      s.owners.eraseIdx (s.chain.idxOf (R.archive.serialize (s.run r).fetched))) :
    Inv R t := by
  obtain ⟨l₁, l₂, hsplit, hr₁, hr₂⟩ := h.split (r := r) (by simp [hcall])
  have hbefore := content_pending (R := R) (s := s) (r := r) (by simp [hcall]) (by simp [hcall])
  have hafter : t.content R r = none := by
    simp [content, hc, h.idle r (.inr hcall)]
  have hrun : ∀ l : List ι, r ∉ l → ∀ r' ∈ l, t.run r' = s.run r' := fun l hr r' hr' =>
    hne r' (by rintro rfl; exact hr hr')
  have hmem := pending_not_mem_before (R := R) (s := s) hr₁
  rw [h.fetched r hcall] at hchain howners
  refine h.later hfail hne (r := r) (by simp [hcall]) (by simp [hc]) (by simp [hc]) hadded
    ?_ ?_ (fun hnot => absurd hc hnot) fun r' l l' hrr hsplit' hr' => ?_
  · rw [hchain, h.chain_split hsplit hbefore, List.erase_append_right _ hmem,
      List.erase_cons_head, hsplit, List.filterMap_append, List.filterMap_cons_none hafter,
      filterMap_content (hrun l₁ hr₁), filterMap_content (hrun l₂ hr₂), List.append_assoc]
  · have howner : t.owner R r = none := by rw [owner, hafter]; rfl
    rw [howners, h.chain_split hsplit hbefore, List.idxOf_append_of_notMem hmem,
      List.idxOf_cons_self, h.owners_split hsplit hbefore, ← length_before l₁,
      List.eraseIdx_append_of_length_le (by simp), hsplit, List.filterMap_append,
      List.filterMap_cons_none howner, filterMap_owner (hrun l₁ hr₁),
      filterMap_owner (hrun l₂ hr₂)]
    simp
  · have hr : r ∉ l := by
      intro hmem
      obtain ⟨c, d, rfl⟩ := List.append_of_mem hmem
      have hcall' := hok
      simp only [Undisturbed, hcall] at hcall'
      have hsplit'' : s.added = c ++ r :: (d ++ r' :: l') := by simp [hsplit']
      rw [addedAfter_eq h hsplit''] at hcall'
      rcases hr' with hr' | hr' <;> simpa [hr'] using hcall' r' (by simp)
    rw [filterMap_content (hrun l hr)]

end Calls

/-- **One call keeps the invariant**, if it meets the condition. -/
theorem Inv.step [DecidableEq ι] (h : Inv R s) (hok : s.Undisturbed r)
    (hstep : s.step R r = some t) : Inv R t := by
  have hown := h.onOwn hok
  have hne : ∀ c : ChainRun, ∀ r' ≠ r, Function.update s.run r c r' = s.run r' :=
    fun c r' hr' => Function.update_of_ne hr' _ _
  simp only [ChainState.step, h.failure, Option.isSome_none, Bool.false_or, chainMove] at hstep
  cases hcall : (s.run r).call with
  | done => simp [hcall] at hstep
  | add =>
    simp only [hcall] at hstep
    cases hstep
    exact h.add rfl (hne _) hcall (by simp) (by simp) (by simp) (by simp)
      (by simp [nextOwners, hcall])
  | getByIndex =>
    simp only [OnOwn, hcall] at hown
    simp only [hcall, hown.2.2] at hstep
    cases hstep
    exact h.getByIndex rfl (hne _) hcall (by simp) (by simp) (by simp) rfl
      (by simp [nextOwners, hcall])
  | remove =>
    simp only [hcall] at hstep
    cases hstep
    exact h.remove rfl (hne _) hcall (by simp) hok (by simp) rfl (by simp [nextOwners, hcall])
  | update =>
    simp only [OnOwn, hcall] at hown
    obtain ⟨n, hn⟩ := Int.eq_ofNat_of_zero_le hown.1
    have hlt : n < s.chain.length := by
      rw [← h.length_eq]
      rw [hn, Int.toNat_natCast] at hown
      exact (List.getElem?_eq_some_iff.1 hown.2).1
    simp only [hcall, RedisDB.update, hn, RedisList.lset_natCast _ hlt] at hstep
    cases hstep
    exact h.update rfl (hne _) hcall (by simp) (by simp) (by simp [hn])
      (by simp [nextOwners, hcall])

/-- The invariant of every run whose calls meet the condition. -/
theorem inv_of_reaches [DecidableEq ι] (h : Reaches (ChainState.step R) Undisturbed (start R) s) :
    Inv R s :=
  h.invariant inv_start fun _ _ _ hs hok hstep => hs.step hok hstep

end Invariant

/-! ## Chain integrity -/

/-- **Chain integrity with overlapping slots.**  In every run whose calls meet
`Undisturbed`, Redis refuses no command and no look-up comes back empty; every further call
that meets the condition acts on the element of its own run; and once all runs that were
added are done, the chain is the initial one and the complete blocks. -/
theorem chain_integrity {ι : Type} [DecidableEq ι] {R : ChainRuns ι} {s : ChainState ι}
    (h : Reaches (step R) Undisturbed (start R) s) :
    s.failure = none ∧ s.owners.length = s.chain.length ∧
      (∀ r, s.Undisturbed r → s.OnOwn R r) ∧
      ((∀ r ∈ s.added, (s.run r).call = .done) → s.Finished R) :=
  have hinv := inv_of_reaches h
  ⟨hinv.failure, hinv.length_eq, fun _ => hinv.onOwn, hinv.finished⟩

end ChainState

/-- Two runs, of which only `true` sees a contributor, behind one complete block. -/
def twoRuns : ChainRuns Bool where
  archive := textArchive
  chain := [textArchive.serialize { state := .COMPLETED, timestamp := 500, slot := 1 }]
  pending := fun r => if r then { timestamp := 1500, slot := 3, data := [⟨1400, "x", "a"⟩] }
    else { timestamp := 1000, slot := 2 }
  isAnyNodeContributing := id
  broadcastBlock := fun _ =>
    { state := .COMPLETED, timestamp := 1500, slot := 3, data := [⟨1400, "x", "a"⟩] }
  pending_state := by decide
  broadcastBlock_state := by decide
  pending_injective := by
    intro r r'
    cases r <;> cases r' <;> simp
  pending_not_mem := by decide +kernel

/-- The contributing run is added first, so the removal of the other disturbs nobody. -/
theorem chain_integrity_twoRuns :
    ∃ s, Reachable (ChainState.step twoRuns) (ChainState.start twoRuns) s ∧
      s.added = [true, false] ∧ s.Finished twoRuns := by
  obtain ⟨s, hs, hP⟩ := exists_reaches (ChainState.step twoRuns) ChainState.Undisturbed
    (ChainState.start twoRuns) [true, false, false, false, true]
    (fun s => s.added = [true, false] ∧ ∀ r, (s.run r).call = .done) (by decide +kernel)
  simp only [decide_eq_true_eq] at hP
  exact ⟨s, hs.reachable, hP.1, (ChainState.chain_integrity hs).2.2.2 fun r _ => hP.2 r⟩

/-- The run without contributors is added first, and removes its element after the other
run was added: the index of that run is then one past the end of the list. -/
theorem not_chain_integrity_twoRuns :
    ¬ ∀ s, Reachable (ChainState.step twoRuns) (ChainState.start twoRuns) s →
      s.failure = none ∧ ∀ r, s.OnOwn twoRuns r := by
  intro h
  obtain ⟨s, hs, hP⟩ := exists_reaches (ChainState.step twoRuns) (fun _ _ => True)
    (ChainState.start twoRuns) [false, true, false, false, true]
    (fun s => s.failure = some .redisError) (by decide +kernel)
  simp [(h s hs).1] at hP

end BlockchainMessaging
