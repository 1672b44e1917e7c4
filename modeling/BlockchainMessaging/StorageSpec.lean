import BlockchainMessaging.ConsensusStorage

/-!
# What the storage operations do

One specification for each operation of `ConsensusStorage`, in terms of `context`: the entry
of an address in a slot, an absent one read as the default.  Evaluating `operator[]` may
insert entries but changes no `context`; `Untouched` is this relation between the storage
before and after a query, and every query is shown to satisfy it.  The setters change one
field of one `context`.

## Main definitions

* `ConsensusStorage.Untouched` — equal except for inserted default entries.
* `ConsensusStorage.untouched_areAllContributorsConfirmed` and its companions — the queries.
* `ConsensusStorage.areAllContributorsConfirmed_eq_true` and its companions — their results.
-/

namespace BlockchainMessaging.ConsensusStorage

variable {st st' st'' : ConsensusStorage} {a a' : String} {s s' : ℕ}

/-! ## Reading back one entry -/

theorem context_write (st : ConsensusStorage) (a a' : String) (s s' : ℕ)
    (c : ConsensusContext) :
    (st.write a s c).context a' s' = if a' = a ∧ s' = s then c else st.context a' s' := by
  by_cases ha : a' = a
  · subst ha
    by_cases hs : s' = s <;>
      simp [context, slots, write, UnorderedMap.find_set, hs]
  · simp [context, slots, write, UnorderedMap.find_set, ha]

theorem context_modify (st : ConsensusStorage) (a a' : String) (s s' : ℕ)
    (f : ConsensusContext → ConsensusContext) :
    (st.modify a s f).context a' s' =
      if a' = a ∧ s' = s then f (st.context a s) else st.context a' s' :=
  context_write _ _ _ _ _ _

@[simp] theorem context_access (st : ConsensusStorage) (a a' : String) (s s' : ℕ) :
    (st.access a s).context a' s' = st.context a' s' := by
  rw [access, context_write]
  split
  · next h => rw [h.1, h.2]
  · rfl

theorem keys_write_of_mem (h : a ∈ st.contexts.keys) (c : ConsensusContext) :
    (st.write a s c).contexts.keys = st.contexts.keys :=
  UnorderedMap.keys_set_of_mem _ _ h

theorem mem_keys_write (st : ConsensusStorage) (a a' : String) (s : ℕ)
    (c : ConsensusContext) :
    a' ∈ (st.write a s c).contexts.keys ↔ a' = a ∨ a' ∈ st.contexts.keys :=
  UnorderedMap.mem_keys_set _ _ _ _

@[simp] theorem conditions_write (st : ConsensusStorage) (a : String) (s : ℕ)
    (c : ConsensusContext) : (st.write a s c).conditions = st.conditions := rfl

@[simp] theorem allocated_write (st : ConsensusStorage) (a : String) (s : ℕ)
    (c : ConsensusContext) : (st.write a s c).allocated = st.allocated := rfl

@[simp] theorem nodeConfiguration_write (st : ConsensusStorage) (a : String) (s : ℕ)
    (c : ConsensusContext) : (st.write a s c).nodeConfiguration = st.nodeConfiguration := rfl

/-! ## Queries change nothing that can be read -/

/-- `st'` is `st` up to default entries inserted for addresses that `st` already holds. -/
structure Untouched (st st' : ConsensusStorage) : Prop where
  context : ∀ a s, st'.context a s = st.context a s
  keys : st'.contexts.keys = st.contexts.keys
  conditions : st'.conditions = st.conditions
  allocated : st'.allocated = st.allocated
  nodeConfiguration : st'.nodeConfiguration = st.nodeConfiguration
  stamp : st'.stamp = st.stamp

namespace Untouched

@[refl] protected theorem refl (st : ConsensusStorage) : Untouched st st :=
  ⟨fun _ _ => rfl, rfl, rfl, rfl, rfl, rfl⟩

protected theorem trans (h : Untouched st st') (h' : Untouched st' st'') :
    Untouched st st'' where
  context a s := (h'.context a s).trans (h.context a s)
  keys := h'.keys.trans h.keys
  conditions := h'.conditions.trans h.conditions
  allocated := h'.allocated.trans h.allocated
  nodeConfiguration := h'.nodeConfiguration.trans h.nodeConfiguration
  stamp := h'.stamp.trans h.stamp

end Untouched

theorem untouched_access (h : a ∈ st.contexts.keys) (s : ℕ) : Untouched st (st.access a s) where
  context _ _ := context_access _ _ _ _ _
  keys := keys_write_of_mem h _
  conditions := rfl
  allocated := rfl
  nodeConfiguration := rfl
  stamp := rfl

theorem untouched_foldl_access (s : ℕ) (as : List String) :
    ∀ st : ConsensusStorage, (∀ a ∈ as, a ∈ st.contexts.keys) →
      Untouched st (as.foldl (fun st a => st.access a s) st) := by
  induction as with
  | nil => intro st _; exact .refl st
  | cons a as ih =>
      intro st h
      have ha := untouched_access (h a List.mem_cons_self) s
      refine ha.trans (ih _ fun b hb => ?_)
      rw [ha.keys]
      exact h b (List.mem_cons_of_mem _ hb)

theorem untouched_accessAll (st : ConsensusStorage) (s : ℕ) : Untouched st (st.accessAll s) :=
  untouched_foldl_access s _ st fun _ h => h

variable {p : ConsensusContext → Option Bool}

theorem untouched_allOf (p : ConsensusContext → Option Bool) (s : ℕ) (as : List String) :
    ∀ st : ConsensusStorage, (∀ a ∈ as, a ∈ st.contexts.keys) →
      Untouched st (allOf p s as st).2 := by
  induction as with
  | nil => intro st _; exact .refl st
  | cons a as ih =>
      intro st h
      have ha := untouched_access (h a List.mem_cons_self) s
      simp only [allOf]
      split
      · refine ha.trans (ih _ fun b hb => ?_)
        rw [ha.keys]
        exact h b (List.mem_cons_of_mem _ hb)
      · exact ha

theorem untouched_anyOf (p : ConsensusContext → Option Bool) (s : ℕ) (as : List String) :
    ∀ st : ConsensusStorage, (∀ a ∈ as, a ∈ st.contexts.keys) →
      Untouched st (anyOf p s as st).2 := by
  induction as with
  | nil => intro st _; exact .refl st
  | cons a as ih =>
      intro st h
      have ha := untouched_access (h a List.mem_cons_self) s
      simp only [anyOf]
      split
      · refine ha.trans (ih _ fun b hb => ?_)
        rw [ha.keys]
        exact h b (List.mem_cons_of_mem _ hb)
      · exact ha

theorem untouched_areAllContributorsConfirmed (st : ConsensusStorage) (s : ℕ) :
    Untouched st (st.areAllContributorsConfirmed s).2 :=
  untouched_allOf _ _ _ _ fun _ h => h

theorem untouched_isAnyNodeContributing (st : ConsensusStorage) (s : ℕ) :
    Untouched st (st.isAnyNodeContributing s).2 :=
  untouched_anyOf _ _ _ _ fun _ h => h

theorem untouched_areAllElectionValuesPresent (st : ConsensusStorage) (s : ℕ) :
    Untouched st (st.areAllElectionValuesPresent s).2 :=
  untouched_allOf _ _ _ _ fun _ h => h

theorem untouched_isAllContributorsDataCollected (st : ConsensusStorage) (s : ℕ) :
    Untouched st (st.isAllContributorsDataCollected s).2 :=
  untouched_allOf _ _ _ _ fun _ h => h

/-! ## What the queries answer -/

/-- `all_of` answers `true` when the predicate holds everywhere. -/
theorem allOf_eq_true (p : ConsensusContext → Option Bool) (s : ℕ) (as : List String) :
    ∀ st : ConsensusStorage,
      (allOf p s as st).1 = some true ↔ ∀ a ∈ as, p (st.context a s) = some true := by
  induction as with
  | nil => intro st; simp [allOf]
  | cons a as ih =>
      intro st
      simp only [allOf, List.forall_mem_cons]
      split
      · next hp => simp [ih, hp]
      · next hp => exact ⟨fun h => absurd h hp, fun h => absurd h.1 hp⟩

/-- `all_of` throws only where the predicate throws. -/
theorem allOf_ne_none (s : ℕ) (as : List String) :
    ∀ st : ConsensusStorage, (∀ a ∈ as, p (st.context a s) ≠ none) →
      (allOf p s as st).1 ≠ none := by
  induction as with
  | nil => intro st _; simp [allOf]
  | cons a as ih =>
      intro st h
      simp only [List.forall_mem_cons] at h
      simp only [allOf]
      split
      · exact ih _ (by simpa using h.2)
      · exact h.1

/-- `any_of` answers `false` when the predicate fails everywhere. -/
theorem anyOf_eq_false (p : ConsensusContext → Option Bool) (s : ℕ) (as : List String) :
    ∀ st : ConsensusStorage,
      (anyOf p s as st).1 = some false ↔ ∀ a ∈ as, p (st.context a s) = some false := by
  induction as with
  | nil => intro st; simp [anyOf]
  | cons a as ih =>
      intro st
      simp only [anyOf, List.forall_mem_cons]
      split
      · next hp => simp [ih, hp]
      · next hp => exact ⟨fun h => absurd h hp, fun h => absurd h.1 hp⟩

/-- `any_of` throws only where the predicate throws. -/
theorem anyOf_ne_none (s : ℕ) (as : List String) :
    ∀ st : ConsensusStorage, (∀ a ∈ as, p (st.context a s) ≠ none) →
      (anyOf p s as st).1 ≠ none := by
  induction as with
  | nil => intro st _; simp [anyOf]
  | cons a as ih =>
      intro st h
      simp only [List.forall_mem_cons] at h
      simp only [anyOf]
      split
      · exact ih _ (by simpa using h.2)
      · exact h.1

/-- The answer of `all_of` depends on the entries only. -/
theorem allOf_congr (s : ℕ) (as : List String) :
    ∀ st st' : ConsensusStorage, (∀ a ∈ as, st'.context a s = st.context a s) →
      (allOf p s as st').1 = (allOf p s as st).1 := by
  induction as with
  | nil => intro st st' _; rfl
  | cons a as ih =>
      intro st st' h
      rw [List.forall_mem_cons] at h
      simp only [allOf, h.1]
      split
      · exact ih _ _ fun b hb => by simpa using h.2 b hb
      · rfl

theorem areAllContributorsConfirmed_eq_true (st : ConsensusStorage) (s : ℕ) :
    (st.areAllContributorsConfirmed s).1 = some true ↔
      ∀ a ∈ st.contexts.keys, (st.context a s).isContributing.isSome := by
  simp [areAllContributorsConfirmed, allOf_eq_true]

theorem areAllElectionValuesPresent_eq_true (st : ConsensusStorage) (s : ℕ) :
    (st.areAllElectionValuesPresent s).1 = some true ↔
      ∀ a ∈ st.contexts.keys, 0 < (st.context a s).electionValue := by
  simp [areAllElectionValuesPresent, allOf_eq_true]

theorem isAllContributorsDataCollected_eq_true (st : ConsensusStorage) (s : ℕ) :
    (st.isAllContributorsDataCollected s).1 = some true ↔
      ∀ a ∈ st.contexts.keys, (st.context a s).isContributing = some false ∨
        ((st.context a s).isContributing = some true ∧ (st.context a s).block.data ≠ []) := by
  rw [isAllContributorsDataCollected, allOf_eq_true]
  refine forall₂_congr fun a _ => ?_
  cases (st.context a s).isContributing with
  | none => simp
  | some b => cases b <;> simp [List.length_pos_iff]

theorem isAnyNodeContributing_eq_false (st : ConsensusStorage) (s : ℕ) :
    (st.isAnyNodeContributing s).1 = some false ↔
      ∀ a ∈ st.contexts.keys, (st.context a s).isContributing = some false :=
  anyOf_eq_false _ _ _ _

/-- With every flag present no query on the flags throws. -/
theorem isAnyNodeContributing_ne_none
    (h : ∀ a ∈ st.contexts.keys, (st.context a s).isContributing.isSome) :
    (st.isAnyNodeContributing s).1 ≠ none :=
  anyOf_ne_none _ _ _ fun a ha => Option.isSome_iff_ne_none.1 (h a ha)

theorem isAllContributorsDataCollected_ne_none
    (h : ∀ a ∈ st.contexts.keys, (st.context a s).isContributing.isSome) :
    (st.isAllContributorsDataCollected s).1 ≠ none :=
  allOf_ne_none _ _ _ fun a ha => by
    simpa using Option.isSome_iff_ne_none.1 (h a ha)

theorem areAllContributorsConfirmed_ne_none (st : ConsensusStorage) (s : ℕ) :
    (st.areAllContributorsConfirmed s).1 ≠ none :=
  allOf_ne_none _ _ _ fun _ _ => by simp

theorem areAllElectionValuesPresent_ne_none (st : ConsensusStorage) (s : ℕ) :
    (st.areAllElectionValuesPresent s).1 ≠ none :=
  allOf_ne_none _ _ _ fun _ _ => by simp

/-- With a predicate that never throws, `any_of` is `List.any`. -/
theorem anyOf_some (q : ConsensusContext → Bool) (s : ℕ) (as : List String) :
    ∀ st : ConsensusStorage,
      (anyOf (fun c => some (q c)) s as st).1 = some (as.any fun a => q (st.context a s)) := by
  induction as with
  | nil => intro st; rfl
  | cons a as ih =>
      intro st
      simp only [anyOf, List.any_cons]
      split
      · next hp => simp [ih, Option.some.inj hp]
      · next hp =>
        have hq : q (st.context a s) = true := by simpa using hp
        simp [hq]

/-- An election value is unique when every other address has a different one. -/
theorem isElectionValueUnique_iff (h : a ∈ st.contexts.keys) (s : ℕ) :
    (st.isElectionValueUnique a s).1 = true ↔
      ∀ b ∈ st.contexts.keys, b ≠ a →
        (st.context b s).electionValue ≠ (st.context a s).electionValue := by
  have hkeys := (untouched_access h s).keys
  simp [isElectionValueUnique, anyOf_some, hkeys]

/-! ## One field of one entry -/

theorem context_foldl_access (s : ℕ) (as : List String) :
    ∀ (st : ConsensusStorage) (a : String) (s' : ℕ),
      (as.foldl (fun st a => st.access a s) st).context a s' = st.context a s' := by
  induction as with
  | nil => intro st a s'; rfl
  | cons b as ih => intro st a s'; rw [List.foldl_cons, ih, context_access]

@[simp] theorem context_accessAll (st : ConsensusStorage) (a : String) (s s' : ℕ) :
    (st.accessAll s).context a s' = st.context a s' :=
  context_foldl_access _ _ _ _ _

@[simp] theorem context_initContexts (st : ConsensusStorage) (a : String) (s s' : ℕ) :
    (st.initContexts s).context a s' = st.context a s' :=
  context_foldl_access _ _ _ _ _

@[simp] theorem context_initConditions (st : ConsensusStorage) (a : String) (s s' : ℕ) :
    (st.initConditions s).context a s' = st.context a s' := by
  rw [initConditions]
  split <;> rfl

@[simp] theorem context_getSlotSynchronizationContext (st : ConsensusStorage) (a : String)
    (s s' : ℕ) : (st.getSlotSynchronizationContext s).2.context a s' = st.context a s' := by
  rw [getSlotSynchronizationContext]
  split <;> rfl

@[simp] theorem context_storeSynchronized (st : ConsensusStorage) (a : String) (s p : ℕ)
    (b : Bool) : (st.storeSynchronized p b).context a s = st.context a s := rfl

/-- `clearSlot` resets the entries of the slot. -/
theorem context_clearSlot (st : ConsensusStorage) (a : String) (s s' : ℕ) :
    (st.clearSlot s).context a s' =
      if s' = s then .fresh (st.stamp a s 1) else st.context a s' := by
  unfold context slots clearSlot
  cases h : st.contexts.find a with
  | none => by_cases hs : s' = s <;> simp [h, hs]
  | some m => by_cases hs : s' = s <;> simp [h, hs, UnorderedMap.find_erase]

theorem context_anyOf (p : ConsensusContext → Option Bool) (s : ℕ) (as : List String) :
    ∀ (st : ConsensusStorage) (a : String) (s' : ℕ),
      (anyOf p s as st).2.context a s' = st.context a s' := by
  induction as with
  | nil => intro st a s'; rfl
  | cons b as ih =>
    intro st a s'
    simp only [anyOf]
    split
    · rw [ih, context_access]
    · exact context_access _ _ _ _ _

theorem context_isElectionValueUnique (st : ConsensusStorage) (a a' : String) (s s' : ℕ) :
    (st.isElectionValueUnique a s).2.context a' s' = st.context a' s' :=
  (context_anyOf _ _ _ _ _ _).trans (context_access _ _ _ _ _)

theorem context_foldl_modify (f : ConsensusContext → ConsensusContext)
    (hf : ∀ c, f (f c) = f c) (s : ℕ) (as : List String) :
    ∀ (st : ConsensusStorage) (a : String) (s' : ℕ),
      (as.foldl (fun st a => st.modify a s f) st).context a s' =
        if a ∈ as ∧ s' = s then f (st.context a s) else st.context a s' := by
  induction as with
  | nil => intro st a s'; simp
  | cons b as ih =>
    intro st a s'
    rw [List.foldl_cons, ih, context_modify, context_modify]
    by_cases hs : s' = s
    · by_cases hab : a = b <;> by_cases ha : a ∈ as <;> simp [hs, hab, ha, hf]
    · simp [hs]

/-- An address collides with itself, so every address of the table is collected. -/
theorem duplicatedAddresses_eq (st : ConsensusStorage) (s : ℕ) :
    st.duplicatedAddresses s = st.contexts.keys :=
  List.filter_eq_self.2 fun a ha => List.any_eq_true.2 ⟨a, ha, decide_eq_true rfl⟩

/-- **`removeElectionValueDuplicates` removes every value.** -/
theorem context_removeElectionValueDuplicates (st : ConsensusStorage) (a : String)
    (s s' : ℕ) :
    (st.removeElectionValueDuplicates s).context a s' =
      if a ∈ st.contexts.keys ∧ s' = s then { st.context a s with electionValue := 0 }
      else st.context a s' := by
  have h := context_foldl_modify (fun c => { c with electionValue := 0 }) (fun _ => rfl) s
    (st.duplicatedAddresses s) (st.accessAll s) a s'
  rw [duplicatedAddresses_eq] at h
  simpa [removeElectionValueDuplicates, duplicatedAddresses_eq] using h

theorem context_markValidator (h : st.markValidator s = some st') (a : String) (s' : ℕ) :
    st'.context a s' =
      if (st.electedValidator s).map cStr = some a ∧ s' = s then
        { st.context a s with isValidator := true }
      else st.context a s' := by
  obtain ⟨v, hv, rfl⟩ := Option.map_eq_some_iff.1 h
  rw [context_modify]
  simp only [context_accessAll, hv, Option.map_some, Option.some.injEq]
  by_cases ha : a = cStr v
  · subst ha
    simp
  · simp [ha, Ne.symm ha]

/-! ## The marked validator, and merging -/

private theorem foldl_marked (p : String → Bool) (as : List String) :
    ∀ o : Option String,
      as.foldl (fun v a => if p a then some a else v) o = o ∨
        ∃ a ∈ as, p a = true ∧ as.foldl (fun v a => if p a then some a else v) o = some a := by
  induction as with
  | nil => intro o; exact .inl rfl
  | cons a as ih =>
    intro o
    rw [List.foldl_cons]
    by_cases hp : p a = true
    · rw [if_pos hp]
      rcases ih (some a) with h | ⟨b, hb, hpb, h⟩
      · exact .inr ⟨a, List.mem_cons_self, hp, h⟩
      · exact .inr ⟨b, List.mem_cons_of_mem _ hb, hpb, h⟩
    · rw [if_neg hp]
      rcases ih o with h | ⟨b, hb, hpb, h⟩
      · exact .inl h
      · exact .inr ⟨b, List.mem_cons_of_mem _ hb, hpb, h⟩

/-- The scan finds an address that is marked. -/
theorem markedValidator_eq_some {v : String} (h : st.markedValidator s = some v) :
    v ∈ st.contexts.keys ∧ (st.context v s).isValidator = true := by
  rcases foldl_marked (fun a => (st.context a s).isValidator) st.contexts.keys none with
    h' | ⟨a, ha, hp, h'⟩
  · exact absurd (h.symm.trans h') (by simp)
  · cases (h.symm.trans h' : some v = some a)
    exact ⟨ha, hp⟩

/-- The scan finds the only address that is marked. -/
theorem markedValidator_eq {v : String} (hv : v ∈ st.contexts.keys)
    (hm : (st.context v s).isValidator = true)
    (h : ∀ a ∈ st.contexts.keys, (st.context a s).isValidator = true → a = v) :
    st.markedValidator s = some v := by
  have hfound : ∀ (as : List String) (o : Option String), (∀ a ∈ as, a ∈ st.contexts.keys) →
      o = some v ∨ v ∈ as → as.foldl (fun w a =>
        if (st.context a s).isValidator then some a else w) o = some v := by
    intro as
    induction as with
    | nil => intro o _ ho; simpa using ho
    | cons a as ih =>
      intro o hmem ho
      have hmem' : ∀ b ∈ as, b ∈ st.contexts.keys := fun b hb =>
        hmem b (List.mem_cons_of_mem _ hb)
      rw [List.foldl_cons]
      by_cases hp : (st.context a s).isValidator = true
      · rw [if_pos hp, h a (hmem a List.mem_cons_self) hp]
        exact ih _ hmem' (.inl rfl)
      · rw [if_neg hp]
        refine ih _ hmem' (ho.imp_right fun hva => ?_)
        rcases List.mem_cons.1 hva with rfl | hva
        · exact absurd hm hp
        · exact hva
  exact hfound _ _ (fun _ ha => ha) (.inr hv)

/-- What one address adds to the block of the validator. -/
def contribution (st : ConsensusStorage) (validator : String) (s : ℕ) (a : String) :
    List Message :=
  if a ≠ validator ∧ (st.context a s).isContributing = some true then
    (st.context a s).block.data
  else []

/-- With every flag present, the loop of `mergeContributors` throws nowhere. -/
theorem contributedData_eq (v : String) (s : ℕ) (as : List String)
    (h : ∀ a ∈ as, (st.context a s).isContributing.isSome) :
    st.contributedData v s as = some (as.flatMap (st.contribution v s)) := by
  induction as with
  | nil => rfl
  | cons a as ih =>
    rw [List.forall_mem_cons] at h
    obtain ⟨flag, hflag⟩ := Option.isSome_iff_exists.1 h.1
    by_cases ha : a = v
    · simp [contributedData, contribution, ha, ih h.2]
    · cases flag <;> simp [contributedData, contribution, ha, ih h.2, hflag]

/-- The block that `mergeContributors` returns and stores. -/
def mergedBlock (order : TimestampSort) (st : ConsensusStorage) (v : String) (s : ℕ) : Block :=
  { (st.context v s).block with
    state := .COMPLETED
    data := order.sort ((st.context v s).block.data ++
      st.contexts.keys.flatMap (st.contribution v s)) }

/-- **`mergeContributors` with every flag present.** -/
theorem mergeContributors_eq (order : TimestampSort) {v : String}
    (hv : st.markedValidator s = some v) (hc : cStr v = v)
    (h : ∀ a ∈ st.contexts.keys, (st.context a s).isContributing.isSome) :
    st.mergeContributors order s = some (mergedBlock order st v s,
      ((st.accessAll s).access v s).addBlock v s (mergedBlock order st v s)) := by
  have hall := untouched_accessAll st s
  have hmem : v ∈ (st.accessAll s).contexts.keys := by
    rw [hall.keys]
    exact (markedValidator_eq_some hv).1
  have hu := hall.trans (untouched_access hmem s)
  have hcontribution : ((st.accessAll s).access v s).contribution v s =
      st.contribution v s := by
    funext a
    simp [contribution]
  have hdata : ((st.accessAll s).access v s).contributedData v s st.contexts.keys =
      some (st.contexts.keys.flatMap (st.contribution v s)) := by
    rw [contributedData_eq, hcontribution]
    intro a ha
    rw [hu.context]
    exact h a ha
  simp only [mergeContributors, hv, hc, Option.bind_eq_bind, Option.bind_some, hu.keys, hdata]
  simp [mergedBlock]

/-- `mergeContributors` changes the block of the marked validator. -/
theorem context_mergeContributors {order : TimestampSort} {b : Block}
    (h : st.mergeContributors order s = some (b, st')) (a : String) (s' : ℕ) :
    st'.context a s' =
      if (st.markedValidator s).map cStr = some a ∧ s' = s then
        { st.context a s with block := b }
      else st.context a s' := by
  simp only [mergeContributors, Option.bind_eq_bind, Option.bind_eq_some_iff, Option.pure_def,
    Option.some.injEq, Prod.mk.injEq] at h
  obtain ⟨v, hv, data, -, rfl, rfl⟩ := h
  rw [addBlock, context_modify]
  simp only [context_access, context_accessAll, hv, Option.map_some, Option.some.injEq]
  by_cases ha : a = cStr v
  · subst ha
    simp
  · simp [ha, Ne.symm ha]

/-! ## The keys -/

private theorem foldl_improve_mem (better : ℕ → ℕ → Bool) (value : String → ℕ)
    (as : List String) :
    ∀ best : String × ℕ, (as.foldl (fun best a => improve better best a (value a)) best).1 ∈
      best.1 :: as := by
  induction as with
  | nil => intro best; exact List.mem_singleton.2 rfl
  | cons a as ih =>
    intro best
    rw [List.foldl_cons]
    rw [improve]
    split
    · exact List.mem_cons_of_mem _ (ih (a, value a))
    · rcases List.mem_cons.1 (ih best) with h | h
      · exact List.mem_cons.2 (.inl h)
      · exact List.mem_cons_of_mem _ (List.mem_cons_of_mem _ h)

/-- An elected address is one of the table. -/
theorem electedValidator_mem {v : String} (h : st.electedValidator s = some v) :
    v ∈ st.contexts.keys := by
  rw [electedValidator] at h
  split at h
  · cases h
  · next first rest hkeys =>
    cases h
    rw [hkeys]
    rcases List.mem_cons.1 (foldl_improve_mem _ _ (first :: rest) _) with h | h
    · rw [h]
      exact List.mem_cons_self
    · exact h

/-- With an address in the table, somebody is elected. -/
theorem exists_electedValidator (h : a ∈ st.contexts.keys) (s : ℕ) :
    ∃ v, st.electedValidator s = some v := by
  rw [electedValidator]
  split
  · next hkeys => simp [hkeys] at h
  · exact ⟨_, rfl⟩

theorem keys_foldl_modify (f : ConsensusContext → ConsensusContext) (s : ℕ) (as : List String) :
    ∀ st : ConsensusStorage, (∀ a ∈ as, a ∈ st.contexts.keys) →
      (as.foldl (fun st a => st.modify a s f) st).contexts.keys = st.contexts.keys := by
  induction as with
  | nil => intro st _; rfl
  | cons a as ih =>
    intro st h
    have ha : (st.modify a s f).contexts.keys = st.contexts.keys :=
      keys_write_of_mem (h a List.mem_cons_self) _
    rw [List.foldl_cons, ih _ fun b hb => ?_, ha]
    rw [ha]
    exact h b (List.mem_cons_of_mem _ hb)

theorem keys_removeElectionValueDuplicates (st : ConsensusStorage) (s : ℕ) :
    (st.removeElectionValueDuplicates s).contexts.keys = st.contexts.keys := by
  rw [removeElectionValueDuplicates]
  rw [keys_foldl_modify, (untouched_accessAll st s).keys]
  rw [duplicatedAddresses_eq, (untouched_accessAll st s).keys]
  exact fun _ h => h

theorem subset_keys_write (st : ConsensusStorage) (a : String) (s : ℕ) (c : ConsensusContext) :
    st.contexts.keys ⊆ (st.write a s c).contexts.keys := fun _ hb =>
  (mem_keys_write _ _ _ _ _).2 (.inr hb)

/-! ## Everything but the table -/

/-- The storage without its table: the synchronization contexts, the configuration, and the clock.
-/
def rest (st : ConsensusStorage) : UnorderedMap ℕ (Option ℕ) × List SlotSychronizationContext ×
    NodeConfiguration × (String → ℕ → ℕ → ℕ) :=
  (st.conditions, st.allocated, st.nodeConfiguration, st.stamp)

theorem rest_eq (h : st'.rest = st.rest) :
    st'.conditions = st.conditions ∧ st'.allocated = st.allocated ∧
      st'.nodeConfiguration = st.nodeConfiguration ∧ st'.stamp = st.stamp := by
  simpa only [rest, Prod.mk.injEq] using h

@[simp] theorem rest_write (st : ConsensusStorage) (a : String) (s : ℕ) (c : ConsensusContext) :
    (st.write a s c).rest = st.rest := rfl

@[simp] theorem rest_access (st : ConsensusStorage) (a : String) (s : ℕ) :
    (st.access a s).rest = st.rest := rfl

@[simp] theorem rest_modify (st : ConsensusStorage) (a : String) (s : ℕ)
    (f : ConsensusContext → ConsensusContext) : (st.modify a s f).rest = st.rest := rfl

theorem rest_foldl {α : Type} (f : ConsensusStorage → α → ConsensusStorage)
    (h : ∀ st a, (f st a).rest = st.rest) (as : List α) :
    ∀ st, (as.foldl f st).rest = st.rest := by
  induction as with
  | nil => intro st; rfl
  | cons a as ih => intro st; rw [List.foldl_cons, ih, h]

@[simp] theorem rest_accessAll (st : ConsensusStorage) (s : ℕ) :
    (st.accessAll s).rest = st.rest :=
  rest_foldl (fun st a => st.access a s) (fun _ _ => rfl) _ _

@[simp] theorem rest_initContexts (st : ConsensusStorage) (s : ℕ) :
    (st.initContexts s).rest = st.rest :=
  rest_foldl (fun st a => st.access a s) (fun _ _ => rfl) _ _

@[simp] theorem rest_removeElectionValueDuplicates (st : ConsensusStorage) (s : ℕ) :
    (st.removeElectionValueDuplicates s).rest = st.rest :=
  (rest_foldl (fun st a => st.modify a s fun c => { c with electionValue := 0 })
    (fun _ _ => rfl) _ _).trans (rest_accessAll _ _)

theorem rest_allOf (p : ConsensusContext → Option Bool) (s : ℕ) (as : List String) :
    ∀ st, (allOf p s as st).2.rest = st.rest := by
  induction as with
  | nil => intro st; rfl
  | cons a as ih =>
    intro st
    simp only [allOf]
    split
    · rw [ih, rest_access]
    · rfl

theorem rest_anyOf (p : ConsensusContext → Option Bool) (s : ℕ) (as : List String) :
    ∀ st, (anyOf p s as st).2.rest = st.rest := by
  induction as with
  | nil => intro st; rfl
  | cons a as ih =>
    intro st
    simp only [anyOf]
    split
    · rw [ih, rest_access]
    · rfl

@[simp] theorem rest_areAllContributorsConfirmed (st : ConsensusStorage) (s : ℕ) :
    (st.areAllContributorsConfirmed s).2.rest = st.rest := rest_allOf _ _ _ _

@[simp] theorem rest_isAnyNodeContributing (st : ConsensusStorage) (s : ℕ) :
    (st.isAnyNodeContributing s).2.rest = st.rest := rest_anyOf _ _ _ _

@[simp] theorem rest_areAllElectionValuesPresent (st : ConsensusStorage) (s : ℕ) :
    (st.areAllElectionValuesPresent s).2.rest = st.rest := rest_allOf _ _ _ _

@[simp] theorem rest_isAllContributorsDataCollected (st : ConsensusStorage) (s : ℕ) :
    (st.isAllContributorsDataCollected s).2.rest = st.rest := rest_allOf _ _ _ _

@[simp] theorem rest_isElectionValueUnique (st : ConsensusStorage) (a : String) (s : ℕ) :
    (st.isElectionValueUnique a s).2.rest = st.rest := rest_anyOf _ _ _ _

theorem rest_markValidator (h : st.markValidator s = some st') : st'.rest = st.rest := by
  obtain ⟨v, -, rfl⟩ := Option.map_eq_some_iff.1 h
  simp

theorem rest_mergeContributors {order : TimestampSort} {r : Block × ConsensusStorage}
    (h : st.mergeContributors order s = some r) : r.2.rest = st.rest := by
  simp only [mergeContributors, Option.bind_eq_bind, Option.bind_eq_some_iff, Option.pure_def,
    Option.some.injEq] at h
  obtain ⟨v, -, data, -, rfl⟩ := h
  simp [addBlock]

/-! ## Synchronization contexts -/

theorem find_initConditions (st : ConsensusStorage) (s s' : ℕ) :
    (st.initConditions s).conditions.find s' =
      if s' = s ∧ st.conditions.find s = none then some (some st.allocated.length)
      else st.conditions.find s' := by
  rw [initConditions]
  have hmem := st.conditions.mem_keys s
  by_cases hs : s' = s
  · subst hs
    cases h : st.conditions.find s' <;> simp [h, hmem]
  · split <;> simp [hs, UnorderedMap.find_set_ne]

theorem find_getSlotSynchronizationContext (st : ConsensusStorage) (s s' : ℕ) :
    (st.getSlotSynchronizationContext s).2.conditions.find s' =
      if s' = s ∧ st.conditions.find s = none then some none
      else st.conditions.find s' := by
  rw [getSlotSynchronizationContext]
  split
  · next p hp => simp [hp]
  · next hp =>
    by_cases hs : s' = s
    · simp [hs, hp]
    · simp [hs, UnorderedMap.find_set_ne]

theorem getSlotSynchronizationContext_fst (st : ConsensusStorage) (s : ℕ) :
    (st.getSlotSynchronizationContext s).1 = (st.conditions.find s).join := by
  rw [getSlotSynchronizationContext]
  split
  · next p hp => simp [hp]
  · next hp => simp [hp]

/-- The pointers in `conditions` are to objects that exist, and to different ones. -/
structure PointersOk (st : ConsensusStorage) : Prop where
  lt : ∀ s p, st.conditions.find s = some (some p) → p < st.allocated.length
  inj : ∀ s s' p, st.conditions.find s = some (some p) → st.conditions.find s' = some (some p) →
    s = s'

theorem PointersOk.of_rest (h : st.PointersOk) (hrest : st'.rest = st.rest) :
    st'.PointersOk := by
  obtain ⟨hc, ha, -⟩ := rest_eq hrest
  exact ⟨fun s p => by rw [hc, ha]; exact h.lt s p, fun s s' p => by rw [hc]; exact h.inj s s' p⟩

theorem PointersOk.initConditions (h : st.PointersOk) (s : ℕ) :
    (st.initConditions s).PointersOk := by
  have hlen : st.allocated.length ≤ (st.initConditions s).allocated.length := by
    rw [ConsensusStorage.initConditions]
    split <;> simp
  have hnew : st.conditions.find s = none →
      (st.initConditions s).allocated.length = st.allocated.length + 1 := by
    intro hs
    have hmem : s ∉ st.conditions.keys := by simp [st.conditions.mem_keys, hs]
    simp [ConsensusStorage.initConditions, hmem]
  constructor
  · intro s' p hp
    rw [find_initConditions] at hp
    split at hp
    · next hs =>
      cases hp
      have := hnew hs.2
      omega
    · have := h.lt s' p hp
      omega
  · intro s₁ s₂ p h₁ h₂
    rw [find_initConditions] at h₁ h₂
    split at h₁ <;> split at h₂
    · next hs₁ hs₂ => exact hs₁.1.trans hs₂.1.symm
    · cases h₁
      exact absurd (h.lt s₂ _ h₂) (lt_irrefl _)
    · cases h₂
      exact absurd (h.lt s₁ _ h₁) (lt_irrefl _)
    · exact h.inj s₁ s₂ p h₁ h₂

theorem PointersOk.getSlotSynchronizationContext (h : st.PointersOk) (s : ℕ) :
    (st.getSlotSynchronizationContext s).2.PointersOk := by
  have ha : (st.getSlotSynchronizationContext s).2.allocated = st.allocated := by
    rw [ConsensusStorage.getSlotSynchronizationContext]
    split <;> rfl
  have hfind : ∀ s' p, (st.getSlotSynchronizationContext s).2.conditions.find s' =
      some (some p) → st.conditions.find s' = some (some p) := by
    intro s' p hp
    rw [find_getSlotSynchronizationContext] at hp
    split at hp
    · cases hp
    · exact hp
  exact ⟨fun s' p hp => by rw [ha]; exact h.lt s' p (hfind s' p hp),
    fun s₁ s₂ p h₁ h₂ => h.inj s₁ s₂ p (hfind s₁ p h₁) (hfind s₂ p h₂)⟩

theorem PointersOk.storeSynchronized (h : st.PointersOk) (p : ℕ) (b : Bool) :
    (st.storeSynchronized p b).PointersOk :=
  ⟨fun s q hq => by simpa [ConsensusStorage.storeSynchronized] using h.lt s q hq, h.inj⟩

theorem find_clearSlot_of_some {o : Option ℕ}
    (h : (st.clearSlot s).conditions.find s' = some o) : st.conditions.find s' = some o := by
  rw [clearSlot] at h
  simp only at h
  split at h
  · exact h
  · rw [UnorderedMap.find_erase] at h
    split at h
    · cases h
    · exact h

theorem PointersOk.clearSlot (h : st.PointersOk) (s : ℕ) : (st.clearSlot s).PointersOk :=
  ⟨fun s' p hp => h.lt s' p (find_clearSlot_of_some hp),
    fun s₁ s₂ p h₁ h₂ => h.inj s₁ s₂ p (find_clearSlot_of_some h₁) (find_clearSlot_of_some h₂)⟩

end BlockchainMessaging.ConsensusStorage
