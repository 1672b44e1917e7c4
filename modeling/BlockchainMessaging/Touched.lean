import BlockchainMessaging.StorageSpec

/-!
# What a call touches

Every public method works on one slot: it writes entries of this slot, for addresses that the
caller names or the table holds, and may change the slot's synchronization context.  What
follows from this needs no look at the methods again: other slots are left alone, no address is
removed, and none is added that was not named.

## Main definitions

* `Apart` — two storages differ in one slot only.
* `Touched` — one comes from the other by what a call does.
-/

namespace BlockchainMessaging

namespace ConsensusStorage

/-! ## Storages that differ in one slot -/

/-- `st'` differs from `st` in the slot `s` only. -/
structure Apart (s : ℕ) (st st' : ConsensusStorage) : Prop where
  entry : ∀ a, ∀ s' ≠ s, (st'.slots a).find s' = (st.slots a).find s'
  condition : ∀ s' ≠ s, st'.conditions.find s' = st.conditions.find s'
  stamp : ∀ a, ∀ s' ≠ s, st'.stamp a s' = st.stamp a s'

variable {A : String → Prop} {st st' st'' : ConsensusStorage} {a : String} {s s' : ℕ}

namespace Apart

@[refl] protected theorem refl (s : ℕ) (st : ConsensusStorage) : Apart s st st :=
  ⟨fun _ _ _ => rfl, fun _ _ => rfl, fun _ _ _ => rfl⟩

protected theorem trans (h : Apart s st st') (h' : Apart s st' st'') : Apart s st st'' where
  entry a s' hs := (h'.entry a s' hs).trans (h.entry a s' hs)
  condition s' hs := (h'.condition s' hs).trans (h.condition s' hs)
  stamp a s' hs := (h'.stamp a s' hs).trans (h.stamp a s' hs)

theorem context (h : Apart s st st') (a : String) (hs : s' ≠ s) :
    st'.context a s' = st.context a s' := by
  rw [ConsensusStorage.context, h.entry a s' hs, h.stamp a s' hs]
  rfl

end Apart

theorem find_slots_write (st : ConsensusStorage) (a a' : String) (s s' : ℕ)
    (c : ConsensusContext) : ((st.write a s c).slots a').find s' =
      if a' = a ∧ s' = s then some c else (st.slots a').find s' := by
  rw [write, slots, UnorderedMap.find_set]
  by_cases ha : a' = a
  · subst ha
    by_cases hs : s' = s
    · simp [hs]
    · simp [hs, UnorderedMap.find_set_ne]
  · simp [ha, slots]

theorem apart_write (st : ConsensusStorage) (a : String) (s : ℕ) (c : ConsensusContext) :
    Apart s st (st.write a s c) where
  entry a' s' hs := by rw [find_slots_write, if_neg fun h => hs h.2]
  condition _ _ := rfl
  stamp _ _ _ := rfl

theorem find_slots_clearSlot (st : ConsensusStorage) (a : String) (s s' : ℕ) :
    ((st.clearSlot s).slots a).find s' =
      if s' = s then none else (st.slots a).find s' := by
  rw [clearSlot, slots, UnorderedMap.find_mapValues, slots]
  cases st.contexts.find a with
  | none => simp
  | some m => simp [UnorderedMap.find_erase]

theorem apart_clearSlot (st : ConsensusStorage) (s : ℕ) : Apart s st (st.clearSlot s) where
  entry a s' hs := by rw [find_slots_clearSlot, if_neg hs]
  condition s' hs := by
    rw [clearSlot]
    split
    · rfl
    · rw [UnorderedMap.find_erase, if_neg hs]
  stamp a s' hs := by
    funext k
    exact if_neg hs

/-! ## What a call touches -/

/-- `st'` comes from `st` by what a call does that works on the slot `s`: writes to entries of
this slot, for the addresses of `A` and those of the table, whole or cut at a NUL byte, and
changes of the slot's synchronization context. -/
inductive Touched (A : String → Prop) (s : ℕ) (st : ConsensusStorage) :
    ConsensusStorage → Prop
  | refl : Touched A s st st
  | write {st' : ConsensusStorage} (a : String) (c : ConsensusContext) :
      Touched A s st st' → (A a ∨ ∃ b ∈ st'.contexts.keys, a = b ∨ a = cStr b) →
      Touched A s st (st'.write a s c)
  | condition {st' st'' : ConsensusStorage} :
      Touched A s st st' → st''.contexts = st'.contexts → st''.stamp = st'.stamp →
      (∀ s' ≠ s, st''.conditions.find s' = st'.conditions.find s') → Touched A s st st''
  | clear {st' : ConsensusStorage} : Touched A s st st' → Touched A s st (st'.clearSlot s)

namespace Touched

theorem trans (h : Touched A s st st') (h' : Touched A s st' st'') : Touched A s st st'' := by
  induction h' with
  | refl => exact h
  | write a c _ ha ih => exact ih.write a c ha
  | condition _ hcontexts hstamp hconditions ih => exact ih.condition hcontexts hstamp hconditions
  | clear _ ih => exact ih.clear

/-- Another slot is left alone. -/
theorem apart (h : Touched A s st st') : Apart s st st' := by
  induction h with
  | refl => exact .refl s st
  | write a c _ _ ih => exact ih.trans (apart_write _ _ _ _)
  | condition _ hcontexts hstamp hconditions ih =>
    refine ih.trans ⟨fun a s' _ => ?_, hconditions, fun _ _ _ => by rw [hstamp]⟩
    rw [slots, hcontexts, slots]
  | clear _ ih => exact ih.trans (apart_clearSlot _ _)

/-- No address is removed. -/
theorem subset_keys (h : Touched A s st st') : st.contexts.keys ⊆ st'.contexts.keys := by
  induction h with
  | refl => exact List.Subset.refl _
  | write a c _ _ ih => exact fun b hb => subset_keys_write _ _ _ _ (ih hb)
  | condition _ hcontexts _ _ ih => rwa [hcontexts]
  | clear _ ih => exact ih

/-- The addresses stay within what is closed under the round trip through a C string. -/
theorem within {P : String → Prop} (hc : ∀ a, P a → P (cStr a)) (hA : ∀ a, A a → P a)
    (h : Touched A s st st') (hkeys : ∀ a ∈ st.contexts.keys, P a) :
    ∀ a ∈ st'.contexts.keys, P a := by
  induction h with
  | refl => exact hkeys
  | write a c _ ha ih =>
    intro b hb
    rcases (mem_keys_write _ _ _ _ _).1 hb with rfl | hb
    · rcases ha with ha | ⟨a, ha, rfl | rfl⟩
      · exact hA _ ha
      · exact ih _ ha
      · exact hc _ (ih _ ha)
    · exact ih b hb
  | condition _ hcontexts _ _ ih => rwa [hcontexts]
  | clear _ ih => exact ih

/-- Where no new address is named, no address is added. -/
theorem keys_eq (hc : ∀ a ∈ st.contexts.keys, cStr a = a) (hA : ∀ a, A a → a ∈ st.contexts.keys)
    (h : Touched A s st st') : st'.contexts.keys = st.contexts.keys := by
  induction h with
  | refl => rfl
  | @write st' a c _ ha ih =>
    have hmem : a ∈ st'.contexts.keys := by
      rw [ih] at ha ⊢
      rcases ha with ha | ⟨b, hb, rfl | rfl⟩
      · exact hA a ha
      · exact hb
      · rwa [hc b hb]
    rw [keys_write_of_mem hmem, ih]
  | condition _ hcontexts _ _ ih => rw [hcontexts, ih]
  | clear _ ih => exact ih

end Touched

theorem touched_write (ha : A a ∨ a ∈ st.contexts.keys) (c : ConsensusContext) :
    Touched A s st (st.write a s c) :=
  Touched.refl.write a c (ha.imp_right fun h => ⟨a, h, .inl rfl⟩)

theorem touched_rest (hcontexts : st'.contexts = st.contexts) (hstamp : st'.stamp = st.stamp)
    (hconditions : ∀ s' ≠ s, st'.conditions.find s' = st.conditions.find s') :
    Touched A s st st' :=
  Touched.refl.condition hcontexts hstamp hconditions

section Operations

variable (A : String → Prop) (st : ConsensusStorage) (s : ℕ)

theorem touched_foldl_access (as : List String) : ∀ st : ConsensusStorage,
    (∀ a ∈ as, A a ∨ a ∈ st.contexts.keys) →
      Touched A s st (as.foldl (fun st a => st.access a s) st) := by
  induction as with
  | nil => exact fun st _ => .refl
  | cons a as ih =>
    intro st has
    rw [List.forall_mem_cons] at has
    exact (touched_write has.1 _).trans
      (ih _ fun b hb => (has.2 b hb).imp_right fun h => subset_keys_write _ _ _ _ h)

theorem touched_accessAll : Touched A s st (st.accessAll s) :=
  touched_foldl_access A s _ st fun _ ha => .inr ha

theorem touched_initConditions : Touched A s st (st.initConditions s) := by
  rw [initConditions]
  split
  · exact .refl
  · exact touched_rest rfl rfl fun s' hs => UnorderedMap.find_set_ne _ _ hs

theorem touched_getSlotSynchronizationContext :
    Touched A s st (st.getSlotSynchronizationContext s).2 := by
  rw [getSlotSynchronizationContext]
  split
  · exact .refl
  · exact touched_rest rfl rfl fun s' hs => UnorderedMap.find_set_ne _ _ hs

theorem touched_allOf (p : ConsensusContext → Option Bool) (as : List String) :
    ∀ st : ConsensusStorage, (∀ a ∈ as, a ∈ st.contexts.keys) →
      Touched A s st (allOf p s as st).2 := by
  induction as with
  | nil => exact fun st _ => .refl
  | cons a as ih =>
    intro st has
    rw [List.forall_mem_cons] at has
    rw [allOf]
    split
    · exact (touched_write (.inr has.1) _).trans
        (ih _ fun b hb => subset_keys_write _ _ _ _ (has.2 b hb))
    · exact touched_write (.inr has.1) _

theorem touched_anyOf (p : ConsensusContext → Option Bool) (as : List String) :
    ∀ st : ConsensusStorage, (∀ a ∈ as, a ∈ st.contexts.keys) →
      Touched A s st (anyOf p s as st).2 := by
  induction as with
  | nil => exact fun st _ => .refl
  | cons a as ih =>
    intro st has
    rw [List.forall_mem_cons] at has
    rw [anyOf]
    split
    · exact (touched_write (.inr has.1) _).trans
        (ih _ fun b hb => subset_keys_write _ _ _ _ (has.2 b hb))
    · exact touched_write (.inr has.1) _

theorem touched_isElectionValueUnique {a : String} (ha : A a) :
    Touched A s st (st.isElectionValueUnique a s).2 :=
  (touched_write (.inl ha) _).trans
    (touched_anyOf A s _ _ _ fun _ hb => (List.mem_filter.1 hb).1)

theorem touched_removeElectionValueDuplicates :
    Touched A s st (st.removeElectionValueDuplicates s) := by
  have hall := touched_accessAll A st s
  have hfold : ∀ (as : List String) (st' : ConsensusStorage),
      (∀ a ∈ as, a ∈ st'.contexts.keys) → Touched A s st st' →
      Touched A s st (as.foldl (fun st a =>
        st.modify a s fun c => { c with electionValue := 0 }) st') := by
    intro as
    induction as with
    | nil => exact fun st' _ h => h
    | cons a as ih =>
      intro st' has h
      rw [List.forall_mem_cons] at has
      exact ih _ (fun b hb => subset_keys_write _ _ _ _ (has.2 b hb))
        (h.trans (touched_write (.inr has.1) _))
  exact hfold _ _ (fun a ha => hall.subset_keys (List.mem_filter.1 ha).1) hall

theorem touched_markValidator {st' : ConsensusStorage} (h : st.markValidator s = some st') :
    Touched A s st st' := by
  obtain ⟨v, hv, rfl⟩ := Option.map_eq_some_iff.1 h
  have hall := touched_accessAll A st s
  exact hall.write _ _ (.inr ⟨v, hall.subset_keys (electedValidator_mem hv), .inr rfl⟩)

/-- A block for the marked validator. -/
theorem touched_addBlock_marked {v : String} (hv : st.markedValidator s = some v) (b : Block) :
    Touched A s st (((st.accessAll s).access (cStr v) s).addBlock (cStr v) s b) := by
  have hall := touched_accessAll A st s
  have hmem := hall.subset_keys (markedValidator_eq_some hv).1
  have haccess := hall.write (cStr v) ((st.accessAll s).context (cStr v) s)
    (.inr ⟨v, hmem, .inr rfl⟩)
  exact haccess.write _ _ (.inr ⟨cStr v, (mem_keys_write _ _ _ _ _).2 (.inl rfl), .inl rfl⟩)

theorem touched_mergeContributors {order : TimestampSort} {r : Block × ConsensusStorage}
    (h : st.mergeContributors order s = some r) : Touched A s st r.2 := by
  simp only [mergeContributors, Option.bind_eq_bind, Option.bind_eq_some_iff, Option.pure_def,
    Option.some.injEq] at h
  obtain ⟨v, hv, data, -, rfl⟩ := h
  exact touched_addBlock_marked A st s hv _

end Operations

/-- `initContexts` leaves an entry for every configured address. -/
theorem mem_keys_initContexts (st : ConsensusStorage) (s : ℕ) {a : String}
    (ha : a ∈ st.nodeConfiguration.addresses) : a ∈ (st.initContexts s).contexts.keys := by
  have hfold : ∀ (as : List String) (st : ConsensusStorage), a ∈ as →
      a ∈ (as.foldl (fun st a => st.access a s) st).contexts.keys := by
    intro as
    induction as with
    | nil => intro st h; cases h
    | cons b as ih =>
      intro st h
      rcases List.mem_cons.1 h with rfl | h
      · exact (touched_foldl_access (fun a => a ∈ as) s as _ fun _ => .inl).subset_keys
          ((mem_keys_write _ _ _ _ _).2 (.inl rfl))
      · exact ih _ h
  exact hfold _ st ha

end ConsensusStorage

end BlockchainMessaging
