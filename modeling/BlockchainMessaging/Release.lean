import Mathlib.Data.Fintype.Basic
import Mathlib.Data.List.Perm.Subperm
import BlockchainMessaging.Process
import BlockchainMessaging.SingleNode

/-!
# What is left of a slot

`CompleteBlockSaver` clears the slot when the block is complete, and nobody else does.  A slot in
which nobody contributes ends before, in `PendingBlockRemover`, and keeps its entries; so does a
slot for which a message is handled after it was cleared, and the slot of the init callback when
the block of the run belongs to another one, or when the callback comes so late that the run has
cleared the slot.  Where none of this happens, the storage holds entries for slots that are still
worked on, and for early messages.

## Main definitions

* `ConsensusStorage.Holds` — there is an entry for the slot.
* `Process.Working`, `Process.Early` — who may have entries.
* `Process.Releases` — the condition on a step.
-/

namespace BlockchainMessaging

open ConsensusStorage

/-- The storage has an entry for the slot, in one of its two maps. -/
def ConsensusStorage.Holds (st : ConsensusStorage) (s : ℕ) : Prop :=
  (∃ a, (st.slots a).find s ≠ none) ∨ st.conditions.find s ≠ none

theorem ConsensusStorage.Apart.holds {st st' : ConsensusStorage} {s s' : ℕ}
    (h : Apart s st st') (hs : s' ≠ s) (hholds : st'.Holds s') : st.Holds s' := by
  rcases hholds with ⟨a, ha⟩ | hcondition
  · exact .inl ⟨a, by rwa [h.entry a s' hs] at ha⟩
  · exact .inr (by rwa [h.condition s' hs] at hcondition)

/-- A table that is cleared keeps nothing of the slot. -/
theorem ConsensusStorage.not_holds_clearSlot {st : ConsensusStorage} (h : st.contexts.keys ≠ [])
    (s : ℕ) : ¬ (st.clearSlot s).Holds s := by
  rintro (⟨a, ha⟩ | hcondition)
  · exact ha (by rw [find_slots_clearSlot, if_pos rfl])
  · simp [clearSlot, h] at hcondition

/-! ## Places in the code -/

/-- `handle` has returned. -/
def SlotPc.handled : SlotPc → Bool
  | .returned | .stopped => true
  | _ => false

/-- The run is done with its slot. -/
def SlotPc.left : SlotPc → Bool
  | .publishBlock | .returned | .stopped => true
  | _ => false

/-- The run has begun, and is not done with its slot. -/
def SlotPc.working (pc : SlotPc) : Bool := decide (pc ≠ .initConditions) && !pc.left

/-- The way out of a slot in which nobody contributes. -/
def SlotPc.idle : SlotPc → Bool
  | .removeGet | .removeDelete | .stopped => true
  | _ => false

/-- Where a run goes on from here is a matter of the code alone, and it goes on working. -/
def SlotPc.steady (pc : SlotPc) : Bool :=
  !pc.left && !pc.idle && decide (pc ∉ [SlotPc.initConditions, .removeCheck, .completeClear])

theorem SlotPc.Woken.working_eq {pc pc' : SlotPc} (h : pc.Woken pc') :
    pc'.working = pc.working ∧ pc'.left = pc.left ∧ pc'.idle = pc.idle := by
  rcases h with rfl | ⟨w, rfl, rfl⟩
  · exact ⟨rfl, rfl, rfl⟩
  · cases w <;> exact ⟨rfl, rfl, rfl⟩

/-! ## The condition -/

namespace Process

variable {ι : Type} {E : ι → SlotEnv} {p p' : Process ι} {s : ℕ}

/-- A run works on the slot. -/
def Working (E : ι → SlotEnv) (p : Process ι) (s : ℕ) : Prop :=
  ∃ r, (E r).pendingBlock.slot = s ∧ (p.run r).pc.working = true

/-- No run is done with the slot. -/
def Unleft (E : ι → SlotEnv) (p : Process ι) (s : ℕ) : Prop :=
  ∀ r, (E r).pendingBlock.slot = s → (p.run r).pc.left = false

/-- A message for the slot has come, and no run is done with it. -/
def Early (E : ι → SlotEnv) (p : Process ι) (s : ℕ) : Prop :=
  (∃ m ∈ p.received, m.header.slot = s) ∧ Unleft E p s

/-- The init callback and the block are of one slot, somebody contributes in this slot, the callback
is through before the run clears the slot, and no call of the consensus thread works on a slot that
was left for good. -/
def Releases (E : ι → SlotEnv) (p : Process ι) : ProcessAction ι → Prop
  | .slot r =>
      ((p.run r).pc = .initConditions → (E r).slot = (E r).pendingBlock.slot) ∧
        ((p.run r).pc = .removeCheck →
          (p.storage.isAnyNodeContributing (p.run r).context.header.slot).1 ≠ some false) ∧
        ((p.run r).pc = .completeClear → p.late r = [])
  | .begin r => (E r).slot = (E r).pendingBlock.slot
  | .init _ => True
  | .wake _ => True
  | .handle => Working E p p.header.slot ∨ Unleft E p p.header.slot
  | .receive _ => True

instance [Fintype ι] (E : ι → SlotEnv) (p : Process ι) :
    ∀ act : ProcessAction ι, Decidable (Releases E p act)
  | .slot _ => inferInstanceAs (Decidable ((_ → _) ∧ (_ → _) ∧ (_ → _)))
  | .begin _ => inferInstanceAs (Decidable (_ = _))
  | .init _ => .isTrue trivial
  | .wake _ => .isTrue trivial
  | .handle => inferInstanceAs (Decidable ((∃ _, _ ∧ _) ∨ (∀ _, _ → _)))
  | .receive _ => .isTrue trivial

/-! ## The invariant -/

/-- Only slots that are worked on, and slots of early messages, have entries. -/
structure Kept (E : ι → SlotEnv) (p : Process ι) : Prop where
  onSlot : ∀ r, (p.run r).OnSlot (E r)
  init : ∀ r, (p.run r).pc = .initContexts → (E r).slot = (E r).pendingBlock.slot
  late : ∀ r, p.late r ≠ [] →
    (E r).slot = (E r).pendingBlock.slot ∧ (p.run r).pc.working = true
  busy : ∀ r, (p.run r).pc.idle = false
  keys : ∀ r, 4 ≤ (p.run r).pc.rank → p.storage.contexts.keys ≠ []
  header : p.todo ≠ [] → ∃ m ∈ p.received, m.header.slot = p.header.slot
  held : ∀ s, p.storage.Holds s → Working E p s ∨ Early E p s

theorem Working.congr (hrun : ∀ r, (p'.run r).pc.working = (p.run r).pc.working)
    (h : Working E p s) : Working E p' s := by
  obtain ⟨r, hs, hr⟩ := h
  exact ⟨r, hs, (hrun r).trans hr⟩

theorem Early.congr (hreceived : p.received ⊆ p'.received)
    (hrun : ∀ r, (E r).pendingBlock.slot = s → (p'.run r).pc.left = (p.run r).pc.left)
    (h : Early E p s) : Early E p' s := by
  obtain ⟨⟨m, hm, hs⟩, hleft⟩ := h
  exact ⟨⟨m, hreceived hm, hs⟩, fun r hr => (hrun r hr).trans (hleft r hr)⟩

/-- Where a run that is at work goes next, if its slot is not idle. -/
theorem working_slotMove {F : SlotEnv} {n : Node} (hpc : n.pc.left = false)
    (hidle : n.pc.idle = false) (hclear : n.pc ≠ .completeClear)
    (hbusy : n.pc = .removeCheck →
      (n.storage.isAnyNodeContributing n.context.header.slot).1 ≠ some false) :
    (slotMove F n).1.pc.working = true ∧ (slotMove F n).1.pc.idle = false := by
  have hnext := slotMove_pc (R := fun pc pc' => pc.steady = true → pc'.working = true ∧
    pc'.idle = false) (by decide +kernel) F n
  by_cases hinit : n.pc = .initConditions
  · simp [slotMove, hinit, SlotPc.working, SlotPc.left, SlotPc.idle]
  by_cases hcheck : n.pc = .removeCheck
  · simp only [slotMove, hcheck, Node.ask_eq]
    cases h : (n.storage.isAnyNodeContributing n.context.header.slot).1 with
    | none => exact ⟨rfl, rfl⟩
    | some b =>
      cases b with
      | true => exact ⟨rfl, rfl⟩
      | false => exact absurd h (hbusy hcheck)
  · exact hnext (by simp [SlotPc.steady, hpc, hidle, hinit, hcheck, hclear])

/-- A call of a run touches the slot of its block. -/
theorem apart_slotMove {F : SlotEnv} {n : Node} (h : n.OnSlot F)
    (hinit : n.pc.rank ≤ 1 → F.slot = F.pendingBlock.slot) :
    Apart F.pendingBlock.slot n.storage (slotMove F n).1.storage := by
  have htouched := (slotMove_touched F n).apart
  have hplaces : ∀ pc : SlotPc, pc = .initConditions ∨ pc = .initContexts ∨ pc = .saveAdd ∨
      pc = .saveBlock ∨ 4 ≤ pc.rank := by decide +kernel
  rcases hplaces n.pc with hpc | hpc | hpc | hpc | h4
  · simpa [Node.touchedSlot, hpc, hinit (by rw [hpc]; decide)] using htouched
  · simpa [Node.touchedSlot, hpc, hinit (by rw [hpc]; decide)] using htouched
  · rw [show (slotMove F n).1.storage = n.storage by simp [slotMove, hpc]]
  · simpa [Node.touchedSlot, Node.workSlot, hpc, h.block (by rw [hpc]; decide)] using htouched
  · have hslot : n.touchedSlot F = n.context.header.slot := by
      rw [Node.touchedSlot]
      split
      · next hpc => simp [hpc, SlotPc.rank] at h4
      · next hpc => simp [hpc, SlotPc.rank] at h4
      · rw [Node.workSlot]
        split
        · next hpc => simp [hpc, SlotPc.rank] at h4
        · rfl
    rwa [hslot, h.header h4] at htouched

/-- What leaves every run where it is, or wakes it up. -/
private theorem Kept.passive (hi : Kept E p) (hpc : ∀ r, (p.run r).pc.Woken (p'.run r).pc)
    (hcontext : ∀ r, (p'.run r).context = (p.run r).context)
    (hlate : ∀ r, p'.late r ≠ [] → p.late r ≠ [])
    (hkeys : p.storage.contexts.keys ⊆ p'.storage.contexts.keys)
    (hreceived : p.received ⊆ p'.received)
    (hheader : p'.todo ≠ [] → ∃ m ∈ p'.received, m.header.slot = p'.header.slot)
    (hheld : ∀ s, p'.storage.Holds s → Working E p s ∨ Early E p s) : Kept E p' := by
  have hrank : ∀ r, (p'.run r).pc.rank = (p.run r).pc.rank := fun r => (hpc r).rank_eq
  constructor
  case onSlot =>
    exact fun r => ⟨by rw [hrank, hcontext]; exact (hi.onSlot r).block,
      by rw [hrank, hcontext]; exact (hi.onSlot r).header⟩
  case init =>
    intro r h
    rcases hpc r with hsame | ⟨w, -, hw⟩
    · exact hi.init r (hsame ▸ h)
    · rw [hw] at h
      cases h
  case late =>
    intro r h
    obtain ⟨hslot, hworking⟩ := hi.late r (hlate r h)
    exact ⟨hslot, (hpc r).working_eq.1.trans hworking⟩
  case busy => exact fun r => (hpc r).working_eq.2.2.trans (hi.busy r)
  case keys =>
    intro r h hnil
    exact hi.keys r (by rwa [← hrank]) (List.eq_nil_of_subset_nil (hnil ▸ hkeys))
  case header => exact hheader
  case held =>
    intro s hs
    rcases hheld s hs with hworking | hearly
    · exact .inl (hworking.congr fun r => (hpc r).working_eq.1)
    · exact .inr (hearly.congr hreceived fun r _ => (hpc r).working_eq.2.1)

/-- A run that still has calls to make for the init callback works on the slot of its block. -/
private theorem Kept.slot_eq (hi : Kept E p) {r : ι} (hok : Releases E p (.slot r))
    (hrank : (p.run r).pc.rank ≤ 1) : (E r).slot = (E r).pendingBlock.slot := by
  have hplaces : ∀ pc : SlotPc, pc.rank ≤ 1 → pc = .initConditions ∨ pc = .initContexts := by
    decide +kernel
  rcases hplaces _ hrank with hpc | hpc
  · exact hok.1 hpc
  · exact hi.init r hpc

variable [DecidableEq ι]

/-- What has entries after a call of a run. -/
private theorem Kept.held_slot (hi : Kept E p) {r : ι} (hok : Releases E p (.slot r))
    (h : step E p (.slot r) = some p') {s : ℕ} (hholds : p'.storage.Holds s) :
    Working E p' s ∨ Early E p' s := by
  obtain ⟨-, hblocked, n, hn, hp⟩ := step_slot_eq_some h
  have hrun : p'.run r = n := by simp [hp]
  have hother : ∀ r' ≠ r, p'.run r' = p.run r' := fun r' hr => by simp [hp, hr]
  have hstorage : p'.storage = n.storage := by rw [hp]
  have hreceived : p'.received = p.received := by rw [hp]
  have honSlot : (p.view (p.run r)).OnSlot (E r) := ⟨(hi.onSlot r).block, (hi.onSlot r).header⟩
  have hapart : Apart (E r).pendingBlock.slot p.storage n.storage := by
    rw [hn]
    exact apart_slotMove honSlot (hi.slot_eq hok)
  rw [hstorage] at hholds
  by_cases hs : s = (E r).pendingBlock.slot
  · by_cases hclear : (p.run r).pc = .completeClear
    · -- The slot was cleared.
      have hne := hi.keys r (by rw [hclear]; decide)
      have hclear' : (p.view (p.run r)).pc = .completeClear := hclear
      simp only [hn, slotMove, hclear', honSlot.header (by rw [hclear']; decide), hs] at hholds
      exact absurd hholds (not_holds_clearSlot hne _)
    · cases hleft : (p.run r).pc.left with
      | false =>
        refine .inl ⟨r, hs.symm, ?_⟩
        rw [hrun, hn]
        exact (working_slotMove (n := p.view (p.run r)) hleft (hi.busy r) hclear hok.2.1).1
      | true =>
        -- The block is published; whatever is there belongs to another run.
        have hplaces : ∀ pc : SlotPc, pc.left = true → pc.blocked = false →
          pc = .publishBlock := by decide +kernel
        have hpc := hplaces _ hleft hblocked
        have hpc' : (p.view (p.run r)).pc = .publishBlock := hpc
        have hsame : n.storage = p.storage := by
          simp only [hn, slotMove, hpc']
          rfl
        rw [hsame] at hholds
        rcases hi.held s hholds with ⟨r', hs', hr'⟩ | ⟨-, hunleft⟩
        · have hne : r' ≠ r := by
            rintro rfl
            simp [hpc, SlotPc.working, SlotPc.left] at hr'
          exact .inl ⟨r', hs', by rwa [hother r' hne]⟩
        · simp [hunleft r hs.symm] at hleft
  · have hrun' : ∀ r', (E r').pendingBlock.slot = s → p'.run r' = p.run r' := fun r' hr' =>
      hother r' (by rintro rfl; exact hs hr'.symm)
    rcases hi.held s (hapart.holds hs hholds) with ⟨r', hs', hr'⟩ | hearly
    · exact .inl ⟨r', hs', by rwa [hrun' r' hs']⟩
    · exact .inr (hearly.congr (by simp [hreceived]) fun r' hr' => by rw [hrun' r' hr'])

/-- A call of a run. -/
private theorem Kept.slot (hi : Kept E p) {r : ι} (hok : Releases E p (.slot r))
    (h : step E p (.slot r) = some p') : Kept E p' := by
  obtain ⟨-, -, n, hn, hp⟩ := step_slot_eq_some h
  have hrun : p'.run r = n := by simp [hp]
  have hother : ∀ r' ≠ r, p'.run r' = p.run r' := fun r' hr => by simp [hp, hr]
  have hstorage : p'.storage = n.storage := by rw [hp]
  have honSlot : (p.view (p.run r)).OnSlot (E r) := ⟨(hi.onSlot r).block, (hi.onSlot r).header⟩
  have hkeys : p.storage.contexts.keys ⊆ n.storage.contexts.keys := by
    rw [hn]
    exact (slotMove_touched (E r) (p.view (p.run r))).subset_keys
  constructor
  case onSlot =>
    intro r'
    by_cases hr : r' = r
    · rw [hr, hrun, hn]
      exact honSlot.slotMove
    · rw [hother r' hr]
      exact hi.onSlot r'
  case init =>
    intro r' hpc
    by_cases hr : r' = r
    · subst hr
      have hback := slotMove_pc (R := fun pc pc' => pc' = .initContexts → pc.rank ≤ 1)
        (by decide +kernel) (E r') (p.view (p.run r'))
      rw [hrun, hn] at hpc
      exact hi.slot_eq hok (hback hpc)
    · rw [hother r' hr] at hpc
      exact hi.init r' hpc
  case late =>
    intro r' hlate
    have hlate' : p.late r' ≠ [] := by rwa [hp] at hlate
    obtain ⟨hslot, hworking⟩ := hi.late r' hlate'
    refine ⟨hslot, ?_⟩
    by_cases hr : r' = r
    · subst hr
      have hclear : (p.run r').pc ≠ .completeClear := fun hclear => hlate' (hok.2.2 hclear)
      have hleft : (p.run r').pc.left = false := by
        simp only [SlotPc.working, Bool.and_eq_true, Bool.not_eq_true'] at hworking
        exact hworking.2
      rw [hrun, hn]
      exact (working_slotMove (n := p.view (p.run r')) hleft (hi.busy r') hclear hok.2.1).1
    · rwa [hother r' hr]
  case busy =>
    intro r'
    by_cases hr : r' = r
    · rw [hr, hrun, hn]
      by_cases hclear : (p.run r).pc = .completeClear
      · simp [slotMove, view, hclear, SlotPc.idle]
      · cases hleft : (p.run r).pc.left with
        | false =>
          exact (working_slotMove (n := p.view (p.run r)) hleft (hi.busy r) hclear hok.2.1).2
        | true =>
          have hback := slotMove_pc (R := fun pc pc' => pc.left = true → pc.idle = false →
            pc'.idle = false) (by decide +kernel) (E r) (p.view (p.run r))
          exact hback hleft (hi.busy r)
    · rw [hother r' hr]
      exact hi.busy r'
  case keys =>
    intro r' hrank
    rw [hstorage]
    have hmono : p.storage.contexts.keys ≠ [] → n.storage.contexts.keys ≠ [] := fun hne hnil =>
      hne (List.eq_nil_of_subset_nil (hnil ▸ hkeys))
    by_cases hr : r' = r
    · subst hr
      rw [hrun, hn] at hrank
      have hback := slotMove_pc (R := fun pc pc' => 4 ≤ pc'.rank → pc = .saveBlock ∨ 4 ≤ pc.rank)
        (by decide +kernel) (E r') (p.view (p.run r')) hrank
      rcases hback with hpc | hrank
      · -- The block of the run is in the table.
        have hself : (E r').self ∈ n.storage.contexts.keys := by
          have hpc' : (p.view (p.run r')).pc = .saveBlock := hpc
          simp only [hn, slotMove, hpc']
          exact (mem_keys_write _ _ _ _ _).2 (.inl rfl)
        exact List.ne_nil_of_mem hself
      · exact hmono (hi.keys r' hrank)
    · rw [hother r' hr] at hrank
      exact hmono (hi.keys r' hrank)
  case header =>
    rw [hp]
    exact hi.header
  case held => exact fun s hs => hi.held_slot hok h hs

/-- The thread of a run begins before the init callback is through. -/
private theorem Kept.begin (hi : Kept E p) {r : ι} (hok : Releases E p (.begin r))
    (h : step E p (.begin r) = some p') : Kept E p' := by
  obtain ⟨-, hrank, hp⟩ := step_begin_eq_some h
  have hrun : (p'.run r).pc = .saveAdd := by simp [hp]
  have hother : ∀ r' ≠ r, p'.run r' = p.run r' := fun r' hr => by simp [hp, hr]
  have hleft : (p.run r).pc.left = false := by
    have hall : ∀ pc : SlotPc, pc.rank ≤ 1 → pc.left = false := by decide +kernel
    exact hall _ hrank
  constructor
  case onSlot =>
    intro r'
    by_cases hr : r' = r
    · subst hr
      exact ⟨fun h3 => absurd h3 (by simp [hrun, SlotPc.rank]),
        fun h4 => absurd h4 (by simp [hrun, SlotPc.rank])⟩
    · rw [hother r' hr]
      exact hi.onSlot r'
  case init =>
    intro r' hpc
    by_cases hr : r' = r
    · subst hr
      exact hok
    · rw [hother r' hr] at hpc
      exact hi.init r' hpc
  case late =>
    intro r' hlate
    by_cases hr : r' = r
    · subst hr
      exact ⟨hok, by rw [hrun]; rfl⟩
    · rw [hother r' hr]
      refine hi.late r' ?_
      simpa [hp, hr] using hlate
  case busy =>
    intro r'
    by_cases hr : r' = r
    · subst hr
      rw [hrun]
      rfl
    · rw [hother r' hr]
      exact hi.busy r'
  case keys =>
    intro r' h4
    by_cases hr : r' = r
    · subst hr
      exact absurd h4 (by simp [hrun, SlotPc.rank])
    · rw [hother r' hr] at h4
      have hkeys := hi.keys r' h4
      rwa [hp]
  case header =>
    rw [hp]
    exact hi.header
  case held =>
    intro s hs
    have hs' : p.storage.Holds s := by rwa [hp] at hs
    rcases hi.held s hs' with ⟨r', hslot, hr'⟩ | hearly
    · by_cases hr : r' = r
      · exact .inl ⟨r, hr ▸ hslot, by rw [hrun]; rfl⟩
      · exact .inl ⟨r', hslot, by rwa [hother r' hr]⟩
    · refine .inr (hearly.congr (by simp [hp]) fun r' _ => ?_)
      by_cases hr : r' = r
      · subst hr
        rw [hrun, hleft]
        rfl
      · rw [hother r' hr]

/-- A call of an init callback that comes after the thread has begun. -/
private theorem Kept.initCall (hi : Kept E p) {r : ι} (h : step E p (.init r) = some p') :
    Kept E p' := by
  obtain ⟨call, calls, hlate, hp⟩ := step_init_eq_some h
  have htouched := call.exec_touched (E r).slot p.storage
  obtain ⟨hslot, hworking⟩ := hi.late r (by simp [hlate])
  refine hi.passive (fun r' => ?_) (fun r' => ?_) (fun r' hr' => ?_) ?_ ?_ ?_ fun s hs => ?_
  · rw [hp]
    exact .inl rfl
  · rw [hp]
  · by_cases hr : r' = r
    · simp [hr, hlate]
    · simpa [hp, hr] using hr'
  · rw [hp]
    exact htouched.subset_keys
  · simp [hp]
  · rw [hp]
    exact hi.header
  · have hs' : (call.exec (E r).slot p.storage).Holds s := by rwa [hp] at hs
    by_cases hsr : s = (E r).slot
    · exact .inl ⟨r, by rw [hsr, hslot], hworking⟩
    · exact hi.held s (htouched.apart.holds hsr hs')

/-- **One step keeps the invariant**, if it meets the condition. -/
theorem Kept.step (hi : Kept E p) {act : ProcessAction ι} (hok : Releases E p act)
    (h : step E p act = some p') : Kept E p' := by
  cases act with
  | slot r => exact hi.slot hok h
  | begin r => exact hi.begin hok h
  | init r => exact hi.initCall h
  | wake r =>
    obtain ⟨w, hpc, hp⟩ := step_wake_eq_some h
    have hwoken : ∀ r', (p.run r').pc.Woken (p'.run r').pc ∧
        (p'.run r').context = (p.run r').context := by
      intro r'
      by_cases hr : r' = r
      · subst hr
        simp only [hp, Function.update_self]
        exact ⟨.inr ⟨w, hpc, rfl⟩, rfl⟩
      · simp only [hp, Function.update_of_ne hr]
        exact ⟨.inl rfl, trivial⟩
    refine hi.passive (fun r => (hwoken r).1) (fun r => (hwoken r).2) (fun r => ?_) ?_ ?_ ?_ ?_
    · rw [hp]
      exact id
    · rw [hp]
      exact List.Subset.refl _
    · simp [hp]
    · rw [hp]
      exact hi.header
    · rw [hp]
      exact hi.held
  | handle =>
    obtain ⟨-, op, rest, n, htodo, hn, hp⟩ := step_handle_eq_some h
    have hheader := hi.header (by simp [htodo])
    have htouched : Touched (· = p.header.address) p.header.slot p.storage n.storage := by
      rw [hn]
      exact op.exec_touched { p.consensus with todo := rest }
    refine hi.passive (fun r => ?_) (fun r => ?_) (fun r => ?_) ?_ ?_ ?_ fun s hs => ?_
    · simp only [hp]
      exact op.exec_pc _
    · simp only [hp, HandlerOp.exec_context]
      rfl
    · rw [hp]
      exact id
    · rw [hp]
      exact htouched.subset_keys
    · simp [hp]
    · rw [hp]
      exact fun _ => hheader
    · have hs' : n.storage.Holds s := by rwa [hp] at hs
      by_cases hslot : s = p.header.slot
      · rw [hslot]
        exact hok.imp_right fun hunleft => ⟨hheader, hunleft⟩
      · exact hi.held s (htouched.apart.holds hslot hs')
  | receive m =>
    obtain ⟨-, hstorage, hrun, hreceived, hheader⟩ := step_receive_eq_some h
    refine hi.passive (fun r => ?_) (fun r => ?_) (fun r => ?_) ?_ ?_ (fun htodo => ?_) ?_
    · rw [hrun]
      exact .inl rfl
    · rw [hrun]
    · obtain ⟨n, -, rfl⟩ := Option.map_eq_some_iff.1 h
      exact id
    · rw [hstorage]
      exact List.Subset.refl _
    · rw [hreceived]
      exact List.subset_append_left _ _
    · rw [hreceived, hheader htodo]
      exact ⟨m, by simp, rfl⟩
    · rw [hstorage]
      exact hi.held

/-! ## What is left -/

/-- **A slot is released** when all its runs have returned, in every run of the process whose steps
meet the condition: the storage holds entries for slots that are worked on and for early messages
only.  Their number bounds the number of entries that each map of the storage has. -/
theorem released {st : ConsensusStorage} (hst : ∀ s, ¬ st.Holds s)
    (hr : Reaches (Process.step E) (Releases E) (start st) p) :
    (∀ r, (p.run r).pc.handled = true → ¬ Working E p (E r).pendingBlock.slot →
        ¬ p.storage.Holds (E r).pendingBlock.slot) ∧
      (∀ s, p.storage.Holds s → Working E p s ∨ Early E p s) ∧
      ∀ slots : List ℕ, (∀ s, Working E p s ∨ Early E p s → s ∈ slots) →
        p.storage.conditions.keys.length ≤ slots.length ∧
          ∀ a, (p.storage.slots a).keys.length ≤ slots.length := by
  have hinit : Kept E (start st) :=
    { onSlot := fun r => ⟨fun h => by simp [start, SlotPc.rank] at h,
        fun h => by simp [start, SlotPc.rank] at h⟩
      init := fun r h => by cases h
      late := fun r h => absurd rfl h
      busy := fun r => rfl
      keys := fun r h => by simp [start, SlotPc.rank] at h
      header := fun h => absurd rfl h
      held := fun s hs => absurd hs (hst s) }
  have hi : Kept E p := hr.invariant hinit fun _ _ _ hi hok hstep => hi.step hok hstep
  refine ⟨fun r hhandled hworking hholds => ?_, hi.held, fun slots hslots => ⟨?_, fun a => ?_⟩⟩
  · rcases hi.held _ hholds with h | ⟨-, hunleft⟩
    · exact hworking h
    · have hall : ∀ pc : SlotPc, pc.handled = true → pc.left = true := by decide +kernel
      exact absurd (hall _ hhandled) (by simp [hunleft r rfl])
  · refine (p.storage.conditions.nodup.subperm fun s hs => ?_).length_le
    rw [UnorderedMap.mem_keys, Option.isSome_iff_ne_none] at hs
    exact hslots s (hi.held s (.inr hs))
  · refine ((p.storage.slots a).nodup.subperm fun s hs => ?_).length_le
    rw [UnorderedMap.mem_keys, Option.isSome_iff_ne_none] at hs
    exact hslots s (hi.held s (.inl ⟨a, hs⟩))

end Process

/-! ## A node without peers -/

/-- The node `a` without peers works on slots 2 and 3. -/
def soloEnv (data : List Message) (later : Bool) : SlotEnv :=
  plainEnv "a" [] (if later then 3 else 2) data (fun _ => 5) five_range

/-- The node before the first of its slots. -/
def solo : Process Bool := .start (emptyStorage (soloEnv [] false))

theorem not_holds_solo (s : ℕ) : ¬ solo.storage.Holds s := by
  rintro (⟨a, ha⟩ | h)
  · exact ha rfl
  · exact h rfl

set_option maxRecDepth 4000 in
/-- A slot with a message is released, while the next one is worked on, although both threads have
begun before their init callbacks were through. -/
theorem Process.released_solo : ∃ p : Process Bool, (p.run false).pc = .returned ∧
    p.storage.Holds 3 ∧ ¬ p.storage.Holds 2 := by
  obtain ⟨p, hr, hp⟩ := exists_reaches (Process.step (soloEnv [⟨900, "x", "a"⟩]))
    (Process.Releases (soloEnv [⟨900, "x", "a"⟩])) solo
    ([.slot true, .begin true, .begin false] ++ List.replicate 4 (.slot false) ++
      [.init false, .init false, .init true] ++ List.replicate 22 (.slot false))
    (fun p => (p.run false).pc = .returned ∧ p.storage.conditions.find 3 ≠ none ∧
      (p.run true).pc = .saveAdd) (by decide +kernel)
  simp only [decide_eq_true_eq] at hp
  refine ⟨p, hp.1, .inr hp.2.1, (released not_holds_solo hr).1 false (by rw [hp.1]; rfl) ?_⟩
  rintro ⟨later, hs, hworking⟩
  cases later with
  | false => simp [hp.1, SlotPc.working, SlotPc.left] at hworking
  | true => exact absurd hs (by decide +kernel)

set_option maxRecDepth 4000 in
/-- A slot without messages is not. -/
theorem Process.not_released_solo :
    ¬ ∀ p : Process Bool, Reachable (Process.step (soloEnv [])) solo p → p.todo = [] →
      (p.run false).pc.handled = true → (p.run true).pc = .initConditions →
      ¬ p.storage.Holds 2 := by
  intro hall
  obtain ⟨p, hr, hp⟩ := exists_reaches (Process.step (soloEnv [])) (fun _ _ => True) solo
    (List.replicate 13 (.slot false))
    (fun p => p.todo = [] ∧ (p.run false).pc.handled = true ∧
      (p.run true).pc = .initConditions ∧ p.storage.conditions.find 2 ≠ none) (by decide +kernel)
  simp only [decide_eq_true_eq] at hp
  exact hall p hr hp.1 hp.2.1 hp.2.2.1 (.inr hp.2.2.2)

end BlockchainMessaging
