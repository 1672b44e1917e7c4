import Mathlib.Data.List.Perm.Basic
import Mathlib.Data.Multiset.Bind

/-!
# A table, by rows and by columns

A table of lists is filled row by row: each row has entries in some columns, in an order of its own.
It is emptied column by column.  What has been emptied and what is left is what was filled in, up to
the order.

## Main definitions

* `perm_flatMap_comm` — the order of the two loops does not matter.
* `perm_columns` — the entries of all rows are those in the columns that were emptied, and the rest.
-/

namespace BlockchainMessaging

universe u v w

variable {α : Type u} {β : Type v} {γ : Type w}

/-- Two nested loops may change places. -/
theorem perm_flatMap_comm (l₁ : List α) (l₂ : List β) (f : α → β → List γ) :
    (l₁.flatMap fun a => l₂.flatMap (f a)).Perm
      (l₂.flatMap fun b => l₁.flatMap fun a => f a b) := by
  rw [← Multiset.coe_eq_coe]
  simp only [← Multiset.coe_bind]
  exact Multiset.bind_bind _ _

variable [DecidableEq β]

/-- A row is what it has in some columns, and the rest; it has nothing in columns that are not its
own. -/
theorem perm_row {d : β → List γ} {entries columns : List β} (hentries : entries.Nodup)
    (hcolumns : columns.Nodup) (hempty : ∀ b ∈ columns, b ∉ entries → d b = []) :
    (entries.flatMap d).Perm
      (columns.flatMap d ++ (entries.filter (· ∉ columns)).flatMap d) := by
  have hcommon : (entries.filter (· ∈ columns)).Perm (columns.filter (· ∈ entries)) := by
    refine (List.perm_ext_iff_of_nodup (hentries.filter _) (hcolumns.filter _)).2 fun b => ?_
    simp [and_comm]
  have hrest : (columns.filter (· ∉ entries)).flatMap d = [] := by
    rw [List.flatMap_eq_nil_iff]
    intro b hb
    rw [List.mem_filter, decide_eq_true_eq] at hb
    exact hempty b hb.1 hb.2
  have hown : ((columns.filter (· ∈ entries)).flatMap d).Perm (columns.flatMap d) := by
    have hsplit := (List.filter_append_perm (· ∈ entries) columns).flatMap_right d
    simp only [← decide_not, List.flatMap_append, hrest, List.append_nil] at hsplit
    exact hsplit
  have hsplit := (List.filter_append_perm (· ∈ columns) entries).flatMap_right d
  simp only [← decide_not, List.flatMap_append] at hsplit
  exact hsplit.symm.trans (((hcommon.flatMap_right d).trans hown).append_right _)

/-- **By columns instead of by rows.**  The entries of all rows are those in some columns, column by
column, and the rest. -/
theorem perm_columns {d : α → β → List γ} (rows : List α) {entries : α → List β}
    {columns : List β} (hentries : ∀ a ∈ rows, (entries a).Nodup) (hcolumns : columns.Nodup)
    (hempty : ∀ a ∈ rows, ∀ b ∈ columns, b ∉ entries a → d a b = []) :
    (rows.flatMap fun a => (entries a).flatMap (d a)).Perm
      ((columns.flatMap fun b => rows.flatMap fun a => d a b) ++
        rows.flatMap fun a => ((entries a).filter (· ∉ columns)).flatMap (d a)) := by
  have hrows := List.Perm.flatMap_left rows fun a ha =>
    perm_row (hentries a ha) hcolumns (hempty a ha)
  refine hrows.trans ((List.flatMap_append_perm rows _ _).symm.trans ?_)
  exact (perm_flatMap_comm rows columns d).append_right _

end BlockchainMessaging
