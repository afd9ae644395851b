import Mathlib.Data.List.TakeWhile

/-!
# Where a list is cut

A list is cut where a run of items with a property ends: before the first item without it, or at the end of the
list. With a separator, the run is what stands before its first occurrence.
-/

set_option autoImplicit false

namespace LineCalc

variable {Item : Type}

/-! ## Runs -/

theorem cut_append {holds : Item → Bool} {run rest : List Item}
    (each : ∀ item ∈ run, holds item = true) (stop : ∀ item ∈ rest.head?, holds item = false) :
    (run ++ rest).takeWhile holds = run ∧ (run ++ rest).dropWhile holds = rest := by
  rw [List.takeWhile_append_of_pos each, List.dropWhile_append_of_pos each]
  cases rest with
  | nil => exact ⟨List.append_nil run, rfl⟩
  | cons item rest =>
    have stops := stop item rfl
    rw [List.takeWhile_cons_of_neg (by simp [stops]), List.dropWhile_cons_of_neg (by simp [stops]),
      List.append_nil]
    exact ⟨rfl, rfl⟩

theorem stop_dropWhile (holds : Item → Bool) (items : List Item) :
    ∀ item ∈ (items.dropWhile holds).head?, holds item = false := by
  intro item first
  have stops := List.head?_dropWhile_not holds items
  rwa [Option.mem_def.mp first] at stops

/-! ## Separators -/

variable [DecidableEq Item] {separator : Item}

private theorem ne_of_not_mem {items : List Item} (absent : separator ∉ items) :
    ∀ item ∈ items, decide (item ≠ separator) = true := by
  intro item member
  rw [decide_eq_true_eq]
  rintro rfl
  exact absent member

theorem cut_of_not_mem {items : List Item} (absent : separator ∉ items) :
    items.takeWhile (· ≠ separator) = items ∧ items.dropWhile (· ≠ separator) = [] :=
  ⟨List.takeWhile_eq_self_iff.mpr (ne_of_not_mem absent),
    List.dropWhile_eq_nil_iff.mpr (ne_of_not_mem absent)⟩

theorem cut_separator {before : List Item} (absent : separator ∉ before) (after : List Item) :
    (before ++ separator :: after).takeWhile (· ≠ separator) = before ∧
      (before ++ separator :: after).dropWhile (· ≠ separator) = separator :: after := by
  apply cut_append (ne_of_not_mem absent)
  intro item first
  cases first
  exact decide_eq_false (not_not_intro rfl)

end LineCalc
