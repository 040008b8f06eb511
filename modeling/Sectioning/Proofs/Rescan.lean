/-
When a new outline hides the selection.

The selection and the folds keep their indices when the outline changes, and the
headings at these indices can be other ones, at other levels.  The selection is
shown again if the cursor finds a heading, which is then revealed.  Otherwise a
fold that was beside the selection can come to be above it
(`isShown_carryOver_iff`): it has a child then, so it is not dropped.

`hidden_by_demotion` is such a case.  As long as the levels up to the selection
stay the same there is none (`isShown_replaceOutline_of_level_eq`).
-/
import Sectioning.Proofs.Navigation

namespace Sectioning
namespace View

instance (v : View) : Decidable v.IsShown :=
  inferInstanceAs (Decidable (v.isHidden v.selected = false))

theorem selected_carryOver (v : View) (o : Outline) :
    (v.carryOver o).selected = min v.selected (o.size - 1) := by
  show (if o.size ≤ v.selected then o.size - 1 else v.selected) = _
  split <;> omega

/-- A fold above the selection has a child, so it is carried over. -/
theorem isShown_carryOver_iff {v : View} {o : Outline} :
    (v.carryOver o).IsShown ↔
      ∀ i, v.folds.contains i = true → i ∉ o.ancestors (v.carryOver o).selected := by
  rw [IsShown, isHidden_eq_false_iff]
  constructor
  · intro h i hfold hi
    have hchildren := Outline.hasChildren_of_mem_ancestors hi
    have hkept : decide (i < o.size) && o.hasChildren i := by
      rw [hchildren, Bool.and_true, decide_eq_true_eq]
      exact Outline.lt_size_of_hasChildren hchildren
    exact h i hi (Folds.contains_filter.2 ⟨hfold, hkept⟩)
  · intro h i hi hfold
    exact h i (Folds.contains_filter.1 hfold).1 hi

theorem isShown_follow {v : View} {cursor : Position} :
    (v.follow cursor).IsShown ↔
      v.outline.headingAt? v.root cursor ≠ none ∨ v.IsShown := by
  cases h : v.outline.headingAt? v.root cursor with
  | none =>
    rw [follow_of_none h, or_iff_right (not_not_intro rfl)]
    rfl
  | some i =>
    rw [follow_of_some h]
    exact iff_of_true (isShown_reveal _ i) (Or.inl (Option.some_ne_none i))

theorem isShown_replaceOutline {v : View} {o : Outline} :
    (v.replaceOutline o).IsShown ↔
      (∃ cursor, v.cursor = some cursor ∧ o.headingAt? v.root cursor ≠ none) ∨
      (v.carryOver o).IsShown := by
  cases h : v.cursor with
  | none =>
    rw [replaceOutline_of_none h, or_iff_right]
    rintro ⟨cursor, hcursor, -⟩
    cases hcursor
  | some cursor =>
    rw [replaceOutline_of_some h, isShown_follow]
    refine or_congr_left ⟨fun hfound => ⟨cursor, rfl, hfound⟩, ?_⟩
    rintro ⟨cursor', hcursor, hfound⟩
    cases hcursor
    exact hfound

/-- The selection is shown after a new outline exactly if the cursor finds a heading
in it, or each old fold before the selection is closed again, at the selection or
before it, by a heading that is no deeper than the one the fold is now at. -/
theorem isShown_replaceOutline_iff (v : View) (o : Outline) :
    (v.replaceOutline o).IsShown ↔
      (∃ cursor, v.cursor = some cursor ∧ o.headingAt? v.root cursor ≠ none) ∨
      ∀ i, v.folds.contains i = true → i < min v.selected (o.size - 1) →
        ∃ m, i < m ∧ m ≤ min v.selected (o.size - 1) ∧ o.level m ≤ o.level i := by
  rw [isShown_replaceOutline, isShown_carryOver_iff, selected_carryOver]
  simp only [Outline.notMem_ancestors_iff]

/-! ## A selection that comes to be under a fold -/

def demotionRoot : SourceId := ⟨"main.tex"⟩

/-- Two chapters, the first of them with a section. -/
def beforeDemotion : Outline :=
  .ofHeadings [⟨"a", 2, ⟨0, 0⟩, demotionRoot⟩, ⟨"b", 3, ⟨1, 0⟩, demotionRoot⟩,
    ⟨"c", 2, ⟨2, 0⟩, demotionRoot⟩]

/-- The second chapter is now a section of the first. -/
def afterDemotion : Outline :=
  .ofHeadings [⟨"a", 2, ⟨0, 0⟩, demotionRoot⟩, ⟨"b", 3, ⟨1, 0⟩, demotionRoot⟩,
    ⟨"c", 3, ⟨2, 0⟩, demotionRoot⟩]

/-- The first chapter is folded and the second one is selected. -/
def foldedBeside : View :=
  (Action.run (start beforeDemotion demotionRoot, .idle .high)
    [.press ⟨.left, false⟩ 0, .press ⟨.down, false⟩ 0]).1

theorem hidden_by_demotion :
    foldedBeside.Sound ∧ foldedBeside.IsShown ∧ afterDemotion.size ≠ 0 ∧
    ¬ (foldedBeside.replaceOutline afterDemotion).IsShown := by
  refine ⟨Action.sound_run (start_sound _ _) _, ?_⟩
  decide +kernel

/-! ## Changes after the selection -/

theorem isShown_replaceOutline_of_level_eq {v : View} {o : Outline} (hv : v.IsShown)
    (hsize : v.selected < o.size) (hlevel : ∀ j, j ≤ v.selected → o.level j = v.outline.level j) :
    (v.replaceOutline o).IsShown := by
  apply isShown_replaceOutline.2
  apply Or.inr
  apply isShown_carryOver_iff.2
  intro i hfold
  rw [selected_carryOver, Nat.min_eq_left (by omega), Outline.notMem_ancestors_iff]
  intro hi
  have hbeside : i ∉ v.outline.ancestors v.selected :=
    fun habove => isHidden_eq_false_iff.1 hv i habove hfold
  obtain ⟨m, him, hm, hle⟩ := Outline.notMem_ancestors_iff.1 hbeside hi
  refine ⟨m, him, hm, ?_⟩
  rw [hlevel m hm, hlevel i (Nat.le_of_lt hi)]
  exact hle

end View
end Sectioning
