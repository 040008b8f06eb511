/-
Views that a rescan leaves as they are.

A view is settled if it is sound and its cursor, where it leads to a heading, leads to the
selection, with nothing folded above it (`Settled`).  The settled views are those that stay
the same when their outline is put in place of itself (`replaceOutline_eq_self_iff`).  A new
outline settles any view (`settled_replaceOutline`), so to put the same one in place again
changes nothing.

A sound view settles also when it follows a cursor that leads to a heading.  When it jumps,
the cursor moves to the anchor of the selection, and that leads back to the selection only
because the anchors of the root increase along the outline of a build (`settled_jump`).
-/
import Sectioning.Proofs.Walks

namespace Sectioning

namespace Folds

theorem filter_eq_self {f : Folds} {keep : Nat → Bool}
    (h : ∀ i, f.contains i = true → keep i = true) : f.filter keep = f := by
  apply ext_contains
  intro i
  rw [contains_filter]
  exact and_iff_left_of_imp (h i)

end Folds

namespace View

variable {v : View}

/-- The view is sound, and its cursor does not ask for another selection or for fewer
folds. -/
structure Settled (v : View) : Prop extends Sound v where
  follows : ∀ cursor i, v.cursor = some cursor → v.outline.headingAt? v.root cursor = some i →
    i = v.selected ∧ v.IsShown

/-! ## What a rescan leaves alone -/

theorem carryOver_eq_self (h : v.Sound) : v.carryOver v.outline = v := by
  have hselected : (if v.outline.size ≤ v.selected then v.outline.size - 1 else v.selected) =
      v.selected := by
    have hlt := h.selected_lt
    have hzero := h.selected_eq_zero
    split <;> omega
  have hfolds : (v.folds.filter fun i => decide (i < v.outline.size) && v.outline.hasChildren i) =
      v.folds := by
    apply Folds.filter_eq_self
    intro i hi
    rw [Bool.and_eq_true, decide_eq_true_eq]
    exact h.folds_spec i hi
  rw [carryOver, hselected, hfolds]

theorem reveal_selected (h : v.IsShown) : v.reveal v.selected = v := by
  have hfolds : (v.folds.filter fun j => !(v.outline.ancestors v.selected).contains j) =
      v.folds := by
    apply Folds.filter_eq_self
    intro i hi
    rw [Bool.not_eq_true', ← Bool.not_eq_true, List.contains_iff_mem]
    intro hmem
    exact isHidden_eq_false_iff.1 h i hmem hi
  rw [reveal]
  simp only [hfolds]

theorem Settled.replaceOutline_eq {o : Outline} (h : v.Settled) (ho : v.outline = o) :
    v.replaceOutline o = v := by
  subst ho
  cases hcursor : v.cursor with
  | none => rw [replaceOutline_of_none hcursor, carryOver_eq_self h.toSound]
  | some cursor =>
    have hsame : { v with cursor := some cursor } = v := by rw [← hcursor]
    rw [replaceOutline_of_some hcursor, carryOver_eq_self h.toSound]
    cases hat : v.outline.headingAt? v.root cursor with
    | none => rw [follow_of_none hat, hsame]
    | some i =>
      obtain ⟨rfl, hshown⟩ := h.follows cursor i hcursor hat
      rw [follow_of_some hat, hsame, reveal_selected hshown]

/-! ## What settles a view -/

theorem settled_follow (hv : v.Sound) (cursor : Position) : (v.follow cursor).Settled where
  toSound := (keeps_follow v cursor).sound hv
  follows c i hc hi := by
    rw [cursor_follow, Option.some.injEq] at hc
    subst hc
    rw [(keeps_follow v cursor).outline_eq, (keeps_follow v cursor).root_eq] at hi
    rw [follow_of_some hi]
    exact ⟨rfl, isShown_reveal _ i⟩

theorem settled_of_none (hv : v.Sound) (h : v.cursor = none) : v.Settled where
  toSound := hv
  follows cursor i hcursor := by
    rw [h] at hcursor
    cases hcursor

theorem settled_replaceOutline (v : View) (o : Outline) : (v.replaceOutline o).Settled := by
  have hsound := sound_carryOver v o
  cases hcursor : v.cursor with
  | none =>
    rw [replaceOutline_of_none hcursor]
    exact settled_of_none hsound hcursor
  | some cursor =>
    rw [replaceOutline_of_some hcursor]
    exact settled_follow hsound cursor

theorem replaceOutline_eq_self_iff : v.replaceOutline v.outline = v ↔ v.Settled := by
  constructor
  · intro h
    rw [← h]
    exact settled_replaceOutline v v.outline
  · intro h
    exact h.replaceOutline_eq rfl

theorem settled_jump {h : Heading} (hv : v.Sound) (hshown : v.IsShown)
    (hlocates : v.outline.Locates v.root) (hcurrent : v.current? = some h)
    (hsource : h.source = v.root) : v.jump.Settled where
  toSound := (keeps_jump v).sound hv
  follows cursor i hcursor hi := by
    have hat := hlocates.at_anchor v.selected h ⟨hcurrent, hsource⟩
    have hjump : v.jump = { v with message := v.location? v.selected, cursor := some h.anchor } := by
      simp only [jump, hcurrent, if_pos hsource]
    rw [hjump] at hcursor hi ⊢
    cases hcursor
    exact ⟨Option.some.inj (hi.symm.trans hat), hshown⟩

theorem sound_of_mem_visible (hselected : v.selected ∈ v.visible)
    (hfolds : ∀ i, v.folds.contains i = true → v.outline.hasChildren i = true) : v.Sound where
  selected_lt _ := (mem_visible_iff.1 hselected).1
  selected_eq_zero hempty := by
    have hlt := (mem_visible_iff.1 hselected).1
    omega
  folds_spec i hi := ⟨Outline.lt_size_of_hasChildren (hfolds i hi), hfolds i hi⟩

/-- To put an outline in place twice is to do it once.  In a view of a build, which shows its
selection and has folds on headings with children only, the same outline changes nothing: not
without a cursor, not after a cursor was followed, and not after a jump in the root. -/
theorem rescan_stable (v : View) :
    (∀ o, (v.replaceOutline o).outline = o ∧
      (v.replaceOutline o).replaceOutline o = v.replaceOutline o) ∧
    ∀ (resolve : Resolver) (follow : Bool) (root : Buffer) (depth : Nat) (build : Build),
      Build.expand resolve follow depth [] (.ofBuffer root) [root.id] = .ok build →
      v.outline = .ofHeadings build.headings → v.root = root.id → v.selected ∈ v.visible →
      (∀ i, v.folds.contains i = true → v.outline.hasChildren i = true) →
      (v.cursor = none → v.replaceOutline v.outline = v) ∧
      (∀ cursor, (v.follow cursor).replaceOutline v.outline = v.follow cursor) ∧
      (∀ h, v.current? = some h → h.source = v.root →
        v.jump.replaceOutline v.outline = v.jump) := by
  constructor
  · intro o
    have houtline := (replaceOutline_spec v o).2.1
    exact ⟨houtline, (settled_replaceOutline v o).replaceOutline_eq houtline⟩
  · intro resolve follow root depth build hbuild houtline hroot hselected hfolds
    have hsound := sound_of_mem_visible hselected hfolds
    have hshown : v.IsShown := (mem_visible_iff.1 hselected).2
    have hlocates : v.outline.Locates v.root := by
      rw [houtline, hroot]
      exact (Build.increasing_root hbuild).locates
    refine ⟨fun hcursor => ?_, fun cursor => ?_, fun h hcurrent hsource => ?_⟩
    · exact (settled_of_none hsound hcursor).replaceOutline_eq rfl
    · exact (settled_follow hsound cursor).replaceOutline_eq (keeps_follow v cursor).outline_eq
    · have hsettled := settled_jump hsound hshown hlocates hcurrent hsource
      exact hsettled.replaceOutline_eq (keeps_jump v).outline_eq

/-- The outline of a build with an inclusion that stands twice between headings of the root.
The second part is selected and folded, and the cursor is in the first. -/
def foldedRefrain : View :=
  { start (.ofHeadings Build.refrainHeadings) ⟨"main.tex"⟩ with
    selected := 2
    folds := Folds.empty.insert 2
    cursor := some ⟨0, 3⟩ }

theorem rescan_foldedRefrain :
    (foldedRefrain.replaceOutline foldedRefrain.outline).selected = 0 ∧
    foldedRefrain.jump.cursor = some ⟨2, 0⟩ ∧
    foldedRefrain.jump.replaceOutline foldedRefrain.outline = foldedRefrain.jump := by
  have hbuild : Build.refrain.library.build true (.ofBuffer Build.refrainRoot) =
      .ok ⟨Build.refrainHeadings, [⟨"main.tex"⟩, ⟨"b.tex"⟩]⟩ := by
    decide +kernel
  have hfolds : ∀ i, foldedRefrain.folds.contains i = true →
      foldedRefrain.outline.hasChildren i = true := by
    intro i hi
    rcases Folds.contains_insert.1 hi with rfl | hi
    · decide +kernel
    · exact absurd hi (Folds.contains_empty i)
  obtain ⟨-, -, hjump⟩ := (rescan_stable foldedRefrain).2 _ _ _ _ _
    (Library.build_eq_ok_iff.1 hbuild) rfl rfl (by decide +kernel) hfolds
  exact ⟨by decide +kernel, by decide +kernel, hjump _ rfl rfl⟩

end View
end Sectioning
