/-
The headings shown, as a walk through the tree.

A view looks at each heading alone and asks whether one above it is folded.  The walk
goes through the roots and from each heading to its children, and passes by what is under
a fold (`Outline.walk`).  Both give the same list (`visible_eq_walk`).  They have the same
members, since a heading is passed exactly if nothing above it is folded
(`mem_walk_iff`), and both increase, since what is under a heading ends before the next one
with the same parent (`lt_of_mem_lineage`).

The arrow keys step through this list, and to fold the selection cuts a run out of it.
-/
import Mathlib.Data.List.Sort
import Sectioning.Proofs.Lineages
import Sectioning.Proofs.Navigation

namespace Sectioning

namespace Folds

variable {f g : Folds} {i : Nat}

theorem ext_contains (h : ∀ i, f.contains i = true ↔ g.contains i = true) : f = g := by
  obtain ⟨is, hf⟩ := f
  obtain ⟨js, hg⟩ := g
  simp only [contains, List.contains_iff_mem] at h
  cases hf.eq_of_mem_iff hg h
  rfl

theorem contains_empty (i : Nat) : ¬ empty.contains i = true :=
  Bool.false_ne_true

theorem erase_insert (h : ¬ f.contains i = true) : (f.insert i).erase i = f := by
  apply ext_contains
  intro j
  rw [erase, contains_filter, contains_insert, bne_iff_ne]
  constructor
  · rintro ⟨hj | hj, hne⟩
    · exact absurd hj hne
    · exact hj
  · intro hj
    refine ⟨Or.inr hj, ?_⟩
    rintro rfl
    exact h hj

end Folds

namespace Outline

variable {o : Outline} {folds : Folds} {i k : Nat}

/-! ## Walks -/

/-- The heading `i`, and the walks from its children unless it is folded. -/
def walkFrom (o : Outline) (folds : Folds) (i : Nat) : List Nat :=
  i :: if folds.contains i then [] else
    (o.children i).attach.flatMap fun ⟨c, _⟩ => o.walkFrom folds c
termination_by o.size - i
decreasing_by
  next hc =>
    have hlt := parent?_lt (parent?_of_child hc)
    have hsize := (mem_under_iff.1 hc).1
    omega

/-- The headings in the order of the tree, without those under a fold. -/
def walk (o : Outline) (folds : Folds) : List Nat :=
  o.roots.flatMap (o.walkFrom folds)

theorem walkFrom_eq (o : Outline) (folds : Folds) (i : Nat) : o.walkFrom folds i =
    i :: if folds.contains i then [] else (o.children i).flatMap (o.walkFrom folds) := by
  rw [walkFrom]
  simp

theorem mem_walkFrom : k ∈ o.walkFrom folds i ↔
    k = i ∨ ¬ folds.contains i = true ∧ ∃ c ∈ o.children i, k ∈ o.walkFrom folds c := by
  rw [walkFrom_eq, List.mem_cons]
  split
  · next h => simp [h]
  · next h => simp [h]

/-- A walk passes what is under its start and not under a fold from there on. -/
theorem mem_walkFrom_iff : k ∈ o.walkFrom folds i ↔
    i ∈ o.lineage k ∧ ∀ a ∈ o.ancestors k, i ≤ a → ¬ folds.contains a = true := by
  induction i using walkFrom.induct (o := o) with
  | case1 i ih =>
    rw [mem_walkFrom, mem_lineage]
    constructor
    · rintro (rfl | ⟨hopen, c, hchild, hk⟩)
      · refine ⟨Or.inl rfl, fun a ha hle => ?_⟩
        have hlt := lt_of_mem_ancestors ha
        omega
      · obtain ⟨hc, hbelow⟩ := (ih c hchild).1 hk
        have hparent := parent?_of_child hchild
        have hi : i ∈ o.ancestors c := by
          rw [ancestors_of_some hparent]
          exact List.mem_cons_self
        refine ⟨Or.inr (mem_ancestors_of_mem_lineage hi hc), fun a ha hle => ?_⟩
        by_cases hca : c ≤ a
        · exact hbelow a ha hca
        · -- between `i` and its child there is nothing above `k`
          have hac := mem_ancestors_of_le ha (Nat.lt_of_not_le hca) (le_of_mem_lineage hc)
          rw [ancestors_eq_lineage hparent] at hac
          rw [Nat.le_antisymm (le_of_mem_lineage hac) hle]
          exact hopen
    · rintro ⟨rfl | hi, hbelow⟩
      · exact Or.inl rfl
      · obtain ⟨c, hchild, hc⟩ := exists_child hi
        refine Or.inr ⟨hbelow i hi (Nat.le_refl i), c, hchild, (ih c hchild).2 ⟨hc, ?_⟩⟩
        intro a ha hca
        have hic := parent?_lt (parent?_of_child hchild)
        exact hbelow a ha (by omega)

theorem mem_walk_iff : k ∈ o.walk folds ↔
    k < o.size ∧ ∀ a ∈ o.ancestors k, ¬ folds.contains a = true := by
  rw [walk, List.mem_flatMap]
  simp only [roots, mem_under_iff, mem_walkFrom_iff]
  constructor
  · rintro ⟨r, ⟨hr, hroot⟩, hk, hbelow⟩
    refine ⟨?_, fun a ha => hbelow a ha ?_⟩
    · rcases mem_lineage.1 hk with rfl | hk
      · exact hr
      · exact lt_size_of_mem_ancestors hk
    · -- no heading stands above a root
      by_contra hlt
      have habove := mem_ancestors_of_le ha (Nat.lt_of_not_le hlt) (le_of_mem_lineage hk)
      rw [ancestors_of_none hroot] at habove
      cases habove
  · rintro ⟨hk, hopen⟩
    obtain ⟨r, hroot, hr⟩ := exists_root (o := o) k
    have hle := le_of_mem_lineage hr
    exact ⟨r, ⟨by omega, hroot⟩, hr, fun a ha _ => hopen a ha⟩

/-- Walks from headings with one parent come one after the other. -/
theorem pairwise_flatMap_walkFrom {parent : Option Nat}
    (h : ∀ c ∈ o.under parent, (o.walkFrom folds c).Pairwise (· < ·)) :
    ((o.under parent).flatMap (o.walkFrom folds)).Pairwise (· < ·) := by
  refine List.pairwise_flatMap.2 ⟨h, (o.sorted_under parent).imp_of_mem ?_⟩
  intro c d hc hd hcd k hk m hm
  have hparent : o.parent? c = o.parent? d :=
    (mem_under_iff.1 hc).2.trans (mem_under_iff.1 hd).2.symm
  have hkd := lt_of_mem_lineage hparent hcd (mem_walkFrom_iff.1 hk).1
  have hdm := le_of_mem_lineage (mem_walkFrom_iff.1 hm).1
  omega

theorem pairwise_walkFrom (o : Outline) (folds : Folds) (i : Nat) :
    (o.walkFrom folds i).Pairwise (· < ·) := by
  induction i using walkFrom.induct (o := o) with
  | case1 i ih =>
    rw [walkFrom_eq]
    split
    · exact List.pairwise_singleton _ i
    · refine List.pairwise_cons.2 ⟨fun k hk => ?_, pairwise_flatMap_walkFrom ih⟩
      obtain ⟨c, hchild, hk⟩ := List.mem_flatMap.1 hk
      have hic := parent?_lt (parent?_of_child hchild)
      have hck := le_of_mem_lineage (mem_walkFrom_iff.1 hk).1
      omega

theorem pairwise_walk (o : Outline) (folds : Folds) : (o.walk folds).Pairwise (· < ·) :=
  pairwise_flatMap_walkFrom fun c _ => o.pairwise_walkFrom folds c

theorem walk_empty (o : Outline) : o.walk .empty = List.range o.size := by
  refine (o.pairwise_walk .empty).eq_of_mem_iff List.pairwise_lt_range fun k => ?_
  rw [mem_walk_iff, List.mem_range]
  exact and_iff_left fun a _ => Folds.contains_empty a

end Outline

namespace View

variable {v : View} {before after : List Nat} {i j k : Nat}

theorem mem_visible_iff : k ∈ v.visible ↔ k < v.outline.size ∧ v.isHidden k = false := by
  rw [visible, List.mem_filter, List.mem_range, Bool.not_eq_true']

theorem pairwise_visible (v : View) : v.visible.Pairwise (· < ·) :=
  List.pairwise_lt_range.filter _

theorem visible_eq_walk (v : View) : v.visible = v.outline.walk v.folds := by
  refine v.pairwise_visible.eq_of_mem_iff (v.outline.pairwise_walk v.folds) fun k => ?_
  rw [mem_visible_iff, Outline.mem_walk_iff, isHidden_eq_false_iff]

/-! ## Steps through the headings shown -/

theorem nextVisible?_eq (v : View) :
    v.nextVisible? = (v.visible.filter (v.selected < ·)).head? := by
  rw [visible, List.filter_filter, List.head?_filter]
  rfl

theorem prevVisible?_eq (h : v.selected ≤ v.outline.size) :
    v.prevVisible? = (v.visible.filter (· < v.selected)).getLast? := by
  have hbefore : (List.range v.selected).filter (fun i => !v.isHidden i) =
      v.visible.filter (· < v.selected) := by
    refine List.Pairwise.eq_of_mem_iff (List.pairwise_lt_range.filter _)
      (v.pairwise_visible.filter _) fun k => ?_
    rw [List.mem_filter, List.mem_filter, List.mem_range, mem_visible_iff, Bool.not_eq_true',
      decide_eq_true_eq]
    constructor
    · rintro ⟨hk, hshown⟩
      exact ⟨⟨by omega, hshown⟩, hk⟩
    · rintro ⟨⟨-, hshown⟩, hk⟩
      exact ⟨hk, hshown⟩
  rw [← hbefore, ← List.head?_reverse, ← List.filter_reverse, List.head?_filter]
  rfl

theorem visible_split (h : v.visible = before ++ i :: after) :
    v.visible.filter (· < i) = before ∧ v.visible.filter (i < ·) = after := by
  have hsorted := v.pairwise_visible
  rw [h, List.pairwise_append, List.pairwise_cons] at hsorted
  obtain ⟨-, ⟨hafter, -⟩, hbefore⟩ := hsorted
  have hlt : ∀ k ∈ before, k < i := fun k hk => hbefore k hk i List.mem_cons_self
  rw [h, List.filter_append, List.filter_append, List.filter_cons_of_neg (by simp),
    List.filter_cons_of_neg (by simp)]
  constructor
  · rw [List.filter_eq_self.2 fun k hk => decide_eq_true (hlt k hk), List.filter_eq_nil_iff.2,
      List.append_nil]
    intro k hk
    have hik := hafter k hk
    simp only [decide_eq_true_eq]
    omega
  · rw [List.filter_eq_self.2 fun k hk => decide_eq_true (hafter k hk), List.filter_eq_nil_iff.2,
      List.nil_append]
    intro k hk
    have hki := hlt k hk
    simp only [decide_eq_true_eq]
    omega

/-! ## Folding the selection -/

theorem isHidden_fold : (v.fold i).isHidden k = true ↔
    v.isHidden k = true ∨ i ∈ v.outline.ancestors k := by
  rw [isHidden, isHidden, List.any_eq_true, List.any_eq_true]
  constructor
  · rintro ⟨a, ha, hfold⟩
    rcases Folds.contains_insert.1 hfold with rfl | hfold
    · exact Or.inr ha
    · exact Or.inl ⟨a, ha, hfold⟩
  · rintro (⟨a, ha, hfold⟩ | hi)
    · exact ⟨a, ha, Folds.contains_insert.2 (Or.inr hfold)⟩
    · exact ⟨i, hi, Folds.contains_insert.2 (Or.inl rfl)⟩

theorem visible_fold (v : View) (i : Nat) :
    (v.fold i).visible = v.visible.filter fun k => i ∉ v.outline.ancestors k := by
  refine List.Pairwise.eq_of_mem_iff (pairwise_visible _) (v.pairwise_visible.filter _) fun k => ?_
  rw [List.mem_filter, mem_visible_iff, mem_visible_iff, decide_eq_true_eq, and_assoc,
    ← Bool.not_eq_true, ← Bool.not_eq_true, isHidden_fold, not_or]
  rfl

/-- An increasing list, cut after the elements up to `j`. -/
theorem filter_le_append_filter_lt {l : List Nat} (hl : l.Pairwise (· < ·)) (j : Nat) :
    l.filter (· ≤ j) ++ l.filter (j < ·) = l := by
  refine List.Pairwise.eq_of_mem_iff
    (List.pairwise_append.2 ⟨hl.filter _, hl.filter _, fun a ha b hb => ?_⟩) hl fun k => ?_
  · have hle := of_decide_eq_true (List.mem_filter.1 ha).2
    have hlt := of_decide_eq_true (List.mem_filter.1 hb).2
    omega
  · rw [List.mem_append, List.mem_filter, List.mem_filter, decide_eq_true_eq, decide_eq_true_eq,
      ← and_or_left]
    exact and_iff_left (Nat.lt_or_ge j k).symm

/-- What is shown under a heading is a run right behind it, and to fold the heading cuts
this run out. -/
theorem visible_fold_cut (hi : i ∈ v.visible) : ∃ before block after,
    v.visible = before ++ i :: (block ++ after) ∧
    (v.fold i).visible = before ++ i :: after ∧
    ∀ k, k ∈ block ↔ k ∈ v.visible ∧ i ∈ v.outline.ancestors k := by
  obtain ⟨before, rest, hsplit⟩ := List.append_of_mem hi
  obtain ⟨hbefore, hrest⟩ := visible_split hsplit
  obtain ⟨j, -, -, hunder⟩ := Outline.exists_mem_ancestors_iff (mem_visible_iff.1 hi).1
  have hsorted : rest.Pairwise (· < ·) := hrest ▸ v.pairwise_visible.filter _
  have hgt : ∀ k ∈ rest, i < k := by
    intro k hk
    rw [← hrest] at hk
    exact of_decide_eq_true (List.mem_filter.1 hk).2
  refine ⟨before, rest.filter (· ≤ j), rest.filter (j < ·), ?_, ?_, fun k => ?_⟩
  · rw [filter_le_append_filter_lt hsorted, hsplit]
  · rw [visible_fold, hsplit, List.filter_append, List.filter_cons_of_pos]
    · congr 1
      · apply List.filter_eq_self.2
        intro k hk
        rw [← hbefore] at hk
        have hlt := of_decide_eq_true (List.mem_filter.1 hk).2
        rw [decide_eq_true_eq, hunder]
        omega
      · congr 1
        apply List.filter_congr
        intro k hk
        have hik := hgt k hk
        rw [decide_eq_decide, hunder]
        omega
    · rw [decide_eq_true_eq, hunder]
      omega
  · rw [List.mem_filter, decide_eq_true_eq, hunder, ← hrest, List.mem_filter, decide_eq_true_eq,
      and_assoc]

theorem toggle_of_open (hchildren : v.outline.hasChildren v.selected = true)
    (hopen : v.folds.contains v.selected = false) : v.toggle = v.fold v.selected := by
  rw [toggle, canToggle, if_pos hchildren, hopen, if_neg Bool.false_ne_true]

theorem toggle_of_folded (hchildren : v.outline.hasChildren v.selected = true)
    (hfolded : v.folds.contains v.selected = true) : v.toggle = v.unfold v.selected := by
  rw [toggle, canToggle, if_pos hchildren, if_pos hfolded]

theorem toggle_toggle_of_open (hchildren : v.outline.hasChildren v.selected = true)
    (hopen : v.folds.contains v.selected = false) : v.toggle.toggle = v := by
  have hfolded : (v.fold v.selected).folds.contains v.selected = true :=
    Folds.contains_insert.2 (Or.inl rfl)
  have hback : (v.folds.insert v.selected).erase v.selected = v.folds :=
    Folds.erase_insert (Bool.not_eq_true _ ▸ hopen)
  rw [toggle_of_open hchildren hopen, toggle_of_folded (v := v.fold v.selected) hchildren hfolded]
  show { v with folds := (v.folds.insert v.selected).erase v.selected } = v
  rw [hback]

/-- The headings shown are those of the folded walk.  The arrow keys step through them, and
toggling an open selection takes away what is under it and brings it back. -/
theorem visible_walk_spec (v : View) :
    v.visible = v.outline.walk v.folds ∧
    v.outline.walk .empty = List.range v.outline.size ∧
    (∀ before after, v.visible = before ++ v.selected :: after →
      v.nextVisible? = after.head? ∧ v.prevVisible? = before.getLast?) ∧
    (v.selected ∈ v.visible → v.outline.hasChildren v.selected = true →
      v.folds.contains v.selected = false →
      (∃ before block after,
        v.visible = before ++ v.selected :: (block ++ after) ∧
        v.toggle.visible = before ++ v.selected :: after ∧
        ∀ k, k ∈ block ↔ k ∈ v.visible ∧ v.selected ∈ v.outline.ancestors k) ∧
      v.toggle.toggle = v) := by
  refine ⟨v.visible_eq_walk, v.outline.walk_empty, fun before after h => ?_,
    fun hshown hchildren hopen => ⟨?_, toggle_toggle_of_open hchildren hopen⟩⟩
  · have hmem : v.selected ∈ v.visible := h ▸ List.mem_append_right _ List.mem_cons_self
    obtain ⟨hbefore, hafter⟩ := visible_split h
    rw [nextVisible?_eq, prevVisible?_eq (Nat.le_of_lt (mem_visible_iff.1 hmem).1), hbefore, hafter]
    exact ⟨rfl, rfl⟩
  · rw [toggle_of_open hchildren hopen]
    exact visible_fold_cut hshown

/-- A part with two sections, the first of them with a subsection, and a second part.  The
first section is selected, and a fold lies on the second part, which has nothing under it. -/
def twoParts : View :=
  { start (.ofHeadings [⟨"a", 1, ⟨0, 0⟩, ⟨"main.tex"⟩⟩, ⟨"b", 3, ⟨1, 0⟩, ⟨"main.tex"⟩⟩,
      ⟨"c", 4, ⟨2, 0⟩, ⟨"main.tex"⟩⟩, ⟨"d", 3, ⟨3, 0⟩, ⟨"main.tex"⟩⟩,
      ⟨"e", 1, ⟨4, 0⟩, ⟨"main.tex"⟩⟩]) ⟨"main.tex"⟩ with
    selected := 1
    folds := Folds.empty.insert 4 }

theorem visible_twoParts :
    twoParts.visible = [0, 1, 2, 3, 4] ∧ twoParts.nextVisible? = some 2 ∧
    twoParts.prevVisible? = some 0 ∧ twoParts.toggle.visible = [0, 1, 3, 4] ∧
    twoParts.toggle.toggle = twoParts := by
  have hvisible : twoParts.visible = [0] ++ twoParts.selected :: [2, 3, 4] := by decide +kernel
  obtain ⟨-, -, hsteps, htoggle⟩ := visible_walk_spec twoParts
  obtain ⟨hnext, hprev⟩ := hsteps [0] [2, 3, 4] hvisible
  exact ⟨hvisible, hnext, hprev, by decide +kernel,
    (htoggle (by rw [hvisible]; decide) (by decide +kernel) (by decide +kernel)).2⟩

end View
end Sectioning
