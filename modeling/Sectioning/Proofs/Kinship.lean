/-
Kinship in an outline, by index and level.

The parent of a heading is the last one before it that is of a smaller level
(`parent?_eq_some_iff`).  The headings with one parent are listed in increasing order
(`sorted_under`), and so the siblings next to a heading are those nearest to it
(`nextSibling?_eq_some_iff`).

A heading is above all that follow it up to the next one that is no deeper.  So what stands
under it is a run of headings (`exists_mem_ancestors_iff`), and its first child comes right
after it (`head?_children`).
-/
import Mathlib.Data.List.Nodup
import Mathlib.Data.Nat.Find
import Mathlib.Order.Bounds.Basic
import Sectioning.Proofs.Ancestry

namespace Sectioning

/-- The heading `j` stands before the heading `i` and is of a smaller level. -/
def IsBeforeAndAbove (hs : List Heading) (j i : Nat) : Prop :=
  j < i ∧ ∃ g h, hs[j]? = some g ∧ hs[i]? = some h ∧ g.level < h.level

namespace Outline

variable {o : Outline} {i j k p : Nat} {l : List Nat}

theorem level_eq {h : Heading} (hget : o.headings[i]? = some h) : o.level i = h.level := by
  rw [level, get?, hget]
  rfl

theorem isBeforeAndAbove_iff :
    IsBeforeAndAbove o.headings j i ↔ j < i ∧ o.level j < o.level i := by
  constructor
  · rintro ⟨hji, g, h, hg, hh, hlevel⟩
    rw [level_eq hg, level_eq hh]
    exact ⟨hji, hlevel⟩
  · rintro ⟨hji, hlevel⟩
    have hi : i < o.headings.length := by
      by_contra hle
      rw [level_of_le (i := i) (Nat.le_of_not_lt hle)] at hlevel
      omega
    have hj : j < o.headings.length := by omega
    refine ⟨hji, _, _, List.getElem?_eq_getElem hj, List.getElem?_eq_getElem hi, ?_⟩
    rw [← level_eq (List.getElem?_eq_getElem hj), ← level_eq (List.getElem?_eq_getElem hi)]
    exact hlevel

/-! ## Parents -/

theorem parent?_eq_some_iff :
    o.parent? i = some j ↔ IsGreatest {j | IsBeforeAndAbove o.headings j i} j := by
  have hnearest := o.isNearestSmaller_parent? i
  cases hp : o.parent? i with
  | none =>
    rw [hp] at hnearest
    refine iff_of_false (Option.some_ne_none j).symm fun h => ?_
    have hj := isBeforeAndAbove_iff.1 h.1
    have hle := hnearest j hj.1
    omega
  | some p =>
    rw [hp] at hnearest
    obtain ⟨hpi, hlevel, hbetween⟩ := hnearest
    have hgreatest : IsGreatest {j | IsBeforeAndAbove o.headings j i} p := by
      refine ⟨isBeforeAndAbove_iff.2 ⟨hpi, hlevel⟩, fun m hm => ?_⟩
      have hm := isBeforeAndAbove_iff.1 hm
      by_contra hpm
      have hle := hbetween m (by omega) hm.1
      omega
    rw [Option.some.injEq]
    constructor
    · intro h
      exact h ▸ hgreatest
    · exact hgreatest.unique

theorem parent?_eq_none_iff :
    o.parent? i = none ↔ ∀ j, ¬ IsBeforeAndAbove o.headings j i := by
  have hnearest := o.isNearestSmaller_parent? i
  cases hp : o.parent? i with
  | none =>
    rw [hp] at hnearest
    refine iff_of_true rfl fun j hj => ?_
    have hj := isBeforeAndAbove_iff.1 hj
    have hle := hnearest j hj.1
    omega
  | some p =>
    refine iff_of_false (Option.some_ne_none p) fun h => ?_
    exact h p (parent?_eq_some_iff.1 hp).1

/-! ## Children -/

theorem sorted_under (o : Outline) (parent : Option Nat) :
    (o.under parent).Pairwise (· < ·) := by
  have hsublist : (o.under parent).Sublist (o.parents.zipIdx.map Prod.snd) := by
    rw [under_eq]
    exact List.filter_sublist.map _
  rw [List.zipIdx_map_snd] at hsublist
  exact (List.pairwise_lt_range' 1).sublist hsublist

theorem mem_children_iff : i ∈ o.children p ↔ o.parent? i = some p := by
  rw [children, mem_under_iff]
  exact ⟨And.right, fun h => ⟨lt_size_of_parent? h, h⟩⟩

/-- Each heading is a root or the child of one other. -/
theorem perm_range (o : Outline) :
    (o.roots ++ (List.range o.size).flatMap o.children).Perm (List.range o.size) := by
  have hnodup : (o.roots ++ (List.range o.size).flatMap o.children).Nodup := by
    rw [List.nodup_append]
    refine ⟨(o.sorted_under none).nodup, List.nodup_flatMap.2 ⟨?_, ?_⟩, ?_⟩
    · intro p _
      exact (o.sorted_under (some p)).nodup
    · refine List.pairwise_lt_range.imp fun {p q} hpq i hp hq => ?_
      have heq := (mem_children_iff.1 hp).symm.trans (mem_children_iff.1 hq)
      cases heq
      exact Nat.lt_irrefl p hpq
    · intro i hroot j hj hij
      subst hij
      obtain ⟨p, -, hchild⟩ := List.mem_flatMap.1 hj
      have heq := (mem_under_iff.1 hroot).2.symm.trans (mem_children_iff.1 hchild)
      cases heq
  rw [List.perm_ext_iff_of_nodup hnodup List.nodup_range]
  intro i
  rw [List.mem_append, List.mem_flatMap, roots, mem_under_iff, List.mem_range]
  constructor
  · rintro (h | ⟨p, -, h⟩)
    · exact h.1
    · exact lt_size_of_parent? (mem_children_iff.1 h)
  · intro hi
    cases hp : o.parent? i with
    | none => exact Or.inl ⟨hi, rfl⟩
    | some p =>
      have hlt := parent?_lt hp
      refine Or.inr ⟨p, List.mem_range.2 (by omega), mem_children_iff.2 hp⟩

/-! ## Siblings -/

/-- In an increasing list, what follows an element is the least of the greater ones. -/
theorem isLeast_iff_getElem? (hl : l.Pairwise (· < ·)) (hi : l[k]? = some i) :
    IsLeast {j | i < j ∧ j ∈ l} j ↔ l[k + 1]? = some j := by
  rw [List.pairwise_iff_getElem] at hl
  obtain ⟨hk, rfl⟩ := List.getElem?_eq_some_iff.1 hi
  have hafter : ∀ n (hn : n < l.length), l[k] < l[n] → k < n := by
    intro n hn hlt
    by_contra hle
    rcases Nat.lt_or_eq_of_le (Nat.le_of_not_lt hle) with hnk | rfl
    · have hgt := hl n k hn hk hnk
      omega
    · omega
  constructor
  · rintro ⟨⟨hij, hj⟩, hleast⟩
    obtain ⟨n, hn, rfl⟩ := List.mem_iff_getElem.1 hj
    have hkn := hafter n hn hij
    have hk1 : k + 1 < l.length := by omega
    have hle : l[n] ≤ l[k + 1] :=
      hleast ⟨hl k (k + 1) hk hk1 (by omega), List.getElem_mem hk1⟩
    rw [List.getElem?_eq_getElem hk1, Option.some.injEq]
    rcases Nat.lt_or_eq_of_le (Nat.succ_le_of_lt hkn) with hlt | heq
    · have hgt := hl (k + 1) n hk1 hn hlt
      omega
    · subst heq
      rfl
  · intro hj
    obtain ⟨hk1, rfl⟩ := List.getElem?_eq_some_iff.1 hj
    refine ⟨⟨hl k (k + 1) hk hk1 (by omega), List.getElem_mem hk1⟩, ?_⟩
    rintro m ⟨him, hm⟩
    obtain ⟨n, hn, rfl⟩ := List.mem_iff_getElem.1 hm
    have hkn := hafter n hn him
    rcases Nat.lt_or_eq_of_le (Nat.succ_le_of_lt hkn) with hlt | heq
    · exact Nat.le_of_lt (hl (k + 1) n hk1 hn hlt)
    · subst heq
      exact Nat.le_refl _

theorem idxOf?_eq_some_iff (hl : l.Pairwise (· < ·)) : l.idxOf? i = some k ↔ l[k]? = some i := by
  rw [List.idxOf?_eq_some_iff, List.getElem?_eq_some_iff]
  constructor
  · rintro ⟨hk, hi, -⟩
    exact ⟨hk, hi⟩
  · rintro ⟨hk, hi⟩
    refine ⟨hk, hi, fun n hn heq => ?_⟩
    have hlt := List.pairwise_iff_getElem.1 hl n k (by omega) hk hn
    omega

theorem nextSibling?_eq_some_iff_getElem? : o.nextSibling? i = some j ↔
    ∃ k, (o.siblings i)[k]? = some i ∧ (o.siblings i)[k + 1]? = some j := by
  rw [nextSibling?, Option.bind_eq_some_iff]
  simp only [idxOf?_eq_some_iff (o.sorted_under (o.parent? i)), siblings]

theorem prevSibling?_eq_some_iff_getElem? : o.prevSibling? i = some j ↔
    ∃ k, (o.siblings i)[k]? = some j ∧ (o.siblings i)[k + 1]? = some i := by
  rw [prevSibling?, Option.bind_eq_some_iff]
  simp only [idxOf?_eq_some_iff (o.sorted_under (o.parent? i)), siblings]
  constructor
  · rintro ⟨k, hk, hj⟩
    cases k with
    | zero => cases hj
    | succ k => exact ⟨k, hj, hk⟩
  · rintro ⟨k, hj, hk⟩
    exact ⟨k + 1, hk, hj⟩

theorem siblings_of_getElem? (h : (o.siblings i)[k]? = some j) : o.siblings j = o.siblings i := by
  rw [siblings, siblings, (mem_under_iff.1 (List.mem_of_getElem? h)).2]

theorem nextSibling?_eq_some_iff_prevSibling? :
    o.nextSibling? i = some j ↔ o.prevSibling? j = some i := by
  rw [nextSibling?_eq_some_iff_getElem?, prevSibling?_eq_some_iff_getElem?]
  constructor
  · rintro ⟨k, hi, hj⟩
    rw [siblings_of_getElem? hj]
    exact ⟨k, hi, hj⟩
  · rintro ⟨k, hi, hj⟩
    rw [siblings_of_getElem? hi]
    exact ⟨k, hi, hj⟩

theorem nextSibling?_eq_some_iff (hi : i < o.size) : o.nextSibling? i = some j ↔
    IsLeast {j | i < j ∧ j < o.size ∧ o.parent? j = o.parent? i} j := by
  have hmem : i ∈ o.siblings i := mem_under_iff.2 ⟨hi, rfl⟩
  obtain ⟨k, hk⟩ := List.mem_iff_getElem?.1 hmem
  have hleast := isLeast_iff_getElem? (j := j) (o.sorted_under (o.parent? i)) hk
  simp only [mem_under_iff] at hleast
  rw [hleast, nextSibling?, siblings, (idxOf?_eq_some_iff (o.sorted_under (o.parent? i))).2 hk]
  rfl

theorem nextSibling?_of_le (hi : o.size ≤ i) : o.nextSibling? i = none := by
  have hmem : i ∉ o.siblings i := fun h => absurd (mem_under_iff.1 h).1 (by omega)
  rw [nextSibling?, List.idxOf?_eq_none_iff.2 hmem]
  rfl

/-- The links of an outline are those that the levels of its headings say. -/
theorem ofHeadings_kinship (hs : List Heading) :
    (∀ i j, (ofHeadings hs).parent? i = some j ↔ IsGreatest {j | IsBeforeAndAbove hs j i} j) ∧
    (∀ i, (ofHeadings hs).parent? i = none ↔ ∀ j, ¬ IsBeforeAndAbove hs j i) ∧
    (∀ p, ((ofHeadings hs).children p).Pairwise (· < ·) ∧
      ∀ i, i ∈ (ofHeadings hs).children p ↔ (ofHeadings hs).parent? i = some p) ∧
    ((ofHeadings hs).roots.Pairwise (· < ·) ∧
      ∀ i, i ∈ (ofHeadings hs).roots ↔ i < hs.length ∧ (ofHeadings hs).parent? i = none) ∧
    ((ofHeadings hs).roots ++ (List.range hs.length).flatMap (ofHeadings hs).children).Perm
      (List.range hs.length) ∧
    (∀ i j, i < hs.length → ((ofHeadings hs).nextSibling? i = some j ↔ IsLeast
      {j | i < j ∧ j < hs.length ∧ (ofHeadings hs).parent? j = (ofHeadings hs).parent? i} j)) ∧
    (∀ i, hs.length ≤ i → (ofHeadings hs).nextSibling? i = none) ∧
    ∀ i j, (ofHeadings hs).nextSibling? i = some j ↔ (ofHeadings hs).prevSibling? j = some i :=
  ⟨fun _ _ => parent?_eq_some_iff, fun _ => parent?_eq_none_iff,
    fun p => ⟨(ofHeadings hs).sorted_under (some p), fun _ => mem_children_iff⟩,
    ⟨(ofHeadings hs).sorted_under none, fun _ => mem_under_iff⟩, (ofHeadings hs).perm_range,
    fun _ _ hi => nextSibling?_eq_some_iff hi, fun _ hi => nextSibling?_of_le hi,
    fun _ _ => nextSibling?_eq_some_iff_prevSibling?⟩

/-! ## Subtrees -/

/-- The headings under `i` are those that follow it up to some `j`. -/
theorem exists_mem_ancestors_iff (hi : i < o.size) :
    ∃ j, i ≤ j ∧ j < o.size ∧ ∀ k, i ∈ o.ancestors k ↔ i < k ∧ k ≤ j := by
  -- past the end is one that is no deeper
  have hend : ∃ k, i < k ∧ o.level k ≤ o.level i :=
    ⟨o.size, hi, by rw [level_of_le (Nat.le_refl _)]; exact Nat.zero_le _⟩
  obtain ⟨hlt, hlevel⟩ := Nat.find_spec hend
  have hle : Nat.find hend ≤ o.size :=
    Nat.find_min' hend ⟨hi, by rw [level_of_le (Nat.le_refl _)]; exact Nat.zero_le _⟩
  refine ⟨Nat.find hend - 1, by omega, by omega, fun k => ?_⟩
  rw [mem_ancestors_iff]
  refine and_congr_right fun hik => ⟨fun hdeeper => ?_, fun hk m him hmk => ?_⟩
  · by_contra hk
    have hthere := hdeeper (Nat.find hend) hlt (by omega)
    omega
  · have hnot := Nat.find_min hend (show m < Nat.find hend by omega)
    by_contra hshallow
    exact hnot ⟨him, by omega⟩

theorem head?_children (h : (o.children i).head? = some k) : k = i + 1 := by
  have hp := mem_children_iff.1 (List.mem_of_mem_head? h)
  have hik := parent?_lt hp
  have hsize := lt_size_of_parent? hp
  have habove : i ∈ o.ancestors k := by
    rw [ancestors_of_some hp]
    exact List.mem_cons_self
  have hlevel := (mem_ancestors_iff.1 habove).2 (i + 1) (by omega) hik
  have hnext : o.parent? (i + 1) = some i := by
    refine parent?_eq_some_iff.2 ⟨isBeforeAndAbove_iff.2 ⟨by omega, hlevel⟩, fun m hm => ?_⟩
    exact Nat.le_of_lt_succ hm.1
  -- the first child is the least
  have hsorted := o.sorted_under (some i)
  have hmem : i + 1 ∈ o.children i := mem_children_iff.2 hnext
  rw [children] at h hmem
  cases hl : o.under (some i) with
  | nil =>
    rw [hl] at h
    cases h
  | cons c cs =>
    rw [hl] at h hmem hsorted
    cases h
    rcases List.mem_cons.1 hmem with heq | hmem
    · exact heq.symm
    · have hlt := (List.pairwise_cons.1 hsorted).1 _ hmem
      omega

theorem pairwise_ancestors (o : Outline) (k : Nat) :
    (k :: o.ancestors k).Pairwise fun a b => b < a ∧ o.level b < o.level a := by
  induction k using Nat.strongRecOn with
  | ind k ih =>
    refine List.pairwise_cons.2 ⟨fun b hb => ?_, ?_⟩
    · obtain ⟨hlt, hdeeper⟩ := mem_ancestors_iff.1 hb
      exact ⟨hlt, hdeeper k hlt (Nat.le_refl k)⟩
    · cases hp : o.parent? k with
      | none =>
        rw [ancestors_of_none hp]
        exact .nil
      | some p =>
        rw [ancestors_of_some hp]
        exact ih p (parent?_lt hp)

/-- The headings under one are a run of those that follow it. -/
theorem subtrees_are_intervals (o : Outline) :
    (∀ i k, i < k → k < o.size →
      (i ∈ o.ancestors k ↔ ∀ m, i < m → m ≤ k → o.level i < o.level m)) ∧
    (∀ i, i < o.size → ∃ j, i ≤ j ∧ j < o.size ∧ ∀ k, i ∈ o.ancestors k ↔ i < k ∧ k ≤ j) ∧
    (∀ i c, (o.children i).head? = some c → c = i + 1) ∧
    (∀ k, (k :: o.ancestors k).Pairwise fun a b => b < a ∧ o.level b < o.level a) ∧
    ∀ k p, o.parent? k = some p → o.depth k = o.depth p + 1 := by
  refine ⟨fun i k hik _ => ?_, fun i => exists_mem_ancestors_iff, fun i c => head?_children,
    o.pairwise_ancestors, fun k p hp => ?_⟩
  · rw [mem_ancestors_iff]
    exact and_iff_right hik
  · rw [depth, depth, ancestors_of_some hp, List.length_cons]

end Outline
end Sectioning
