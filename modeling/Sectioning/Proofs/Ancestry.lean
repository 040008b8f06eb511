/-
Parents, ancestors and siblings in an outline.

The pass that links headings keeps a list of open ones.  Every earlier heading is
covered by an open one that stands no earlier and no deeper (`OpenBefore`), and
this is what makes the innermost open heading of a smaller level the nearest one
of all (`OpenBefore.isNearestSmaller`).  So the headings above `k` are those before
it that everything from there on to `k` is deeper than
(`Outline.mem_ancestors_iff`).  What the pass puts under a heading one after another
are the headings whose parent it is, in order (`Outline.under_eq`).
-/
import Mathlib.Data.List.TakeWhile
import Sectioning.Outline.Forest

namespace Sectioning

/-! ## The nearest smaller level -/

/-- The nearest index before `k` with a smaller level, if there is one. -/
def IsNearestSmaller (level : Nat → Nat) (k : Nat) : Option Nat → Prop
  | none => ∀ m, m < k → level k ≤ level m
  | some p => p < k ∧ level p < level k ∧ ∀ m, p < m → m < k → level k ≤ level m

/-- The headings `opened` stand before `i`, the last of them first, and each
heading before `i` is covered by one of them. -/
structure OpenBefore (level : Nat → Nat) (i : Nat) (opened : List OpenHeading) : Prop where
  sorted : opened.Pairwise fun a b => b.index < a.index
  level_eq : ∀ a ∈ opened, a.index < i ∧ a.level = level a.index
  covers : ∀ j, j < i → ∃ a ∈ opened, j ≤ a.index ∧ a.level ≤ level j

namespace OpenBefore

variable {level : Nat → Nat} {i : Nat} {opened : List OpenHeading}

theorem nil : OpenBefore level 0 [] where
  sorted := List.Pairwise.nil
  level_eq a ha := by cases ha
  covers j hj := absurd hj (Nat.not_lt_zero j)

/-- A heading is open still, or was closed by one of its own level or above. -/
theorem mem_dropWhile_or {l : Nat} {a : OpenHeading} (ha : a ∈ opened) :
    a ∈ opened.dropWhile (fun b => l ≤ b.level) ∨ l ≤ a.level := by
  rw [← List.takeWhile_append_dropWhile (p := fun b : OpenHeading => decide (l ≤ b.level))
    (l := opened), List.mem_append] at ha
  rcases ha with ha | ha
  · have hclosed := List.mem_takeWhile_imp ha
    exact Or.inr (of_decide_eq_true hclosed)
  · exact Or.inl ha

theorem step (h : OpenBefore level i opened) :
    OpenBefore level (i + 1) (⟨i, level i⟩ :: opened.dropWhile fun a => level i ≤ a.level) where
  sorted := by
    refine List.pairwise_cons.2 ⟨fun a ha => ?_, h.sorted.sublist (List.dropWhile_sublist _)⟩
    exact (h.level_eq a ((List.dropWhile_sublist _).subset ha)).1
  level_eq a ha := by
    rcases List.mem_cons.1 ha with rfl | ha
    · exact ⟨Nat.lt_succ_self i, rfl⟩
    · have hold := h.level_eq a ((List.dropWhile_sublist _).subset ha)
      exact ⟨by omega, hold.2⟩
  covers j hj := by
    rcases Nat.lt_or_eq_of_le (Nat.le_of_lt_succ hj) with hlt | rfl
    · obtain ⟨a, ha, hle, hlevel⟩ := h.covers j hlt
      rcases mem_dropWhile_or (l := level i) ha with hstays | hclosed
      · exact ⟨a, List.mem_cons_of_mem _ hstays, hle, hlevel⟩
      · -- what covered `j` is closed, so the new heading is no deeper than `j`
        exact ⟨⟨i, level i⟩, List.mem_cons_self, Nat.le_of_lt hlt, Nat.le_trans hclosed hlevel⟩
    · exact ⟨⟨j, level j⟩, List.mem_cons_self, Nat.le_refl j, Nat.le_refl _⟩

theorem isNearestSmaller (h : OpenBefore level i opened) :
    IsNearestSmaller level i
      ((opened.dropWhile fun a => level i ≤ a.level).head?.map (·.index)) := by
  cases hleft : opened.dropWhile fun a => level i ≤ a.level with
  | nil =>
    intro m hm
    obtain ⟨a, ha, -, hlevel⟩ := h.covers m hm
    rcases mem_dropWhile_or (l := level i) ha with hstays | hclosed
    · rw [hleft] at hstays
      cases hstays
    · exact Nat.le_trans hclosed hlevel
  | cons p rest =>
    show IsNearestSmaller level i (some p.index)
    have hp : p ∈ opened := (List.dropWhile_sublist _).subset (hleft ▸ List.mem_cons_self)
    have hsmaller : ¬ level i ≤ p.level := by
      have hhead := List.head?_dropWhile_not (fun a : OpenHeading => decide (level i ≤ a.level))
        opened
      rw [hleft] at hhead
      simpa using hhead
    have hsorted := h.sorted.sublist (List.dropWhile_sublist fun a => decide (level i ≤ a.level))
    rw [hleft, List.pairwise_cons] at hsorted
    obtain ⟨hlt, hlevel⟩ := h.level_eq p hp
    refine ⟨hlt, by omega, fun m hpm hm => ?_⟩
    obtain ⟨a, ha, hle, hlevel⟩ := h.covers m hm
    rcases mem_dropWhile_or (l := level i) ha with hstays | hclosed
    · -- no heading that is left stands behind the first of them
      rw [hleft, List.mem_cons] at hstays
      rcases hstays with rfl | hrest
      · omega
      · have hbefore := hsorted.1 a hrest
        omega
    · exact Nat.le_trans hclosed hlevel

end OpenBefore

/-! ## What is put under a heading -/

/-- A heading is put last under its parent, and the others have under them what they
had. -/
theorem Links.under_push {l : Links} {i : Nat} {parent : Option Nat}
    (hparent : ∀ p, parent = some p → p < l.children.size) (q : Option Nat) :
    (l.push i parent).under q = l.under q ++ if parent = q then [i] else [] := by
  cases parent with
  | none => cases q <;> simp [push, under]
  | some p =>
    have hp := hparent p rfl
    cases q with
    | none => simp [push, under]
    | some q =>
      by_cases hpq : p = q
      · subst hpq
        simp [push, under, hp, Array.getElem_modify_self]
      · simp [push, under, Array.getElem?_modify, hpq]

theorem Links.size_children_push (l : Links) (i : Nat) (parent : Option Nat) :
    (l.push i parent).children.size = l.children.size := by
  cases parent <;> simp [push]

theorem under_linkFrom {i : Nat} {opened : List OpenHeading} {l : Links} {levels : List Nat}
    (hopened : ∀ a ∈ opened, a.index < i) (hsize : i + levels.length ≤ l.children.size)
    (parent : Option Nat) :
    (linkFrom i opened l levels).under parent = l.under parent ++
      (((parentsFrom i opened levels).zipIdx i).filter fun p => p.1 = parent).map (·.2) := by
  induction levels generalizing i opened l with
  | nil => simp [linkFrom, parentsFrom]
  | cons level levels ih =>
    rw [List.length_cons] at hsize
    have hleft : ∀ a ∈ opened.dropWhile fun a => level ≤ a.level, a.index < i :=
      fun a ha => hopened a ((List.dropWhile_sublist _).subset ha)
    -- the parent is an earlier heading, so there is a list to put the heading on
    have hparent : ∀ p, ((opened.dropWhile fun a => level ≤ a.level).head?.map (·.index)) = some p →
        p < l.children.size := by
      intro p hp
      obtain ⟨a, ha, rfl⟩ := Option.map_eq_some_iff.1 hp
      have hlt := hleft a (List.mem_of_mem_head? ha)
      omega
    have hnext : ∀ a ∈ OpenHeading.mk i level :: opened.dropWhile fun a => level ≤ a.level,
        a.index < i + 1 := by
      rw [List.forall_mem_cons]
      exact ⟨Nat.lt_succ_self i, fun a ha => Nat.lt_succ_of_lt (hleft a ha)⟩
    rw [linkFrom, ih hnext (by rw [Links.size_children_push]; omega), Links.under_push hparent,
      parentsFrom, List.zipIdx_cons, List.append_assoc, List.filter_cons]
    by_cases hp : (opened.dropWhile fun a => level ≤ a.level).head?.map (·.index) = parent
    · simp [hp]
    · simp [hp]

theorem length_parentsFrom (i : Nat) (opened : List OpenHeading) (levels : List Nat) :
    (parentsFrom i opened levels).length = levels.length := by
  induction levels generalizing i opened with
  | nil => rfl
  | cons l levels ih => rw [parentsFrom, List.length_cons, List.length_cons, ih]

theorem parentsFrom_isNearestSmaller {level : Nat → Nat} {i : Nat} {opened : List OpenHeading}
    {levels : List Nat} (h : OpenBefore level i opened)
    (hlevels : ∀ k l, levels[k]? = some l → level (i + k) = l) {k : Nat} (hk : k < levels.length) :
    IsNearestSmaller level (i + k) (parentsFrom i opened levels)[k]?.join := by
  induction levels generalizing i opened k with
  | nil => exact absurd hk (Nat.not_lt_zero k)
  | cons l levels ih =>
    have hfirst : level i = l := hlevels 0 l rfl
    subst hfirst
    cases k with
    | zero => exact h.isNearestSmaller
    | succ k =>
      have hrest : ∀ k l, levels[k]? = some l → level (i + 1 + k) = l := by
        intro k l hl
        rw [Nat.add_assoc, Nat.add_comm 1 k]
        exact hlevels (k + 1) l hl
      have hnearest := ih h.step hrest (Nat.lt_of_succ_lt_succ hk)
      rw [Nat.add_assoc, Nat.add_comm 1 k] at hnearest
      exact hnearest

namespace Outline

/-- The level of a heading, and 0 past the end. -/
def level (o : Outline) (i : Nat) : Nat :=
  (o.get? i).elim 0 (·.level)

variable {o : Outline} {i j k : Nat}

theorem length_parents (o : Outline) : o.parents.length = o.size := by
  rw [o.parents_eq, length_parentsFrom, List.length_map]
  rfl

theorem level_of_le (h : o.size ≤ i) : o.level i = 0 := by
  rw [level, get?, List.getElem?_eq_none h]
  rfl

theorem parent?_of_le (h : o.size ≤ i) : o.parent? i = none := by
  rw [parent?, List.getElem?_eq_none (by rw [length_parents]; exact h)]
  rfl

theorem lt_size_of_parent? {p : Nat} (h : o.parent? i = some p) : i < o.size := by
  by_contra hle
  rw [parent?_of_le (Nat.le_of_not_lt hle)] at h
  cases h

theorem isNearestSmaller_parent? (o : Outline) (k : Nat) :
    IsNearestSmaller o.level k (o.parent? k) := by
  by_cases hk : k < o.size
  · have hlevels : ∀ k l, (o.headings.map (·.level))[k]? = some l → o.level (0 + k) = l := by
      intro k l hl
      rw [List.getElem?_map] at hl
      obtain ⟨h, hh, rfl⟩ := Option.map_eq_some_iff.1 hl
      rw [Nat.zero_add, level, get?, hh]
      rfl
    have hnearest := parentsFrom_isNearestSmaller OpenBefore.nil hlevels
      (by rw [List.length_map]; exact hk)
    rw [Nat.zero_add, ← o.parents_eq] at hnearest
    exact hnearest
  · rw [parent?_of_le (Nat.le_of_not_lt hk)]
    intro m hm
    rw [level_of_le (Nat.le_of_not_lt hk)]
    exact Nat.zero_le _

theorem parent?_zero (o : Outline) : o.parent? 0 = none := by
  cases h : o.parent? 0 with
  | none => rfl
  | some p => exact absurd (parent?_lt h) (Nat.not_lt_zero p)

/-! ## Ancestors -/

theorem ancestors_of_none (h : o.parent? i = none) : o.ancestors i = [] := by
  unfold ancestors
  split
  · rfl
  · next p hp =>
    rw [h] at hp
    cases hp

theorem ancestors_of_some {p : Nat} (h : o.parent? i = some p) :
    o.ancestors i = p :: o.ancestors p := by
  rw [ancestors]
  split
  · next hp =>
    rw [h] at hp
    cases hp
  · next q hq =>
    rw [h, Option.some.injEq] at hq
    rw [hq]

theorem ancestors_congr (h : o.parent? i = o.parent? j) : o.ancestors i = o.ancestors j := by
  cases hp : o.parent? j with
  | none => rw [ancestors_of_none (h.trans hp), ancestors_of_none hp]
  | some p => rw [ancestors_of_some (h.trans hp), ancestors_of_some hp]

/-- The headings above `k` are those before it that all after them, up to `k`, are
deeper than. -/
theorem mem_ancestors_iff :
    i ∈ o.ancestors k ↔ i < k ∧ ∀ m, i < m → m ≤ k → o.level i < o.level m := by
  induction k using Nat.strongRecOn with
  | ind k ih =>
    have hnearest := o.isNearestSmaller_parent? k
    cases hp : o.parent? k with
    | none =>
      rw [hp] at hnearest
      rw [ancestors_of_none hp]
      refine iff_of_false List.not_mem_nil ?_
      rintro ⟨hlt, hdeeper⟩
      have hbelow := hdeeper k hlt (Nat.le_refl k)
      have habove := hnearest i hlt
      omega
    | some p =>
      rw [hp] at hnearest
      obtain ⟨hpk, hlevel, hbetween⟩ := hnearest
      rw [ancestors_of_some hp, List.mem_cons, ih p hpk]
      constructor
      · intro h
        have hip : i ≤ p := by omega
        refine ⟨by omega, fun m him hmk => ?_⟩
        have hple : o.level i ≤ o.level p := by
          rcases h with rfl | ⟨hlt, hdeeper⟩
          · exact Nat.le_refl _
          · exact Nat.le_of_lt (hdeeper p hlt (Nat.le_refl p))
        by_cases hmp : m ≤ p
        · rcases h with rfl | ⟨-, hdeeper⟩
          · omega
          · exact hdeeper m him hmp
        · -- from the parent on, all is deeper than the parent
          rcases Nat.lt_or_eq_of_le hmk with hlt | rfl
          · have hthere := hbetween m (by omega) hlt
            omega
          · omega
      · rintro ⟨hlt, hdeeper⟩
        have hik := hdeeper k hlt (Nat.le_refl k)
        have hip : i ≤ p := by
          by_contra hpi
          have hthere := hbetween i (by omega) hlt
          omega
        rcases Nat.lt_or_eq_of_le hip with hlt' | rfl
        · exact Or.inr ⟨hlt', fun m him hmp => hdeeper m him (by omega)⟩
        · exact Or.inl rfl

theorem notMem_ancestors_iff :
    i ∉ o.ancestors k ↔ (i < k → ∃ m, i < m ∧ m ≤ k ∧ o.level m ≤ o.level i) := by
  rw [mem_ancestors_iff, not_and]
  simp only [Classical.not_forall, Nat.not_lt, exists_prop]

theorem lt_of_mem_ancestors (h : j ∈ o.ancestors i) : j < i :=
  (mem_ancestors_iff.1 h).1

/-! ## Children and siblings -/

/-- The pass puts under each parent the headings that have it, in order. -/
theorem under_eq (o : Outline) (parent : Option Nat) :
    o.under parent = (o.parents.zipIdx.filter fun p => p.1 = parent).map (·.2) := by
  have hstart : (Links.start o.headings.length).under parent = [] := by
    cases parent with
    | none => rfl
    | some p =>
      simp only [Links.start, Links.under, Array.getElem?_replicate]
      split <;> rfl
  have hopened : ∀ a ∈ ([] : List OpenHeading), a.index < 0 := fun a ha => by cases ha
  rw [under, o.links_eq, under_linkFrom hopened (by simp [Links.start]), o.parents_eq, hstart]
  rfl

theorem mem_under_iff {parent : Option Nat} :
    i ∈ o.under parent ↔ i < o.size ∧ o.parent? i = parent := by
  rw [under_eq, List.mem_map, ← length_parents, parent?]
  constructor
  · rintro ⟨⟨q, m⟩, hmem, rfl⟩
    obtain ⟨hzip, hq⟩ := List.mem_filter.1 hmem
    have hget := List.mem_zipIdx_iff_getElem?.1 hzip
    refine ⟨(List.getElem?_eq_some_iff.1 hget).1, ?_⟩
    rw [hget]
    exact of_decide_eq_true hq
  · rintro ⟨hlt, hparent⟩
    rw [List.getElem?_eq_getElem hlt] at hparent
    refine ⟨(o.parents[i], i), List.mem_filter.2 ⟨?_, decide_eq_true hparent⟩, rfl⟩
    exact List.mem_zipIdx_iff_getElem?.2 (List.getElem?_eq_getElem hlt)

theorem parent?_of_child (h : j ∈ o.children i) : o.parent? j = some i :=
  (mem_under_iff.1 h).2

theorem lt_size_of_hasChildren (h : o.hasChildren i = true) : i < o.size := by
  rw [hasChildren, Bool.not_eq_true', List.isEmpty_eq_false_iff] at h
  obtain ⟨j, hj⟩ := List.exists_mem_of_ne_nil _ h
  have hlt := (mem_under_iff.1 hj).1
  have hbefore := parent?_lt (parent?_of_child hj)
  omega

theorem hasChildren_of_parent? {p : Nat} (h : o.parent? i = some p) : o.hasChildren p = true := by
  rw [hasChildren, Bool.not_eq_true', List.isEmpty_eq_false_iff]
  exact List.ne_nil_of_mem (mem_under_iff.2 ⟨lt_size_of_parent? h, h⟩)

theorem hasChildren_of_mem_ancestors (h : j ∈ o.ancestors i) : o.hasChildren j = true := by
  induction i using Nat.strongRecOn with
  | ind i ih =>
    cases hp : o.parent? i with
    | none =>
      rw [ancestors_of_none hp] at h
      cases h
    | some p =>
      rw [ancestors_of_some hp] at h
      rcases List.mem_cons.1 h with rfl | h
      · exact hasChildren_of_parent? hp
      · exact ih p (parent?_lt hp) h

theorem mem_siblings_of_nextSibling? (h : o.nextSibling? i = some j) : j ∈ o.siblings i := by
  obtain ⟨k, -, hk⟩ := Option.bind_eq_some_iff.1 h
  exact List.mem_of_getElem? hk

theorem mem_siblings_of_prevSibling? (h : o.prevSibling? i = some j) : j ∈ o.siblings i := by
  obtain ⟨k, -, hk⟩ := Option.bind_eq_some_iff.1 h
  split at hk
  · cases hk
  · exact List.mem_of_getElem? hk

end Outline
end Sectioning
