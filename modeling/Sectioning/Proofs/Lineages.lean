/-
Lineages and depths in an outline.

The lineage of a heading is the heading with those above it.  What is above `k` is above
everything between the two as well (`mem_ancestors_of_le`), so the subtrees of headings with
one parent come one after the other (`lt_of_mem_lineage`).

The depth of a heading is the number of headings above it.  Depths say as much about the tree
as levels do: a heading is above `k` if all that follow it up to `k` are of a greater depth
(`mem_ancestors_iff_depth`).  Outlines with the same depths thus have the same parents
(`parent?_congr_depth`), whatever their levels are.
-/
import Sectioning.Proofs.Kinship

namespace Sectioning
namespace Outline

variable {o o' : Outline} {a c d i k m p : Nat}

/-! ## Lineages -/

/-- The heading `k` and those above it. -/
def lineage (o : Outline) (k : Nat) : List Nat :=
  k :: o.ancestors k

theorem mem_lineage : i ∈ o.lineage k ↔ i = k ∨ i ∈ o.ancestors k :=
  List.mem_cons

theorem ancestors_eq_lineage (h : o.parent? k = some p) : o.ancestors k = o.lineage p :=
  ancestors_of_some h

theorem le_of_mem_lineage (h : i ∈ o.lineage k) : i ≤ k := by
  rcases mem_lineage.1 h with rfl | h
  · exact Nat.le_refl i
  · exact Nat.le_of_lt (lt_of_mem_ancestors h)

theorem mem_ancestors_of_le (h : a ∈ o.ancestors k) (ham : a < m) (hmk : m ≤ k) :
    a ∈ o.ancestors m := by
  have hdeeper := (mem_ancestors_iff.1 h).2
  exact mem_ancestors_iff.2 ⟨ham, fun n han hnm => hdeeper n han (Nat.le_trans hnm hmk)⟩

theorem mem_ancestors_of_mem_lineage (h : i ∈ o.ancestors c) (hc : c ∈ o.lineage k) :
    i ∈ o.ancestors k := by
  rcases mem_lineage.1 hc with rfl | hc
  · exact h
  · obtain ⟨hic, hbelow⟩ := mem_ancestors_iff.1 h
    obtain ⟨hck, hdeeper⟩ := mem_ancestors_iff.1 hc
    refine mem_ancestors_iff.2 ⟨by omega, fun m him hmk => ?_⟩
    by_cases hmc : m ≤ c
    · exact hbelow m him hmc
    · exact Nat.lt_trans (hbelow c hic (Nat.le_refl c)) (hdeeper m (by omega) hmk)

theorem mem_ancestors_trans (h : i ∈ o.ancestors c) (hc : c ∈ o.ancestors k) :
    i ∈ o.ancestors k :=
  mem_ancestors_of_mem_lineage h (List.mem_cons_of_mem k hc)

theorem lt_size_of_mem_ancestors (h : i ∈ o.ancestors k) : k < o.size := by
  cases hp : o.parent? k with
  | none =>
    rw [ancestors_of_none hp] at h
    cases h
  | some p => exact lt_size_of_parent? hp

/-- Below a heading that is above `k`, one of its children leads on to `k`. -/
theorem exists_child (h : i ∈ o.ancestors k) : ∃ c ∈ o.children i, c ∈ o.lineage k := by
  induction k using Nat.strongRecOn with
  | ind k ih =>
    cases hp : o.parent? k with
    | none =>
      rw [ancestors_of_none hp] at h
      cases h
    | some p =>
      rw [ancestors_eq_lineage hp] at h
      rcases mem_lineage.1 h with rfl | h
      · exact ⟨k, mem_children_iff.2 hp, List.mem_cons_self⟩
      · obtain ⟨c, hchild, hc⟩ := ih p (parent?_lt hp) h
        refine ⟨c, hchild, List.mem_cons_of_mem _ ?_⟩
        rw [ancestors_eq_lineage hp]
        exact hc

theorem exists_root (k : Nat) : ∃ r, o.parent? r = none ∧ r ∈ o.lineage k := by
  induction k using Nat.strongRecOn with
  | ind k ih =>
    cases hp : o.parent? k with
    | none => exact ⟨k, hp, List.mem_cons_self⟩
    | some p =>
      obtain ⟨r, hr, hmem⟩ := ih p (parent?_lt hp)
      refine ⟨r, hr, List.mem_cons_of_mem _ ?_⟩
      rw [ancestors_eq_lineage hp]
      exact hmem

/-- What is under a heading comes before the next heading with the same parent. -/
theorem lt_of_mem_lineage (hparent : o.parent? c = o.parent? d) (hcd : c < d)
    (hk : c ∈ o.lineage k) : k < d := by
  by_contra hdk
  have habove : c ∈ o.ancestors d := by
    rcases mem_lineage.1 hk with rfl | hk
    · omega
    · exact mem_ancestors_of_le hk hcd (Nat.le_of_not_lt hdk)
  rw [← ancestors_congr hparent] at habove
  exact Nat.lt_irrefl c (lt_of_mem_ancestors habove)

/-! ## Depths -/

theorem depth_of_none (h : o.parent? k = none) : o.depth k = 0 := by
  rw [depth, ancestors_of_none h]
  rfl

theorem depth_of_some (h : o.parent? k = some p) : o.depth k = o.depth p + 1 := by
  rw [depth, ancestors_of_some h]
  rfl

theorem exists_parent? (h : 0 < o.depth k) : ∃ p, o.parent? k = some p := by
  cases hp : o.parent? k with
  | none =>
    rw [depth_of_none hp] at h
    omega
  | some p => exact ⟨p, rfl⟩

theorem depth_lt_of_mem_ancestors (h : i ∈ o.ancestors k) : o.depth i < o.depth k := by
  induction k using Nat.strongRecOn with
  | ind k ih =>
    cases hp : o.parent? k with
    | none =>
      rw [ancestors_of_none hp] at h
      cases h
    | some p =>
      rw [depth_of_some hp]
      rw [ancestors_eq_lineage hp] at h
      rcases mem_lineage.1 h with rfl | h
      · exact Nat.lt_succ_self _
      · exact Nat.lt_succ_of_lt (ih p (parent?_lt hp) h)

/-- The headings above `k` are those before it that all after them, up to `k`, are of a
greater depth than. -/
theorem mem_ancestors_iff_depth :
    i ∈ o.ancestors k ↔ i < k ∧ ∀ m, i < m → m ≤ k → o.depth i < o.depth m := by
  constructor
  · intro h
    refine ⟨lt_of_mem_ancestors h, fun m him hmk => ?_⟩
    exact depth_lt_of_mem_ancestors (mem_ancestors_of_le h him hmk)
  · rintro ⟨hik, hdeeper⟩
    induction k using Nat.strongRecOn with
    | ind k ih =>
      have hk := hdeeper k hik (Nat.le_refl k)
      obtain ⟨p, hp⟩ := exists_parent? (Nat.zero_lt_of_lt hk)
      have hpk := parent?_lt hp
      have hmem : p ∈ o.ancestors k := by
        rw [ancestors_of_some hp]
        exact List.mem_cons_self
      rw [depth_of_some hp] at hk
      rw [ancestors_eq_lineage hp, mem_lineage]
      rcases Nat.lt_trichotomy i p with hip | rfl | hpi
      · exact Or.inr (ih p hpk hip fun m him hmp => hdeeper m him (by omega))
      · exact Or.inl rfl
      · -- a parent before `i` is above `i` as well
        have hshallow := depth_lt_of_mem_ancestors (mem_ancestors_of_le hmem hpi (by omega))
        omega

theorem parent?_eq_some_iff_depth :
    o.parent? k = some p ↔ p ∈ o.ancestors k ∧ o.depth k = o.depth p + 1 := by
  constructor
  · intro hp
    refine ⟨?_, depth_of_some hp⟩
    rw [ancestors_of_some hp]
    exact List.mem_cons_self
  · rintro ⟨hmem, hdepth⟩
    obtain ⟨q, hq⟩ := exists_parent? (show 0 < o.depth k by omega)
    rw [ancestors_eq_lineage hq] at hmem
    rcases mem_lineage.1 hmem with rfl | hmem
    · exact hq
    · have hlt := depth_lt_of_mem_ancestors hmem
      rw [depth_of_some hq] at hdepth
      omega

theorem parent?_congr_depth (h : ∀ i, o.depth i = o'.depth i) (k : Nat) :
    o.parent? k = o'.parent? k := by
  apply Option.ext
  intro p
  simp only [parent?_eq_some_iff_depth, mem_ancestors_iff_depth, h]

end Outline
end Sectioning
