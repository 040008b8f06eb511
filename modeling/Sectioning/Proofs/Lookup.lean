/-
Finding the heading around a cursor.

`headingAt?` takes the last heading of a document whose anchor is not after the
cursor (`Outline.headingAt?_eq_some_iff`).  This is the one with the greatest such
anchor only if the anchors of the document increase along the outline, whatever
stands between its headings (`Outline.Increasing.locates`).  For the root of a
build they do: its headings are those of one scan of its text, in order, and no
included document adds one to them (`Build.increasing_root`).
-/
import Sectioning.Outline.Forest
import Sectioning.Proofs.Anchors
import Sectioning.Proofs.Gathering

namespace Sectioning

namespace Position

theorem not_le {p q : Position} : ¬ p ≤ q ↔ q < p := by
  rw [le_iff, lt_iff]
  omega

theorem le_trans {p q r : Position} (h : p ≤ q) (h' : q ≤ r) : p ≤ r := by
  rw [le_iff] at h h' ⊢
  omega

end Position

namespace Outline

/-- The heading `h` has the index `i` and stands in the document `source`. -/
def IsIn (o : Outline) (source : SourceId) (i : Nat) (h : Heading) : Prop :=
  o.get? i = some h ∧ h.source = source

/-! ## The last match -/

/-- Searching a list from its end gives the last match. -/
theorem lastMatch_eq_some_iff {α : Type} (p : α → Bool) (l : List α) (i : Nat) :
    (l.zipIdx.reverse.find? fun x => p x.1).map (·.2) = some i ↔
      ∃ a, l[i]? = some a ∧ p a = true ∧ ∀ j b, l[j]? = some b → p b = true → j ≤ i := by
  induction l using List.reverseRecOn generalizing i with
  | nil => simp
  | append_singleton l a ih =>
    rw [List.zipIdx_append, List.reverse_append]
    show (((a, 0 + l.length) :: l.zipIdx.reverse).find? fun x => p x.1).map (·.2) = some i ↔ _
    rw [List.find?_cons, Nat.zero_add]
    by_cases hp : p a = true
    · rw [show p (a, l.length).1 = true from hp]
      show some l.length = some i ↔ _
      rw [Option.some.injEq]
      constructor
      · rintro rfl
        refine ⟨a, List.getElem?_concat_length, hp, fun j b hb _ => ?_⟩
        have hlt := (List.getElem?_eq_some_iff.1 hb).1
        rw [List.length_append, List.length_singleton] at hlt
        omega
      · rintro ⟨b, hb, -, hlast⟩
        have hle := hlast l.length a List.getElem?_concat_length hp
        have hlt := (List.getElem?_eq_some_iff.1 hb).1
        rw [List.length_append, List.length_singleton] at hlt
        omega
    · rw [show p (a, l.length).1 = false from Bool.eq_false_iff.2 hp]
      show (l.zipIdx.reverse.find? fun x => p x.1).map (·.2) = some i ↔ _
      rw [ih i]
      -- the new element is no match, so the matches are those of `l`
      have hmatch : ∀ (j : Nat) (b : α), ((l ++ [a])[j]? = some b ∧ p b = true) ↔
          (l[j]? = some b ∧ p b = true) := by
        intro j b
        rw [List.getElem?_append]
        split
        · rfl
        · next hj =>
          rw [show l[j]? = none from List.getElem?_eq_none (by omega)]
          constructor
          · rintro ⟨hb, hpb⟩
            rw [List.mem_singleton.1 (List.mem_of_getElem? hb)] at hpb
            exact absurd hpb hp
          · rintro ⟨hb, -⟩
            cases hb
      simp only [← and_assoc, ← and_imp, hmatch]

variable {o : Outline} {source : SourceId} {cursor : Position} {i : Nat}

theorem headingAt?_eq_some_iff :
    o.headingAt? source cursor = some i ↔
      ∃ h, o.IsIn source i h ∧ h.anchor ≤ cursor ∧
        ∀ j h', o.IsIn source j h' → h'.anchor ≤ cursor → j ≤ i := by
  rw [headingAt?, lastMatch_eq_some_iff
    (fun h : Heading => decide (h.source = source ∧ h.anchor ≤ cursor))]
  simp only [decide_eq_true_eq, IsIn, get?, and_assoc, and_imp]

theorem headingAt?_eq_none_iff :
    o.headingAt? source cursor = none ↔ ∀ i h, o.IsIn source i h → cursor < h.anchor := by
  rw [headingAt?, Option.map_eq_none_iff, List.find?_eq_none]
  simp only [decide_eq_true_eq, List.mem_reverse, List.mem_zipIdx_iff_getElem?, Prod.forall, IsIn,
    get?, ← Position.not_le, not_and, and_imp]
  constructor
  · intro h i hd hget hsource
    exact h hd i hget hsource
  · intro h hd i hget hsource
    exact h i hd hget hsource

/-! ## Increasing anchors -/

/-- The anchors of the document increase along the outline. -/
def Increasing (o : Outline) (source : SourceId) : Prop :=
  ∀ i j h h', o.IsIn source i h → o.IsIn source j h' → i < j → h.anchor < h'.anchor

/-- What a search by cursor finds in the document `source`. -/
structure Locates (o : Outline) (source : SourceId) : Prop where
  increasing : o.Increasing source
  eq_some_iff : ∀ cursor i, o.headingAt? source cursor = some i ↔
    ∃ h, o.IsIn source i h ∧ h.anchor ≤ cursor ∧
      ∀ j h', o.IsIn source j h' → h'.anchor ≤ cursor → h'.anchor ≤ h.anchor
  eq_none_iff : ∀ cursor, o.headingAt? source cursor = none ↔
    ∀ i h, o.IsIn source i h → cursor < h.anchor
  lt_next : ∀ cursor i j h, o.headingAt? source cursor = some i → o.IsIn source j h → i < j →
    cursor < h.anchor
  at_anchor : ∀ i h, o.IsIn source i h → o.headingAt? source h.anchor = some i
  monotone : ∀ cursor cursor' i, cursor ≤ cursor' → o.headingAt? source cursor = some i →
    ∃ j, o.headingAt? source cursor' = some j ∧ i ≤ j

theorem Increasing.index_le (h : o.Increasing source) {j : Nat} {hd hd' : Heading}
    (hi : o.IsIn source i hd) (hj : o.IsIn source j hd') (hle : hd'.anchor ≤ hd.anchor) :
    j ≤ i := by
  by_contra hlt
  exact Position.not_le.2 (h i j hd hd' hi hj (by omega)) hle

theorem Increasing.anchor_le (h : o.Increasing source) {j : Nat} {hd hd' : Heading}
    (hi : o.IsIn source i hd) (hj : o.IsIn source j hd') (hle : j ≤ i) :
    hd'.anchor ≤ hd.anchor := by
  rcases Nat.lt_or_eq_of_le hle with hlt | rfl
  · exact Position.le_of_lt (h j i hd' hd hj hi hlt)
  · rw [Option.some.inj (hi.1.symm.trans hj.1)]
    exact Or.inr ⟨rfl, Nat.le_refl _⟩

theorem exists_headingAt? {hd : Heading} (hi : o.IsIn source i hd) (hle : hd.anchor ≤ cursor) :
    ∃ j, o.headingAt? source cursor = some j ∧ i ≤ j := by
  cases hj : o.headingAt? source cursor with
  | none => exact absurd hle (Position.not_le.2 (headingAt?_eq_none_iff.1 hj i hd hi))
  | some j =>
    obtain ⟨h, -, -, hlast⟩ := headingAt?_eq_some_iff.1 hj
    exact ⟨j, rfl, hlast i hd hi hle⟩

theorem Increasing.locates (h : o.Increasing source) : o.Locates source where
  increasing := h
  eq_some_iff cursor i := by
    rw [headingAt?_eq_some_iff]
    constructor
    · rintro ⟨hd, hi, hle, hlast⟩
      exact ⟨hd, hi, hle, fun j hd' hj hle' => h.anchor_le hi hj (hlast j hd' hj hle')⟩
    · rintro ⟨hd, hi, hle, hgreatest⟩
      exact ⟨hd, hi, hle, fun j hd' hj hle' => h.index_le hi hj (hgreatest j hd' hj hle')⟩
  eq_none_iff cursor := headingAt?_eq_none_iff
  lt_next cursor i j hd hi hj hlt := by
    obtain ⟨-, -, -, hlast⟩ := headingAt?_eq_some_iff.1 hi
    rw [← Position.not_le]
    intro hle
    have hback := hlast j hd hj hle
    omega
  at_anchor i hd hi := by
    rw [headingAt?_eq_some_iff]
    exact ⟨hd, hi, Or.inr ⟨rfl, Nat.le_refl _⟩, fun j hd' hj hle => h.index_le hi hj hle⟩
  monotone cursor cursor' i hle hi := by
    obtain ⟨hd, hin, hanchor, -⟩ := headingAt?_eq_some_iff.1 hi
    exact exists_headingAt? hin (Position.le_trans hanchor hle)

end Outline

/-! ## The root of a build -/

namespace Buffer

theorem filterMap_heading?_accepted (b : Buffer) :
    b.accepted.filterMap Entry.heading? = b.entries.filterMap Entry.heading? := by
  rw [accepted, List.filterMap_filter]
  apply List.filterMap_congr
  intro e _
  cases e <;> rfl

/-- The headings of a buffer come in the order of their anchors. -/
theorem pairwise_headings (b : Buffer) :
    (b.entries.filterMap Entry.heading?).Pairwise fun h h' => h.anchor < h'.anchor := by
  rw [← filterMap_heading?_accepted]
  refine b.pairwise_accepted.filterMap _ fun e e' hbefore h hh h' hh' => ?_
  obtain ⟨p, q, hp, hq, hlt⟩ := hbefore
  cases e <;> cases hh
  cases e' <;> cases hh'
  cases hp
  cases hq
  exact hlt

end Buffer

namespace Build

theorem increasing_root {resolve : Resolver} {follow : Bool} {root : Buffer} {depth : Nat}
    {build : Build} (h : expand resolve follow depth [] (.ofBuffer root) [root.id] = .ok build) :
    (Outline.ofHeadings build.headings).Increasing root.id := by
  have hsorted := root.pairwise_headings
  rw [← (gathers_of_expand_ofBuffer h).filter_headings root.tagged_entries, List.pairwise_filter,
    List.pairwise_iff_getElem] at hsorted
  intro i j hd hd' hi hj hlt
  obtain ⟨hib, hid⟩ := List.getElem?_eq_some_iff.1 hi.1
  obtain ⟨hjb, hjd⟩ := List.getElem?_eq_some_iff.1 hj.1
  have hanchors := hsorted i j hib hjb hlt
  change build.headings[i] = hd at hid
  change build.headings[j] = hd' at hjd
  rw [hid, hjd] at hanchors
  exact hanchors (decide_eq_true hi.2) (decide_eq_true hj.2)

/-- A cursor in the root leads to the heading of the root around it, whatever
other documents the build has headings of. -/
theorem locates_root (resolve : Resolver) (follow : Bool) (root : Buffer) (depth : Nat)
    (build : Build)
    (h : expand resolve follow depth [] (.ofBuffer root) [root.id] = .ok build) :
    (Outline.ofHeadings build.headings).Locates root.id :=
  (increasing_root h).locates

/-- A document that is included twice between headings of the root. -/
def refrain : Shelf :=
  .ofList [("b.tex", "\\section{b}")]

def refrainRoot : Buffer :=
  .ofString ⟨"main.tex"⟩ "\\part{a}\n\\input{b}\n\\part{c}\n\\input{b}"

def refrainHeadings : List Heading :=
  [⟨"a", 1, ⟨0, 0⟩, ⟨"main.tex"⟩⟩, ⟨"b", 3, ⟨0, 0⟩, ⟨"b.tex"⟩⟩, ⟨"c", 1, ⟨2, 0⟩, ⟨"main.tex"⟩⟩,
    ⟨"b", 3, ⟨0, 0⟩, ⟨"b.tex"⟩⟩]

theorem locates_refrain :
    refrain.library.build true (.ofBuffer refrainRoot) =
      .ok ⟨refrainHeadings, [⟨"main.tex"⟩, ⟨"b.tex"⟩]⟩ ∧
    (Outline.ofHeadings refrainHeadings).Locates ⟨"main.tex"⟩ ∧
    (Outline.ofHeadings refrainHeadings).headingAt? ⟨"main.tex"⟩ ⟨1, 4⟩ = some 0 ∧
    (Outline.ofHeadings refrainHeadings).headingAt? ⟨"main.tex"⟩ ⟨3, 0⟩ = some 2 := by
  have h : refrain.library.build true (.ofBuffer refrainRoot) =
      .ok ⟨refrainHeadings, [⟨"main.tex"⟩, ⟨"b.tex"⟩]⟩ := by
    decide +kernel
  exact ⟨h, locates_root _ _ _ _ _ (Library.build_eq_ok_iff.1 h), by decide, by decide⟩

end Build
end Sectioning
