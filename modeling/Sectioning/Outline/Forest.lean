/-
The tree that a list of headings implies.

A heading belongs under the nearest earlier heading of a smaller level.  The
links are found in one pass that keeps the headings still open, the innermost
first: a heading closes all those of its own level or deeper, and the innermost
one left is its parent.  The heading is then put last among those under its
parent, or last among the roots.

Headings are named by their index in reading order.  The questions about an index
past the end have the answers of a heading without relatives.
-/
import Sectioning.Heading.Basic

namespace Sectioning

/-- An open heading: its index and its level. -/
structure OpenHeading where
  index : Nat
  level : Nat

/-- The links between headings that a pass has found. -/
structure Links where
  /-- The parent of each heading, if it has one. -/
  parents : Array (Option Nat)
  /-- The headings right under each heading. -/
  children : Array (Array Nat)
  /-- The headings without a parent. -/
  roots : Array Nat

namespace Links

/-- No links yet, between `count` headings. -/
def start (count : Nat) : Links :=
  ⟨#[], Array.replicate count #[], #[]⟩

/-- Links the heading `i` to its parent. -/
def push (l : Links) (i : Nat) (parent : Option Nat) : Links :=
  match parent with
  | some p =>
    ⟨l.parents.push parent, l.children.modify p (·.push i), l.roots⟩
  | none => ⟨l.parents.push parent, l.children, l.roots.push i⟩

/-- The headings that were put under a parent, or among the roots. -/
def under (l : Links) : Option Nat → List Nat
  | some p => (l.children[p]?.getD #[]).toList
  | none => l.roots.toList

theorem parents_push (l : Links) (i : Nat) (parent : Option Nat) :
    (l.push i parent).parents = l.parents.push parent := by
  cases parent <;> rfl

end Links

/-- Links the headings with the given levels, the first of which has the index
`i`. -/
def linkFrom : Nat → List OpenHeading → Links → List Nat → Links
  | _, _, links, [] => links
  | i, opened, links, level :: levels =>
    let left := opened.dropWhile fun o => level ≤ o.level
    linkFrom (i + 1) (⟨i, level⟩ :: left) (links.push i (left.head?.map (·.index))) levels

/-- The parents that `linkFrom` finds. -/
def parentsFrom : Nat → List OpenHeading → List Nat → List (Option Nat)
  | _, _, [] => []
  | i, opened, level :: levels =>
    let left := opened.dropWhile fun o => level ≤ o.level
    left.head?.map (·.index) :: parentsFrom (i + 1) (⟨i, level⟩ :: left) levels

theorem parentsFrom_lt {i k p : Nat} {opened : List OpenHeading} {levels : List Nat}
    (hopen : ∀ o ∈ opened, o.index < i)
    (h : (parentsFrom i opened levels)[k]? = some (some p)) : p < i + k := by
  induction levels generalizing i k opened with
  | nil => simp [parentsFrom] at h
  | cons level levels ih =>
    have hleft : ∀ o ∈ opened.dropWhile fun o => level ≤ o.level, o.index < i :=
      fun o ho => hopen o ((List.dropWhile_sublist _).subset ho)
    cases k with
    | zero =>
      simp only [parentsFrom, List.getElem?_cons_zero, Option.some.injEq] at h
      obtain ⟨o, ho, rfl⟩ := Option.map_eq_some_iff.1 h
      exact hleft o (List.mem_of_mem_head? ho)
    | succ k =>
      have hnext : ∀ o ∈ OpenHeading.mk i level :: opened.dropWhile fun o => level ≤ o.level,
          o.index < i + 1 := by
        intro o ho
        cases ho with
        | head => exact Nat.lt_succ_self i
        | tail _ ho => exact Nat.lt_succ_of_lt (hleft o ho)
      have := ih hnext (k := k) (by simpa [parentsFrom] using h)
      omega

theorem parents_linkFrom (i : Nat) (opened : List OpenHeading) (links : Links)
    (levels : List Nat) :
    (linkFrom i opened links levels).parents.toList =
      links.parents.toList ++ parentsFrom i opened levels := by
  induction levels generalizing i opened links with
  | nil => simp [linkFrom, parentsFrom]
  | cons level levels ih =>
    rw [linkFrom, ih, Links.parents_push, Array.toList_push, List.append_assoc]
    rfl

/-- Headings in reading order, with the links between them. -/
structure Outline where
  headings : List Heading
  links : Links
  links_eq : links = linkFrom 0 [] (.start headings.length) (headings.map (·.level))

namespace Outline

def ofHeadings (headings : List Heading) : Outline :=
  ⟨headings, linkFrom 0 [] (.start headings.length) (headings.map (·.level)), rfl⟩

def size (o : Outline) : Nat :=
  o.headings.length

def isEmpty (o : Outline) : Bool :=
  o.headings.isEmpty

def get? (o : Outline) (i : Nat) : Option Heading :=
  o.headings[i]?

def parents (o : Outline) : List (Option Nat) :=
  o.links.parents.toList

theorem parents_eq (o : Outline) :
    o.parents = parentsFrom 0 [] (o.headings.map (·.level)) := by
  rw [parents, o.links_eq, parents_linkFrom]
  rfl

def parent? (o : Outline) (i : Nat) : Option Nat :=
  o.parents[i]?.join

theorem parent?_lt {o : Outline} {i p : Nat} (h : o.parent? i = some p) : p < i := by
  rw [parent?, Option.join_eq_some_iff, o.parents_eq] at h
  simpa using parentsFrom_lt (by simp) h

/-- The headings with a given parent, in order. -/
def under (o : Outline) (parent : Option Nat) : List Nat :=
  o.links.under parent

/-- The headings without a parent. -/
def roots (o : Outline) : List Nat :=
  o.under none

def children (o : Outline) (i : Nat) : List Nat :=
  o.under (some i)

def hasChildren (o : Outline) (i : Nat) : Bool :=
  !(o.children i).isEmpty

/-- The headings above `i`, the nearest first. -/
def ancestors (o : Outline) (i : Nat) : List Nat :=
  match _h : o.parent? i with
  | none => []
  | some p => p :: o.ancestors p
termination_by i
decreasing_by exact parent?_lt _h

/-- The number of headings above `i`. -/
def depth (o : Outline) (i : Nat) : Nat :=
  (o.ancestors i).length

/-- The headings with the parent of `i`. -/
def siblings (o : Outline) (i : Nat) : List Nat :=
  o.under (o.parent? i)

def nextSibling? (o : Outline) (i : Nat) : Option Nat :=
  ((o.siblings i).idxOf? i).bind fun k => (o.siblings i)[k + 1]?

def prevSibling? (o : Outline) (i : Nat) : Option Nat :=
  ((o.siblings i).idxOf? i).bind fun k =>
    if k = 0 then none else (o.siblings i)[k - 1]?

/-- The documents that the headings come from, each once. -/
def sources (o : Outline) : List SourceId :=
  o.headings.foldl (fun seen h => SourceId.note seen h.source) []

/-- The last heading of a document that does not stand after a cursor in it. -/
def headingAt? (o : Outline) (source : SourceId) (cursor : Position) : Option Nat :=
  (o.headings.zipIdx.reverse.find? fun h => h.1.source = source ∧ h.1.anchor ≤ cursor).map (·.2)

end Outline
end Sectioning
