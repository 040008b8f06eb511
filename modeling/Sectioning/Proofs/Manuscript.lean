/-
Documents as they are meant, and their printed form.

A family is a finite set of named documents, each a list of headings and of
inclusions of other documents of the family.  No document leads back to itself.
`Family.print` writes a document with one command on each line, and
`Family.flatten` lists the headings of a document and of all that it includes
without looking at any text.
-/
import Mathlib.Data.Fintype.Order
import Mathlib.Logic.Relation
import Sectioning.Inclusion.Library
import Sectioning.Proofs.Blanks
import Sectioning.Proofs.Nesting

namespace Sectioning

namespace Delimiter

/-- Whether every group of a kind is closed and every closing delimiter closes
one, where `depth` groups are open already. -/
def isBalanced (d : Delimiter) : Nat → List Char → Bool
  | depth, [] => depth == 0
  | depth, c :: cs =>
    if c = d.closer then depth != 0 && isBalanced d (depth - 1) cs
    else if c = d.opener then isBalanced d (depth + 1) cs
    else isBalanced d depth cs

theorem isBalanced_nil {d : Delimiter} {depth : Nat} :
    d.isBalanced depth [] = true ↔ depth = 0 :=
  beq_iff_eq

theorem isBalanced_close (d : Delimiter) (cs : List Char) :
    d.isBalanced 0 (d.closer :: cs) = false := by
  rw [isBalanced, if_pos rfl]
  rfl

theorem isBalanced_cons {d : Delimiter} {depth : Nat} {c : Char}
    (h : ¬ (c = d.closer ∧ depth = 0)) (cs : List Char) :
    d.isBalanced depth (c :: cs) = d.isBalanced (d.depthAfter (.first c) depth) cs := by
  rw [isBalanced, depthAfter]
  simp only [Octet.first.injEq]
  by_cases hc : c = d.closer
  · have hdepth : (depth != 0) = true := bne_iff_ne.2 fun hdepth => h ⟨hc, hdepth⟩
    rw [if_pos hc, if_pos hc, hdepth, Bool.true_and]
  · rw [if_neg hc, if_neg hc]
    split <;> rfl

theorem closer_ne_newline (d : Delimiter) : d.closer ≠ '\n' := by
  cases d <;> decide

theorem ne_of_isBlank (d : Delimiter) {c : Char} (hc : isBlank c = true) :
    c ≠ d.closer ∧ c ≠ d.opener :=
  ⟨Sectioning.ne_of_isBlank hc (by cases d <;> rfl),
    Sectioning.ne_of_isBlank hc (by cases d <;> rfl)⟩

theorem depthAfter_of_ne {d : Delimiter} {depth : Nat} {c : Char} (hcloser : c ≠ d.closer)
    (hopener : c ≠ d.opener) : d.depthAfter (.first c) depth = depth := by
  rw [depthAfter, if_neg (by simpa using hcloser), if_neg (by simpa using hopener)]

theorem isBalanced_blank {d : Delimiter} {depth : Nat} {c : Char} (hc : isBlank c = true)
    (cs : List Char) : d.isBalanced depth (c :: cs) = d.isBalanced depth cs := by
  obtain ⟨hcloser, hopener⟩ := d.ne_of_isBlank hc
  rw [isBalanced_cons (fun h => hcloser h.1), depthAfter_of_ne hcloser hopener]

end Delimiter

namespace Manuscript

/-- A title as an outline shows it.  Brackets and percent signs are free. -/
structure TitleText where
  chars : List Char
  ne_nil : chars ≠ []
  collapsed : Text.collapse chars = chars
  no_backslash : '\\' ∉ chars
  balanced : Delimiter.brace.isBalanced 0 chars = true

/-- A short title. -/
structure ShortText where
  chars : List Char
  no_backslash : '\\' ∉ chars
  no_percent : '%' ∉ chars
  no_opener : '{' ∉ chars
  no_closer : '}' ∉ chars
  no_break : '\n' ∉ chars
  balanced : Delimiter.bracket.isBalanced 0 chars = true

/-- What stands between the keyword of a heading and its title. -/
inductive Style where
  | plain
  | starred
  | short (s : ShortText)

/-- The name of a document without its extension. -/
structure Stem where
  chars : List Char
  ne_nil : chars ≠ []
  alphanumeric : ∀ c ∈ chars, c.isAlphanum = true

/-- A line of a document in a family of `count` documents. -/
inductive Item (count : Nat) where
  | heading (k : Keyword) (level : Nat) (hlevel : k.level? = some level) (style : Style)
      (title : TitleText)
  | inclusion (k : Keyword) (hk : k.level? = none) (target : Fin count)

/-- Finitely many documents that include each other without a cycle. -/
structure Family where
  count : Nat
  stem : Fin count → Stem
  stem_injective : Function.Injective stem
  items : Fin count → List (Item count)
  acyclic : ∀ i, ¬ Relation.TransGen
    (fun i j => ∃ k hk, Item.inclusion k hk j ∈ items i) i i

/-! ## Printing -/

/-- Writes each percent sign with a backslash before it. -/
def escape : List Char → List Char
  | [] => []
  | c :: cs => if c = '%' then '\\' :: '%' :: escape cs else c :: escape cs

namespace Style

def print : Style → List Char
  | plain => []
  | starred => ['*']
  | short s => '[' :: (s.chars ++ [']'])

end Style

namespace Stem

def fileName (s : Stem) : List Char :=
  s.chars ++ ['.', 't', 'e', 'x']

end Stem

def command (k : Keyword) (style : Style) (argument : List Char) : List Char :=
  '\\' :: (k.name.toList ++ (style.print ++ '{' :: (escape argument ++ ['}'])))

namespace Family

variable (f : Family)

def line : Item f.count → List Char
  | .heading k _ _ style title => command k style title.chars
  | .inclusion k _ target => command k .plain (f.stem target).fileName

/-- The text of a document, each item on a line of its own. -/
def print (i : Fin f.count) : List Char :=
  (f.items i).flatMap fun item => f.line item ++ ['\n']

def name (i : Fin f.count) : String :=
  String.ofList (f.stem i).fileName

def buffer (i : Fin f.count) : Buffer :=
  .ofString ⟨f.name i⟩ (String.ofList (f.print i))

/-- A shelf that holds all printed documents. -/
def shelf : Shelf :=
  .ofList (List.ofFn fun i => (f.name i, String.ofList (f.print i)))

/-! ## Flattening -/

/-- The document `i` includes the document `j`. -/
def Includes (i j : Fin f.count) : Prop :=
  ∃ k hk, Item.inclusion k hk j ∈ f.items i

theorem includes_wellFounded : WellFounded fun j i => f.Includes i j := by
  have hwf : WellFounded fun j i => Relation.TransGen f.Includes i j := by
    have htrans : IsTrans (Fin f.count) fun j i => Relation.TransGen f.Includes i j :=
      ⟨fun _ _ _ hij hjk => hjk.trans hij⟩
    have hirrefl : Std.Irrefl fun j i => Relation.TransGen f.Includes i j := ⟨f.acyclic⟩
    exact Finite.wellFounded_of_trans_of_irrefl _
  exact Subrelation.wf (fun h => Relation.TransGen.single h) hwf

end Family

/-- The headings of a document and of all that it includes, in reading order.  The
item on line `row` is anchored at the start of that line. -/
def Family.flatten (f : Family) (i : Fin f.count) : List Heading :=
  (f.items i).zipIdx.attach.flatMap fun entry =>
    match _h : entry.1.1 with
    | .heading _ level _ _ title =>
      [⟨String.ofList title.chars, level, ⟨entry.1.2, 0⟩, ⟨f.name i⟩⟩]
    | .inclusion _ _ j => f.flatten j
termination_by f.includes_wellFounded.wrap i
decreasing_by
  exact ⟨_, _, _h ▸ List.fst_mem_of_mem_zipIdx entry.2⟩

namespace Family

variable (f : Family)

/-- What the item on line `row` of a document contributes. -/
def contribution (i : Fin f.count) (item : Item f.count) (row : Nat) : List Heading :=
  match item with
  | .heading _ level _ _ title =>
    [⟨String.ofList title.chars, level, ⟨row, 0⟩, ⟨f.name i⟩⟩]
  | .inclusion _ _ j => f.flatten j

theorem flatten_eq (i : Fin f.count) :
    f.flatten i = (f.items i).zipIdx.flatMap fun entry => f.contribution i entry.1 entry.2 := by
  rw [flatten]
  have hpoint : ∀ entry : { x // x ∈ (f.items i).zipIdx }, (match _h : entry.1.1 with
      | .heading _ level _ _ title =>
        [⟨String.ofList title.chars, level, ⟨entry.1.2, 0⟩, ⟨f.name i⟩⟩]
      | .inclusion _ _ j => f.flatten j) = f.contribution i entry.1.1 entry.1.2 := by
    intro entry
    unfold contribution
    split <;> rename_i h <;> rw [h]
  rw [funext hpoint]
  conv_rhs => rw [← List.attach_map_subtype_val (f.items i).zipIdx, List.flatMap_map]

end Family
end Manuscript
end Sectioning
