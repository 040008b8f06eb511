/-
Visible characters.

What a reader takes for one character can be several in a text: a letter with its
marks, the letters of a Korean syllable, consonants that a sign links, a flag, or
emoji that are joined.  Such a cluster is read from left to right, and what
stands at its end decides whether the next character belongs to it.
-/
import Sectioning.Glyph.BreakClass

namespace Sectioning
namespace Cluster

/-- How far the end of a cluster has come to joined emoji. -/
inductive EmojiTail where
  | none
  /-- A pictograph with marks. -/
  | pictograph
  /-- A pictograph with marks and a joiner. -/
  | joiner
  deriving DecidableEq

/-- How far the end of a cluster has come to linked consonants. -/
inductive ConjunctTail where
  | none
  | consonant
  /-- A consonant and a linking sign. -/
  | linked
  deriving DecidableEq

/-- What stands at the end of a cluster. -/
structure Tail where
  last : BreakClass
  emoji : EmojiTail
  conjunct : ConjunctTail
  /-- Whether an odd number of letters of flags stands there. -/
  halfFlag : Bool

namespace EmojiTail

def push (t : EmojiTail) (c : Char) : EmojiTail :=
  if Emoji.isPictograph c then .pictograph
  else
    match t, BreakClass.ofChar c with
    | .pictograph, .mark => .pictograph
    | .pictograph, .joiner => .joiner
    | _, _ => .none

end EmojiTail

namespace ConjunctTail

def push (t : ConjunctTail) (c : Char) : ConjunctTail :=
  if Conjunct.isConsonant c then .consonant
  else if t = .none then .none
  else if Conjunct.isLinker c then .linked
  else if Conjunct.isTransparent c then t
  else .none

end ConjunctTail

namespace Tail

/-- The end of a cluster of one character. -/
def ofChar (c : Char) : Tail :=
  ⟨.ofChar c, .push .none c, .push .none c, Emoji.isIndicator c⟩

/-- The end of a cluster to which a character is added. -/
def push (t : Tail) (c : Char) : Tail :=
  ⟨.ofChar c, t.emoji.push c, t.conjunct.push c, Emoji.isIndicator c && !t.halfFlag⟩

/-- Whether the parts of Korean syllables belong together. -/
def joinsSyllable : BreakClass → BreakClass → Bool
  | .initial, .initial | .initial, .vowel => true
  | .initial, .openSyllable | .initial, .closedSyllable => true
  | .openSyllable, .vowel | .openSyllable, .final => true
  | .vowel, .vowel | .vowel, .final => true
  | .closedSyllable, .final | .final, .final => true
  | _, _ => false

/-- Whether a character of some class belongs to the one before it, whatever that
is. -/
def isTrailing : BreakClass → Bool
  | .mark | .joiner | .spacingMark => true
  | _ => false

/-- Whether the next character belongs to the cluster. -/
def joins (t : Tail) (c : Char) : Bool :=
  let next := BreakClass.ofChar c
  if t.last = .carriageReturn ∧ next = .lineFeed then true
  else if t.last.isBreak || next.isBreak then false
  else
    joinsSyllable t.last next || isTrailing next || t.last == .leading ||
      (t.conjunct == .linked && Conjunct.isConsonant c) ||
      (t.emoji == .joiner && Emoji.isPictograph c) ||
      (t.halfFlag && Emoji.isIndicator c)

end Tail

/-- What a text adds to a cluster before it, and the clusters after that. -/
def splitFrom (t : Tail) : List Char → List Char × List (List Char)
  | [] => ([], [])
  | c :: cs =>
    if t.joins c then
      let r := splitFrom (t.push c) cs
      (c :: r.1, r.2)
    else
      let r := splitFrom (.ofChar c) cs
      ([], (c :: r.1) :: r.2)

/-- The clusters of a text. -/
def split : List Char → List (List Char)
  | [] => []
  | c :: cs =>
    let r := splitFrom (.ofChar c) cs
    (c :: r.1) :: r.2

theorem flatten_splitFrom (t : Tail) (cs : List Char) :
    (splitFrom t cs).1 ++ (splitFrom t cs).2.flatten = cs := by
  induction cs generalizing t with
  | nil => rfl
  | cons c cs ih =>
    unfold splitFrom
    split
    · simp [ih]
    · simp [ih]

/-- Nothing of a text is lost between its clusters. -/
theorem flatten_split (cs : List Char) : (split cs).flatten = cs := by
  cases cs with
  | nil => rfl
  | cons c cs => simp [split, flatten_splitFrom]

end Cluster
end Sectioning
