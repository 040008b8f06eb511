/-
Blank characters, and the words between them.

A character is blank when it has the Unicode property White_Space.  The same
rule serves everywhere: between a command and its argument, around the name of
an included document, and between the words of a title.
-/

namespace Sectioning

/-- The characters with the Unicode property White_Space. -/
def isBlank (c : Char) : Bool :=
  let n := c.toNat
  (9 ≤ n && n ≤ 13) || n == 0x20 || n == 0x85 || n == 0xA0 || n == 0x1680 ||
    (0x2000 ≤ n && n ≤ 0x200A) || n == 0x2028 || n == 0x2029 || n == 0x202F ||
    n == 0x205F || n == 0x3000

namespace Text

/-- Puts `c` at the front of the first of several pieces. -/
def extendFirst (c : Char) : List (List Char) → List (List Char)
  | [] => [[c]]
  | piece :: pieces => (c :: piece) :: pieces

/-- The pieces of a text between the occurrences of a separator.  There is
always one more piece than there are separators. -/
def split (separator : Char) : List Char → List (List Char)
  | [] => [[]]
  | c :: cs =>
    if c = separator then [] :: split separator cs else extendFirst c (split separator cs)

theorem split_ne_nil (separator : Char) (cs : List Char) : split separator cs ≠ [] := by
  cases cs with
  | nil => simp [split]
  | cons c cs =>
    unfold split
    split
    · simp
    · cases Text.split separator cs <;> simp [extendFirst]

def isAllBlank (cs : List Char) : Bool :=
  cs.all isBlank

def trim (cs : List Char) : List Char :=
  ((cs.dropWhile isBlank).reverse.dropWhile isBlank).reverse

/-- Whether a word cannot go on into `cs`. -/
def endsWord : List Char → Bool
  | [] => true
  | c :: _ => isBlank c

/-- The longest runs of characters that are not blank. -/
def words : List Char → List (List Char)
  | [] => []
  | c :: cs =>
    if isBlank c then words cs
    else if endsWord cs then [c] :: words cs
    else extendFirst c (words cs)

/-- The words of a text with one space between them. -/
def collapse (cs : List Char) : List Char :=
  [' '].intercalate (words cs)

end Text

/-- A string without the blank characters at its ends. -/
def trimmed (s : String) : String :=
  String.ofList (Text.trim s.toList)

end Sectioning
