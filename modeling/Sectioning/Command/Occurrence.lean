/-
Where commands stand in a text.

A command form is a backslash and the name of a command, followed by a gap, an
optional star, another gap, and an opening brace; or by a gap and an opening
bracket; or by blanks and a percent sign.  A gap is a run of blanks and
comments, and a comment goes from a percent sign to the end of its line.

A form is read greedily, and the three endings are tried in that order.  A gap
is as long as it can be, but a comment in it is cut short where the form could
not end otherwise.  So a delimiter inside a comment ends a form exactly when
none behind the comments does, and then it is the last one: `ending?` gives the
text so read.

`scan` lists the forms of a text from left to right, each beginning after the
end of the one before.
-/
import Sectioning.Command.Keyword
import Sectioning.Text.Buffer

namespace Sectioning

/-- A command form: its keyword, and its range from the backslash to just after
the delimiter that ends it. -/
structure Occurrence where
  keyword : Keyword
  range : Range
  deriving DecidableEq

namespace Occurrence

/-- The place of the delimiter. -/
def delimiter (o : Occurrence) : Position :=
  ⟨o.range.stop.row, o.range.stop.column - 1⟩

/-! ## Forms -/

/-- The longest gap at the start of a text, and what follows it.  The flag tells
whether the text starts inside a comment. -/
def gap : Bool → List Char → List Char × List Char
  | _, [] => ([], [])
  | inComment, c :: cs =>
    if inComment || isBlank c || c == '%' then
      let (taken, rest) := gap (if inComment then c != '\n' else c == '%') cs
      (c :: taken, rest)
    else ([], c :: cs)

/-- The longest part of a text, from its start, that ends in `d`. -/
def upToLast? (d : Char) : List Char → Option (List Char)
  | [] => none
  | c :: cs =>
    match upToLast? d cs with
    | some part => some (c :: part)
    | none => if c = d then some [c] else none

/-- A gap that ends in `d`: the delimiter after the longest gap, or else the last
one in a comment of that gap. -/
def gapTo? (d : Char) (cs : List Char) : Option (List Char) :=
  let (taken, rest) := gap false cs
  upToLast? d (taken ++ rest.take 1)

/-- A gap, a star, and a gap that ends in an opening brace. -/
def starredGap? (cs : List Char) : Option (List Char) :=
  match gap false cs with
  | (taken, '*' :: rest) => (gapTo? '{' rest).map fun part => taken ++ '*' :: part
  | _ => none

/-- Blanks and a percent sign. -/
def blanksToComment? (cs : List Char) : Option (List Char) :=
  match cs.dropWhile isBlank with
  | '%' :: _ => some (cs.takeWhile isBlank ++ ['%'])
  | _ => none

/-- The text after a command's name, up to and including its delimiter. -/
def ending? (cs : List Char) : Option (List Char) :=
  starredGap? cs <|> gapTo? '{' cs <|> gapTo? '[' cs <|> blanksToComment? cs

/-- The keyword whose name stands at the start of a text.  No name begins with
another one. -/
def keywordAt? (cs : List Char) : Option Keyword :=
  Keyword.all.find? fun k => k.name.toList.isPrefixOf cs

/-- The command form at the start of a text, as its keyword and its own text. -/
def formAt? : List Char → Option (Keyword × List Char)
  | '\\' :: cs =>
    (keywordAt? cs).bind fun k =>
      let name := k.name.toList
      (ending? (cs.drop name.length)).map fun part => (k, '\\' :: (name ++ part))
  | _ => none

/-- Whether a form is reported: a percent sign cannot begin the argument of an
inclusion. -/
def isReported (k : Keyword) (form : List Char) : Bool :=
  !(k.isInclusion && form.getLast? == some '%')

/-! ## Scanning -/

/-- The reported forms of a text that starts at `p`, leaving out those that
begin within its first `covered` characters. -/
def scanFrom : Nat → Position → List Char → List Occurrence
  | _, _, [] => []
  | covered + 1, p, c :: cs => scanFrom covered (p.after c) cs
  | 0, p, c :: cs =>
    match formAt? (c :: cs) with
    | none => scanFrom 0 (p.after c) cs
    | some (k, form) =>
      let later := scanFrom (form.length - 1) (p.after c) cs
      if isReported k form then ⟨k, ⟨p, p.afterAll form⟩⟩ :: later else later

def scan (b : Buffer) : List Occurrence :=
  scanFrom 0 .start b.text

end Occurrence
end Sectioning
