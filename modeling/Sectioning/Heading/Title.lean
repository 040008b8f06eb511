/-
The text of a title as an outline shows it.

Comments go, and the line break that ends a comment stays.  An escaped percent
sign loses its backslash, and every other escape is kept as it is written.
Blanks at the ends go, and blanks between words become one space.
-/
import Sectioning.Text.Blank

namespace Sectioning
namespace Title

/-- The text of a title without its comments.  The flag tells whether the text
starts inside a comment. -/
def uncomment : Bool → List Char → List Char
  | _, [] => []
  | true, c :: cs => if c = '\n' then '\n' :: uncomment false cs else uncomment true cs
  | false, ['\\'] => ['\\']
  | false, '\\' :: c :: cs =>
    if c = '%' then '%' :: uncomment false cs else '\\' :: c :: uncomment false cs
  | false, c :: cs => if c = '%' then uncomment true cs else c :: uncomment false cs

/-- The text of a title as an outline shows it. -/
def clean (cs : List Char) : List Char :=
  Text.collapse (uncomment false cs)

end Title
end Sectioning
