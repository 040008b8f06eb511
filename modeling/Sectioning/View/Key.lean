/-
Keys, and what they do to a view.
-/
import Sectioning.Update.Schedule
import Sectioning.View.State

namespace Sectioning

inductive KeyCode where
  | up
  | down
  | left
  | right
  | home
  | endKey
  | enter
  | escape
  | tab
  | char (c : Char)
  /-- Any key besides these.  None of them has a meaning. -/
  | other
  deriving DecidableEq

structure Key where
  code : KeyCode
  shift : Bool
  deriving DecidableEq

/-- What a key leaves behind. -/
structure Response where
  view : View
  schedule : Schedule
  /-- Whether the view stays open. -/
  stays : Bool

namespace View

/-- The message while a rebuild that the user asked for is pending. -/
def rescanning : String := "Rescanning"

/-- Applies a key that leaves the view open and asks for no rebuild. -/
def move (v : View) (k : Key) : View :=
  match k.code with
  | .up => v.go (if k.shift then v.prevSibling? else v.prevVisible?)
  | .down => v.go (if k.shift then v.nextSibling? else v.nextVisible?)
  | .left => v.collapseOrParent
  | .right => v.expandOrChild
  | .home => v.go v.first?
  | .endKey => v.go v.last?
  | .enter => v.jump
  | .char c =>
    if c = 'k' then v.go v.prevVisible?
    else if c = 'j' then v.go v.nextVisible?
    else if c = 'h' then v.collapseOrParent
    else if c = 'l' then v.expandOrChild
    else if c = ' ' then v.toggle
    else v
  | .escape | .tab | .other => v

/-- Applies a key at the time `now`.  Every key clears the message first. -/
def press (v : View) (s : Schedule) (now : Nat) (k : Key) : Response :=
  let v := { v with message := none }
  if k.code = .escape ∨ k.code = .char 'q' then ⟨v, s, false⟩
  else if k.code = .char 'r' then
    ⟨{ v with message := some rescanning }, s.request .saved now, true⟩
  else ⟨v.move k, s, true⟩

end View
end Sectioning
