/-
When an outline is built again.

At most one rebuild is pending.  A change puts it off by the quiet time of the
frequency, counted from that change, and a save makes it due at once.  Times are
in milliseconds and may go backwards.
-/
import Sectioning.Update.Frequency

namespace Sectioning

/-- Why a rebuild is asked for. -/
inductive Trigger where
  | changed
  /-- A save, or a wish of the user. -/
  | saved
  deriving DecidableEq

structure Schedule where
  frequency : Frequency
  /-- When the pending rebuild is due. -/
  deadline : Option Nat
  deriving DecidableEq

namespace Schedule

/-- Nothing is pending. -/
def idle (frequency : Frequency) : Schedule :=
  ⟨frequency, none⟩

/-- Asks for a rebuild, in place of one that is pending. -/
def request (s : Schedule) (trigger : Trigger) (now : Nat) : Schedule :=
  match trigger, s.frequency.delay? with
  | .saved, _ => { s with deadline := some now }
  | .changed, some delay => { s with deadline := some (now + delay) }
  | .changed, none => s

/-- A file was written.  For a frequency that acts on saves only this is a save,
and a change otherwise. -/
def fileChanged (s : Schedule) (now : Nat) : Schedule :=
  s.request (if s.frequency = .onSaveOnly then .saved else .changed) now

def isPending (s : Schedule) : Bool :=
  s.deadline.isSome

/-- Whether the pending rebuild is due. -/
def isDue (s : Schedule) (now : Nat) : Bool :=
  s.deadline.any (· ≤ now)

/-- Takes the pending rebuild if it is due. -/
def takeDue (s : Schedule) (now : Nat) : Bool × Schedule :=
  if s.isDue now then (true, { s with deadline := none }) else (false, s)

/-- The time until the pending rebuild is due. -/
def dueIn? (s : Schedule) (now : Nat) : Option Nat :=
  s.deadline.map (· - now)

end Schedule
end Sectioning
