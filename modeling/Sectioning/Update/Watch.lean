/-
Noticing that files change.

A watch remembers the time of the last change of each of its files, as of the
last look at them.  A file that is not there has no such time.
-/
import Sectioning.Files.Path

namespace Sectioning

/-- Tells when the file at a path was last changed, if it is there. -/
abbrev Stamps := String → Option Nat

structure Watch where
  paths : List String
  /-- The times found at the last look, one for each path. -/
  seen : List (Option Nat)
  deriving DecidableEq

namespace Watch

/-- Starts to watch files as they are. -/
def start (stamps : Stamps) (paths : List String) : Watch :=
  ⟨paths, paths.map stamps⟩

/-- Whether two lists hold the same paths, component by component. -/
def samePaths (ps qs : List String) : Bool :=
  ps.map Path.components == qs.map Path.components

/-- Watches other files from now on.  With the same paths as before, nothing is
looked at and nothing changes. -/
def retarget (w : Watch) (stamps : Stamps) (paths : List String) : Watch :=
  if samePaths paths w.paths then w else start stamps paths

/-- Looks at the files: whether one was changed, made or removed since the last
look. -/
def check (w : Watch) (stamps : Stamps) : Bool × Watch :=
  let now := w.paths.map stamps
  (now != w.seen, { w with seen := now })

end Watch
end Sectioning
