/-
An outline that is browsed and kept up to date.

A session is a view with what it takes to build its outline again: the project,
the schedule, and the watch over the files of the last build.  After a key, or
when a file has changed, a rebuild may be due.  A rebuild that fails leaves the
outline and the watch as they are.
-/
import Sectioning.Inclusion.Project
import Sectioning.Update.Watch
import Sectioning.View.Key

namespace Sectioning

structure Session where
  project : Project
  view : View
  schedule : Schedule
  watch : Watch

namespace Session

/-- How long a session waits for a key before it looks at its files again, in
milliseconds. -/
def watchInterval : Nat := 250

/-- The session that browses a build of the project. -/
def start (p : Project) (root : SourceId) (b : Build) (stamps : Stamps) (frequency : Frequency)
    (cursor : Option Position) : Session :=
  let view := View.start (.ofHeadings b.headings) root
  ⟨p, cursor.elim view view.follow, .idle frequency, .start stamps b.watchedPaths⟩

/-- The time to wait for the next key. -/
def patience (s : Session) (now : Nat) : Nat :=
  (s.schedule.dueIn? now).elim watchInterval (min watchInterval)

/-- Applies a key, and tells whether the session goes on. -/
def press (s : Session) (now : Nat) (k : Key) : Session × Bool :=
  let r := s.view.press s.schedule now k
  ({ s with view := r.view, schedule := r.schedule }, r.stays)

/-- Looks at the files, and asks for a rebuild if one has changed. -/
def notice (s : Session) (stamps : Stamps) (now : Nat) : Session :=
  let (changed, watch) := s.watch.check stamps
  { s with
    watch := watch
    schedule := if changed then s.schedule.fileChanged now else s.schedule }

/-- Puts the result of a rebuild in place. -/
def accept (s : Session) (stamps : Stamps) : Except Error Build → Session
  | .ok b =>
    { s with
      view := s.view.replaceOutline (.ofHeadings b.headings)
      watch := s.watch.retarget stamps b.watchedPaths }
  | .error e => { s with view := { s.view with message := some ("Rescan failed: " ++ e.message) } }

/-- Builds the outline again if that is due. -/
def rescan (s : Session) (disk : Disk) (stamps : Stamps) (now : Nat) : Session :=
  let (due, schedule) := s.schedule.takeDue now
  let s := { s with schedule := schedule }
  if due then s.accept stamps (s.project.build disk) else s

/-- Applies keys one after another, each with the rebuild that it asks for, up to
the one that ends the session. -/
def play (disk : Disk) (stamps : Stamps) (now : Nat) : Session → List Key → Session
  | s, [] => s
  | s, k :: ks =>
    let (s, goesOn) := s.press now k
    if goesOn then play disk stamps now (s.rescan disk stamps now) ks else s

/-- What is printed when the session has ended: where the selection stands. -/
def farewell (s : Session) : String :=
  (s.view.location? s.view.selected).elim "" (· ++ "\n")

end Session
end Sectioning
