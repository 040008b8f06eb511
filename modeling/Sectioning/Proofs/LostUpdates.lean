/-
Which updates of files a session notices.

A session compares the times of its files with those that it took down at its last
look.  It looks when it checks the files, and when a build comes with another list of
files (`session_of_some`).  So a check notices what was updated after the last look
(`check_eq_true_iff`), and the look can be later than the build that is on screen: an
update between the two is lost.  An update is lost as well if it removes a file that
was not there at the last look and was made in between (`updates_lost`).
-/
import Mathlib.Data.List.Basic
import Mathlib.Data.List.Induction
import Sectioning.Program.Session
import Sectioning.Proofs.Debouncing

namespace Sectioning
namespace Session

/-- The times of the last change of all files.  A file is known by the components of
its path. -/
abbrev Times := List Path.Component → Option Nat

def Times.stamps (t : Times) : Stamps :=
  fun path => t (Path.components path)

/-- What a session begins with, apart from its first build. -/
structure Opening where
  project : Project
  root : SourceId
  frequency : Frequency
  cursor : Option Position

inductive Event where
  /-- A file is written, and `time` is the time of its last change from then on. -/
  | write (path : String) (time : Nat)
  | remove (path : String)
  /-- A build reads a file. -/
  | read (path : String)
  | press (now : Nat) (k : Key)
  | notice (now : Nat)
  /-- A rebuild begins, if one is due. -/
  | takeDue (now : Nat)
  /-- A build has come to its end.  The first one that succeeds begins the session. -/
  | accept (result : Except Error Build)

namespace Event

/-- The file that an event updates, with its new time. -/
def update? : Event → Option (List Path.Component × Option Nat)
  | write path time => some (Path.components path, some time)
  | remove path => some (Path.components path, none)
  | _ => none

def Updates (e : Event) (path : String) : Prop :=
  ∃ time, e.update? = some (Path.components path, time)

def times (t : Times) (e : Event) : Times :=
  match e.update? with
  | some (file, time) => Function.update t file time
  | none => t

def session (o : Opening) (stamps : Stamps) (s? : Option Session) : Event → Option Session
  | press now k => s?.map fun s => (s.press now k).1
  | notice now => s?.map fun s => s.notice stamps now
  | takeDue now => s?.map fun s => { s with schedule := (s.schedule.takeDue now).2 }
  | accept (.ok b) =>
    match s? with
    | none => some (.start o.project o.root b stamps o.frequency o.cursor)
    | some s => some (s.accept stamps (.ok b))
  | accept (.error e) => s?.map fun s => s.accept stamps (.error e)
  | write _ _ | remove _ | read _ => s?

def build? : Event → Option Build
  | accept (.ok b) => some b
  | _ => none

/-- The session takes down the times of its files. -/
def Looks (s? : Option Session) : Event → Prop
  | notice _ => s? ≠ none
  | accept (.ok b) => ∀ s, s? = some s → Watch.samePaths b.watchedPaths s.watch.paths = false
  | _ => False

end Event

structure Scene where
  times : Times
  session : Option Session

def Scene.step (o : Opening) (c : Scene) (e : Event) : Scene :=
  ⟨e.times c.times, e.session o c.times.stamps c.session⟩

/-- What some events lead to, if there is no session before them. -/
def scene (o : Opening) (t : Times) (es : List Event) : Scene :=
  es.foldl (Scene.step o) ⟨t, none⟩

def timesAfter (t : Times) (es : List Event) : Times :=
  es.foldl Event.times t

/-- The last build that succeeded. -/
def built? (es : List Event) : Option Build :=
  (es.filterMap Event.build?).getLast?

/-- A write gives a file a time that the file has not had before. -/
def Fresh (t : Times) (es : List Event) : Prop :=
  ∀ n < es.length, ∀ u ∈ es[n]?.bind Event.update?, u.2 ≠ none →
    ∀ m ≤ n, timesAfter t (es.take m) u.1 ≠ u.2

instance (t : Times) (es : List Event) : Decidable (Fresh t es) :=
  inferInstanceAs (Decidable (∀ n < es.length, ∀ u ∈ es[n]?.bind Event.update?, u.2 ≠ none →
    ∀ m ≤ n, timesAfter t (es.take m) u.1 ≠ u.2))

/-- The session has looked at its files after the events `earlier`, and not again at
the events `since`. -/
inductive LastLook (o : Opening) (t : Times) : List Event → List Event → List Event → Prop where
  | here {es : List Event} {e : Event} :
    e.Looks (scene o t es).session → LastLook o t (es ++ [e]) es []
  | past {es earlier since : List Event} {e : Event} :
    LastLook o t es earlier since → ¬ e.Looks (scene o t es).session →
      LastLook o t (es ++ [e]) earlier (since ++ [e])

/-- The rescan of a session is the two events of a rebuild, with nothing in between. -/
theorem rescan_eq (o : Opening) (s : Session) (disk : Disk) (t : Times) (now : Nat) :
    some (s.rescan disk t.stamps now) =
      if (s.schedule.takeDue now).1
      then (((Scene.mk t (some s)).step o (.takeDue now)).step o
        (.accept (s.project.build disk))).session
      else ((Scene.mk t (some s)).step o (.takeDue now)).session := by
  unfold rescan
  cases hdue : (s.schedule.takeDue now).1 with
  | false => simp [Scene.step, Event.session, hdue]
  | true =>
    cases hbuild : s.project.build disk <;>
      simp [Scene.step, Event.session, Event.times, Event.update?, hdue, hbuild]

/-! ## Times of files -/

section

variable {o : Opening} {t : Times} {es earlier since : List Event} {e : Event}

theorem timesAfter_concat (t : Times) (es : List Event) (e : Event) :
    timesAfter t (es ++ [e]) = e.times (timesAfter t es) :=
  List.foldl_concat Event.times t e es

theorem times_of_none (h : e.update? = none) : e.times t = t := by
  rw [Event.times, h]

/-- A file has the time that it had, or the one of an update. -/
theorem timesAfter_cases (t : Times) (es : List Event) (file : List Path.Component) :
    (∀ e ∈ es, ∀ time, e.update? ≠ some (file, time)) ∧ timesAfter t es file = t file ∨
      ∃ a e d, es = a ++ e :: d ∧ e.update? = some (file, timesAfter t es file) := by
  induction es using List.reverseRecOn with
  | nil => exact .inl ⟨by simp, rfl⟩
  | append_singleton es e ih =>
    rw [timesAfter_concat]
    by_cases hfile : ∃ time, e.update? = some (file, time)
    · obtain ⟨time, hupdate⟩ := hfile
      refine .inr ⟨es, e, [], rfl, ?_⟩
      rw [Event.times, hupdate]
      simp
    · have hsame : e.times (timesAfter t es) file = timesAfter t es file := by
        cases hupdate : e.update? with
        | none => rw [times_of_none hupdate]
        | some u =>
          rw [Event.times, hupdate]
          refine Function.update_of_ne ?_ ..
          rintro rfl
          exact hfile ⟨u.2, hupdate⟩
      rw [hsame]
      rcases ih with ⟨hno, hkept⟩ | ⟨a, e', d, hes, hupdate⟩
      · refine .inl ⟨fun e' he' time htime => ?_, hkept⟩
        rcases List.mem_append.1 he' with he' | he'
        · exact hno e' he' time htime
        · rw [List.mem_singleton.1 he'] at htime
          exact hfile ⟨time, htime⟩
      · exact .inr ⟨a, e', d ++ [e], by rw [hes]; simp, hupdate⟩

/-- With fresh times an update shows, unless the file is missing before and after. -/
theorem Fresh.timesAfter_ne_iff (h : Fresh t (earlier ++ since)) (file : List Path.Component) :
    timesAfter t (earlier ++ since) file ≠ timesAfter t earlier file ↔
      (∃ e ∈ since, ∃ time, e.update? = some (file, time)) ∧
        (timesAfter t earlier file ≠ none ∨ timesAfter t (earlier ++ since) file ≠ none) := by
  have happend : timesAfter t (earlier ++ since) = timesAfter (timesAfter t earlier) since :=
    List.foldl_append ..
  rcases timesAfter_cases (timesAfter t earlier) since file with
    ⟨hno, hkept⟩ | ⟨a, e, d, hsince, hupdate⟩
  · rw [happend, hkept]
    refine iff_of_false (not_not_intro rfl) ?_
    rintro ⟨⟨e, he, time, hupdate⟩, -⟩
    exact hno e he time hupdate
  · rw [← happend] at hupdate
    have hupdated : ∃ e ∈ since, ∃ time, e.update? = some (file, time) :=
      ⟨e, by rw [hsince]; simp, _, hupdate⟩
    cases hnow : timesAfter t (earlier ++ since) file with
    | none => simp [hupdated, ne_comm]
    | some time =>
      have hold : timesAfter t earlier file ≠ some time := by
        have hnth : (earlier ++ since)[(earlier ++ a).length]?.bind Event.update? =
            some (file, some time) := by
          rw [hnow] at hupdate
          simp [hsince, hupdate]
        have hnew := h (earlier ++ a).length (by simp [hsince]) _ hnth (Option.some_ne_none time)
          earlier.length (by simp)
        rwa [List.take_left] at hnew
      simp [hupdated, hold.symm]

/-! ## Looks -/

theorem scene_concat (o : Opening) (t : Times) (es : List Event) (e : Event) :
    scene o t (es ++ [e]) = (scene o t es).step o e :=
  List.foldl_concat (Scene.step o) _ e es

theorem times_scene (o : Opening) (t : Times) (es : List Event) :
    (scene o t es).times = timesAfter t es := by
  induction es using List.reverseRecOn with
  | nil => rfl
  | append_singleton es e ih =>
    rw [scene_concat, timesAfter_concat, ← ih]
    rfl

theorem update?_of_looks {s? : Option Session} (h : e.Looks s?) : e.update? = none := by
  cases e with
  | write path time => exact h.elim
  | remove path => exact h.elim
  | _ => rfl

theorem LastLook.eq_append (h : LastLook o t es earlier since) :
    ∃ look, es = earlier ++ [look] ++ since ∧ look.update? = none := by
  induction h with
  | @here es e hlooks => exact ⟨e, by simp, update?_of_looks hlooks⟩
  | @past es earlier since e _ _ ih =>
    obtain ⟨look, rfl, hupdate⟩ := ih
    exact ⟨look, by simp, hupdate⟩

/-- What an event does to the watch of a session.  Either the session looks at the
files, which are those of the new build if there is one, or the watch stays, and it
is the right one for a new build too. -/
theorem session_of_some (o : Opening) (stamps : Stamps) (s : Session) (e : Event) :
    ∃ s', e.session o stamps (some s) = some s' ∧
      (e.Looks (some s) ∧
          s'.watch = .start stamps (e.build?.elim s.watch.paths Build.watchedPaths) ∨
        ¬ e.Looks (some s) ∧ s'.watch = s.watch ∧
          ∀ b, e.build? = some b → Watch.samePaths b.watchedPaths s.watch.paths = true) := by
  cases e with
  | notice now => exact ⟨_, rfl, .inl ⟨Option.some_ne_none s, rfl⟩⟩
  | accept result =>
    cases result with
    | error e => exact ⟨_, rfl, .inr ⟨id, rfl, fun b hb => by cases hb⟩⟩
    | ok b =>
      refine ⟨_, rfl, ?_⟩
      cases hsame : Watch.samePaths b.watchedPaths s.watch.paths with
      | true =>
        refine .inr ⟨fun hlooks => ?_, if_pos hsame, ?_⟩
        · rw [hlooks s rfl] at hsame
          cases hsame
        · rintro b' ⟨⟩
          exact hsame
      | false =>
        refine .inl ⟨?_, if_neg (by simp [hsame])⟩
        rintro s' ⟨⟩
        exact hsame
  | _ => exact ⟨_, rfl, .inr ⟨id, rfl, fun b hb => by cases hb⟩⟩

theorem session_of_none (o : Opening) (stamps : Stamps) (e : Event) :
    e.build? = none ∧ e.session o stamps none = none ∨
      ∃ b s, e.build? = some b ∧ e.Looks none ∧ e.session o stamps none = some s ∧
        s.watch = .start stamps b.watchedPaths := by
  cases e with
  | accept result =>
    cases result with
    | error e => exact .inl ⟨rfl, rfl⟩
    | ok b => exact .inr ⟨b, _, rfl, fun s hs => (by cases hs), rfl, rfl⟩
  | _ => exact .inl ⟨rfl, rfl⟩

/-- The watch of a session knows the times of the last look, for the files of the last
build. -/
inductive Keeps (o : Opening) (t : Times) (es : List Event) :
    Option Build → Option Session → Prop where
  | idle : Keeps o t es none none
  | browsing {b : Build} {s : Session} {earlier since : List Event}
    (look : LastLook o t es earlier since)
    (seen_eq : s.watch.seen = s.watch.paths.map (timesAfter t earlier).stamps)
    (same : Watch.samePaths b.watchedPaths s.watch.paths = true) :
    Keeps o t es (some b) (some s)

theorem built?_concat (es : List Event) (e : Event) :
    built? (es ++ [e]) = e.build?.or (built? es) := by
  unfold built?
  rw [List.filterMap_append, List.getLast?_append]
  cases h : e.build? <;> simp [h]

theorem samePaths_self (paths : List String) : Watch.samePaths paths paths = true := by
  simp [Watch.samePaths]

theorem Keeps.concat (h : Keeps o t es (built? es) (scene o t es).session) (e : Event) :
    Keeps o t (es ++ [e]) (built? (es ++ [e])) (scene o t (es ++ [e])).session := by
  rw [built?_concat, scene_concat]
  change Keeps o t _ _ (e.session o (scene o t es).times.stamps (scene o t es).session)
  rw [times_scene]
  generalize hb : built? es = b?, hs : (scene o t es).session = s? at h
  cases h with
  | idle =>
    -- only a first build makes a difference, and it makes the session look
    obtain ⟨hnone, hsession⟩ | ⟨b, s, hbuild, hlooks, hsession, hwatch⟩ :=
      session_of_none o (timesAfter t es).stamps e
    · rw [hnone, hsession]
      exact .idle
    · rw [hbuild, hsession]
      rw [← hs] at hlooks
      refine .browsing (.here hlooks) ?_ ?_
      · rw [hwatch]
        rfl
      · rw [hwatch]
        exact samePaths_self _
  | @browsing b s earlier since look seen_eq same =>
    -- a new build leaves the watch alone only if it has the same files
    rw [Option.or_some]
    obtain ⟨s', hsession, ⟨hlooks, hwatch⟩ | ⟨hlooks, hwatch, hsame⟩⟩ :=
      session_of_some o (timesAfter t es).stamps s e
    · rw [← hs] at hlooks
      rw [hsession]
      refine .browsing (.here hlooks) ?_ ?_
      · rw [hwatch]
        rfl
      · rw [hwatch]
        cases e.build? with
        | none => exact same
        | some b' => exact samePaths_self _
    · rw [← hs] at hlooks
      rw [hsession]
      refine .browsing (.past look hlooks) ?_ ?_
      · rw [hwatch]
        exact seen_eq
      · rw [hwatch]
        cases hbuild : e.build? with
        | none => exact same
        | some b' => exact hsame b' hbuild

theorem keeps_scene (o : Opening) (t : Times) (es : List Event) :
    Keeps o t es (built? es) (scene o t es).session := by
  induction es using List.reverseRecOn with
  | nil => exact .idle
  | append_singleton es e ih => exact ih.concat e

/-! ## Checks -/

/-- A watch that has seen some times finds a change, if one of its files has another
time now. -/
theorem check_iff_exists_ne {w : Watch} {t' : Times} {paths : List String}
    (hseen : w.seen = w.paths.map t.stamps) (hsame : Watch.samePaths paths w.paths = true) :
    (w.check t'.stamps).1 = true ↔ ∃ path ∈ paths, t'.stamps path ≠ t.stamps path := by
  have hfiles : paths.map Path.components = w.paths.map Path.components := eq_of_beq hsame
  have hlists : ∀ t : Times, w.paths.map t.stamps = paths.map t.stamps := fun t => by
    have := congrArg (List.map t) hfiles
    rw [List.map_map, List.map_map] at this
    exact this.symm
  change (w.paths.map t'.stamps != w.seen) = true ↔ _
  rw [hseen, hlists, hlists, bne_iff_ne, Ne, List.map_inj_left]
  simp

theorem isPending_notice (s : Session) (stamps : Stamps) (now : Nat) :
    (s.notice stamps now).schedule.isPending =
      ((s.watch.check stamps).1 || s.schedule.isPending) := by
  change Schedule.isPending (if (s.watch.check stamps).1 then _ else _) = _
  cases (s.watch.check stamps).1 with
  | false => rfl
  | true =>
    change Schedule.isPending (s.schedule.fileChanged now) = true
    rw [Schedule.isPending, Schedule.deadline_fileChanged]
    rfl

end

/-- A check notices exactly the updates of files of the last build since the last look,
except for a file that was not there at that look and is not there now.  What is
noticed has a rebuild pending. -/
theorem check_eq_true_iff (o : Opening) (t : Times) (es : List Event) (b : Build)
    (hfresh : Fresh t es) (hb : built? es = some b) :
    ∃ s earlier since, (scene o t es).session = some s ∧ LastLook o t es earlier since ∧
      ((s.watch.check (timesAfter t es).stamps).1 = true ↔
        ∃ path ∈ b.watchedPaths, (∃ e ∈ since, e.Updates path) ∧
          ((timesAfter t earlier).stamps path ≠ none ∨ (timesAfter t es).stamps path ≠ none)) ∧
      ∀ now, (s.notice (timesAfter t es).stamps now).schedule.isPending =
        ((s.watch.check (timesAfter t es).stamps).1 || s.schedule.isPending) := by
  have hkeeps := keeps_scene o t es
  generalize hs : (scene o t es).session = s? at hkeeps
  rw [hb] at hkeeps
  cases hkeeps with
  | @browsing _ s earlier since look seen_eq same =>
    refine ⟨s, earlier, since, rfl, look, ?_, isPending_notice s _⟩
    rw [check_iff_exists_ne seen_eq same]
    refine exists_congr fun path => and_congr_right fun _ => ?_
    obtain ⟨l, rfl, hlook⟩ := look.eq_append
    have hthen : timesAfter t (earlier ++ [l]) = timesAfter t earlier := by
      rw [timesAfter_concat, times_of_none hlook]
    have hiff := hfresh.timesAfter_ne_iff (Path.components path)
    rw [hthen] at hiff
    exact hiff

/-! ## Runs of the session -/

/-- A session that rebuilds at once when a file is written. -/
def opening : Opening :=
  ⟨⟨"/m", ["tex"], true⟩, ⟨"/m"⟩, .onSaveOnly, none⟩

def allOld : Times :=
  fun _ => some 1

/-- Two files are read, and one of them is written after the session has begun. -/
def writtenLater : List Event := [
  .read "/m",
  .read "/a",
  .accept (.ok ⟨[], [⟨"/m"⟩, ⟨"/a"⟩]⟩),
  .write "/a" 2]

theorem check_writtenLater :
    Fresh allOld writtenLater ∧ built? writtenLater = some ⟨[], [⟨"/m"⟩, ⟨"/a"⟩]⟩ ∧
    ∃ s earlier since, (scene opening allOld writtenLater).session = some s ∧
      LastLook opening allOld writtenLater earlier since ∧
      (s.watch.check (timesAfter allOld writtenLater).stamps).1 = true ∧
      ∃ path ∈ ["/m", "/a"], (∃ e ∈ since, e.Updates path) ∧
        ((timesAfter allOld earlier).stamps path ≠ none ∨
          (timesAfter allOld writtenLater).stamps path ≠ none) := by
  have hfresh : Fresh allOld writtenLater := by decide +kernel
  have hbuilt : built? writtenLater = some ⟨[], [⟨"/m"⟩, ⟨"/a"⟩]⟩ := by decide +kernel
  obtain ⟨s, earlier, since, hs, hlook, hiff, -⟩ :=
    check_eq_true_iff opening allOld writtenLater _ hfresh hbuilt
  have hcheck : (scene opening allOld writtenLater).session.map
      (fun s => (s.watch.check (timesAfter allOld writtenLater).stamps).1) = some true := by
    decide +kernel
  rw [hs, Option.map_some, Option.some.injEq] at hcheck
  exact ⟨hfresh, hbuilt, s, earlier, since, hs, hlook, hcheck, hiff.1 hcheck⟩

/-- The last build has read the file, the file was updated afterwards, and the session
has not been asked to check its files since. -/
def Overdue (es : List Event) (path : String) : Prop :=
  ∃ a d e c, es = a ++ .read path :: d ++ e :: c ∧ e.Updates path ∧
    .read path ∉ d ++ e :: c ∧ ∀ now, .notice now ∉ c

/-- An update of a file of the last build is overdue, a check does not notice it, and
no rebuild is pending then. -/
structure Loses (o : Opening) (t : Times) (es : List Event) (path : String) : Prop where
  listed : (built? es).any (path ∈ ·.watchedPaths) = true
  overdue : Overdue es path
  unnoticed : (scene o t es).session.map (fun s =>
    (s.watch.check (timesAfter t es).stamps).1) = some false
  idle : ∀ now, (scene o t es).session.map (fun s =>
    (s.notice (timesAfter t es).stamps now).schedule.isPending) = some false

/-- The rebuild finds a second file, which is written after it was read and before the
session looks at it for the first time. -/
def lateLook : List Event := [
  .read "/m",
  .accept (.ok ⟨[], [⟨"/m"⟩]⟩),
  .write "/m" 2,
  .notice 0,
  .takeDue 0,
  .read "/m",
  .read "/a",
  .write "/a" 2,
  .accept (.ok ⟨[], [⟨"/m"⟩, ⟨"/a"⟩]⟩)]

/-- A file is missing when the session looks, is there when the rebuild reads it, and
is missing again. -/
def comeAndGone : List Event := [
  .read "/m",
  .read "/a",
  .accept (.ok ⟨[], [⟨"/m"⟩, ⟨"/a"⟩]⟩),
  .remove "/a",
  .notice 0,
  .takeDue 0,
  .write "/a" 2,
  .read "/m",
  .read "/a",
  .accept (.ok ⟨[], [⟨"/m"⟩, ⟨"/a"⟩]⟩),
  .remove "/a"]

theorem overdue_lateLook : Overdue lateLook "/a" :=
  ⟨lateLook.take 6, [], .write "/a" 2, lateLook.drop 8, rfl, ⟨_, rfl⟩,
    by simp [lateLook], by simp [lateLook]⟩

theorem overdue_comeAndGone : Overdue comeAndGone "/a" :=
  ⟨comeAndGone.take 8, [.accept (.ok ⟨[], [⟨"/m"⟩, ⟨"/a"⟩]⟩)], .remove "/a", [], rfl, ⟨_, rfl⟩,
    by simp, by simp⟩

theorem updates_lost :
    Fresh allOld lateLook ∧ Loses opening allOld lateLook "/a" ∧
    Fresh allOld comeAndGone ∧ Loses opening allOld comeAndGone "/a" := by
  refine ⟨by decide +kernel, ⟨by decide +kernel, overdue_lateLook, by decide +kernel, ?_⟩,
    by decide +kernel, ⟨by decide +kernel, overdue_comeAndGone, by decide +kernel, ?_⟩⟩
  all_goals
    intro now
    simp only [isPending_notice]
    decide +kernel

end Session
end Sectioning
