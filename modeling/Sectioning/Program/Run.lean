/-
The program as a whole, from its arguments to what it prints.
-/
import Sectioning.Outline.Drawing
import Sectioning.Outline.Json
import Sectioning.Program.Arguments
import Sectioning.Program.Session
import Sectioning.Settings.Basic

namespace Sectioning

/-- What a run of the program leaves behind. -/
structure Outcome where
  code : Nat
  stdout : String
  stderr : String
  deriving DecidableEq

/-- A run that has ended, or one that the user browses on. -/
inductive Run where
  | done (outcome : Outcome)
  | browse (session : Session)

namespace Outcome

def success (stdout : String) : Outcome :=
  ⟨0, stdout, ""⟩

/-- The line in which the program tells an error. -/
def complaint (message : String) : String :=
  "latex-outline: " ++ message ++ "\n"

def failure (e : Error) : Outcome :=
  ⟨1, "", complaint e.message⟩

def misuse (fault : ArgumentFault) : Outcome :=
  ⟨2, "", complaint fault.message⟩

end Outcome

namespace Run

def usage : String :=
  "\n".intercalate
    ["Section outline of a LaTeX document, across \\input and \\include",
      "",
      "Usage: latex-outline [OPTIONS] <FILE>",
      "",
      "Arguments:",
      "  <FILE>  Root document of the outline",
      "",
      "Options:",
      "      --json                  Print the outline nodes as JSON",
      "      --cursor <LINE:COLUMN>  Mark the heading enclosing this position of the root file (1-based)",
      "  -i, --interactive           Browse the outline interactively, rescanning as files change",
      "      --no-follow             Do not descend into \\include and \\input",
      "      --frequency <LABEL>     Rescan frequency: High, Medium, Low or \"On Save Only\"",
      "      --config <PATH>         Configuration file (defaults to latex-outline.toml when present)",
      "  -h, --help                  Print help",
      ""]

/-- The settings, where the arguments come before the file. -/
def settings (disk : Disk) (a : Arguments) : Except Error Settings := do
  let base ← match a.settings with
    | some path => Settings.loadFrom disk path
    | none => .ok (Settings.load disk)
  return { base with
    followInclusions := base.followInclusions && !a.noFollow
    updateFrequency := a.frequency.getD base.updateFrequency }

/-- The outline as it is printed. -/
def printed (a : Arguments) (path : String) (root : SourceId) (o : Outline) : Outcome :=
  if a.json then .success (JsonText.ofHeadings o.headings ++ "\n")
  else if o.isEmpty then ⟨0, "", "No headings found in " ++ path ++ "\n"⟩
  else .success (o.render (a.cursor.bind (o.headingAt? root)))

/-- The project that the user asks for, and how often it is built again. -/
def project (disk : Disk) (path : String) (a : Arguments) : Except Error (Project × Frequency) := do
  let s ← settings disk a
  let frequency ← s.frequency
  return (⟨path, s.fileExtensions, s.followInclusions⟩, frequency)

/-- Runs the program for a root file, up to the point where the user browses. -/
def start (disk : Disk) (stamps : Stamps) (path : String) (a : Arguments) : Except Error Run := do
  let (p, frequency) ← project disk path a
  let root ← disk.openBuffer path
  let b ← p.buildFrom disk root
  return if a.interactive then .browse (.start p root.id b stamps frequency a.cursor)
    else .done (printed a path root.id (.ofHeadings b.headings))

def ofRequest (disk : Disk) (stamps : Stamps) : Request → Run
  | .help => .done (.success usage)
  | .run path a =>
    match start disk stamps path a with
    | .ok r => r
    | .error e => .done (.failure e)

/-- Runs the program on its arguments. -/
def ofArguments (disk : Disk) (stamps : Stamps) (arguments : List String) : Run :=
  match Arguments.parse arguments with
  | .error fault => .done (.misuse fault)
  | .ok request => ofRequest disk stamps request

/-- The outcome of a run in which the user presses keys. -/
def playKeys (disk : Disk) (stamps : Stamps) (keys : List Key) : Run → Outcome
  | .done outcome => outcome
  | .browse session => .success (session.play disk stamps 0 keys).farewell

end Run
end Sectioning
