/-
The command line.

The files that a run asks for are read before it starts: the settings, the root
file, and one after another the files that are included.  The run itself works on
what was found.
-/
import Sectioning.Files.Record
import Sectioning.Program.Run
import Sectioning.Program.Terminal
import Sectioning.View.Screen

namespace Sectioning
namespace CommandLine

/-- The number of an error of the operating system.  It may come with a minus
sign. -/
def errorNumber : IO.Error → Nat
  | .noFileOrDirectory _ code _ => code.toInt32.toInt.natAbs
  | .inappropriateType _ code _ => code.toInt32.toInt.natAbs
  | .invalidArgument _ code _ => code.toInt32.toInt.natAbs
  | _ => 0

def failureOf (e : IO.Error) : ReadFailure :=
  match errorNumber e with
  | 20 => .notDirectory
  | 21 => .isDirectory
  | 36 => .nameTooLong
  | _ => .notFound

/-- The canonical path of a file, if the system tells it. -/
def realPath? (path : String) : IO (Option String) := do
  try return some (toString (← IO.FS.realPath path))
  catch _ => return none

/-- Looks what is at a path. -/
def probe (path : String) : IO FileRecord := do
  try
    let bytes ← IO.FS.readBinFile path
    return ⟨path, ← realPath? path, (String.fromUTF8? bytes).elim (.error .notText) .ok⟩
  catch e => return ⟨path, none, .error (failureOf e)⟩

/-- What is known after a look at a path. -/
def learn (records : List FileRecord) (path : String) : IO (List FileRecord) := do
  if (FileRecord.find? records path).isSome then return records
  return (← probe path) :: records

/-- The inclusions of a document. -/
def inclusions (b : Buffer) : List Inclusion :=
  ((Source.ofBuffer b).entries.toOption.getD []).filterMap fun
    | .inclusion i => some i
    | _ => none

/-- Looks at the paths of an inclusion, up to the first with a file at it. -/
def learnFirst (records : List FileRecord) : List String → IO (List FileRecord)
  | [] => return records
  | path :: paths => do
    let records ← learn records path
    if (FileRecord.disk records).isFile path then return records
    learnFirst records paths

/-- Looks at everything that the documents at hand include, and so on. -/
partial def learnInclusions (p : Project) (records : List FileRecord) (met : List SourceId) :
    List Buffer → IO (List FileRecord)
  | [] => return records
  | b :: rest => do
    if b.id ∈ met then return ← learnInclusions p records met rest
    let mut records := records
    let mut found := []
    for i in inclusions b do
      let search := p.search (FileRecord.disk records)
      records ← learnFirst records (search.candidates i.path b.id)
      found := found ++ ((p.search (FileRecord.disk records)).resolve i.path b.id).toList
    learnInclusions p records (b.id :: met) (found ++ rest)

/-- Looks at all files of a project. -/
def learnProject (p : Project) (records : List FileRecord) : IO (List FileRecord) := do
  let records ← learn records p.path
  match (FileRecord.disk records).openBuffer p.path with
  | .error _ => return records
  | .ok root => if p.follow then learnInclusions p records [] [root] else return records

/-- Looks at all files that a request asks for. -/
def learnRequest : Request → IO (List FileRecord)
  | .help => return []
  | .run path a => do
    let records ← learn [] (a.settings.getD Settings.standardFile)
    match Run.project (FileRecord.disk records) path a with
    | .error _ => return records
    | .ok (p, _) => learnProject p records

/-- The size of the terminal, as far as the environment tells it. -/
def terminalSize : IO (Nat × Nat) := do
  let width := ((← IO.getEnv "COLUMNS").bind String.toNat?).getD 80
  let height := ((← IO.getEnv "LINES").bind String.toNat?).getD 24
  return (max 12 width, max 6 height)

def paint (output : IO.FS.Stream) (s : Session) : IO Unit := do
  let (width, height) ← terminalSize
  output.putStr (Terminal.showRows (Screen.draw s.view s.schedule.frequency width height))
  output.flush

/-- Looks at the files of a session again, and builds its outline anew if that is
due. -/
def refresh (s : Session) : IO Session := do
  let records ← learnProject s.project []
  let stamps := FileRecord.stamp? records
  let now ← IO.monoMsNow
  return (s.notice stamps now).rescan (FileRecord.disk records) stamps now

/-- Waits for a pending rebuild. -/
partial def settle (s : Session) : IO Session := do
  let s ← refresh s
  if s.schedule.isPending then
    IO.sleep (s.patience (← IO.monoMsNow)).toUInt32
    settle s
  else return s

partial def browse (input output : IO.FS.Stream) (s : Session) : IO Session := do
  paint output s
  let line ← input.getLine
  if line.isEmpty then return s
  let mut s := s
  for k in Terminal.keys line do
    let (next, goesOn) := s.press (← IO.monoMsNow) k
    s := next
    unless goesOn do return s
  browse input output (← settle s)

def finish (o : Outcome) : IO UInt32 := do
  (← IO.getStdout).putStr o.stdout
  (← IO.getStderr).putStr o.stderr
  return o.code.toUInt32

def run (arguments : List String) : IO UInt32 := do
  match Arguments.parse arguments with
  | .error fault => finish (.misuse fault)
  | .ok request =>
    let records ← learnRequest request
    match Run.ofRequest (FileRecord.disk records) (FileRecord.stamp? records) request with
    | .done o => finish o
    | .browse s =>
      let output ← IO.getStdout
      output.putStr Terminal.enter
      let s ← browse (← IO.getStdin) output s
      output.putStr Terminal.leave
      finish (.success s.farewell)

end CommandLine
end Sectioning

def main (arguments : List String) : IO UInt32 :=
  Sectioning.CommandLine.run arguments
