/-
What the user prefers.

Settings are read from a TOML text with three keys, all of which may be missing.
A key must have a value of its own type.  Other keys do not count.
-/
import Sectioning.Files.Disk
import Sectioning.Settings.Toml.Document
import Sectioning.Update.Frequency

namespace Sectioning

structure Settings where
  /-- The label of a frequency, as written. -/
  updateFrequency : String
  /-- Whether inclusions are followed. -/
  followInclusions : Bool
  /-- The extensions that the name of a document may lack. -/
  fileExtensions : List String
  deriving DecidableEq

namespace Settings

def standard : Settings :=
  ⟨"Medium", true, ["tex"]⟩

/-- The file that is read when none is named. -/
def standardFile : String := "latex-outline.toml"

def malformed {α : Type} : Except Error α :=
  .error (.settings .malformed)

def string : Toml.Value → Except Error String
  | .string s => .ok s
  | _ => malformed

def boolean : Toml.Value → Except Error Bool
  | .boolean b => .ok b
  | _ => malformed

def strings : Toml.Value → Except Error (List String)
  | .array values => values.mapM string
  | _ => malformed

/-- The value of a key, or the standard one if the key is missing. -/
def read {α : Type} (entries : Toml.Entries) (key : String) (convert : Toml.Value → Except Error α)
    (standard : α) : Except Error α :=
  match entries.get? key with
  | none => .ok standard
  | some v => convert v

def ofEntries (entries : Toml.Entries) : Except Error Settings := do
  let frequency ← read entries "update_frequency" string standard.updateFrequency
  let follow ← read entries "follow_inclusions" boolean standard.followInclusions
  let extensions ← read entries "file_extensions" strings standard.fileExtensions
  return ⟨frequency, follow, extensions⟩

def ofToml (text : String) : Except Error Settings :=
  match Toml.parse? text with
  | none => malformed
  | some entries => ofEntries entries

def frequency (s : Settings) : Except Error Frequency :=
  Frequency.ofLabel s.updateFrequency

/-- The settings of the standard file if it can be read, and the standard settings
otherwise.  `parse` reads a text as settings. -/
def loadWith (parse : String → Except Error Settings) (disk : Disk) : Settings :=
  match disk.read standardFile with
  | .error _ => standard
  | .ok text =>
    match parse text with
    | .error _ => standard
    | .ok s => s

/-- The settings of a file that the user names.  Its frequency must be known. -/
def loadFromWith (parse : String → Except Error Settings) (disk : Disk) (path : String) :
    Except Error Settings :=
  match disk.read path with
  | .error failure => .error (.read path failure)
  | .ok text =>
    match parse text with
    | .error e => .error e
    | .ok s =>
      match Frequency.ofLabel? s.updateFrequency with
      | none => .error (.settings (.unknownFrequency s.updateFrequency))
      | some _ => .ok s

def load (disk : Disk) : Settings :=
  loadWith ofToml disk

def loadFrom (disk : Disk) (path : String) : Except Error Settings :=
  loadFromWith ofToml disk path

end Settings
end Sectioning
