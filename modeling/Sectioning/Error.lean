/-
What can go wrong, as causes, and how each cause is worded.
-/
import Sectioning.Text.Buffer

namespace Sectioning

/-- Why a file cannot be read as text. -/
inductive ReadFailure where
  | notFound
  | notDirectory
  | isDirectory
  | nameTooLong
  | notText
  deriving DecidableEq

namespace ReadFailure

def message : ReadFailure → String
  | notFound => "No such file or directory (os error 2)"
  | notDirectory => "Not a directory (os error 20)"
  | isDirectory => "Is a directory (os error 21)"
  | nameTooLong => "File name too long (os error 36)"
  | notText => "stream did not contain valid UTF-8"

end ReadFailure

/-- What is wrong with a settings file. -/
inductive SettingsFault where
  /-- It is no TOML, or a key has a value of the wrong type. -/
  | malformed
  | unknownFrequency (label : String)
  deriving DecidableEq

inductive Error where
  | read (path : String) (failure : ReadFailure)
  /-- A source does not hand out a stretch of its own text. -/
  | rangeOutOfBounds (source : SourceId) (range : Range)
  | settings (fault : SettingsFault)
  | unknownFrequency (label : String)
  deriving DecidableEq

namespace Error

def unknownFrequencyText (label : String) : String :=
  "unknown update frequency '" ++ label ++ "'"

def message : Error → String
  | read path failure => "cannot read '" ++ path ++ "': " ++ failure.message
  | rangeOutOfBounds source range =>
    "range " ++ range.render ++ " lies outside source '" ++ source.name ++ "'"
  | settings .malformed => "invalid configuration"
  | settings (.unknownFrequency label) =>
    "invalid configuration: " ++ unknownFrequencyText label
  | unknownFrequency label => unknownFrequencyText label

end Error
end Sectioning
