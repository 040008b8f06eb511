/-
The arguments of the command line.

Options start with two hyphens.  The value of an option follows an equals sign or
is the next argument, which then may not start with a hyphen, unless it is the
hyphen alone.  Each option may stand once.  After two hyphens alone every argument
is a path.  Arguments are read from left to right, and the first fault counts.
-/
import Sectioning.Program.CursorArgument

namespace Sectioning

structure Arguments where
  /-- The path of the root file. -/
  path : Option String := none
  json : Bool := false
  interactive : Bool := false
  noFollow : Bool := false
  cursor : Option Position := none
  frequency : Option String := none
  settings : Option String := none

inductive ArgumentFault where
  | unexpected (argument : String)
  | unexpectedValue (option : String)
  | missingValue (option : String)
  | emptyValue (name : String)
  | repeated (option : String)
  | cursor (fault : CursorFault)
  | missingFile
  /-- Options that exclude each other. -/
  | conflict (first second : String)

namespace ArgumentFault

def message : ArgumentFault → String
  | unexpected argument => "unexpected argument '" ++ argument ++ "'"
  | unexpectedValue option => "option '" ++ option ++ "' takes no value"
  | missingValue option => "option '" ++ option ++ "' needs a value"
  | emptyValue name => "the value of '" ++ name ++ "' is empty"
  | repeated option => "option '" ++ option ++ "' is given more than once"
  | cursor fault => "bad value of '--cursor': " ++ fault.message
  | missingFile => "no FILE is given"
  | conflict first second => "option '" ++ first ++ "' excludes '" ++ second ++ "'"

end ArgumentFault

/-- What the user asks for. -/
inductive Request where
  | help
  | run (path : String) (arguments : Arguments)

namespace Arguments

/-- The options without a value. -/
inductive Flag where
  | json
  | interactive
  | noFollow
  deriving DecidableEq

/-- The options with a value. -/
inductive Setting where
  | cursor
  | frequency
  | settings
  deriving DecidableEq

namespace Flag

def name : Flag → String
  | json => "--json"
  | interactive => "--interactive"
  | noFollow => "--no-follow"

def ofName? (name : String) : Option Flag :=
  [json, interactive, noFollow].find? fun f => f.name == name

end Flag

namespace Setting

def name : Setting → String
  | cursor => "--cursor"
  | frequency => "--frequency"
  | settings => "--config"

def ofName? (name : String) : Option Setting :=
  [cursor, frequency, settings].find? fun s => s.name == name

end Setting

def once {α : Type} (name : String) (isSet : Bool) (a : α) : Except ArgumentFault α :=
  if isSet then .error (.repeated name) else .ok a

def setFlag (a : Arguments) : Flag → Except ArgumentFault Arguments
  | .json => once Flag.json.name a.json { a with json := true }
  | .interactive => once Flag.interactive.name a.interactive { a with interactive := true }
  | .noFollow => once Flag.noFollow.name a.noFollow { a with noFollow := true }

def setPath (a : Arguments) (path : String) : Except ArgumentFault Arguments :=
  if a.path.isSome then .error (.unexpected path)
  else if path = "" then .error (.emptyValue "FILE")
  else .ok { a with path := some path }

def setValue (a : Arguments) (s : Setting) (value : String) : Except ArgumentFault Arguments :=
  match s with
  | .cursor =>
    match CursorArgument.parse value with
    | .error fault => .error (.cursor fault)
    | .ok p => once s.name a.cursor.isSome { a with cursor := some p }
  | .frequency => once s.name a.frequency.isSome { a with frequency := some value }
  | .settings =>
    if value = "" then .error (.emptyValue s.name)
    else once s.name a.settings.isSome { a with settings := some value }

/-- Flags of one letter after one hyphen.  The result is nothing if help is asked
for. -/
def setShort (argument : String) :
    List Char → Arguments → Except ArgumentFault (Option Arguments)
  | [], a => .ok (some a)
  | c :: cs, a =>
    if c = 'h' then .ok none
    else if c = 'i' then
      match a.setFlag .interactive with
      | .error fault => .error fault
      | .ok a => setShort argument cs a
    else .error (.unexpected argument)

def startsWithHyphen (s : String) : Bool :=
  s.toList.head? == some '-'

/-- Whether an argument cannot be the value of an option before it. -/
def isNoValue (s : String) : Bool :=
  startsWithHyphen s && s != "-"

def readPaths : List String → Arguments → Except ArgumentFault Arguments
  | [], a => .ok a
  | path :: rest, a =>
    match a.setPath path with
    | .error fault => .error fault
    | .ok a => readPaths rest a

/-- The parts of an option before and after its first equals sign. -/
def splitOption (s : String) : String × Option String :=
  let cs := s.toList
  (String.ofList (cs.takeWhile (· != '=')), (cs.dropWhile (· != '=')).tail?.map String.ofList)

/-- Reads arguments from left to right.  The result is nothing if help is asked
for. -/
def read : List String → Arguments → Except ArgumentFault (Option Arguments)
  | [], a => .ok (some a)
  | argument :: rest, a =>
    if argument = "--" then
      match readPaths rest a with
      | .error fault => .error fault
      | .ok a => .ok (some a)
    else if "--".toList.isPrefixOf argument.toList then
      let (name, attached) := splitOption argument
      match Flag.ofName? name, Setting.ofName? name, attached with
      | some f, _, none =>
        match a.setFlag f with
        | .error fault => .error fault
        | .ok a => read rest a
      | some _, _, some _ => .error (.unexpectedValue name)
      | none, some s, some value =>
        match a.setValue s value with
        | .error fault => .error fault
        | .ok a => read rest a
      | none, some s, none =>
        match rest with
        | [] => .error (.missingValue name)
        | value :: rest =>
          if isNoValue value then .error (.missingValue name)
          else
            match a.setValue s value with
            | .error fault => .error fault
            | .ok a => read rest a
      | none, none, _ => if argument = "--help" then .ok none else .error (.unexpected argument)
    else if isNoValue argument then
      match setShort argument argument.toList.tail a with
      | .error fault => .error fault
      | .ok none => .ok none
      | .ok (some a) => read rest a
    else
      match a.setPath argument with
      | .error fault => .error fault
      | .ok a => read rest a

def parse (arguments : List String) : Except ArgumentFault Request :=
  match read arguments {} with
  | .error fault => .error fault
  | .ok none => .ok .help
  | .ok (some a) =>
    if a.json && a.interactive then
      .error (.conflict Flag.json.name Flag.interactive.name)
    else
      match a.path with
      | none => .error .missingFile
      | some path => .ok (.run path a)

end Arguments
end Sectioning
