import OrderAdmission.Number.Digits

/-!
# Arguments

The command line has two levels. The first has the option `config` and names a command; the second
has the options of that command. An option is written by its long name or its letter, its value
behind an equals sign, right behind the letter or as the next argument. Two dashes end the options
of a level.

A value that stands in an argument of its own is *pending* until the next option or the end: only
then its form is looked at.
-/
namespace OrderAdmission.CommandLine

/-- Why arguments are not a request. -/
inductive ArgumentError where
  | helpWanted
  | versionWanted
  | unknownArgument
  | unknownCommand
  | missingValue
  | unreadableValue
  | repeatedOption
  | surplusValue
  | missingCommand
  | nothingGiven
  deriving DecidableEq, Repr

/-- The options that have a value. -/
inductive Setting where
  | config
  | orders
  | symbol
  deriving DecidableEq, Repr

namespace Setting

def name : Setting → String
  | config => "config"
  | orders => "orders"
  | symbol => "symbol"

def letter : Setting → Char
  | config => 'c'
  | orders => 'o'
  | symbol => 's'

/-- A number of orders, if it fits 64 bits. -/
def count? (value : String) : Option Nat := (Number.natural? value.toList).filter (· < UInt64.size)

/-- Whether a value is of the option's form. -/
def accepts (s : Setting) (value : String) : Bool :=
  match s with
  | orders => (count? value).isSome
  | _ => true

end Setting

/-- What a level of the command line has. -/
structure Level where
  settings : List Setting
  /-- Whether the version can be asked for. -/
  hasVersion : Bool
  /-- The commands that may follow. -/
  commands : List String

def commandNames : List String := ["check-config", "migrate", "dry-run"]

def helpCommand : String := "help"

def topLevel : Level :=
  { settings := [.config], hasVersion := true, commands := helpCommand :: commandNames }

def commandLevel (command : String) : Level :=
  { settings := if command = "dry-run" then [.orders, .symbol] else []
    hasVersion := false, commands := [] }

/-- How far a level has been read. -/
structure Progress where
  values : List (Setting × String)
  /-- The last option, if its value has not been looked at; it may still be without one. -/
  pending : Option (Setting × Option String)
  ended : Bool

namespace Progress

def start : Progress := { values := [], pending := none, ended := false }

/-- Whether the next argument is a value. -/
def awaitsValue (p : Progress) : Bool :=
  match p.pending with
  | some (_, none) => true
  | _ => false

def note (p : Progress) (s : Setting) (value : String) : Except ArgumentError Progress :=
  if (p.values.lookup s).isSome then .error .repeatedOption
  else if s.accepts value then .ok { p with values := p.values ++ [(s, value)], pending := none }
  else .error .unreadableValue

def settle (p : Progress) : Except ArgumentError Progress :=
  match p.pending with
  | none => .ok p
  | some (_, none) => .error .missingValue
  | some (s, some value) => p.note s value

/-- Takes an option with its value, if that is attached to it. -/
def take (p : Progress) (s : Setting) : Option String → Except ArgumentError Progress
  | some value => do (← p.settle).note s value
  | none => do return { ← p.settle with pending := some (s, none) }

/-- Takes a flag, which ends all reading. -/
def flag (p : Progress) (e : ArgumentError) : Except ArgumentError Progress := do
  let _ ← p.settle
  .error e

end Progress

namespace Level

/-- Takes a long option: its name, and its value if there is an equals sign. -/
def takeLong (l : Level) (p : Progress) (body : List Char) : Except ArgumentError Progress :=
  let name := String.ofList (body.takeWhile (· != '='))
  let value := match body.dropWhile (· != '=') with
    | [] => none
    | _ :: rest => some (String.ofList rest)
  match l.settings.find? fun s => s.name == name with
  | some s => p.take s value
  | none =>
    if name = "help" ∨ (name = "version" ∧ l.hasVersion) then
      if value.isSome then .error .surplusValue
      else p.flag (if name = "help" then .helpWanted else .versionWanted)
    else .error .unknownArgument

/-- Takes a short option: its letter, and its value if something follows. -/
def takeShort (l : Level) (p : Progress) (letter : Char) (rest : List Char) :
    Except ArgumentError Progress :=
  match l.settings.find? fun s => s.letter == letter with
  | some s =>
    p.take s (match rest with
      | [] => none
      | '=' :: value => some (String.ofList value)
      | value => some (String.ofList value))
  | none =>
    if letter = 'h' then p.flag .helpWanted
    else if letter = 'V' ∧ l.hasVersion then p.flag .versionWanted
    else .error .unknownArgument

/-- Why an argument that is no option cannot stand here. -/
def misplaced (l : Level) (p : Progress) (argument : String) : ArgumentError :=
  if l.commands.isEmpty ∨ (p.ended ∧ argument ∈ l.commands) then .unknownArgument
  else .unknownCommand

/-- Takes one argument that is not a command. -/
def take (l : Level) (p : Progress) (argument : String) : Except ArgumentError Progress :=
  let misplaced := .error (l.misplaced p argument)
  if p.ended then misplaced
  else
    match argument.toList with
    | ['-', '-'] => .ok { p with ended := true }
    | '-' :: '-' :: body => l.takeLong p body
    | '-' :: letter :: rest => l.takeShort p letter rest
    | _ =>
      match p.pending with
      | some (s, none) => .ok { p with pending := some (s, some argument) }
      | _ => misplaced

/-- Reads arguments up to a command or to their end: the progress, and the command with the
arguments behind it. -/
def read (l : Level) (p : Progress) :
    List String → Except ArgumentError (Progress × Option (String × List String))
  | [] => .ok (p, none)
  | argument :: rest =>
    if argument ∈ l.commands ∧ !p.ended ∧ !p.awaitsValue then .ok (p, some (argument, rest))
    else
      match l.take p argument with
      | .ok p => l.read p rest
      | .error e => .error e

end Level

inductive Command where
  | checkConfig
  | migrate
  | dryRun (orders : Nat) (symbol : String)
  deriving DecidableEq, Repr

/-- A request: what to do, and where the settings files are. -/
structure Request where
  configDir : String
  command : Command
  deriving DecidableEq, Repr

/-- The command of this name with the values of its options. -/
def commandOf (name : String) (values : List (Setting × String)) : Command :=
  match name with
  | "check-config" => .checkConfig
  | "migrate" => .migrate
  | _ =>
    .dryRun (((values.lookup .orders).bind Setting.count?).getD 120)
      ((values.lookup .symbol).getD "BTC-USD")

def readCommand (name : String) (arguments : List String) : Except ArgumentError Command := do
  let (p, _) ← (commandLevel name).read .start arguments
  return commandOf name (← p.settle).values

/-- Why a request for help is no request: it asks for help, unless it names something that is no
command. -/
def helpError (arguments : List String) : ArgumentError :=
  match arguments with
  | [] => .helpWanted
  | [name] => if name ∈ topLevel.commands then .helpWanted else .unknownCommand
  | _ => .unknownCommand

/-- Reads arguments. The directory of the settings files may also come from the surroundings. -/
def read (configDir : Option String) (arguments : List String) : Except ArgumentError Request := do
  match ← topLevel.read .start arguments with
  | (p, some (name, rest)) =>
    if name = helpCommand then .error (helpError rest)
    else
      let command ← readCommand name rest
      let values := (← p.settle).values
      return { configDir := ((values.lookup .config).or configDir).getD "config", command }
  | (p, none) =>
    let values := (← p.settle).values
    .error (if values.isEmpty ∧ configDir.isNone then .nothingGiven else .missingCommand)

end OrderAdmission.CommandLine
