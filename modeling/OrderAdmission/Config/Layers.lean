import OrderAdmission.Config.Coercion
import OrderAdmission.Json.Reader
import OrderAdmission.Toml.Reader

/-!
# Layers of settings

Settings from layered sources: a file for all environments, a file for the environment at hand, and
variables of the surroundings. A later layer wins over an earlier one key by key; lists are replaced
as a whole.
-/
namespace OrderAdmission

/-! ### Laying documents over each other -/

namespace Json

/-- The members of an object; other documents have none. -/
def membersOf : Json → List (String × Json)
  | obj members => members
  | _ => []

mutual

/-- Lays a value over what an object has under a name. Objects are laid over each other member by
member, anything else is replaced. What is no object counts as an empty one, and names are put in
small letters. -/
def overlay (root : Json) (name : String) : Json → Json
  | obj incoming =>
    let name := Text.lower name
    let target := ((membersOf root).lookup name).getD (obj [])
    obj (putMember name (overlayMembers target incoming) (membersOf root))
  | value => obj (putMember (Text.lower name) value (membersOf root))

/-- Lays members over those of a document. -/
def overlayMembers (target : Json) : List (String × Json) → Json
  | [] => target
  | (name, value) :: rest => overlayMembers (overlay target name value) rest

end

/-- The items of a list; other documents have none. -/
def itemsOf : Json → List Json
  | arr items => items
  | _ => []

/-- One step of a path: to a member of an object, or to an item of a list. Items are counted from
the front, or from the back where the number is negative. -/
inductive PathStep where
  | member (name : String)
  | item (index : Int)
  deriving DecidableEq, Repr

/-- The place of an item in a list of this length. -/
def placeOf (index : Int) (length : Nat) : Nat :=
  if index < 0 then length - index.natAbs else index.toNat

/-- What stands one step from a document, `null` where nothing does. -/
def after (root : Json) : PathStep → Json
  | .member name => ((membersOf root).lookup name).getD null
  | .item index => (itemsOf root)[placeOf index (itemsOf root).length]?.getD null

/-- A document with something else one step from it. A document that has no such step becomes an
object or a list, and a list is filled up with `null`. -/
def withAfter (root value : Json) : PathStep → Json
  | .member name => obj (putMember name value (membersOf root))
  | .item index =>
    let items := itemsOf root
    let place := placeOf index items.length
    arr ((items ++ List.replicate (place + 1 - items.length) null).set place value)

/-- Lays a value over what stands at a path. At the end of the path only a member is laid over, an
item is replaced. -/
def overlayAt (root : Json) (value : Json) : List PathStep → Json
  | [] => root
  | [.member name] => overlay root name value
  | [step] => root.withAfter value step
  | step :: path => root.withAfter (overlayAt (root.after step) value path) step

mutual

/-- A document with every integer that does not fit a signed word made a binary number. -/
def withSigned : Json → Json
  | int n => if n ≤ maxSigned then int n else float (Number.ofWord n.toNat)
  | arr items => arr (withSignedItems items)
  | obj members => obj (withSignedMembers members)
  | j => j

def withSignedItems : List Json → List Json
  | [] => []
  | j :: rest => withSigned j :: withSignedItems rest

def withSignedMembers : List (String × Json) → List (String × Json)
  | [] => []
  | (name, j) :: rest => (name, withSigned j) :: withSignedMembers rest

end

end Json

/-! ### Files -/

/-- The texts of files under their names. -/
abbrev Files := List (String × String)

inductive SettingsFormat where
  | toml
  | json
  deriving DecidableEq, Repr

namespace SettingsFormat

def all : List SettingsFormat := [toml, json]

def ending : SettingsFormat → String
  | toml => "toml"
  | json => "json"

def read? : SettingsFormat → String → Option (List (String × Json))
  | toml, text =>
    match Toml.read? text with
    | some (.obj members) => some members
    | _ => none
  | json, text =>
    match (Json.read? text).map Json.withSigned with
    | some (.obj members) => some members
    | _ => none

end SettingsFormat

/-- The ending of a file's name: what follows its last point, unless the point stands first. -/
def nameEnding (name : String) : String :=
  let cs := name.toList
  let back := cs.reverse.takeWhile (· != '.')
  if back.length + 1 < cs.length then String.ofList back.reverse else ""

/-- The names under which a settings file is looked for: the name itself, then the name with each of
the known endings. -/
def candidates (name : String) : List String :=
  name :: SettingsFormat.all.map fun f => name ++ "." ++ f.ending

/-- Finds a settings file and its format. A file of the very name is taken only if its format is
known, and no other file is looked for then. -/
def findFile? (files : Files) (name : String) : Option (String × SettingsFormat) :=
  if name.isEmpty then none
  else
    match files.lookup name with
    | some text =>
      (SettingsFormat.all.find? fun f => f.ending == nameEnding name).map fun f => (text, f)
    | none =>
      SettingsFormat.all.findSome? fun f =>
        (files.lookup (name ++ "." ++ f.ending)).map fun text => (text, f)

/-! ### Variables of the surroundings -/

/-- The variables of the surroundings under their names. -/
abbrev Variables := List (String × String)

def variableStart : String := "order_gate__"

/-- A name with a point for every two underscores. -/
def pointed : List Char → List Char
  | '_' :: '_' :: rest => '.' :: pointed rest
  | c :: rest => c :: pointed rest
  | [] => []

/-- The key of a setting that a variable holds, if it holds one. Its name is read in small
letters. -/
def variableKey? (name : String) : Option String :=
  let cs := (Text.lower name).toList
  let start := variableStart.toList
  if cs.take start.length = start then some (String.ofList (pointed (cs.drop start.length)))
  else none

/-- What a variable's text says: a truth value, a whole number, a binary number or a text,
whichever comes first. -/
def variableValue (text : String) : Json :=
  if Text.lower text = "true" then .bool true
  else if Text.lower text = "false" then .bool false
  else
    match (Number.integer? text.toList).filter (fun n => minSigned ≤ n ∧ n ≤ maxSigned) with
    | some n => .int n
    | none =>
      match Number.float? text.toList with
      | some x => .float x
      | none => .str text

/-! ### All layers -/

/-- Whether a character may stand in a part of a path. -/
def isPathChar (c : Char) : Bool := c.isAlphanum || c == '_' || c == '-' || c == ' '

/-- A step to a member, the characters before the next point or bracket. -/
def memberStep? (cs : List Char) : Option (Json.PathStep × List Char) :=
  let name := cs.takeWhile isPathChar
  if name.isEmpty then none else some (.member (String.ofList name), cs.drop name.length)

/-- A step to an item, behind its bracket. -/
def itemStep? (cs : List Char) : Option (Json.PathStep × List Char) :=
  let isSpace (c : Char) : Bool := c == ' ' || c == '\t'
  let body := cs.dropWhile isSpace
  let number := body.takeWhile fun c => c.isDigit || c == '-'
  match (body.drop number.length).dropWhile isSpace with
  | ']' :: rest => (Number.integer? number).map fun n => (.item n, rest)
  | _ => none

/-- The steps behind the first one of a path. -/
def furtherSteps? : Nat → List Char → Option (List Json.PathStep)
  | _, [] => some []
  | 0, _ => none
  | fuel + 1, c :: cs => do
    let (step, rest) ← if c = '.' then memberStep? cs else if c = '[' then itemStep? cs else none
    return step :: (← furtherSteps? fuel rest)

/-- The path that a key says: names between points, and numbers in brackets. A key that is no such
path is one name. -/
def pathOf (key : String) : List Json.PathStep :=
  let steps := do
    let (step, rest) ← memberStep? key.toList
    return step :: (← furtherSteps? rest.length rest)
  steps.getD [.member key]

/-- Lays a setting over settings. -/
def withSetting (root : Json) (setting : String × Json) : Json :=
  root.overlayAt setting.2 (pathOf setting.1)

/-- Lays the settings of a file over others, if there is such a file; a malformed one is
refused. -/
def withFile (files : Files) (root : Json) (name : String) : Option Json :=
  match findFile? files name with
  | none => some root
  | some (text, format) => (format.read? text).map fun ms => ms.foldl withSetting root

def variableSettings (vars : Variables) : List (String × Json) :=
  vars.filterMap fun (name, text) =>
    (variableKey? name).map fun key => (key, variableValue text)

/-- The variable that names the environment, and the environment without it. -/
def environmentVariable : String := "ORDER_GATE_ENV"

def defaultEnvironment : String := "development"

/-- The names of the settings files, in the order of their layers. -/
def settingsFiles (vars : Variables) : List String :=
  ["default.toml", (vars.lookup environmentVariable).getD defaultEnvironment]

/-- The settings below all layers. -/
def lowestLayer : Json :=
  .obj [("logging", .obj [("level", .str "info"), ("json", .bool false)])]

def layers? (files : Files) (vars : Variables) : Option Json :=
  ((settingsFiles vars).foldlM (withFile files) lowestLayer).map fun root =>
    (variableSettings vars).foldl withSetting root

/-- Loads the settings. A malformed file is refused, and so is a value that stands for nothing of
its setting's kind. -/
def AppConfig.load? (files : Files) (vars : Variables) : Option AppConfig :=
  (layers? files vars).bind (AppConfig.ofJson? .lenient)

end OrderAdmission
