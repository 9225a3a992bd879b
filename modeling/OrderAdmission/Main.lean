import OrderAdmission.CommandLine.Program
import OrderAdmission.Identifier
import OrderAdmission.MemInfo
import Std.Time.DateTime.Timestamp

/-!
# The program

The program looks at its surroundings, runs, prints and exits.
-/
namespace OrderAdmission

open CommandLine (LogDirectory Surroundings Printed)

/-- The text of a file, if it can be read. -/
def fileText? (path : String) : IO (Option String) := do
  try return some (← IO.FS.readFile path) catch _ => return none

def readVariables : IO Variables := do
  let text := (← fileText? "/proc/self/environ").getD ""
  return (text.splitOn "\x00").filterMap fun entry =>
    match entry.splitOn "=" with
    | name :: value => if value.isEmpty then none else some (name, "=".intercalate value)
    | [] => none

/-- The settings files of a directory that are looked for. -/
def readFiles (vars : Variables) (directory : String) : IO Files := do
  let names := (settingsFiles vars).flatMap candidates
  names.filterMapM fun name => do
    return (← fileText? (directory ++ "/" ++ name)).map fun text => (name, text)

/-- The share of memory in use, if the report on it can be read. -/
def readMemory : IO Gauge := do
  match (← fileText? "/proc/meminfo").bind MemInfo.utilization with
  | some ratio => return .set ratio
  | none => return .empty

/-- Draws from a seed. -/
def chanceOf (seed : Nat) : Chance :=
  let draw (a b c : Nat) : Nat := (hash (seed, a, b, c)).toNat
  { number := fun i => draw i 0 0
    identifier := fun call i => Identifier.text (draw call i 1 * UInt64.size + draw call i 2) }

def tryDirectory (directory : String) : IO LogDirectory := do
  let probe := if directory.isEmpty then writeTest else directory ++ "/" ++ writeTest
  try
    IO.FS.writeFile probe ""
    IO.FS.removeFile probe
    return .ready
  catch e => return .notWritable (toString e)
where writeTest : String := ".order_gate_write_test"

def makeLogDirectory (directory : String) : IO LogDirectory := do
  try
    if !directory.isEmpty then IO.FS.createDirAll directory
    tryDirectory directory
  catch e => return .notCreated (toString e)

def lookAround (arguments : List String) : IO Surroundings := do
  let vars ← readVariables
  let request := CommandLine.read (vars.lookup CommandLine.configDirVariable) arguments
  let files ← match request with
    | .ok r => readFiles vars r.configDir
    | .error _ => pure []
  let logs ← match request.toOption.bind (CommandLine.logDirectory? (fun _ => files) vars) with
    | some directory => makeLogDirectory directory
    | none => pure .ready
  let now ← Std.Time.Timestamp.now
  return {
    files := fun _ => files, vars, wall := now.toMillisecondsSinceUnixEpoch.val
    memory := ← readMemory, chance := chanceOf (← IO.rand 0 0x4000000000000000),
    logs := fun _ => logs }

end OrderAdmission

open OrderAdmission in
def main (arguments : List String) : IO UInt32 := do
  let printed := CommandLine.run (← lookAround arguments) arguments
  IO.print printed.out
  IO.eprint printed.err
  return printed.code.toUInt32
