import OrderAdmission.CommandLine.Arguments
import OrderAdmission.CommandLine.Report
import OrderAdmission.Config.Layers
import OrderAdmission.DryRun
import OrderAdmission.Order.Sample
import OrderAdmission.Store.Pool

/-!
# The program as a function

The whole program as a function from its surroundings to what it prints and its exit code.

A request is to check the settings, to prepare the database, or to try the gate out: sample orders
are stored as pending, submitted to a dry run, and their fate is summed up.
-/
namespace OrderAdmission.CommandLine

/-- What came of making the directory for log files ready. -/
inductive LogDirectory where
  | ready
  | notCreated (reason : String)
  | notWritable (reason : String)
  deriving DecidableEq, Repr

namespace LogDirectory

def logFile : String := "order-gate.log"

def notice (directory : String) : LogDirectory → String
  | ready => s!"Logging to: {directory}/{logFile}"
  | notCreated reason =>
    s!"Warning: Could not create log directory {directory} ({reason}), file logging disabled"
  | notWritable reason =>
    s!"Warning: Could not write to log directory {directory} ({reason}), file logging disabled"

end LogDirectory

/-- What the program finds around it. -/
structure Surroundings where
  files : String → Files
  vars : Variables
  /-- The time of day in milliseconds. -/
  wall : Int
  memory : Gauge
  chance : Chance
  /-- What comes of making a directory for log files ready. -/
  logs : String → LogDirectory

structure Printed where
  code : Nat
  out : String
  err : String
  deriving DecidableEq, Repr

def version : String := "order-gate 0.1.0"

def usage : String :=
  printedLines
    ["Admission control and backpressure for bulk order submission", "",
     "Usage: order-gate [OPTIONS] <COMMAND>", "",
     "Commands:",
     "  check-config  Validate configuration",
     "  migrate       Prepare the database",
     "  dry-run       Submit synthetic orders without an execution service",
     "  help          Print this message", "",
     "Options:",
     "  -c, --config <CONFIG>  Configuration directory [default: config]",
     "  -h, --help             Print help",
     "  -V, --version          Print version"]

def configDirVariable : String := "ORDER_GATE_CONFIG_DIR"

/-- What arguments that are no request lead to. -/
def ArgumentError.printed : ArgumentError → Printed
  | .helpWanted => { code := 0, out := usage, err := "" }
  | .versionWanted => { code := 0, out := printedLines [version], err := "" }
  | _ => { code := 2, out := "", err := usage }

def failing (out : String) (e : GateError) : Printed :=
  { code := 1, out, err := printedLines ["Error: " ++ e.inFull] }

def crashing (out : String) : Printed := { code := 101, out, err := printedLines ["crashed"] }

def ending (out : String) : Except GateError Unit → Printed
  | .ok () => { code := 0, out, err := "" }
  | .error e => failing out e

def databaseOf (c : AppConfig) : Except GateError DatabaseConfig :=
  match c.database with
  | some db => .ok db
  | none => .error (.invalid (.stated "no [database] section configured"))

def migrate (c : AppConfig) : Printed :=
  match databaseOf c with
  | .error e => failing "" e
  | .ok db => ending (printedLines [green "✓ Migrations applied"]) (db.connect.map fun _ => ())

/-- Why a dry run is refused before it begins: problems of the settings, a service that is not
there, or a database that does not answer. -/
def dryRunError? (c : AppConfig) : Option GateError :=
  if !c.isValid then some c.problemsError
  else if !c.dryRun.enabled then
    some (.invalid (.stated "dry_run.enabled is false and no live transport is configured"))
  else
    match c.database with
    | none => none
    | some db => match db.connect with
      | .error e => some e
      | .ok _ => none

/-- What a refused submission prints first: how long to wait, if that is known. -/
def rejection (e : GateError) : String :=
  match e.retryAfter with
  | some secs => printedLines [s!"Rejected: {e.message} (retry after {secs}s)"]
  | none => ""

/-- Submits orders to a gate whose service is a dry run, after storing them as pending. -/
def submitDry (s : Surroundings) (c : AppConfig) (orders : List Order) : Printed :=
  let table := (Table.register [] orders).1
  match Engine.forOrders c (DryRun.service c.dryRun s.chance) (.table 0) none table s.wall with
  | .error _ => crashing ""
  | .ok e =>
    let memory := if c.overload.samplesMemory then s.memory else .empty
    match ({ e with memory }.performOne (.process orders)).2 with
    | some (.ok (.ok (.batch result))) => { code := 0, out := result.summary, err := "" }
    | some (.ok (.error e)) => failing (rejection e) e
    | _ => crashing ""

/-- Tries the gate out, without a word about log files. -/
def dryRunUnlogged (s : Surroundings) (c : AppConfig) (count : Nat) (symbol : String) : Printed :=
  match dryRunError? c with
  | some e => failing "" e
  | none =>
    match Order.sample s.wall (s.chance.identifier 0) count symbol with
    | .error _ => crashing ""
    | .ok orders => submitDry s c orders

/-- Tries the gate out. If log files are asked for, it is said first what came of that. -/
def dryRun (s : Surroundings) (c : AppConfig) (count : Nat) (symbol : String) : Printed :=
  let printed := dryRunUnlogged s c count symbol
  match c.logging.dir with
  | some dir => { printed with err := printedLines [(s.logs dir).notice dir] ++ printed.err }
  | none => printed

/-- The directory for log files that a request asks for. -/
def logDirectory? (files : String → Files) (vars : Variables) (r : Request) : Option String :=
  match r.command with
  | .dryRun _ _ => (AppConfig.load? (files r.configDir) vars).bind (·.logging.dir)
  | _ => none

def perform (s : Surroundings) (r : Request) : Printed :=
  match AppConfig.load? (s.files r.configDir) s.vars with
  | none => failing "" (.configuration "settings cannot be read")
  | some c =>
    match r.command with
    | .checkConfig =>
      let (out, result) := c.report
      ending out result
    | .migrate => migrate c
    | .dryRun count symbol => dryRun s c count symbol

def run (s : Surroundings) (arguments : List String) : Printed :=
  match read (s.vars.lookup configDirVariable) arguments with
  | .error e => e.printed
  | .ok r => perform s r

end OrderAdmission.CommandLine
