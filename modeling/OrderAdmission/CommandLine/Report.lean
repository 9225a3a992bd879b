import OrderAdmission.Batch
import OrderAdmission.Config.Problem

/-!
# Printed reports

What the program prints: the report on the settings, the summary of a batch, and an error in full
when the program ends with one.
-/
namespace OrderAdmission

/-! ### The settings -/

/-- A text in a colour of the terminal. -/
def coloured (colour text : String) : String := "\x1b[" ++ colour ++ "m" ++ text ++ "\x1b[0m"

def red : String → String := coloured "31"

def green : String → String := coloured "32"

/-- Lines, each with its ending. -/
def printedLines (lines : List String) : String := String.join (lines.map (· ++ "\n"))

def onOff (b : Bool) : String := if b then "on" else "off"

namespace AppConfig

def overview (c : AppConfig) : List String :=
  [s!"  executor:  chunk {c.executor.chunkSize} | concurrency {c.executor.maxConcurrency} | " ++
      s!"permit wait {c.executor.permitTimeout}ms | task wait {c.executor.taskTimeout}ms",
   s!"  breaker:   {c.breaker.failureThreshold} failures | " ++
      s!"recovery {c.breaker.recoveryTimeout}ms | " ++
      s!"critical pool {Number.wholeText (c.breaker.criticalPoolUtilization * 100.0)}%",
   s!"  fallback:  bulk {onOff c.fallback.bulkEnabled} | individual {onOff c.fallback.enabled} " ++
      s!"(max {c.fallback.maxIndividualOrders}) | {c.fallback.retry.maxRetries} retries",
   match c.database with
   | some db => s!"  database:  {db.maxConnections} connections"
   | none => "  database:  in-memory store"]

def problemsError (c : AppConfig) : GateError :=
  .invalid (.stated ("; ".intercalate (c.problems.map (·.text))))

/-- Checks settings: what is printed, and the error if they have a problem. -/
def report (c : AppConfig) : String × Except GateError Unit :=
  if c.isValid then (printedLines (green "✓ Configuration valid" :: c.overview), .ok ())
  else (printedLines (c.problems.map fun p => red ("✗ " ++ p.text)), .error c.problemsError)

end AppConfig

/-! ### A batch -/

namespace BatchResult

variable {R : Type}

def summaryLimit : Nat := 100

/-- A number with blanks behind it up to a width of four. -/
def column (n : Nat) : String :=
  let ds := Number.digits n
  String.ofList (ds ++ List.replicate (4 - ds.length) ' ')

/-- The summary of a batch: its counts, and the failures among its first outcomes. -/
def summary (r : BatchResult R) : String :=
  let failures := (r.outcomes.take summaryLimit).zipIdx.filterMap fun (o, i) => match o with
    | .failure reason => some s!"  #{column i} {reason}"
    | _ => none
  printedLines
    (s!"Submitted {r.size} orders: {r.successCount} succeeded, {r.failureCount} failed" ::
      failures)

end BatchResult

/-! ### Errors in full -/

def part (name value : String) : String := name ++ ": " ++ value

def record (name : String) (parts : List String) : String :=
  name ++ " \x7b " ++ ", ".intercalate parts ++ " \x7d"

/-- A value with one part that has no name. -/
def wrapped (name value : String) : String := name ++ "(" ++ value ++ ")"

/-- A character as it stands between quotes in an error in full. Of the characters that cannot be printed,
the control characters are told by their number. -/
def shown (c : Char) : List Char :=
  if c = '"' then ['\\', '"']
  else if c = '\\' then ['\\', '\\']
  else if c = '\n' then ['\\', 'n']
  else if c = '\r' then ['\\', 'r']
  else if c = '\t' then ['\\', 't']
  else if c = '\x00' then ['\\', '0']
  else if c.toNat < 32 ∨ (127 ≤ c.toNat ∧ c.toNat < 160) then
    ['\\', 'u', '\x7b'] ++ Nat.toDigits 16 c.toNat ++ ['\x7d']
  else [c]

def shownText (s : String) : String := String.ofList ('"' :: (s.toList.flatMap shown ++ ['"']))

def DatabaseError.inFull : DatabaseError → String
  | unexpectedData what => wrapped "Protocol" (shownText what)
  | addressWithoutScheme => wrapped "Configuration" "RelativeUrlWithoutBase"
  | noConnection => "PoolTimedOut"
  | poolClosed => "PoolClosed"

/-- The name of a failure's class as a part of an error. -/
def FailureClass.title : FailureClass → String
  | connectivity => "Connectivity"
  | timeout => "Timeout"
  | unavailable => "Unavailable"
  | other => "Other"

def DownstreamFailure.inFull (f : DownstreamFailure) : String :=
  let status := match f.status with
    | some code => wrapped "Some" (Number.natText code)
    | none => "None"
  record "DownstreamFailure"
    [part "status" status, part "class" f.kind.title, part "message" (shownText f.message)]

def GateError.inFull : GateError → String
  | overloaded secs => record "Overloaded" [part "retry_after_secs" (Number.natText secs)]
  | circuitOpen n secs =>
    record "CircuitOpen"
      [part "failure_count" (Number.natText n), part "retry_after_secs" (Number.natText secs)]
  | permitTimeout ms => record "PermitTimeout" [part "waited_ms" (Number.natText ms)]
  | downstream f retryable =>
    record "Downstream"
      [part "source" f.inFull, part "retryable" (if retryable then "true" else "false")]
  | versionConflict id v =>
    record "OptimisticLockConflict"
      [part "order_id" (Number.intText id), part "expected_version" (Number.intText v)]
  | rowCount id n =>
    record "PersistenceInvariant"
      [part "order_id" (Number.intText id), part "affected" (Number.natText n)]
  | database reason => wrapped "Database" reason.inFull
  | migration reason => wrapped "Migration" (shownText reason)
  | configuration reason => wrapped "Config" (shownText reason)
  | invalid reason => wrapped "Validation" (shownText reason.text)
  | timeout what => wrapped "Timeout" (shownText what)
  | io reason => wrapped "Io" (shownText reason)
  | internal reason => wrapped "Internal" (shownText reason)
  | other reason => wrapped "Other" (shownText reason)

end OrderAdmission
