import OrderAdmission.Text.Blank
import OrderAdmission.Number.Binary

/-!
# Memory reports

The share of memory in use, from the text of a memory report.

The report has one quantity a line, a name and a number. Two lines count, the total and the
available memory. Lines are read from the top until both are known; a line with one of the two
names and no readable number makes that quantity unknown again.
-/
namespace OrderAdmission.MemInfo

/-- The two quantities, as far as they are known. -/
structure Found where
  total : Option Nat
  available : Option Nat
  deriving DecidableEq, Repr

/-- The number in a word, if it fits 64 bits. -/
def word? (w : Option (List Char)) : Option Nat :=
  match w with
  | some cs => (Number.natural? cs).filter (· < UInt64.size)
  | none => none

/-- What is known after one more line. -/
def Found.line (f : Found) (cs : List Char) : Found :=
  match Text.words cs with
  | [] => f
  | key :: rest =>
    if key = "MemTotal:".toList then { f with total := word? rest.head? }
    else if key = "MemAvailable:".toList then { f with available := word? rest.head? }
    else f

/-- What is known after reading lines until both quantities are. -/
def scan : List (List Char) → Found → Found
  | [], f => f
  | line :: rest, f =>
    let f := f.line line
    if f.total.isSome && f.available.isSome then f else scan rest f

/-- The share in use: one less the available share, where no more is available than there is. -/
def utilization (report : String) : Option Float :=
  match scan (Text.lines report.toList) ⟨none, none⟩ with
  | ⟨some total, some available⟩ =>
    if 0 < total then
      some (1.0 - Number.ofWord (min available total) / Number.ofWord total)
    else none
  | _ => none

end OrderAdmission.MemInfo
