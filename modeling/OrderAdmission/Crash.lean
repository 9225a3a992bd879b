/-!
# Crashes

How a piece of work can break off without an answer.

Most failures of an admission are values of `GateError`. A *crash* is something else: the work
stops in the middle and has nothing to return. It has two causes, a number that left the range
of its words and a collaborator that broke off in its turn, and every function that can meet one
says so in its type.
-/
namespace OrderAdmission

/-- Why a piece of work broke off without an answer. -/
inductive Crash where
  /-- A number left the range of its words. -/
  | overflow
  | collaborator
  deriving DecidableEq, Repr, Inhabited

/-- The largest value of an unsigned 64-bit word. -/
def maxWord : Nat := UInt64.size - 1

/-- The largest value of a signed 64-bit word. -/
def maxSigned : Int := 0x7FFFFFFFFFFFFFFF

/-- The least value of a signed 64-bit word. -/
def minSigned : Int := -0x8000000000000000

/-- Moves a number into the range of a signed 64-bit word, to the nearer end if it lies outside. -/
def saturateSigned (n : Int) : Int := max minSigned (min maxSigned n)

/-- A signed 64-bit number, or a crash where it leaves that range. -/
def checkedSigned (n : Int) : Except Crash Int :=
  if minSigned ≤ n ∧ n ≤ maxSigned then .ok n else .error .overflow

/-- An unsigned 64-bit number, or a crash where it leaves that range. -/
def checkedWord (n : Nat) : Except Crash Nat :=
  if n ≤ maxWord then .ok n else .error .overflow

end OrderAdmission
