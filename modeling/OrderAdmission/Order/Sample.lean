import OrderAdmission.Crash
import OrderAdmission.Order.Basic

/-!
# Sample orders

A sample consists of limit orders of one symbol that buy and sell in turn, at ten prices in turn.
Their ids count up from the time of day in microseconds, so that two samples hardly ever share one.
-/
namespace OrderAdmission.Order

/-- The earliest and the latest time that a date can be told for, in milliseconds. -/
def firstDate : Int := -8334601228800000

def lastDate : Int := 8210266876799999

/-- The order at this place of a sample. -/
def sampleAt (base : Int) (symbol : String) (clientId : Nat → String) (i : Nat) :
    Except Crash Order := do
  let id ← checkedSigned (base + i)
  return .limit id 0 (clientId i) symbol (if i % 2 = 0 then .buy else .sell)
    (Number.Decimal.ofNat 1) (Number.Decimal.ofNat (100 + i % 10))

/-- This many sample orders, made at this time. -/
def sample (wall : Int) (clientId : Nat → String) (count : Nat) (symbol : String) :
    Except Crash (List Order) :=
  if firstDate ≤ wall ∧ wall ≤ lastDate then do
    let base ← checkedSigned (wall * 1000)
    (List.range count).mapM (sampleAt base symbol clientId)
  else .error .overflow

end OrderAdmission.Order
