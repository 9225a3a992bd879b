import OrderAdmission.Order.Status
import OrderAdmission.Number.Decimal
import OrderAdmission.Json.Value

/-!
# Orders

Orders, and the status updates that follow from submitting them.

The id and the version of an order name the stored row it belongs to: the version is compared with
the stored one when a status is written back, so that a row that someone else has changed in
between is not overwritten.
-/
namespace OrderAdmission

/-- Whether an order buys or sells. -/
inductive OrderSide where
  | buy
  | sell
  deriving DecidableEq, Repr, Inhabited

def OrderSide.name : OrderSide → String
  | .buy => "BUY"
  | .sell => "SELL"

/-- Whether an order names a price. -/
inductive OrderKind where
  | limit
  | market
  deriving DecidableEq, Repr, Inhabited

def OrderKind.name : OrderKind → String
  | .limit => "LIMIT"
  | .market => "MARKET"

/-- An order that waits for its execution downstream. -/
structure Order where
  id : Int
  version : Int
  clientId : String
  symbol : String
  side : OrderSide
  kind : OrderKind
  quantity : Number.Decimal
  price : Option Number.Decimal
  deriving DecidableEq, Repr, Inhabited

namespace Order

def limit (id version : Int) (clientId symbol : String) (side : OrderSide)
    (quantity price : Number.Decimal) : Order :=
  { id, version, clientId, symbol, side, kind := .limit, quantity, price := some price }

def market (id version : Int) (clientId symbol : String) (side : OrderSide)
    (quantity : Number.Decimal) : Order :=
  { id, version, clientId, symbol, side, kind := .market, quantity, price := none }

end Order

/-- A change of one row's status, made only if the row still has the expected version. -/
structure StatusUpdate where
  orderId : Int
  expectedVersion : Int
  status : OrderStatus
  /-- What is stored beside the status; where absent, what is stored stays. -/
  extra : Option Json
  deriving Repr, Inhabited

end OrderAdmission
