import OrderAdmission.Batch
import OrderAdmission.Breaker
import OrderAdmission.Engine.Basic
import OrderAdmission.Json.Decode

/-!
# JSON forms of the domain

The JSON forms of orders, updates, acknowledgements, failures and outcomes, and reading them back.
A decimal is written as text and also read from a number.
-/
namespace OrderAdmission

open Json (asSigned asText asNat asName nullable)

/-- The names of all values of a type, for reading. -/
def namesOf {α : Type} (name : α → String) (all : List α) : List (String × α) :=
  all.map fun a => (name a, a)

def OrderStatus.ofJson? : Json → Option OrderStatus :=
  asName (namesOf OrderStatus.name OrderStatus.all)

def OrderSide.ofJson? : Json → Option OrderSide := asName (namesOf OrderSide.name [.buy, .sell])

def OrderKind.ofJson? : Json → Option OrderKind := asName (namesOf OrderKind.name [.limit, .market])

def FailureClass.ofJson? : Json → Option FailureClass :=
  asName (namesOf FailureClass.name FailureClass.all)

/-- Reads a decimal from a text or a number. -/
def Number.Decimal.ofJson? : Json → Option Number.Decimal
  | .str s => read? s
  | .int n => some (ofInt n)
  | .float x => ofFloat? x
  | _ => none

namespace Order

def toJson (o : Order) : Json :=
  .obj [("id", .int o.id), ("version", .int o.version), ("client_order_id", .str o.clientId),
    ("symbol", .str o.symbol), ("side", .str o.side.name), ("order_type", .str o.kind.name),
    ("quantity", .str o.quantity.text),
    ("limit_price", .ofOption (fun p => .str p.text) o.price)]

def ofJson? (j : Json) : Option Order := do
  let f ← j.fields? 8
  return {
    id := ← f.required asSigned 0 "id"
    version := ← f.required asSigned 1 "version"
    clientId := ← f.required asText 2 "client_order_id"
    symbol := ← f.required asText 3 "symbol"
    side := ← f.required OrderSide.ofJson? 4 "side"
    kind := ← f.required OrderKind.ofJson? 5 "order_type"
    quantity := ← f.required Number.Decimal.ofJson? 6 "quantity"
    price := ← f.optional Number.Decimal.ofJson? 7 "limit_price" }

end Order

namespace StatusUpdate

def toJson (u : StatusUpdate) : Json :=
  .obj [("order_id", .int u.orderId), ("expected_version", .int u.expectedVersion),
    ("new_status", .str u.status.name), ("extra", .ofOption id u.extra)]

def ofJson? (j : Json) : Option StatusUpdate := do
  let f ← j.fields? 4
  return {
    orderId := ← f.required asSigned 0 "order_id"
    expectedVersion := ← f.required asSigned 1 "expected_version"
    status := ← f.required OrderStatus.ofJson? 2 "new_status"
    extra := ← f.optional some 3 "extra" }

end StatusUpdate

namespace Acknowledgement

def toJson (a : Acknowledgement) : Json :=
  .obj [("exchange_order_id", .str a.reference), ("status", .str a.status)]

def ofJson? (j : Json) : Option Acknowledgement := do
  let f ← j.fields? 2
  return {
    reference := ← f.required asText 0 "exchange_order_id"
    status := ← f.required asText 1 "status" }

end Acknowledgement

namespace DownstreamFailure

def toJson (f : DownstreamFailure) : Json :=
  .obj [("status", .ofOption (fun (n : Nat) => .int n) f.status), ("class", .str f.kind.name),
    ("message", .str f.message)]

def ofJson? (j : Json) : Option DownstreamFailure := do
  let f ← j.fields? 3
  return {
    status := ← f.optional (asNat 16) 0 "status"
    kind := ← f.required FailureClass.ofJson? 1 "class"
    message := ← f.required asText 2 "message" }

end DownstreamFailure

namespace Outcome

variable {R : Type}

def toJson (value : R → Json) : Outcome R → Json
  | pending => .str "Pending"
  | success v => .obj [("Success", value v)]
  | failure reason => .obj [("Failure", .str reason)]

def ofJson? (value : Json → Option R) (j : Json) : Option (Outcome R) :=
  match Json.asVariant j with
  | some ("Pending", none) => some pending
  | some ("Pending", some .null) => some pending
  | some ("Success", some v) => (value v).map success
  | some ("Failure", some (.str reason)) => some (failure reason)
  | _ => none

end Outcome

def BatchResult.toJson {R : Type} (value : R → Json) (r : BatchResult R) : Json :=
  .obj [("outcomes", .arr (r.outcomes.map (Outcome.toJson value))),
    ("success_count", .int r.successCount), ("failure_count", .int r.failureCount)]

def SubmissionOutcome.toJson {R : Type} (value : R → Json) (o : SubmissionOutcome R) : Json :=
  .obj [("phase", .str o.phase.name), ("bulk_attempts", .int o.bulkAttempts),
    ("result", o.result.toJson value)]

end OrderAdmission
