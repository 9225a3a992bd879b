import OrderAdmission.Engine.Step

/-!
# The gate for orders

Building an engine from settings, and the gate for orders.

The gate for orders checks a batch by `Order.checkBatch`, and writes the service's reference of an
order beside its status.
-/
namespace OrderAdmission

def Placement.ofAcknowledgement (o : Order) (a : Acknowledgement) : Placement :=
  { orderId := o.id, version := o.version, status := a.status
    extra := .obj [("exchange_order_id", .str a.reference)] }

/-- An execution service: what its bulk calls and its calls for one order do. With it is how far the wall
clock is off when the breaker reads it, which is as little in the hands of the gate. -/
structure Service where
  bulk : Nat → List Order → Conduct (BulkAnswer Acknowledgement)
  single : Nat → Order → Conduct (Except DownstreamFailure Acknowledgement)
  drift : Nat → Int := fun _ => 0

namespace Desk

/-- The desk of a gate for orders. -/
def forOrders (c : AppConfig) (service : Service) (store : StatusStore) :
    Desk Order Acknowledgement :=
  { executor := c.executor, fallback := c.fallback, persistence := c.persistence, store
    bulk := service.bulk, single := service.single
    review := Order.checkBatch, place := Placement.ofAcknowledgement, drift := service.drift }

/-- The desk of an executor by itself: each payload is what its call does. -/
def forTasks (R : Type) (executor : ExecutorConfig) :
    Desk (Conduct (Except DownstreamFailure R)) R :=
  { executor, fallback := {}, persistence := {}, store := .table 0
    bulk := fun _ _ => .hangs, single := fun _ call => call
    review := fun _ => .ok ()
    place := fun _ _ => { orderId := 0, version := 0, status := "", extra := .null } }

/-- The desk of a store of statuses by itself: nothing goes downstream. -/
def forStatuses (persistence : PersistenceConfig) (store : StatusStore) : Desk Unit Unit :=
  { executor := {}, fallback := {}, persistence, store
    bulk := fun _ _ => .hangs, single := fun _ _ => .hangs
    review := fun _ => .ok ()
    place := fun _ _ => { orderId := 0, version := 0, status := "", extra := .null } }

end Desk

namespace Engine

variable {P R : Type}

/-- An engine at which nothing has happened yet. More permits than a limiter can have crash it. -/
def idle (desk : Desk P R) (breaker : BreakerConfig) (overload : OverloadConfig)
    (pool : Option PoolHealth) (table : Table) (epoch : Int) : Except Crash (Engine P R) :=
  if desk.executor.maxConcurrency ≤ Limiter.maxCapacity then
    .ok
      { desk, now := 0, epoch
        breaker := .fresh breaker pool
        limiter := .full desk.executor.maxConcurrency desk.executor.permitTimeout
        detector := .fresh overload
        memory := .empty
        requests := .idle overload.maxConcurrentRequests
        cache := .empty StatusCache.defaultCapacity
        ledger := { table, holder := none, queue := [] }
        workers := [], jobs := [], nextNumber := 0, nextTurn := 0
        bulkCalls := 0, singleCalls := 0, journal := [], readings := 0 }
  else .error .overflow

/-- The gate for orders that these settings describe. -/
def forOrders (c : AppConfig) (service : Service) (store : StatusStore)
    (pool : Option PoolHealth) (table : Table) (epoch : Int) :
    Except Crash (Engine Order Acknowledgement) :=
  idle (.forOrders c service store) c.breaker c.overload pool table epoch

/-- Whether the gate is overloaded right now; to ask does not count as a check. -/
def overload (e : Engine P R) : OverloadState := e.detector.state e.probes.snapshot

end Engine

end OrderAdmission
