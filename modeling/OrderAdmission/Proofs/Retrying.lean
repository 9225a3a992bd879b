import OrderAdmission.Gate
import OrderAdmission.Proofs.Outcomes

/-!
# When a batch may be sent again

An admission that ends with an error says whether the same batch may be sent again. It ought to say so
only if no order of the batch has been acknowledged, for otherwise the order would be placed twice.

The gate keeps to this with one exception. Refusals, open circuits, overload and calls that failed
come before any acknowledgement, and errors of the table are final. But the status write comes after
the orders have been acknowledged, and when it takes too long the error invites to send them again.
`retryable_error_acked_iff` says that **there is no other exception, and that this one is never
harmless**: of the errors that may be tried again exactly those of a status write that was cut off
come after an acknowledgement.
-/
namespace OrderAdmission

variable {P R : Type}

def errorOf : Option (Nat × Ending R) → Option (Nat × GateError)
  | some (time, .ok (.error error)) => some (time, error)
  | _ => none

theorem errorOf_eq_some {ending : Option (Nat × Ending R)} {time : Nat} {error : GateError} :
    errorOf ending = some (time, error) ↔ ending = some (time, .ok (.error error)) := by
  rcases ending with _ | ⟨time', crash | error' | receipt⟩
  · simp [errorOf]
  · simp [errorOf]
  · simp [errorOf]
  · simp [errorOf]

theorem Order.checkBatch_not_retryable {orders : List Order} {error : GateError}
    (h : Order.checkBatch orders = .error error) : error.retryable = false := by
  unfold Order.checkBatch at h
  split at h
  · cases h
  · cases h
    rfl

theorem Desk.forOrders_plain (c : AppConfig) (service : Service) (latency : Nat) :
    (Desk.forOrders c service (.table latency)).Plain :=
  ⟨⟨latency, rfl⟩, fun _ _ h => Order.checkBatch_not_retryable h⟩

namespace Engine

/-- An admission that has ended with an error tells by it whether orders have been acknowledged. -/
theorem Reached.acked_iff {e : Engine P R} (hreached : e.Reached) (hplain : e.desk.Plain)
    {j : Job P R} (hj : j ∈ e.jobs) (hadmission : j.assignment.isAdmission = true) {time : Nat}
    {error : GateError} (hending : j.ending? = some (time, .ok (.error error)))
    (hretryable : error.retryable = true) :
    e.Acked j.number ↔ error = .writeTimeout e.desk.persistence.transactionTimeout := by
  have htells := hreached.truthful j hj
  rw [ending?_eq_some hending] at htells
  exact htells hadmission hplain hretryable

/-- **What a retryable error of an admission tells.** Whatever else is assigned, and in whatever
order everybody is served: when an admission has ended with an error after which the batch may be
sent again, some order of it has been acknowledged if and only if its status write was cut off. The
same holds of what is performed, for each admission in it. -/
theorem retryable_error_acked_iff {c : AppConfig} {service : Service} {latency : Nat}
    {e : Engine Order Acknowledgement} (hrest : e.AtRest)
    (hdesk : e.desk = .forOrders c service (.table latency))
    (assignments : List (Nat × Assignment Order)) :
    (∀ e' j orders time error, Course (e.addJobs assignments).unturned e' → j ∈ e'.jobs →
      j.assignment = .process orders → j.ending? = some (time, .ok (.error error)) →
      error.retryable = true →
      (e'.Acked j.number ↔ error = .writeTimeout c.persistence.transactionTimeout)) ∧
    ∀ i wait orders time error, assignments[i]? = some (wait, .process orders) →
      (e.perform assignments).2[i]? = some (some (time, .ok (.error error))) →
      error.retryable = true →
      ((e.perform assignments).1.Acked (e.nextNumber + i) ↔
        error = .writeTimeout c.persistence.transactionTimeout) := by
  have hstart := hrest.reached assignments
  have hkept {e' : Engine Order Acknowledgement}
      (hcourse : Course (e.addJobs assignments).unturned e') : e'.desk = e.desk := by
    rw [Course.desk hcourse hstart.wellFormed, addJobs_eq]
    rfl
  have hsettings : e.desk.persistence.transactionTimeout = c.persistence.transactionTimeout := by
    rw [hdesk]
    rfl
  have hplain : e.desk.Plain := hdesk ▸ Desk.forOrders_plain c service latency
  have hcourses (e' : Engine Order Acknowledgement) (j : Job Order Acknowledgement)
      (orders : List Order) (time : Nat) (error : GateError)
      (hcourse : Course (e.addJobs assignments).unturned e') (hj : j ∈ e'.jobs)
      (hassignment : j.assignment = .process orders)
      (hending : j.ending? = some (time, .ok (.error error)))
      (hretryable : error.retryable = true) :
      e'.Acked j.number ↔ error = .writeTimeout c.persistence.transactionTimeout := by
    rw [← hsettings, ← hkept hcourse]
    exact (Course.reached hcourse hstart).acked_iff ((hkept hcourse).symm ▸ hplain) hj
      (by rw [hassignment]; rfl) hending hretryable
  refine ⟨hcourses, ?_⟩
  intro i wait orders time error hassigned hending hretryable
  obtain ⟨done, hcourse, _, _, hdone, hendings⟩ := perform_course hrest assignments
  obtain ⟨j, hj, hnumber, hassignment⟩ := hrest.exists_job hcourse hassigned
  rw [hendings, List.getElem?_map, hj, Option.map_some, Option.some.injEq] at hending
  have hexchanges := congrArg Engine.exchanges hdone
  change (e.perform assignments).1.exchanges = done.exchanges at hexchanges
  have hacked := hcourses done j orders time error hcourse (List.mem_of_getElem? hj) hassignment
    hending hretryable
  rwa [Acked, hexchanges, ← hnumber]

/-- A status write that takes ten milliseconds, of which it is given five: the order has been
acknowledged, and yet the error invites to send it again. -/
theorem retryable_error_after_acknowledgement :
    let order := Order.limit 1 0 "C-1" "ACME" .buy (.ofNat 1) (.ofNat 10)
    let service : Service :=
      { bulk := fun _ _ => .answers 0 (.ok [.ok { reference := "X-1", status := "ACCEPTED" }])
        single := fun _ _ => .hangs }
    let c : AppConfig := { persistence := { transactionTimeout := 5 } }
    let e := begun (.forOrders c service (.table 10)) c.breaker c.overload none (Table.ofIds [1]) 0
    e.AtRest ∧ e.desk = .forOrders c service (.table 10) ∧
      (e.perform [(0, .process [order])]).2 = [some (5, .ok (.error (.writeTimeout 5)))] ∧
      (GateError.writeTimeout 5).retryable = true ∧
      (e.perform [(0, .process [order])]).1.Acked 0 := by
  intro order service c e
  have hrest : e.AtRest := begun_atRest _ _ _ _ _ _
  have hending : (e.perform [(0, .process [order])]).2 =
      [some (5, .ok (.error (.writeTimeout 5)))] := by
    have herrors : (e.perform [(0, .process [order])]).2.map errorOf =
        [some (5, .writeTimeout 5)] := by decide +kernel
    simpa [List.map_eq_singleton_iff, errorOf_eq_some] using herrors
  refine ⟨hrest, rfl, hending, rfl, ?_⟩
  have htells := (retryable_error_acked_iff hrest rfl [(0, .process [order])]).2 0 0 [order] 5
    (.writeTimeout 5) rfl (by rw [hending]; rfl) rfl
  exact htells.mpr rfl

end Engine

end OrderAdmission
