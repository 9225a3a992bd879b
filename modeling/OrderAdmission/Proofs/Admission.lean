import OrderAdmission.Proofs.Circuit
import OrderAdmission.Proofs.Recording
import OrderAdmission.Proofs.Routes

/-!
# The stages of the gate

Before a batch is sent, it passes three stages: the review of its orders, the breaker, and the overload
detector. Whoever is turned away at one of them has not come to the next. `StageByStage` says what each
stage leaves behind, as an equation about the whole engine.

A batch that has passed the review counts as a request in progress until it ends, wherever that is. This
is an invariant of every course (`Course.placed`): **the requests in progress are those from before and
one for each admission under way**. It rests on two facts about single turns. The first turn of an
admission takes a place unless it is also the last one (`startAdmission_place`), and every later turn
gives the place back if and only if the admission ends with it (`jobTurn_past`).
-/
namespace OrderAdmission

variable {P R : Type}

/-! ### The review -/

namespace Order

/-- A batch that passes the review: its orders have the form that orders must have, and no id repeats. -/
structure Reviewed (orders : List Order) : Prop where
  form : ∀ o ∈ orders, o.check = .ok ()
  distinct : (orders.map (·.id)).Nodup

theorem form_of_checkFrom {orders : List Order} {seen : List Int}
    (h : checkFrom orders seen = .ok ()) : ∀ o ∈ orders, o.check = .ok () := by
  induction orders generalizing seen with
  | nil => simp
  | cons o rest ih =>
    simp only [checkFrom] at h
    split at h
    · cases h
    · rename_i hform
      split at h
      · cases h
      · intro o' ho'
        rcases List.mem_cons.mp ho' with rfl | ho'
        · exact hform
        · exact ih h o' ho'

theorem checkFrom_of_form {orders : List Order} {seen : List Int}
    (hform : ∀ o ∈ orders, o.check = .ok ()) (hdistinct : (orders.map (·.id)).Nodup)
    (hnew : ∀ o ∈ orders, o.id ∉ seen) : checkFrom orders seen = .ok () := by
  induction orders generalizing seen with
  | nil => rfl
  | cons o rest ih =>
    obtain ⟨hother, hrest⟩ := List.nodup_cons.mp hdistinct
    simp only [checkFrom, hform o List.mem_cons_self, hnew o List.mem_cons_self, if_false]
    apply ih (fun o' ho' => hform o' (List.mem_cons_of_mem o ho')) hrest
    intro o' ho' hseen
    rcases List.mem_cons.mp hseen with hsame | hseen
    · exact hother (List.mem_map.mpr ⟨o', ho', hsame⟩)
    · exact hnew o' (List.mem_cons_of_mem o ho') hseen

theorem checkBatch_eq_ok_iff {orders : List Order} :
    checkBatch orders = .ok () ↔ Reviewed orders := by
  constructor
  · intro h
    refine ⟨?_, nodup_of_checkBatch h⟩
    unfold checkBatch at h
    split at h
    · rename_i hchecked
      exact form_of_checkFrom hchecked
    · cases h
  · intro h
    have hchecked : checkFrom orders [] = .ok () :=
      checkFrom_of_form h.form h.distinct fun _ _ hnone => nomatch hnone
    rw [checkBatch, hchecked]

theorem checkBatch_of_not_reviewed {orders : List Order} (h : ¬ Reviewed orders) :
    ∃ reason, checkBatch orders = .error (.invalid reason) := by
  cases hchecked : checkFrom orders [] with
  | ok =>
    refine absurd (checkBatch_eq_ok_iff.mp ?_) h
    rw [checkBatch, hchecked]
  | error reason => exact ⟨reason, by rw [checkBatch, hchecked]⟩

end Order

namespace Engine

/-! ### Turned away -/

/-- The check of an admission that the breaker lets pass. The admission itself is in progress by then, and
the probes see it. -/
def admissionCheck (e : Engine P R) (breaker : Breaker) : OverloadState × Detector :=
  e.detector.check (e.enterRequest.setBreaker breaker).probes.snapshot

section TurnedAway

variable {e : Engine P R} {job : Nat} {a : Assignment P}

theorem startAdmission_rejected (hsome : a.orders ≠ []) {error : GateError}
    (hreview : e.desk.review a.orders = .error error) :
    e.startAdmission job a = (e, .finished e.now (.ok (.error error))) := by
  rw [startAdmission_eq, if_neg (by simpa using hsome), hreview]
  rfl

theorem conclude_enterRequest (hadmission : a.isAdmission = true) (breaker : Breaker)
    (ending : Ending R) : (e.enterRequest.setBreaker breaker).conclude a ending =
      (e.setBreaker breaker, .finished e.now ending) := by
  rw [conclude_eq, hadmission]
  rfl

theorem startAdmission_crashed (hsome : a.orders ≠ []) (hadmission : a.isAdmission = true)
    (hreview : e.desk.review a.orders = .ok ()) {crash : Crash}
    (hasked : e.breaker.admitBulk e.wall = .error crash) :
    e.startAdmission job a = (e, .finished e.now (.error crash)) := by
  rw [startAdmission_eq, if_neg (by simpa using hsome), hreview]
  simp only [hasked]
  rw [conclude_eq, hadmission]
  rfl

theorem startAdmission_refused (hsome : a.orders ≠ []) (hadmission : a.isAdmission = true)
    (hreview : e.desk.review a.orders = .ok ()) {error : GateError} {breaker : Breaker}
    (hasked : e.breaker.admitBulk e.wall = .ok (.error error, breaker)) :
    e.startAdmission job a = (e.setBreaker breaker, .finished e.now (.ok (.error error))) := by
  rw [startAdmission_eq, if_neg (by simpa using hsome), hreview]
  simp only [hasked]
  exact conclude_enterRequest hadmission breaker _

theorem startAdmission_asked (hsome : a.orders ≠ []) (hreview : e.desk.review a.orders = .ok ())
    {breaker : Breaker} (hasked : e.breaker.admitBulk e.wall = .ok (.ok (), breaker)) :
    e.startAdmission job a = (e.enterRequest.setBreaker breaker).checkOverload job a := by
  rw [startAdmission_eq, if_neg (by simpa using hsome), hreview]
  simp only [hasked]

theorem checkOverload_overloaded (hadmission : a.isAdmission = true) {breaker : Breaker}
    (hover : (e.admissionCheck breaker).1.overloaded = true) :
    (e.enterRequest.setBreaker breaker).checkOverload job a =
      ((e.setBreaker breaker).setDetector (e.admissionCheck breaker).2,
        .finished e.now (.ok (.error (.overloaded (e.admissionCheck breaker).1.retryAfter)))) := by
  have hchecked : (e.enterRequest.setBreaker breaker).detector.check
      (e.enterRequest.setBreaker breaker).probes.snapshot = e.admissionCheck breaker := rfl
  simp only [checkOverload, hchecked, hover, if_true]
  rw [conclude_eq, hadmission]
  rfl

theorem checkOverload_healthy {breaker : Breaker}
    (hover : (e.admissionCheck breaker).1.overloaded = false) :
    (e.enterRequest.setBreaker breaker).checkOverload job a =
      ((e.enterRequest.setBreaker breaker).setDetector (e.admissionCheck breaker).2).startSubmission
        job a := by
  have hchecked : (e.enterRequest.setBreaker breaker).detector.check
      (e.enterRequest.setBreaker breaker).probes.snapshot = e.admissionCheck breaker := rfl
  simp only [checkOverload, hchecked, hover, Bool.false_eq_true, if_false]

end TurnedAway

end Engine

/-! ### Past the door -/

def Stage.isArriving : Stage P R → Bool
  | .arriving _ => true
  | _ => false

def Stage.isFinished : Stage P R → Bool
  | .finished _ _ => true
  | _ => false

/-- An admission of these orders that has yet to begin. -/
structure Job.Comes (j : Job P R) (orders : List P) : Prop where
  assignment : j.assignment = .process orders
  arriving : j.stage.isArriving = true

def Job.hasPlace (j : Job P R) : Bool :=
  j.assignment.isAdmission && !j.stage.isArriving && !j.stage.isFinished

namespace Engine

/-- At the door of the gate nothing has changed: the same requests are in progress, and the detector has
checked nothing. -/
structure SameDoor (e e' : Engine P R) : Prop where
  detector : e'.detector = e.detector
  requests : e'.requests = e.requests

/-- What a turn past the door leads to: the detector has checked nothing, and an admission has given its
place back if it has ended, and has kept it if not. -/
structure PastDoor (e : Engine P R) (a : Assignment P) (result : Engine P R × Stage P R) : Prop where
  detector : result.1.detector = e.detector
  requests : result.1.requests =
    if result.2.isFinished && a.isAdmission then e.requests.leave else e.requests
  begun : result.2.isArriving = false

theorem SameDoor.refl (e : Engine P R) : SameDoor e e := ⟨rfl, rfl⟩

theorem SameDoor.trans {e e₁ e₂ : Engine P R} (h₁ : SameDoor e e₁) (h₂ : SameDoor e₁ e₂) :
    SameDoor e e₂ :=
  ⟨h₂.detector.trans h₁.detector, h₂.requests.trans h₁.requests⟩

section PastDoor

variable {e e₁ : Engine P R} {job : Nat} {a : Assignment P} {stage : Stage P R}

theorem PastDoor.after {result : Engine P R × Stage P R} (h : PastDoor e₁ a result)
    (hdoor : SameDoor e e₁) : PastDoor e a result := by
  refine ⟨h.detector.trans hdoor.detector, ?_, h.begun⟩
  rw [h.requests, hdoor.requests]

theorem SameDoor.goesOn (h : SameDoor e e₁) (hfinished : stage.isFinished = false)
    (harriving : stage.isArriving = false) : PastDoor e a (e₁, stage) := by
  refine ⟨h.detector, ?_, harriving⟩
  rw [hfinished]
  exact h.requests

theorem SameDoor.of_not_isAdmission (h : SameDoor e e₁) (hother : a.isAdmission = false)
    (harriving : stage.isArriving = false) : PastDoor e a (e₁, stage) := by
  refine ⟨h.detector, ?_, harriving⟩
  rw [hother, Bool.and_false]
  exact h.requests

variable (e job a)

theorem conclude_past (ending : Ending R) : PastDoor e a (e.conclude a ending) := by
  rw [conclude_eq]
  exact ⟨rfl, rfl, rfl⟩

theorem followWrite_past (result : Option (BatchResult R)) (turn : Engine P R × WriteTurn) :
    PastDoor turn.1 a (followWrite a result turn) := by
  rcases turn with ⟨e', run | crash | error | rows⟩
  · exact (SameDoor.refl e').goesOn rfl rfl
  · exact conclude_past e' a _
  · exact conclude_past e' a _
  · cases result <;> exact conclude_past e' a _

theorem endWrite_door (ending : Except Crash (Except GateError Nat)) :
    SameDoor e (e.endWrite job ending).1 := by
  simp only [endWrite]
  split <;> exact ⟨rfl, rfl⟩

theorem openWrite_door (updates : List StatusUpdate) : SameDoor e (e.openWrite job updates).1 := by
  simp only [openWrite]
  split
  · exact SameDoor.refl e
  · split
    · exact SameDoor.refl e
    · split <;> exact ⟨rfl, rfl⟩

theorem nextStatement_door (w : WriteRun) : SameDoor e (e.nextStatement job w).1 := by
  unfold nextStatement
  split
  · exact ⟨rfl, rfl⟩
  · exact ⟨rfl, rfl⟩
  · have hcommitted : SameDoor e (e.commitStaged job w.staged) := ⟨rfl, rfl⟩
    exact hcommitted.trans (endWrite_door _ job _)
  · exact ⟨rfl, rfl⟩

theorem rollBack_door (w : WriteRun) (error : GateError) :
    SameDoor e (e.rollBack job w error).1 := by
  have hnoted : SameDoor e (e.note (.stored job .rollback)) := ⟨rfl, rfl⟩
  simp only [rollBack]
  split
  · exact hnoted.trans (endWrite_door _ job _)
  · exact hnoted

theorem afterStatement_door (w : WriteRun) (counts : List Nat) :
    SameDoor e (e.afterStatement job w counts).1 := by
  simp only [afterStatement]
  split
  · exact nextStatement_door e job w
  · split
    · exact rollBack_door e job w _
    · exact nextStatement_door e job _

theorem writeTurn_door (w : WriteRun) : SameDoor e (e.writeTurn job w).1 := by
  unfold writeTurn
  split
  · split
    · exact nextStatement_door e job w
    · exact endWrite_door e job _
  · split
    · exact nextStatement_door e job w
    · exact endWrite_door e job _
    · exact endWrite_door e job _
    · exact endWrite_door e job _
  · split
    · split
      · exact endWrite_door e job _
      · exact afterStatement_door e job _ _
    · exact endWrite_door e job _
  · split
    · exact afterStatement_door e job w _
    · exact rollBack_door e job w _
    · exact endWrite_door e job _
    · exact endWrite_door e job _
  · split <;> exact endWrite_door e job _
  · split <;> exact endWrite_door e job _

theorem answered_past (attempts : Nat) (r : BatchResult R) :
    PastDoor e a (e.answered job a attempts r) := by
  cases a with
  | process orders =>
    simp only [answered]
    rw [placeOrders_eq]
    split
    · exact conclude_past e _ _
    · rename_i updates cache _
      have hread : SameDoor e (e.setCache cache) := ⟨rfl, rfl⟩
      exact (followWrite_past _ _ _).after (hread.trans (openWrite_door _ job updates))
  | _ => exact conclude_past e _ _

theorem settleChunk_door (reason : String) (chunk : List Nat) (outcomes : List (Outcome R)) :
    SameDoor e (e.settleChunk job reason chunk outcomes).1 := by
  induction chunk generalizing e outcomes with
  | nil => exact SameDoor.refl e
  | cons index rest ih =>
    simp only [settleChunk]
    split
    · have htold : SameDoor e (e.report job .failure) := ⟨rfl, rfl⟩
      exact htold.trans (ih _ _)
    · exact ih e outcomes

theorem settled_door (run : BatchRun P R) : SameDoor e (e.settled job run).1 := by
  have hdismissed : SameDoor e (e.dismissAll job) := ⟨rfl, rfl⟩
  exact hdismissed.trans (settleChunk_door _ job _ _ _)

theorem openChunk_past (attempts : Nat) (run : BatchRun P R) :
    PastDoor e a (e.openChunk job attempts run) := by
  refine SameDoor.goesOn ?_ rfl rfl
  exact ⟨rfl, rfl⟩

theorem startBatch_past (attempts : Nat) (tasks : List (BatchTask P)) :
    PastDoor e a (followStart job a attempts (e.startBatch job attempts tasks)) := by
  have hset (breaker : Breaker) : SameDoor e (e.setBreaker breaker) := ⟨rfl, rfl⟩
  rw [startBatch_eq]
  split
  · exact answered_past e job a attempts _
  · split
    · exact conclude_past e a _
    · split
      · exact conclude_past e a _
      · exact (conclude_past _ a _).after (hset _)
      · exact (openChunk_past _ job a attempts _).after (hset _)

theorem sendSingly_past (attempts : Nat) : PastDoor e a (e.sendSingly job a attempts) :=
  startBatch_past e job a attempts _

theorem callBulk_past (attempt deadline : Nat) :
    PastDoor e a (e.callBulk job a attempt deadline) := by
  rw [callBulk_eq]
  split
  · exact conclude_past e a _
  · refine SameDoor.goesOn ?_ rfl rfl
    exact ⟨rfl, rfl⟩

theorem startSubmission_past : PastDoor e a (e.startSubmission job a) := by
  unfold startSubmission
  split
  · exact sendSingly_past e job a 0
  · split
    · exact conclude_past e a _
    · split
      · exact callBulk_past e job a 1 _
      · exact conclude_past e a _

theorem fallBack_past (attempts : Nat) (failure : DownstreamFailure) :
    PastDoor e a (e.fallBack job a attempts failure) := by
  unfold fallBack
  split
  · exact conclude_past e a _
  · exact sendSingly_past e job a attempts

theorem bulkFailed_past (run : BulkRun R) (failure : DownstreamFailure) :
    PastDoor e a (e.bulkFailed job a run failure) := by
  have htold : SameDoor e (e.report job .failure) := ⟨rfl, rfl⟩
  have hset (breaker : Breaker) : SameDoor e ((e.report job .failure).setBreaker breaker) :=
    ⟨rfl, rfl⟩
  rw [bulkFailed_eq]
  simp only
  split
  · exact conclude_past e a _
  · split
    · exact (fallBack_past _ job a _ failure).after htold
    · split
      · exact (conclude_past _ a _).after htold
      · exact (fallBack_past _ job a _ failure).after (hset _)
      · split
        · exact (fallBack_past _ job a _ failure).after (hset _)
        · exact (hset _).goesOn rfl rfl

theorem bulkTurn_past (run : BulkRun R) : PastDoor e a (e.bulkTurn job a run) := by
  have hnoted (event : Event P R) : SameDoor e (e.note event) := ⟨rfl, rfl⟩
  unfold bulkTurn
  split
  · rename_i items _
    have htold : SameDoor e ((e.note (.bulkEnded job (some (.ok items)))).report job .success) :=
      ⟨rfl, rfl⟩
    simp only
    split
    · exact (answered_past _ job a run.attempt _).after htold
    · exact (bulkFailed_past _ job a run _).after (hnoted _)
  · exact (bulkFailed_past _ job a run _).after (hnoted _)
  · exact conclude_past e a _
  · exact (bulkFailed_past _ job a run _).after (hnoted _)

theorem joins_past {attempts : Nat} {run : BatchRun P R} {result : Engine P R × Stage P R}
    (h : Joins e job a attempts run result) : PastDoor e a result := by
  cases h with
  | collects found =>
    refine SameDoor.goesOn ?_ rfl rfl
    exact ⟨rfl, rfl⟩
  | pauses none some => exact (settled_door e job run).goesOn rfl rfl
  | reopens none some => exact (openChunk_past _ job a attempts _).after (settled_door e job run)
  | finishes none last => exact (answered_past _ job a attempts _).after (settled_door e job run)

end PastDoor

/-! ### The turns of a job -/

section Turns

variable {e : Engine P R} {a : Assignment P}

theorem keepPermit_past (e : Engine P R) (hother : a.isAdmission = false) (stay : Option Nat) :
    PastDoor e a (e.keepPermit stay) := by
  cases stay <;> exact (SameDoor.refl e).of_not_isAdmission hother rfl

theorem startJob_past (e : Engine P R) (job : Nat) (hother : a.isAdmission = false) :
    PastDoor e a (e.startJob job a) := by
  cases a with
  | hold stay =>
    simp only [startJob]
    split
    · rename_i limiter _
      have htaken : SameDoor e { e with limiter } := ⟨rfl, rfl⟩
      exact (keepPermit_past _ rfl stay).after htaken
    · refine SameDoor.goesOn ?_ rfl rfl
      exact ⟨rfl, rfl⟩
  | execute tasks => exact startBatch_past e job _ 0 tasks
  | submit orders =>
    simp only [startJob]
    split
    · exact (SameDoor.refl e).of_not_isAdmission rfl rfl
    · exact startSubmission_past e job _
  | process orders => cases hother
  | write updates => exact (followWrite_past _ none _).after (openWrite_door e job updates)
  | occupy stay =>
    refine SameDoor.goesOn ?_ rfl rfl
    exact ⟨rfl, rfl⟩

/-- The first turn of an admission takes a place among the requests, unless it is the last turn too. -/
theorem startAdmission_place (e : Engine P R) (job : Nat) (hadmission : a.isAdmission = true) :
    (e.startAdmission job a).1.requests =
        (if (e.startAdmission job a).2.isFinished then e.requests else e.requests.enter) ∧
      (e.startAdmission job a).2.isArriving = false := by
  -- Once it has its place, an admission is past the door, and gives the place back if it ends.
  have hentered {e₁ : Engine P R} {result : Engine P R × Stage P R} (h : PastDoor e₁ a result)
      (hrequests : e₁.requests = e.requests.enter) : result.1.requests =
        (if result.2.isFinished then e.requests else e.requests.enter) ∧
      result.2.isArriving = false := by
    refine ⟨?_, h.begun⟩
    rw [h.requests, hrequests, hadmission, Bool.and_true]
    rfl
  rw [startAdmission_eq]
  split
  · exact ⟨rfl, rfl⟩
  · split
    · exact ⟨rfl, rfl⟩
    · split
      · exact hentered (conclude_past _ a _) rfl
      · exact hentered (conclude_past _ a _) rfl
      · unfold checkOverload
        simp only
        split
        · exact hentered (conclude_past _ a _) rfl
        · exact hentered (startSubmission_past _ job a) rfl

/-- Every later turn of a job is past the door. -/
theorem jobTurn_past {j : Job P R}
    (hsound : j.stage.Sound e.desk.fallback.retry.maxRetries j.assignment)
    (hready : j.isReady e = true) (hbegun : j.stage.isArriving = false) :
    PastDoor e j.assignment (e.jobTurn j) := by
  obtain ⟨number, a, stage, turn⟩ := j
  cases stage with
  | arriving due => cases hbegun
  | queued limit =>
    obtain ⟨stay, rfl⟩ := hsound
    simp only [jobTurn]
    split
    · have hclaimed : SameDoor e { e with limiter := e.limiter.claim number } := ⟨rfl, rfl⟩
      exact (keepPermit_past _ rfl _).after hclaimed
    · refine SameDoor.of_not_isAdmission ?_ rfl rfl
      exact ⟨rfl, rfl⟩
  | holding since due =>
    obtain ⟨stay, rfl⟩ := hsound
    refine SameDoor.of_not_isAdmission ?_ rfl rfl
    exact ⟨rfl, rfl⟩
  | approaching => exact (SameDoor.refl e).goesOn rfl rfl
  | occupying due =>
    refine SameDoor.of_not_isAdmission ?_ (a.not_isAdmission_of_isOccupation hsound) rfl
    exact ⟨rfl, rfl⟩
  | calling run => exact bulkTurn_past e number a run
  | backingOff attempt deadline due => exact callBulk_past e number a _ deadline
  | joining attempts run =>
    have hroute := joinTurn_route (e := e) (j := ⟨number, a, .joining attempts run, turn⟩) rfl
    exact joins_past e number a hroute.onward
  | pausing attempts run due => exact openChunk_past e number a attempts run
  | writing result run => exact (followWrite_past a result _).after (writeTurn_door e number run)
  | finished time ending => cases hready

/-! The first turn of a job begins what it is asked to do. -/

theorem jobTurn_of_arriving (e : Engine P R) {j : Job P R} (h : j.stage.isArriving = true) :
    e.jobTurn j = e.startJob j.number j.assignment := by
  obtain ⟨number, a, stage, turn⟩ := j
  cases stage with
  | arriving due => rfl
  | _ => cases h

theorem startJob_of_isAdmission (e : Engine P R) (job : Nat) (h : a.isAdmission = true) :
    e.startJob job a = e.startAdmission job a := by
  cases a with
  | process orders => rfl
  | _ => cases h

theorem jobTurn_begun {j : Job P R}
    (hsound : j.stage.Sound e.desk.fallback.retry.maxRetries j.assignment)
    (hready : j.isReady e = true) : (e.jobTurn j).2.isArriving = false := by
  cases hfirst : j.stage.isArriving with
  | false => exact (jobTurn_past hsound hready hfirst).begun
  | true =>
    rw [jobTurn_of_arriving e hfirst]
    cases hadmission : j.assignment.isAdmission with
    | true =>
      rw [startJob_of_isAdmission e j.number hadmission]
      exact (startAdmission_place e j.number hadmission).2
    | false => exact (startJob_past e j.number hadmission).begun

end Turns

/-! ### The requests in progress -/

end Engine

def RequestTracker.plus (t : RequestTracker) (n : Nat) : RequestTracker :=
  { t with active := t.active + n }

namespace Engine

/-- A turn of a job changes the requests in progress by the place of this job. -/
theorem jobTurn_placed {e : Engine P R} {j : Job P R}
    (hsound : j.stage.Sound e.desk.fallback.retry.maxRetries j.assignment)
    (hready : j.isReady e = true) {base : RequestTracker} {n : Nat}
    (h : e.requests = base.plus (n + j.hasPlace.toNat)) :
    (e.jobTurn j).1.requests =
      base.plus (n + ({ j with stage := (e.jobTurn j).2 } : Job P R).hasPlace.toNat) := by
  have hbegun := jobTurn_begun hsound hready
  cases hfirst : j.stage.isArriving with
  | true =>
    -- It has had no place, and has one now if it is an admission that goes on.
    simp only [Job.hasPlace, hfirst, Bool.not_true, Bool.and_false, Bool.false_and] at h
    simp only [Job.hasPlace, hbegun, Bool.not_false, Bool.and_true]
    rw [jobTurn_of_arriving e hfirst]
    cases hadmission : j.assignment.isAdmission with
    | true =>
      have hplace := startAdmission_place e j.number hadmission
      rw [← startJob_of_isAdmission e j.number hadmission] at hplace
      rw [hplace.1, h]
      cases (e.startJob j.number j.assignment).2.isFinished <;> rfl
    | false =>
      have hrequests := (startJob_past e j.number hadmission).requests
      rw [hadmission, Bool.and_false] at hrequests
      exact hrequests.trans h
  | false =>
    -- An admission that has begun has had its place, for it had not ended.
    have hunfinished : j.stage.isFinished = false := by
      obtain ⟨number, a, stage, turn⟩ := j
      cases stage with
      | finished time ending => cases hready
      | _ => rfl
    rw [(jobTurn_past hsound hready hfirst).requests, h]
    simp only [Job.hasPlace, hfirst, hunfinished, hbegun]
    cases (e.jobTurn j).2.isFinished <;> cases j.assignment.isAdmission <;> rfl

/-- The requests in progress are these, and one for each admission under way. -/
def Placed (base : RequestTracker) (e : Engine P R) : Prop :=
  e.requests = base.plus (e.jobs.countP (·.hasPlace))

theorem Move.placed {base : RequestTracker} {e e' : Engine P R} (hmove : Move e e')
    (hwf : e.WellFormed) (h : Placed base e) : Placed base e' := by
  cases hmove with
  | @worker w member ready =>
    have hhouse := workerTurn_house e w
    have hjobs : (e.serveWorker w).jobs = e.jobs := hhouse.jobs
    rw [Placed, hjobs]
    exact hhouse.requests.trans h
  | @job j member ready =>
    obtain ⟨before, after, hold, hnew⟩ := serveJob_jobs hwf member ready
    have hcount (k : Job P R) : (before ++ k :: after).countP (·.hasPlace) =
        before.countP (·.hasPlace) + after.countP (·.hasPlace) + k.hasPlace.toNat := by
      rw [List.countP_append, List.countP_cons, Nat.add_assoc]
      cases k.hasPlace <;> rfl
    rw [Placed, hold, hcount] at h
    rw [Placed, hnew, hcount]
    exact jobTurn_placed (hwf.sound j member) ready h
  | tick quiet due => exact h

/-- **On every course, the requests in progress are those from before and one for each admission under
way.** -/
theorem Course.placed {base : RequestTracker} {e e' : Engine P R} (hcourse : Course e e')
    (hwf : e.WellFormed) (h : Placed base e) : Placed base e' :=
  Course.carries Move.placed hcourse hwf h

/-! ### The checks of the detector -/

theorem workerTurn_detector (e : Engine P R) (w : Worker P R) :
    (e.workerTurn w).1.detector = e.detector := by
  obtain ⟨number, job, position, index, payload, phase, turn⟩ := w
  cases phase with
  | fresh =>
    simp only [workerTurn]
    split <;> rfl
  | queued limit =>
    simp only [workerTurn]
    split <;> rfl
  | working call cutoff =>
    simp only [workerTurn]
    split <;> rfl
  | reported permit outcome => rfl
  | ended outcome => rfl

theorem Move.detector {e e' : Engine P R} (hmove : Move e e') (hwf : e.WellFormed) :
    e'.detector = e.detector ∨
      ∃ j orders, j ∈ e.jobs ∧ j.Comes orders ∧ e' = e.serveJob j := by
  cases hmove with
  | @worker w member ready => exact .inl (workerTurn_detector e w)
  | @job j member ready =>
    cases hfirst : j.stage.isArriving with
    | false => exact .inl (jobTurn_past (hwf.sound j member) ready hfirst).detector
    | true =>
      cases hassignment : j.assignment with
      | process orders => exact .inr ⟨j, orders, member, ⟨hassignment, hfirst⟩, rfl⟩
      | _ =>
        left
        have hpast := startJob_past e j.number (a := j.assignment) (by rw [hassignment]; rfl)
        rw [← jobTurn_of_arriving e hfirst] at hpast
        exact hpast.detector
  | tick quiet due => exact .inl rfl

theorem Move.begun {e e' : Engine P R} (hmove : Move e e') (hwf : e.WellFormed)
    (h : ∀ j ∈ e.jobs, j.stage.isArriving = false) : ∀ j ∈ e'.jobs, j.stage.isArriving = false := by
  intro k hk
  rcases hmove.mem_jobs hwf hk with hold | ⟨j, hj, hready, rfl⟩
  · exact h k hold
  · exact jobTurn_begun (hwf.sound j hj) hready

theorem Course.detector {e e' : Engine P R} (hcourse : Course e e') (hwf : e.WellFormed)
    (hbegun : ∀ j ∈ e.jobs, j.stage.isArriving = false) : e'.detector = e.detector := by
  have hboth : (∀ j ∈ e'.jobs, j.stage.isArriving = false) ∧ e'.detector = e.detector := by
    refine Course.carries (I := fun e₁ => (∀ j ∈ e₁.jobs, j.stage.isArriving = false) ∧
      e₁.detector = e.detector) ?_ hcourse hwf ⟨hbegun, rfl⟩
    rintro e₁ e₂ hmove hwf₁ ⟨hbegun₁, hsame⟩
    constructor
    · exact hmove.begun hwf₁ hbegun₁
    · rcases hmove.detector hwf₁ with hkept | ⟨j, orders, hj, hcomes, _⟩
      · exact hkept.trans hsame
      · cases (hbegun₁ j hj).symm.trans hcomes.arriving
  exact hboth.2

/-! ### Nothing is left to do -/

theorem Move.not_finished {e e' : Engine P R} (hworkers : e.workers = [])
    (hjobs : ∀ j ∈ e.jobs, j.stage.isFinished = true) : ¬ Move e e' := by
  have hended (j : Job P R) (hj : j ∈ e.jobs) : j.isReady e = false ∧ j.due? = none := by
    have hfinished := hjobs j hj
    obtain ⟨number, a, stage, turn⟩ := j
    cases stage with
    | finished time ending => exact ⟨rfl, rfl⟩
    | _ => cases hfinished
  intro hmove
  cases hmove with
  | worker member ready =>
    rw [hworkers] at member
    cases member
  | @job j member ready =>
    rw [(hended j member).1] at ready
    cases ready
  | tick quiet due =>
    rcases (firstTurn_spec due).1 with ⟨w, hw, _⟩ | ⟨j, hj, hdue⟩
    · rw [hworkers] at hw
      cases hw
    · rw [(hended j hj).2] at hdue
      cases hdue

theorem Course.eq_of_finished {e e' : Engine P R} (hcourse : Course e e') (hworkers : e.workers = [])
    (hjobs : ∀ j ∈ e.jobs, j.stage.isFinished = true) : e' = e := by
  rcases hcourse.cases_head with hsame | ⟨e₁, hmove, _⟩
  · exact hsame.symm
  · exact absurd hmove (Move.not_finished hworkers hjobs)

theorem AtRest.jobs_addJob {e : Engine P R} (hrest : e.AtRest) (a : Assignment P) :
    (e.addJobs [(0, a)]).unturned.jobs = [newJob e.nextNumber e.now a] := by
  rw [addJobs_eq]
  simp [unturned, hrest.jobs, newJobs, newJob, Job.unturned]

/-- A job that is performed alone and ends in its first turn leaves the engine of this turn. -/
theorem AtRest.perform_ended {e : Engine P R} (hrest : e.AtRest) {a : Assignment P}
    {e' : Engine P R} {ending : Ending R}
    (hturn : (e.addJobs [(0, a)]).unturned.jobTurn (newJob e.nextNumber e.now a) =
      (e', .finished e.now ending)) (hworkers : e'.workers = []) :
    (e.perform [(0, a)]).1.unturned = { e' with jobs := [] } ∧
      (e.perform [(0, a)]).2 = [some (e.now, ending)] := by
  obtain ⟨hmem, hready, done, hcourse, _, hdone, hendings⟩ := perform_first hrest a []
  have hwf := hrest.wellFormed [(0, a)]
  have hserved : (e.addJobs [(0, a)]).unturned.serveJob (newJob e.nextNumber e.now a) =
      { e' with jobs := [⟨e.nextNumber, a, .finished e.now ending, none⟩] } := by
    have hsame := (jobTurn_turn _ _ (hwf.sound _ hmem) hready).sameJobs.jobs
    rw [hturn] at hsame
    simp only [serveJob, hturn]
    rw [hsame, hrest.jobs_addJob a, List.map_singleton, if_pos rfl]
    rfl
  rw [hserved] at hcourse
  have hstays := Course.eq_of_finished hcourse hworkers (by simp [Stage.isFinished])
  rw [hdone, hendings, hstays]
  exact ⟨rfl, rfl⟩

/-! ### Stage by stage -/

/-- What the stages of the gate leave behind. `Ends e' ending` is to say that the admission ends in this
way, and that the engine is then `e'`; `Detects d` is to say that the detector is then `d`. -/
structure StageByStage (e : Engine Order Acknowledgement) (orders : List Order)
    (Ends : Engine Order Acknowledgement → Ending Acknowledgement → Prop)
    (Detects : Detector → Prop) : Prop where
  /-- A batch that does not pass the review is invalid, and leaves everything as it was. -/
  invalid : ¬ Order.Reviewed orders → ∃ reason, Ends e (.ok (.error (.invalid reason)))
  /-- What the breaker says is returned, and the breaker is all that has changed. -/
  refused : Order.Reviewed orders → ∀ error breaker,
    e.breaker.admitBulk e.wall = .ok (.error error, breaker) →
    Ends (e.setBreaker breaker) (.ok (.error error))
  /-- If the breaker breaks off, nothing has changed. -/
  crashed : Order.Reviewed orders → ∀ crash, e.breaker.admitBulk e.wall = .error crash →
    Ends e (.error crash)
  /-- An overload is returned with the wait of the one check that found it. Nothing else has changed than
  by this check, and by the breaker before it. -/
  overloaded : Order.Reviewed orders → ∀ breaker,
    e.breaker.admitBulk e.wall = .ok (.ok (), breaker) →
    (e.admissionCheck breaker).1.overloaded = true →
    Ends ((e.setBreaker breaker).setDetector (e.admissionCheck breaker).2)
      (.ok (.error (.overloaded (e.admissionCheck breaker).1.retryAfter)))
  /-- An admission that passes has made this one check. -/
  passed : Order.Reviewed orders → ∀ breaker,
    e.breaker.admitBulk e.wall = .ok (.ok (), breaker) →
    (e.admissionCheck breaker).1.overloaded = false → Detects (e.admissionCheck breaker).2

section Stages

variable {e : Engine Order Acknowledgement} {orders : List Order}

/-- The first turn of an admission goes through the stages. -/
theorem startAdmission_stages (job : Nat) (hreview : e.desk.review = Order.checkBatch)
    (hsome : orders ≠ []) :
    StageByStage e orders
      (fun e' ending => e.startAdmission job (.process orders) = (e', .finished e.now ending))
      (fun d => (e.startAdmission job (.process orders)).1.detector = d) := by
  have hsome' : (Assignment.process orders).orders ≠ [] := hsome
  have hpasses (h : Order.Reviewed orders) :
      e.desk.review (Assignment.process orders).orders = .ok () := by
    rw [hreview]
    exact Order.checkBatch_eq_ok_iff.mpr h
  refine ⟨?_, ?_, ?_, ?_, ?_⟩
  · intro hinvalid
    obtain ⟨reason, hchecked⟩ := Order.checkBatch_of_not_reviewed hinvalid
    exact ⟨reason, startAdmission_rejected hsome' (hreview ▸ hchecked)⟩
  · intro hreviewed error breaker hasked
    exact startAdmission_refused hsome' rfl (hpasses hreviewed) hasked
  · intro hreviewed crash hasked
    exact startAdmission_crashed hsome' rfl (hpasses hreviewed) hasked
  · intro hreviewed breaker hasked hover
    rw [startAdmission_asked hsome' (hpasses hreviewed) hasked]
    exact checkOverload_overloaded rfl hover
  · intro hreviewed breaker hasked hover
    rw [startAdmission_asked hsome' (hpasses hreviewed) hasked, checkOverload_healthy hover]
    exact (startSubmission_past _ job _).detector

/-- An admission that is performed alone goes through the stages: what is done after its first turn
checks nothing. -/
theorem AtRest.stages (hrest : e.AtRest) (hreview : e.desk.review = Order.checkBatch)
    (hsome : orders ≠ []) :
    StageByStage e orders
      (fun e' ending =>
        (e.perform [(0, .process orders)]).1.unturned =
            { e'.unturned with nextNumber := e.nextNumber + 1 } ∧
          (e.perform [(0, .process orders)]).2 = [some (e.now, ending)])
      (fun d => (e.perform [(0, .process orders)]).1.detector = d) := by
  have hstages := startAdmission_stages (e := (e.addJobs [(0, .process orders)]).unturned)
    e.nextNumber hreview hsome
  have hworkers : (e.addJobs [(0, .process orders)]).unturned.workers = [] := by
    rw [addJobs_eq]
    simp [unturned, hrest.workers]
  have hleft : { (e.addJobs [(0, .process orders)]).unturned with jobs := [] } =
      { e.unturned with nextNumber := e.nextNumber + 1 } := by
    rw [addJobs_eq]
    simp [unturned, hrest.jobs]
  refine ⟨?_, ?_, ?_, ?_, ?_⟩
  · intro hinvalid
    obtain ⟨reason, hturn⟩ := hstages.invalid hinvalid
    obtain ⟨hengine, hending⟩ := hrest.perform_ended (a := .process orders) hturn hworkers
    exact ⟨reason, hengine.trans hleft, hending⟩
  · intro hreviewed error breaker hasked
    obtain ⟨hengine, hending⟩ := hrest.perform_ended (a := .process orders)
      (hstages.refused hreviewed error breaker hasked) hworkers
    exact ⟨hengine.trans (congrArg (·.setBreaker breaker) hleft), hending⟩
  · intro hreviewed crash hasked
    obtain ⟨hengine, hending⟩ := hrest.perform_ended (a := .process orders)
      (hstages.crashed hreviewed crash hasked) hworkers
    exact ⟨hengine.trans hleft, hending⟩
  · intro hreviewed breaker hasked hover
    obtain ⟨hengine, hending⟩ := hrest.perform_ended (a := .process orders)
      (hstages.overloaded hreviewed breaker hasked hover) hworkers
    refine ⟨hengine.trans ?_, hending⟩
    exact congrArg (fun left => (left.setBreaker breaker).setDetector
      (e.admissionCheck breaker).2) hleft
  · -- The first turn has made its check, and afterwards nobody is left to begin.
    intro hreviewed breaker hasked hover
    have hchecked := hstages.passed hreviewed breaker hasked hover
    obtain ⟨hmem, hready, done, hcourse, _, hdone, _⟩ := perform_first hrest (.process orders) []
    have hwf := hrest.wellFormed [(0, .process orders)]
    have hbegun : ∀ k ∈ ((e.addJobs [(0, .process orders)]).unturned.serveJob
        (newJob e.nextNumber e.now (.process orders))).jobs, k.stage.isArriving = false := by
      intro k hk
      rcases mem_serveJob hwf hmem hready hk with rfl | ⟨hk, hother⟩
      · exact jobTurn_begun (hwf.sound _ hmem) hready
      · rw [hrest.jobs_addJob, List.mem_singleton] at hk
        exact absurd (congrArg (·.number) hk) hother
    have hkept := Course.detector hcourse (serveJob_wellFormed hwf hmem hready) hbegun
    have hsame := congrArg (·.detector) hdone
    exact hsame.trans (hkept.trans hchecked)

end Stages

theorem AtRest.placed {e : Engine P R} (hrest : e.AtRest) (assignments : List (Nat × Assignment P)) :
    Placed e.requests (e.addJobs assignments).unturned := by
  have hnone : (e.addJobs assignments).unturned.jobs.countP (·.hasPlace) = 0 := by
    rw [List.countP_eq_zero]
    intro j hj
    obtain ⟨due, hstage⟩ := hrest.arriving hj
    simp [Job.hasPlace, hstage, Stage.isArriving]
  rw [Placed, hnone, addJobs_eq]
  rfl

theorem Settled.no_place {e : Engine P R} (hsettled : e.Settled) (hwf : e.WellFormed) :
    e.jobs.countP (·.hasPlace) = 0 := by
  rw [List.countP_eq_zero]
  intro j hj
  cases hadmission : j.assignment.isAdmission with
  | false => simp [Job.hasPlace, hadmission]
  | true =>
    have hoccupation : j.assignment.isOccupation = false := by
      apply eq_false_of_ne_true
      intro hoccupation
      cases hadmission.symm.trans (j.assignment.not_isAdmission_of_isOccupation hoccupation)
    obtain ⟨time, ending, hstage⟩ := hsettled.finished hwf hj hoccupation
    simp [Job.hasPlace, hstage, Stage.isFinished]

/-- **Each stage of the gate leaves everything behind it untouched.** Whatever the engine is like and
whoever else is served in between, the first turn of an admission of some orders goes stage by stage, and
so does an admission that is performed alone. The detector checks something in no other turn. On every
course, the requests in progress are those from before and one for each admission under way; when all
that is performed has ended, they are as they were before, however each admission has ended. -/
theorem admission_goes_stage_by_stage {c : AppConfig} {service : Service} {store : StatusStore}
    {e : Engine Order Acknowledgement} (hdesk : e.desk = .forOrders c service store) :
    (∀ j orders, j.Comes orders → orders ≠ [] → StageByStage e orders
      (fun e' ending => e.jobTurn j = (e', .finished e.now ending))
      (fun d => (e.jobTurn j).1.detector = d)) ∧
    (e.AtRest → ∀ orders, orders ≠ [] → StageByStage e orders
      (fun e' ending =>
        (e.perform [(0, .process orders)]).1.unturned =
            { e'.unturned with nextNumber := e.nextNumber + 1 } ∧
          (e.perform [(0, .process orders)]).2 = [some (e.now, ending)])
      (fun d => (e.perform [(0, .process orders)]).1.detector = d)) ∧
    (e.AtRest → ∀ assignments : List (Nat × Assignment Order),
      (∀ e', Course (e.addJobs assignments).unturned e' →
        e'.requests = e.requests.plus (e'.jobs.countP (·.hasPlace)) ∧
        ∀ e'', Move e' e'' → e''.detector = e'.detector ∨
          ∃ j orders, j ∈ e'.jobs ∧ j.Comes orders ∧ e'' = e'.serveJob j) ∧
      (e.perform assignments).1.requests = e.requests ∧
      ∀ (i wait : Nat) orders, assignments[i]? = some (wait, .process orders) →
        ∃ time ending, (e.perform assignments).2[i]? = some (some (time, ending))) := by
  have hreview : e.desk.review = Order.checkBatch := by
    rw [hdesk]
    rfl
  refine ⟨?_, ?_, ?_⟩
  · intro j orders hcomes hsome
    rw [jobTurn_of_arriving e hcomes.arriving, hcomes.assignment]
    exact startAdmission_stages j.number hreview hsome
  · intro hrest orders hsome
    exact hrest.stages hreview hsome
  · intro hrest assignments
    have hwf := hrest.wellFormed assignments
    refine ⟨?_, ?_, ?_⟩
    · intro e' hcourse
      constructor
      · exact Course.placed hcourse hwf (hrest.placed assignments)
      · intro e'' hmove
        exact hmove.detector (hcourse.wellFormed hwf)
    · obtain ⟨done, hcourse, hsettled, hwf', hdone, _⟩ := perform_course hrest assignments
      have hplaced := Course.placed hcourse hwf (hrest.placed assignments)
      rw [Placed, hsettled.no_place hwf'] at hplaced
      have hsame := congrArg (·.requests) hdone
      exact hsame.trans hplaced
    · intro i wait orders hassigned
      obtain ⟨done, hcourse, hsettled, hwf', _, hendings⟩ := perform_course hrest assignments
      obtain ⟨j, hj, _, hassignment⟩ := hrest.exists_job hcourse hassigned
      obtain ⟨time, ending, hstage⟩ :=
        hsettled.finished hwf' (List.mem_of_getElem? hj) (by rw [hassignment]; rfl)
      refine ⟨time, ending, ?_⟩
      rw [hendings, List.getElem?_map, hj, Option.map_some, Job.ending?, hstage]

/-- Somebody waits for a connection, so that the breaker turns an admission away and counts a failure.
Nothing else has changed. -/
theorem admission_before_waiting_pool :
    let order := Order.limit 1 0 "C-1" "ACME" .buy (.ofNat 1) (.ofNat 10)
    let service : Service := { bulk := fun _ _ => .hangs, single := fun _ _ => .hangs }
    let pool : PoolHealth := { utilization := .error .noReading, waiting := .ok 1 }
    let e := begun (.forOrders {} service (.table 0)) {} {} (some pool) (Table.ofIds [1]) 5
    e.desk = .forOrders {} service (.table 0) ∧ e.AtRest ∧ [order] ≠ [] ∧
      Order.Reviewed [order] ∧
      e.breaker.admitBulk e.wall = .ok (.error (.overloaded 30), e.breaker.recordFailure 5) ∧
      (e.perform [(0, .process [order])]).1.unturned =
        { (e.setBreaker (e.breaker.recordFailure 5)).unturned with nextNumber := 1 } ∧
      (e.perform [(0, .process [order])]).2 = [some (0, .ok (.error (.overloaded 30)))] ∧
      (e.perform [(0, .process [order])]).1.requests = e.requests := by
  intro order service pool e
  have hrest : e.AtRest := begun_atRest _ _ _ _ _ _
  have hdesk : e.desk = .forOrders {} service (.table 0) := rfl
  have hreviewed : Order.Reviewed [order] := Order.checkBatch_eq_ok_iff.mp (by decide +kernel)
  have hasked : e.breaker.admitBulk e.wall =
      .ok (.error (.overloaded 30), e.breaker.recordFailure 5) := by
    have hunhealthy : e.breaker.poolHealthy = false := by
      simp [e, begun, pool, Breaker.poolHealthy, Breaker.fresh, PoolHealth.isHealthy]
    have hhint : Breaker.hintSeconds 30000 = 30 := by decide
    rw [Breaker.admitBulk_closed rfl, hunhealthy, ← hhint]
    rfl
  obtain ⟨_, halone, hall⟩ := admission_goes_stage_by_stage hdesk
  have hstages := halone hrest [order] (List.cons_ne_nil _ _)
  obtain ⟨hengine, hending⟩ := hstages.refused hreviewed _ _ hasked
  obtain ⟨_, hrequests, _⟩ := hall hrest [(0, .process [order])]
  exact ⟨hdesk, hrest, List.cons_ne_nil _ _, hreviewed, hasked, hengine, hending, hrequests⟩

end Engine

end OrderAdmission
