import OrderAdmission.Proofs.WellFormed

/-!
# The routes of a job

`JobTurn` says what a turn of a job does to the floor. What it does at the desk, to the breaker, the
detector, the ledger and the journal, is said here: `Route` lists the turns of a job once more, each
with the engine and the stage that it leads to.

A job that sends has a few `Ways` to go on, and between one and the next it only does paper work
(`Paper`): it reports to the breaker, asks the breaker or the detector, or is counted as a request.
The main result is `jobTurn_route`: **every turn of a job goes one of the routes**. What the journal
is told in a turn, and what becomes of the breaker, is read off the list.
-/
namespace OrderAdmission

variable {P R : Type}

namespace Assignment

def isSubmission : Assignment P → Bool
  | .submit _ | .process _ => true
  | _ => false

def isSender : Assignment P → Bool
  | .execute _ | .submit _ | .process _ => true
  | _ => false

theorem isSender_of_isSubmission {a : Assignment P} (h : a.isSubmission = true) :
    a.isSender = true := by
  cases a <;> first | rfl | cases h

theorem tasks_of_isSubmission {a : Assignment P} (h : a.isSubmission = true) :
    a.tasks = BatchTask.ofPayloads a.orders := by
  cases a <;> first | rfl | cases h

end Assignment

/-- Whether a job at this stage has yet to begin, or has to do with bulk calls. -/
def Stage.isSending : Stage P R → Bool
  | .arriving _ | .calling _ | .backingOff _ _ _ => true
  | _ => false

theorem Stage.not_isJoining_of_isSending {stage : Stage P R} (h : stage.isSending = true) :
    stage.isJoining = false := by
  cases stage <;> first | rfl | cases h

/-- Whether a job ends without a receipt. -/
def isRefusal : Ending R → Bool
  | .ok (.ok _) => false
  | _ => true

namespace Engine

/-! ### Paper work -/

/-- One thing that a job does at the desk on its way. -/
inductive Act (job : Nat) (e : Engine P R) : Engine P R → Prop where
  | reports (r : Report) : Act job e (e.report job r)
  | asks {allowed : Bool} {breaker : Breaker}
      (asked : e.breaker.allow e.wall = .ok (allowed, breaker)) : Act job e (e.setBreaker breaker)
  | admits {answer : Except GateError Unit} {breaker : Breaker}
      (asked : e.breaker.admitBulk e.wall = .ok (answer, breaker)) :
      Act job e (e.setBreaker breaker)
  | checks : Act job e (e.setDetector (e.detector.check e.probes.snapshot).2)
  | enters : Act job e e.enterRequest

/-- Any amount of paper work of a job. -/
abbrev Paper (job : Nat) : Engine P R → Engine P R → Prop := Relation.ReflTransGen (Act job)

/-- What has been added to a journal since. -/
def Adds (p : Event P R → Prop) (e e' : Engine P R) : Prop :=
  ∃ added, e'.journal = added ++ e.journal ∧ ∀ x ∈ added, p x.event

namespace Adds

variable {p q : Event P R → Prop} {e e₁ e₂ : Engine P R}

theorem nothing (h : e₁.journal = e.journal) : Adds p e e₁ := ⟨[], h, by simp⟩

theorem one {x : Entry P R} (h : e₁.journal = x :: e.journal) (hp : p x.event) : Adds p e e₁ :=
  ⟨[x], h, by simpa using hp⟩

theorem trans (h₁ : Adds p e e₁) (h₂ : Adds p e₁ e₂) : Adds p e e₂ := by
  obtain ⟨added₁, hjournal₁, hp₁⟩ := h₁
  obtain ⟨added₂, hjournal₂, hp₂⟩ := h₂
  refine ⟨added₂ ++ added₁, ?_, ?_⟩
  · rw [hjournal₂, hjournal₁, List.append_assoc]
  · intro x hx
    rcases List.mem_append.mp hx with hx | hx
    · exact hp₂ x hx
    · exact hp₁ x hx

theorem mono (h : Adds p e e₁) (himp : ∀ event, p event → q event) : Adds q e e₁ := by
  obtain ⟨added, hjournal, hp⟩ := h
  exact ⟨added, hjournal, fun x hx => himp _ (hp x hx)⟩

theorem mem (h : Adds p e e₁) {x : Entry P R} (hx : x ∈ e₁.journal) :
    x ∈ e.journal ∨ p x.event := by
  obtain ⟨added, hjournal, hp⟩ := h
  rw [hjournal, List.mem_append] at hx
  exact hx.symm.imp id (hp x)

theorem old (h : Adds p e e₁) {x : Entry P R} (hx : x ∈ e.journal) : x ∈ e₁.journal := by
  obtain ⟨added, hjournal, _⟩ := h
  rw [hjournal]
  exact List.mem_append_right added hx

end Adds

/-- Paper work changes the breaker, the detector and the requests, and tells the journal of reports
only. -/
structure PaperFrame (job : Nat) (e e' : Engine P R) : Prop where
  floor : SameFloor e e'
  epoch : e'.epoch = e.epoch
  ledger : e'.ledger = e.ledger
  bulkCalls : e'.bulkCalls = e.bulkCalls
  journal : Adds (fun event => ∃ r wall, event = .reported job r wall) e e'

theorem PaperFrame.trans {job : Nat} {e e₁ e₂ : Engine P R} (h₁ : PaperFrame job e e₁)
    (h₂ : PaperFrame job e₁ e₂) : PaperFrame job e e₂ :=
  ⟨h₁.floor.trans h₂.floor, h₂.epoch.trans h₁.epoch, h₂.ledger.trans h₁.ledger,
    h₂.bulkCalls.trans h₁.bulkCalls, h₁.journal.trans h₂.journal⟩

theorem Act.frame {job : Nat} {e e' : Engine P R} (h : Act job e e') : PaperFrame job e e' := by
  cases h with
  | reports r => exact ⟨report_floor e job r, rfl, rfl, rfl, .one rfl ⟨r, e.wall, rfl⟩⟩
  | asks asked => exact ⟨setBreaker_floor e _, rfl, rfl, rfl, .nothing rfl⟩
  | admits asked => exact ⟨setBreaker_floor e _, rfl, rfl, rfl, .nothing rfl⟩
  | checks => exact ⟨setDetector_floor e _, rfl, rfl, rfl, .nothing rfl⟩
  | enters => exact ⟨enterRequest_floor e, rfl, rfl, rfl, .nothing rfl⟩

theorem Paper.frame {job : Nat} {e e' : Engine P R} (h : Paper job e e') : PaperFrame job e e' := by
  induction h with
  | refl => exact ⟨SameFloor.refl e, rfl, rfl, rfl, .nothing rfl⟩
  | tail _ hlast ih => exact ih.trans hlast.frame

/-! ### Ways of sending -/

/-- A bulk call is made; `attempt` counts from one. -/
def placeCall (e : Engine P R) (job : Nat) (a : Assignment P) (attempt deadline : Nat) :
    Engine P R × Stage P R :=
  ({ e with bulkCalls := e.bulkCalls + 1 }.note (.bulkCalled job a.orders),
    .calling
      { attempt, deadline
        call := (e.desk.bulk e.bulkCalls a.orders).since e.now
        cutoff := min (e.now + e.desk.fallback.callTimeout) deadline })

theorem callBulk_eq (e : Engine P R) (job : Nat) (a : Assignment P) (attempt deadline : Nat) :
    e.callBulk job a attempt deadline =
      if maxAttempts < attempt then e.conclude a (.error .overflow)
      else e.placeCall job a attempt deadline := rfl

/-- The ways in which a job that sends can go on after so many bulk calls. -/
inductive Ways (e : Engine P R) (job : Nat) (a : Assignment P) (attempts : Nat) :
    Engine P R × Stage P R → Prop where
  /-- It ends without a receipt. -/
  | refused {e' : Engine P R} {ending : Ending R} (paper : Paper job e e')
      (refusal : isRefusal ending = true) : Ways e job a attempts (e'.conclude a ending)
  /-- It makes the next bulk call. -/
  | calls {e' : Engine P R} {deadline : Nat} (paper : Paper job e e')
      (submission : a.isSubmission = true) :
      Ways e job a attempts (e'.placeCall job a (attempts + 1) deadline)
  /-- It waits before the next bulk call. -/
  | waits {e' : Engine P R} {deadline due : Nat} (paper : Paper job e e')
      (submission : a.isSubmission = true) :
      Ways e job a attempts (e', .backingOff attempts deadline due)
  /-- The breaker admits its tasks, and the first chunk of them begins. -/
  | opens {e' : Engine P R} {breaker : Breaker} (paper : Paper job e e') (some : a.tasks ≠ [])
      (valid : checkTasks a.tasks = .ok ())
      (admitted : e'.breaker.admitBulk e'.wall = .ok (.ok (), breaker)) :
      Ways e job a attempts ((e'.setBreaker breaker).openChunk job attempts (.whole a.tasks))
  /-- It has nothing to send. -/
  | empties {e' : Engine P R} (paper : Paper job e e') (none : a.tasks = []) :
      Ways e job a attempts (e'.answered job a attempts .empty)

section Ways

variable {e e₁ : Engine P R} {job attempts : Nat} {a : Assignment P}

theorem Ways.after {result : Engine P R × Stage P R} (h : Ways e₁ job a attempts result)
    (hpaper : Paper job e e₁) : Ways e job a attempts result := by
  cases h with
  | refused paper refusal => exact .refused (hpaper.trans paper) refusal
  | calls paper submission => exact .calls (hpaper.trans paper) submission
  | waits paper submission => exact .waits (hpaper.trans paper) submission
  | opens paper some valid admitted => exact .opens (hpaper.trans paper) some valid admitted
  | empties paper none => exact .empties (hpaper.trans paper) none

theorem startBatch_ways (e : Engine P R) (job : Nat) (a : Assignment P) (attempts : Nat) :
    Ways e job a attempts (followStart job a attempts (e.startBatch job attempts a.tasks)) := by
  rw [startBatch_eq]
  split
  · rename_i hempty
    exact .empties .refl (List.isEmpty_iff.mp hempty)
  · rename_i hsome
    split
    · exact .refused .refl rfl
    · rename_i hvalid
      split
      · exact .refused .refl rfl
      · rename_i hasked
        exact .refused (.single (.admits hasked)) rfl
      · rename_i hasked
        exact .opens .refl (by simpa using hsome) hvalid hasked

theorem sendSingly_ways (e : Engine P R) (job : Nat) {a : Assignment P} (attempts : Nat)
    (hsubmission : a.isSubmission = true) :
    Ways e job a attempts (e.sendSingly job a attempts) := by
  unfold sendSingly
  rw [← Assignment.tasks_of_isSubmission hsubmission]
  exact startBatch_ways e job a attempts

theorem callBulk_ways (e : Engine P R) (job : Nat) {a : Assignment P} (attempts deadline : Nat)
    (hsubmission : a.isSubmission = true) :
    Ways e job a attempts (e.callBulk job a (attempts + 1) deadline) := by
  rw [callBulk_eq]
  split
  · exact .refused .refl rfl
  · exact .calls .refl hsubmission

theorem fallBack_ways (e : Engine P R) (job : Nat) {a : Assignment P} (attempts : Nat)
    (failure : DownstreamFailure) (hsubmission : a.isSubmission = true) :
    Ways e job a attempts (e.fallBack job a attempts failure) := by
  simp only [fallBack]
  split
  · exact .refused .refl rfl
  · exact sendSingly_ways e job attempts hsubmission

theorem bulkFailed_ways (e : Engine P R) (job : Nat) {a : Assignment P} (run : BulkRun R)
    (failure : DownstreamFailure) (hsubmission : a.isSubmission = true) :
    Ways e job a run.attempt (e.bulkFailed job a run failure) := by
  have htold : Paper job e (e.report job .failure) := .single (.reports .failure)
  rw [bulkFailed_eq]
  simp only
  split
  · exact .refused .refl rfl
  · split
    · exact (fallBack_ways _ job run.attempt failure hsubmission).after htold
    · split
      · exact .refused htold rfl
      · rename_i hasked
        exact (fallBack_ways _ job run.attempt failure hsubmission).after (htold.tail (.asks hasked))
      · rename_i hasked
        split
        · exact (fallBack_ways _ job run.attempt failure hsubmission).after
            (htold.tail (.asks hasked))
        · exact .waits (htold.tail (.asks hasked)) hsubmission

theorem startSubmission_ways (e : Engine P R) (job : Nat) {a : Assignment P}
    (hsubmission : a.isSubmission = true) : Ways e job a 0 (e.startSubmission job a) := by
  simp only [startSubmission]
  split
  · exact sendSingly_ways e job 0 hsubmission
  · split
    · exact .refused .refl rfl
    · split
      · exact callBulk_ways e job 0 _ hsubmission
      · exact .refused .refl rfl

theorem checkOverload_ways (e : Engine P R) (job : Nat) {a : Assignment P}
    (hsubmission : a.isSubmission = true) : Ways e job a 0 (e.checkOverload job a) := by
  simp only [checkOverload]
  split
  · exact .refused (.single .checks) rfl
  · exact (startSubmission_ways _ job hsubmission).after (.single .checks)

end Ways

/-! ### Routes -/

/-- The bulk call of a job has come back with items, whether or not there are as many as orders. -/
def BulkAnswered (e : Engine P R) (j : Job P R) (run : BulkRun R)
    (items : List (Except DownstreamFailure R)) : Prop :=
  j.stage = .calling run ∧ run.call.reply? e.now = some (some (.ok items))

/-- What a turn of a job can lead to. -/
inductive Route (e : Engine P R) (j : Job P R) : Engine P R × Stage P R → Prop where
  /-- A job that begins to send, or has waited before a bulk call, or whose bulk call has failed, goes
  on. -/
  | sends {attempts : Nat} {result : Engine P R × Stage P R} (sender : j.assignment.isSender = true)
      (source : j.stage.isSending = true) (unanswered : ∀ run items, ¬ BulkAnswered e j run items)
      (h : Ways (e.heard j) j.number j.assignment attempts result) : Route e j result
  /-- A bulk call has come back with the wrong number of items. -/
  | miscounts {run : BulkRun R} {items : List (Except DownstreamFailure R)}
      (answered : BulkAnswered e j run items) (wrong : items.length ≠ j.assignment.orders.length) :
      Route e j ((e.heard j).conclude j.assignment (.ok (.error (.downstream
        (.miscounted items.length j.assignment.orders.length) false))))
  /-- A bulk call has come back with an item for each order. -/
  | answers {run : BulkRun R} {items : List (Except DownstreamFailure R)}
      (answered : BulkAnswered e j run items) (right : items.length = j.assignment.orders.length) :
      Route e j (((e.heard j).report j.number .success).answered j.number j.assignment run.attempt
        { outcomes := items.map .ofItem })
  /-- An assignment without orders is done at once. -/
  | idles {due : Nat} {receipt : Receipt R} (source : j.stage = .arriving due)
      (submission : j.assignment.isSubmission = true) (none : j.assignment.orders = [])
      (empty : receipt = .batch .empty ∨
        receipt = .submission { phase := .success, result := .empty, bulkAttempts := 0 }) :
      Route e j (e, .finished e.now (.ok (.ok receipt)))
  /-- Orders do not pass the review. -/
  | rejects {due : Nat} {error : GateError} (source : j.stage = .arriving due)
      (admission : j.assignment.isAdmission = true)
      (reviewed : e.desk.review j.assignment.orders = .error error) :
      Route e j (e, .finished e.now (.ok (.error error)))
  /-- A status write begins. -/
  | writes {due : Nat} {updates : List StatusUpdate} (source : j.stage = .arriving due)
      (write : j.assignment = .write updates) :
      Route e j (followWrite j.assignment none (e.openWrite j.number updates))
  /-- A status write goes on. -/
  | proceeds {result : Option (BatchResult R)} {run : WriteRun}
      (source : j.stage = .writing result run) :
      Route e j (followWrite j.assignment result (e.writeTurn j.number run))
  /-- Somebody comes for the table. -/
  | comes {due : Nat} (source : j.stage = .arriving due)
      (occupation : j.assignment.isOccupation = true) :
      Route e j (e.setLedger (e.ledger.request j.number), .approaching)
  /-- Somebody has got the table. -/
  | occupies (source : j.stage = .approaching) :
      Route e j (e, .occupying ((stayOf j.assignment).map (e.now + ·)))
  /-- Somebody gives the table back. -/
  | vacates {due : Option Nat} (source : j.stage = .occupying due) :
      Route e j (e.setLedger (e.ledger.leave j.number), .finished e.now (.ok (.ok .vacated)))
  /-- The next chunk of a batch begins after a pause. -/
  | resumes {attempts due : Nat} {run : BatchRun P R} (source : j.stage = .pausing attempts run due) :
      Route e j (e.openChunk j.number attempts run)
  /-- The outcome of a task is noted. -/
  | collects {attempts : Nat} {run : BatchRun P R} {w : Worker P R}
      (source : j.stage = .joining attempts run)
      (found : (e.workersOf j.number).find? (·.hasEnded) = some w) :
      Route e j (e.collect w, .joining attempts (run.noteOutcome w.index w.outcome?))
  /-- A chunk is closed, and a pause begins. -/
  | pauses {attempts due : Nat} {run : BatchRun P R} (source : j.stage = .joining attempts run)
      (none : (e.workersOf j.number).find? (·.hasEnded) = none) (some : run.remaining ≠ []) :
      Route e j ((e.settled j.number run).1,
        .pausing attempts { run with outcomes := (e.settled j.number run).2 } due)
  /-- A chunk is closed, and the next one begins at once. -/
  | reopens {attempts : Nat} {run : BatchRun P R} (source : j.stage = .joining attempts run)
      (none : (e.workersOf j.number).find? (·.hasEnded) = none) (some : run.remaining ≠ []) :
      Route e j ((e.settled j.number run).1.openChunk j.number attempts
        { run with outcomes := (e.settled j.number run).2 })
  /-- The last chunk is closed. -/
  | finishes {attempts : Nat} {run : BatchRun P R} (source : j.stage = .joining attempts run)
      (none : (e.workersOf j.number).find? (·.hasEnded) = none) (last : run.remaining = []) :
      Route e j ((e.settled j.number run).1.answered j.number j.assignment attempts
        { outcomes := (e.settled j.number run).2 })
  /-- A holder comes for its permit, takes it, gives up or gives it back. -/
  | holds {stay : Option Nat} {limiter : Limiter} {stage : Stage P R} (hold : j.assignment = .hold stay)
      (before : (∃ due, j.stage = .arriving due) ∨ (∃ limit, j.stage = .queued limit) ∨
        ∃ since due, j.stage = .holding since due)
      (after : (∃ limit, stage = .queued limit) ∨ (∃ since due, stage = .holding since due) ∨
        (∃ since, stage = .finished e.now (.ok (.ok (.permit since)))) ∨
        ∃ limit, stage = .finished e.now (.ok (.error (.permitTimeout limit)))) :
      Route e j (e.setLimiter limiter, stage)

/-- What a turn of a job at work on a chunk can lead to. -/
inductive Joins (e : Engine P R) (job : Nat) (a : Assignment P) (attempts : Nat)
    (run : BatchRun P R) : Engine P R × Stage P R → Prop where
  | collects {w : Worker P R} (found : (e.workersOf job).find? (·.hasEnded) = some w) :
      Joins e job a attempts run
        (e.collect w, .joining attempts (run.noteOutcome w.index w.outcome?))
  | pauses {due : Nat} (none : (e.workersOf job).find? (·.hasEnded) = none)
      (some : run.remaining ≠ []) :
      Joins e job a attempts run ((e.settled job run).1,
        .pausing attempts { run with outcomes := (e.settled job run).2 } due)
  | reopens (none : (e.workersOf job).find? (·.hasEnded) = none) (some : run.remaining ≠ []) :
      Joins e job a attempts run ((e.settled job run).1.openChunk job attempts
        { run with outcomes := (e.settled job run).2 })
  | finishes (none : (e.workersOf job).find? (·.hasEnded) = none) (last : run.remaining = []) :
      Joins e job a attempts run ((e.settled job run).1.answered job a attempts
        { outcomes := (e.settled job run).2 })

/-- What a turn from this stage leads to, where a batch or a status write is under way. -/
def Onward (e : Engine P R) (job : Nat) (a : Assignment P) (result : Engine P R × Stage P R) :
    Stage P R → Prop
  | .joining attempts run => Joins e job a attempts run result
  | .pausing attempts run _ => result = e.openChunk job attempts run
  | .writing written run => result = followWrite a written (e.writeTurn job run)
  | _ => True

theorem Route.onward {e : Engine P R} {j : Job P R} {result : Engine P R × Stage P R}
    (h : Route e j result) : Onward e j.number j.assignment result j.stage := by
  cases h with
  | sends sender source unanswered h =>
    cases hstage : j.stage with
    | joining attempts run | pausing attempts run due | writing written run =>
      rw [hstage] at source
      cases source
    | _ => trivial
  | miscounts answered wrong =>
    rw [answered.1]
    trivial
  | answers answered right =>
    rw [answered.1]
    trivial
  | proceeds source | resumes source =>
    rw [source]
    rfl
  | collects source found =>
    rw [source]
    exact .collects found
  | pauses source none some =>
    rw [source]
    exact .pauses none some
  | reopens source none some =>
    rw [source]
    exact .reopens none some
  | finishes source none last =>
    rw [source]
    exact .finishes none last
  | holds hold before after =>
    rcases before with ⟨_, source⟩ | ⟨_, source⟩ | ⟨_, _, source⟩ <;> (rw [source]; trivial)
  | idles source | rejects source | writes source | comes source | occupies source
  | vacates source =>
    rw [source]
    trivial

end Engine

/-- Which assignments have jobs at which stages. -/
def Stage.Suits (a : Assignment P) : Stage P R → Prop
  | .calling _ => a.isSubmission = true
  | .backingOff _ _ _ => a.isSubmission = true
  | .joining _ _ => a.isSender = true
  | .pausing _ _ _ => a.isSender = true
  | .writing result _ => result.isSome = a.isAdmission
  | .occupying due => due.isSome = (Engine.stayOf a).isSome
  | _ => True

namespace Engine

/-- A job that waits for no bulk call has heard nothing. -/
theorem Ways.route {e : Engine P R} {j : Job P R} {attempts : Nat}
    {result : Engine P R × Stage P R} (h : Ways e j.number j.assignment attempts result)
    (hsender : j.assignment.isSender = true) (hsending : j.stage.isSending = true)
    (hcalling : ∀ run, j.stage ≠ .calling run) : Route e j result := by
  have hheard : e.heard j = e := by
    unfold heard
    split
    · rename_i run hstage
      exact absurd hstage (hcalling run)
    · rfl
  refine .sends hsender hsending ?_ (hheard.symm ▸ h)
  exact fun run _ hanswered => hcalling run hanswered.1

theorem bulkTurn_route {e : Engine P R} {j : Job P R} {run : BulkRun R}
    (source : j.stage = .calling run) (hsubmission : j.assignment.isSubmission = true) :
    Route e j (e.bulkTurn j.number j.assignment run) := by
  have hsender := Assignment.isSender_of_isSubmission hsubmission
  have hheard : e.heard j = e.heardBulk j.number run := by rw [heard, source]
  have hsending : j.stage.isSending = true := by rw [source]; rfl
  have hunanswered {reply : Option (Option (BulkAnswer R))} (hreply : run.call.reply? e.now = reply)
      (hnone : ∀ items, reply ≠ some (some (.ok items))) :
      ∀ run items, ¬ BulkAnswered e j run items := by
    rintro run' items ⟨hsource, hitems⟩
    obtain rfl : run = run' := by simpa using source.symm.trans hsource
    exact hnone items (hreply.symm.trans hitems)
  -- What comes back is heard in any case, and the job goes on from there.
  simp only [bulkTurn]
  cases hreply : run.call.reply? e.now with
  | none =>
    have hroute := Route.sends hsender hsending (hunanswered hreply (by simp))
      (bulkFailed_ways (e.heard j) j.number run
        (.timedOut s!"bulk call exceeded {e.desk.fallback.callTimeout}ms") hsubmission)
    simp only [hheard, heardBulk, hreply] at hroute
    exact hroute
  | some reply =>
    rcases reply with _ | failure | items
    · have hways : Ways (e.heard j) j.number j.assignment run.attempt
          ((e.heard j).conclude j.assignment (.error .collaborator)) := .refused .refl rfl
      have hroute := Route.sends hsender hsending (hunanswered hreply (by simp)) hways
      simp only [hheard, heardBulk, hreply] at hroute
      exact hroute
    · have hroute := Route.sends hsender hsending (hunanswered hreply (by simp))
        (bulkFailed_ways (e.heard j) j.number run failure hsubmission)
      simp only [hheard, heardBulk, hreply] at hroute
      exact hroute
    · simp only
      split
      · rename_i hcount
        have hroute := Route.answers ⟨source, hreply⟩ hcount
        simp only [hheard, heardBulk, hreply] at hroute
        exact hroute
      · rename_i hcount
        have hroute := Route.miscounts ⟨source, hreply⟩ hcount
        simp only [hheard, heardBulk, hreply] at hroute
        rw [bulkFailed_eq]
        exact hroute

/-- An admission is reviewed first, and then sends. -/
theorem startAdmission_route {e : Engine P R} {j : Job P R} {due : Nat}
    (source : j.stage = .arriving due) (hadmission : j.assignment.isAdmission = true)
    (hsubmission : j.assignment.isSubmission = true) :
    Route e j (e.startAdmission j.number j.assignment) := by
  have hsends {result : Engine P R × Stage P R} (h : Ways e j.number j.assignment 0 result) :
      Route e j result :=
    h.route (Assignment.isSender_of_isSubmission hsubmission) (by rw [source]; rfl) (by simp [source])
  have hentered : Paper j.number e e.enterRequest := .single .enters
  rw [startAdmission_eq]
  split
  · rename_i hempty
    exact .idles source hsubmission (List.isEmpty_iff.mp hempty) (Or.inl rfl)
  · split
    · rename_i hreview
      exact .rejects source hadmission hreview
    · split
      · exact hsends (.refused hentered rfl)
      · rename_i hasked
        exact hsends (.refused (hentered.tail (.admits hasked)) rfl)
      · rename_i hasked
        exact hsends ((checkOverload_ways _ j.number hsubmission).after
          (hentered.tail (.admits hasked)))

theorem keepPermit_route {e : Engine P R} {j : Job P R} {hold : Option Nat} (limiter : Limiter)
    (stay : Option Nat) (hassignment : j.assignment = .hold hold)
    (hbefore : (∃ due, j.stage = .arriving due) ∨ (∃ limit, j.stage = .queued limit) ∨
      ∃ since due, j.stage = .holding since due) :
    Route e j ((e.setLimiter limiter).keepPermit stay) := by
  cases stay with
  | some stay => exact .holds hassignment hbefore (Or.inr (Or.inl ⟨_, _, rfl⟩))
  | none => exact .holds hassignment hbefore (Or.inr (Or.inr (Or.inl ⟨_, rfl⟩)))

theorem startJob_route {e : Engine P R} {j : Job P R} {due : Nat}
    (source : j.stage = .arriving due) : Route e j (e.startJob j.number j.assignment) := by
  have hsends {result : Engine P R × Stage P R} (hsender : j.assignment.isSender = true)
      (h : Ways e j.number j.assignment 0 result) : Route e j result :=
    h.route hsender (by rw [source]; rfl) (by simp [source])
  cases hassignment : j.assignment with
  | hold stay =>
    simp only [startJob]
    split
    · exact keepPermit_route _ stay hassignment (Or.inl ⟨due, source⟩)
    · exact .holds hassignment (Or.inl ⟨due, source⟩) (Or.inl ⟨_, rfl⟩)
  | execute tasks =>
    have hways := startBatch_ways e j.number j.assignment 0
    rw [hassignment] at hways
    exact hsends (by rw [hassignment]; rfl) (by rw [hassignment]; exact hways)
  | submit orders =>
    simp only [startJob]
    split
    · rename_i hempty
      exact .idles source (by rw [hassignment]; rfl)
        (by rw [hassignment]; exact List.isEmpty_iff.mp hempty) (Or.inr rfl)
    · refine hsends (by rw [hassignment]; rfl) ?_
      rw [hassignment]
      exact startSubmission_ways e j.number rfl
  | process orders =>
    have hroute := startAdmission_route (e := e) source (by rw [hassignment]; rfl)
      (by rw [hassignment]; rfl)
    rwa [hassignment] at hroute
  | write updates =>
    have hroute := Route.writes (e := e) source hassignment
    rwa [hassignment] at hroute
  | occupy stay => exact .comes source (by rw [hassignment]; rfl)

theorem joinTurn_route {e : Engine P R} {j : Job P R} {attempts : Nat} {run : BatchRun P R}
    (source : j.stage = .joining attempts run) :
    Route e j (followBatch j.number j.assignment attempts (e.joinTurn j.number attempts run)) := by
  rw [joinTurn_eq]
  cases hfound : (e.workersOf j.number).find? (·.hasEnded) with
  | some w => exact .collects source hfound
  | none =>
    -- A job that can go on with nobody to collect has nobody at work, or has run out of time.
    simp only [endChunk_eq]
    by_cases hlast : run.remaining = []
    · simp only [hlast, List.isEmpty_nil, ↓reduceIte]
      exact .finishes source hfound hlast
    · have hempty : run.remaining.isEmpty = false := by simpa using hlast
      simp only [hempty, Bool.false_eq_true, ↓reduceIte]
      split
      · exact .pauses source hfound hlast
      · exact .reopens source hfound hlast

/-- **Every turn of a job goes one of the routes.** -/
theorem jobTurn_route {e : Engine P R} {j : Job P R}
    (hsound : j.stage.Sound e.desk.fallback.retry.maxRetries j.assignment)
    (hsuits : j.stage.Suits j.assignment) (hready : j.isReady e = true) :
    Route e j (e.jobTurn j) := by
  cases hstage : j.stage with
  | arriving due =>
    simp only [jobTurn, hstage]
    exact startJob_route hstage
  | queued limit =>
    rw [hstage] at hsound
    obtain ⟨stay, hassignment⟩ := hsound
    simp only [jobTurn, hstage]
    split
    · exact keepPermit_route _ _ hassignment (Or.inr (Or.inl ⟨limit, hstage⟩))
    · exact .holds hassignment (Or.inr (Or.inl ⟨limit, hstage⟩))
        (Or.inr (Or.inr (Or.inr ⟨_, rfl⟩)))
  | holding since due =>
    rw [hstage] at hsound
    obtain ⟨stay, hassignment⟩ := hsound
    simp only [jobTurn, hstage]
    exact .holds hassignment (Or.inr (Or.inr ⟨since, due, hstage⟩))
      (Or.inr (Or.inr (Or.inl ⟨_, rfl⟩)))
  | approaching =>
    simp only [jobTurn, hstage]
    exact .occupies hstage
  | occupying due =>
    simp only [jobTurn, hstage]
    exact .vacates hstage
  | calling run =>
    rw [hstage] at hsuits
    simp only [jobTurn, hstage]
    exact bulkTurn_route hstage hsuits
  | backingOff attempt deadline due =>
    rw [hstage] at hsuits
    simp only [jobTurn, hstage]
    exact (callBulk_ways e j.number attempt deadline hsuits).route
      (Assignment.isSender_of_isSubmission hsuits) (by rw [hstage]; rfl) (by simp [hstage])
  | joining attempts run =>
    simp only [jobTurn, hstage]
    exact joinTurn_route hstage
  | pausing attempts run due =>
    simp only [jobTurn, hstage]
    exact .resumes hstage
  | writing result run =>
    simp only [jobTurn, hstage]
    exact .proceeds hstage
  | finished time ending =>
    simp only [Job.isReady, hstage] at hready
    cases hready

/-! ### What the journal is told -/

/-- A status write tells the journal of its calls to the store and leaves the breaker alone. -/
structure Stores (job : Nat) (e e' : Engine P R) : Prop where
  breaker : e'.breaker = e.breaker
  epoch : e'.epoch = e.epoch
  journal : Adds (fun event => ∃ call, event = .stored job call) e e'

theorem Stores.trans {job : Nat} {e e₁ e₂ : Engine P R} (h₁ : Stores job e e₁)
    (h₂ : Stores job e₁ e₂) : Stores job e e₂ :=
  ⟨h₂.breaker.trans h₁.breaker, h₂.epoch.trans h₁.epoch, h₁.journal.trans h₂.journal⟩

section Stores

variable (e : Engine P R) (job : Nat)

theorem conclude_stores (a : Assignment P) (ending : Ending R) :
    Stores job e (e.conclude a ending).1 := by
  rw [conclude_eq]
  exact ⟨rfl, rfl, .nothing rfl⟩

theorem followWrite_stores (a : Assignment P) (result : Option (BatchResult R))
    (turn : Engine P R × WriteTurn) : Stores job turn.1 (followWrite a result turn).1 := by
  rcases turn with ⟨e, run | crash | error | rows⟩
  · exact ⟨rfl, rfl, .nothing rfl⟩
  · exact conclude_stores e job a _
  · exact conclude_stores e job a _
  · cases result <;> exact conclude_stores e job a _

theorem endWrite_stores (ending : Except Crash (Except GateError Nat)) :
    Stores job e (e.endWrite job ending).1 := by
  simp only [endWrite]
  split <;> exact ⟨rfl, rfl, .nothing rfl⟩

theorem note_stores (call : StoreCall) : Stores job e (e.note (.stored job call)) :=
  ⟨rfl, rfl, .one rfl ⟨call, rfl⟩⟩

theorem openWrite_stores (updates : List StatusUpdate) :
    Stores job e (e.openWrite job updates).1 := by
  simp only [openWrite]
  split
  · exact ⟨rfl, rfl, .nothing rfl⟩
  · split
    · exact ⟨rfl, rfl, .nothing rfl⟩
    · split <;> exact ⟨rfl, rfl, .one rfl ⟨.begin, rfl⟩⟩

theorem nextStatement_stores (w : WriteRun) : Stores job e (e.nextStatement job w).1 := by
  unfold nextStatement
  split
  · exact note_stores e job _
  · exact note_stores e job _
  · exact (show Stores job e (e.commitStaged job w.staged) from
      ⟨rfl, rfl, .one rfl ⟨.commit, rfl⟩⟩).trans (endWrite_stores _ job _)
  · exact note_stores e job _

theorem rollBack_stores (w : WriteRun) (error : GateError) :
    Stores job e (e.rollBack job w error).1 := by
  simp only [rollBack]
  split
  · exact (note_stores e job .rollback).trans (endWrite_stores _ job _)
  · exact note_stores e job .rollback

theorem afterStatement_stores (w : WriteRun) (counts : List Nat) :
    Stores job e (e.afterStatement job w counts).1 := by
  simp only [afterStatement]
  split
  · exact nextStatement_stores e job w
  · split
    · exact rollBack_stores e job w _
    · exact nextStatement_stores e job _

theorem writeTurn_stores (w : WriteRun) : Stores job e (e.writeTurn job w).1 := by
  unfold writeTurn
  split
  · split
    · exact nextStatement_stores e job w
    · exact endWrite_stores e job _
  · split
    · exact nextStatement_stores e job w
    · exact endWrite_stores e job _
    · exact endWrite_stores e job _
    · exact endWrite_stores e job _
  · split
    · split
      · exact endWrite_stores e job _
      · exact afterStatement_stores e job _ _
    · exact endWrite_stores e job _
  · split
    · exact afterStatement_stores e job w _
    · exact rollBack_stores e job w _
    · exact endWrite_stores e job _
    · exact endWrite_stores e job _
  · split <;> exact endWrite_stores e job _
  · split <;> exact endWrite_stores e job _

theorem answered_stores (a : Assignment P) (attempts : Nat) (r : BatchResult R) :
    Stores job e (e.answered job a attempts r).1 := by
  cases a with
  | process orders =>
    simp only [answered]
    rw [placeOrders_eq]
    split
    · exact conclude_stores e job _ _
    · rename_i updates cache _
      have hread : Stores job e (e.setCache cache) := ⟨rfl, rfl, .nothing rfl⟩
      exact (hread.trans (openWrite_stores (e.setCache cache) job updates)).trans
        (followWrite_stores job _ _ _)
  | _ => exact conclude_stores e job _ _

end Stores

theorem settleChunk_paper (e : Engine P R) (job : Nat) (reason : String) (chunk : List Nat)
    (outcomes : List (Outcome R)) : Paper job e (e.settleChunk job reason chunk outcomes).1 := by
  induction chunk generalizing e outcomes with
  | nil => exact .refl
  | cons index rest ih =>
    simp only [settleChunk]
    split
    · exact .head (.reports .failure) (ih _ _)
    · exact ih e outcomes

theorem dismissAll_journal (e : Engine P R) (job : Nat) :
    Adds (fun event => ∃ position told, event = .cutOff job position told) e (e.dismissAll job) := by
  refine ⟨e.cutOffs (e.workersOf job), rfl, ?_⟩
  intro x hx
  obtain ⟨w, hw, rfl⟩ := List.mem_map.mp (List.mem_reverse.mp hx)
  have hjob : w.job = job := by simpa using (List.mem_filter.mp hw).2
  exact ⟨w.position, w.told?, by rw [hjob]⟩

/-- Something that is noted at the end of a chunk of this job. -/
def Settles (job : Nat) (event : Event P R) : Prop :=
  (∃ position told, event = .cutOff job position told) ∨ ∃ r wall, event = .reported job r wall

/-- The settling of a chunk tells the journal who is cut off and what is reported, and no more. -/
theorem settled_journal (e : Engine P R) (job : Nat) (run : BatchRun P R) :
    Adds (Settles job) e (e.settled job run).1 :=
  ((dismissAll_journal e job).mono fun _ => .inl).trans
    ((settleChunk_paper (e.dismissAll job) job _ _ _).frame.journal.mono fun _ => .inr)

theorem heard_journal (e : Engine P R) (j : Job P R) :
    Adds (fun event => ∃ answer, event = .bulkEnded j.number answer) e (e.heard j) := by
  unfold heard
  split
  · unfold heardBulk
    split
    · exact .nothing rfl
    · exact .one rfl ⟨_, rfl⟩
    · exact .one rfl ⟨_, rfl⟩
  · exact .nothing rfl

/-- An event of a job with these orders: a bulk call of it is for all of them. -/
structure Speaks (job : Nat) (orders : List P) (event : Event P R) : Prop where
  own : event.job = job
  whole : ∀ sent, event = .bulkCalled job sent → sent = orders

section Speaks

variable {e e' : Engine P R} {job : Nat} {orders : List P}

theorem Stores.speaks (h : Stores job e e') : Adds (Speaks job orders) e e' := by
  refine h.journal.mono ?_
  rintro event ⟨call, rfl⟩
  exact ⟨rfl, by simp⟩

theorem Paper.speaks (h : Paper job e e') : Adds (Speaks job orders) e e' := by
  refine h.frame.journal.mono ?_
  rintro event ⟨r, wall, rfl⟩
  exact ⟨rfl, by simp⟩

theorem Ways.speaks {attempts : Nat} {a : Assignment P} {result : Engine P R × Stage P R}
    (h : Ways e job a attempts result) : Adds (Speaks job a.orders) e result.1 := by
  cases h with
  | refused paper refusal => exact (Paper.speaks paper).trans (conclude_stores _ job a _).speaks
  | @calls e' deadline paper submission =>
    have hcalled : Adds (Speaks job a.orders) e' (e'.placeCall job a (attempts + 1) deadline).1 :=
      .one rfl ⟨rfl, fun _ hevent => (Event.bulkCalled.inj hevent).2.symm⟩
    exact (Paper.speaks paper).trans hcalled
  | waits paper submission => exact Paper.speaks paper
  | opens paper some valid admitted => exact (Paper.speaks paper).trans (.nothing rfl)
  | empties paper none => exact (Paper.speaks paper).trans (answered_stores _ job a _ _).speaks

end Speaks

/-- A turn of a job tells the journal of this job only, and a bulk call is for all its orders. -/
theorem Route.speaks {e : Engine P R} {j : Job P R} {result : Engine P R × Stage P R}
    (h : Route e j result) : Adds (Speaks j.number j.assignment.orders) e result.1 := by
  have hheard : Adds (Speaks j.number j.assignment.orders) e (e.heard j) := by
    refine (heard_journal e j).mono ?_
    rintro event ⟨answer, rfl⟩
    exact ⟨rfl, by simp⟩
  have hsettled (run : BatchRun P R) :
      Adds (Speaks j.number j.assignment.orders) e (e.settled j.number run).1 := by
    refine (settled_journal e j.number run).mono ?_
    rintro event (⟨position, told, rfl⟩ | ⟨r, wall, rfl⟩)
    · exact ⟨rfl, by simp⟩
    · exact ⟨rfl, by simp⟩
  cases h with
  | sends sender source unanswered h => exact hheard.trans h.speaks
  | miscounts answered wrong => exact hheard.trans (conclude_stores _ _ _ _).speaks
  | answers answered right =>
    exact (hheard.trans (Paper.speaks (.single (.reports .success)))).trans
      (answered_stores _ _ _ _ _).speaks
  | idles source submission none empty => exact .nothing rfl
  | rejects source admission reviewed => exact .nothing rfl
  | writes source write =>
    exact (openWrite_stores e j.number _).speaks.trans (followWrite_stores j.number _ _ _).speaks
  | proceeds source =>
    exact (writeTurn_stores e j.number _).speaks.trans (followWrite_stores j.number _ _ _).speaks
  | comes source occupation => exact .nothing rfl
  | occupies source => exact .nothing rfl
  | vacates source => exact .nothing rfl
  | resumes source => exact .nothing rfl
  | collects source found => exact .nothing rfl
  | pauses source none some => exact hsettled _
  | reopens source none some => exact (hsettled _).trans (.nothing rfl)
  | finishes source none last => exact (hsettled _).trans (answered_stores _ _ _ _ _).speaks
  | holds hold before after => exact .nothing rfl

/-- A turn of a worker tells the journal of the job of the worker only, and not of bulk calls. -/
theorem workerTurn_speaks (e : Engine P R) (w : Worker P R) :
    Adds (fun event => ∀ orders, Speaks w.job orders event) e (e.workerTurn w).1 := by
  obtain ⟨number, job, position, index, payload, phase, turn⟩ := w
  cases phase with
  | fresh =>
    simp only [workerTurn]
    split
    · exact .one rfl fun _ => ⟨rfl, by simp⟩
    · exact .nothing rfl
  | queued limit =>
    simp only [workerTurn]
    split
    · exact .one rfl fun _ => ⟨rfl, by simp⟩
    · exact .one rfl fun _ => ⟨rfl, by simp⟩
  | working call cutoff =>
    have hboth (answer : Option (Except DownstreamFailure R)) (outcome : Outcome R) (r : Report) :
        Adds (fun event => ∀ orders, Speaks job orders event) e (e.endCall
          ⟨number, job, position, index, payload, .working call cutoff, turn⟩ answer outcome r).1 := by
      refine ⟨[⟨e.now, .reported job r e.wall⟩, ⟨e.now, .singleEnded job position answer⟩], rfl, ?_⟩
      intro x hx
      rcases List.mem_pair.mp hx with rfl | rfl
      · exact fun _ => ⟨rfl, by simp⟩
      · exact fun _ => ⟨rfl, by simp⟩
    simp only [workerTurn]
    split
    · exact hboth _ _ _
    · exact hboth _ _ _
    · exact .nothing rfl
    · exact hboth _ _ _
  | reported permit outcome | ended outcome => exact .nothing rfl

/-! ### Stages suit their jobs -/

theorem followWrite_suits {a : Assignment P} {result : Option (BatchResult R)}
    (turn : Engine P R × WriteTurn) (hresult : result.isSome = a.isAdmission) :
    (followWrite a result turn).2.Suits a := by
  rcases turn with ⟨e, run | crash | error | rows⟩
  · exact hresult
  · simp only [followWrite, conclude_eq]
    trivial
  · simp only [followWrite, conclude_eq]
    trivial
  · cases result <;> (simp only [followWrite, conclude_eq]; trivial)

theorem answered_suits (e : Engine P R) (job : Nat) (a : Assignment P) (attempts : Nat)
    (r : BatchResult R) : (e.answered job a attempts r).2.Suits a := by
  cases a with
  | process orders =>
    simp only [answered]
    rw [placeOrders_eq]
    split
    · rw [conclude_eq]
      trivial
    · exact followWrite_suits _ rfl
  | _ =>
    simp only [answered, conclude_eq]
    trivial

theorem Route.suits {e : Engine P R} {j : Job P R} {result : Engine P R × Stage P R}
    (h : Route e j result) (hsuits : j.stage.Suits j.assignment) :
    result.2.Suits j.assignment := by
  cases h with
  | @sends attempts result sender source unanswered h =>
    cases h with
    | refused paper refusal =>
      rw [conclude_eq]
      trivial
    | calls paper submission => exact submission
    | waits paper submission => exact submission
    | opens paper some valid admitted => exact sender
    | empties paper none => exact answered_suits _ _ _ _ _
  | miscounts answered wrong =>
    rw [conclude_eq]
    trivial
  | answers answered right => exact answered_suits _ _ _ _ _
  | writes source write =>
    refine followWrite_suits _ ?_
    rw [write]
    rfl
  | proceeds source =>
    rw [source] at hsuits
    exact followWrite_suits _ hsuits
  | occupies source => exact Option.isSome_map
  | resumes source =>
    rw [source] at hsuits
    exact hsuits
  | collects source found =>
    rw [source] at hsuits
    exact hsuits
  | pauses source none some =>
    rw [source] at hsuits
    exact hsuits
  | reopens source none some =>
    rw [source] at hsuits
    exact hsuits
  | finishes source none last => exact answered_suits _ _ _ _ _
  | holds hold before after =>
    rcases after with ⟨_, rfl⟩ | ⟨_, _, rfl⟩ | ⟨_, rfl⟩ | ⟨_, rfl⟩ <;> trivial
  | _ => trivial

/-- All jobs are at stages that suit them. -/
def Suited (e : Engine P R) : Prop := ∀ j ∈ e.jobs, j.stage.Suits j.assignment

theorem Suited.route {e : Engine P R} (h : e.Suited) (hwf : e.WellFormed) {j : Job P R}
    (hj : j ∈ e.jobs) (hready : j.isReady e = true) : Route e j (e.jobTurn j) :=
  jobTurn_route (hwf.sound j hj) (h j hj) hready

theorem Move.suited {e e' : Engine P R} (hmove : Move e e') (hwf : e.WellFormed)
    (h : e.Suited) : e'.Suited := by
  intro k hk
  rcases hmove.mem_jobs hwf hk with hold | ⟨j, hj, hready, rfl⟩
  · exact h k hold
  · exact (h.route hwf hj hready).suits (h j hj)

theorem Course.suited {e e' : Engine P R} (hcourse : Course e e') (hwf : e.WellFormed)
    (h : e.Suited) : e'.Suited :=
  Course.carries Move.suited hcourse hwf h

/-- A bulk call is for all orders of its job. -/
def Whole (roster : List (Nat × Assignment P)) (event : Event P R) : Prop :=
  ∀ x ∈ roster, ∀ sent, event = .bulkCalled x.1 sent → sent = x.2.orders

theorem Move.whole {e e' : Engine P R} (hmove : Move e e') (hwf : e.WellFormed)
    (hsuited : e.Suited) : Adds (Whole e.roster) e e' := by
  cases hmove with
  | @worker w member ready =>
    have hadds : Adds (fun event => ∀ orders, Speaks w.job orders event) e (e.serveWorker w) :=
      workerTurn_speaks e w
    refine hadds.mono ?_
    rintro event hspeaks x hx sent rfl
    have hjob : x.1 = w.job := (hspeaks []).own
    exact (hspeaks x.2.orders).whole sent (by rw [hjob])
  | @job j member ready =>
    have hadds : Adds (Speaks j.number j.assignment.orders) e (e.serveJob j) :=
      (hsuited.route hwf member ready).speaks
    refine hadds.mono ?_
    rintro event hspeaks x hx sent rfl
    -- Numbers are unique, so that the roster has no other orders under this one.
    obtain ⟨k, hk, rfl⟩ := List.mem_map.mp hx
    obtain rfl : k = j := hwf.job_unique hk member hspeaks.own
    exact hspeaks.whole sent rfl
  | tick quiet due => exact .nothing rfl

/-- Along every course the journal grows, and all bulk calls are for all orders of their jobs. -/
theorem Course.whole {e e' : Engine P R} (hcourse : Course e e') (hwf : e.WellFormed)
    (hsuited : e.Suited) : Adds (Whole e.roster) e e' := by
  have hall : e'.Suited ∧ e'.roster = e.roster ∧ Adds (Whole e.roster) e e' := by
    refine Course.carries (I := fun e₁ => e₁.Suited ∧ e₁.roster = e.roster ∧
      Adds (Whole e.roster) e e₁) ?_ hcourse hwf ⟨hsuited, rfl, .nothing rfl⟩
    rintro e₁ e₂ hmove hwf₁ ⟨hsuited₁, hroster, hadds⟩
    exact ⟨hmove.suited hwf₁ hsuited₁, (hmove.roster hwf₁).trans hroster,
      hadds.trans (hroster ▸ hmove.whole hwf₁ hsuited₁)⟩
  exact hall.2.2

/-! ### What a move has to do with a job -/

/-- Something that has nothing to do with this job. -/
structure Elsewhere (job : Nat) (e e' : Engine P R) : Prop where
  workers : ∀ w, w.job = job → (w ∈ e'.workers ↔ w ∈ e.workers)
  journal : Adds (fun event => event.job ≠ job) e e'

/-- What a move has to do with a job: nothing, or one of its workers has been served, or the job itself
has. -/
inductive Happens (e e' : Engine P R) (k : Job P R) : Prop where
  | elsewhere (same : k ∈ e.jobs) (h : Elsewhere k.number e e')
  | worker {w : Worker P R} (same : k ∈ e.jobs) (member : w ∈ e.workers) (own : w.job = k.number)
      (ready : w.isReady e.limiter e.now = true) (next : e' = e.serveWorker w)
  | turn {j : Job P R} (member : j ∈ e.jobs) (ready : j.isReady e = true)
      (moved : k = { j with stage := (e.jobTurn j).2 }) (next : e' = e.serveJob j)

theorem serveWorker_elsewhere {e : Engine P R} (hwf : e.WellFormed) {w : Worker P R}
    (hw : w ∈ e.workers) {job : Nat} (hother : w.job ≠ job) :
    Elsewhere job e (e.serveWorker w) := by
  obtain ⟨before, after, hold, hnew⟩ := serveWorker_workers hwf hw
  have hadds : Adds (fun event => ∀ orders, Speaks w.job orders event) e (e.serveWorker w) :=
    workerTurn_speaks e w
  constructor
  · intro v hv
    have hne : v ≠ w := by
      rintro rfl
      exact hother hv
    have hne' : v ≠ { w with phase := (e.workerTurn w).2 } := by
      rintro rfl
      exact hother hv
    rw [hold, hnew]
    simp only [List.mem_append, List.mem_cons, hne, hne', false_or]
  · refine hadds.mono ?_
    intro event hevent hjob
    exact hother ((hevent []).own.symm.trans hjob)

theorem serveJob_elsewhere {e : Engine P R} (hwf : e.WellFormed) (hsuited : e.Suited) {j : Job P R}
    (hj : j ∈ e.jobs) (hready : j.isReady e = true) {job : Nat} (hother : j.number ≠ job) :
    Elsewhere job e (e.serveJob j) := by
  have hturn := jobTurn_turn e j (hwf.sound j hj) hready
  obtain ⟨kept, tasks, position, hstaff⟩ := hturn.staffing hwf hj
  have hworkers : (e.serveJob j).workers =
      kept ++ spawnWorkers j.number tasks e.nextNumber position := hstaff.workers
  have hadds : Adds (Speaks j.number j.assignment.orders) e (e.serveJob j) :=
    (hsuited.route hwf hj hready).speaks
  constructor
  · -- Only workers of the job itself are dismissed, and the new ones are its own.
    intro w hw
    rw [hworkers, List.mem_append]
    constructor
    · rintro (hkept | hnew)
      · exact hstaff.sublist.subset hkept
      · exact absurd ((job_of_mem_spawnWorkers hnew).symm.trans hw) hother
    · intro hold
      exact Or.inl (hstaff.others w hold fun hsame => hother (hsame.symm.trans hw))
  · refine hadds.mono ?_
    intro event hevent hjob
    exact hother (hevent.own.symm.trans hjob)

theorem Move.happens {e e' : Engine P R} (hmove : Move e e') (hwf : e.WellFormed)
    (hsuited : e.Suited) {k : Job P R} (hk : k ∈ e'.jobs) : Happens e e' k := by
  cases hmove with
  | @worker w member ready =>
    have hjobs : (e.serveWorker w).jobs = e.jobs := (workerTurn_house e w).jobs
    rw [hjobs] at hk
    by_cases hown : w.job = k.number
    · exact .worker hk member hown ready rfl
    · exact .elsewhere hk (serveWorker_elsewhere hwf member hown)
  | @job j member ready =>
    rcases mem_serveJob hwf member ready hk with rfl | ⟨hk, hne⟩
    · exact .turn member ready rfl rfl
    · exact .elsewhere hk (serveJob_elsewhere hwf hsuited member ready (Ne.symm hne))
  | tick quiet due => exact .elsewhere hk ⟨fun _ _ => Iff.rfl, .nothing rfl⟩

theorem AtRest.arriving {e : Engine P R} (hrest : e.AtRest)
    {assignments : List (Nat × Assignment P)} {j : Job P R}
    (hj : j ∈ (e.addJobs assignments).unturned.jobs) : ∃ due, j.stage = .arriving due := by
  obtain ⟨k, hk, rfl⟩ := List.mem_map.mp hj
  rw [addJobs_eq, hrest.jobs] at hk
  exact (mem_newJobs hk).2

theorem AtRest.suited {e : Engine P R} (hrest : e.AtRest)
    (assignments : List (Nat × Assignment P)) : (e.addJobs assignments).unturned.Suited := by
  intro j hj
  obtain ⟨due, hstage⟩ := hrest.arriving hj
  rw [hstage]
  trivial

end Engine

end OrderAdmission
