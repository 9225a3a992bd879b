import OrderAdmission.Proofs.Balance
import OrderAdmission.Proofs.Progress

/-!
# Permits in every order of service

The workers and jobs of an engine are parties of its limiter: a worker waits for a permit while it
is queued, and holds one while its call is in progress and until it ends, and so do the jobs that are
asked to hold a permit.

`Move.accounted` says that every move keeps the limiter balanced against them, whoever is served and
in whatever way a task ends: with an answer, with an error, cut off by its own time limit or by that
of its chunk, broken off, or without ever having got a permit. The main result is
`permits_bound_and_return`: **no more calls are in progress than there are permits, each of them
holds one, and when all is done the limiter is what it was before**.
-/
namespace OrderAdmission

variable {P R : Type}

/-- Whether a holder is to keep its permit for good. -/
def Assignment.keepsForGood : Assignment P → Bool
  | .hold none => true
  | _ => false

def WorkerPhase.standing : WorkerPhase R → Standing
  | .queued _ => .waits
  | .working _ _ => .holds
  | .reported permit _ => if permit then .holds else .idle
  | _ => .idle

/-- Whether the call of a worker is in progress. -/
def WorkerPhase.isCalling : WorkerPhase R → Bool
  | .working _ _ => true
  | _ => false

/-- Whether a worker has told the breaker of its call and has yet to give its permit back. -/
def WorkerPhase.isLeaving : WorkerPhase R → Bool
  | .reported permit _ => permit
  | _ => false

def Stage.standing (a : Assignment P) : Stage P R → Standing
  | .queued _ => .waits
  | .holding _ _ => .holds
  | .finished _ (.ok (.ok (.permit _))) => if a.keepsForGood then .holds else .idle
  | _ => .idle

def Worker.party (w : Worker P R) : Party := (w.number, w.phase.standing)

def Job.party (j : Job P R) : Party := (j.number, j.stage.standing j.assignment)

namespace Engine

def parties (e : Engine P R) : List Party :=
  e.workers.map (·.party) ++ e.jobs.map (·.party)

def atWork (e : Engine P R) : Nat := e.workers.countP (·.phase.isCalling)

/-- How many tasks still have their permit after their call. -/
def leaving (e : Engine P R) : Nat := e.workers.countP (·.phase.isLeaving)

def keepers (e : Engine P R) : Nat := holders (e.jobs.map (·.party))

/-- The limiter of an engine accounts for all workers and jobs; the permits in use at the beginning
are still in use. -/
structure Accounted (start : Limiter) (e : Engine P R) : Prop where
  balanced : Balanced start.inFlight e.parties e.limiter
  capacity : e.limiter.capacity = start.capacity
  patience : e.limiter.patience = start.patience

theorem holders_workers (e : Engine P R) :
    holders (e.workers.map (·.party)) = e.atWork + e.leaving := by
  have hall (ws : List (Worker P R)) : holders (ws.map (·.party)) =
      ws.countP (·.phase.isCalling) + ws.countP (·.phase.isLeaving) := by
    induction ws with
    | nil => rfl
    | cons w rest ih =>
      obtain ⟨number, job, position, index, payload, phase, turn⟩ := w
      rw [List.map_cons, holders_cons, ih, List.countP_cons, List.countP_cons]
      cases phase with
      | working call cutoff =>
        simp only [Worker.party, WorkerPhase.standing, WorkerPhase.isCalling, WorkerPhase.isLeaving,
          if_true, Bool.false_eq_true, if_false]
        omega
      | reported permit outcome =>
        cases permit <;> simp [Worker.party, WorkerPhase.standing, WorkerPhase.isCalling,
          WorkerPhase.isLeaving, Nat.add_assoc]
      | _ => simp [Worker.party, WorkerPhase.standing, WorkerPhase.isCalling, WorkerPhase.isLeaving]
  exact hall e.workers

/-! ### Turns of workers -/

theorem workerTurn_pass (e : Engine P R) (w : Worker P R) :
    Pass w.number e.limiter w.phase.standing (e.workerTurn w).2.standing
      (e.workerTurn w).1.limiter := by
  obtain ⟨number, job, position, index, payload, phase, turn⟩ := w
  cases phase with
  | fresh =>
    simp only [workerTurn]
    split
    · rename_i limiter htake
      exact Pass.takes htake
    · rename_i hfull
      exact Pass.joins hfull
  | queued limit =>
    simp only [workerTurn]
    split
    · rename_i hgrant
      exact Pass.claims hgrant
    · exact Pass.withdraws
  | working call cutoff =>
    -- Only a call that breaks off gives its permit back at once.
    simp only [workerTurn]
    split
    · exact Pass.stays _
    · exact Pass.stays _
    · exact Pass.releases
    · exact Pass.stays _
  | reported permit outcome =>
    cases permit with
    | true => exact Pass.releases
    | false => exact Pass.stays _
  | ended outcome => exact Pass.stays _

theorem dismiss_pass (l : Limiter) (w : Worker P R) :
    Pass w.number l w.phase.standing .idle (dismiss l w) := by
  obtain ⟨number, job, position, index, payload, phase, turn⟩ := w
  cases phase with
  | fresh => exact Pass.stays _
  | queued limit => exact Pass.withdraws
  | working call cutoff => exact Pass.releases
  | reported permit outcome =>
    cases permit with
    | true => exact Pass.releases
    | false => exact Pass.stays _
  | ended outcome => exact Pass.stays _

theorem workerTurn_singleCalls (e : Engine P R) (w : Worker P R) :
    (e.workerTurn w).1.singleCalls = e.singleCalls ∨ (e.workerTurn w).2.isCalling = true := by
  obtain ⟨number, job, position, index, payload, phase, turn⟩ := w
  cases phase with
  | fresh =>
    simp only [workerTurn]
    split
    · exact Or.inr rfl
    · exact Or.inl rfl
  | queued limit =>
    simp only [workerTurn]
    split
    · exact Or.inr rfl
    · exact Or.inl rfl
  | working call cutoff =>
    simp only [workerTurn]
    split <;> exact Or.inl rfl
  | reported permit outcome | ended outcome => exact Or.inl rfl

theorem serveWorker_accounted {start : Limiter} {e : Engine P R} (hwf : e.WellFormed)
    {w : Worker P R} (hw : w ∈ e.workers) (h : Accounted start e) :
    Accounted start (e.serveWorker w) := by
  obtain ⟨before, after, hold, hnew⟩ := serveWorker_workers hwf hw
  have hjobs : (e.serveWorker w).jobs = e.jobs := (workerTurn_house e w).jobs
  have hpass := workerTurn_pass e w
  have hbalanced := h.balanced
  rw [parties, hold, List.map_append, List.map_cons, List.append_assoc, List.cons_append]
    at hbalanced
  obtain ⟨hcapacity, hpatience⟩ := hpass.capacity
  refine ⟨?_, hcapacity.trans h.capacity, hpatience.trans h.patience⟩
  rw [parties, hnew, hjobs, List.map_append, List.map_cons, List.append_assoc, List.cons_append]
  exact hbalanced.pass hpass

/-! ### Turns of jobs -/

theorem standing_of_isAway {a : Assignment P} {stage : Stage P R} (h : stage.isAway = true) :
    stage.standing a = .idle := by
  cases stage with
  | queued limit => cases h
  | holding since due => cases h
  | finished time ending =>
    rcases ending with crash | error | receipt
    · rfl
    · rfl
    · cases receipt with
      | permit since => cases h
      | _ => rfl
  | _ => rfl

theorem party_of_mem_spawnWorkers {job : Nat} {tasks : List (BatchTask P)} {number position : Nat}
    {p : Party} (hp : p ∈ (spawnWorkers (R := R) job tasks number position).map (·.party)) :
    p.2 = .idle := by
  induction tasks generalizing number position with
  | nil => cases hp
  | cons t rest ih =>
    rcases List.mem_cons.mp hp with rfl | hrest
    · rfl
    · exact ih hrest

/-- To dismiss the workers of a job keeps the balance of the others. -/
theorem balanced_dismiss {held job : Nat} (before : List Party) {after : List Party} {l : Limiter}
    (ws : List (Worker P R)) (h : Balanced held (before ++ (ws.map (·.party) ++ after)) l) :
    Balanced held (before ++ ((ws.filter fun w => w.job != job).map (·.party) ++ after))
      ((ws.filter fun w => w.job == job).foldl dismiss l) := by
  induction ws generalizing before l with
  | nil => exact h
  | cons w rest ih =>
    by_cases hjob : w.job = job
    · have hpassed := h.pass (dismiss_pass l w)
      simpa [hjob] using ih before hpassed.drop_idle
    · have hkept : Balanced held ((before ++ [w.party]) ++ (rest.map (·.party) ++ after)) l := by
        simpa using h
      simpa [hjob] using ih (before ++ [w.party]) hkept

theorem dismissAll_capacity (e : Engine P R) (job : Nat) :
    (e.dismissAll job).limiter.capacity = e.limiter.capacity ∧
      (e.dismissAll job).limiter.patience = e.limiter.patience := by
  have hfold (ws : List (Worker P R)) (l : Limiter) :
      (ws.foldl dismiss l).capacity = l.capacity ∧ (ws.foldl dismiss l).patience = l.patience := by
    induction ws generalizing l with
    | nil => exact ⟨rfl, rfl⟩
    | cons w rest ih =>
      obtain ⟨hcapacity, hpatience⟩ := (dismiss_pass l w).capacity
      obtain ⟨hcapacity', hpatience'⟩ := ih (dismiss l w)
      exact ⟨hcapacity'.trans hcapacity, hpatience'.trans hpatience⟩
  exact hfold (e.workersOf job) e.limiter

theorem JobTurn.capacity {e : Engine P R} {j : Job P R} {result : Engine P R × Stage P R}
    (h : JobTurn e j result) :
    result.1.limiter.capacity = e.limiter.capacity ∧
      result.1.limiter.patience = e.limiter.patience := by
  have hsettled (run : BatchRun P R) :
      (e.settled j.number run).1.limiter.capacity = e.limiter.capacity ∧
        (e.settled j.number run).1.limiter.patience = e.limiter.patience := by
    rw [(settled_floor e j.number run).limiter]
    exact dismissAll_capacity e j.number
  cases h with
  | leaves away work h =>
    rw [h.floor.limiter, heard_limiter]
    exact ⟨rfl, rfl⟩
  | writes source work h =>
    rw [h.floor.limiter]
    exact ⟨rfl, rfl⟩
  | @opens e' attempts away floor some valid work =>
    have hlimiter : (e'.openChunk j.number attempts (.whole j.assignment.tasks)).1.limiter =
        e.limiter := floor.limiter.trans (heard_limiter e j)
    rw [hlimiter]
    exact ⟨rfl, rfl⟩
  | resumes source => exact ⟨rfl, rfl⟩
  | collects source found => exact ⟨rfl, rfl⟩
  | pauses source none some => exact hsettled _
  | reopens source none some => exact hsettled _
  | finishes source none last =>
    rw [(answered_floor _ _ _ _ _).limiter]
    exact hsettled _
  | @takes due stay limiter source hold free =>
    have hpass : Pass j.number e.limiter .idle .holds limiter := Pass.takes free
    rw [(keepPermit_floor _ _).limiter]
    exact hpass.capacity
  | queues source hold free => exact ⟨rfl, rfl⟩
  | claims source hold granted =>
    rw [(keepPermit_floor _ _).limiter]
    exact (Pass.claims granted).capacity
  | withdraws source hold =>
    have hpass : Pass j.number e.limiter .waits .idle (e.limiter.withdraw j.number) :=
      Pass.withdraws
    exact hpass.capacity
  | releases source hold =>
    have hpass : Pass j.number e.limiter .holds .idle e.limiter.release := Pass.releases
    exact hpass.capacity

theorem keepPermit_standing (e : Engine P R) (stay : Option Nat) :
    (e.keepPermit stay).2.standing (.hold stay) = .holds := by
  cases stay <;> rfl

/-- A turn of a job keeps the balance, also where it begins or ends the work of others. -/
theorem JobTurn.balanced {held : Nat} {e : Engine P R} {j : Job P R}
    {result : Engine P R × Stage P R} (hwf : e.WellFormed) (hj : j ∈ e.jobs)
    {before after : List Party} (h : JobTurn e j result)
    (hbalanced : Balanced held (e.workers.map (·.party) ++ (before ++ j.party :: after)) e.limiter) :
    Balanced held (result.1.workers.map (·.party) ++
      (before ++ (j.number, result.2.standing j.assignment) :: after)) result.1.limiter := by
  have hidle {stage : Stage P R} (hstage : j.stage = stage)
      (hstanding : stage.standing j.assignment = .idle) : j.party = (j.number, .idle) := by
    rw [Job.party, hstage, hstanding]
  have hsettled (run : BatchRun P R) {attempts : Nat} (source : j.stage = .joining attempts run) :
      Balanced held ((e.settled j.number run).1.workers.map (·.party) ++
        (before ++ (j.number, .idle) :: after)) (e.settled j.number run).1.limiter := by
    have hfloor := settled_floor e j.number run
    rw [hidle source rfl] at hbalanced
    rw [hfloor.workers, hfloor.limiter]
    exact balanced_dismiss [] e.workers hbalanced
  have hopened {e' : Engine P R} (attempts : Nat) (run : BatchRun P R)
      (h' : Balanced held (e'.workers.map (·.party) ++ (before ++ (j.number, .idle) :: after))
        e'.limiter) :
      Balanced held ((e'.openChunk j.number attempts run).1.workers.map (·.party) ++
        (before ++ (j.number, .idle) :: after)) (e'.openChunk j.number attempts run).1.limiter := by
    simp only [openChunk, List.map_append, List.append_assoc]
    exact Balanced.insert_all_idle (fun p hp => party_of_mem_spawnWorkers hp) h'
  have hpassed {s s' : Standing} {l' : Limiter} (hstanding : j.stage.standing j.assignment = s)
      (hpass : Pass j.number e.limiter s s' l') :
      Balanced held (e.workers.map (·.party) ++ (before ++ (j.number, s') :: after)) l' := by
    rw [Job.party, hstanding, ← List.append_assoc] at hbalanced
    rw [← List.append_assoc]
    exact hbalanced.pass hpass
  cases h with
  | leaves away work h =>
    rw [h.floor.workers, h.floor.limiter, heard_workers, heard_limiter, standing_of_isAway h.away]
    rwa [hidle rfl (standing_of_isAway away)] at hbalanced
  | writes source work h =>
    rw [h.floor.workers, h.floor.limiter, standing_of_isAway h.away]
    rwa [hidle source rfl] at hbalanced
  | opens away floor some valid work =>
    refine hopened _ _ ?_
    rw [floor.workers, floor.limiter, heard_workers, heard_limiter]
    rwa [hidle rfl (standing_of_isAway away)] at hbalanced
  | resumes source =>
    rw [hidle source rfl] at hbalanced
    exact hopened _ _ hbalanced
  | @collects attempts run w source found =>
    rw [hidle source rfl] at hbalanced
    have hmem : w ∈ e.workers := List.mem_of_mem_filter (List.mem_of_find?_eq_some found)
    have hended : w.party = (w.number, .idle) := by
      have hfound := List.find?_some found
      obtain ⟨number, job, position, index, payload, phase, turn⟩ := w
      cases phase with
      | ended outcome => rfl
      | _ => cases hfound
    obtain ⟨front, back, hold, hcollect⟩ := filter_others (·.number) hwf.workers_nodup hmem
    have hfilter : (e.collect w).workers = front ++ back := hcollect
    rw [hold, List.map_append, List.map_cons, hended, List.append_assoc, List.cons_append]
      at hbalanced
    rw [hfilter, List.map_append, List.append_assoc]
    exact hbalanced.drop_idle
  | pauses source none some => exact hsettled _ source
  | reopens source none some => exact hopened _ _ (hsettled _ source)
  | @finishes attempts run source none last =>
    have hsound := hwf.sound j hj
    rw [source] at hsound
    have hlength : (e.settled j.number run).2.length = j.assignment.tasks.length :=
      (length_settleChunk _ _ _ _ _).trans hsound
    have hleaves := answered_leaves (e.settled j.number run).1 j.number j.assignment attempts
      { outcomes := (e.settled j.number run).2 } (hlength ▸ j.assignment.length_tasks_le)
    rw [hleaves.floor.workers, hleaves.floor.limiter, standing_of_isAway hleaves.away]
    exact hsettled run source
  | @takes due stay limiter source hold free =>
    have hfloor := keepPermit_floor (e.setLimiter limiter) stay
    rw [hfloor.workers, hfloor.limiter, hold, keepPermit_standing]
    exact hpassed (by rw [source]; rfl) (Pass.takes free)
  | queues source hold free => exact hpassed (by rw [source]; rfl) (Pass.joins free)
  | @claims limit stay source hold granted =>
    have hfloor := keepPermit_floor (e.setLimiter (e.limiter.claim j.number)) stay
    rw [hfloor.workers, hfloor.limiter, hold, keepPermit_standing]
    exact hpassed (by rw [source]; rfl) (Pass.claims granted)
  | withdraws source hold => exact hpassed (by rw [source]; rfl) Pass.withdraws
  | @releases since due stay source hold =>
    have hstanding : (Stage.finished (P := P) (R := R) e.now
        (.ok (.ok (.permit since)))).standing j.assignment = .idle := by
      rw [hold]
      rfl
    simp only [hstanding]
    exact hpassed (by rw [source]; rfl) Pass.releases

theorem JobTurn.singleCalls {e : Engine P R} {j : Job P R} {result : Engine P R × Stage P R}
    (h : JobTurn e j result) : result.1.singleCalls = e.singleCalls := by
  have hsettled (run : BatchRun P R) : (e.settled j.number run).1.singleCalls = e.singleCalls :=
    (settled_floor e j.number run).singleCalls
  cases h with
  | leaves away work h => exact h.floor.singleCalls.trans (heard_singleCalls e j)
  | writes source work h => exact h.floor.singleCalls
  | opens away floor some valid work => exact floor.singleCalls.trans (heard_singleCalls e j)
  | resumes source => rfl
  | collects source found => rfl
  | pauses source none some => exact hsettled _
  | reopens source none some => exact hsettled _
  | finishes source none last => exact (answered_floor _ _ _ _ _).singleCalls.trans (hsettled _)
  | takes source hold free => exact (keepPermit_floor _ _).singleCalls
  | queues source hold free => rfl
  | claims source hold granted => exact (keepPermit_floor _ _).singleCalls
  | withdraws source hold => rfl
  | releases source hold => rfl

theorem serveJob_accounted {start : Limiter} {e : Engine P R} (hwf : e.WellFormed) {j : Job P R}
    (hj : j ∈ e.jobs) (hready : j.isReady e = true) (h : Accounted start e) :
    Accounted start (e.serveJob j) := by
  obtain ⟨before, after, hold, hnew⟩ := serveJob_jobs hwf hj hready
  have hturn := jobTurn_turn e j (hwf.sound j hj) hready
  have hbalanced := h.balanced
  rw [parties, hold, List.map_append, List.map_cons] at hbalanced
  obtain ⟨hcapacity, hpatience⟩ := hturn.capacity
  refine ⟨?_, hcapacity.trans h.capacity, hpatience.trans h.patience⟩
  rw [parties, hnew, List.map_append, List.map_cons]
  exact hturn.balanced hwf hj hbalanced

/-! ### Courses -/

/-- **Every move keeps the limiter accounted for.** -/
theorem Move.accounted {start : Limiter} {e e' : Engine P R} (hmove : Move e e')
    (hwf : e.WellFormed) (h : Accounted start e) : Accounted start e' := by
  cases hmove with
  | worker member ready => exact serveWorker_accounted hwf member h
  | job member ready => exact serveJob_accounted hwf member ready h
  | tick quiet due => exact ⟨h.balanced, h.capacity, h.patience⟩

theorem Course.accounted {start : Limiter} {e e' : Engine P R} (hcourse : Course e e')
    (hwf : e.WellFormed) (h : Accounted start e) : Accounted start e' :=
  Course.carries Move.accounted hcourse hwf h

theorem AtRest.accounted {e : Engine P R} (hrest : e.AtRest) (hlimiter : e.limiter.AtRest)
    (assignments : List (Nat × Assignment P)) :
    Accounted e.limiter (e.addJobs assignments).unturned := by
  have hlimiter' : (e.addJobs assignments).unturned.limiter = e.limiter := by
    rw [addJobs_eq]
    rfl
  have hidle : ∀ p ∈ (e.addJobs assignments).unturned.parties, p.2 = .idle := by
    intro p hp
    rw [addJobs_eq] at hp
    simp only [parties, unturned, hrest.workers, hrest.jobs, List.map_nil, List.nil_append,
      List.map_map, List.mem_map] at hp
    obtain ⟨j, hj, rfl⟩ := hp
    obtain ⟨_, due, hstage⟩ := mem_newJobs hj
    simp only [Function.comp_apply, Job.party, Job.unturned, hstage]
    rfl
  have hnobody : Balanced e.limiter.inFlight [] e.limiter := by
    refine ⟨?_, rfl, ?_⟩
    · rw [Limiter.total, hlimiter.granted, List.length_nil, Nat.add_zero, hlimiter.total]
    · rw [Limiter.waiting, hlimiter.granted, hlimiter.queue]
      exact List.Perm.refl _
  have hall : Balanced e.limiter.inFlight ([] ++ ((e.addJobs assignments).unturned.parties ++ []))
      e.limiter := Balanced.insert_all_idle hidle hnobody
  refine ⟨?_, ?_, ?_⟩
  · rw [hlimiter']
    simpa using hall
  · rw [hlimiter']
  · rw [hlimiter']

namespace Accounted

variable {start : Limiter} {e : Engine P R}

/-- Every call in progress holds one permit, and so does every task that is about to give its permit back
and every job that keeps one. -/
theorem inFlight_eq (h : Accounted start e) :
    e.limiter.inFlight = start.inFlight + e.atWork + e.leaving + e.keepers := by
  have hinUse := h.balanced.inUse
  rw [parties, holders_append, holders_workers] at hinUse
  simp only [keepers]
  omega

theorem inFlight_le (h : Accounted start e) : e.limiter.inFlight ≤ start.capacity :=
  h.capacity ▸ h.balanced.inFlight_le

/-- When nobody waits any more, the permits are where they were, but for those that are kept. -/
theorem limiter_eq (h : Accounted start e) (hstart : start.AtRest) (hworkers : e.workers = [])
    (hwaiters : waiters (e.jobs.map (·.party)) = []) :
    e.keepers ≤ start.free ∧
      e.limiter = { start with
        free := start.free - e.keepers, inFlight := start.inFlight + e.keepers } := by
  have hinFlight := h.inFlight_eq
  have htotal := h.balanced.total
  have hwaiting := h.balanced.waiting
  have hcapacity := h.capacity
  have hstarted := hstart.total
  have hnobody : e.atWork = 0 ∧ e.leaving = 0 := by
    rw [atWork, leaving, hworkers]
    exact ⟨rfl, rfl⟩
  rw [parties, hworkers, List.map_nil, List.nil_append, hwaiters] at hwaiting
  obtain ⟨hgranted, hqueue⟩ := List.append_eq_nil_iff.mp hwaiting.eq_nil
  rw [Limiter.total, hgranted, List.length_nil] at htotal
  refine ⟨by omega, ?_⟩
  have hpatience := h.patience
  obtain ⟨capacity, patience, free, inFlight, queue, granted⟩ := start
  obtain ⟨hstartQueue, hstartGranted, _⟩ := hstart
  generalize e.limiter = l at *
  obtain ⟨capacity', patience', free', inFlight', queue', granted'⟩ := l
  simp only at *
  subst hcapacity hpatience hqueue hgranted hstartQueue hstartGranted
  simp only [Limiter.mk.injEq, and_true, true_and]
  omega

end Accounted

/-! ### No permits, no calls -/

theorem atWork_pos {e : Engine P R} {w : Worker P R} (hw : w ∈ e.workers)
    (hcalling : w.phase.isCalling = true) : 0 < e.atWork :=
  List.countP_pos_iff.mpr ⟨w, hw, hcalling⟩

theorem Move.singleCalls {e e' : Engine P R} (hmove : Move e e') (hwf : e.WellFormed) :
    e'.singleCalls = e.singleCalls ∨ 0 < e'.atWork := by
  cases hmove with
  | @worker w member ready =>
    obtain ⟨before, after, _, hnew⟩ := serveWorker_workers hwf member
    rcases workerTurn_singleCalls e w with hsame | hcalling
    · exact Or.inl hsame
    · have hmem : { w with phase := (e.workerTurn w).2 } ∈ (e.serveWorker w).workers := by
        rw [hnew]
        exact List.mem_append_right _ List.mem_cons_self
      exact Or.inr (atWork_pos hmem hcalling)
  | @job j member ready =>
    exact Or.inl (jobTurn_turn e j (hwf.sound j member) ready).singleCalls
  | tick quiet due => exact Or.inl rfl

theorem Course.singleCalls {start : Limiter} {e e' : Engine P R} (hcourse : Course e e')
    (hwf : e.WellFormed) (h : Accounted start e) (hnone : start.capacity = 0) :
    e'.singleCalls = e.singleCalls := by
  induction hcourse with
  | refl => rfl
  | @tail e₁ e₂ hfirst hlast ih =>
    have hwf₁ : e₁.WellFormed := Course.wellFormed hfirst hwf
    have h₂ : Accounted start e₂ := hlast.accounted hwf₁ (Course.accounted hfirst hwf h)
    have hinFlight := h₂.inFlight_eq
    have hle := h₂.inFlight_le
    rcases hlast.singleCalls hwf₁ with hsame | hpos
    · exact hsame.trans ih
    · omega

/-! ### The end -/

theorem waiters_of_ended {jobs : List (Job P R)}
    (hended : ∀ j ∈ jobs, j.stage.standing j.assignment ≠ .waits) :
    waiters (jobs.map (·.party)) = [] := by
  simp only [waiters, List.map_eq_nil_iff, List.filter_eq_nil_iff, List.mem_map, beq_iff_eq]
  rintro p ⟨j, hj, rfl⟩
  exact hended j hj

theorem standing_of_ending {j : Job P R} (h : j.ending?.isSome = true) :
    j.stage.standing j.assignment ≠ .waits ∧
      (j.assignment.keepsForGood = false → j.stage.standing j.assignment = .idle) := by
  obtain ⟨number, a, stage, turn⟩ := j
  cases stage with
  | finished time ending =>
    rcases ending with crash | error | receipt
    · exact ⟨by simp [Stage.standing], fun _ => rfl⟩
    · exact ⟨by simp [Stage.standing], fun _ => rfl⟩
    · cases receipt with
      | permit since =>
        constructor
        · simp only [Stage.standing]
          split <;> simp
        · intro hkeeps
          have hfalse : a.keepsForGood = false := hkeeps
          simp [Stage.standing, hfalse]
      | _ => exact ⟨by simp [Stage.standing], fun _ => rfl⟩
  | _ => cases h

theorem Settled.standing {e : Engine P R} (hsettled : e.Settled) (hwf : e.WellFormed)
    {j : Job P R} (hj : j ∈ e.jobs) (hkeeps : j.assignment.keepsForGood = false) :
    j.stage.standing j.assignment = .idle := by
  by_cases hjob : j.assignment.isOccupation = true
  · have hdue := hsettled.due_job hj
    obtain ⟨number, a, stage, turn⟩ := j
    cases stage with
    | finished time ending => exact (standing_of_ending rfl).2 hkeeps
    | approaching => rfl
    | occupying due => rfl
    | _ => cases hdue
  · obtain ⟨time, ending, hstage⟩ :=
      hsettled.finished hwf hj (Bool.eq_false_iff.mpr hjob)
    exact (standing_of_ending (by rw [Job.ending?, hstage]; rfl)).2 hkeeps

theorem keepers_eq_zero {e : Engine P R}
    (hidle : ∀ j ∈ e.jobs, j.stage.standing j.assignment = .idle) : e.keepers = 0 := by
  rw [keepers, holders, List.countP_eq_zero]
  intro p hp
  obtain ⟨j, hj, rfl⟩ := List.mem_map.mp hp
  simp [Job.party, hidle j hj]

/-- **Permits bound the calls in progress, and come back.** At every instant of every course each
call in progress, each task that is about to give its permit back and each job that keeps a permit
holds one of the permits, and there are no others in use than those that were before; without permits
no call is ever made. When all jobs have ended, no task is left, and the permits are where they were,
but for those that are kept. What is performed ends in this way, and leaves the limiter as it was if
nobody is to keep a permit. -/
theorem permits_bound_and_return {e : Engine P R} (hrest : e.AtRest)
    (hlimiter : e.limiter.AtRest) (assignments : List (Nat × Assignment P)) :
    (∀ e', Course (e.addJobs assignments).unturned e' →
      e'.limiter.inFlight = e.limiter.inFlight + e'.atWork + e'.leaving + e'.keepers ∧
      e'.limiter.inFlight ≤ e.limiter.capacity ∧
      (e.limiter.capacity = 0 → e'.singleCalls = e.singleCalls) ∧
      ((∀ j ∈ e'.jobs, j.ending?.isSome = true) →
        e'.workers = [] ∧ e'.keepers ≤ e.limiter.free ∧
        e'.limiter = { e.limiter with
          free := e.limiter.free - e'.keepers
          inFlight := e.limiter.inFlight + e'.keepers })) ∧
    ((∀ x ∈ assignments, x.2.keepsForGood = false) →
      (e.perform assignments).1.limiter = e.limiter) := by
  have hwf := hrest.wellFormed assignments
  have hstart := hrest.accounted hlimiter assignments
  constructor
  · intro e' hcourse
    have hwf' := hcourse.wellFormed hwf
    have h := hcourse.accounted hwf hstart
    refine ⟨h.inFlight_eq, h.inFlight_le, ?_, ?_⟩
    · intro hnone
      rw [hcourse.singleCalls hwf hstart hnone, addJobs_eq]
      rfl
    · intro hended
      have hworkers : e'.workers = [] := by
        rw [List.eq_nil_iff_forall_not_mem]
        intro w hw
        obtain ⟨j, hj, _, hjoining⟩ := hwf'.staffed w hw
        have hending := hended j hj
        obtain ⟨number, a, stage, turn⟩ := j
        cases stage with
        | joining attempts run => cases hending
        | _ => cases hjoining
      exact ⟨hworkers, h.limiter_eq hlimiter hworkers
        (waiters_of_ended fun j hj => (standing_of_ending (hended j hj)).1)⟩
  · intro hnobody
    obtain ⟨done, hcourse, hsettled, hwf', hdone, _⟩ := perform_course hrest assignments
    have h := hcourse.accounted hwf hstart
    have hidle : ∀ j ∈ done.jobs, j.stage.standing j.assignment = .idle := by
      intro j hj
      obtain ⟨x, hx, hassignment⟩ := hrest.assigned hcourse hj
      exact hsettled.standing hwf' hj (hassignment ▸ hnobody x hx)
    have hzero := keepers_eq_zero hidle
    obtain ⟨_, hreturned⟩ := h.limiter_eq hlimiter (hsettled.workers hwf')
      (waiters_of_ended fun j hj => by rw [hidle j hj]; simp)
    have hlast : (e.perform assignments).1.unturned.limiter = done.limiter := by rw [hdone]
    change (e.perform assignments).1.unturned.limiter = e.limiter
    rw [hlast, hreturned, hzero]
    rfl

theorem begun_limiter_atRest (desk : Desk P R) (breaker : BreakerConfig)
    (overload : OverloadConfig) (pool : Option PoolHealth) (table : Table) (epoch : Int) :
    (begun desk breaker overload pool table epoch).limiter.AtRest :=
  ⟨rfl, rfl, rfl⟩

/-- Two batches that overlap at one permit: a call that is answered, one that breaks off, one that
hangs, and two that never get the permit in time. -/
theorem permits_return_after_two_batches :
    let e : Engine (Conduct (Except DownstreamFailure Nat)) Nat :=
      begun (.forTasks Nat { maxConcurrency := 1, taskTimeout := 20, permitTimeout := 5 }) {} {}
        none [] 0
    e.AtRest ∧ e.limiter.AtRest ∧
      (e.perform
        [(0, .execute [⟨0, .answers 3 (.ok 1)⟩, ⟨1, .breaksOff 1⟩, ⟨2, .hangs⟩]),
          (1, .execute [⟨0, .hangs⟩, ⟨1, .answers 2 (.ok 2)⟩])]).1.limiter = e.limiter :=
  ⟨begun_atRest _ _ _ _ _ _, begun_limiter_atRest _ _ _ _ _ _,
    (permits_bound_and_return (begun_atRest _ _ _ _ _ _) (begun_limiter_atRest _ _ _ _ _ _) _).2
      (by simp [Assignment.keepsForGood])⟩

end Engine

end OrderAdmission
