import OrderAdmission.Proofs.Blocks
import OrderAdmission.Proofs.Fairness

/-!
# A batch without timeouts

If every operation comes to an end in time, a batch should be a plain map: in the place of each task is what
its operation gives. The deadlines that could interfere are the wait for a permit, the time limit of a task
and that of a chunk. None of them is reached if each delay is below the time limit of a task and the delays
of a chunk together are below the wait for a permit.

What carries the argument is a bound on the wait in the queue. As long as a task of a chunk waits, every
permit is in use, so that the clock moves no further than to the end of a call. Hence the time that is left
until the chunk is through, one task after another at worst, bounds the delays of all who still wait
(`WorkerPhase.Smooth`), and this stays so when the clock moves (`Flowing.tick`). The main result is
`batch_is_a_plain_map`.
-/
namespace OrderAdmission

variable {P R : Type}

/-! ### What operations give -/

namespace Conduct

variable {α : Type} {c : Conduct α} {given : Option α} {bound now : Nat}

/-- It gives this within the bound: an answer, or nothing where it breaks off. -/
def Gives (given : Option α) (bound : Nat) : Conduct α → Prop
  | answers delay a => given = some a ∧ delay ≤ bound
  | breaksOff delay => given = none ∧ delay ≤ bound
  | hangs => False

/-- What it gives in the end, where nothing stands for breaking off. -/
def given? : Conduct α → Option α
  | answers _ a => some a
  | _ => none

/-- How long it takes to give something. -/
def span : Conduct α → Nat
  | answers delay _ => delay
  | breaksOff delay => delay
  | hangs => 0

theorem gives_self (h : c.due?.isSome = true) : c.Gives c.given? c.span := by
  cases c with
  | answers delay a => exact ⟨rfl, Nat.le_refl _⟩
  | breaksOff delay => exact ⟨rfl, Nat.le_refl _⟩
  | hangs => cases h

theorem Gives.since (h : c.Gives given bound) (now : Nat) : (c.since now).Gives given (now + bound) := by
  cases c with
  | answers delay a => exact ⟨h.1, Nat.add_le_add_left h.2 now⟩
  | breaksOff delay => exact ⟨h.1, Nat.add_le_add_left h.2 now⟩
  | hangs => exact h

theorem Gives.due_le (h : c.Gives given bound) (cutoff : Nat) : earlier c.due? cutoff ≤ bound := by
  cases c with
  | answers delay a => exact Nat.le_trans (Nat.min_le_left _ _) h.2
  | breaksOff delay => exact Nat.le_trans (Nat.min_le_left _ _) h.2
  | hangs => exact h.elim

theorem Gives.reply (h : c.Gives given bound) {cutoff : Nat} (hbefore : bound < cutoff)
    (hready : (c.arrived now || decide (cutoff ≤ now)) = true) : c.reply? now = some given := by
  have hdue : earlier c.due? cutoff ≤ now := Conduct.earlier_le_of_arrived hready
  cases c with
  | answers delay a =>
    obtain ⟨rfl, hdelay⟩ := h
    have hcome : delay ≤ now := (min_eq_left (Nat.le_of_lt (hdelay.trans_lt hbefore))).ge.trans hdue
    simp only [reply?, hcome, if_true]
  | breaksOff delay =>
    obtain ⟨rfl, hdelay⟩ := h
    have hcome : delay ≤ now := (min_eq_left (Nat.le_of_lt (hdelay.trans_lt hbefore))).ge.trans hdue
    simp only [reply?, hcome, if_true]
  | hangs => exact h.elim

end Conduct

/-- The outcome of an operation that gives this: an item, or nothing because it broke off. -/
def Outcome.ofGiven : Option (Except DownstreamFailure R) → Outcome R
  | some item => .ofItem item
  | none => .failure interruptedReason

/-- The result of a plain map over tasks: in the place of each task is what its operation gives. -/
def BatchResult.mapped (give : P → Option (Except DownstreamFailure R)) (tasks : List (BatchTask P)) :
    BatchResult R :=
  { outcomes := (List.range tasks.length).map fun i =>
      match tasks.find? (·.index == i) with
      | some t => .ofGiven (give t.payload)
      | none => .pending }

section Mapped

variable {give : P → Option (Except DownstreamFailure R)} {tasks tasks' : List (BatchTask P)}

theorem BatchResult.length_mapped (give : P → Option (Except DownstreamFailure R))
    (tasks : List (BatchTask P)) : (mapped give tasks).outcomes.length = tasks.length := by
  simp [mapped]

theorem BatchResult.getElem?_mapped (hvalid : checkTasks tasks = .ok ()) {t : BatchTask P}
    (ht : t ∈ tasks) : (mapped give tasks).outcomes[t.index]? = some (.ofGiven (give t.payload)) := by
  obtain ⟨hrange, hnodup⟩ := checkTasks_ok hvalid
  have hfound : tasks.find? (·.index == t.index) = some t := by
    cases hfind : tasks.find? (·.index == t.index) with
    | none => exact absurd (beq_self_eq_true t.index) (List.find?_eq_none.mp hfind t ht)
    | some t' =>
      have hindex : t'.index = t.index := by simpa using List.find?_some hfind
      rw [List.inj_on_of_nodup_map hnodup (List.mem_of_find?_eq_some hfind) ht hindex]
  rw [mapped, List.getElem?_map, List.getElem?_range (hrange t ht), Option.map_some, hfound]

/-- A result that has for each task what its operation gives is that of the plain map. -/
theorem BatchResult.eq_mapped (hvalid : checkTasks tasks = .ok ()) {r : BatchResult R}
    (hlength : r.outcomes.length = tasks.length)
    (hplaces : ∀ t ∈ tasks, r.outcomes[t.index]? = some (.ofGiven (give t.payload))) :
    r = mapped give tasks := by
  have houtcomes : r.outcomes = (mapped give tasks).outcomes := by
    apply List.ext_getElem?
    intro i
    by_cases hi : i < tasks.length
    · obtain ⟨q, t, ht, rfl⟩ := exists_task hvalid hi
      have hmem := List.mem_of_getElem? ht
      rw [hplaces t hmem, getElem?_mapped hvalid hmem]
    · rw [List.getElem?_eq_none (by omega), List.getElem?_eq_none]
      rw [length_mapped]
      omega
  obtain ⟨outcomes⟩ := r
  exact congrArg BatchResult.mk houtcomes

theorem checkTasks_perm (hvalid : checkTasks tasks = .ok ()) (hperm : tasks'.Perm tasks) :
    checkTasks tasks' = .ok () := by
  rw [checkTasks_eq_ok_iff, hperm.length_eq]
  exact (hperm.map _).trans (checkTasks_eq_ok_iff.mp hvalid)

theorem BatchResult.mapped_perm (hvalid : checkTasks tasks = .ok ()) (hperm : tasks'.Perm tasks) :
    mapped give tasks' = mapped give tasks := by
  refine eq_mapped hvalid ((length_mapped give tasks').trans hperm.length_eq) ?_
  exact fun t ht => getElem?_mapped (checkTasks_perm hvalid hperm) (hperm.mem_iff.mpr ht)

end Mapped

/-- A desk at which nothing keeps the tasks of a batch from coming to their end: each operation gives
something after a delay below the time limit of a task, and the delays of a chunk together are below the
wait for a permit. -/
structure Desk.Untroubled (desk : Desk P R) (tasks : List (BatchTask P))
    (give : P → Option (Except DownstreamFailure R)) (delay : P → Nat) : Prop where
  gives : ∀ t ∈ tasks, ∀ n, (desk.single n t.payload).Gives (give t.payload) (delay t.payload)
  each : ∀ t ∈ tasks, delay t.payload < desk.executor.taskTimeout
  chunk : ∀ chunk ∈ chunksOf desk.executor.chunkSize tasks,
    (chunk.map fun t => delay t.payload).sum < desk.executor.permitTimeout

/-! ### The delays of those who wait -/

/-- The delay that is still before a worker. -/
def Worker.burden (delay : P → Nat) (w : Worker P R) : Nat := if w.isWaiting then delay w.payload else 0

/-- Where a worker stands that is not in danger of any timeout, when its operation gives this: those who
still wait are through by `reach`, one after another at worst. -/
inductive WorkerPhase.Smooth (given : Option (Except DownstreamFailure R)) (now backlog reach : Nat) :
    WorkerPhase R → Prop where
  | fresh (early : now + backlog ≤ reach) : Smooth given now backlog reach .fresh
  | queued {limit : Nat} (early : now + backlog ≤ reach) (patient : reach < limit) :
      Smooth given now backlog reach (.queued limit)
  | working {call : Conduct (Except DownstreamFailure R)} {cutoff due : Nat}
      (gives : call.Gives given due) (early : due + backlog ≤ reach) (before : due < cutoff) :
      Smooth given now backlog reach (.working call cutoff)
  | reported {permit : Bool} {outcome : Outcome R} (early : now ≤ reach)
      (plain : outcome = .ofGiven given) : Smooth given now backlog reach (.reported permit outcome)
  | ended {outcome : Option (Outcome R)} (plain : ∀ o, outcome = some o → o = .ofGiven given) :
      Smooth given now backlog reach (.ended outcome)

theorem WorkerPhase.Smooth.mono {given : Option (Except DownstreamFailure R)}
    {now backlog backlog' reach : Nat} {phase : WorkerPhase R}
    (h : phase.Smooth given now backlog reach) (hle : backlog' ≤ backlog) :
    phase.Smooth given now backlog' reach := by
  cases h with
  | fresh early => exact .fresh (Nat.le_trans (Nat.add_le_add_left hle _) early)
  | queued early patient => exact .queued (Nat.le_trans (Nat.add_le_add_left hle _) early) patient
  | working gives early before =>
    exact .working gives (Nat.le_trans (Nat.add_le_add_left hle _) early) before
  | reported early plain => exact .reported early plain
  | ended plain => exact .ended plain

namespace Engine

/-- The delays of all who wait, together. -/
def backlog (e : Engine P R) (delay : P → Nat) : Nat := (e.workers.map (·.burden delay)).sum

section Backlog

variable {e e' : Engine P R} {delay : P → Nat}

theorem backlog_serveWorker (hwf : e.WellFormed) {w : Worker P R} (hw : w ∈ e.workers)
    (delay : P → Nat) : ∃ rest, e.backlog delay = w.burden delay + rest ∧
      (e.serveWorker w).backlog delay =
        { w with phase := (e.workerTurn w).2 }.burden delay + rest := by
  obtain ⟨before, after, hold, hnew⟩ := serveWorker_workers hwf hw
  refine ⟨(before.map (·.burden delay)).sum + (after.map (·.burden delay)).sum, ?_, ?_⟩
  · rw [backlog, hold]
    simp only [List.map_append, List.map_cons, List.sum_append, List.sum_cons]
    omega
  · rw [backlog, hnew]
    simp only [List.map_append, List.map_cons, List.sum_append, List.sum_cons]
    omega

theorem backlog_collect (hwf : e.WellFormed) {w : Worker P R} (hw : w ∈ e.workers)
    (hended : w.hasEnded = true) (delay : P → Nat) :
    (e.collect w).backlog delay = e.backlog delay := by
  obtain ⟨front, back, hold, hnew⟩ := filter_others (·.number) hwf.workers_nodup hw
  have hfilter : (e.collect w).workers = front ++ back := hnew
  have hburden : w.burden delay = 0 := by
    obtain ⟨number, job, position, index, payload, phase, turn⟩ := w
    cases phase with
    | ended outcome => rfl
    | _ => cases hended
  rw [backlog, backlog, hfilter, hold]
  simp only [List.map_append, List.map_cons, List.sum_append, List.sum_cons, hburden, Nat.zero_add]

theorem backlog_perm (hperm : e'.workers.Perm e.workers) (delay : P → Nat) :
    e'.backlog delay = e.backlog delay := (hperm.map _).sum_eq

theorem burden_spawnWorkers (job number position : Nat) (tasks : List (BatchTask P))
    (delay : P → Nat) :
    ((spawnWorkers (R := R) job tasks number position).map (·.burden delay)).sum =
      (tasks.map fun t => delay t.payload).sum := by
  induction tasks generalizing number position with
  | nil => rfl
  | cons t rest ih =>
    rw [spawnWorkers, List.map_cons, List.sum_cons, ih, List.map_cons, List.sum_cons]
    rfl

end Backlog

/-! ### Turns of a worker -/

/-- With its permit, a worker is no longer among those who wait. -/
theorem startCall_smooth {e : Engine P R} {w : Worker P R} {delay : P → Nat}
    {given : Option (Except DownstreamFailure R)} {reach rest : Nat}
    (hgives : ∀ n, (e.desk.single n w.payload).Gives given (delay w.payload))
    (hshort : delay w.payload < e.desk.executor.taskTimeout)
    (hearly : e.now + (delay w.payload + rest) ≤ reach) :
    (e.startCall w).2.Smooth given e.now rest reach := by
  refine .working ((hgives e.singleCalls).since e.now) ?_ (Nat.add_lt_add_left hshort _)
  rw [Nat.add_assoc]
  exact hearly

/-- **A turn of a worker that is not in danger of any timeout.** -/
theorem workerTurn_smooth {e : Engine P R} {w : Worker P R} {delay : P → Nat}
    {given : Option (Except DownstreamFailure R)} {reach rest : Nat}
    (hgives : ∀ n, (e.desk.single n w.payload).Gives given (delay w.payload))
    (hshort : delay w.payload < e.desk.executor.taskTimeout)
    (hpatient : reach < e.now + e.limiter.patience)
    (htold : e.PhaseTold w w.phase) (hready : w.isReady e.limiter e.now = true)
    (h : w.phase.Smooth given e.now (w.burden delay + rest) reach) :
    { w with phase := (e.workerTurn w).2 }.burden delay ≤ w.burden delay ∧
      (e.workerTurn w).2.Smooth given e.now
        ({ w with phase := (e.workerTurn w).2 }.burden delay + rest) reach := by
  obtain ⟨number, job, position, index, payload, phase, turn⟩ := w
  cases h with
  | fresh early =>
    simp only [workerTurn]
    split
    · refine ⟨Nat.zero_le _, ?_⟩
      rw [show Worker.burden (R := R) delay _ = 0 from rfl, Nat.zero_add]
      exact startCall_smooth hgives hshort early
    · exact ⟨Nat.le_refl _, .queued early hpatient⟩
  | @queued limit early patient =>
    simp only [workerTurn]
    split
    · refine ⟨Nat.zero_le _, ?_⟩
      rw [show Worker.burden (R := R) delay _ = 0 from rfl, Nat.zero_add]
      exact startCall_smooth hgives hshort early
    · rename_i hgrant
      -- It would have to give up, but the limit of its wait is not yet reached.
      have hover : limit ≤ e.now := by simpa [Worker.isReady, hgrant] using hready
      omega
  | @working call cutoff due gives early before =>
    have hreply := gives.reply before hready
    obtain ⟨_, _, _, _, _, htimely⟩ := htold
    have hintime : e.now ≤ reach := by
      have hcome := Nat.le_trans htimely (gives.due_le cutoff)
      omega
    simp only [workerTurn, hreply]
    -- What has come back is what its operation gives.
    rcases given with _ | failure | value
    · refine ⟨Nat.le_refl _, .ended ?_⟩
      rintro o ho
      cases ho
    · exact ⟨Nat.le_refl _, .reported hintime rfl⟩
    · exact ⟨Nat.le_refl _, .reported hintime rfl⟩
  | reported early plain =>
    exact ⟨Nat.le_refl _, .ended fun o ho => (Option.some.inj ho).symm.trans plain⟩
  | ended plain => cases hready

/-! ### Nobody else -/

/-- Nobody but this job, through its workers, has to do with permits. -/
structure SoleUser (job : Nat) (e : Engine P R) : Prop where
  workers : ∀ w ∈ e.workers, w.job = job
  idle : ∀ j ∈ e.jobs, j.stage.standing j.assignment = .idle

section Nobody

variable {start : Limiter} {e : Engine P R} {job : Nat}

theorem standing_of_sound {maxRetries : Nat} {a : Assignment P} {stage : Stage P R}
    (hsound : stage.Sound maxRetries a) (hhold : ∀ stay, a ≠ .hold stay) :
    stage.standing a = .idle := by
  cases stage with
  | queued limit =>
    obtain ⟨stay, rfl⟩ := hsound
    exact absurd rfl (hhold stay)
  | holding since due =>
    obtain ⟨stay, rfl⟩ := hsound
    exact absurd rfl (hhold _)
  | finished time ending =>
    rcases ending with crash | error | receipt
    · rfl
    · rfl
    · cases receipt with
      | permit since =>
        have hkeeps : a.keepsForGood = false := by
          cases a with
          | hold stay => exact absurd rfl (hhold stay)
          | _ => rfl
        simp only [Stage.standing, hkeeps, Bool.false_eq_true, if_false]
      | _ => rfl
  | _ => rfl

/-- Among assignments that neither hold a permit nor have tasks, a batch is the sole user. -/
theorem AtRest.soleUser {e' : Engine P R} (hrest : e.AtRest)
    {assignments : List (Nat × Assignment P)} {i : Nat}
    (hhold : ∀ x ∈ assignments, ∀ stay, x.2 ≠ .hold stay)
    (hothers : ∀ k x, assignments[k]? = some x → k ≠ i → x.2.tasks = [])
    (hcourse : Course (e.addJobs assignments).unturned e') : SoleUser (e.nextNumber + i) e' := by
  have hregular := hcourse.regular (hrest.regular assignments)
  have hwf := hregular.reached.wellFormed
  constructor
  · intro w hw
    obtain ⟨j, hj, hsame, hjoining⟩ := hwf.staffed w hw
    obtain ⟨k, wait, _, hassigned, hnumber⟩ := hrest.exists_assignment hcourse hj
    have htells := hregular.reached.truthful j hj
    by_contra hother
    have hnone : j.assignment.tasks = [] := hothers k _ hassigned (by omega)
    obtain ⟨number, a, stage, turn⟩ := j
    cases stage with
    | joining attempts run =>
      have hbooked : Booked e' number a.tasks run := htells
      have htask := hbooked.staff w hw hsame.symm
      rw [hnone] at htask
      cases htask
    | _ => cases hjoining
  · intro j hj
    obtain ⟨x, hx, hassignment⟩ := hrest.assigned hcourse hj
    exact standing_of_sound (hwf.sound j hj) (hassignment ▸ hhold x hx)

theorem SoleUser.no_workers (hwf : e.WellFormed) {j : Job P R} (hj : j ∈ e.jobs)
    (h : SoleUser j.number e) (hstage : j.stage.isJoining = false) : e.workers = [] := by
  rw [List.eq_nil_iff_forall_not_mem]
  exact fun w hw => hwf.no_workers hj hstage w hw (h.workers w hw)

theorem SoleUser.settled_workers (h : SoleUser job e) (run : BatchRun P R) :
    (e.settled job run).1.workers = [] := by
  rw [List.eq_nil_iff_forall_not_mem]
  intro w hw
  have hold : w ∈ (e.dismissAll job).workers := (settled_floor e job run).workers ▸ hw
  exact settled_gone e job run w hw (h.workers w (List.mem_of_mem_filter hold))

theorem SoleUser.granted_eq_nil (h : SoleUser job e) (haccounted : Accounted start e)
    (hquiet : e.Quiet) : e.limiter.granted = [] := by
  rw [List.eq_nil_iff_forall_not_mem]
  intro who hwho
  have hwaiting := haccounted.balanced.waiting
  obtain ⟨p, hp, rfl⟩ := List.mem_map.mp (hwaiting.mem_iff.mp (List.mem_append_left _ hwho))
  obtain ⟨hparty, hstanding⟩ := List.mem_filter.mp hp
  rcases List.mem_append.mp hparty with hworker | hjob
  · obtain ⟨v, hv, rfl⟩ := List.mem_map.mp hworker
    have hbusy := hquiet.workers v hv
    have hgrant : e.limiter.hasGrant v.number = true := List.contains_iff_mem.mpr hwho
    obtain ⟨number, owner, position, index, payload, phase, turn⟩ := v
    cases phase with
    | queued limit =>
      simp only [Worker.isReady, hgrant, Bool.true_or, reduceCtorEq] at hbusy
    | reported permit outcome => cases hbusy
    | _ => cases hstanding
  · obtain ⟨k, hk, rfl⟩ := List.mem_map.mp hjob
    rw [Job.party, h.idle k hk] at hstanding
    cases hstanding

/-- **While somebody waits and nobody is able to go on, a call is in progress.** -/
theorem SoleUser.exists_working (h : SoleUser job e) (haccounted : Accounted start e)
    (hstart : start.AtRest) (hfree : 0 < start.free) (hprompt : e.limiter.Prompt) (hquiet : e.Quiet)
    {w : Worker P R} (hw : w ∈ e.workers) (hwaits : w.phase.standing = .waits) :
    ∃ v ∈ e.workers, ∃ call cutoff, v.phase = .working call cutoff := by
  have hwaiting := haccounted.balanced.waiting
  have hgranted := h.granted_eq_nil haccounted hquiet
  have hparty : w.party ∈ e.parties := List.mem_append_left _ (List.mem_map_of_mem hw)
  have hqueue : e.limiter.queue ≠ [] := by
    have hmem := hwaiting.mem_iff.mpr (mem_waiters hparty hwaits)
    rw [Limiter.waiting, hgranted, List.nil_append] at hmem
    exact List.ne_nil_of_mem hmem
  have hstaying : e.leaving = 0 := by
    rw [leaving, List.countP_eq_zero]
    intro v hv
    have hidle := hquiet.workers v hv
    obtain ⟨number, owner, position, index, payload, phase, turn⟩ := v
    cases phase with
    | reported permit outcome => cases hidle
    | _ => exact Bool.false_ne_true
  have hbusy : 0 < e.atWork := by
    have htotal := haccounted.balanced.total
    have hcapacity := haccounted.capacity
    have hinFlight := haccounted.inFlight_eq
    have hkeepers := keepers_eq_zero h.idle
    have hnone := hprompt.resolve_right hqueue
    have hstarted := hstart.total
    rw [Limiter.total, hgranted, List.length_nil] at htotal
    omega
  rw [atWork, List.countP_pos_iff] at hbusy
  obtain ⟨v, hv, hcalling⟩ := hbusy
  refine ⟨v, hv, ?_⟩
  obtain ⟨number, owner, position, index, payload, phase, turn⟩ := v
  cases phase with
  | working call cutoff => exact ⟨call, cutoff, rfl⟩
  | _ => cases hcalling

end Nobody

/-! ### A chunk at work -/

/-- The places that are no longer open have what the operations of their tasks give. -/
def SoFar (give : P → Option (Except DownstreamFailure R)) (tasks : List (BatchTask P))
    (outcomes : List (Outcome R)) : Prop :=
  ∀ t ∈ tasks, ∀ o, outcomes[t.index]? = some o → o = .pending ∨ o = .ofGiven (give t.payload)

/-- A chunk that is at work without any danger of a timeout: it is through by `reach`. -/
structure Flowing (e : Engine P R) (tasks : List (BatchTask P))
    (give : P → Option (Except DownstreamFailure R)) (delay : P → Nat) (run : BatchRun P R)
    (reach : Nat) : Prop where
  outcomes : SoFar give tasks run.outcomes
  uncut : reach < run.deadline
  patient : reach < e.now + e.limiter.patience
  smooth : ∀ w ∈ e.workers, w.phase.Smooth (give w.payload) e.now (e.backlog delay) reach

section Flowing

variable {start : Limiter} {e e' : Engine P R} {job reach : Nat} {tasks : List (BatchTask P)}
  {give : P → Option (Except DownstreamFailure R)} {delay : P → Nat} {run : BatchRun P R}

theorem SoFar.noteOutcome (hvalid : checkTasks tasks = .ok ()) (h : SoFar give tasks run.outcomes)
    {t : BatchTask P} (ht : t ∈ tasks) {outcome : Option (Outcome R)}
    (hplain : ∀ o, outcome = some o → o = .ofGiven (give t.payload)) :
    SoFar give tasks (run.noteOutcome t.index outcome).outcomes := by
  cases outcome with
  | none => exact h
  | some o =>
    intro t' ht' o' ho'
    simp only [BatchRun.noteOutcome, getElem?_set_eq] at ho'
    split at ho'
    · rename_i hindex
      obtain rfl : t = t' :=
        List.inj_on_of_nodup_map (checkTasks_ok hvalid).2 ht ht' hindex.1
      obtain rfl := Option.some.inj ho'
      exact Or.inr (hplain o rfl)
    · exact h t' ht' o' ho'

theorem SoFar.settled (huntroubled : e.desk.Untroubled tasks give delay)
    (hbooked : Booked e job tasks run) (hnone : e.workersOf job = [])
    (h : SoFar give tasks run.outcomes) : SoFar give tasks (e.settled job run).2 := by
  intro t ht o ho
  rw [Engine.settled, getElem?_settleChunk] at ho
  split at ho
  · rename_i hopen
    obtain rfl := Option.some.inj ho
    obtain ⟨q, t', hq, ht', hindex⟩ := hbooked.chunk t.index hopen.1
    obtain rfl : t' = t := List.inj_on_of_nodup_map (checkTasks_ok hbooked.valid).2
      (List.mem_of_getElem? ht') ht hindex
    rcases (hbooked.covered q t' hq ht' hopen.2).2 with ⟨w, hw, hjob, _⟩ | hbroke
    · have hmem : w ∈ e.workersOf job := List.mem_filter.mpr ⟨hw, by simpa using hjob⟩
      rw [hnone] at hmem
      cases hmem
    · obtain ⟨begun, span, ⟨_, call, hcall⟩, _⟩ := hbroke
      have hgives := huntroubled.gives t' ht call
      rw [← hcall] at hgives
      refine Or.inr ?_
      rw [hgives.1, closingReason, hnone]
      rfl
  · exact h t ht o ho

theorem Flowing.frame (h : Flowing e tasks give delay run reach) (hperm : e'.workers.Perm e.workers)
    (hnow : e'.now = e.now) (hpatience : e'.limiter.patience = e.limiter.patience) :
    Flowing e' tasks give delay run reach := by
  refine ⟨h.outcomes, h.uncut, ?_, ?_⟩
  · rw [hnow, hpatience]
    exact h.patient
  · rw [hnow, backlog_perm hperm]
    exact fun w hw => h.smooth w (hperm.mem_iff.mp hw)

theorem Flowing.serveWorker (hwf : e.WellFormed) (huntroubled : e.desk.Untroubled tasks give delay)
    (hdiligent : e.Diligent) (hbooked : Booked e job tasks run) {w : Worker P R}
    (hw : w ∈ e.workers) (hjob : w.job = job)
    (hready : w.isReady e.limiter e.now = true) (h : Flowing e tasks give delay run reach) :
    Flowing (e.serveWorker w) tasks give delay run reach := by
  have htask := List.mem_of_getElem? (hbooked.staff w hw hjob)
  have hnow : (e.serveWorker w).now = e.now := (workerTurn_house e w).now
  have hpatience : (e.serveWorker w).limiter.patience = e.limiter.patience :=
    (workerTurn_pass e w).capacity.2
  obtain ⟨rest, hold, hnew⟩ := backlog_serveWorker hwf hw delay
  have hsmooth := h.smooth w hw
  rw [hold] at hsmooth
  obtain ⟨hless, hserved⟩ := workerTurn_smooth (huntroubled.gives _ htask) (huntroubled.each _ htask)
    h.patient (hdiligent w hw) hready hsmooth
  refine ⟨h.outcomes, h.uncut, ?_, ?_⟩
  · rw [hnow, hpatience]
    exact h.patient
  · intro v hv
    rw [hnow, hnew]
    rcases (mem_serveWorker hwf hw).mp hv with rfl | ⟨hv, _⟩
    · exact hserved
    · -- The worker leaves less before the others than it found.
      refine (h.smooth v hv).mono ?_
      rw [hold]
      exact Nat.add_le_add_right hless _

/-- **While somebody waits, the clock moves no further than to the end of a call.** -/
theorem Flowing.tick (hsole : SoleUser job e) (haccounted : Accounted start e) (hstart : start.AtRest)
    (hfree : 0 < start.free) (hprompt : e.limiter.Prompt) {time : Nat} (hquiet : e.Quiet)
    (hdue : e.due? = some time) (hle : e.now ≤ time) (h : Flowing e tasks give delay run reach) :
    Flowing { e with now := time } tasks give delay run reach := by
  refine ⟨h.outcomes, h.uncut, Nat.lt_of_lt_of_le h.patient (Nat.add_le_add_right hle _), ?_⟩
  intro w hw
  have hsmooth := h.smooth w hw
  have hbusy := hquiet.workers w hw
  obtain ⟨number, owner, position, index, payload, phase, turn⟩ := w
  cases hsmooth with
  | fresh early | reported early plain => cases hbusy
  | queued early patient =>
    obtain ⟨v, hv, call, cutoff, hphase⟩ :=
      hsole.exists_working haccounted hstart hfree hprompt hquiet hw rfl
    have hworking := h.smooth v hv
    have hfirst := (firstTurn_spec hdue).2.1 v hv
    rw [Worker.due?, hphase] at hfirst
    rw [hphase] at hworking
    cases hworking with
    | working gives early' before =>
      -- The clock stops where this call ends, and all who wait fit behind it.
      have hcall := Nat.le_trans (hfirst _ rfl) (gives.due_le cutoff)
      exact .queued (Nat.le_trans (Nat.add_le_add_right hcall _) early') patient
  | working gives early before => exact .working gives early before
  | ended plain => exact .ended plain

theorem Flowing.collect (hwf : e.WellFormed) (hbooked : Booked e job tasks run) {w : Worker P R}
    (hw : w ∈ e.workers) (hjob : w.job = job) (hended : w.hasEnded = true)
    (h : Flowing e tasks give delay run reach) :
    Flowing (e.collect w) tasks give delay (run.noteOutcome w.index w.outcome?) reach := by
  have htask := List.mem_of_getElem? (hbooked.staff w hw hjob)
  have hplain : ∀ o, w.outcome? = some o → o = .ofGiven (give w.payload) := by
    have hsmooth := h.smooth w hw
    obtain ⟨number, owner, position, index, payload, phase, turn⟩ := w
    cases hsmooth with
    | ended plain => exact plain
    | _ => cases hended
  refine ⟨SoFar.noteOutcome hbooked.valid h.outcomes htask hplain, ?_, h.patient, ?_⟩
  · cases w.outcome? <;> exact h.uncut
  · rw [backlog_collect hwf hw hended]
    exact fun v hv => h.smooth v (List.mem_of_mem_filter hv)

theorem Flowing.closes (h : Flowing e tasks give delay run reach) (hdiligent : e.Diligent)
    (hnone : (e.workersOf job).find? (·.hasEnded) = none)
    (hready : e.joinIsReady job run.deadline = true) : e.workersOf job = [] := by
  have hunended : (e.workersOf job).any (·.hasEnded) = false := by
    simpa [List.find?_eq_none] using hnone
  simp only [joinIsReady, hunended, Bool.or_false, Bool.or_eq_true, List.isEmpty_iff,
    decide_eq_true_eq] at hready
  by_contra hsome
  have hover := hready.resolve_left hsome
  obtain ⟨w, hmem⟩ := List.exists_mem_of_ne_nil _ hsome
  have hw := List.mem_of_mem_filter hmem
  have hsmooth := h.smooth w hw
  have htold := hdiligent w hw
  have hpending : ¬ w.hasEnded = true := List.find?_eq_none.mp hnone w hmem
  have huncut := h.uncut
  -- Whoever is still at work is through before the deadline.
  obtain ⟨number, owner, position, index, payload, phase, turn⟩ := w
  cases hsmooth with
  | fresh early | queued early patient | reported early plain => omega
  | @working call cutoff due gives early before =>
    obtain ⟨_, _, _, _, _, htimely⟩ := htold
    have hcome := Nat.le_trans htimely (gives.due_le cutoff)
    omega
  | ended plain => exact hpending rfl

end Flowing

/-! ### Turns of a job -/

/-- A batch that comes to no timeout, at this stage. -/
inductive Plainly (e : Engine P R) (tasks : List (BatchTask P))
    (give : P → Option (Except DownstreamFailure R)) (delay : P → Nat) : Stage P R → Prop where
  | arriving {due : Nat} : Plainly e tasks give delay (.arriving due)
  | joining {attempts reach : Nat} {run : BatchRun P R}
      (flowing : Flowing e tasks give delay run reach) :
      Plainly e tasks give delay (.joining attempts run)
  | pausing {attempts due : Nat} {run : BatchRun P R} (outcomes : SoFar give tasks run.outcomes) :
      Plainly e tasks give delay (.pausing attempts run due)
  | finished {time : Nat} {ending : Ending R}
      (outcomes : ∀ r, ending = .ok (.ok (.batch r)) → SoFar give tasks r.outcomes) :
      Plainly e tasks give delay (.finished time ending)

section Turns

variable {e e' : Engine P R} {tasks : List (BatchTask P)}
  {give : P → Option (Except DownstreamFailure R)} {delay : P → Nat}

theorem Plainly.frame {stage : Stage P R} (h : Plainly e tasks give delay stage)
    (hperm : e'.workers.Perm e.workers) (hnow : e'.now = e.now)
    (hpatience : e'.limiter.patience = e.limiter.patience) : Plainly e' tasks give delay stage := by
  cases h with
  | arriving => exact .arriving
  | joining flowing => exact .joining (flowing.frame hperm hnow hpatience)
  | pausing outcomes => exact .pausing outcomes
  | finished outcomes => exact .finished outcomes

/-- A chunk that begins is through, at worst, when the delays of its tasks have passed one after
another. -/
theorem Plainly.openChunk {job begun : Nat} (run : BatchRun P R)
    (huntroubled : e.desk.Untroubled tasks give delay)
    (hpatience : e.desk.executor.permitTimeout ≤ e.limiter.patience)
    (hcut : Cut e.chunkSize tasks begun run) (hsome : run.remaining ≠ []) (hempty : e.workers = [])
    (h : SoFar give tasks run.outcomes) (attempts : Nat) :
    Plainly (e.openChunk job attempts run).1 tasks give delay (e.openChunk job attempts run).2 := by
  have hpiece : (chunksOf e.desk.executor.chunkSize tasks)[begun]? =
      some (chunkAt e.chunkSize begun tasks) := by
    rw [getElem?_chunksOf]
    exact if_pos (hcut.some_iff.mp hsome)
  have hshort := huntroubled.chunk _ (List.mem_of_getElem? hpiece)
  have hworkers : (e.openChunk job attempts run).1.workers =
      spawnWorkers job (chunkAt e.chunkSize begun tasks) e.nextNumber run.position := by
    rw [← hcut.take]
    exact (congrArg (· ++ _) hempty).trans (List.nil_append _)
  have hbacklog : (e.openChunk job attempts run).1.backlog delay =
      ((chunkAt e.chunkSize begun tasks).map fun t => delay t.payload).sum := by
    rw [backlog, hworkers, burden_spawnWorkers]
  obtain ⟨run', hstage, _, houtcomes, _, hdeadline⟩ := hcut.openChunk job attempts
  rw [hstage]
  have hflowing : Flowing (e.openChunk job attempts run).1 tasks give delay run'
      (e.now + (e.openChunk job attempts run).1.backlog delay) := by
    refine ⟨houtcomes ▸ h, ?_, ?_, ?_⟩
    · rw [hdeadline, hbacklog]
      exact Nat.add_lt_add_left (Nat.lt_of_lt_of_le hshort (Nat.le_add_right _ _)) _
    · rw [hbacklog]
      exact Nat.add_lt_add_left (Nat.lt_of_lt_of_le hshort hpatience) _
    · intro w hw
      rw [hworkers] at hw
      rw [phase_of_mem_spawnWorkers hw]
      exact .fresh (Nat.le_refl _)
  exact .joining hflowing

/-- **A turn of a batch that comes to no timeout.** -/
theorem Plainly.jobTurn (hregular : e.Regular) {j : Job P R} (hj : j ∈ e.jobs)
    (hready : j.isReady e = true) (hassignment : j.assignment = .execute tasks)
    (hblocks : InBlocks e j.number tasks j.stage) (hsole : SoleUser j.number e)
    (huntroubled : e.desk.Untroubled tasks give delay)
    (hpatience : e.desk.executor.permitTimeout ≤ e.limiter.patience)
    (h : Plainly e tasks give delay j.stage) :
    Plainly (e.jobTurn j).1 tasks give delay (e.jobTurn j).2 := by
  have hwf := hregular.reached.wellFormed
  have hturn := jobTurn_execute hwf hj hassignment hblocks.isExecution hready
  have htells := hregular.reached.truthful j hj
  have hempty := hsole.no_workers hwf hj
  obtain ⟨number, a, stage, turn⟩ := j
  obtain rfl : a = .execute tasks := hassignment
  generalize e.jobTurn _ = result at hturn ⊢
  have hclosed {run : BatchRun P R} {reach : Nat} (hbooked : Booked e number tasks run)
      (hflowing : Flowing e tasks give delay run reach)
      (hnone : (e.workersOf number).find? (·.hasEnded) = none)
      (hjoins : e.joinIsReady number run.deadline = true) : SoFar give tasks (e.settled number run).2 :=
    hflowing.outcomes.settled huntroubled hbooked
      (hflowing.closes hregular.reached.diligent hnone hjoins)
  cases hturn with
  | @begins due breaker some valid admitted =>
    refine Plainly.openChunk (e := e.setBreaker breaker) _ huntroubled hpatience (.whole _ tasks) some
      (hempty rfl) ?_ 0
    intro t ht o ho
    exact Or.inl (List.eq_of_mem_replicate (List.mem_of_getElem? ho))
  | declines paper empty =>
    refine .finished ?_
    intro r hr t ht o ho
    rw [empty r hr] at ho
    cases ho
  | @collects attempts run w found =>
    cases h with
    | joining flowing =>
      obtain ⟨hw, hjob⟩ := List.mem_filter.mp (List.mem_of_find?_eq_some found)
      exact .joining (flowing.collect hwf htells hw (by simpa using hjob) (List.find?_some found))
  | @pauses attempts run none some =>
    cases h with
    | joining flowing => exact .pausing (hclosed htells flowing none hready)
  | @reopens attempts run none some pauseless =>
    cases h with
    | joining flowing =>
      cases hblocks with
      | joining _ cut chunk seats singly =>
        have hdesk : (e.settled number run).1.desk = e.desk := (settled_sameJobs e number run).desk
        have hpatient : (e.settled number run).1.limiter.patience = e.limiter.patience := by
          rw [(settled_floor e number run).limiter]
          exact (dismissAll_capacity e number).2
        have hsize : (e.settled number run).1.chunkSize = e.chunkSize := by
          rw [chunkSize, chunkSize, hdesk]
        rw [← hsize] at cut
        refine Plainly.openChunk { run with outcomes := (e.settled number run).2 }
          (hdesk ▸ huntroubled) ?_ ⟨cut.remaining, cut.position⟩ some (hsole.settled_workers run)
          (hclosed htells flowing none hready) attempts
        rw [hdesk, hpatient]
        exact hpatience
  | finishes none last =>
    cases h with
    | joining flowing =>
      refine .finished ?_
      rintro r hending
      cases hending
      exact hclosed htells flowing none hready
  | resumes some rested =>
    cases h with
    | pausing outcomes =>
      cases hblocks with
      | pausing cut singly =>
        exact Plainly.openChunk _ huntroubled hpatience cut some (hempty rfl) outcomes _

end Turns

/-! ### Moves -/

/-- A batch that comes to no timeout, which uses a limiter that was at rest when it came. -/
structure Mapping (start : Limiter) (job : Nat) (tasks : List (BatchTask P)) (begin : Nat)
    (give : P → Option (Except DownstreamFailure R)) (delay : P → Nat) (e : Engine P R) : Prop where
  executing : Executing job tasks begin e
  accounted : Accounted start e
  prompt : e.limiter.Prompt
  untroubled : e.desk.Untroubled tasks give delay
  patient : e.desk.executor.permitTimeout ≤ e.limiter.patience
  plainly : ∀ j ∈ e.jobs, j.number = job → Plainly e tasks give delay j.stage

section Moves

variable {start : Limiter} {e e' : Engine P R} {job begin : Nat} {tasks : List (BatchTask P)}
  {give : P → Option (Except DownstreamFailure R)} {delay : P → Nat}

/-- **No move brings a batch to a timeout** as long as nobody else uses the limiter. -/
theorem Move.mapping (hmove : Move e e') (hstart : start.AtRest) (hfree : 0 < start.free)
    (hsole : SoleUser job e) (hsole' : SoleUser job e')
    (h : Mapping start job tasks begin give delay e) : Mapping start job tasks begin give delay e' := by
  have hregular := h.executing.regular
  have hwf := hregular.reached.wellFormed
  have hwf' := hmove.wellFormed hwf
  have hle := hmove.now_le hwf
  have hdesk := hmove.desk hwf
  have haccounted := hmove.accounted hwf h.accounted
  have hpatience : e'.limiter.patience = e.limiter.patience :=
    haccounted.patience.trans h.accounted.patience.symm
  refine ⟨hmove.executing h.executing, haccounted, Course.prompt (.single hmove) hwf h.prompt,
    hdesk ▸ h.untroubled, ?_, ?_⟩
  · rw [hdesk, hpatience]
    exact h.patient
  cases hmove with
  | @worker w member ready =>
    have hjobs : (e.serveWorker w).jobs = e.jobs := (workerTurn_house e w).jobs
    have hown := hsole.workers w member
    intro j hj hnumber
    rw [hjobs] at hj
    obtain ⟨attempts, run, hstage⟩ := h.executing.joining member hown hj hnumber
    obtain ⟨hbooked, _⟩ := h.executing.booked hj hnumber hstage
    have hplainly := h.plainly j hj hnumber
    rw [hstage] at hplainly ⊢
    cases hplainly with
    | joining flowing =>
      exact .joining (flowing.serveWorker hwf h.untroubled hregular.reached.diligent hbooked member
        hown ready)
  | @job k member ready =>
    have hnow : (e.serveJob k).now = e.now :=
      (jobTurn_turn e k (hwf.sound k member) ready).sameJobs.now
    intro j hj hnumber
    rcases mem_serveJob hwf member ready hj with rfl | ⟨hold, hne⟩
    · obtain rfl : k.number = job := hnumber
      obtain ⟨hassignment, hblocks, _⟩ := h.executing.batch k member rfl
      have hserved := (h.plainly k member rfl).jobTurn hregular member ready hassignment hblocks hsole
        h.untroubled h.patient
      exact hserved.frame (.refl _) rfl rfl
    · have hother : k.number ≠ job := fun hsame => hne (hnumber.trans hsame.symm)
      have helse := serveJob_elsewhere hwf hregular.suited member ready hother
      -- All workers are those of the batch, before and after.
      have hworkers (w : Worker P R) : w ∈ (e.serveJob k).workers ↔ w ∈ e.workers := by
        constructor
        · exact fun hw => (helse.workers w (hsole'.workers w hw)).mp hw
        · exact fun hw => (helse.workers w (hsole.workers w hw)).mpr hw
      have hperm : (e.serveJob k).workers.Perm e.workers :=
        (List.perm_ext_iff_of_nodup (List.Nodup.of_map _ hwf'.workers_nodup)
          (List.Nodup.of_map _ hwf.workers_nodup)).mpr hworkers
      exact (h.plainly j hold hnumber).frame hperm hnow hpatience
  | @tick time quiet due =>
    intro j hj hnumber
    have hplainly := h.plainly j hj hnumber
    obtain ⟨number, a, stage, turn⟩ := j
    cases hplainly with
    | arriving => exact .arriving
    | joining flowing =>
      exact .joining (flowing.tick hsole h.accounted hstart hfree h.prompt quiet due hle)
    | pausing outcomes => exact .pausing outcomes
    | finished outcomes => exact .finished outcomes

theorem AtRest.mapping (hrest : e.AtRest) (hlimiter : e.limiter.AtRest)
    (hpatience : e.desk.executor.permitTimeout ≤ e.limiter.patience)
    (huntroubled : e.desk.Untroubled tasks give delay) {assignments : List (Nat × Assignment P)}
    {i wait : Nat} (hassigned : assignments[i]? = some (wait, .execute tasks)) :
    Mapping e.limiter (e.nextNumber + i) tasks (e.now + wait) give delay
      (e.addJobs assignments).unturned := by
  have hstart : (e.addJobs assignments).unturned.desk = e.desk ∧
      (e.addJobs assignments).unturned.limiter = e.limiter := by
    rw [addJobs_eq]
    exact ⟨rfl, rfl⟩
  refine ⟨hrest.executing hassigned, hrest.accounted hlimiter assignments, ?_, ?_, ?_, ?_⟩
  · rw [hstart.2]
    exact Or.inr hlimiter.queue
  · rw [hstart.1]
    exact huntroubled
  · rw [hstart.1, hstart.2]
    exact hpatience
  · intro j hj _
    obtain ⟨due, hstage⟩ := hrest.arriving hj
    rw [hstage]
    exact .arriving

/-- In the end, a batch that has been admitted has come to the result of the plain map. -/
theorem Mapping.result (h : Mapping start job tasks begin give delay e) (hsettled : e.Settled)
    (hvalid : checkTasks tasks = .ok ()) (hunderway : e.Underway job tasks) :
    ∃ j ∈ e.jobs, j.number = job ∧ ∃ time,
      j.ending? = some (time, .ok (.ok (.batch (.mapped give tasks)))) := by
  obtain ⟨j, hj, hnumber, time, r, hending, haccounts⟩ :=
    hsettled.accountsFor h.executing.regular.reached hunderway
  have hplainly := h.plainly j hj hnumber
  rw [ending?_eq_some hending] at hplainly
  cases hplainly with
  | finished outcomes =>
    have hsame : r = .mapped give tasks := by
      refine BatchResult.eq_mapped hvalid haccounts.length ?_
      intro t ht
      have hrange : t.index < r.outcomes.length := by
        rw [haccounts.length]
        exact (checkTasks_ok hvalid).1 t ht
      have hplace := List.getElem?_eq_getElem hrange
      have hclosed := haccounts.closed _ (List.getElem_mem hrange)
      rw [hplace, (outcomes r rfl t ht _ hplace).resolve_left hclosed]
    exact ⟨j, hj, hnumber, time, hsame ▸ hending⟩

end Moves

/-! ### All of it -/

/-- **Without a timeout, a batch is a plain map.** Let a batch with accepted indices come to a limiter
that has a free permit and that nobody else uses, let each of its operations give something after a delay
below the time limit of a task, and let the delays within a chunk together be below the wait for a permit.
If the breaker admits it in its first turn, its result has in the place of each task what its operation
gives. This holds for what is performed, where the batch is the first of several assignments, and on every
course; and the order of the tasks does not matter, nor do the settings, or the delays themselves. -/
theorem batch_is_a_plain_map {e : Engine P R} (hrest : e.AtRest) (hlimiter : e.limiter.AtRest)
    (hfree : 0 < e.limiter.free)
    (hpatience : e.desk.executor.permitTimeout ≤ e.limiter.patience) {tasks : List (BatchTask P)}
    (hvalid : checkTasks tasks = .ok ()) {give : P → Option (Except DownstreamFailure R)}
    {delay : P → Nat} (huntroubled : e.desk.Untroubled tasks give delay) :
    (∀ t ∈ tasks, (BatchResult.mapped give tasks).outcomes[t.index]? =
      some (.ofGiven (give t.payload))) ∧
    (∀ tasks' : List (BatchTask P), tasks'.Perm tasks →
      BatchResult.mapped give tasks' = .mapped give tasks) ∧
    (∀ others breaker, e.breaker.admitBulk e.wall = .ok (.ok (), breaker) →
      (∀ e', Course (e.addJobs ((0, .execute tasks) :: others)).unturned e' →
        SoleUser e.nextNumber e') →
      ∃ time, (e.perform ((0, .execute tasks) :: others)).2.head? =
        some (some (time, .ok (.ok (.batch (.mapped give tasks)))))) ∧
    ∀ assignments e' j due breaker, Course (e.addJobs assignments).unturned e' → j ∈ e'.jobs →
      j.stage = .arriving due → due ≤ e'.now → j.assignment = .execute tasks →
      e'.breaker.admitBulk e'.wall = .ok (.ok (), breaker) →
      (∀ e'', Course (e.addJobs assignments).unturned e'' → SoleUser j.number e'') →
      (∃ done, Course (e'.serveJob j) done ∧ done.Settled) ∧
        ∀ done, Course (e'.serveJob j) done → done.Settled →
          ∃ k ∈ done.jobs, k.number = j.number ∧ ∃ time,
            k.ending? = some (time, .ok (.ok (.batch (.mapped give tasks)))) := by
  have hmapping {assignments : List (Nat × Assignment P)} {i wait : Nat}
      (hassigned : assignments[i]? = some (wait, .execute tasks))
      (hsole : ∀ e', Course (e.addJobs assignments).unturned e' → SoleUser (e.nextNumber + i) e')
      {e' : Engine P R} (hcourse : Course (e.addJobs assignments).unturned e') :
      Mapping e.limiter (e.nextNumber + i) tasks (e.now + wait) give delay e' := by
    induction hcourse with
    | refl => exact hrest.mapping hlimiter hpatience huntroubled hassigned
    | @tail e₁ e₂ hfirst hlast ih =>
      exact hlast.mapping hlimiter hfree (hsole e₁ hfirst) (hsole e₂ (hfirst.tail hlast)) ih
  refine ⟨fun t ht => BatchResult.getElem?_mapped hvalid ht,
    fun tasks' hperm => BatchResult.mapped_perm hvalid hperm, ?_, ?_⟩
  · intro others breaker hallowed hsole
    obtain ⟨hmem, hready, done, hcourse, hsettled, _, hendings⟩ :=
      perform_first hrest (.execute tasks) others
    have hwf := hrest.wellFormed ((0, .execute tasks) :: others)
    have hall : Course (e.addJobs ((0, .execute tasks) :: others)).unturned done :=
      .head (Move.job hmem hready) hcourse
    have hallowed' : (e.addJobs ((0, .execute tasks) :: others)).unturned.breaker.admitBulk
        (e.addJobs ((0, .execute tasks) :: others)).unturned.wall = .ok (.ok (), breaker) := by
      rw [addJobs_eq]
      exact hallowed
    have hunderway := underway_of_allowed hwf hmem hready rfl rfl hvalid hallowed' hcourse
    obtain ⟨j, hj, hnumber, time, hending⟩ :=
      (hmapping (i := 0) rfl hsole hall).result hsettled hvalid hunderway
    refine ⟨time, ?_⟩
    rw [hendings, List.head?_eq_getElem?, hrest.getElem?_endings (i := 0) hall hj hnumber, hending]
  · intro assignments e' j due breaker hcourse hj hstage hdue hassignment hallowed hsole
    have hwf := hcourse.wellFormed (hrest.wellFormed assignments)
    have hready : j.isReady e' = true := by
      simpa [Job.isReady, hstage] using hdue
    obtain ⟨i, wait, _, hassigned, hnumber⟩ := hrest.exists_assignment hcourse hj
    rw [hassignment] at hassigned
    refine ⟨exists_settled (serveJob_wellFormed hwf hj hready), ?_⟩
    intro done hrun hsettled
    have hall : Course (e.addJobs assignments).unturned done :=
      hcourse.trans (.head (Move.job hj hready) hrun)
    have hunderway := underway_of_allowed hwf hj hready hstage hassignment hvalid hallowed hrun
    rw [hnumber] at hsole hunderway ⊢
    exact (hmapping hassigned hsole hall).result hsettled hvalid hunderway

/-- Three tasks in another order than their places, in chunks of two that share one permit, while somebody
else keeps the table: one is answered, one breaks off, and one fails. -/
theorem three_tasks_are_mapped :
    let desk : Desk (Conduct (Except DownstreamFailure Nat)) Nat :=
      .forTasks Nat { chunkSize := 2, maxConcurrency := 1, permitTimeout := 5, taskTimeout := 6 }
    let e := begun desk {} {} none [] 0
    let failure : DownstreamFailure := { status := none, kind := .connectivity, message := "reset" }
    let tasks : List (BatchTask (Conduct (Except DownstreamFailure Nat))) :=
      [⟨1, .answers 3 (.ok 7)⟩, ⟨2, .breaksOff 1⟩, ⟨0, .answers 4 (.error failure)⟩]
    e.AtRest ∧ ∃ time, (e.perform [(0, .execute tasks), (1, .occupy (some 3))]).2.head? =
      some (some (time, .ok (.ok (.batch { outcomes :=
        [.failure failure.text, .success 7, .failure "task interrupted"] })))) := by
  intro desk e failure tasks
  have hrest : e.AtRest := begun_atRest _ _ _ _ _ _
  have huntroubled : e.desk.Untroubled tasks Conduct.given? Conduct.span :=
    ⟨fun t ht _ => Conduct.gives_self ((by decide : ∀ t ∈ tasks, t.payload.due?.isSome = true) t ht),
      by decide +kernel, by decide +kernel⟩
  have hresult := (batch_is_a_plain_map hrest (begun_limiter_atRest _ _ _ _ _ _) (by decide)
    (Nat.le_refl _) rfl huntroubled).2.2.1 [(1, .occupy (some 3))] e.breaker rfl
    (fun e' hcourse => hrest.soleUser (i := 0) (by simp) ?_ hcourse)
  · exact ⟨hrest, hresult⟩
  · rintro (_ | _ | k) x hx hother
    · exact absurd rfl hother
    · obtain rfl := Option.some.inj hx
      rfl
    · cases hx

end Engine

end OrderAdmission
