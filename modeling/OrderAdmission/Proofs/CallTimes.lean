import Mathlib.Algebra.BigOperators.Intervals
import OrderAdmission.Proofs.Accounting

/-!
# The times of a submission

A submission makes bulk calls within a time budget and may then send its orders in chunks, each of which
is cut off at a deadline. `Desk.Scheduled` says at which times its bulk calls begin and end, and `OnTime` at
which times it stands at which stage. Both are counted from the instant at which the submission begins.

A call that has been made ends when its answer comes, or is cut off; a retry that has been put off begins
on time; a chunk is over at its deadline. The clock moves to the next time at which somebody is able to go
on, so it never passes one of these. This makes the times an invariant of every move (`Move.timely`), and
the main result is read off it: **the bulk calls of a submission keep to the
time budget, each of them to the time limit of a call, and the whole submission to the sum of the budget
and of what its chunks and the pauses between them may take**, whatever the service does.
-/
namespace OrderAdmission

variable {P R : Type}

/-! ### The time budget -/

namespace RetryConfig

/-- The first so many delays together. -/
def waits (c : RetryConfig) (retries : Nat) : Nat := ∑ k ∈ Finset.range retries, c.delay k

@[simp] theorem waits_zero (c : RetryConfig) : c.waits 0 = 0 := rfl

theorem waits_succ (c : RetryConfig) (retries : Nat) :
    c.waits (retries + 1) = c.waits retries + c.delay retries := Finset.sum_range_succ _ _

variable {c : RetryConfig}

theorem sumDelays_eq {k sum count total : Nat} (h : c.sumDelays k sum count = .ok total) :
    total = sum + ∑ i ∈ Finset.range count, c.delay (k + i) := by
  induction count generalizing k sum with
  | zero => simpa [sumDelays] using h.symm
  | succ count ih =>
    simp only [sumDelays, checkedSpan] at h
    split at h
    · rw [ih h, Finset.sum_range_succ']
      simp only [Nat.add_zero, Nat.add_assoc, Nat.add_comm, Nat.add_left_comm]
    · cases h

/-- **The time budget**, where it can be computed, is one call and all delays. -/
theorem totalBudget_eq {callTimeout budget : Nat} (h : c.totalBudget callTimeout = .ok budget) :
    budget = callTimeout + c.waits c.maxRetries := by
  unfold totalBudget at h
  cases hbackoff : c.totalBackoff with
  | error crash => simp only [hbackoff, bind, Except.bind, reduceCtorEq] at h
  | ok backoff =>
    have hsum := sumDelays_eq hbackoff
    simp only [Nat.zero_add] at hsum
    simp only [hbackoff, bind, Except.bind, checkedSpan] at h
    split at h
    · rw [← Except.ok.inj h, hsum]
      rfl
    · cases h

end RetryConfig

/-- The time spent in some calls, each given by its start and its end. -/
def spent (calls : List (Nat × Nat)) : Nat := (calls.map fun x => x.2 - x.1).sum

theorem spent_append (first second : List (Nat × Nat)) :
    spent (first ++ second) = spent first + spent second := by
  simp [spent]

namespace FallbackConfig

/-- The time that all bulk calls and delays together may take. -/
def timeBudget (c : FallbackConfig) : Nat := c.callTimeout + c.retry.waits c.retry.maxRetries

/-- When the next bulk call of a submission begins, if there is one: each retry waits its delay from the
end of the call before. -/
def nextCall (c : FallbackConfig) (begin : Nat) (calls : List (Nat × Nat)) : Nat :=
  begin + spent calls + c.retry.waits calls.length

variable {c : FallbackConfig} {begin : Nat} {calls : List (Nat × Nat)}

@[simp] theorem nextCall_nil : c.nextCall begin [] = begin := rfl

theorem nextCall_after {stop : Nat} (forward : c.nextCall begin calls ≤ stop) :
    c.nextCall begin (calls ++ [(c.nextCall begin calls, stop)]) =
      stop + c.retry.delay calls.length := by
  have hspent : spent [(c.nextCall begin calls, stop)] = stop - c.nextCall begin calls := rfl
  have hnext : c.nextCall begin calls = begin + spent calls + c.retry.waits calls.length := rfl
  rw [nextCall, spent_append, List.length_append, List.length_singleton,
    RetryConfig.waits_succ, hspent]
  omega

end FallbackConfig

/-! ### The end of a call -/

theorem Conduct.le_due {α : Type} {conduct : Conduct α} {begin limit : Nat} (h : begin ≤ limit) :
    begin ≤ earlier (conduct.since begin).due? limit := by
  cases conduct with
  | answers wait answer | breaksOff wait => exact le_min (Nat.le_add_right _ _) h
  | hangs => exact h

theorem earlier_le (due : Option Nat) (deadline : Nat) : earlier due deadline ≤ deadline := by
  cases due with
  | none => exact Nat.le_refl _
  | some t => exact Nat.min_le_right _ _

theorem Conduct.earlier_le_of_arrived {α : Type} {conduct : Conduct α} {cutoff now : Nat}
    (h : (conduct.arrived now || decide (cutoff ≤ now)) = true) :
    earlier conduct.due? cutoff ≤ now := by
  rcases (Bool.or_eq_true _ _).mp h with hcome | hover
  · unfold Conduct.arrived at hcome
    split at hcome
    · rename_i t hdue
      rw [hdue]
      exact Nat.le_trans (Nat.min_le_left _ _) (of_decide_eq_true hcome)
    · cases hcome
  · exact Nat.le_trans (earlier_le _ _) (of_decide_eq_true hover)

namespace Desk

variable (desk : Desk P R) (orders : List P) (begin : Nat)

/-- When a bulk call ends that begins at `first`, in a submission that began at `begin`: when something
comes back, or when the time limit of a call or the budget is over. -/
def callEnd (number first : Nat) : Nat :=
  earlier ((desk.bulk number orders).since first).due?
    (min (first + desk.fallback.callTimeout) (begin + desk.fallback.timeBudget))

/-- The bulk calls that have ended of a submission which began at an instant, each with its start and
its end: each of them begins when it is due, within the budget, and ends when the service lets it or when
it is cut off. -/
inductive Scheduled : List (Nat × Nat) → Prop where
  | none : Scheduled []
  | after {calls : List (Nat × Nat)} (before : Scheduled calls)
      (within : desk.fallback.nextCall begin calls ≤ begin + desk.fallback.timeBudget)
      (number : Nat) :
      Scheduled (calls ++ [(desk.fallback.nextCall begin calls,
        desk.callEnd orders begin number (desk.fallback.nextCall begin calls))])

variable {desk orders begin}

theorem callEnd_limits {first : Nat} (within : first ≤ begin + desk.fallback.timeBudget)
    (number : Nat) :
    first ≤ desk.callEnd orders begin number first ∧
      desk.callEnd orders begin number first ≤ first + desk.fallback.callTimeout ∧
      desk.callEnd orders begin number first ≤ begin + desk.fallback.timeBudget := by
  have hcut : desk.callEnd orders begin number first ≤
      min (first + desk.fallback.callTimeout) (begin + desk.fallback.timeBudget) := earlier_le _ _
  exact ⟨Conduct.le_due (le_min (Nat.le_add_right _ _) within),
    Nat.le_trans hcut (Nat.min_le_left _ _), Nat.le_trans hcut (Nat.min_le_right _ _)⟩

variable {calls : List (Nat × Nat)}

theorem Scheduled.mem (h : desk.Scheduled orders begin calls) {x : Nat × Nat} (hx : x ∈ calls) :
    x.1 ≤ x.2 ∧ x.2 ≤ x.1 + desk.fallback.callTimeout ∧
      x.2 ≤ begin + desk.fallback.timeBudget := by
  induction h with
  | none => cases hx
  | after before within number ih =>
    rcases List.mem_append.mp hx with hx | hx
    · exact ih hx
    · obtain rfl := List.mem_singleton.mp hx
      exact callEnd_limits within number

/-- A call begins when the time spent in the calls before it and the delays up to it are over. -/
theorem Scheduled.start (h : desk.Scheduled orders begin calls) {k : Nat} {x : Nat × Nat}
    (hx : calls[k]? = some x) : x.1 = desk.fallback.nextCall begin (calls.take k) := by
  induction h with
  | none => cases hx
  | @after calls before within number ih =>
    rcases Nat.lt_or_ge k calls.length with hlt | hge
    · rw [List.getElem?_append_left hlt] at hx
      rw [List.take_append_of_le_length (Nat.le_of_lt hlt)]
      exact ih hx
    · have hlast : k = calls.length := by
        have hbound := (List.getElem?_eq_some_iff.mp hx).1
        rw [List.length_append, List.length_singleton] at hbound
        omega
      subst hlast
      rw [List.getElem?_concat_length] at hx
      obtain rfl := Option.some.inj hx
      rw [List.take_left]

end Desk

/-! ### The time of a batch -/

namespace ExecutorConfig

/-- The number of chunks of a batch of so many tasks; a chunk size of zero counts as one. -/
def chunkCount (c : ExecutorConfig) (tasks : Nat) : Nat :=
  (tasks + max 1 c.chunkSize - 1) / max 1 c.chunkSize

/-- The longest time of a batch of so many tasks: all chunks, and the pauses between them. -/
def longest (c : ExecutorConfig) (tasks : Nat) : Nat :=
  c.chunkCount tasks * c.chunkTimeout + (c.chunkCount tasks - 1) * c.chunkPause

/-- The longest time from the end of a chunk to the end of the batch, with so many tasks left. -/
def longestAfter (c : ExecutorConfig) (tasks : Nat) : Nat :=
  if tasks = 0 then 0 else c.chunkPause + c.longest tasks

variable (c : ExecutorConfig)

theorem chunkCount_zero : c.chunkCount 0 = 0 := by
  have hpos : 0 < max 1 c.chunkSize := Nat.lt_of_lt_of_le Nat.zero_lt_one (Nat.le_max_left _ _)
  rw [chunkCount, Nat.zero_add]
  exact Nat.div_eq_of_lt (Nat.sub_lt hpos Nat.zero_lt_one)

theorem chunkCount_of_pos {tasks : Nat} (h : 0 < tasks) :
    c.chunkCount tasks = c.chunkCount (tasks - max 1 c.chunkSize) + 1 := by
  have hpos : 0 < max 1 c.chunkSize := Nat.lt_of_lt_of_le Nat.zero_lt_one (Nat.le_max_left _ _)
  rcases Nat.le_total tasks (max 1 c.chunkSize) with hle | hge
  · rw [Nat.sub_eq_zero_of_le hle, chunkCount_zero, chunkCount]
    exact Nat.div_eq_of_lt_le (by omega) (by omega)
  · rw [chunkCount, chunkCount, ← Nat.add_div_right _ hpos]
    congr 1
    omega

/-- The longest time of a batch is that of its first chunk and of what comes after it. -/
theorem longest_of_pos {tasks : Nat} (h : 0 < tasks) :
    c.longest tasks = c.chunkTimeout + c.longestAfter (tasks - max 1 c.chunkSize) := by
  rw [longest, chunkCount_of_pos c h, longestAfter]
  generalize tasks - max 1 c.chunkSize = rest
  by_cases hrest : rest = 0
  · simp [hrest, chunkCount_zero]
  · obtain ⟨n, hn⟩ : ∃ n, c.chunkCount rest = n + 1 :=
      ⟨_, c.chunkCount_of_pos (Nat.pos_of_ne_zero hrest)⟩
    rw [if_neg hrest, longest, hn]
    simp only [Nat.add_sub_cancel, Nat.add_mul, Nat.one_mul]
    omega

end ExecutorConfig

/-! ### What the journal tells of the times -/

/-- When the bulk calls of a job among these entries began. -/
def bulkStarts (job : Nat) (entries : List (Entry P R)) : List Nat :=
  entries.filterMap fun x =>
    match x.event with
    | .bulkCalled k _ => if k = job then some x.time else none
    | _ => none

/-- When the bulk calls of a job among these entries came to an end. -/
def bulkEnds (job : Nat) (entries : List (Entry P R)) : List Nat :=
  entries.filterMap fun x =>
    match x.event with
    | .bulkEnded k _ => if k = job then some x.time else none
    | _ => none

theorem bulkStarts_append (job : Nat) (first second : List (Entry P R)) :
    bulkStarts job (first ++ second) = bulkStarts job first ++ bulkStarts job second :=
  List.filterMap_append

theorem bulkEnds_append (job : Nat) (first second : List (Entry P R)) :
    bulkEnds job (first ++ second) = bulkEnds job first ++ bulkEnds job second :=
  List.filterMap_append

/-- Whether an event says nothing of the bulk calls of a job. -/
def Event.OffBulk (job : Nat) (event : Event P R) : Prop := event.isBulk = true → event.job ≠ job

section OffBulk

variable {job : Nat} {entries : List (Entry P R)}

theorem bulkStarts_eq_nil (h : ∀ x ∈ entries, x.event.OffBulk job) : bulkStarts job entries = [] := by
  rw [bulkStarts, List.filterMap_eq_nil_iff]
  intro x hx
  have hoff := h x hx
  split
  · rename_i k orders hevent
    rw [hevent] at hoff
    exact if_neg (hoff rfl)
  · rfl

theorem bulkEnds_eq_nil (h : ∀ x ∈ entries, x.event.OffBulk job) : bulkEnds job entries = [] := by
  rw [bulkEnds, List.filterMap_eq_nil_iff]
  intro x hx
  have hoff := h x hx
  split
  · rename_i k answer hevent
    rw [hevent] at hoff
    exact if_neg (hoff rfl)
  · rfl

end OffBulk

namespace Engine

/-- These are the starts and the ends of the bulk calls of a job since the start. -/
def Clocked (start e : Engine P R) (job : Nat) (starts ends : List Nat) : Prop :=
  ∃ added, e.journal = added ++ start.journal ∧ bulkStarts job added.reverse = starts ∧
    bulkEnds job added.reverse = ends

section Clocked

variable {start e e' : Engine P R} {job : Nat} {starts ends : List Nat}

theorem Clocked.nothing (e : Engine P R) (job : Nat) : Clocked e e job [] [] := ⟨[], rfl, rfl, rfl⟩

theorem Clocked.aside (h : Clocked start e job starts ends)
    (hadds : Adds (fun event => event.OffBulk job) e e') : Clocked start e' job starts ends := by
  obtain ⟨added, hadded, hstarts, hends⟩ := h
  obtain ⟨more, hmore, hoff⟩ := hadds
  have hoff' : ∀ x ∈ more.reverse, x.event.OffBulk job :=
    fun x hx => hoff x (List.mem_reverse.mp hx)
  refine ⟨more ++ added, by rw [hmore, hadded, List.append_assoc], ?_, ?_⟩
  · rw [List.reverse_append, bulkStarts_append, hstarts, bulkStarts_eq_nil hoff', List.append_nil]
  · rw [List.reverse_append, bulkEnds_append, hends, bulkEnds_eq_nil hoff', List.append_nil]

theorem Clocked.called (h : Clocked start e job starts ends) {orders : List P}
    (hjournal : e'.journal = ⟨e.now, .bulkCalled job orders⟩ :: e.journal) :
    Clocked start e' job (starts ++ [e.now]) ends := by
  obtain ⟨added, hadded, hstarts, hends⟩ := h
  refine ⟨⟨e.now, .bulkCalled job orders⟩ :: added, by rw [hjournal, hadded]; rfl, ?_, ?_⟩
  · rw [List.reverse_cons, bulkStarts_append, hstarts]
    simp [bulkStarts]
  · rw [List.reverse_cons, bulkEnds_append, hends]
    simp [bulkEnds]

theorem Clocked.ended (h : Clocked start e job starts ends) (answer : Option (BulkAnswer R)) :
    Clocked start (e.note (.bulkEnded job answer)) job starts (ends ++ [e.now]) := by
  obtain ⟨added, hadded, hstarts, hends⟩ := h
  refine ⟨⟨e.now, .bulkEnded job answer⟩ :: added,
    by rw [List.cons_append, ← hadded]; rfl, ?_, ?_⟩
  · rw [List.reverse_cons, bulkStarts_append, hstarts]
    simp [bulkStarts]
  · rw [List.reverse_cons, bulkEnds_append, hends]
    simp [bulkEnds]

theorem Clocked.since (h : Clocked start e job starts ends) :
    bulkStarts job (e.since start.journal.length) = starts ∧
      bulkEnds job (e.since start.journal.length) = ends := by
  obtain ⟨added, hadded, hstarts, hends⟩ := h
  rw [since_eq hadded]
  exact ⟨hstarts, hends⟩

theorem Paper.offBulk {k : Nat} (h : Paper k e e') :
    Adds (fun event => event.OffBulk job) e e' := by
  refine h.frame.journal.mono ?_
  rintro event ⟨r, wall, rfl⟩ hbulk
  cases hbulk

theorem Elsewhere.offBulk (h : Elsewhere job e e') : Adds (fun event => event.OffBulk job) e e' :=
  h.journal.mono fun _ hother _ => hother

theorem serveWorker_offBulk {w : Worker P R} (hready : w.isReady e.limiter e.now = true) :
    Adds (fun event => event.OffBulk job) e (e.serveWorker w) := by
  have hturn : Adds (fun event => event.isBulk = false) e (e.serveWorker w) :=
    workerTurn_not_bulk hready
  refine hturn.mono fun event hnone hbulk => ?_
  rw [hnone] at hbulk
  cases hbulk

end Clocked

end Engine

/-! ### Being on time -/

/-- The latest end of a submission of so many orders that begins at an instant. -/
def Desk.latestEnd (desk : Desk P R) (begin orders : Nat) : Nat :=
  begin + desk.fallback.timeBudget + desk.executor.longest orders

/-- Where a submission that begins at an instant stands when it is on time: the bulk calls have ended
that are given, and the last one may still be open. -/
inductive OnTime (desk : Desk P R) (orders : List P) (begin now : Nat) (calls : List (Nat × Nat)) :
    Option Nat → Stage P R → Prop where
  | arriving (fresh : calls = []) (timely : now ≤ begin) :
      OnTime desk orders begin now calls none (.arriving begin)
  | calling {run : BulkRun R} {n : Nat} (attempt : run.attempt = calls.length + 1)
      (deadline : run.deadline = begin + desk.fallback.timeBudget)
      (call : run.call = (desk.bulk n orders).since (desk.fallback.nextCall begin calls))
      (cutoff : run.cutoff =
        min (desk.fallback.nextCall begin calls + desk.fallback.callTimeout) run.deadline)
      (within : desk.fallback.nextCall begin calls ≤ run.deadline)
      (timely : now ≤ earlier run.call.due? run.cutoff) :
      OnTime desk orders begin now calls (some (desk.fallback.nextCall begin calls)) (.calling run)
  | backingOff {deadline : Nat} (deadline_eq : deadline = begin + desk.fallback.timeBudget)
      (within : desk.fallback.nextCall begin calls < deadline)
      (timely : now ≤ desk.fallback.nextCall begin calls) :
      OnTime desk orders begin now calls none
        (.backingOff calls.length deadline (desk.fallback.nextCall begin calls))
  | joining {attempts : Nat} {run : BatchRun P R} (timely : now ≤ run.deadline)
      (ends : run.deadline + desk.executor.longestAfter run.remaining.length ≤
        desk.latestEnd begin orders.length) :
      OnTime desk orders begin now calls none (.joining attempts run)
  | pausing {attempts due : Nat} {run : BatchRun P R} (some : run.remaining ≠ [])
      (timely : now ≤ due)
      (ends : due + desk.executor.longest run.remaining.length ≤
        desk.latestEnd begin orders.length) :
      OnTime desk orders begin now calls none (.pausing attempts run due)
  /-- It has ended, within the time limits of its last call if that has never come back. -/
  | finished {time : Nat} {ending : Ending R} {opened : Option Nat}
      (ends : time ≤ desk.latestEnd begin orders.length)
      (cut : ∀ first ∈ opened, first = desk.fallback.nextCall begin calls ∧
        time ≤ first + desk.fallback.callTimeout ∧ time ≤ begin + desk.fallback.timeBudget) :
      OnTime desk orders begin now calls opened (.finished time ending)

section OnTime

variable {desk : Desk P R} {orders : List P} {begin now : Nat} {calls : List (Nat × Nat)}
  {opened : Option Nat}

/-- A bulk call that has come back or is cut off ends at this very instant. -/
theorem OnTime.call_ends {e : Engine P R} {number : Nat} {a : Assignment P} {turn : Option Nat}
    {run : BulkRun R} (h : OnTime desk orders begin e.now calls opened (.calling run))
    (hready : (⟨number, a, .calling run, turn⟩ : Job P R).isReady e = true) :
    desk.fallback.nextCall begin calls ≤ begin + desk.fallback.timeBudget ∧
      ∃ n, e.now = desk.callEnd orders begin n (desk.fallback.nextCall begin calls) := by
  cases h with
  | @calling _ n attempt deadline call cutoff within timely =>
    have hdue : earlier run.call.due? run.cutoff ≤ e.now := Conduct.earlier_le_of_arrived hready
    refine ⟨deadline ▸ within, n, ?_⟩
    rw [call, cutoff, deadline] at hdue timely
    exact Nat.le_antisymm timely hdue

theorem OnTime.call_limits {e : Engine P R} {number : Nat} {a : Assignment P} {turn : Option Nat}
    {run : BulkRun R} (h : OnTime desk orders begin e.now calls opened (.calling run))
    (hready : (⟨number, a, .calling run, turn⟩ : Job P R).isReady e = true) :
    desk.fallback.nextCall begin calls ≤ e.now ∧
      e.now ≤ desk.fallback.nextCall begin calls + desk.fallback.callTimeout ∧
      e.now ≤ begin + desk.fallback.timeBudget := by
  obtain ⟨hwithin, n, hnow⟩ := h.call_ends hready
  rw [hnow]
  exact Desk.callEnd_limits hwithin n

/-- The clock may move up to the next time at which the job is able to go on. -/
theorem OnTime.tick {stage : Stage P R} (h : OnTime desk orders begin now calls opened stage)
    {number : Nat} {a : Assignment P} {turn : Option Nat} {time : Nat}
    (hdue : ∀ t, (⟨number, a, stage, turn⟩ : Job P R).due? = some t → time ≤ t) :
    OnTime desk orders begin time calls opened stage := by
  cases h with
  | arriving fresh timely => exact .arriving fresh (hdue _ rfl)
  | calling attempt deadline call cutoff within timely =>
    exact .calling attempt deadline call cutoff within (hdue _ rfl)
  | backingOff deadline_eq within timely => exact .backingOff deadline_eq within (hdue _ rfl)
  | joining timely ends => exact .joining (hdue _ rfl) ends
  | pausing some timely ends => exact .pausing some (hdue _ rfl) ends
  | finished ends cut => exact .finished ends cut

end OnTime

namespace Engine

/-- The bulk calls of a submission that began at an instant, and where it stands. -/
structure Punctual (start e : Engine P R) (job : Nat) (orders : List P) (begin : Nat)
    (calls : List (Nat × Nat)) (opened : Option Nat) (stage : Stage P R) : Prop where
  scheduled : start.desk.Scheduled orders begin calls
  counted : calls.length + opened.toList.length ≤ maxAttempts
  clocked : Clocked start e job (calls.map (·.1) ++ opened.toList) (calls.map (·.2))
  onTime : OnTime start.desk orders begin e.now calls opened stage

/-- The bulk calls of a submission of which none is open. -/
structure HungUp (start e : Engine P R) (job : Nat) (orders : List P) (begin : Nat)
    (calls : List (Nat × Nat)) : Prop where
  desk : e.desk = start.desk
  scheduled : start.desk.Scheduled orders begin calls
  counted : calls.length ≤ maxAttempts
  clocked : Clocked start e job (calls.map (·.1)) (calls.map (·.2))

section Turns

variable {start e e' : Engine P R} {job begin : Nat} {orders : List P} {calls : List (Nat × Nat)}

theorem Punctual.aside {opened : Option Nat} {stage : Stage P R}
    (h : Punctual start e job orders begin calls opened stage)
    (hadds : Adds (fun event => event.OffBulk job) e e') (hnow : e'.now = e.now) :
    Punctual start e' job orders begin calls opened stage :=
  ⟨h.scheduled, h.counted, h.clocked.aside hadds, hnow.symm ▸ h.onTime⟩

theorem HungUp.paper (h : HungUp start e job orders begin calls) (hpaper : Paper job e e') :
    HungUp start e' job orders begin calls :=
  ⟨hpaper.frame.floor.desk.trans h.desk, h.scheduled, h.counted, h.clocked.aside (Paper.offBulk hpaper)⟩

theorem HungUp.conclude (h : HungUp start e job orders begin calls)
    (hnow : e.now ≤ start.desk.latestEnd begin orders.length) (ending : Ending R) :
    Punctual start (e.conclude (.submit orders) ending).1 job orders begin calls none
      (e.conclude (.submit orders) ending).2 := by
  rw [conclude_eq]
  refine ⟨h.scheduled, h.counted, ?_, .finished hnow nofun⟩
  rw [Option.toList_none, List.append_nil]
  exact h.clocked.aside (.nothing rfl)

theorem HungUp.openChunk (h : HungUp start e job orders begin calls) {run : BatchRun P R}
    (hsome : run.remaining ≠ [])
    (hends : e.now + start.desk.executor.longest run.remaining.length ≤
      start.desk.latestEnd begin orders.length) (attempts : Nat) :
    Punctual start (e.openChunk job attempts run).1 job orders begin calls none
      (e.openChunk job attempts run).2 := by
  refine ⟨h.scheduled, h.counted, ?_, .joining (Nat.le_add_right _ _) ?_⟩
  · rw [Option.toList_none, List.append_nil]
    exact h.clocked.aside (.nothing rfl)
  · rw [ExecutorConfig.longest_of_pos _ (List.length_pos_iff.mpr hsome), ← Nat.add_assoc] at hends
    simp only [List.length_drop, chunkSize, h.desk]
    exact hends

/-- Orders that are sent one by one within the time budget are through in time. -/
theorem HungUp.sendSingly (h : HungUp start e job orders begin calls)
    (hnow : e.now ≤ begin + start.desk.fallback.timeBudget) (attempts : Nat) :
    Punctual start (e.sendSingly job (.submit orders) attempts).1 job orders begin calls none
      (e.sendSingly job (.submit orders) attempts).2 := by
  have hends : e.now + start.desk.executor.longest orders.length ≤
      start.desk.latestEnd begin orders.length := Nat.add_le_add_right hnow _
  have hlate : e.now ≤ start.desk.latestEnd begin orders.length :=
    Nat.le_trans (Nat.le_add_right _ _) hends
  unfold Engine.sendSingly
  rw [startBatch_eq]
  split
  · exact h.conclude hlate _
  · rename_i hsome
    split
    · exact h.conclude hlate _
    · split
      · exact h.conclude hlate _
      · rename_i error breaker hasked
        exact (h.paper (.single (.admits hasked))).conclude hlate _
      · rename_i breaker hasked
        refine (h.paper (.single (.admits hasked))).openChunk ?_ ?_ attempts
        · exact fun hnone => hsome (List.isEmpty_iff.mpr hnone)
        · have hsize : (BatchRun.whole (R := R) (BatchTask.ofPayloads orders)).remaining.length =
            orders.length := BatchTask.length_ofPayloads orders
          exact hsize ▸ hends

theorem HungUp.fallBack (h : HungUp start e job orders begin calls)
    (hnow : e.now ≤ begin + start.desk.fallback.timeBudget) (attempts : Nat)
    (failure : DownstreamFailure) :
    Punctual start (e.fallBack job (.submit orders) attempts failure).1 job orders begin calls none
      (e.fallBack job (.submit orders) attempts failure).2 := by
  by_cases heligible : e.desk.fallback.Eligible (Assignment.submit orders).orders.length
  · rw [fallBack_eligible e job attempts _ failure heligible]
    exact h.sendSingly hnow attempts
  · rw [fallBack_barred e job attempts _ failure heligible]
    exact h.conclude (Nat.le_trans hnow (Nat.le_add_right _ _)) _

/-- After a bulk call that has failed, the next one is put off to the time at which it is due, or there
is none. -/
theorem HungUp.bulkFailed (h : HungUp start e job orders begin calls)
    (hnow : e.now ≤ begin + start.desk.fallback.timeBudget) {run : BulkRun R}
    (hattempt : run.attempt = calls.length)
    (hdeadline : run.deadline = begin + start.desk.fallback.timeBudget)
    (hnext : start.desk.fallback.nextCall begin calls =
      e.now + start.desk.fallback.retry.delay (run.attempt - 1)) (failure : DownstreamFailure) :
    Punctual start (e.bulkFailed job (.submit orders) run failure).1 job orders begin calls none
      (e.bulkFailed job (.submit orders) run failure).2 := by
  have hlate : e.now ≤ start.desk.latestEnd begin orders.length :=
    Nat.le_trans hnow (Nat.le_add_right _ _)
  have htold : HungUp start (e.report job .failure) job orders begin calls :=
    h.paper (.single (.reports .failure))
  rw [bulkFailed_eq]
  simp only
  split
  · exact h.conclude hlate _
  · split
    · exact htold.fallBack hnow _ failure
    · split
      · exact htold.conclude hlate _
      · rename_i breaker hasked
        exact (htold.paper (.single (.asks hasked))).fallBack hnow _ failure
      · rename_i breaker hasked
        have hasks := htold.paper (.single (.asks hasked))
        split
        · exact hasks.fallBack hnow _ failure
        · rename_i hearly
          rw [h.desk, ← hnext] at hearly ⊢
          refine ⟨hasks.scheduled, hasks.counted, ?_, ?_⟩
          · rw [Option.toList_none, List.append_nil]
            exact hasks.clocked
          · have hwithin := Nat.lt_of_not_le hearly
            rw [hattempt]
            refine .backingOff hdeadline hwithin ?_
            change e.now ≤ _
            omega

/-- A bulk call that is made when it is due. -/
theorem HungUp.callBulk (h : HungUp start e job orders begin calls)
    (hnext : e.now = start.desk.fallback.nextCall begin calls)
    (hwithin : e.now ≤ begin + start.desk.fallback.timeBudget) {deadline : Nat}
    (hdeadline : deadline = begin + start.desk.fallback.timeBudget) :
    ∃ opened, Punctual start (e.callBulk job (.submit orders) (calls.length + 1) deadline).1 job
      orders begin calls opened
      (e.callBulk job (.submit orders) (calls.length + 1) deadline).2 := by
  rw [callBulk_eq]
  split
  · exact ⟨none, h.conclude (Nat.le_trans hwithin (Nat.le_add_right _ _)) _⟩
  · rename_i hcounted
    have hcalled : Clocked start (e.placeCall job (.submit orders) (calls.length + 1) deadline).1 job
        (calls.map (·.1) ++ [e.now]) (calls.map (·.2)) := h.clocked.called rfl
    rw [hnext] at hcalled
    refine ⟨some _, h.scheduled, Nat.le_of_not_lt hcounted, hcalled,
      .calling (n := e.bulkCalls) rfl hdeadline ?_ ?_ ?_ ?_⟩
    · rw [← hnext, ← h.desk]
      rfl
    · rw [← hnext, ← h.desk]
    · rw [← hnext, hdeadline]
      exact hwithin
    · exact Conduct.le_due (le_min (Nat.le_add_right _ _) (hdeadline ▸ hwithin))

theorem HungUp.startSubmission (h : HungUp start e job orders begin []) (hnow : e.now = begin) :
    ∃ opened, Punctual start (e.startSubmission job (.submit orders)).1 job orders begin [] opened
      (e.startSubmission job (.submit orders)).2 := by
  have hwithin : e.now ≤ begin + start.desk.fallback.timeBudget := hnow ▸ Nat.le_add_right _ _
  have hlate : e.now ≤ start.desk.latestEnd begin orders.length :=
    Nat.le_trans hwithin (Nat.le_add_right _ _)
  unfold Engine.startSubmission
  split
  · exact ⟨none, h.sendSingly hwithin 0⟩
  · split
    · exact ⟨none, h.conclude hlate _⟩
    · rename_i budget hbudget
      split
      · refine h.callBulk hnow hwithin ?_
        rw [RetryConfig.totalBudget_eq hbudget, h.desk, hnow]
        rfl
      · exact ⟨none, h.conclude hlate _⟩

theorem heardBulk_frame (e : Engine P R) (job : Nat) (run : BulkRun R) :
    (e.heardBulk job run).desk = e.desk ∧ (e.heardBulk job run).now = e.now ∧
      (e.heardBulk job run).breaker = e.breaker ∧ (e.heardBulk job run).wall = e.wall := by
  unfold heardBulk
  split <;> exact ⟨rfl, rfl, rfl, rfl⟩

theorem heardBulk_clocked {starts ends : List Nat} (h : Clocked start e job starts ends)
    {run : BulkRun R} (hreply : run.call.reply? e.now ≠ some none) :
    Clocked start (e.heardBulk job run) job starts (ends ++ [e.now]) := by
  unfold heardBulk
  split
  · rename_i hbroken
    exact absurd hbroken hreply
  · exact h.ended _
  · exact h.ended _

section BulkCall

variable {number : Nat} {turn : Option Nat} {run : BulkRun R} {opened : Option Nat}
  (h : Punctual start e number orders begin calls opened (.calling run))
  (hready : (⟨number, .submit orders, .calling run, turn⟩ : Job P R).isReady e = true)

include h hready

theorem Punctual.heard (hdesk : e.desk = start.desk) (hreply : run.call.reply? e.now ≠ some none) :
    HungUp start (e.heardBulk number run) number orders begin
      (calls ++ [(start.desk.fallback.nextCall begin calls, e.now)]) := by
  obtain ⟨hwithin, n, hnow⟩ := h.onTime.call_ends hready
  obtain rfl : opened = some (start.desk.fallback.nextCall begin calls) := by
    cases h.onTime
    rfl
  refine ⟨(heardBulk_frame e number run).1.trans hdesk,
    hnow ▸ .after h.scheduled hwithin n, ?_, ?_⟩
  · rw [List.length_append]
    exact h.counted
  · rw [List.map_append, List.map_append]
    exact heardBulk_clocked h.clocked hreply

/-- **The end of a bulk call that has failed.** -/
theorem Punctual.failed (hdesk : e.desk = start.desk) {failure : DownstreamFailure}
    (hfailure : e.bulkFailure? orders run = some failure) :
    Punctual start (e.bulkTurn number (.submit orders) run).1 number orders begin
      (calls ++ [(start.desk.fallback.nextCall begin calls, e.now)]) none
      (e.bulkTurn number (.submit orders) run).2 := by
  have hreply : run.call.reply? e.now ≠ some none := by
    intro hbroken
    simp only [bulkFailure?, hbroken, reduceCtorEq] at hfailure
  obtain ⟨hforward, htimely, hwithin⟩ := h.onTime.call_limits hready
  have hheard := h.heard hready hdesk hreply
  have hnow : (e.heardBulk number run).now = e.now := (heardBulk_frame e number run).2.1
  rw [bulkTurn_failed number (.submit orders) hfailure]
  cases h.onTime with
  | calling attempt deadline call cutoff within timely =>
    refine hheard.bulkFailed (hnow ▸ hwithin) ?_ deadline ?_ failure
    · rw [attempt, List.length_append, List.length_singleton]
    · rw [FallbackConfig.nextCall_after hforward, hnow, attempt, Nat.add_sub_cancel]

theorem Punctual.bulkTurn (hdesk : e.desk = start.desk) :
    ∃ calls' opened', Punctual start (e.bulkTurn number (.submit orders) run).1 number orders begin
      calls' opened' (e.bulkTurn number (.submit orders) run).2 := by
  obtain ⟨hforward, htimely, hwithin⟩ := h.onTime.call_limits hready
  have hlate : e.now ≤ start.desk.latestEnd begin orders.length :=
    Nat.le_trans hwithin (Nat.le_add_right _ _)
  cases hfailure : e.bulkFailure? (Assignment.submit orders).orders run with
  | some failure => exact ⟨_, _, h.failed hready hdesk hfailure⟩
  | none =>
    rcases bulkTurn_of_not_failed number (.submit orders) hfailure with
      ⟨items, hreply, _, heq⟩ | heq
    · have hheard := h.heard hready hdesk (by rw [hreply]; exact nofun)
      have hnow : (e.heardBulk number run).now = e.now := (heardBulk_frame e number run).2.1
      rw [heq]
      exact ⟨_, _, (hheard.paper (.single (.reports .success))).conclude
        (show (e.heardBulk number run).now ≤ _ from hnow ▸ hlate) _⟩
    · -- it has broken off, and its end is not noted
      refine ⟨calls, opened, ?_⟩
      rw [heq, conclude_eq]
      refine ⟨h.scheduled, h.counted, h.clocked.aside (.nothing rfl), .finished hlate ?_⟩
      cases h.onTime
      intro first hfirst
      obtain rfl := Option.some.inj hfirst
      exact ⟨rfl, htimely, hwithin⟩

end BulkCall

/-- A job that waits for the tasks of a chunk is through with it at its deadline. -/
theorem HungUp.joinTurn (h : HungUp start e job orders begin calls) {run : BatchRun P R}
    (htimely : e.now ≤ run.deadline)
    (hends : run.deadline + start.desk.executor.longestAfter run.remaining.length ≤
      start.desk.latestEnd begin orders.length) (attempts : Nat) :
    Punctual start (followBatch job (.submit orders) attempts (e.joinTurn job attempts run)).1 job
      orders begin calls none
      (followBatch job (.submit orders) attempts (e.joinTurn job attempts run)).2 := by
  rw [joinTurn_eq]
  split
  · rename_i w hfound
    refine ⟨h.scheduled, h.counted, ?_, .joining ?_ ?_⟩
    · rw [Option.toList_none, List.append_nil]
      exact h.clocked.aside (.nothing rfl)
    · cases w.outcome? <;> exact htimely
    · cases w.outcome? <;> exact hends
  · have hframe := settled_sameJobs e job run
    have hsettled : HungUp start (e.settled job run).1 job orders begin calls := by
      refine ⟨hframe.desk.trans h.desk, h.scheduled, h.counted, h.clocked.aside ?_⟩
      refine (settled_journal e job run).mono ?_
      rintro event (⟨position, told, rfl⟩ | ⟨r, wall, rfl⟩) hbulk <;> cases hbulk
    have hnow : (e.settled job run).1.now ≤ run.deadline := hframe.now ▸ htimely
    have hpause : (e.settled job run).1.desk.executor.chunkPause = start.desk.executor.chunkPause := by
      rw [hsettled.desk]
    simp only [endChunk_eq]
    by_cases hlast : run.remaining = []
    · simp only [hlast, List.isEmpty_nil, ↓reduceIte]
      exact hsettled.conclude (Nat.le_trans hnow (Nat.le_trans (Nat.le_add_right _ _) hends)) _
    · have hempty : run.remaining.isEmpty = false := by simpa using hlast
      rw [ExecutorConfig.longestAfter, if_neg (by simpa using hlast), ← Nat.add_assoc] at hends
      simp only [hempty, Bool.false_eq_true, ↓reduceIte]
      split
      · refine ⟨h.scheduled, h.counted, ?_, .pausing hlast (Nat.le_add_right _ _) ?_⟩
        · rw [Option.toList_none, List.append_nil]
          exact hsettled.clocked
        · exact Nat.le_trans (Nat.add_le_add_right (Nat.add_le_add hnow (Nat.le_of_eq hpause)) _)
            hends
      · have hmore : { run with outcomes := (e.settled job run).2 }.remaining ≠ [] := hlast
        refine hsettled.openChunk hmore ?_ attempts
        exact Nat.le_trans (Nat.add_le_add_right (Nat.le_trans hnow (Nat.le_add_right _ _)) _) hends

/-- **A turn of a submission that is on time.** -/
theorem Punctual.jobTurn {j : Job P R} {opened : Option Nat}
    (h : Punctual start e j.number orders begin calls opened j.stage)
    (hassignment : j.assignment = .submit orders) (hdesk : e.desk = start.desk)
    (hready : j.isReady e = true) :
    ∃ calls' opened', Punctual start (e.jobTurn j).1 j.number orders begin calls' opened'
      (e.jobTurn j).2 := by
  obtain ⟨number, a, stage, turn⟩ := j
  obtain rfl : a = .submit orders := hassignment
  have hup (hnone : opened = none) : HungUp start e number orders begin calls := by
    refine ⟨hdesk, h.scheduled, Nat.le_trans (Nat.le_add_right _ _) h.counted, ?_⟩
    have hclocked := h.clocked
    rwa [hnone, Option.toList_none, List.append_nil] at hclocked
  cases h.onTime with
  | arriving fresh timely =>
    subst fresh
    have hnow : e.now = begin := Nat.le_antisymm timely (of_decide_eq_true hready)
    by_cases hempty : orders.isEmpty
    · simp only [Engine.jobTurn, startJob, hempty, if_true]
      have hlate : e.now ≤ start.desk.latestEnd begin orders.length :=
        hnow ▸ Nat.le_trans (Nat.le_add_right _ _) (Nat.le_add_right _ _)
      exact ⟨[], none, (hup rfl).conclude hlate _⟩
    · simp only [Engine.jobTurn, startJob, hempty, Bool.false_eq_true, if_false]
      exact ⟨[], (hup rfl).startSubmission hnow⟩
  | calling => exact h.bulkTurn hready hdesk
  | backingOff deadline_eq within timely =>
    have hnow := Nat.le_antisymm timely (of_decide_eq_true hready)
    refine ⟨calls, (hup rfl).callBulk hnow ?_ deadline_eq⟩
    rw [hnow, ← deadline_eq]
    exact Nat.le_of_lt within
  | joining timely ends => exact ⟨calls, none, (hup rfl).joinTurn timely ends _⟩
  | pausing some timely ends =>
    refine ⟨calls, none, (hup rfl).openChunk some ?_ _⟩
    exact Nat.le_trans (Nat.add_le_add_right timely _) ends
  | finished => cases hready

end Turns

/-! ### Moves -/

/-- A submission that begins at an instant is on time, whatever else goes on. -/
structure Timely (start : Engine P R) (job : Nat) (orders : List P) (begin : Nat) (e : Engine P R) :
    Prop where
  regular : e.Regular
  desk : e.desk = start.desk
  punctual : ∀ j ∈ e.jobs, j.number = job → j.assignment = .submit orders ∧
    ∃ calls opened, Punctual start e job orders begin calls opened j.stage

section Moves

variable {start e e' : Engine P R} {job begin : Nat} {orders : List P}

/-- **Every move keeps a submission on time.** -/
theorem Move.timely (hmove : Move e e') (h : Timely start job orders begin e) :
    Timely start job orders begin e' := by
  have hwf := h.regular.reached.wellFormed
  refine ⟨hmove.regular h.regular, (hmove.desk hwf).trans h.desk, ?_⟩
  cases hmove with
  | @worker w member ready =>
    have hhouse := workerTurn_house e w
    have hjobs : (e.serveWorker w).jobs = e.jobs := hhouse.jobs
    intro j hj hnumber
    obtain ⟨hassignment, calls, opened, hpunctual⟩ := h.punctual j (hjobs ▸ hj) hnumber
    exact ⟨hassignment, calls, opened, hpunctual.aside (serveWorker_offBulk ready) hhouse.now⟩
  | @job k member ready =>
    have hnow : (e.serveJob k).now = e.now := (jobTurn_turn e k (hwf.sound k member) ready).sameJobs.now
    intro j hj hnumber
    rcases mem_serveJob hwf member ready hj with rfl | ⟨hold, hne⟩
    · obtain ⟨hassignment, calls, opened, hpunctual⟩ := h.punctual k member hnumber
      obtain rfl : k.number = job := hnumber
      obtain ⟨calls', opened', hnext⟩ := hpunctual.jobTurn hassignment h.desk ready
      exact ⟨hassignment, calls', opened', hnext.aside (.nothing rfl) rfl⟩
    · obtain ⟨hassignment, calls, opened, hpunctual⟩ := h.punctual j hold hnumber
      have hother : k.number ≠ job := fun hsame => hne (hnumber.trans hsame.symm)
      have helse := serveJob_elsewhere hwf h.regular.suited member ready hother
      exact ⟨hassignment, calls, opened, hpunctual.aside helse.offBulk hnow⟩
  | @tick time quiet due =>
    intro j hj hnumber
    obtain ⟨hassignment, calls, opened, hpunctual⟩ := h.punctual j hj hnumber
    refine ⟨hassignment, calls, opened, hpunctual.scheduled, hpunctual.counted, hpunctual.clocked, ?_⟩
    exact hpunctual.onTime.tick fun t ht => (firstTurn_spec due).2.2 j hj t ht

theorem AtRest.timely (hrest : e.AtRest) {assignments : List (Nat × Assignment P)} {i wait : Nat}
    (hassigned : assignments[i]? = some (wait, .submit orders)) :
    Timely (e.addJobs assignments).unturned (e.nextNumber + i) orders (e.now + wait)
      (e.addJobs assignments).unturned := by
  refine ⟨hrest.regular assignments, rfl, ?_⟩
  intro j hj hnumber
  obtain rfl := hrest.newcomer hassigned hj hnumber
  refine ⟨rfl, [], none, .none, Nat.zero_le _, .nothing _ _, .arriving rfl ?_⟩
  rw [addJobs_eq]
  exact Nat.le_add_right _ _

end Moves

/-! ### Every submission -/

/-- Until when a job has been at work: until it ended, or until now. -/
def presentOf (e : Engine P R) (j : Job P R) : Nat :=
  match j.ending? with
  | some (time, _) => time
  | none => e.now

/-- The bulk calls of a submission, given by their starts and ends, and the submission as a whole have
kept to their time limits so far. -/
structure KeepsTime (callTimeout budget limit begin : Nat) (starts ends : List Nat) (present : Nat) :
    Prop where
  /-- The first call begins with the submission. -/
  prompt : ∀ first ∈ starts.head?, first = begin
  /-- From then to the end of the last call there is no more time than the budget. -/
  within : ∀ stop ∈ ends, stop ≤ begin + budget
  /-- No call lasts longer than a call may, nor does the last one that may still be open. -/
  call : ∀ k first, starts[k]? = some first → match ends[k]? with
    | some stop => first ≤ stop ∧ stop ≤ first + callTimeout
    | none => k + 1 = starts.length ∧ present ≤ first + callTimeout ∧ present ≤ begin + budget
  /-- No call ends that has not begun. -/
  matched : ends.length ≤ starts.length
  /-- The whole submission stays within its limit. -/
  whole : present ≤ begin + limit

section Submission

variable {start e : Engine P R} {orders : List P} {begin : Nat}

theorem OnTime.present_le {desk : Desk P R} {j : Job P R} {calls : List (Nat × Nat)}
    {opened : Option Nat} (h : OnTime desk orders begin e.now calls opened j.stage) :
    e.presentOf j ≤ desk.latestEnd begin orders.length ∧
      (j.stage.isSending = true → e.now ≤ begin + desk.fallback.timeBudget) ∧
      ∀ first ∈ opened, first = desk.fallback.nextCall begin calls ∧
        e.presentOf j ≤ first + desk.fallback.callTimeout ∧
        e.presentOf j ≤ begin + desk.fallback.timeBudget := by
  have hbudget : begin + desk.fallback.timeBudget ≤ desk.latestEnd begin orders.length :=
    Nat.le_add_right _ _
  obtain ⟨number, a, stage, turn⟩ := j
  cases h with
  | arriving fresh timely =>
    have hnow : e.now ≤ begin + desk.fallback.timeBudget := Nat.le_trans timely (Nat.le_add_right _ _)
    exact ⟨Nat.le_trans hnow hbudget, fun _ => hnow, nofun⟩
  | @calling run n attempt deadline call cutoff within timely =>
    have hcut : e.now ≤ run.cutoff := Nat.le_trans timely (earlier_le _ _)
    have hnow : e.now ≤ begin + desk.fallback.timeBudget := by omega
    refine ⟨Nat.le_trans hnow hbudget, fun _ => hnow, ?_⟩
    intro first hfirst
    obtain rfl := Option.some.inj hfirst
    exact ⟨rfl, show e.now ≤ _ by omega, hnow⟩
  | backingOff deadline_eq within timely =>
    have hnow : e.now ≤ begin + desk.fallback.timeBudget :=
      deadline_eq ▸ Nat.le_trans timely (Nat.le_of_lt within)
    exact ⟨Nat.le_trans hnow hbudget, fun _ => hnow, nofun⟩
  | joining timely ends =>
    exact ⟨Nat.le_trans timely (Nat.le_trans (Nat.le_add_right _ _) ends), nofun, nofun⟩
  | pausing some timely ends =>
    exact ⟨Nat.le_trans timely (Nat.le_trans (Nat.le_add_right _ _) ends), nofun, nofun⟩
  | finished ends cut => exact ⟨ends, nofun, cut⟩

/-- Who is on time keeps to all limits. -/
theorem Punctual.keepsTime {j : Job P R} {calls : List (Nat × Nat)} {opened : Option Nat}
    (h : Punctual start e j.number orders begin calls opened j.stage) :
    KeepsTime start.desk.fallback.callTimeout start.desk.fallback.timeBudget
      (start.desk.fallback.timeBudget + start.desk.executor.longest orders.length) begin
      (bulkStarts j.number (e.since start.journal.length))
      (bulkEnds j.number (e.since start.journal.length)) (e.presentOf j) := by
  obtain ⟨hwhole, _, hopen⟩ := OnTime.present_le h.onTime
  rw [h.clocked.since.1, h.clocked.since.2]
  refine ⟨?_, ?_, ?_, ?_, ?_⟩
  · intro first hfirst
    rw [List.head?_eq_getElem?] at hfirst
    cases calls with
    | nil =>
      have hopened : opened = some first := by
        cases opened with
        | none => cases hfirst
        | some last => exact hfirst
      exact (hopen first hopened).1
    | cons x rest =>
      obtain rfl : x.1 = first := Option.some.inj hfirst
      exact h.scheduled.start (k := 0) rfl
  · intro stop hstop
    obtain ⟨x, hx, rfl⟩ := List.mem_map.mp hstop
    exact (h.scheduled.mem hx).2.2
  · intro k first hfirst
    rw [List.getElem?_map]
    cases hcall : calls[k]? with
    | some x =>
      have hlt := (List.getElem?_eq_some_iff.mp hcall).1
      rw [List.getElem?_append_left (by simpa using hlt), List.getElem?_map, hcall] at hfirst
      obtain rfl : x.1 = first := Option.some.inj hfirst
      obtain ⟨hforward, htimely, _⟩ := h.scheduled.mem (List.mem_of_getElem? hcall)
      exact ⟨hforward, htimely⟩
    | none =>
      have hge := List.getElem?_eq_none_iff.mp hcall
      rw [List.getElem?_append_right (by simpa using hge), List.length_map] at hfirst
      cases opened with
      | none => cases hfirst
      | some last =>
        rw [Option.toList_some, List.getElem?_singleton] at hfirst
        split at hfirst
        · rename_i hk
          obtain rfl := Option.some.inj hfirst
          refine ⟨?_, (hopen last rfl).2⟩
          rw [List.length_append, List.length_map, Option.toList_some, List.length_singleton]
          omega
        · cases hfirst
  · rw [List.length_map, List.length_append, List.length_map]
    exact Nat.le_add_right _ _
  · rw [← Nat.add_assoc]
    exact hwhole

end Submission

/-- **A submission keeps to its time limits, whatever the service does.** Let a submission be one of
several assignments, with settings whose time budget can be computed. The budget is one call and all
delays. On every course, as long as the submission makes bulk calls, no more time has gone by than the
budget since it began, which is when the first call begins; no call lasts longer than a call may; and
the whole submission takes no more than the budget and what its chunks and the pauses between them may
take. What is performed brings it to an end within these limits. -/
theorem submission_keeps_its_time {e : Engine P R} (hrest : e.AtRest)
    {assignments : List (Nat × Assignment P)} {i wait : Nat} {orders : List P}
    (hassigned : assignments[i]? = some (wait, .submit orders)) {budget : Nat}
    (hbudget : e.desk.fallback.retry.totalBudget e.desk.fallback.callTimeout = .ok budget) :
    let c := e.desk.fallback
    let x := e.desk.executor
    let chunks := (orders.length + max 1 x.chunkSize - 1) / max 1 x.chunkSize
    let limit := budget + (chunks * (x.permitTimeout + x.taskTimeout) + (chunks - 1) * x.chunkPause)
    let starts (e' : Engine P R) := bulkStarts (e.nextNumber + i) (e'.since e.journal.length)
    let ends (e' : Engine P R) := bulkEnds (e.nextNumber + i) (e'.since e.journal.length)
    budget = c.callTimeout + ∑ k ∈ Finset.range c.retry.maxRetries, c.retry.delay k ∧
    (∀ e', Course (e.addJobs assignments).unturned e' → ∃ j ∈ e'.jobs,
      j.number = e.nextNumber + i ∧ j.assignment = .submit orders ∧
      (j.stage.isSending = true → e'.now ≤ e.now + wait + budget) ∧
      KeepsTime c.callTimeout budget limit (e.now + wait) (starts e') (ends e') (e'.presentOf j)) ∧
    ∃ time ending, (e.perform assignments).2[i]? = some (some (time, ending)) ∧
      KeepsTime c.callTimeout budget limit (e.now + wait) (starts (e.perform assignments).1)
        (ends (e.perform assignments).1) time := by
  obtain rfl : budget = e.desk.fallback.timeBudget := RetryConfig.totalBudget_eq hbudget
  intro c x chunks limit starts ends
  have hstart : (e.addJobs assignments).unturned.desk = e.desk ∧
      (e.addJobs assignments).unturned.journal = e.journal := by
    rw [addJobs_eq]
    exact ⟨rfl, rfl⟩
  have hkeeps {e' : Engine P R} (hcourse : Course (e.addJobs assignments).unturned e') :
      ∃ j, e'.jobs[i]? = some j ∧ j.number = e.nextNumber + i ∧ j.assignment = .submit orders ∧
        (j.stage.isSending = true → e'.now ≤ e.now + wait + c.timeBudget) ∧
        KeepsTime c.callTimeout c.timeBudget limit (e.now + wait) (starts e') (ends e')
          (e'.presentOf j) := by
    obtain ⟨j, hj, hnumber, hassignment⟩ := hrest.exists_job hcourse hassigned
    have htimely := hcourse.keeps Move.timely (hrest.timely hassigned)
    obtain ⟨_, calls, opened, hpunctual⟩ := htimely.punctual j (List.mem_of_getElem? hj) hnumber
    rw [← hnumber] at hpunctual
    have hpresent := (OnTime.present_le hpunctual.onTime).2.1
    have htime := hpunctual.keepsTime
    rw [hstart.1] at hpresent
    rw [hstart.1, hstart.2, hnumber] at htime
    exact ⟨j, hj, hnumber, hassignment, hpresent, htime⟩
  refine ⟨rfl, ?_, ?_⟩
  · intro e' hcourse
    obtain ⟨j, hj, hrest⟩ := hkeeps hcourse
    exact ⟨j, List.mem_of_getElem? hj, hrest⟩
  · obtain ⟨done, hcourse, hsettled, hwf, hdone, hendings⟩ := perform_course hrest assignments
    obtain ⟨j, hj, _, hassignment, _, htime⟩ := hkeeps hcourse
    obtain ⟨time, ending, hstage⟩ :=
      hsettled.finished hwf (List.mem_of_getElem? hj) (by rw [hassignment]; rfl)
    have hending : j.ending? = some (time, ending) := by rw [Job.ending?, hstage]
    have hsince : (e.perform assignments).1.since e.journal.length = done.since e.journal.length :=
      congrArg (·.since e.journal.length) hdone
    refine ⟨time, ending, ?_, ?_⟩
    · rw [hendings, List.getElem?_map, hj, Option.map_some, hending]
    · simp only [starts, ends, hsince]
      simpa only [presentOf, hending] using htime

/-- The first bulk call fails after three milliseconds. Nothing ever comes back from the second one, which
begins five milliseconds later and is cut off when the budget of fifteen is spent, and nothing from the
tasks of the two chunks in which the three orders are sent after it. -/
theorem hung_service_keeps_time :
    let orders := [1, 2, 3].map fun id => Order.limit id 0 "C-1" "ACME" .buy (.ofNat 1) (.ofNat 10)
    let failure : DownstreamFailure := { status := none, kind := .connectivity, message := "reset" }
    let service : Service :=
      { bulk := fun n _ => if n = 0 then .answers 3 (.error failure) else .hangs
        single := fun _ _ => .hangs }
    let c : AppConfig :=
      { executor := { chunkSize := 2, chunkPause := 1, permitTimeout := 4, taskTimeout := 6 }
        fallback :=
          { callTimeout := 10, retry := { maxRetries := 1, baseDelay := 5, multiplier := 1.0 } } }
    let e := begun (.forOrders c service (.table 0)) c.breaker c.overload none (Table.ofIds []) 0
    let result := e.perform [(7, .submit orders)]
    e.AtRest ∧ c.fallback.retry.totalBudget c.fallback.callTimeout = .ok 15 ∧
      bulkStarts 0 (result.1.since 0) = [7, 15] ∧ bulkEnds 0 (result.1.since 0) = [10, 22] ∧
      ∃ ending, result.2[0]? = some (some (35, ending)) ∧
        KeepsTime 10 15 36 7 [7, 15] [10, 22] 35 := by
  intro orders failure service c e result
  have hrest : e.AtRest := begun_atRest _ _ _ _ _ _
  have hbudget : c.fallback.retry.totalBudget c.fallback.callTimeout = .ok 15 := by decide +kernel
  have hstarts : bulkStarts 0 (result.1.since 0) = [7, 15] := by decide +kernel
  have hends : bulkEnds 0 (result.1.since 0) = [10, 22] := by decide +kernel
  have htime : (result.2[0]?).map (·.map (·.1)) = some (some 35) := by decide +kernel
  have hassigned : [(7, Assignment.submit orders)][0]? = some (7, .submit orders) := rfl
  obtain ⟨time, ending, hresult, hkeeps⟩ :=
    (submission_keeps_its_time hrest hassigned hbudget).2.2
  rw [hresult] at htime
  obtain rfl : time = 35 := Option.some.inj (Option.some.inj htime)
  have hlimit : 15 + ((3 + max 1 2 - 1) / max 1 2 * (4 + 6) + ((3 + max 1 2 - 1) / max 1 2 - 1) * 1) =
      36 := by decide
  have hkept : KeepsTime 10 15 (15 + ((3 + max 1 2 - 1) / max 1 2 * (4 + 6) +
      ((3 + max 1 2 - 1) / max 1 2 - 1) * 1)) 7 (bulkStarts 0 (result.1.since 0))
      (bulkEnds 0 (result.1.since 0)) 35 := hkeeps
  rw [hstarts, hends, hlimit] at hkept
  exact ⟨hrest, hbudget, hstarts, hends, ending, hresult, hkept⟩

end Engine

end OrderAdmission
