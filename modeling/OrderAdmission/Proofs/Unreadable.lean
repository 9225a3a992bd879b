import OrderAdmission.Proofs.Circuit
import OrderAdmission.Proofs.Polling

/-!
# Probes that cannot be read

A probe that is broken answers with an error, or with something that is no finite number, and so it may
do for as long as the gate is up. Nobody should notice: **whoever looks at readings treats a missing one
as if there were no probe.**

For the detector this is a matter of one place. Everything it says is said of a snapshot, and the
snapshots are the same (`snapshot_without`), so that two detectors with the same streak say the same and
keep the same streak. A breaker looks at its pool twice, when an open circuit might close and when a
closed one admits; both looks find a healthy pool, and nothing else in a breaker depends on it. So the
pool can be taken away before an event or after it (`step_unwatched`), and this carries over to runs.
-/
namespace OrderAdmission

/-- Whether a reading says nothing: an error, or what is no finite number. -/
def Reading.isUnreadable : Reading → Bool
  | .ok x => !x.isFinite
  | .error _ => true

/-- There is a probe for this resource, and it cannot be read. -/
def Probes.Broken (p : Probes) (kind : ResourceKind) : Prop :=
  ∃ reading, p kind = some reading ∧ Reading.isUnreadable reading = true

def Probes.without (p : Probes) (kind : ResourceKind) : Probes := fun other =>
  if other = kind then none else p other

theorem Probes.snapshot_without {p : Probes} {kind : ResourceKind} (h : p.Broken kind) :
    (p.without kind).snapshot = p.snapshot := by
  obtain ⟨reading, hprobe, hbroken⟩ := h
  funext other
  by_cases hkind : other = kind
  · subst hkind
    cases reading with
    | error why => simp [snapshot, without, readProbe, hprobe]
    | ok x =>
      have hinfinite : x.isFinite = false := by simpa [Reading.isUnreadable] using hbroken
      simp [snapshot, without, readProbe, hprobe, hinfinite]
  · simp [snapshot, without, hkind]

/-! ### Detectors -/

namespace Detector

/-- A call, if it shows new readings without those of this resource. -/
def Call.without (kind : ResourceKind) : Call → Call
  | .event (.watch probes) => .event (.watch (probes.without kind))
  | call => call

namespace Watched

/-- The breaches that can be told now. -/
def breaches (w : Watched) : List (ResourceKind × Float) :=
  w.detector.config.breaches w.probes.snapshot

/-- All that can be told of a detector while it is called: what each call is answered, and the breaches
at that moment. -/
def told (w : Watched) : List Call → List (Option Answer × List (ResourceKind × Float))
  | [] => []
  | call :: calls => (w.answer call, w.breaches) :: (w.next call).told calls

/-- Two detectors that are alike and see the same. -/
structure SameSight (w w' : Watched) : Prop where
  detector : w.detector = w'.detector
  snapshot : w.probes.snapshot = w'.probes.snapshot

namespace SameSight

variable {w w' : Watched} {kind : ResourceKind}

theorem answer (h : SameSight w w') (call : Call) :
    w.answer (call.without kind) = w'.answer call := by
  rcases call with (probes | _) | poll
  · rfl
  · simp only [Call.without, Watched.answer, h.detector, h.snapshot]
  · cases poll <;>
      simp only [Call.without, Watched.answer, look, h.detector, h.snapshot]

theorem breaches (h : SameSight w w') : w.breaches = w'.breaches := by
  simp only [Watched.breaches, h.detector, h.snapshot]

/-- One call keeps two detectors alike if the readings that it may show differ by a broken probe. -/
theorem next (h : SameSight w w') {call : Call}
    (hbroken : ∀ probes, call = .event (.watch probes) → probes.Broken kind) :
    SameSight (w.next (call.without kind)) (w'.next call) := by
  rcases call with (probes | _) | poll
  · exact ⟨h.detector, Probes.snapshot_without (hbroken probes rfl)⟩
  · constructor
    · simp only [Call.without, Watched.next, step, h.detector, h.snapshot]
    · exact h.snapshot
  · exact h

theorem told (h : SameSight w w') {calls : List Call}
    (hbroken : ∀ probes, .event (.watch probes) ∈ calls → probes.Broken kind) :
    w.told (calls.map (Call.without kind)) = w'.told calls := by
  induction calls generalizing w w' with
  | nil => rfl
  | cons call calls ih =>
    have hnext : SameSight (w.next (call.without kind)) (w'.next call) := by
      apply h.next
      intro probes hcall
      exact hbroken probes (hcall ▸ List.mem_cons_self)
    have hlater := ih hnext fun probes hmem => hbroken probes (List.mem_cons_of_mem _ hmem)
    rw [List.map_cons, Watched.told, Watched.told, h.answer call, h.breaches, hlater]

end SameSight

end Watched

end Detector

/-! ### Breakers -/

/-- Whether a pool answers every question with an error. -/
def PoolHealth.isSilent (p : PoolHealth) : Bool :=
  match p.utilization, p.waiting with
  | .error _, .error _ => true
  | _, _ => false

/-- The pool is watched, and every question to it is answered with an error. -/
def PoolHealth.Silent (pool : Option PoolHealth) : Prop :=
  ∃ p, pool = some p ∧ p.isSilent = true

theorem PoolHealth.isHealthy_of_silent {pool : Option PoolHealth} (h : Silent pool)
    (critical : Float) : isHealthy critical pool = true := by
  obtain ⟨⟨utilization, waiting⟩, rfl, hsilent⟩ := h
  cases utilization <;> cases waiting <;> simp_all [isSilent, isHealthy]

namespace Breaker

/-- All that can be seen of a breaker at a time. -/
structure View where
  phase : CircuitPhase
  failures : UInt32
  lastFailure : Option Int
  trips : UInt64
  poolHealthy : Bool
  /-- The rest of the quiet time, or that telling it breaks off. -/
  remaining : Except Crash Nat

/-- What is told in reply to an event. -/
inductive Answer where
  /-- Nothing is told. -/
  | done
  | allowed (answer : Except Crash Bool)
  | admitted (answer : Except Crash (Except GateError Unit))

def unwatched (b : Breaker) : Breaker := { b with pool := none }

/-- The result of a question, with a breaker whose pool nobody watches. -/
def withoutPool {α : Type} (result : Except Crash (α × Breaker)) : Except Crash (α × Breaker) :=
  result.map fun (answer, b) => (answer, b.unwatched)

theorem map_fst_withoutPool {α : Type} (result : Except Crash (α × Breaker)) :
    (withoutPool result).map Prod.fst = result.map Prod.fst := by
  cases result <;> rfl

theorem after_withoutPool {α : Type} (b : Breaker) (result : Except Crash (α × Breaker)) :
    b.unwatched.after (withoutPool result) = (b.after result).unwatched := by
  cases result <;> rfl

/-- An event, if nobody watches the pool. -/
def Event.unwatched : Event → Event
  | .watch _ => .watch none
  | event => event

namespace Watched

/-- What can be seen now. -/
def view (s : Watched) : View :=
  { phase := s.breaker.phase, failures := s.breaker.failures
    lastFailure := s.breaker.lastFailure?, trips := s.breaker.trips
    poolHealthy := s.breaker.poolHealthy, remaining := s.breaker.remaining s.wall }

/-- What an event is answered. -/
def answer (s : Watched) : Event → Answer
  | .allow => .allowed ((s.breaker.allow s.wall).map Prod.fst)
  | .admission => .admitted ((s.breaker.admitBulk s.wall).map Prod.fst)
  | _ => .done

/-- What each event is answered, and what can be seen after it. -/
def told (s : Watched) : List Event → List (Answer × View)
  | [] => []
  | event :: events => (s.answer event, (s.step event).view) :: (s.step event).told events

/-- The same, but nobody watches the pool. -/
def unwatched (s : Watched) : Watched := { s with breaker := s.breaker.unwatched }

end Watched

section
variable {b : Breaker} {wall : Int}

@[simp] theorem recordFailure_pool (b : Breaker) (wall : Int) :
    (b.recordFailure wall).pool = b.pool := by
  unfold recordFailure
  split <;> rfl

@[simp] theorem recordSuccess_pool (b : Breaker) : b.recordSuccess.pool = b.pool := by
  unfold recordSuccess
  split <;> rfl

theorem Watched.Turn.pool_of_asks {s : Watched} {event : Event} {b : Breaker}
    (h : s.Turn event b) (hasks : event.asks = true) : b.pool = s.breaker.pool := by
  cases h with
  | failed _ eq => rw [eq, recordFailure_pool]
  | succeeded _ eq => rw [eq, recordSuccess_pool]
  | forced _ eq | recovered _ _ _ eq | asked _ _ _ eq => exact eq ▸ rfl
  | elsewhere hother => exact absurd (hasks.symm.trans hother) (by decide)

/-! #### Operations in front of a silent pool -/

theorem poolHealthy_of_silent (h : PoolHealth.Silent b.pool) : b.poolHealthy = true :=
  PoolHealth.isHealthy_of_silent h _

theorem recovers_unwatched (h : PoolHealth.Silent b.pool) :
    b.unwatched.Recovers wall ↔ b.Recovers wall := by
  constructor
  · rintro ⟨hopen, hquiet, -⟩
    exact ⟨hopen, hquiet, poolHealthy_of_silent h⟩
  · rintro ⟨hopen, hquiet, -⟩
    exact ⟨hopen, hquiet, rfl⟩

theorem recordFailure_unwatched (b : Breaker) (wall : Int) :
    b.unwatched.recordFailure wall = (b.recordFailure wall).unwatched := by
  by_cases htrips : b.config.failureThreshold ≤ raisedCount b.failures ∧ b.phase = .closed
  · simp [recordFailure, unwatched, htrips]
  · simp [recordFailure, unwatched, htrips]

theorem recordSuccess_unwatched (b : Breaker) :
    b.unwatched.recordSuccess = b.recordSuccess.unwatched := by
  by_cases hnone : b.failures = 0
  · simp [recordSuccess, unwatched, hnone]
  · simp [recordSuccess, unwatched, hnone]

theorem allow_unwatched (h : PoolHealth.Silent b.pool) :
    b.unwatched.allow wall = withoutPool (b.allow wall) := by
  cases hphase : b.phase with
  | closed =>
    rw [allow_closed hphase, allow_closed (b := b.unwatched) hphase]
    rfl
  | open_ =>
    by_cases hword : b.config.recoveryTimeout < maxWord
    · by_cases hrecovers : b.Recovers wall
      · rw [allow_recovers hword hrecovers,
          allow_recovers (b := b.unwatched) hword ((recovers_unwatched h).mpr hrecovers)]
        rfl
      · have hstill : ¬ b.unwatched.Recovers wall := mt (recovers_unwatched h).mp hrecovers
        rw [allow_refuses hword hphase hrecovers,
          allow_refuses (b := b.unwatched) hword hphase hstill]
        rfl
    · rw [allow_overflow hphase hword, allow_overflow (b := b.unwatched) hphase hword]
      rfl

theorem admitBulk_unwatched (h : PoolHealth.Silent b.pool) :
    b.unwatched.admitBulk wall = withoutPool (b.admitBulk wall) := by
  cases hphase : b.phase with
  | closed =>
    have hhealthy : b.unwatched.poolHealthy = true := rfl
    rw [admitBulk_closed hphase, admitBulk_closed (b := b.unwatched) hphase,
      poolHealthy_of_silent h, hhealthy]
    rfl
  | open_ =>
    by_cases hword : b.config.recoveryTimeout < maxWord
    · by_cases hrecovers : b.Recovers wall
      · rw [admitBulk_recovers hword hrecovers,
          admitBulk_recovers (b := b.unwatched) hword ((recovers_unwatched h).mpr hrecovers)]
        rfl
      · have hstill : ¬ b.unwatched.Recovers wall := mt (recovers_unwatched h).mp hrecovers
        rw [admitBulk_refuses hword hphase hrecovers,
          admitBulk_refuses (b := b.unwatched) hword hphase hstill]
        rfl
    · rw [admitBulk_overflow hphase hword, admitBulk_overflow (b := b.unwatched) hphase hword]
      rfl

end

namespace Watched

variable {s : Watched}

theorem view_unwatched (h : PoolHealth.Silent s.breaker.pool) : s.unwatched.view = s.view := by
  have hhealthy : s.unwatched.breaker.poolHealthy = s.breaker.poolHealthy :=
    (poolHealthy_of_silent h).symm
  simp only [view, hhealthy]
  rfl

theorem answer_unwatched (h : PoolHealth.Silent s.breaker.pool) (event : Event) :
    s.unwatched.answer event.unwatched = s.answer event := by
  cases event with
  | allow =>
    have hallow : s.unwatched.breaker.allow s.wall = withoutPool (s.breaker.allow s.wall) :=
      allow_unwatched h
    exact congrArg Answer.allowed ((congrArg _ hallow).trans (map_fst_withoutPool _))
  | admission =>
    have hadmit : s.unwatched.breaker.admitBulk s.wall = withoutPool (s.breaker.admitBulk s.wall) :=
      admitBulk_unwatched h
    exact congrArg Answer.admitted ((congrArg _ hadmit).trans (map_fst_withoutPool _))
  | _ => rfl

theorem step_unwatched (h : PoolHealth.Silent s.breaker.pool) (event : Event) :
    s.unwatched.step event.unwatched = (s.step event).unwatched := by
  have hbreaker : (s.unwatched.step event.unwatched).breaker = (s.step event).breaker.unwatched := by
    cases event with
    | fail => exact recordFailure_unwatched _ _
    | succeed => exact recordSuccess_unwatched _
    | allow =>
      change s.breaker.unwatched.after (s.breaker.unwatched.allow s.wall) = _
      rw [allow_unwatched h]
      exact after_withoutPool _ _
    | admission =>
      change s.breaker.unwatched.after (s.breaker.unwatched.admitBulk s.wall) = _
      rw [admitBulk_unwatched h]
      exact after_withoutPool _ _
    | forceClose | watch pool | clock wall => rfl
  have hwall : (s.unwatched.step event.unwatched).wall = (s.step event).wall := by
    cases event <;> rfl
  simp only [unwatched, ← hbreaker, ← hwall]

theorem silent_step (h : PoolHealth.Silent s.breaker.pool) {event : Event}
    (hsilent : ∀ pool, event = .watch pool → PoolHealth.Silent pool) :
    PoolHealth.Silent (s.step event).breaker.pool := by
  cases event with
  | fail => simpa only [step, recordFailure_pool] using h
  | succeed => simpa only [step, recordSuccess_pool] using h
  | allow | admission =>
    rw [(s.step_turn _).pool_of_asks rfl]
    exact h
  | forceClose | clock wall => exact h
  | watch pool => exact hsilent pool rfl

/-- **A run in front of a silent pool is a run without a pool.** -/
theorem told_unwatched (h : PoolHealth.Silent s.breaker.pool) {events : List Event}
    (hsilent : ∀ pool, .watch pool ∈ events → PoolHealth.Silent pool) :
    s.unwatched.told (events.map Event.unwatched) = s.told events := by
  induction events generalizing s with
  | nil => rfl
  | cons event events ih =>
    have hstep : PoolHealth.Silent (s.step event).breaker.pool := by
      apply silent_step h
      intro pool hwatch
      exact hsilent pool (hwatch ▸ List.mem_cons_self)
    have hlater := ih hstep fun pool hmem => hsilent pool (List.mem_cons_of_mem _ hmem)
    rw [List.map_cons, told, told, answer_unwatched h, step_unwatched h, view_unwatched hstep,
      hlater]

end Watched

end Breaker

/-! ### Both -/

/-- **A probe that cannot be read is a probe that is not there.** Let one probe of a detector answer
nothing but errors and what is no finite number, whatever it is asked and when, and let the other probes
say what they like. Step by step, the detector gives the same answers as if it had never had that probe,
and tells the same breaches. And let the pool of a breaker answer every question with an error. Step by
step, the breaker gives the same answers as if it had never had a pool, and shows the same. -/
theorem unreadable_probes_are_invisible :
    (∀ (kind : ResourceKind) (w : Detector.Watched) (calls : List Detector.Call),
      w.probes.Broken kind →
      (∀ probes, .event (.watch probes) ∈ calls → probes.Broken kind) →
      let without : Detector.Watched := { w with probes := w.probes.without kind }
      without.told (calls.map (Detector.Call.without kind)) = w.told calls) ∧
    (∀ (s : Breaker.Watched) (events : List Breaker.Event),
      PoolHealth.Silent s.breaker.pool →
      (∀ pool, .watch pool ∈ events → PoolHealth.Silent pool) →
      s.unwatched.told (events.map Breaker.Event.unwatched) = s.told events) := by
  constructor
  · intro kind w calls hprobe hshown without
    have hsame : Detector.Watched.SameSight without w :=
      ⟨rfl, Probes.snapshot_without hprobe⟩
    exact hsame.told hshown
  · intro s events hpool hshown
    exact Breaker.Watched.told_unwatched hpool hshown

/-- A detector that asks for two breaches in a row, in front of full memory. Its pool of threads is first
no number and then an error, and it overloads all the same, as it would without that probe. And a circuit
that one failure opens: its pool answers with errors, so that the first question after the quiet time
closes it. -/
theorem broken_probe_beside_full_memory :
    let full (threads : Reading) : Probes
      | .threadPool => some threads
      | .memory => some (.ok 1.0)
      | _ => none
    let notNumber := full (.ok (0.0 / 0.0))
    let offline := full (.error (.unavailable "offline"))
    let w := Detector.Watched.fresh { consecutiveDetections := 2 } notNumber
    let calls : List Detector.Call :=
      [.event .check, .event (.watch offline), .poll .state, .event .check]
    let overload : OverloadState := { overloaded := true, retryAfter := 300 }
    let silent : Option PoolHealth :=
      some { utilization := .error .noReading, waiting := .error (.unavailable "offline") }
    let s : Breaker.Watched :=
      { breaker := .fresh { failureThreshold := 1, recoveryTimeout := 0 } silent, wall := ⟨0, by decide⟩ }
    let events : List Breaker.Event := [.fail, .allow, .clock ⟨1, by decide⟩, .watch silent, .admission]
    (w.probes.Broken .threadPool ∧ offline.Broken .threadPool ∧
      ({ w with probes := w.probes.without .threadPool } : Detector.Watched).told
        (calls.map (Detector.Call.without .threadPool)) = w.told calls ∧
      (w.told calls).filterMap (·.1.bind Detector.Answer.state?) = [.healthy, overload, overload]) ∧
    PoolHealth.Silent s.breaker.pool ∧
      s.unwatched.told (events.map Breaker.Event.unwatched) = s.told events ∧
      (s.told events).map (·.2.phase) = [.open_, .open_, .open_, .open_, .closed] := by
  intro full notNumber offline w calls overload silent s events
  have hnumber : w.probes.Broken .threadPool := ⟨_, rfl, by decide +kernel⟩
  have hoffline : offline.Broken .threadPool := ⟨_, rfl, rfl⟩
  have hsilent : PoolHealth.Silent silent := ⟨_, rfl, rfl⟩
  have hshown : ∀ probes, .event (.watch probes) ∈ calls → probes.Broken .threadPool := by
    intro probes hmem
    obtain rfl : probes = offline := by simpa [calls] using hmem
    exact hoffline
  have hpools : ∀ pool, .watch pool ∈ events → PoolHealth.Silent pool := by
    intro pool hmem
    obtain rfl : pool = silent := by simpa [events] using hmem
    exact hsilent
  refine ⟨⟨hnumber, hoffline, ?_, by decide +kernel⟩, hsilent, ?_, by decide +kernel⟩
  · exact unreadable_probes_are_invisible.1 .threadPool w calls hnumber hshown
  · exact unreadable_probes_are_invisible.2 s events hsilent hpools

end OrderAdmission
