import Mathlib.Data.List.Induction
import OrderAdmission.Breaker
import OrderAdmission.Order.Sample

/-!
# Whole histories of a circuit breaker

A breaker is told of failures and successes, asked for admission and closed by hand, while its pool
and the wall clock move as they like. What one such event does is said once, by `Turn`; everything
else is an induction over the events.

**The circuit opens at the failure that brings the count to the threshold and at no other event**:
while it is closed the count lies below the threshold, which is an invariant, so a failure can at
most reach it. `opens_exactly_at_threshold` adds what follows for the number of openings.

**It closes only by hand, or in a question that is asked after a quiet time in front of a healthy
pool.** `closes_exactly_after_quiet_time` reads the quiet time off the history: the breaker's own
memory of the last failure is shown to be the clock at the last failure that the history has.
-/
namespace OrderAdmission

/-- A reading of the wall clock: a time that a date can be told for. -/
abbrev Date := { wall : Int // Order.firstDate ≤ wall ∧ wall ≤ Order.lastDate }

theorem saturateSigned_sub_date (a b : Date) : saturateSigned (a.1 - b.1) = a.1 - b.1 := by
  obtain ⟨a, ha, ha'⟩ := a
  obtain ⟨b, hb, hb'⟩ := b
  simp only [Order.firstDate, Order.lastDate] at ha ha' hb hb'
  simp only [saturateSigned, minSigned, maxSigned]
  omega

namespace Breaker

/-! ### The operations -/

section
variable (b : Breaker) (wall : Int)

@[simp] theorem recordFailure_config : (b.recordFailure wall).config = b.config := by
  unfold recordFailure
  split <;> rfl

@[simp] theorem recordFailure_failures : (b.recordFailure wall).failures = b.failures + 1 := by
  unfold recordFailure
  split <;> rfl

@[simp] theorem recordFailure_lastFailure : (b.recordFailure wall).lastFailure = wall := by
  unfold recordFailure
  split <;> rfl

@[simp] theorem recordSuccess_config : b.recordSuccess.config = b.config := by
  unfold recordSuccess
  split <;> rfl

@[simp] theorem recordSuccess_phase : b.recordSuccess.phase = b.phase := by
  unfold recordSuccess
  split <;> rfl

@[simp] theorem recordSuccess_lastFailure : b.recordSuccess.lastFailure = b.lastFailure := by
  unfold recordSuccess
  split <;> rfl

@[simp] theorem recordSuccess_trips : b.recordSuccess.trips = b.trips := by
  unfold recordSuccess
  split <;> rfl

theorem toNat_recordFailure :
    (b.recordFailure wall).failures.toNat = (b.failures.toNat + 1) % UInt32.size := by
  rw [recordFailure_failures]
  exact UInt32.toNat_add b.failures 1

theorem toNat_recordSuccess : b.recordSuccess.failures.toNat = b.failures.toNat - 1 := by
  unfold recordSuccess
  split
  · next h =>
    rw [h]
    rfl
  · next h =>
    have hpos : b.failures.toNat ≠ 0 := fun hzero => h (UInt32.toNat_inj.mp hzero)
    have hone : (1 : UInt32) ≤ b.failures := UInt32.le_iff_toNat_le.mpr (Nat.pos_of_ne_zero hpos)
    exact UInt32.toNat_sub_of_le _ _ hone

theorem recordSuccess_failures_le : b.recordSuccess.failures.toNat ≤ b.failures.toNat := by
  rw [toNat_recordSuccess]
  exact Nat.sub_le _ _

end

theorem recordFailure_open {b : Breaker} (hopen : b.phase = .open_) (wall : Int) :
    (b.recordFailure wall).phase = .open_ ∧ (b.recordFailure wall).trips = b.trips := by
  simp [recordFailure, hopen]

/-- A failure in front of a closed circuit whose count lies below the threshold opens it exactly
if the count has the height of the threshold afterwards. -/
theorem recordFailure_closed {b : Breaker} (hclosed : b.phase = .closed)
    (hbelow : b.failures.toNat < b.config.failureThreshold) (wall : Int) :
    (b.recordFailure wall).phase = .open_ ∧ (b.recordFailure wall).trips = b.trips + 1 ∧
        (b.recordFailure wall).failures.toNat = b.config.failureThreshold ∨
      (b.recordFailure wall).phase = .closed ∧ (b.recordFailure wall).trips = b.trips ∧
        (b.recordFailure wall).failures.toNat < b.config.failureThreshold := by
  have hsize : UInt32.size = 4294967296 := rfl
  have hword : b.failures.toNat < UInt32.size := b.failures.toNat_lt_size
  by_cases hraised : b.config.failureThreshold ≤ raisedCount b.failures
  · refine .inl ⟨?_, ?_, ?_⟩
    · simp [recordFailure, hraised, hclosed]
    · simp [recordFailure, hraised, hclosed]
    · rw [toNat_recordFailure, hsize]
      unfold raisedCount at hraised
      omega
  · refine .inr ⟨?_, ?_, ?_⟩
    · simp [recordFailure, hraised, hclosed]
    · simp [recordFailure, hraised, hclosed]
    · rw [toNat_recordFailure, hsize]
      unfold raisedCount at hraised
      omega

/-- An open circuit may close: the quiet time is over and the pool is healthy. -/
def Recovers (b : Breaker) (wall : Int) : Prop :=
  b.phase = .open_ ∧ b.config.recoveryTimeout < b.quietTime wall ∧ b.poolHealthy = true

theorem allow_closed {b : Breaker} (hclosed : b.phase = .closed) (wall : Int) :
    b.allow wall = .ok (true, b) := by
  simp [allow, hclosed]

theorem remaining_open {b : Breaker} (hopen : b.phase = .open_)
    (hword : b.config.recoveryTimeout < maxWord) (wall : Int) :
    b.remaining wall = .ok (b.config.recoveryTimeout + 1 - b.quietTime wall) := by
  simp only [remaining, hopen, checkedWord, bind, Except.bind, pure, Except.pure]
  rw [if_pos (by omega)]

theorem allow_recovers {b : Breaker} {wall : Int} (hword : b.config.recoveryTimeout < maxWord)
    (h : b.Recovers wall) : b.allow wall = .ok (true, b.close) := by
  obtain ⟨hopen, hquiet, hhealthy⟩ := h
  simp only [allow, hopen, remaining_open hopen hword, bind, Except.bind, pure, Except.pure]
  rw [if_neg (by omega), if_pos hhealthy]

theorem allow_refuses {b : Breaker} {wall : Int} (hword : b.config.recoveryTimeout < maxWord)
    (hopen : b.phase = .open_) (h : ¬ b.Recovers wall) : b.allow wall = .ok (false, b) := by
  simp only [allow, hopen, remaining_open hopen hword, bind, Except.bind, pure, Except.pure]
  by_cases hquiet : b.config.recoveryTimeout < b.quietTime wall
  · rw [if_neg (by omega), if_neg (fun hhealthy => h ⟨hopen, hquiet, hhealthy⟩)]
  · rw [if_pos (by omega)]

/-- A recovery timeout that fills its word breaks a question off before anything has happened. -/
theorem allow_overflow {b : Breaker} (hopen : b.phase = .open_)
    (hword : ¬ b.config.recoveryTimeout < maxWord) (wall : Int) :
    b.allow wall = .error .overflow := by
  simp only [allow, remaining, hopen, checkedWord, bind, Except.bind]
  rw [if_neg (by omega)]

theorem admitBulk_closed {b : Breaker} (hclosed : b.phase = .closed) (wall : Int) :
    b.admitBulk wall = if b.poolHealthy then .ok (.ok (), b)
      else .ok (.error (.overloaded (hintSeconds b.config.recoveryTimeout)),
        b.recordFailure wall) := by
  simp only [admitBulk, allow_closed hclosed, bind, Except.bind, pure, Except.pure]
  cases b.poolHealthy <;> rfl

theorem admitBulk_recovers {b : Breaker} {wall : Int}
    (hword : b.config.recoveryTimeout < maxWord) (h : b.Recovers wall) :
    b.admitBulk wall = .ok (.ok (), b.close) := by
  have hhealthy : b.close.poolHealthy = true := h.2.2
  simp only [admitBulk, allow_recovers hword h, bind, Except.bind, pure, Except.pure, hhealthy]
  rfl

theorem admitBulk_refuses {b : Breaker} {wall : Int} (hword : b.config.recoveryTimeout < maxWord)
    (hopen : b.phase = .open_) (h : ¬ b.Recovers wall) :
    b.admitBulk wall = .ok (.error (.circuitOpen b.failures.toNat
      (hintSeconds (b.config.recoveryTimeout + 1 - b.quietTime wall))), b) := by
  simp only [admitBulk, allow_refuses hword hopen h, remaining_open hopen hword, bind, Except.bind,
    pure, Except.pure]
  rfl

theorem admitBulk_overflow {b : Breaker} (hopen : b.phase = .open_)
    (hword : ¬ b.config.recoveryTimeout < maxWord) (wall : Int) :
    b.admitBulk wall = .error .overflow := by
  simp only [admitBulk, allow_overflow hopen hword, bind, Except.bind]

/-- How an admission is refused: by an open circuit, as long as it does not recover, or because of the pool
in front of a closed one. The second is a failure. -/
inductive Refusal (b : Breaker) (wall : Int) : GateError → Breaker → Prop where
  | circuit (hopen : b.phase = .open_) (hword : b.config.recoveryTimeout < maxWord)
      (hearly : ¬ b.Recovers wall) :
      Refusal b wall (.circuitOpen b.failures.toNat
        (hintSeconds (b.config.recoveryTimeout + 1 - b.quietTime wall))) b
  | pool (hclosed : b.phase = .closed) (hsick : b.poolHealthy = false) :
      Refusal b wall (.overloaded (hintSeconds b.config.recoveryTimeout)) (b.recordFailure wall)

theorem admitBulk_refusal {b b' : Breaker} {wall : Int} {error : GateError}
    (h : b.admitBulk wall = .ok (.error error, b')) : Refusal b wall error b' := by
  cases hphase : b.phase with
  | closed =>
    rw [admitBulk_closed hphase] at h
    cases hhealthy : b.poolHealthy with
    | true => simp [hhealthy] at h
    | false =>
      simp only [hhealthy, Bool.false_eq_true, ↓reduceIte] at h
      cases h
      exact .pool hphase hhealthy
  | open_ =>
    by_cases hword : b.config.recoveryTimeout < maxWord
    · by_cases hrecovers : b.Recovers wall
      · rw [admitBulk_recovers hword hrecovers] at h
        cases h
      · rw [admitBulk_refuses hword hphase hrecovers] at h
        cases h
        exact .circuit hphase hword hrecovers
    · rw [admitBulk_overflow hphase hword] at h
      cases h

/-! ### Events -/

/-- What can happen to a breaker. -/
inductive Event where
  | fail
  | succeed
  | allow
  | admission
  | forceClose
  /-- The pool says something else from now on. -/
  | watch (pool : Option PoolHealth)
  /-- The wall clock moves, forward or back. -/
  | clock (wall : Date)

def Event.asks : Event → Bool
  | .allow | .admission => true
  | _ => false

/-- A breaker and what the wall clock says. -/
structure Watched where
  breaker : Breaker
  wall : Date

def after {α : Type} (b : Breaker) : Except Crash (α × Breaker) → Breaker
  | .ok (_, b') => b'
  | .error _ => b

namespace Watched

def step (s : Watched) : Event → Watched
  | .fail => { s with breaker := s.breaker.recordFailure s.wall }
  | .succeed => { s with breaker := s.breaker.recordSuccess }
  | .allow => { s with breaker := s.breaker.after (s.breaker.allow s.wall) }
  | .admission => { s with breaker := s.breaker.after (s.breaker.admitBulk s.wall) }
  | .forceClose => { s with breaker := s.breaker.close }
  | .watch pool => { s with breaker := { s.breaker with pool } }
  | .clock wall => { s with wall }

def run (s : Watched) (events : List Event) : Watched := events.foldl step s

/-- The events of a run, each with what it found. -/
def steps (s : Watched) : List Event → List (Watched × Event)
  | [] => []
  | event :: events => (s, event) :: (s.step event).steps events

/-- Whether an event records a failure: one that is told, or an admission that meets a closed
circuit and an unhealthy pool. -/
def fails (s : Watched) : Event → Bool
  | .fail => true
  | .admission => s.breaker.phase = .closed && !s.breaker.poolHealthy
  | _ => false

def opens (s : Watched) (event : Event) : Bool :=
  s.breaker.phase = .closed && (s.step event).breaker.phase = .open_

def openings (s : Watched) (events : List Event) : Nat :=
  (s.steps events).countP fun (t, event) => t.opens event

/-- What the clock said at the last of these events that recorded a failure. -/
def lastFailure? (s : Watched) (events : List Event) : Option Date :=
  ((s.steps events).filter fun (t, event) => t.fails event).getLast?.map (·.1.wall)

theorem run_snoc (s : Watched) (events : List Event) (event : Event) :
    s.run (events ++ [event]) = (s.run events).step event := by
  simp [run]

theorem steps_snoc (s : Watched) (events : List Event) (event : Event) :
    s.steps (events ++ [event]) = s.steps events ++ [(s.run events, event)] := by
  induction events generalizing s with
  | nil => rfl
  | cons first events ih => simp only [List.cons_append, steps, ih]; rfl

theorem event_mem_of_mem_steps {s : Watched} {events : List Event} {t : Watched × Event}
    (ht : t ∈ s.steps events) : t.2 ∈ events := by
  induction events generalizing s with
  | nil => cases ht
  | cons event events ih =>
    rcases List.mem_cons.mp ht with rfl | ht
    · exact List.mem_cons_self
    · exact List.mem_cons_of_mem _ (ih ht)

theorem openings_snoc (s : Watched) (events : List Event) (event : Event) :
    s.openings (events ++ [event]) =
      s.openings events + if (s.run events).opens event then 1 else 0 := by
  simp only [openings, steps_snoc, List.countP_append, List.countP_singleton]

theorem lastFailure?_snoc (s : Watched) (events : List Event) (event : Event) :
    s.lastFailure? (events ++ [event]) =
      if (s.run events).fails event then some (s.run events).wall else s.lastFailure? events := by
  simp only [lastFailure?, steps_snoc, List.filter_append, List.filter_cons, List.filter_nil]
  split
  · simp
  · rw [List.append_nil]

/-- What one event makes of the breaker. -/
inductive Turn (s : Watched) (event : Event) (b : Breaker) : Prop
  | failed (h : s.fails event = true) (eq : b = s.breaker.recordFailure s.wall)
  | succeeded (h : event = .succeed) (eq : b = s.breaker.recordSuccess)
  | forced (h : event = .forceClose) (eq : b = s.breaker.close)
  | recovered (hasks : event.asks = true) (hcalm : s.fails event = false)
      (h : s.breaker.Recovers s.wall) (eq : b = s.breaker.close)
  | asked (hasks : event.asks = true) (hcalm : s.fails event = false)
      (h : s.breaker.config.recoveryTimeout < maxWord → ¬ s.breaker.Recovers s.wall)
      (eq : b = s.breaker)
  | elsewhere (hasks : event.asks = false) (hcalm : s.fails event = false)
      (hforced : event ≠ .forceClose) (pool : Option PoolHealth) (eq : b = { s.breaker with pool })

theorem allow_turn (s : Watched) : s.Turn .allow (s.breaker.after (s.breaker.allow s.wall)) := by
  cases hphase : s.breaker.phase with
  | closed =>
    have hclosed : ¬ s.breaker.Recovers s.wall := fun h => by simp [h.1] at hphase
    rw [allow_closed hphase]
    exact .asked rfl rfl (fun _ => hclosed) rfl
  | open_ =>
    by_cases hword : s.breaker.config.recoveryTimeout < maxWord
    · by_cases hrecovers : s.breaker.Recovers s.wall
      · rw [allow_recovers hword hrecovers]
        exact .recovered rfl rfl hrecovers rfl
      · rw [allow_refuses hword hphase hrecovers]
        exact .asked rfl rfl (fun _ => hrecovers) rfl
    · rw [allow_overflow hphase hword]
      exact .asked rfl rfl (fun h => absurd h hword) rfl

theorem admission_turn (s : Watched) :
    s.Turn .admission (s.breaker.after (s.breaker.admitBulk s.wall)) := by
  cases hphase : s.breaker.phase with
  | closed =>
    have hclosed : ¬ s.breaker.Recovers s.wall := fun h => by simp [h.1] at hphase
    rw [admitBulk_closed hphase]
    cases hhealthy : s.breaker.poolHealthy with
    | true => exact .asked rfl (by simp [fails, hhealthy]) (fun _ => hclosed) rfl
    | false => exact .failed (by simp [fails, hphase, hhealthy]) rfl
  | open_ =>
    have hcalm : s.fails .admission = false := by simp [fails, hphase]
    by_cases hword : s.breaker.config.recoveryTimeout < maxWord
    · by_cases hrecovers : s.breaker.Recovers s.wall
      · rw [admitBulk_recovers hword hrecovers]
        exact .recovered rfl hcalm hrecovers rfl
      · rw [admitBulk_refuses hword hphase hrecovers]
        exact .asked rfl hcalm (fun _ => hrecovers) rfl
    · rw [admitBulk_overflow hphase hword]
      exact .asked rfl hcalm (fun h => absurd h hword) rfl

theorem step_turn (s : Watched) (event : Event) : s.Turn event (s.step event).breaker := by
  cases event with
  | fail => exact .failed rfl rfl
  | succeed => exact .succeeded rfl rfl
  | allow => exact s.allow_turn
  | admission => exact s.admission_turn
  | forceClose => exact .forced rfl rfl
  | watch pool => exact .elsewhere rfl rfl nofun pool rfl
  | clock wall => exact .elsewhere rfl rfl nofun s.breaker.pool rfl

theorem step_config (s : Watched) (event : Event) :
    (s.step event).breaker.config = s.breaker.config := by
  cases s.step_turn event with
  | failed _ eq | succeeded _ eq | forced _ eq | recovered _ _ _ eq | asked _ _ _ eq
  | elsewhere _ _ _ _ eq => simp [eq, close]

theorem run_config (s : Watched) (events : List Event) :
    (s.run events).breaker.config = s.breaker.config := by
  induction events using List.reverseRecOn with
  | nil => rfl
  | append_singleton events event ih => rw [run_snoc, step_config, ih]

/-! ### How the circuit opens -/

/-- A closed circuit has counted less than the threshold. -/
def Below (s : Watched) : Prop :=
  s.breaker.phase = .closed → s.breaker.failures.toNat < s.breaker.config.failureThreshold

/-- **One event in front of a closed circuit** opens it exactly if it is a failure that brings the
count to the threshold; otherwise the count stays below. -/
theorem step_of_closed {s : Watched} (hbelow : s.Below)
    (hthreshold : 1 ≤ s.breaker.config.failureThreshold) (hclosed : s.breaker.phase = .closed)
    (event : Event) :
    (s.step event).breaker.phase = .open_ ∧ s.fails event = true ∧
        (s.step event).breaker.failures.toNat = s.breaker.config.failureThreshold ∧
        (s.step event).breaker.trips = s.breaker.trips + 1 ∨
      (s.step event).breaker.phase = .closed ∧
        (s.step event).breaker.failures.toNat < s.breaker.config.failureThreshold ∧
        (s.step event).breaker.trips = s.breaker.trips := by
  have hcount := hbelow hclosed
  cases s.step_turn event with
  | failed h eq =>
    rw [eq]
    rcases recordFailure_closed hclosed hcount s.wall with ⟨hopen, htrips, hreached⟩ | hstays
    · exact .inl ⟨hopen, h, hreached, htrips⟩
    · exact .inr ⟨hstays.1, hstays.2.2, hstays.2.1⟩
  | succeeded _ eq =>
    refine .inr ?_
    rw [eq, recordSuccess_phase, recordSuccess_trips]
    exact ⟨hclosed, Nat.lt_of_le_of_lt s.breaker.recordSuccess_failures_le hcount, rfl⟩
  | forced _ eq | recovered _ _ _ eq =>
    rw [eq]
    exact .inr ⟨rfl, hthreshold, rfl⟩
  | asked _ _ _ eq | elsewhere _ _ _ _ eq =>
    rw [eq]
    exact .inr ⟨hclosed, hcount, rfl⟩

/-- One event in front of an open circuit opens nothing, and where it closes the circuit nothing
remains counted. -/
theorem step_of_open {s : Watched} (hopen : s.breaker.phase = .open_) (event : Event) :
    (s.step event).breaker.trips = s.breaker.trips ∧
      ((s.step event).breaker.phase = .closed → (s.step event).breaker.failures = 0) := by
  have hnot : ¬ CircuitPhase.open_ = .closed := nofun
  cases s.step_turn event with
  | failed _ eq =>
    have hstays := recordFailure_open hopen s.wall
    rw [eq, hstays.1, hstays.2]
    exact ⟨rfl, fun h => absurd h hnot⟩
  | succeeded _ eq =>
    rw [eq, recordSuccess_phase, recordSuccess_trips, hopen]
    exact ⟨rfl, fun h => absurd h hnot⟩
  | forced _ eq | recovered _ _ _ eq =>
    rw [eq]
    exact ⟨rfl, fun _ => rfl⟩
  | asked _ _ _ eq | elsewhere _ _ _ _ eq =>
    rw [eq]
    exact ⟨rfl, fun h => absurd (hopen.symm.trans h) hnot⟩

theorem step_below {s : Watched} (hbelow : s.Below)
    (hthreshold : 1 ≤ s.breaker.config.failureThreshold) (event : Event) :
    (s.step event).Below := by
  intro hclosed'
  rw [step_config]
  cases hphase : s.breaker.phase with
  | closed =>
    rcases step_of_closed hbelow hthreshold hphase event with ⟨hopen, _⟩ | ⟨_, hcount, _⟩
    · rw [hopen] at hclosed'
      cases hclosed'
    · exact hcount
  | open_ =>
    rw [(step_of_open hphase event).2 hclosed']
    exact hthreshold

theorem run_below {s : Watched} (hbelow : s.Below)
    (hthreshold : 1 ≤ s.breaker.config.failureThreshold) (events : List Event) :
    (s.run events).Below := by
  induction events using List.reverseRecOn with
  | nil => exact hbelow
  | append_singleton events event ih =>
    rw [run_snoc]
    exact step_below ih (by rw [run_config]; exact hthreshold) event

/-- The number of openings is the one that the breaker has counted, in the word that it has for it. -/
theorem run_trips {s : Watched} (hbelow : s.Below)
    (hthreshold : 1 ≤ s.breaker.config.failureThreshold) (events : List Event) :
    (s.run events).breaker.trips = s.breaker.trips + .ofNat (s.openings events) := by
  induction events using List.reverseRecOn with
  | nil => exact (UInt64.add_zero _).symm
  | append_singleton events event ih =>
    rw [run_snoc, openings_snoc, UInt64.ofNat_add, ← UInt64.add_assoc, ← ih]
    cases hphase : (s.run events).breaker.phase with
    | closed =>
      have hthreshold' : 1 ≤ (s.run events).breaker.config.failureThreshold := by
        rw [run_config]
        exact hthreshold
      rcases step_of_closed (run_below hbelow hthreshold events) hthreshold' hphase event with
        ⟨hopen, _, _, htrips⟩ | ⟨hstays, _, htrips⟩
      · simp [opens, hphase, hopen, htrips]
      · simp [opens, hphase, hstays, htrips]
    | open_ =>
      rw [(step_of_open hphase event).1]
      simp [opens, hphase]

/-- **How the circuit opens.** Whatever happens to a breaker with a positive threshold: while the
circuit is closed the count lies below the threshold; the next event opens it exactly if it is a
failure that brings the count to the threshold; the openings are counted, in a 64-bit word; and an
event that closes the circuit leaves no failures. -/
theorem opens_exactly_at_threshold (config : BreakerConfig) (pool : Option PoolHealth) (wall : Date)
    (hthreshold : 1 ≤ config.failureThreshold) (events : List Event) :
    let start : Watched := { breaker := .fresh config pool, wall }
    let s := start.run events
    (s.breaker.phase = .closed → s.breaker.failures.toNat < config.failureThreshold) ∧
      (∀ event, s.opens event = true ↔ s.breaker.phase = .closed ∧ s.fails event = true ∧
        (s.step event).breaker.failures.toNat = config.failureThreshold) ∧
      s.breaker.trips = .ofNat (start.openings events) ∧
      ∀ event, s.breaker.phase = .open_ → (s.step event).breaker.phase = .closed →
        (s.step event).breaker.failures = 0 := by
  intro start s
  have hbelow₀ : start.Below := fun _ => hthreshold
  have hbelow : s.Below := run_below hbelow₀ hthreshold events
  have hconfig : s.breaker.config = config := start.run_config events
  refine ⟨fun hclosed => hconfig ▸ hbelow hclosed, ?_, ?_, ?_⟩
  · intro event
    constructor
    · intro hopens
      obtain ⟨hclosed, hopen⟩ : s.breaker.phase = .closed ∧ (s.step event).breaker.phase = .open_ := by
        simpa [opens] using hopens
      rcases step_of_closed hbelow (hconfig ▸ hthreshold) hclosed event with
        ⟨_, hfails, hcount, _⟩ | ⟨hstays, _⟩
      · exact ⟨hclosed, hfails, hconfig ▸ hcount⟩
      · rw [hstays] at hopen
        cases hopen
    · rintro ⟨hclosed, _, hcount⟩
      rcases step_of_closed hbelow (hconfig ▸ hthreshold) hclosed event with
        ⟨hopen, _⟩ | ⟨_, hstays, _⟩
      · simp [opens, hclosed, hopen]
      · rw [hconfig] at hstays
        omega
  · have htrips := run_trips hbelow₀ hthreshold events
    rwa [show start.breaker.trips = 0 from rfl, UInt64.zero_add] at htrips
  · intro event hopen hclosed
    exact (step_of_open hopen event).2 hclosed

theorem second_failure_opens :
    let config : BreakerConfig := { failureThreshold := 2 }
    let start : Watched := { breaker := .fresh config none, wall := ⟨0, by decide⟩ }
    1 ≤ config.failureThreshold ∧ (start.run [.fail]).breaker.failures.toNat < 2 ∧
      (start.run [.fail]).opens .fail = true ∧
      (start.run [.fail, .fail]).breaker.trips = .ofNat (start.openings [.fail, .fail]) := by
  intro config start
  have hthreshold : 1 ≤ config.failureThreshold := by decide
  have hone := opens_exactly_at_threshold config none ⟨0, by decide⟩ hthreshold [.fail]
  have htwo := opens_exactly_at_threshold config none ⟨0, by decide⟩ hthreshold [.fail, .fail]
  exact ⟨hthreshold, hone.1 rfl, (hone.2.1 .fail).mpr ⟨rfl, rfl, rfl⟩, htwo.2.2.1⟩

/-! ### How the circuit closes -/

theorem step_lastFailure (s : Watched) (event : Event) :
    (s.step event).breaker.lastFailure =
      if s.fails event then s.wall.1 else s.breaker.lastFailure := by
  cases s.step_turn event with
  | failed h eq => rw [eq, if_pos h, recordFailure_lastFailure]
  | succeeded h eq => rw [eq, h, recordSuccess_lastFailure]; rfl
  | forced h eq => rw [eq, h]; rfl
  | recovered _ hcalm _ eq | asked _ hcalm _ eq | elsewhere _ hcalm _ _ eq =>
    rw [eq, hcalm]
    rfl

theorem run_lastFailure (s : Watched) (events : List Event) :
    (s.run events).breaker.lastFailure =
      (s.lastFailure? events).elim s.breaker.lastFailure (·.1) := by
  induction events using List.reverseRecOn with
  | nil => rfl
  | append_singleton events event ih =>
    rw [run_snoc, step_lastFailure, lastFailure?_snoc, ih]
    split <;> rfl

theorem run_closed_of_calm {s : Watched} (hclosed : s.breaker.phase = .closed)
    {events : List Event} (hcalm : s.lastFailure? events = none) :
    (s.run events).breaker.phase = .closed := by
  induction events using List.reverseRecOn with
  | nil => exact hclosed
  | append_singleton events event ih =>
    rw [lastFailure?_snoc] at hcalm
    split at hcalm
    · cases hcalm
    · next hfails =>
      rw [run_snoc]
      cases (s.run events).step_turn event with
      | failed h _ => exact absurd h hfails
      | succeeded _ eq => rw [eq, recordSuccess_phase, ih hcalm]
      | forced _ eq | recovered _ _ _ eq => rw [eq]; rfl
      | asked _ _ _ eq | elsewhere _ _ _ _ eq => rw [eq]; exact ih hcalm

theorem quietTime_date {b : Breaker} {last : Date} (hlast : b.lastFailure = last.1) (wall : Date) :
    b.quietTime wall.1 = (wall.1 - last.1).toNat := by
  rw [quietTime, hlast, saturateSigned_sub_date]

theorem calm_of_asks {s : Watched} (hopen : s.breaker.phase = .open_) {event : Event}
    (hasks : event.asks = true) : s.fails event = false := by
  cases event with
  | allow => rfl
  | admission => simp [fails, hopen]
  | fail | succeed | forceClose | watch pool | clock wall => cases hasks

/-- **One event in front of an open circuit** closes it if it is the one by hand, or a question and
the breaker may recover. -/
theorem step_closes_iff {s : Watched} (hopen : s.breaker.phase = .open_)
    (hword : s.breaker.config.recoveryTimeout < maxWord) (event : Event) :
    (s.step event).breaker.phase = .closed ↔
      event = .forceClose ∨ event.asks = true ∧ s.breaker.Recovers s.wall := by
  constructor
  · intro hclosed
    cases s.step_turn event with
    | failed _ eq =>
      rw [eq, (recordFailure_open hopen s.wall).1] at hclosed
      cases hclosed
    | succeeded _ eq =>
      rw [eq, recordSuccess_phase, hopen] at hclosed
      cases hclosed
    | forced h _ => exact .inl h
    | recovered hasks _ h _ => exact .inr ⟨hasks, h⟩
    | asked _ _ _ eq | elsewhere _ _ _ _ eq =>
      rw [eq] at hclosed
      cases hopen.symm.trans hclosed
  · rintro (rfl | ⟨hasks, hrecovers⟩)
    · rfl
    · cases s.step_turn event with
      | failed h _ =>
        rw [calm_of_asks hopen hasks] at h
        cases h
      | succeeded h _ | forced h _ =>
        rw [h] at hasks
        cases hasks
      | recovered _ _ _ eq => rw [eq]; rfl
      | asked _ _ h _ => exact absurd hrecovers (h hword)
      | elsewhere hnot _ _ _ _ => rw [hnot] at hasks; cases hasks

theorem step_refused {s : Watched} (hopen : s.breaker.phase = .open_)
    (hword : s.breaker.config.recoveryTimeout < maxWord) (hrefused : ¬ s.breaker.Recovers s.wall)
    {event : Event} (hasks : event.asks = true) : s.step event = s := by
  cases event with
  | allow => simp only [step, allow_refuses hword hopen hrefused, after]
  | admission => simp only [step, admitBulk_refuses hword hopen hrefused, after]
  | fail | succeed | forceClose | watch pool | clock wall => cases hasks

/-- Without recovery and without a hand an open circuit stays open. -/
theorem run_open {s : Watched} (hopen : s.breaker.phase = .open_)
    (hword : s.breaker.config.recoveryTimeout < maxWord) {events : List Event}
    (h : ∀ t ∈ s.steps events, t.2 ≠ .forceClose ∧
      (t.2.asks = true → ¬ t.1.breaker.Recovers t.1.wall)) :
    (s.run events).breaker.phase = .open_ := by
  induction events using List.reverseRecOn with
  | nil => exact hopen
  | append_singleton events event ih =>
    rw [steps_snoc] at h
    have hbefore := ih fun t ht => h t (List.mem_append_left _ ht)
    have hlast := h (s.run events, event) (List.mem_append_right _ (List.mem_singleton.mpr rfl))
    have hword' : (s.run events).breaker.config.recoveryTimeout < maxWord := by
      rw [run_config]
      exact hword
    rw [run_snoc]
    cases hphase : ((s.run events).step event).breaker.phase with
    | open_ => rfl
    | closed =>
      rcases (step_closes_iff hbefore hword' event).mp hphase with hforced | ⟨hasks, hrecovers⟩
      · exact absurd hforced hlast.1
      · exact absurd hrecovers (hlast.2 hasks)

/-- **How the circuit closes.** Let the circuit of a breaker be open, whatever has happened to it.
Then a failure has been recorded, and the breaker is *ready* if the clock stands by more than the
recovery timeout behind the last of them and the pool is healthy. The next event closes the circuit
exactly if it is the one by hand, or a question and the breaker is ready; other questions are refused
and change nothing. Successes never close it, a failure starts the quiet time anew and a refusal does
not, and as long as the pool is unhealthy and no hand intervenes it stays open. -/
theorem closes_exactly_after_quiet_time (config : BreakerConfig) (pool : Option PoolHealth)
    (wall : Date) (hword : config.recoveryTimeout < maxWord) (events : List Event) :
    let start : Watched := { breaker := .fresh config pool, wall }
    let s := start.run events
    s.breaker.phase = .open_ → ∃ last, start.lastFailure? events = some last ∧
      let ready := config.recoveryTimeout < (s.wall.1 - last.1).toNat ∧ s.breaker.poolHealthy = true
      (∀ event, (s.step event).breaker.phase = .closed ↔
        event = .forceClose ∨ event.asks = true ∧ ready) ∧
      (ready → s.breaker.allow s.wall = .ok (true, s.breaker.close) ∧
        s.breaker.admitBulk s.wall = .ok (.ok (), s.breaker.close)) ∧
      (¬ ready → s.breaker.allow s.wall = .ok (false, s.breaker) ∧
        (∃ hint, s.breaker.admitBulk s.wall =
          .ok (.error (.circuitOpen s.breaker.failures.toNat hint), s.breaker)) ∧
        ∀ event, event.asks = true →
          s.step event = s ∧ start.lastFailure? (events ++ [event]) = some last) ∧
      (∀ n, (s.run (List.replicate n .succeed)).breaker.phase = .open_) ∧
      ((s.step .fail).breaker.phase = .open_ ∧
        start.lastFailure? (events ++ [.fail]) = some s.wall) ∧
      ∀ later, (∀ t ∈ s.steps later, t.2 ≠ .forceClose ∧ t.1.breaker.poolHealthy = false) →
        (s.run later).breaker.phase = .open_ := by
  intro start s hopen
  have hconfig : s.breaker.config = config := start.run_config events
  have hword' : s.breaker.config.recoveryTimeout < maxWord := hconfig ▸ hword
  -- an open circuit has seen a failure, for it was closed at the start
  obtain ⟨last, hlast⟩ : ∃ last, start.lastFailure? events = some last := by
    cases hnone : start.lastFailure? events with
    | some last => exact ⟨last, rfl⟩
    | none => cases hopen.symm.trans (run_closed_of_calm rfl hnone)
  have hremembers : s.breaker.lastFailure = last.1 := by
    rw [run_lastFailure, hlast]
    rfl
  refine ⟨last, hlast, ?_⟩
  intro ready
  have hready : s.breaker.Recovers s.wall ↔ ready := by
    rw [Recovers, quietTime_date hremembers, hconfig]
    exact and_iff_right hopen
  refine ⟨?_, ?_, ?_, ?_, ?_, ?_⟩
  · intro event
    rw [← hready]
    exact step_closes_iff hopen hword' event
  · intro h
    exact ⟨allow_recovers hword' (hready.mpr h), admitBulk_recovers hword' (hready.mpr h)⟩
  · intro h
    have hrefused : ¬ s.breaker.Recovers s.wall := fun hrecovers => h (hready.mp hrecovers)
    refine ⟨allow_refuses hword' hopen hrefused, ⟨_, admitBulk_refuses hword' hopen hrefused⟩, ?_⟩
    intro event hasks
    refine ⟨step_refused hopen hword' hrefused hasks, ?_⟩
    rw [lastFailure?_snoc, if_neg (by rw [calm_of_asks hopen hasks]; exact Bool.false_ne_true)]
    exact hlast
  · intro n
    apply run_open hopen hword'
    intro t ht
    rw [List.eq_of_mem_replicate (event_mem_of_mem_steps ht)]
    exact ⟨nofun, nofun⟩
  · refine ⟨(recordFailure_open hopen s.wall).1, ?_⟩
    rw [lastFailure?_snoc]
    exact if_pos rfl
  · intro later hlater
    apply run_open hopen hword'
    intro t ht
    refine ⟨(hlater t ht).1, fun _ hrecovers => ?_⟩
    cases hrecovers.2.2.symm.trans (hlater t ht).2

theorem closes_after_second_quiet_second :
    let config : BreakerConfig := { failureThreshold := 1, recoveryTimeout := 1000 }
    let start : Watched := { breaker := .fresh config none, wall := ⟨0, by decide⟩ }
    let events : List Event :=
      [.fail, .clock ⟨600, by decide⟩, .fail, .clock ⟨1600, by decide⟩, .admission]
    let later : List Event := events ++ [.clock ⟨1601, by decide⟩]
    config.recoveryTimeout < maxWord ∧ (start.run events).breaker.phase = .open_ ∧
      (start.run later).breaker.phase = .open_ ∧
      ((start.run later).step .admission).breaker.phase = .closed := by
  intro config start events later
  have hword : config.recoveryTimeout < maxWord := by decide
  have hopen : (start.run later).breaker.phase = .open_ := by decide +kernel
  obtain ⟨last, hlast, hcloses, _⟩ :=
    closes_exactly_after_quiet_time config none ⟨0, by decide⟩ hword later hopen
  have hsix : start.lastFailure? later = some ⟨600, by decide⟩ := by decide +kernel
  obtain rfl : ⟨600, by decide⟩ = last := Option.some.inj (hsix.symm.trans hlast)
  exact ⟨hword, by decide +kernel, hopen,
    (hcloses .admission).mpr (.inr ⟨rfl, by decide +kernel, by decide +kernel⟩)⟩

end Watched
end Breaker
end OrderAdmission
