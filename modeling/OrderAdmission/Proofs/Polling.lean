import OrderAdmission.Gate
import OrderAdmission.Proofs.Debounce

/-!
# Looking at an overload detector

Dashboards and health checks look at the detector between the admissions that check it. They ask for
its state, for its flag, for the suggested wait or for the readings themselves, and none of these
counts as a check.

There are two copies of the decision. A check counts itself and then decides by the streak as it was,
raised by one; a look decides by the streak as it is, raised by one. They agree at every streak, also
where the word is full: there the count wraps around and the decision does not (`check_fst`). **So a
transcript of checks and looks is the transcript of the checks alone with the looks put in**
(`transcript_checks`).
-/
namespace OrderAdmission

/-- What an overload detector with these settings may say: without overload there is no wait, and with
overload a wait that lies between the base delay and the longest one. If the two are the wrong way
around, this is the base delay. -/
def OverloadState.Sane (c : OverloadConfig) (s : OverloadState) : Prop :=
  if s.overloaded then
    c.baseRetryDelay ≤ s.retryAfter ∧ s.retryAfter ≤ max c.baseRetryDelay c.maxRetryDelay
  else s.retryAfter = 0

theorem OverloadConfig.retryDelay_bounds (c : OverloadConfig) (peak : Float) :
    c.baseRetryDelay ≤ c.retryDelay peak ∧
      c.retryDelay peak ≤ max c.baseRetryDelay c.maxRetryDelay := by
  unfold OverloadConfig.retryDelay
  constructor
  · exact Nat.le_max_left _ _
  · apply Nat.max_le.mpr
    constructor
    · exact Nat.le_max_left _ _
    · rw [Nat.max_comm c.baseRetryDelay]
      exact Nat.min_le_left _ _

theorem OverloadState.healthy_sane (c : OverloadConfig) : OverloadState.healthy.Sane c := by
  simp [Sane, healthy]

namespace Detector

variable (d : Detector) (s : Snapshot)

/-- **A look says what a check would say**, at every streak. -/
theorem check_fst : (d.check s).1 = d.state s := by
  unfold check state
  by_cases hclean : (d.config.breaches s).isEmpty
  · rw [if_pos hclean, if_pos hclean]
  · rw [if_neg hclean, if_neg hclean]
    by_cases hshort : d.raisedStreak < d.config.required
    · simp only [if_pos hshort]
    · simp only [if_neg hshort]

theorem state_sane : (d.state s).Sane d.config := by
  unfold state
  split
  · exact OverloadState.healthy_sane _
  · split
    · exact OverloadState.healthy_sane _
    · exact d.config.retryDelay_bounds s.peak

theorem state_retryAfter {d : Detector} {s : Snapshot} (hover : (d.state s).overloaded = true) :
    (d.state s).retryAfter = d.retryDelaySeconds s := by
  unfold state at hover ⊢
  split at hover
  · exact absurd hover Bool.false_ne_true
  · rename_i hbreach
    rw [if_neg hbreach]
    split at hover
    · exact absurd hover Bool.false_ne_true
    · rename_i hlong
      rw [if_neg hlong]
      rfl

/-- What can be asked of a detector besides a check. -/
inductive Poll where
  | state
  | isOverloaded
  | retryDelay
  | snapshot

/-- What a detector answers. -/
inductive Answer where
  | state (state : OverloadState)
  | flag (overloaded : Bool)
  | seconds (wait : Nat)
  | readings (snapshot : Snapshot)

/-- The state that an answer tells, if it tells one. -/
def Answer.state? : Answer → Option OverloadState
  | .state said => some said
  | _ => none

/-- What a detector is asked or told. -/
inductive Call where
  | event (event : Event)
  | poll (poll : Poll)

def Call.isPoll : Call → Bool
  | .event _ => false
  | .poll _ => true

namespace Watched

def look (w : Watched) : Poll → Answer
  | .state => .state (w.detector.state w.probes.snapshot)
  | .isOverloaded => .flag (w.detector.isOverloaded w.probes.snapshot)
  | .retryDelay => .seconds (w.detector.retryDelaySeconds w.probes.snapshot)
  | .snapshot => .readings w.probes.snapshot

def answer (w : Watched) : Call → Option Answer
  | .event (.watch _) => none
  | .event .check => some (.state (w.detector.check w.probes.snapshot).1)
  | .poll poll => some (w.look poll)

def next (w : Watched) : Call → Watched
  | .event event => w.step event
  | .poll _ => w

def afterCalls (w : Watched) (calls : List Call) : Watched := calls.foldl next w

def transcript (w : Watched) : List Call → List (Call × Option Answer)
  | [] => []
  | call :: calls => (call, w.answer call) :: (w.next call).transcript calls

def states (entries : List (Call × Option Answer)) : List OverloadState :=
  entries.filterMap fun entry => entry.2.bind Answer.state?

theorem next_of_isPoll {call : Call} (hpoll : call.isPoll = true) (w : Watched) :
    w.next call = w := by
  cases call with
  | event event => exact absurd hpoll Bool.false_ne_true
  | poll poll => rfl

@[simp] theorem next_config (w : Watched) (call : Call) :
    (w.next call).detector.config = w.detector.config := by
  cases call with
  | event event => exact step_config w event
  | poll poll => rfl

theorem transcript_checks (w : Watched) (calls : List Call) :
    (w.transcript calls).filter (!·.1.isPoll) = w.transcript (calls.filter (!·.isPoll)) := by
  induction calls generalizing w with
  | nil => rfl
  | cons call calls ih =>
    by_cases hpoll : call.isPoll = true
    · rw [List.filter_cons_of_neg (by simpa using hpoll), transcript,
        List.filter_cons_of_neg (by simpa using hpoll), ih, next_of_isPoll hpoll]
    · rw [List.filter_cons_of_pos (by simpa using hpoll), transcript, transcript,
        List.filter_cons_of_pos (by simpa using hpoll), ih]

theorem sane_of_answer {w : Watched} {call : Call} {state : OverloadState}
    (htold : (w.answer call).bind Answer.state? = some state) : state.Sane w.detector.config := by
  rcases call with (probes | _) | (_ | _ | _ | _)
  · cases htold
  · rw [← Option.some.inj htold, check_fst]
    exact state_sane _ _
  · rw [← Option.some.inj htold]
    exact state_sane _ _
  all_goals cases htold

theorem sane_of_mem_states {w : Watched} {calls : List Call} {state : OverloadState}
    (htold : state ∈ states (w.transcript calls)) : state.Sane w.detector.config := by
  induction calls generalizing w with
  | nil => exact absurd htold List.not_mem_nil
  | cons call calls ih =>
    obtain ⟨entry, hentry, hstate⟩ := List.mem_filterMap.mp htold
    rcases List.mem_cons.mp hentry with hhere | hlater
    · rw [hhere] at hstate
      exact sane_of_answer hstate
    · rw [← w.next_config call]
      exact ih (List.mem_filterMap.mpr ⟨entry, hlater, hstate⟩)

/-- **To look at a detector changes nothing.** Let a detector with any settings and any streak be checked,
looked at and shown new readings in any order. Without the looks, its checks have the same answers one by
one; at every moment its state and its flag are what a check would say of the same readings, and the wait
of an overload is the one that it suggests when asked; and each state that is told has no wait without
overload, and one between the two delays with it. -/
theorem polling_changes_nothing (w : Watched) (calls : List Call) :
    (w.transcript calls).filter (!·.1.isPoll) = w.transcript (calls.filter (!·.isPoll)) ∧
    (let now := w.afterCalls calls
      let checked := (now.detector.check now.probes.snapshot).1
      now.detector.state now.probes.snapshot = checked ∧
      now.detector.isOverloaded now.probes.snapshot = checked.overloaded ∧
      (checked.overloaded = true →
        checked.retryAfter = now.detector.retryDelaySeconds now.probes.snapshot)) ∧
    ∀ state ∈ states (w.transcript calls), state.Sane w.detector.config := by
  refine ⟨w.transcript_checks calls, ?_, ?_⟩
  · intro now checked
    have hchecked : now.detector.state now.probes.snapshot = checked := (check_fst _ _).symm
    refine ⟨hchecked, ?_, ?_⟩
    · rw [isOverloaded, hchecked]
    · intro hover
      rw [← hchecked] at hover ⊢
      exact state_retryAfter hover
  · intro state htold
    exact sane_of_mem_states htold

/-- A detector that asks for two breaches in a row, and whose longest delay lies below the base. Two checks
of an exhausted resource are answered with a start of the streak and with an overload; a look between them
tells the overload ahead of the second check, and changes nothing. -/
theorem polled_between_checks :
    let c : OverloadConfig :=
      { consecutiveDetections := 2, baseRetryDelay := 60, maxRetryDelay := 10 }
    let calls : List Call :=
      [.poll .isOverloaded, .event .check, .poll .state, .poll .retryDelay, .event .check]
    let overload : OverloadState := { overloaded := true, retryAfter := 60 }
    states ((fresh c exhausted).transcript calls) = [.healthy, overload, overload] ∧
      states (((fresh c exhausted).transcript calls).filter (!·.1.isPoll)) =
        [.healthy, overload] ∧
      overload.Sane c := by
  intro c calls overload
  have htold : states ((fresh c exhausted).transcript calls) = [.healthy, overload, overload] := by
    decide +kernel
  have hchecks : states ((fresh c exhausted).transcript (calls.filter (!·.isPoll))) =
      [.healthy, overload] := by
    decide +kernel
  have hsame := polling_changes_nothing (fresh c exhausted) calls
  refine ⟨htold, ?_, ?_⟩
  · rw [hsame.1]
    exact hchecks
  · apply hsame.2.2
    rw [htold]
    exact List.mem_cons_of_mem _ List.mem_cons_self

end Watched

end Detector

/-- What a gate says when it is asked is what its next check would say of the same readings. -/
theorem Engine.overload_eq_check {P R : Type} (e : Engine P R) :
    e.overload = (e.detector.check e.probes.snapshot).1 :=
  (Detector.check_fst _ _).symm

end OrderAdmission
