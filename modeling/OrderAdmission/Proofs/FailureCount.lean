import OrderAdmission.Proofs.Accounting

/-!
# The count of failures

A breaker counts its failures as long as nothing closes its circuit, and every success takes one of them
back. The *exact count* of a history says the same without any word: it is read off the events alone, one
more for a failure, one less for a success but never below zero, and none left after a recovery or a
closing by hand.

**The breaker keeps the exact count for as long as the exact count fits its word.** One event changes the
word as it changes the count, up to multiples of `2 ^ 32` (`step_failures`), so that the two part at the
failure which brings the count to `2 ^ 32`, and at no other event. In front of a closed circuit this does
not happen, because a closed circuit has counted less than its threshold; but an open circuit counts on.
-/
namespace OrderAdmission
namespace Breaker

/-! ### One event -/

theorem count_of_refusal {b b' : Breaker} {wall : Int} {count seconds : Nat}
    (h : b.admitBulk wall = .ok (.error (.circuitOpen count seconds), b')) :
    count = b.failures.toNat ∧ b' = b := by
  cases admitBulk_refusal h with
  | circuit _ _ _ => exact ⟨rfl, rfl⟩

def Event.isSuccess : Event → Bool
  | .succeed => true
  | _ => false

namespace Watched

/-! ### The exact count -/

/-- Whether an event leaves nothing counted: it closes the circuit by hand, or it is a question that an
open circuit closes at. -/
def clears (s : Watched) : Event → Bool
  | .forceClose => true
  | event => event.asks && s.breaker.phase = .open_ && (s.step event).breaker.phase = .closed

/-- What an event makes of a number of failures. -/
def recount (s : Watched) (event : Event) (n : Nat) : Nat :=
  if s.fails event then n + 1
  else if s.clears event then 0
  else if event.isSuccess then n - 1
  else n

/-- **The exact count** of the failures that a history leaves, from none at its start. -/
def exactCount (s : Watched) (events : List Event) : Nat :=
  (s.steps events).foldl (fun n (t, event) => t.recount event n) 0

theorem exactCount_snoc (s : Watched) (events : List Event) (event : Event) :
    s.exactCount (events ++ [event]) = (s.run events).recount event (s.exactCount events) := by
  simp only [exactCount, steps_snoc, List.foldl_append, List.foldl_cons, List.foldl_nil]

theorem recount_of_fails {s : Watched} {event : Event} (h : s.fails event = true) (n : Nat) :
    s.recount event n = n + 1 := by
  rw [recount, if_pos h]

/-- A question that records no failure leaves the number of failures, unless it closes the circuit. -/
theorem recount_of_asks {s : Watched} {event : Event} (hasks : event.asks = true)
    (hcalm : s.fails event = false) (n : Nat) :
    s.recount event n =
      if s.breaker.phase = .open_ ∧ (s.step event).breaker.phase = .closed then 0 else n := by
  cases event with
  | allow | admission => simp [recount, hcalm, clears, Event.asks, Event.isSuccess]
  | fail | succeed | forceClose | watch pool | clock wall => cases hasks

theorem question_failures {s : Watched} {event : Event} (hasks : event.asks = true) :
    (s.step event).breaker.failures.toNat =
      s.recount event s.breaker.failures.toNat % UInt32.size := by
  have hword : s.breaker.failures.toNat < UInt32.size := s.breaker.failures.toNat_lt_size
  cases s.step_turn event with
  | failed h eq => rw [eq, toNat_recordFailure, recount_of_fails h]
  | recovered _ hcalm h eq =>
    rw [recount_of_asks hasks hcalm, if_pos ⟨h.1, by rw [eq]; rfl⟩, eq]
    rfl
  | asked _ hcalm _ eq =>
    have hsame : ¬ (s.breaker.phase = .open_ ∧ (s.step event).breaker.phase = .closed) := by
      rintro ⟨hopen, hclosed⟩
      rw [eq, hopen] at hclosed
      cases hclosed
    rw [recount_of_asks hasks hcalm, if_neg hsame, eq, Nat.mod_eq_of_lt hword]
  | succeeded h _ | forced h _ =>
    rw [h] at hasks
    cases hasks
  | elsewhere h _ _ _ _ =>
    rw [h] at hasks
    cases hasks

/-- **One event changes the word as it changes the exact count**, up to the size of the word. -/
theorem step_failures (s : Watched) (event : Event) :
    (s.step event).breaker.failures.toNat =
      s.recount event s.breaker.failures.toNat % UInt32.size := by
  have hword : s.breaker.failures.toNat < UInt32.size := s.breaker.failures.toNat_lt_size
  cases event with
  | fail => exact toNat_recordFailure s.breaker s.wall
  | succeed =>
    have hless : s.breaker.failures.toNat - 1 < UInt32.size := by omega
    exact (toNat_recordSuccess s.breaker).trans (Nat.mod_eq_of_lt hless).symm
  | allow | admission => exact question_failures rfl
  | forceClose => rfl
  | watch pool | clock wall => exact (Nat.mod_eq_of_lt hword).symm

/-- **The word of a breaker holds the exact count as long as the exact count fits it.** -/
theorem run_failures_eq_exactCount {s : Watched} (hnone : s.breaker.failures = 0) {events : List Event}
    (hfits : ∀ before, before <+: events → s.exactCount before < UInt32.size) :
    (s.run events).breaker.failures.toNat = s.exactCount events := by
  induction events using List.reverseRecOn with
  | nil =>
    rw [run, List.foldl_nil, hnone]
    rfl
  | append_singleton events event ih =>
    have hbefore : (s.run events).breaker.failures.toNat = s.exactCount events :=
      ih fun before h => hfits before (h.trans (List.prefix_append _ _))
    have hafter := hfits _ (List.prefix_refl (events ++ [event]))
    rw [exactCount_snoc] at hafter
    rw [run_snoc, step_failures, hbefore, exactCount_snoc, Nat.mod_eq_of_lt hafter]

theorem failures_of_fails {s : Watched} {event : Event} (h : s.fails event = true) :
    (s.step event).breaker.failures.toNat =
      if s.breaker.failures.toNat + 1 = UInt32.size then 0 else s.breaker.failures.toNat + 1 := by
  have hword : s.breaker.failures.toNat < UInt32.size := s.breaker.failures.toNat_lt_size
  rw [step_failures, recount_of_fails h]
  split
  · next hfull => rw [hfull, Nat.mod_self]
  · exact Nat.mod_eq_of_lt (by omega)

/-- **The failure count is exact up to the size of its word.** Whatever happens to a breaker from its start
on: its count has been the exact one all the time if and only if the exact count has fitted the word all the
time. A recorded failure raises the count by one, unless the word is full, and then nothing is left of the
count; in front of a closed circuit the word is never full. An open circuit that refuses an admission tells
the count that the breaker has, and leaves it. -/
theorem failure_count_exact_up_to_its_word (config : BreakerConfig) (pool : Option PoolHealth)
    (wall : Date) (events : List Event) :
    let start : Watched := { breaker := .fresh config pool, wall }
    let s := start.run events
    ((∀ before, before <+: events →
          (start.run before).breaker.failures.toNat = start.exactCount before) ↔
        ∀ before, before <+: events → start.exactCount before < UInt32.size) ∧
      (∀ event, s.fails event = true →
        (s.step event).breaker.failures.toNat =
          if s.breaker.failures.toNat + 1 = UInt32.size then 0 else s.breaker.failures.toNat + 1) ∧
      (1 ≤ config.failureThreshold → config.failureThreshold < UInt32.size →
        s.breaker.phase = .closed → s.breaker.failures.toNat + 1 < UInt32.size) ∧
      ∀ count seconds b, s.breaker.admitBulk s.wall = .ok (.error (.circuitOpen count seconds), b) →
        count = s.breaker.failures.toNat ∧ b = s.breaker := by
  intro start s
  refine ⟨⟨?_, ?_⟩, fun event h => failures_of_fails h, ?_, fun _ _ _ h => count_of_refusal h⟩
  · intro hexact before hbefore
    rw [← hexact before hbefore]
    exact (start.run before).breaker.failures.toNat_lt_size
  · intro hfits before hbefore
    exact run_failures_eq_exactCount rfl fun earlier h => hfits earlier (h.trans hbefore)
  · intro hthreshold hsize hclosed
    have hcount := run_below (s := start) (fun _ => hthreshold) hthreshold events hclosed
    rw [run_config] at hcount
    have hbound : s.breaker.failures.toNat < config.failureThreshold := hcount
    omega

/-- Right after a failure, an open circuit refuses. -/
theorem refused_after_failure {s : Watched} (hopen : s.breaker.phase = .open_)
    (hword : s.breaker.config.recoveryTimeout < maxWord) :
    ∃ seconds, (s.step .fail).breaker.admitBulk (s.step .fail).wall =
      .ok (.error (.circuitOpen (s.step .fail).breaker.failures.toNat seconds),
        (s.step .fail).breaker) := by
  have hstill : (s.step .fail).breaker.phase = .open_ := (recordFailure_open hopen s.wall).1
  have hearly : ¬ (s.step .fail).breaker.Recovers (s.step .fail).wall :=
    not_recovers_within s.breaker (Int.le_add_of_nonneg_right (Int.natCast_nonneg _))
  rw [← step_config s .fail] at hword
  exact ⟨_, admitBulk_refuses hword hstill hearly⟩

theorem exactCount_failures (s : Watched) (n : Nat) : s.exactCount (List.replicate n .fail) = n := by
  induction n with
  | zero => rfl
  | succ n ih => rw [List.replicate_succ', exactCount_snoc, recount_of_fails rfl, ih]

/-- **The failure number `2 ^ 32` takes all the others with it.** A circuit that opens at the first failure
counts failures up to the largest number of its word. One more leaves none, where the exact count is
`2 ^ 32`; the circuit is open, and its refusal tells of no failure. -/
theorem failure_count_starts_over :
    let config : BreakerConfig := { failureThreshold := 1 }
    let start : Watched := { breaker := .fresh config none, wall := ⟨0, by decide⟩ }
    let full : List Event := List.replicate (UInt32.size - 1) .fail
    let s := start.run (full ++ [.fail])
    (∀ before, before <+: full → start.exactCount before < UInt32.size) ∧
      (start.run full).breaker.failures.toNat = UInt32.size - 1 ∧
      start.exactCount (full ++ [.fail]) = UInt32.size ∧ s.breaker.failures.toNat = 0 ∧
      ∃ seconds, s.breaker.admitBulk s.wall = .ok (.error (.circuitOpen 0 seconds), s.breaker) := by
  intro config start full s
  have hall : full = List.replicate (UInt32.size - 1) .fail := rfl
  have hlast : s = (start.run full).step .fail := run_snoc start full .fail
  clear_value s full
  obtain ⟨hexact, hraised, hroom, _⟩ :=
    failure_count_exact_up_to_its_word config none ⟨0, by decide⟩ full
  have hfits : ∀ before, before <+: full → start.exactCount before < UInt32.size := by
    intro before hbefore
    rw [hall] at hbefore
    obtain ⟨hlength, hsame⟩ := List.prefix_replicate_iff.mp hbefore
    rw [hsame, exactCount_failures]
    exact Nat.lt_of_le_of_lt hlength (by decide)
  have hcount : (start.run full).breaker.failures.toNat = UInt32.size - 1 := by
    rw [hexact.mpr hfits full (List.prefix_refl full), hall, exactCount_failures]
  have hnone : s.breaker.failures.toNat = 0 := by
    rw [hlast, hraised .fail rfl, hcount, if_pos (by decide)]
  -- The word is full, so the circuit is not closed.
  have hopen : (start.run full).breaker.phase = .open_ := by
    cases hphase : (start.run full).breaker.phase with
    | open_ => rfl
    | closed =>
      have hless := hroom (by decide) (by decide) hphase
      rw [hcount] at hless
      exact absurd hless (by decide)
  have hword : (start.run full).breaker.config.recoveryTimeout < maxWord := by
    rw [run_config]
    decide
  obtain ⟨seconds, hrefused⟩ := refused_after_failure hopen hword
  rw [← hlast, hnone] at hrefused
  refine ⟨hfits, hcount, ?_, hnone, seconds, hrefused⟩
  rw [exactCount_snoc, recount_of_fails rfl, hall, exactCount_failures]
  decide

end Watched
end Breaker
end OrderAdmission
