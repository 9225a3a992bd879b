import OrderAdmission.Overload

/-!
# What an overload detector counts

A detector is asked again and again while its probes say something else from time to time. Of all that,
its streak keeps one number: how many of the last checks in a row have seen a breach. The streak is a
word, so that it keeps this number only up to multiples of `2 ^ 32`; `streak_after` is this invariant.

A check declares overload if it sees a breach and the streak, raised by one, has the height that the
settings ask. **As long as fewer than `2 ^ 32` breaching checks in a row lie behind it, or one is asked
for, a check says exactly whether it and the checks right before it have all seen a breach.** Behind more
of them the streak begins anew, and in the middle of an overload a check finds none.
-/
namespace OrderAdmission

/-- The number of entries in a row, from the latest on, that are true. -/
def Detector.recent (past : List Bool) : Nat := (past.takeWhile id).length

theorem Detector.take_eq_replicate_iff (n : Nat) (past : List Bool) :
    past.take n = List.replicate n true ↔ n ≤ recent past := by
  induction past generalizing n with
  | nil =>
    cases n with
    | zero => simp
    | succ n => simp [recent, List.replicate_succ]
  | cons saw past ih =>
    cases n with
    | zero => simp
    | succ n =>
      cases saw with
      | true => simpa [recent, List.replicate_succ] using ih n
      | false => simp [recent, List.replicate_succ]

/-- Whether the probes show a breach under these settings. -/
def OverloadConfig.seesBreach (c : OverloadConfig) (probes : Probes) : Bool :=
  !(c.breaches probes.snapshot).isEmpty

namespace Detector

/-! ### One check -/

section
variable (d : Detector) (probes : Probes)

@[simp] theorem check_config (s : Snapshot) : (d.check s).2.config = d.config := by
  unfold check
  split
  · rfl
  · split <;> rfl

theorem check_overloaded_iff : (d.check probes.snapshot).1.overloaded = true ↔
    d.config.seesBreach probes = true ∧ d.config.required ≤ d.raisedStreak := by
  simp only [check, OverloadConfig.seesBreach]
  cases (d.config.breaches probes.snapshot).isEmpty with
  | true => simp [OverloadState.healthy]
  | false =>
    by_cases hshort : d.raisedStreak < d.config.required
    · simp [hshort, OverloadState.healthy]
    · simp [hshort, Nat.le_of_not_lt hshort]

theorem check_streak : (d.check probes.snapshot).2.streak =
    if d.config.seesBreach probes then d.streak + 1 else 0 := by
  unfold check OverloadConfig.seesBreach
  cases (d.config.breaches probes.snapshot).isEmpty with
  | true => simp
  | false =>
    by_cases hshort : d.raisedStreak < d.config.required
    · simp [hshort]
    · simp [hshort]

/-- Raising the streak without wrapping decides like the streak and one, for settings in a word. -/
theorem required_le_raisedStreak_iff {d : Detector} (hword : d.config.required < UInt32.size) :
    d.config.required ≤ d.raisedStreak ↔ d.config.required ≤ d.streak.toNat + 1 := by
  unfold raisedStreak
  omega

end

/-! ### Runs -/

/-- What can happen to a detector. -/
inductive Event where
  /-- The probes say something else from now on. -/
  | watch (probes : Probes)
  | check

/-- A detector and what its probes say. -/
structure Watched where
  detector : Detector
  probes : Probes

namespace Watched

def fresh (c : OverloadConfig) (probes : Probes) : Watched := { detector := .fresh c, probes }

def step (s : Watched) : Event → Watched
  | .watch probes => { s with probes }
  | .check => { s with detector := (s.detector.check s.probes.snapshot).2 }

def after (s : Watched) : List Event → Watched
  | [] => s
  | event :: earlier => (s.after earlier).step event

def seesBreach (s : Watched) : Bool := s.detector.config.seesBreach s.probes

def overloads (s : Watched) : Bool := (s.detector.check s.probes.snapshot).1.overloaded

/-- Which of the checks among some events have seen a breach, the latest first. -/
def seen (s : Watched) : List Event → List Bool
  | [] => []
  | .watch _ :: earlier => s.seen earlier
  | .check :: earlier => (s.after earlier).seesBreach :: s.seen earlier

@[simp] theorem step_config (s : Watched) (event : Event) :
    (s.step event).detector.config = s.detector.config := by
  cases event with
  | watch probes => rfl
  | check => exact s.detector.check_config _

@[simp] theorem after_config (s : Watched) (events : List Event) :
    (s.after events).detector.config = s.detector.config := by
  induction events with
  | nil => rfl
  | cons event earlier ih => rw [after, step_config, ih]

/-- **The streak is the number of the last checks in a row that have seen a breach**, as far as a word
can tell. -/
theorem streak_after (c : OverloadConfig) (probes : Probes) (events : List Event) :
    (((fresh c probes).after events).detector.streak).toNat =
      recent ((fresh c probes).seen events) % UInt32.size := by
  induction events with
  | nil => rfl
  | cons event earlier ih =>
    cases event with
    | watch => exact ih
    | check =>
      simp only [after, step, seen]
      rw [check_streak]
      cases hsaw : ((fresh c probes).after earlier).seesBreach with
      | false =>
        unfold seesBreach at hsaw
        rw [hsaw]
        rfl
      | true =>
        -- The word and the number grow by one together.
        have hadd := UInt32.toNat_add ((fresh c probes).after earlier).detector.streak 1
        unfold seesBreach at hsaw
        rw [hsaw, if_pos rfl, hadd, ih]
        simp only [recent, List.takeWhile_cons, id_eq, if_true, List.length_cons]
        exact Nat.mod_add_mod _ _ _

/-- **What a check says after any run.** It declares overload if it sees a breach and the breaching checks
in a row right before it, counted in a word, are one less than required or more. -/
theorem overloads_iff {c : OverloadConfig} (hword : c.consecutiveDetections < UInt32.size)
    (probes : Probes) (events : List Event) :
    ((fresh c probes).after events).overloads = true ↔
      ((fresh c probes).after events).seesBreach = true ∧
        c.required ≤ recent ((fresh c probes).seen events) % UInt32.size + 1 := by
  have hconfig : ((fresh c probes).after events).detector.config = c := after_config _ _
  have hrequired : c.required < UInt32.size := by
    have hsize : UInt32.size = 4294967296 := rfl
    unfold OverloadConfig.required
    omega
  have hraised := required_le_raisedStreak_iff (d := ((fresh c probes).after events).detector)
    (by rw [hconfig]; exact hrequired)
  rw [streak_after, hconfig] at hraised
  unfold overloads seesBreach
  rw [check_overloaded_iff, hconfig, hraised]

/-- **The debounce counts exactly, up to the length of its word.** After any run, a check declares overload
exactly if it and the checks right before it, as many as are required together, have all seen a breach;
this holds whenever the streak of breaching checks before it fits the word, and always if one is
required. Behind a longer streak it counts what is left of it modulo `2 ^ 32`. -/
theorem debounce_counts {c : OverloadConfig} (hword : c.consecutiveDetections < UInt32.size)
    (probes : Probes) (events : List Event) :
    (recent ((fresh c probes).seen events) < UInt32.size ∨ c.required = 1 →
      (((fresh c probes).after events).overloads = true ↔
        ((fresh c probes).seen (.check :: events)).take c.required =
          List.replicate c.required true)) ∧
    (((fresh c probes).after events).overloads = true ↔
      ((fresh c probes).after events).seesBreach = true ∧
        c.required ≤ recent ((fresh c probes).seen events) % UInt32.size + 1) := by
  refine ⟨?_, overloads_iff hword probes events⟩
  intro hfits
  have hpositive : 1 ≤ c.required := Nat.le_max_left 1 _
  rw [overloads_iff hword, take_eq_replicate_iff, seen]
  cases ((fresh c probes).after events).seesBreach with
  | false =>
    have hnone : recent (false :: (fresh c probes).seen events) = 0 := rfl
    simp only [Bool.false_eq_true, false_and, false_iff]
    omega
  | true =>
    have hone : recent (true :: (fresh c probes).seen events) =
        recent ((fresh c probes).seen events) + 1 := by
      simp [recent]
    rw [hone]
    simp only [true_and]
    rcases hfits with hfits | hsingle
    · rw [Nat.mod_eq_of_lt hfits]
    · omega

theorem seen_checks (s : Watched) (n : Nat) :
    (s.after (List.replicate n .check)).seesBreach = s.seesBreach ∧
      s.seen (List.replicate n .check) = List.replicate n s.seesBreach := by
  have hsame (n : Nat) : (s.after (List.replicate n .check)).seesBreach = s.seesBreach := by
    have hprobes : (s.after (List.replicate n .check)).probes = s.probes := by
      induction n with
      | zero => rfl
      | succ n ih => exact ih
    unfold seesBreach
    rw [after_config, hprobes]
  refine ⟨hsame n, ?_⟩
  induction n with
  | zero => rfl
  | succ n ih => rw [List.replicate_succ, seen, hsame, ih, ← List.replicate_succ]

/-- A probe that reads full use. -/
def exhausted : Probes
  | .threadPool => some (.ok 1.0)
  | _ => none

/-- **After `2 ^ 32` breaching checks in a row, a detector that asks for two finds no overload.** After
one it does. But then the streak wraps around to nothing, although this check and all checks before it
see a breach. -/
theorem long_streak_forgotten :
    let c : OverloadConfig := { consecutiveDetections := 2 }
    let events : List Event := List.replicate UInt32.size .check
    c.consecutiveDetections < UInt32.size ∧
      ((fresh c exhausted).after [.check]).overloads = true ∧
      ((fresh c exhausted).after events).seesBreach = true ∧
      (fresh c exhausted).seen events = List.replicate UInt32.size true ∧
      ((fresh c exhausted).after events).overloads = false := by
  intro c events
  have hword : c.consecutiveDetections < UInt32.size := by decide
  have hbreach : (fresh c exhausted).seesBreach = true := by decide +kernel
  have hlong := seen_checks (fresh c exhausted) UInt32.size
  rw [hbreach] at hlong
  refine ⟨hword, ?_, hlong.1, hlong.2, ?_⟩
  · have hone : (fresh c exhausted).seen [.check] = [true] := by
      rw [seen, after, hbreach, seen]
    have htwo : (fresh c exhausted).seen [.check, .check] = [true, true] := by
      have hnow : ((fresh c exhausted).after [.check]).seesBreach = true :=
        (seen_checks _ 1).1.trans hbreach
      rw [seen, hnow, hone]
    have hshort : recent ((fresh c exhausted).seen [.check]) < UInt32.size := by
      rw [hone]
      decide
    refine ((debounce_counts hword exhausted [.check]).1 (.inl hshort)).mpr ?_
    rw [htwo]
    rfl
  · have hrecent : recent (List.replicate UInt32.size true) = UInt32.size := by
      simp [recent]
    have hcounted := (debounce_counts hword exhausted events).2
    rw [hlong.2, hrecent, Nat.mod_self] at hcounted
    exact eq_false_of_ne_true fun h => absurd (hcounted.mp h).2 (by decide)

end Watched

end Detector

end OrderAdmission
