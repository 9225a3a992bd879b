import OrderAdmission.Proofs.Circuit

/-!
# The wait that an open circuit suggests

A refusal in front of an open circuit carries a number of seconds. The circuit recovers one
millisecond after its recovery timeout, so the rest of the quiet time is counted with that
millisecond; the seconds are the rest rounded up, and at least one.

**The wait is enough and not a second too long.** As long as no failure is recorded the breaker keeps
its memory of the last one, whatever else happens to it (`run_lastFailure`), and the rest shrinks with
the clock. The two inequalities of rounding up, `le_hintSeconds` and `lt_of_lt_hintSeconds`, are then
all that is needed.
-/
namespace OrderAdmission
namespace Breaker

/-! ### Rounding up -/

theorem one_le_hintSeconds (ms : Nat) : 1 ≤ hintSeconds ms := Nat.le_max_left _ _

theorem le_hintSeconds (ms : Nat) : ms ≤ 1000 * hintSeconds ms := by
  unfold hintSeconds
  omega

/-- Fewer seconds than suggested, but at least one, are less than the time they stand for. -/
theorem lt_of_lt_hintSeconds {seconds ms : Nat} (hpos : 1 ≤ seconds)
    (h : seconds < hintSeconds ms) : 1000 * seconds < ms := by
  unfold hintSeconds at h
  omega

/-! ### The rest of the quiet time -/

/-- The rest of the quiet time can be told on every clock, and is at most the whole of it. -/
theorem remaining_le {b : Breaker} (hword : b.config.recoveryTimeout < maxWord) (wall : Int) :
    ∃ rest, b.remaining wall = .ok rest ∧ rest ≤ b.config.recoveryTimeout + 1 := by
  cases hphase : b.phase with
  | closed => exact ⟨0, by simp [remaining, hphase], Nat.zero_le _⟩
  | open_ => exact ⟨_, remaining_open hphase hword wall, Nat.sub_le _ _⟩

/-- Once nothing remains, an admission is granted exactly if the pool is healthy. -/
theorem admitBulk_of_remaining_zero {b : Breaker} (hword : b.config.recoveryTimeout < maxWord)
    {wall : Int} (hrest : b.remaining wall = .ok 0) :
    ∃ answer b', b.admitBulk wall = .ok (answer, b') ∧
      (answer = .ok () ↔ b.poolHealthy = true) := by
  cases hphase : b.phase with
  | closed =>
    rw [admitBulk_closed hphase]
    cases b.poolHealthy with
    | true => exact ⟨_, _, rfl, iff_of_true rfl rfl⟩
    | false => exact ⟨_, _, rfl, iff_of_false nofun Bool.false_ne_true⟩
  | open_ =>
    rw [remaining_open hphase hword, Except.ok.injEq] at hrest
    have hquiet : b.config.recoveryTimeout < b.quietTime wall := by omega
    by_cases hhealthy : b.poolHealthy = true
    · exact ⟨_, _, admitBulk_recovers hword ⟨hphase, hquiet, hhealthy⟩, iff_of_true rfl hhealthy⟩
    · have hrefused : ¬ b.Recovers wall := fun h => hhealthy h.2.2
      exact ⟨_, _, admitBulk_refuses hword hphase hrefused, iff_of_false nofun hhealthy⟩

theorem hint_of_refusal {b b' : Breaker} {wall : Int} {count seconds : Nat}
    (h : b.admitBulk wall = .ok (.error (.circuitOpen count seconds), b')) :
    b' = b ∧ seconds = hintSeconds (b.config.recoveryTimeout + 1 - b.quietTime wall) := by
  cases admitBulk_refusal h with
  | circuit _ _ _ => exact ⟨rfl, rfl⟩

namespace Watched

theorem memory_of_calm {s : Watched} {events : List Event} (hcalm : s.lastFailure? events = none) :
    (s.run events).breaker.lastFailure = s.breaker.lastFailure := by
  rw [run_lastFailure, hcalm]
  rfl

theorem memory_of_mem_steps {s : Watched} {events : List Event}
    (hcalm : s.lastFailure? events = none) {t : Watched × Event} (ht : t ∈ s.steps events) :
    t.1.breaker.config = s.breaker.config ∧ t.1.breaker.lastFailure = s.breaker.lastFailure := by
  induction events using List.reverseRecOn with
  | nil => cases ht
  | append_singleton events event ih =>
    have hbefore : s.lastFailure? events = none := by
      rw [lastFailure?_snoc] at hcalm
      split at hcalm
      · cases hcalm
      · exact hcalm
    rw [steps_snoc] at ht
    rcases List.mem_append.mp ht with hearlier | hlast
    · exact ih hbefore hearlier
    · obtain rfl := List.mem_singleton.mp hlast
      exact ⟨s.run_config events, memory_of_calm hbefore⟩

/-- **The suggested wait.** Let an open circuit refuse an admission on a clock that is not behind the
last failure, and suggest a wait of so many seconds. It is at least one, and the refusal changes
nothing. Whatever happens afterwards, if no failure is recorded and the clock has advanced by the
suggested wait, nothing of the quiet time remains and the pool alone decides about an admission. If
at least two seconds are suggested and the clock has advanced by one second less, with nobody closing
the circuit by hand, some of the quiet time still remains. At no time does more remain than the
recovery timeout and a millisecond. -/
theorem suggested_wait_is_enough_and_tight (s : Watched) (last : Date)
    (hopen : s.breaker.phase = .open_) (hword : s.breaker.config.recoveryTimeout < maxWord)
    (hlast : s.breaker.lastFailure = last.1) (hbehind : last.1 ≤ s.wall.1)
    (count seconds : Nat) (b : Breaker)
    (hrefused : s.breaker.admitBulk s.wall = .ok (.error (.circuitOpen count seconds), b)) :
    1 ≤ seconds ∧ b = s.breaker ∧
      (∀ events, s.lastFailure? events = none →
        let t := s.run events
        s.wall.1 + 1000 * seconds ≤ t.wall.1 →
          t.breaker.remaining t.wall = .ok 0 ∧
          ∃ answer b', t.breaker.admitBulk t.wall = .ok (answer, b') ∧
            (answer = .ok () ↔ t.breaker.poolHealthy = true)) ∧
      (2 ≤ seconds → ∀ events, s.lastFailure? events = none →
        let soon (wall : Date) := wall.1 ≤ s.wall.1 + 1000 * (seconds - 1 : Nat)
        (∀ t ∈ s.steps events, t.2 ≠ .forceClose ∧ soon t.1.wall) →
        let t := s.run events
        soon t.wall → ∃ rest, t.breaker.remaining t.wall = .ok rest ∧ 0 < rest) ∧
      ∀ wall, ∃ rest, s.breaker.remaining wall = .ok rest ∧
        rest ≤ s.breaker.config.recoveryTimeout + 1 := by
  obtain ⟨rfl, hseconds⟩ := hint_of_refusal hrefused
  rw [quietTime_date hlast] at hseconds
  refine ⟨hseconds ▸ one_le_hintSeconds _, rfl, ?_, ?_, remaining_le hword⟩
  · intro events hcalm t hlate
    have hword' : t.breaker.config.recoveryTimeout < maxWord := by
      rw [run_config]
      exact hword
    have hrest : t.breaker.remaining t.wall = .ok 0 := by
      cases hphase : t.breaker.phase with
      | closed => simp [remaining, hphase]
      | open_ =>
        rw [remaining_open hphase hword', quietTime_date ((memory_of_calm hcalm).trans hlast),
          run_config]
        have henough := le_hintSeconds
          (s.breaker.config.recoveryTimeout + 1 - (s.wall.1 - last.1).toNat)
        rw [← hseconds] at henough
        congr 1
        omega
    exact ⟨hrest, admitBulk_of_remaining_zero hword' hrest⟩
  · intro htwo events hcalm soon hsoon t htime
    have hshort : 1000 * (seconds - 1) <
        s.breaker.config.recoveryTimeout + 1 - (s.wall.1 - last.1).toNat :=
      lt_of_lt_hintSeconds (by omega) (by omega)
    -- on a clock that reads so early, the quiet time since that failure is not over
    have hearly : ∀ {b : Breaker} {wall : Date}, b.config = s.breaker.config →
        b.lastFailure = s.breaker.lastFailure → soon wall →
        b.quietTime wall.1 < b.config.recoveryTimeout + 1 := by
      intro b wall hconfig hmemory hwall
      rw [quietTime_date (hmemory.trans hlast), hconfig]
      simp only [soon] at hwall
      omega
    have hstays : t.breaker.phase = .open_ := by
      apply run_open hopen hword
      intro u hu
      obtain ⟨hconfig, hmemory⟩ := memory_of_mem_steps hcalm hu
      refine ⟨(hsoon u hu).1, fun _ hrecovers => ?_⟩
      have hquiet := hearly hconfig hmemory (hsoon u hu).2
      have hover := hrecovers.2.1
      omega
    have hquiet := hearly (s.run_config events) (memory_of_calm hcalm) htime
    refine ⟨_, remaining_open hstays (by rw [run_config]; exact hword) t.wall.1, ?_⟩
    exact Nat.sub_pos_of_lt hquiet

theorem two_seconds_suggested :
    let config : BreakerConfig := { failureThreshold := 1, recoveryTimeout := 1000 }
    let s : Watched := Watched.run { breaker := .fresh config none, wall := ⟨0, by decide⟩ } [.fail]
    let almost : List Event := [.clock ⟨1000, by decide⟩, .succeed, .admission]
    let ended : List Event := almost ++ [.clock ⟨2000, by decide⟩]
    s.breaker.admitBulk s.wall = .ok (.error (.circuitOpen 1 2), s.breaker) ∧
      (∃ rest, (s.run almost).breaker.remaining (s.run almost).wall = .ok rest ∧ 0 < rest) ∧
      (s.run ended).breaker.remaining (s.run ended).wall = .ok 0 := by
  intro config s almost ended
  have hword : s.breaker.config.recoveryTimeout < maxWord := by decide
  have hearly : ¬ s.breaker.Recovers s.wall := fun h => absurd h.2.1 (by decide +kernel)
  have hrest : hintSeconds (s.breaker.config.recoveryTimeout + 1 - s.breaker.quietTime s.wall) = 2 :=
    by decide +kernel
  have hrefused : s.breaker.admitBulk s.wall = .ok (.error (.circuitOpen 1 2), s.breaker) := by
    rw [admitBulk_refuses hword rfl hearly, hrest]
    rfl
  obtain ⟨_, _, henough, htight, _⟩ := suggested_wait_is_enough_and_tight s ⟨0, by decide⟩ rfl
    hword rfl (Int.le_refl _) 1 2 s.breaker hrefused
  refine ⟨hrefused, htight (Nat.le_refl 2) almost (by decide +kernel) ?_ (by decide +kernel),
    (henough ended (by decide +kernel) (by decide +kernel)).1⟩
  intro t ht
  simp only [almost, steps, List.mem_cons, List.not_mem_nil, or_false] at ht
  rcases ht with rfl | rfl | rfl
  · exact ⟨Event.noConfusion, by decide +kernel⟩
  · exact ⟨Event.noConfusion, by decide +kernel⟩
  · exact ⟨Event.noConfusion, by decide +kernel⟩

end Watched
end Breaker
end OrderAdmission
