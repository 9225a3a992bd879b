import OrderAdmission.Proofs.FirstBatch
import OrderAdmission.Proofs.RetryHint

/-!
# Recovery timeouts that fill their word

An open circuit needs a quiet time of one millisecond more than its recovery timeout, and that sum is
taken in the word that holds the timeout. Every other number of the breaker is clamped or rounded and
fits: the time since the last failure, the rest of the quiet time and the seconds that a refusal
suggests.

**So there is one timeout at which the breaker breaks off, the largest that a word holds**, and no setting
is refused for being that large. Whether it comes to that is a matter of one event: the circuit is open and
the breaker is asked (`breaksOff_iff`). Since every question breaks off before the circuit could close,
such a circuit stays open until it is closed by hand.
-/
namespace OrderAdmission
namespace Breaker

/-! ### Every number of a question -/

/-- A clock that has been set as far as it goes is still within half a word of any other. -/
theorem quietTime_le (b : Breaker) (wall : Int) : b.quietTime wall ≤ maxWord := by
  have hsigned : maxSigned ≤ maxWord := by decide
  have hclamped : saturateSigned (wall - b.lastFailure) ≤ maxSigned := by
    simp only [saturateSigned, minSigned, maxSigned]
    omega
  unfold quietTime
  omega

theorem remaining_overflow_iff {b : Breaker} (hword : b.config.recoveryTimeout ≤ maxWord) (wall : Int) :
    b.remaining wall = .error .overflow ↔
      b.phase = .open_ ∧ b.config.recoveryTimeout = maxWord := by
  cases hphase : b.phase with
  | closed => simp [remaining, hphase]
  | open_ =>
    by_cases hless : b.config.recoveryTimeout < maxWord
    · rw [remaining_open hphase hless]
      simp [Nat.ne_of_lt hless]
    · refine iff_of_true ?_ ⟨rfl, Nat.le_antisymm hword (Nat.not_lt.mp hless)⟩
      simp only [remaining, hphase, checkedWord, bind, Except.bind]
      rw [if_neg (by omega)]

theorem rest_le {b : Breaker} (hword : b.config.recoveryTimeout ≤ maxWord) {wall : Int} {rest : Nat}
    (h : b.remaining wall = .ok rest) : rest ≤ maxWord := by
  rcases Nat.lt_or_eq_of_le hword with hless | hfull
  · obtain ⟨rest', hrest', hle⟩ := remaining_le hless wall
    obtain rfl := Except.ok.inj (h.symm.trans hrest')
    omega
  · cases hphase : b.phase with
    | closed =>
      simp only [remaining, hphase, Except.ok.injEq] at h
      omega
    | open_ =>
      rw [(remaining_overflow_iff hword wall).mpr ⟨hphase, hfull⟩] at h
      cases h

theorem hintSeconds_le {ms timeout : Nat} (h : ms ≤ timeout + 1) :
    hintSeconds ms ≤ 1 + timeout / 1000 := by
  unfold hintSeconds
  omega

/-- A refusal suggests at least a second, and at most what the recovery timeout comes to. -/
theorem retryAfter_of_refusal {b b' : Breaker} {wall : Int} {error : GateError}
    (h : b.admitBulk wall = .ok (.error error, b')) :
    ∃ seconds, error.retryAfter = some seconds ∧ 1 ≤ seconds ∧
      seconds ≤ 1 + b.config.recoveryTimeout / 1000 := by
  cases admitBulk_refusal h with
  | circuit _ _ _ => exact ⟨_, rfl, one_le_hintSeconds _, hintSeconds_le (Nat.sub_le _ _)⟩
  | pool _ _ => exact ⟨_, rfl, one_le_hintSeconds _, hintSeconds_le (Nat.le_succ _)⟩

/-! ### Questions that break off -/

theorem allow_isOk_iff (b : Breaker) (wall : Int) :
    (b.allow wall).isOk = true ↔ b.phase = .closed ∨ b.config.recoveryTimeout < maxWord := by
  cases hphase : b.phase with
  | closed =>
    rw [allow_closed hphase]
    exact iff_of_true rfl (.inl rfl)
  | open_ =>
    by_cases hword : b.config.recoveryTimeout < maxWord
    · refine iff_of_true ?_ (.inr hword)
      by_cases hrecovers : b.Recovers wall
      · rw [allow_recovers hword hrecovers]
        rfl
      · rw [allow_refuses hword hphase hrecovers]
        rfl
    · rw [allow_overflow hphase hword]
      exact iff_of_false Bool.false_ne_true (by simp [hword])

theorem admitBulk_isOk_iff (b : Breaker) (wall : Int) :
    (b.admitBulk wall).isOk = true ↔ b.phase = .closed ∨ b.config.recoveryTimeout < maxWord := by
  cases hphase : b.phase with
  | closed =>
    rw [admitBulk_closed hphase]
    refine iff_of_true ?_ (.inl rfl)
    split <;> rfl
  | open_ =>
    by_cases hword : b.config.recoveryTimeout < maxWord
    · refine iff_of_true ?_ (.inr hword)
      by_cases hrecovers : b.Recovers wall
      · rw [admitBulk_recovers hword hrecovers]
        rfl
      · rw [admitBulk_refuses hword hphase hrecovers]
        rfl
    · rw [admitBulk_overflow hphase hword]
      exact iff_of_false Bool.false_ne_true (by simp [hword])

namespace Watched

def breaksOff (s : Watched) : Event → Bool
  | .allow => !(s.breaker.allow s.wall).isOk
  | .admission => !(s.breaker.admitBulk s.wall).isOk
  | _ => false

/-- What makes an event break off: it is a question, the circuit is open, and the recovery timeout is
the largest there is. -/
theorem breaksOff_iff {s : Watched} (hword : s.breaker.config.recoveryTimeout ≤ maxWord)
    (event : Event) :
    s.breaksOff event = true ↔
      event.asks = true ∧ s.breaker.phase = .open_ ∧ s.breaker.config.recoveryTimeout = maxWord := by
  have hfails : ¬ (s.breaker.phase = .closed ∨ s.breaker.config.recoveryTimeout < maxWord) ↔
      s.breaker.phase = .open_ ∧ s.breaker.config.recoveryTimeout = maxWord := by
    have hfull : ¬ s.breaker.config.recoveryTimeout < maxWord ↔
        s.breaker.config.recoveryTimeout = maxWord := by omega
    rw [not_or, hfull]
    cases s.breaker.phase <;> simp
  cases event with
  | allow =>
    rw [breaksOff, Bool.not_eq_true', ← Bool.not_eq_true, allow_isOk_iff, hfails]
    simp [Event.asks]
  | admission =>
    rw [breaksOff, Bool.not_eq_true', ← Bool.not_eq_true, admitBulk_isOk_iff, hfails]
    simp [Event.asks]
  | fail | succeed | forceClose | watch pool | clock wall => simp [breaksOff, Event.asks]

/-! ### A circuit that nobody can ask -/

theorem step_open_of_full {s : Watched} (hopen : s.breaker.phase = .open_)
    (hfull : s.breaker.config.recoveryTimeout = maxWord) {event : Event}
    (hforced : event ≠ .forceClose) : (s.step event).breaker.phase = .open_ := by
  have hword : ¬ s.breaker.config.recoveryTimeout < maxWord := by omega
  cases event with
  | fail => exact (recordFailure_open hopen s.wall).1
  | succeed => exact (recordSuccess_phase s.breaker).trans hopen
  | allow => rw [step, allow_overflow hopen hword]; exact hopen
  | admission => rw [step, admitBulk_overflow hopen hword]; exact hopen
  | forceClose => exact absurd rfl hforced
  | watch pool | clock wall => exact hopen

theorem run_open_of_full {s : Watched} (hopen : s.breaker.phase = .open_)
    (hfull : s.breaker.config.recoveryTimeout = maxWord) {events : List Event}
    (hforced : ∀ event ∈ events, event ≠ .forceClose) : (s.run events).breaker.phase = .open_ := by
  induction events using List.reverseRecOn with
  | nil => exact hopen
  | append_singleton events event ih =>
    rw [List.forall_mem_append, List.forall_mem_singleton] at hforced
    rw [run_snoc]
    exact step_open_of_full (ih hforced.1) (by rw [run_config]; exact hfull) hforced.2

theorem run_failures {config : BreakerConfig} (pool : Option PoolHealth) (wall : Date) {n : Nat}
    (hbelow : n < config.failureThreshold) (hsize : config.failureThreshold < UInt32.size) :
    let s := Watched.run { breaker := .fresh config pool, wall } (List.replicate n .fail)
    s.breaker.phase = .closed ∧ s.breaker.failures.toNat = n := by
  induction n with
  | zero => exact ⟨rfl, rfl⟩
  | succ n ih =>
    obtain ⟨hclosed, hcount⟩ := ih (by omega)
    intro s
    have hs : s = _ := (congrArg _ List.replicate_succ').trans (run_snoc _ _ _)
    rw [hs]
    set t := Watched.run { breaker := .fresh config pool, wall } (List.replicate n .fail)
    have hconfig : t.breaker.config = config := run_config _ _
    have hsucc : (t.breaker.recordFailure t.wall).failures.toNat = n + 1 := by
      rw [toNat_recordFailure, hcount]
      exact Nat.mod_eq_of_lt (by omega)
    refine ⟨?_, hsucc⟩
    rcases recordFailure_closed hclosed (by rw [hconfig]; omega) t.wall with ⟨-, -, h⟩ | ⟨h, -, -⟩
    · rw [hconfig] at h
      omega
    · exact h

theorem run_opens {config : BreakerConfig} (pool : Option PoolHealth) (wall : Date)
    (hpos : config.failureThreshold ≠ 0) (hsize : config.failureThreshold < UInt32.size) :
    (Watched.run { breaker := .fresh config pool, wall }
      (List.replicate config.failureThreshold .fail)).breaker.phase = .open_ := by
  obtain ⟨n, hn⟩ := Nat.exists_eq_succ_of_ne_zero hpos
  obtain ⟨hclosed, hcount⟩ := run_failures pool wall (n := n) (by omega) hsize
  rw [hn, List.replicate_succ', run_snoc]
  set t := Watched.run { breaker := .fresh config pool, wall } (List.replicate n .fail)
  have hconfig : t.breaker.config = config := run_config _ _
  have hraised : t.breaker.config.failureThreshold ≤ raisedCount t.breaker.failures := by
    rw [hconfig, raisedCount, hcount]
    omega
  simp [step, recordFailure, hraised, hclosed]

/-- **One timeout breaks off, the largest.** Let settings be accepted. A history of a breaker with these
settings, whatever it is told and asked and however its pool and the clock move, comes to an event that
breaks off if and only if the recovery timeout is the largest that its word holds. At every point of a
history: an event breaks off exactly if it is a question, the circuit is open and the timeout is that one,
and the rest of the quiet time cannot be told under the same conditions. The time since the last failure
fits its word, so does every rest that can be told, and a refusal suggests at least a second and at most
one more than the whole seconds of the timeout. With the largest timeout an open circuit stays open
whatever happens, until it is closed by hand. -/
theorem breaks_off_only_at_largest_timeout (c : AppConfig) (hvalid : c.isValid = true)
    (hword : c.breaker.recoveryTimeout ≤ maxWord)
    (hsize : c.breaker.failureThreshold < UInt32.size) (pool : Option PoolHealth) (wall : Date) :
    let start : Watched := { breaker := .fresh c.breaker pool, wall }
    ((∃ events event, (start.run events).breaksOff event = true) ↔
        c.breaker.recoveryTimeout = maxWord) ∧
      ∀ events, let s := start.run events
        let unanswerable := s.breaker.phase = .open_ ∧ c.breaker.recoveryTimeout = maxWord
        (∀ event, s.breaksOff event = true ↔ event.asks = true ∧ unanswerable) ∧
        (s.breaker.remaining s.wall = .error .overflow ↔ unanswerable) ∧
        s.breaker.quietTime s.wall ≤ maxWord ∧
        (∀ rest, s.breaker.remaining s.wall = .ok rest → rest ≤ maxWord) ∧
        (∀ error b, s.breaker.admitBulk s.wall = .ok (.error error, b) →
          ∃ seconds, error.retryAfter = some seconds ∧ 1 ≤ seconds ∧
            seconds ≤ 1 + c.breaker.recoveryTimeout / 1000) ∧
        (unanswerable → ∀ later, (∀ event ∈ later, event ≠ .forceClose) →
          (s.run later).breaker.phase = .open_) := by
  intro start
  have hconfig : ∀ events, (start.run events).breaker.config = c.breaker := start.run_config
  have hword' : ∀ events, (start.run events).breaker.config.recoveryTimeout ≤ maxWord := by
    intro events
    rw [hconfig]
    exact hword
  have hbreaks : ∀ events event, (start.run events).breaksOff event = true ↔ event.asks = true ∧
      (start.run events).breaker.phase = .open_ ∧ c.breaker.recoveryTimeout = maxWord := by
    intro events event
    rw [breaksOff_iff (hword' events), hconfig]
  refine ⟨⟨?_, ?_⟩, fun events => ⟨hbreaks events, ?_, ?_, ?_, ?_, ?_⟩⟩
  · rintro ⟨events, event, h⟩
    exact ((hbreaks events event).mp h).2.2
  · intro hfull
    have hpos := (AppConfig.isValid_iff.mp hvalid).failures
    exact ⟨_, .allow, (hbreaks _ _).mpr ⟨rfl, run_opens pool wall hpos hsize, hfull⟩⟩
  · rw [remaining_overflow_iff (hword' events), hconfig]
  · exact quietTime_le _ _
  · exact fun rest hrest => rest_le (hword' events) hrest
  · intro error b hrefused
    rw [← hconfig events]
    exact retryAfter_of_refusal hrefused
  · rintro ⟨hopen, hfull⟩ later hforced
    exact run_open_of_full hopen ((congrArg _ (hconfig events)).trans hfull) hforced

theorem largest_timeout_breaks_off :
    let c : AppConfig := { breaker := { failureThreshold := 1, recoveryTimeout := maxWord } }
    let start : Watched := { breaker := .fresh c.breaker none, wall := ⟨0, by decide⟩ }
    let later : List Event := [.clock ⟨Order.lastDate, by decide⟩, .succeed, .allow]
    c.isValid = true ∧ start.breaksOff .allow = false ∧ (start.run [.fail]).breaksOff .allow = true ∧
      ((start.run [.fail]).run later).breaker.phase = .open_ := by
  intro c start later
  have hvalid : c.isValid = true := by decide +kernel
  obtain ⟨_, hruns⟩ := breaks_off_only_at_largest_timeout c hvalid (Nat.le_refl maxWord) (by decide)
    none ⟨0, by decide⟩
  obtain ⟨hbreaks, _, _, _, _, hstays⟩ := hruns [.fail]
  refine ⟨hvalid, rfl, (hbreaks .allow).mpr ⟨rfl, rfl, rfl⟩, hstays ⟨rfl, rfl⟩ later ?_⟩
  intro event hevent
  simp only [later, List.mem_cons, List.not_mem_nil, or_false] at hevent
  rcases hevent with rfl | rfl | rfl <;> exact nofun

end Watched
end Breaker
end OrderAdmission
