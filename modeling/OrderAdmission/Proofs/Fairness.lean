import OrderAdmission.Proofs.Admission
import OrderAdmission.Proofs.CallTimes
import OrderAdmission.Proofs.Permits

/-!
# First come, first served

Parties come to a limiter at any times, keep their permits for any times, and give up when they have
waited long enough. What one move does to the limiter is a chain of passes of single parties
(`Move.passes`), so that two facts need to be shown of one pass only: that nobody is left in the queue
beside a free permit, and that whoever is queued stays ahead of everybody who comes later. A chain may
contain many passes, since a batch that closes a chunk takes all its tasks off at once.

The deadlines are an invariant of each holder by itself: the clock does not pass the limit of one who
waits. The main result is `served_in_order_and_on_time`: **permits are never more than there are and
never idle, they go to those who wait in the order in which they came, and whoever waits has a permit
or an error within the patience of the limiter**.
-/
namespace OrderAdmission

variable {P R : Type}

namespace Limiter

/-! ### One pass -/

/-- Nobody is left waiting while a permit is free. -/
def Prompt (l : Limiter) : Prop := l.free = 0 ∨ l.queue = []

/-- As long as `a` is queued, it stands in one place, and `b` has neither been granted a permit nor
stands in front of it. -/
def Ahead (a b : Nat) (l : Limiter) : Prop :=
  a ∈ l.queue → b ∉ l.granted ∧
    ∃ front back, l.queue = front ++ a :: back ∧ a ∉ front ∧ a ∉ back ∧ b ∉ front

theorem Prompt.yield {l : Limiter} (h : l.Prompt) : l.yield.Prompt := by
  unfold Limiter.yield
  split
  · rename_i hqueue
    exact Or.inr hqueue
  · rename_i who rest hqueue
    rcases h with hfree | hnobody
    · exact Or.inl hfree
    · rw [hqueue] at hnobody
      cases hnobody

theorem Prompt.withdraw {l : Limiter} (h : l.Prompt) (who : Nat) : (l.withdraw who).Prompt := by
  unfold Limiter.withdraw
  split
  · exact Prompt.yield h
  · rcases h with hfree | hnobody
    · exact Or.inl hfree
    · refine Or.inr ?_
      simp only [hnobody, List.erase_nil]

theorem take?_eq_none {l : Limiter} (h : l.take? = none) : l.free = 0 ∨ l.queue ≠ [] := by
  unfold take? at h
  split at h
  · cases h
  · rename_i hbusy
    by_cases hfree : 0 < l.free
    · exact Or.inr fun hnobody => hbusy ⟨hfree, hnobody⟩
    · exact Or.inl (Nat.eq_zero_of_not_pos hfree)

theorem queue_of_take? {l l' : Limiter} (h : l.take? = some l') : l.queue = [] := by
  unfold take? at h
  split at h
  · rename_i hfree
    exact hfree.2
  · cases h

/-- **No pass leaves anybody waiting while a permit is free.** -/
theorem Prompt.pass {l l' : Limiter} {who : Nat} {s s' : Standing} (hpass : Pass who l s s' l')
    (h : l.Prompt) : l'.Prompt := by
  cases hpass with
  | stays => exact h
  | takes free =>
    have hnobody := queue_of_take? free
    obtain ⟨_, rfl⟩ := take?_eq free
    exact Or.inr hnobody
  | joins full =>
    rcases h with hfree | hnobody
    · exact Or.inl hfree
    · rcases take?_eq_none full with hfree | hsome
      · exact Or.inl hfree
      · exact absurd hnobody hsome
  | claims granted => exact h
  | withdraws => exact h.withdraw who
  | releases => exact Prompt.yield h

section Ahead

variable {a b : Nat} {l : Limiter}

theorem mem_queue_yield (h : a ∈ l.yield.queue) : a ∈ l.queue := by
  unfold yield at h
  split at h
  · exact h
  · rename_i who rest hqueue
    rw [hqueue]
    exact List.mem_cons_of_mem _ h

theorem Ahead.yield (h : Ahead a b l) : Ahead a b l.yield := by
  intro hqueued
  obtain ⟨hgranted, front, back, hqueue, hfront, hback, hbehind⟩ := h (mem_queue_yield hqueued)
  cases front with
  | nil =>
    rw [List.nil_append] at hqueue
    simp only [Limiter.yield, hqueue] at hqueued
    exact absurd hqueued hback
  | cons who front =>
    rw [List.cons_append] at hqueue
    simp only [Limiter.yield, hqueue]
    rw [List.mem_cons, not_or] at hfront hbehind
    refine ⟨?_, front, back, rfl, hfront.2, hback, hbehind.2⟩
    rw [List.mem_cons, not_or]
    exact ⟨hbehind.1, hgranted⟩

theorem Ahead.grantedErase (h : Ahead a b l) (who : Nat) :
    Ahead a b { l with granted := l.granted.erase who } := by
  intro hqueued
  obtain ⟨hgranted, hplace⟩ := h hqueued
  exact ⟨fun hmem => hgranted (List.mem_of_mem_erase hmem), hplace⟩

theorem mem_queue_withdraw {who : Nat} (h : a ∈ (l.withdraw who).queue) : a ∈ l.queue := by
  unfold withdraw at h
  split at h
  · exact mem_queue_yield (l := { l with granted := l.granted.erase who }) h
  · exact List.mem_of_mem_erase h

theorem Ahead.withdraw (h : Ahead a b l) (who : Nat) : Ahead a b (l.withdraw who) := by
  unfold Limiter.withdraw
  split
  · exact (h.grantedErase who).yield
  · intro hqueued
    obtain ⟨hgranted, front, back, hqueue, hfront, hback, hbehind⟩ :=
      h (List.mem_of_mem_erase hqueued)
    refine ⟨hgranted, ?_⟩
    simp only [hqueue] at hqueued ⊢
    by_cases hwho : who ∈ front
    · rw [List.erase_append_left _ hwho]
      exact ⟨_, back, rfl, fun hmem => hfront (List.mem_of_mem_erase hmem), hback,
        fun hmem => hbehind (List.mem_of_mem_erase hmem)⟩
    · rw [List.erase_append_right _ hwho] at hqueued ⊢
      by_cases hself : a = who
      · rw [hself, List.erase_cons_head, ← hself, List.mem_append] at hqueued
        exact absurd hqueued (not_or.mpr ⟨hfront, hback⟩)
      · rw [List.erase_cons_tail (by simpa using hself)]
        exact ⟨front, _, rfl, hfront, fun hmem => hback (List.mem_of_mem_erase hmem), hbehind⟩

/-- **Whoever is queued stays ahead of all who come later**, until it has left the queue for good. -/
theorem Ahead.pass {l' : Limiter} {who : Nat} {s s' : Standing} (hpass : Pass who l s s' l')
    (hnew : s = .idle → s' = .waits → who ≠ a) (h : Ahead a b l) :
    Ahead a b l' ∧ (a ∈ l'.queue → a ∈ l.queue) := by
  cases hpass with
  | stays => exact ⟨h, id⟩
  | takes free =>
    obtain ⟨_, rfl⟩ := take?_eq free
    exact ⟨h, id⟩
  | joins full =>
    have hother : who ≠ a := hnew rfl rfl
    have hmem : a ∈ (l.join who).queue → a ∈ l.queue := by
      intro hqueued
      rcases List.mem_append.mp hqueued with hold | hsame
      · exact hold
      · exact absurd (List.mem_singleton.mp hsame).symm hother
    refine ⟨?_, hmem⟩
    intro hqueued
    obtain ⟨hgranted, front, back, hqueue, hfront, hback, hbehind⟩ := h (hmem hqueued)
    refine ⟨hgranted, front, back ++ [who], ?_, hfront, ?_, hbehind⟩
    · simp only [join, hqueue, List.append_assoc, List.cons_append]
    · rw [List.mem_append, List.mem_singleton, not_or]
      exact ⟨hback, fun hsame => hother hsame.symm⟩
  | claims granted => exact ⟨h.grantedErase who, id⟩
  | withdraws => exact ⟨h.withdraw who, mem_queue_withdraw⟩
  | releases => exact ⟨Ahead.yield h, mem_queue_yield⟩

end Ahead

end Limiter

namespace Engine

/-! ### One move -/

theorem WellFormed.worker_ne_job {e : Engine P R} (hwf : e.WellFormed) {w : Worker P R}
    (hw : w ∈ e.workers) {j : Job P R} (hj : j ∈ e.jobs) : w.number ≠ j.number :=
  (List.nodup_append.mp hwf.distinct).2.2 _ (List.mem_map_of_mem hw) _ (List.mem_map_of_mem hj)

/-- Whether a number may join the queue in the next move: if it is that of a job, the job has yet to
begin. -/
def Newcomer (e : Engine P R) (who : Nat) : Prop :=
  ∀ j ∈ e.jobs, j.number = who → j.stage.isArriving = true

/-- The pass of one party, and only newcomers join the queue. -/
def OnePass (e : Engine P R) (l l' : Limiter) : Prop :=
  ∃ who, ∃ s s' : OrderAdmission.Standing, Pass who l s s' l' ∧ (s = .idle → s' = .waits → e.Newcomer who)

theorem dismissAll_passes (e : Engine P R) (job : Nat) :
    Relation.ReflTransGen e.OnePass e.limiter (e.dismissAll job).limiter := by
  have hfold (ws : List (Worker P R)) (l : Limiter) :
      Relation.ReflTransGen e.OnePass l (ws.foldl dismiss l) := by
    induction ws generalizing l with
    | nil => exact .refl
    | cons w rest ih =>
      refine .head ?_ (ih (dismiss l w))
      exact ⟨w.number, w.phase.standing, .idle, dismiss_pass l w, nofun⟩
  exact hfold (e.workersOf job) e.limiter

theorem JobTurn.passes {e : Engine P R} (hwf : e.WellFormed) {j : Job P R} (hj : j ∈ e.jobs)
    {result : Engine P R × Stage P R} (h : JobTurn e j result) :
    Relation.ReflTransGen e.OnePass e.limiter result.1.limiter := by
  have hsame {l : Limiter} (hl : l = e.limiter) : Relation.ReflTransGen e.OnePass e.limiter l :=
    hl ▸ .refl
  have hone {s s' : OrderAdmission.Standing} {l : Limiter} (hpass : Pass j.number e.limiter s s' l)
      (harriving : s = .idle → s' = .waits → j.stage.isArriving = true) :
      Relation.ReflTransGen e.OnePass e.limiter l := by
    refine .single ⟨j.number, s, s', hpass, ?_⟩
    intro hidle hwaits k hk hnumber
    rw [hwf.job_unique hk hj hnumber]
    exact harriving hidle hwaits
  have hsettled (run : BatchRun P R) :
      Relation.ReflTransGen e.OnePass e.limiter (e.settled j.number run).1.limiter := by
    rw [(settled_floor e j.number run).limiter]
    exact dismissAll_passes e j.number
  cases h with
  | leaves away work h => exact hsame (h.floor.limiter.trans (heard_limiter e j))
  | writes source work h => exact hsame h.floor.limiter
  | opens away floor some valid work => exact hsame (floor.limiter.trans (heard_limiter e j))
  | resumes source => exact hsame rfl
  | collects source found => exact hsame rfl
  | pauses source none some => exact hsettled _
  | reopens source none some => exact hsettled _
  | finishes source none last =>
    rw [(answered_floor _ _ _ _ _).limiter]
    exact hsettled _
  | takes source hold free =>
    rw [(keepPermit_floor _ _).limiter]
    exact hone (Pass.takes free) nofun
  | queues source hold free =>
    refine hone (Pass.joins free) fun _ _ => ?_
    rw [source]
    rfl
  | claims source hold granted =>
    rw [(keepPermit_floor _ _).limiter]
    exact hone (Pass.claims granted) nofun
  | withdraws source hold => exact hone Pass.withdraws nofun
  | releases source hold => exact hone Pass.releases nofun

/-- **What a move does to the limiter is a chain of passes.** -/
theorem Move.passes {e e' : Engine P R} (hmove : Move e e') (hwf : e.WellFormed) :
    Relation.ReflTransGen e.OnePass e.limiter e'.limiter := by
  cases hmove with
  | @worker w member ready =>
    refine .single ⟨w.number, _, _, workerTurn_pass e w, ?_⟩
    intro _ _ j hj hnumber
    exact absurd hnumber.symm (hwf.worker_ne_job member hj)
  | @job j member ready => exact (jobTurn_turn e j (hwf.sound j member) ready).passes hwf member
  | tick quiet due => exact .refl

theorem Course.prompt {e e' : Engine P R} (hcourse : Course e e') (hwf : e.WellFormed)
    (h : e.limiter.Prompt) : e'.limiter.Prompt := by
  refine Course.carries (I := fun e₁ => e₁.limiter.Prompt) ?_ hcourse hwf h
  intro e₁ e₂ hmove hwf₁ hprompt
  have hchain := hmove.passes hwf₁
  generalize e₂.limiter = l at hchain ⊢
  induction hchain with
  | refl => exact hprompt
  | tail _ hlast ih =>
    obtain ⟨who, s, s', hpass, _⟩ := hlast
    exact ih.pass hpass

end Engine

/-! ### Deadlines -/

def Stage.hasPermit : Stage P R → Bool
  | .holding _ _ => true
  | .finished _ (.ok (.ok (.permit _))) => true
  | _ => false

/-- Where a holder that comes at an instant stands when it is on time: it waits no longer than the
patience allows, has its permit by then and keeps it for its stay, or has given up at that very time. -/
inductive Acquires (begin patience now : Nat) (stay : Option Nat) : Stage P R → Prop where
  | arriving (timely : now ≤ begin) : Acquires begin patience now stay (.arriving begin)
  | queued (begun : begin ≤ now) (timely : now ≤ begin + patience) :
      Acquires begin patience now stay (.queued (begin + patience))
  | holding {since length : Nat} (stays : stay = some length) (begun : begin ≤ since)
      (prompt : since ≤ begin + patience) (timely : now ≤ since + length) :
      Acquires begin patience now stay (.holding since (since + length))
  | served {since : Nat} (begun : begin ≤ since) (prompt : since ≤ begin + patience) :
      Acquires begin patience now stay
        (.finished (since + stay.getD 0) (.ok (.ok (.permit since))))
  | givesUp : Acquires begin patience now stay
      (.finished (begin + patience) (.ok (.error (.permitTimeout patience))))

section Acquires

variable {begin patience now : Nat} {stay : Option Nat}

theorem Acquires.keepPermit {e : Engine P R} (hbegun : begin ≤ e.now)
    (hprompt : e.now ≤ begin + patience) :
    Acquires begin patience e.now stay (e.keepPermit stay).2 := by
  cases stay with
  | some length => exact .holding rfl hbegun hprompt (Nat.le_add_right _ _)
  | none => exact .served hbegun hprompt

/-- **A turn of a holder that is on time.** -/
theorem Acquires.jobTurn {e : Engine P R} {j : Job P R} (hassignment : j.assignment = .hold stay)
    (h : Acquires begin e.limiter.patience e.now stay j.stage) (hready : j.isReady e = true) :
    Acquires begin e.limiter.patience e.now stay (e.jobTurn j).2 := by
  obtain ⟨number, a, stage, turn⟩ := j
  obtain rfl : a = .hold stay := hassignment
  cases h with
  | arriving timely =>
    have hnow : begin ≤ e.now := of_decide_eq_true hready
    simp only [Engine.jobTurn, Engine.startJob]
    split
    · rename_i limiter _
      exact Acquires.keepPermit (e := { e with limiter }) hnow
        (Nat.le_trans timely (Nat.le_add_right _ _))
    · obtain rfl : begin = e.now := Nat.le_antisymm hnow timely
      exact .queued (Nat.le_refl _) (Nat.le_add_right _ _)
  | queued begun timely =>
    simp only [Engine.jobTurn]
    by_cases hgrant : e.limiter.hasGrant number = true
    · rw [if_pos hgrant]
      exact Acquires.keepPermit (e := { e with limiter := e.limiter.claim number }) begun timely
    · rw [if_neg hgrant]
      have hover : begin + e.limiter.patience ≤ e.now := by
        simpa [Job.isReady, hgrant] using hready
      have hnow : e.now = begin + e.limiter.patience := Nat.le_antisymm timely hover
      have hgone : Acquires (P := P) (R := R) begin e.limiter.patience e.now stay
          (.finished (begin + e.limiter.patience)
            (.ok (.error (.permitTimeout e.limiter.patience)))) := .givesUp
      rw [← hnow] at hgone
      exact hgone
  | @holding since length stays begun prompt timely =>
    have hover : since + length ≤ e.now := of_decide_eq_true hready
    have hnow : e.now = since + stay.getD 0 := by
      rw [stays]
      exact Nat.le_antisymm timely hover
    have hserved : Acquires (P := P) (R := R) begin e.limiter.patience e.now stay
        (.finished (since + stay.getD 0) (.ok (.ok (.permit since)))) := .served begun prompt
    rw [← hnow] at hserved
    exact hserved
  | served begun prompt => cases hready
  | givesUp => cases hready

/-- Somebody gets a permit only if it has been granted one or nobody is queued. -/
theorem Acquires.hasPermit_jobTurn {e : Engine P R} {j : Job P R}
    (hassignment : j.assignment = .hold stay) (h : Acquires begin patience now stay j.stage)
    (hready : j.isReady e = true) (hpermit : (e.jobTurn j).2.hasPermit = true) :
    j.stage.hasPermit = true ∨ e.limiter.hasGrant j.number = true ∨ e.limiter.queue = [] := by
  obtain ⟨number, a, stage, turn⟩ := j
  obtain rfl : a = .hold stay := hassignment
  cases h with
  | arriving timely =>
    simp only [Engine.jobTurn, Engine.startJob] at hpermit
    split at hpermit
    · rename_i limiter htaken
      exact Or.inr (Or.inr (Limiter.queue_of_take? htaken))
    · cases hpermit
  | queued begun timely =>
    simp only [Engine.jobTurn] at hpermit
    by_cases hgrant : e.limiter.hasGrant number = true
    · exact Or.inr (Or.inl hgrant)
    · rw [if_neg hgrant] at hpermit
      cases hpermit
  | holding stays begun prompt timely => exact Or.inl rfl
  | served begun prompt => exact Or.inl rfl
  | givesUp => cases hready

theorem Acquires.tick {j : Job P R} {time : Nat} (h : Acquires begin patience now stay j.stage)
    (hlater : now ≤ time) (hdue : ∀ t, j.due? = some t → time ≤ t) :
    Acquires begin patience time stay j.stage := by
  obtain ⟨number, a, stage, turn⟩ := j
  cases h with
  | arriving timely => exact .arriving (hdue _ rfl)
  | queued begun timely => exact .queued (Nat.le_trans begun hlater) (hdue _ rfl)
  | holding stays begun prompt timely => exact .holding stays begun prompt (hdue _ rfl)
  | served begun prompt => exact .served begun prompt
  | givesUp => exact .givesUp

end Acquires

namespace Engine

/-- A holder that comes at an instant is on time, whatever else goes on. -/
structure Patient (begin patience number : Nat) (stay : Option Nat) (e : Engine P R) : Prop where
  wellFormed : e.WellFormed
  sameLimit : e.limiter.patience = patience
  acquires : ∀ j ∈ e.jobs, j.number = number →
    j.assignment = .hold stay ∧ Acquires begin patience e.now stay j.stage

section Patient

variable {begin patience number : Nat} {stay : Option Nat} {e e' : Engine P R}

theorem Move.limiter_patience (hmove : Move e e') (hwf : e.WellFormed) :
    e'.limiter.patience = e.limiter.patience := by
  have hchain := hmove.passes hwf
  generalize e'.limiter = l at hchain ⊢
  induction hchain with
  | refl => rfl
  | tail _ hlast ih =>
    obtain ⟨who, s, s', hpass, _⟩ := hlast
    exact hpass.capacity.2.trans ih

/-- **Every move keeps a holder on time.** -/
theorem Move.patient (hmove : Move e e') (h : Patient begin patience number stay e) :
    Patient begin patience number stay e' := by
  have hwf := h.wellFormed
  refine ⟨hmove.wellFormed hwf, (hmove.limiter_patience hwf).trans h.sameLimit, ?_⟩
  have hlater := hmove.now_le hwf
  cases hmove with
  | @worker w member ready =>
    have hhouse := workerTurn_house e w
    have hjobs : (e.serveWorker w).jobs = e.jobs := hhouse.jobs
    have hnow : (e.serveWorker w).now = e.now := hhouse.now
    intro j hj hnumber
    rw [hnow]
    exact h.acquires j (hjobs ▸ hj) hnumber
  | @job k member ready =>
    have hnow : (e.serveJob k).now = e.now :=
      (jobTurn_turn e k (hwf.sound k member) ready).sameJobs.now
    intro j hj hnumber
    rw [hnow]
    rcases mem_serveJob hwf member ready hj with rfl | ⟨hold, _⟩
    · obtain ⟨hassignment, hacquires⟩ := h.acquires k member hnumber
      refine ⟨hassignment, ?_⟩
      rw [← h.sameLimit] at hacquires ⊢
      exact hacquires.jobTurn hassignment ready
    · exact h.acquires j hold hnumber
  | @tick time quiet due =>
    intro j hj hnumber
    obtain ⟨hassignment, hacquires⟩ := h.acquires j hj hnumber
    exact ⟨hassignment, hacquires.tick hlater fun t ht => (firstTurn_spec due).2.2 j hj t ht⟩

theorem AtRest.patient (hrest : e.AtRest) {assignments : List (Nat × Assignment P)} {i wait : Nat}
    (hassigned : assignments[i]? = some (wait, .hold stay)) :
    Patient (e.now + wait) e.limiter.patience (e.nextNumber + i) stay
      (e.addJobs assignments).unturned := by
  refine ⟨hrest.wellFormed assignments, by rw [addJobs_eq]; rfl, ?_⟩
  intro j hj hnumber
  obtain rfl := hrest.newcomer hassigned hj hnumber
  refine ⟨rfl, .arriving ?_⟩
  rw [addJobs_eq]
  exact Nat.le_add_right _ _

end Patient

/-! ### The order of service -/

/-- Job `a` came before job `b`, which has no permit while `a` is queued. -/
structure Precedes (a b : Nat) (e : Engine P R) : Prop where
  begun : ∃ j ∈ e.jobs, j.number = a ∧ j.stage.isArriving = false
  ahead : e.limiter.Ahead a b
  unserved : a ∈ e.limiter.queue → ∀ j ∈ e.jobs, j.number = b → j.stage.hasPermit = false

section Precedes

variable {a b : Nat} {e e' : Engine P R}

theorem Move.stays_begun (hmove : Move e e') (hwf : e.WellFormed)
    (h : ∃ j ∈ e.jobs, j.number = a ∧ j.stage.isArriving = false) :
    ∃ j ∈ e'.jobs, j.number = a ∧ j.stage.isArriving = false := by
  obtain ⟨j, hj, hnumber, hbegun⟩ := h
  cases hmove with
  | @worker w member ready =>
    have hjobs : (e.serveWorker w).jobs = e.jobs := (workerTurn_house e w).jobs
    exact ⟨j, hjobs ▸ hj, hnumber, hbegun⟩
  | @job k member ready =>
    by_cases hsame : j.number = k.number
    · obtain rfl := hwf.job_unique hj member hsame
      exact ⟨_, self_mem_serveJob hwf member ready, hnumber,
        jobTurn_begun (hwf.sound j member) ready⟩
    · exact ⟨j, other_mem_serveJob hwf member ready hj hsame, hnumber, hbegun⟩
  | tick quiet due => exact ⟨j, hj, hnumber, hbegun⟩

/-- A move keeps a queued job ahead, and nobody who has begun joins the queue again. -/
theorem Move.ahead (hmove : Move e e') (hwf : e.WellFormed)
    (hbegun : ∃ j ∈ e.jobs, j.number = a ∧ j.stage.isArriving = false)
    (h : e.limiter.Ahead a b) :
    e'.limiter.Ahead a b ∧ (a ∈ e'.limiter.queue → a ∈ e.limiter.queue) := by
  obtain ⟨j, hj, hnumber, hbegun⟩ := hbegun
  have hchain := hmove.passes hwf
  generalize e'.limiter = l at hchain ⊢
  induction hchain with
  | refl => exact ⟨h, id⟩
  | tail _ hlast ih =>
    obtain ⟨who, s, s', hpass, hnew⟩ := hlast
    obtain ⟨hahead, hqueued⟩ := ih.1.pass hpass fun hidle hwaits hwho => by
      have harriving := hnew hidle hwaits j hj (hnumber.trans hwho.symm)
      rw [hbegun] at harriving
      cases harriving
    exact ⟨hahead, fun h => ih.2 (hqueued h)⟩

/-- **Every move keeps the order of service.** -/
theorem Move.precedes {begin patience : Nat} {stay : Option Nat} (hmove : Move e e')
    (hpatient : Patient begin patience b stay e) (h : Precedes a b e) : Precedes a b e' := by
  have hwf := hpatient.wellFormed
  obtain ⟨hahead, hqueued⟩ := hmove.ahead hwf h.begun h.ahead
  refine ⟨hmove.stays_begun hwf h.begun, hahead, ?_⟩
  intro hwaits j hj hnumber
  have hbefore := h.unserved (hqueued hwaits)
  rcases hmove.mem_jobs hwf hj with hold | ⟨k, hk, hready, rfl⟩
  · exact hbefore j hold hnumber
  · obtain ⟨hassignment, hacquires⟩ := hpatient.acquires k hk hnumber
    have hnone := hbefore k hk hnumber
    by_contra hpermit
    rcases hacquires.hasPermit_jobTurn hassignment hready (by simpa using hpermit) with
      hhad | hgrant | hnobody
    · rw [hnone] at hhad
      cases hhad
    · have hgranted := Limiter.mem_granted hgrant
      rw [show k.number = b from hnumber] at hgranted
      exact (h.ahead (hqueued hwaits)).1 hgranted
    · have hmem := hqueued hwaits
      rw [hnobody] at hmem
      cases hmem

def isQueued (e : Engine P R) (j : Job P R) : Bool :=
  match j.stage with
  | .queued _ => !e.limiter.hasGrant j.number
  | _ => false

def isServed (e : Engine P R) (j : Job P R) : Bool :=
  j.stage.hasPermit || e.limiter.hasGrant j.number

theorem mem_waiters {parties : List Party} {p : Party} (hp : p ∈ parties) (hwaits : p.2 = .waits) :
    p.1 ∈ waiters parties := by
  refine List.mem_map_of_mem (List.mem_filter.mpr ⟨hp, ?_⟩)
  rw [hwaits]
  rfl

namespace Accounted

variable {start : Limiter}

theorem mem_queue (h : Accounted start e) {j : Job P R} (hj : j ∈ e.jobs)
    (hqueued : e.isQueued j = true) : j.number ∈ e.limiter.queue := by
  obtain ⟨hwaits, hgrant⟩ : j.party.2 = .waits ∧ e.limiter.hasGrant j.number = false := by
    unfold isQueued at hqueued
    split at hqueued
    · rename_i limit hstage
      rw [Job.party, hstage]
      exact ⟨rfl, by simpa using hqueued⟩
    · cases hqueued
  have hparty : j.party ∈ e.parties := List.mem_append_right _ (List.mem_map_of_mem hj)
  have hmem : j.number ∈ e.limiter.waiting := h.balanced.waiting.mem_iff.mpr (mem_waiters hparty hwaits)
  rcases List.mem_append.mp hmem with hgranted | hqueue
  · rw [Limiter.hasGrant, List.contains_eq_mem] at hgrant
    exact absurd hgranted (of_decide_eq_false hgrant)
  · exact hqueue

theorem waiting_nodup (h : Accounted start e) (hwf : e.WellFormed) : e.limiter.waiting.Nodup := by
  have hnumbers : e.parties.map (·.1) = e.numbers := by
    simp only [parties, numbers, List.map_append, List.map_map]
    rfl
  have hsub : (waiters e.parties).Sublist e.numbers := by
    rw [← hnumbers]
    exact List.filter_sublist.map _
  exact h.balanced.waiting.nodup_iff.mpr (hsub.nodup hwf.distinct)

theorem not_mem_waiting (h : Accounted start e) (hwf : e.WellFormed) {j : Job P R} (hj : j ∈ e.jobs)
    (harriving : j.stage.isArriving = true) : j.number ∉ e.limiter.waiting := by
  intro hmem
  obtain ⟨p, hp, hnumber⟩ := List.mem_map.mp (h.balanced.waiting.mem_iff.mp hmem)
  obtain ⟨hparty, hwaits⟩ := List.mem_filter.mp hp
  rcases List.mem_append.mp hparty with hworker | hjob
  · obtain ⟨w, hw, rfl⟩ := List.mem_map.mp hworker
    exact hwf.worker_ne_job hw hj hnumber
  · obtain ⟨k, hk, rfl⟩ := List.mem_map.mp hjob
    obtain rfl := hwf.job_unique hk hj hnumber
    obtain ⟨number, a, stage, turn⟩ := k
    cases stage with
    | arriving due => cases hwaits
    | _ => cases harriving

theorem precedes (h : Accounted start e) (hwf : e.WellFormed) {first second : Job P R}
    (hfirst : first ∈ e.jobs) (hsecond : second ∈ e.jobs) (hbegun : first.stage.isArriving = false)
    (harriving : second.stage.isArriving = true) : Precedes first.number second.number e := by
  have hunknown := h.not_mem_waiting hwf hsecond harriving
  rw [Limiter.waiting, List.mem_append, not_or] at hunknown
  refine ⟨⟨first, hfirst, rfl, hbegun⟩, ?_, ?_⟩
  · intro hqueued
    have hnodup := (List.nodup_append.mp (h.waiting_nodup hwf)).2.1
    obtain ⟨front, back, hqueue⟩ := List.append_of_mem hqueued
    rw [hqueue, List.nodup_append, List.nodup_cons] at hnodup
    obtain ⟨_, ⟨hback, _⟩, hfront⟩ := hnodup
    refine ⟨hunknown.1, front, back, hqueue, ?_, hback, ?_⟩
    · intro hmem
      exact hfront _ hmem _ List.mem_cons_self rfl
    · intro hmem
      rw [hqueue] at hunknown
      exact hunknown.2 (List.mem_append_left _ hmem)
  · intro _ j hj hnumber
    obtain rfl := hwf.job_unique hj hsecond hnumber
    obtain ⟨number, a, stage, turn⟩ := j
    cases stage with
    | arriving due => rfl
    | _ => cases harriving

/-- When all jobs have ended and none keeps its permit for good, the limiter is as it was. -/
theorem limiter_of_ended (h : Accounted start e) (hwf : e.WellFormed) (hstart : start.AtRest)
    (hended : ∀ j ∈ e.jobs, j.ending?.isSome = true)
    (hkeeps : ∀ j ∈ e.jobs, j.assignment.keepsForGood = false) : e.limiter = start := by
  have hworkers : e.workers = [] := by
    rw [List.eq_nil_iff_forall_not_mem]
    intro w hw
    obtain ⟨j, hj, _, hjoining⟩ := hwf.staffed w hw
    have hending := hended j hj
    obtain ⟨number, a, stage, turn⟩ := j
    cases stage with
    | joining attempts run => cases hending
    | _ => cases hjoining
  have hnobody := waiters_of_ended fun j hj => (standing_of_ending (hended j hj)).1
  have hzero : e.keepers = 0 :=
    keepers_eq_zero fun j hj => (standing_of_ending (hended j hj)).2 (hkeeps j hj)
  have hreturned := (h.limiter_eq hstart hworkers hnobody).2
  rw [hzero] at hreturned
  exact hreturned

end Accounted

end Precedes

/-! ### All of it -/

theorem full_atRest (capacity patience : Nat) : (Limiter.full capacity patience).AtRest :=
  ⟨rfl, rfl, Nat.add_zero _⟩

/-- **First come, first served, and on time.** Let any number of holders come to a limiter, each after a
wait and for a stay of its own, among any other jobs. On every course and at every instant the permits in
use are those of the holders, of the calls in progress and of the tasks that have told the breaker of their
calls and have yet to end; together with the free and the granted ones they are all the permits there are;
and nobody is left in the queue while one is free. Once a holder has begun and another has not, the other is
not served as long as the first one is queued. Each holder gets its permit within the patience of the
limiter from its beginning, and keeps it for its stay, or fails at exactly that limit. When all have ended,
all permits are free. -/
theorem served_in_order_and_on_time {e : Engine P R} (hrest : e.AtRest) {capacity patience : Nat}
    (hfull : e.limiter = .full capacity patience) (assignments : List (Nat × Assignment P)) :
    (∀ e', Course (e.addJobs assignments).unturned e' →
      e'.limiter.inFlight = e'.atWork + e'.leaving + e'.keepers ∧
      e'.limiter.free + e'.limiter.inFlight + e'.limiter.granted.length = capacity ∧
      (e'.limiter.free = 0 ∨ e'.limiter.queue = []) ∧
      ((∀ j ∈ e'.jobs, j.ending?.isSome = true) →
        (∀ x ∈ assignments, x.2.keepsForGood = false) → e'.limiter = .full capacity patience)) ∧
    (∀ e₁ e₂, Course (e.addJobs assignments).unturned e₁ → Course e₁ e₂ →
      ∀ i k : Nat, (∃ wait stay, assignments[i]? = some (wait, .hold stay)) →
      (∃ wait stay, assignments[k]? = some (wait, .hold stay)) →
      (∀ j, e₁.jobs[i]? = some j → j.stage.isArriving = false) →
      (∀ j, e₁.jobs[k]? = some j → j.stage.isArriving = true) →
      (∃ j, e₂.jobs[i]? = some j ∧ e₂.isQueued j = true) →
      ∀ j, e₂.jobs[k]? = some j → e₂.isServed j = false) ∧
    ∀ (i wait : Nat) (stay : Option Nat), assignments[i]? = some (wait, .hold stay) →
      (∀ e', Course (e.addJobs assignments).unturned e' → ∃ j, e'.jobs[i]? = some j ∧
        Acquires (e.now + wait) patience e'.now stay j.stage) ∧
      ∃ time ending, (e.perform assignments).2[i]? = some (some (time, ending)) ∧
        ((∃ since, e.now + wait ≤ since ∧ since ≤ e.now + wait + patience ∧
            time = since + stay.getD 0 ∧ ending = .ok (.ok (.permit since))) ∨
          time = e.now + wait + patience ∧ ending = .ok (.error (.permitTimeout patience))) := by
  have hlimit : e.limiter.AtRest := hfull ▸ full_atRest capacity patience
  have hwf := hrest.wellFormed assignments
  have hstart : (e.addJobs assignments).unturned.limiter = e.limiter := by
    rw [addJobs_eq]
    rfl
  have haccounted {e' : Engine P R} (hcourse : Course (e.addJobs assignments).unturned e') :
      Accounted (.full capacity patience) e' :=
    hfull ▸ hcourse.accounted hwf (hrest.accounted hlimit assignments)
  have hpatient {i wait : Nat} {stay : Option Nat}
      (hassigned : assignments[i]? = some (wait, .hold stay)) {e' : Engine P R}
      (hcourse : Course (e.addJobs assignments).unturned e') :
      Patient (e.now + wait) patience (e.nextNumber + i) stay e' := by
    have hnew := hrest.patient hassigned
    rw [hfull] at hnew
    exact hcourse.keeps Move.patient hnew
  have hacquires {i wait : Nat} {stay : Option Nat}
      (hassigned : assignments[i]? = some (wait, .hold stay)) {e' : Engine P R}
      (hcourse : Course (e.addJobs assignments).unturned e') :
      ∃ j, e'.jobs[i]? = some j ∧ j.assignment = .hold stay ∧
        Acquires (e.now + wait) patience e'.now stay j.stage := by
    obtain ⟨j, hj, hnumber, hassignment⟩ := hrest.exists_job hcourse hassigned
    exact ⟨j, hj, hassignment,
      ((hpatient hassigned hcourse).acquires j (List.mem_of_getElem? hj) hnumber).2⟩
  refine ⟨?_, ?_, ?_⟩
  · intro e' hcourse
    have h := haccounted hcourse
    have hinFlight := h.inFlight_eq
    refine ⟨?_, h.balanced.total.trans h.capacity, ?_, ?_⟩
    · rw [hinFlight]
      simp only [Limiter.full, Nat.zero_add]
    · refine hcourse.prompt hwf (Or.inr ?_)
      rw [hstart, hfull]
      rfl
    · intro hended hnobody
      refine h.limiter_of_ended (hcourse.wellFormed hwf) (full_atRest _ _) hended ?_
      intro j hj
      obtain ⟨x, hx, hassignment⟩ := hrest.assigned hcourse hj
      exact hassignment ▸ hnobody x hx
  · rintro e₁ e₂ hcourse hlater i k ⟨wait, stay, hfirst⟩ ⟨wait', stay', hsecond⟩ hbegun harriving
      ⟨j₂, hj₂, hqueued⟩ k₂ hk₂
    have hwhole : Course (e.addJobs assignments).unturned e₂ := hcourse.trans hlater
    obtain ⟨j₁, hj₁, hnumber₁, _⟩ := hrest.exists_job hcourse hfirst
    obtain ⟨k₁, hk₁, hnumber₁', _⟩ := hrest.exists_job hcourse hsecond
    obtain ⟨j, hj, hnumber₂, _⟩ := hrest.exists_job hwhole hfirst
    obtain rfl : j = j₂ := Option.some.inj (hj.symm.trans hj₂)
    obtain ⟨k', hk', hnumber₂', _⟩ := hrest.exists_job hwhole hsecond
    obtain rfl : k' = k₂ := Option.some.inj (hk'.symm.trans hk₂)
    have hprecedes := (haccounted hcourse).precedes (hcourse.wellFormed hwf)
      (List.mem_of_getElem? hj₁) (List.mem_of_getElem? hk₁) (hbegun j₁ hj₁) (harriving k₁ hk₁)
    rw [hnumber₁, hnumber₁'] at hprecedes
    have hboth := hlater.keeps
      (I := fun e' => Patient (e.now + wait') patience (e.nextNumber + k) stay' e' ∧
        Precedes (e.nextNumber + i) (e.nextNumber + k) e')
      (fun hmove h => ⟨hmove.patient h.1, hmove.precedes h.1 h.2⟩)
      ⟨hpatient hsecond hcourse, hprecedes⟩
    have hqueue := (haccounted hwhole).mem_queue (List.mem_of_getElem? hj₂) hqueued
    rw [hnumber₂] at hqueue
    have hunserved := hboth.2.unserved hqueue k' (List.mem_of_getElem? hk₂) hnumber₂'
    have hungranted := (hboth.2.ahead hqueue).1
    rw [isServed, hunserved, Bool.false_or, Limiter.hasGrant, List.contains_eq_mem, hnumber₂']
    exact decide_eq_false hungranted
  · intro i wait stay hassigned
    refine ⟨?_, ?_⟩
    · intro e' hcourse
      obtain ⟨j, hj, _, hon⟩ := hacquires hassigned hcourse
      exact ⟨j, hj, hon⟩
    · obtain ⟨done, hcourse, hsettled, hwf', _, hendings⟩ := perform_course hrest assignments
      obtain ⟨j, hj, hassignment, hon⟩ := hacquires hassigned hcourse
      obtain ⟨time, ending, hstage⟩ :=
        hsettled.finished hwf' (List.mem_of_getElem? hj) (by rw [hassignment]; rfl)
      have hending : j.ending? = some (time, ending) := by rw [Job.ending?, hstage]
      refine ⟨time, ending, ?_, ?_⟩
      · rw [hendings, List.getElem?_map, hj, Option.map_some, hending]
      · rw [hstage] at hon
        cases hon with
        | served begun prompt => exact Or.inl ⟨_, begun, prompt, rfl, rfl⟩
        | givesUp => exact Or.inr ⟨rfl, rfl⟩

/-- When a job ended, and since when it had had its permit if it got one. -/
def servedSince (ending : Option (Nat × Ending R)) : Option (Nat × Option Nat) :=
  ending.map fun x => (x.1, match x.2 with
    | .ok (.ok (.permit since)) => some since
    | _ => none)

/-- One permit and a patience of five. The first holder has the permit until three, and the second one then
keeps it until seven. The third and the fourth come at two, one after the other, and their patience ends at
seven as well: the third one gets the permit at the last moment, and the fourth one gives up. -/
theorem four_holders_in_order :
    let desk : Desk (Conduct (Except DownstreamFailure Nat)) Nat :=
      .forTasks Nat { maxConcurrency := 1, permitTimeout := 5 }
    let e := begun desk {} {} none [] 0
    let assignments := [(0, .hold (some 3)), (1, .hold (some 4)), (2, .hold (some 2)),
      (2, .hold (some 1))]
    let endings := (e.perform assignments).2
    e.AtRest ∧ e.limiter = .full 1 5 ∧
      endings.map servedSince = [some (3, some 0), some (7, some 3), some (9, some 7), some (7, none)] ∧
      endings[3]? = some (some (7, .ok (.error (.permitTimeout 5)))) := by
  intro desk e assignments endings
  have hrest : e.AtRest := begun_atRest _ _ _ _ _ _
  have hserved : endings.map servedSince =
      [some (3, some 0), some (7, some 3), some (9, some 7), some (7, none)] := by
    decide +kernel
  obtain ⟨time, ending, hlast, hcases⟩ :=
    ((served_in_order_and_on_time hrest (show e.limiter = .full 1 5 from rfl) assignments).2.2 3 2
      (some 1) rfl).2
  refine ⟨hrest, rfl, hserved, ?_⟩
  have hfourth : (endings.map servedSince)[3]? = some (some (7, none)) := by
    rw [hserved]
    rfl
  rw [List.getElem?_map, hlast] at hfourth
  have htold : servedSince (some (time, ending)) = some (7, none) := Option.some.inj hfourth
  rcases hcases with ⟨since, _, _, _, rfl⟩ | ⟨rfl, rfl⟩
  · cases htold
  · exact hlast

end Engine

end OrderAdmission
