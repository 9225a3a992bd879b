import OrderAdmission.Proofs.Accounting

/-!
# Batches that are numbered wrongly

The tasks of a batch carry the places of their outcomes. The check of these indices goes through the tasks
once and asks of each index whether it is a place at all and whether an earlier task has it; whether every
place is taken is not asked.

**It need not be asked**: as many different numbers as there are places are all the places
(`perm_range_iff`), so that the check accepts the permutations and nothing else
(`checkTasks_eq_ok_iff`). Otherwise it names the first task that breaks the rule (`FirstFault`).

A batch that is refused in this way is refused before everything else. The turn in which it is leaves the
whole engine as it was, whatever the breaker would have said, and nothing has happened on behalf of the batch
before that turn or happens afterwards (`Declined`).
-/
namespace OrderAdmission

variable {P R : Type}

/-! ### Indices -/

/-- What is wrong with an index behind others. -/
inductive Fault (size : Nat) (earlier : List Nat) (i : Nat) : Invalid → Prop where
  | outOfRange (h : size ≤ i) : Fault size earlier i (.taskOutOfRange i size)
  | repeated (h : i < size) (hmem : i ∈ earlier) : Fault size earlier i (.repeatedTask i)

theorem Fault.of_mem_iff {size i : Nat} {earlier earlier' : List Nat} {reason : Invalid}
    (h : Fault size earlier i reason) (hsame : i ∈ earlier ↔ i ∈ earlier') :
    Fault size earlier' i reason := by
  cases h with
  | outOfRange h => exact .outOfRange h
  | repeated h hmem => exact .repeated h (hsame.mp hmem)

theorem checkIndices_of_fault {size i : Nat} {rest seen : List Nat} {reason : Invalid}
    (h : Fault size seen i reason) : checkIndices size (i :: rest) seen = .error reason := by
  cases h with
  | outOfRange h => rw [checkIndices, if_pos h]
  | repeated h hmem => rw [checkIndices, if_neg (Nat.not_le_of_lt h), if_pos hmem]

/-- The check names the first index with which something is wrong. -/
theorem exists_fault {size : Nat} {indices seen : List Nat} {reason : Invalid}
    (h : checkIndices size indices seen = .error reason) :
    ∃ before i after, indices = before ++ i :: after ∧
      checkIndices size before seen = .ok () ∧ Fault size (before ++ seen) i reason := by
  induction indices generalizing seen with
  | nil => cases h
  | cons i rest ih =>
    by_cases hi : size ≤ i
    · rw [checkIndices_of_fault (.outOfRange hi)] at h
      cases h
      exact ⟨[], i, rest, rfl, rfl, .outOfRange hi⟩
    · have hi : i < size := Nat.lt_of_not_le hi
      by_cases hseen : i ∈ seen
      · rw [checkIndices_of_fault (.repeated hi hseen)] at h
        cases h
        exact ⟨[], i, rest, rfl, rfl, .repeated hi hseen⟩
      · rw [checkIndices_cons hi hseen] at h
        obtain ⟨before, k, after, rfl, hclean, hfault⟩ := ih h
        refine ⟨i :: before, k, after, rfl, ?_, hfault.of_mem_iff (by simp [or_left_comm])⟩
        rw [checkIndices_cons hi hseen]
        exact hclean

theorem checkIndices_append {size i : Nat} {before after seen : List Nat} {reason : Invalid}
    (hclean : checkIndices size before seen = .ok ()) (hfault : Fault size (before ++ seen) i reason) :
    checkIndices size (before ++ i :: after) seen = .error reason := by
  induction before generalizing seen with
  | nil => exact checkIndices_of_fault hfault
  | cons k before ih =>
    obtain ⟨hrange, _⟩ := checkIndices_eq_ok_iff.mp hclean
    obtain ⟨hk, hnew⟩ := hrange k List.mem_cons_self
    rw [checkIndices_cons hk hnew] at hclean
    rw [List.cons_append, checkIndices_cons hk hnew]
    exact ih hclean (hfault.of_mem_iff (by simp [or_left_comm]))

/-! ### Tasks -/

/-- The first task whose index is no place of the batch, or that of an earlier task, and what is said
about it. -/
inductive FirstFault (tasks : List (BatchTask P)) : GateError → Prop where
  | mk {before after : List (BatchTask P)} {t : BatchTask P} {reason : Invalid}
      (split : tasks = before ++ t :: after)
      (clean : (∀ s ∈ before, s.index < tasks.length) ∧ (before.map (·.index)).Nodup)
      (fault : Fault tasks.length (before.map (·.index)) t.index reason) :
      FirstFault tasks (.invalid reason)

theorem checkTasks_eq_error_iff {tasks : List (BatchTask P)} {error : GateError} :
    checkTasks tasks = .error error ↔ FirstFault tasks error := by
  constructor
  · intro h
    unfold checkTasks at h
    split at h
    · cases h
    · rename_i reason hchecked
      cases h
      obtain ⟨before, i, after, hsplit, hclean, hfault⟩ := exists_fault hchecked
      obtain ⟨earlier, rest, rfl, rfl, hrest⟩ := List.map_eq_append_iff.mp hsplit
      obtain ⟨t, later, rfl, rfl, rfl⟩ := List.map_eq_cons_iff.mp hrest
      obtain ⟨hrange, hnodup⟩ := checkIndices_eq_ok_iff.mp hclean
      refine .mk rfl ⟨?_, hnodup⟩ (hfault.of_mem_iff (by simp))
      intro s hs
      exact (hrange s.index (List.mem_map_of_mem hs)).1
  · rintro ⟨hsplit, ⟨hrange, hnodup⟩, hfault⟩
    rename_i before after t reason
    have hclean : checkIndices tasks.length (before.map (·.index)) [] = .ok () := by
      refine checkIndices_eq_ok_iff.mpr ⟨?_, hnodup⟩
      intro i hi
      obtain ⟨s, hs, rfl⟩ := List.mem_map.mp hi
      exact ⟨hrange s hs, List.not_mem_nil⟩
    have hchecked : checkIndices tasks.length (tasks.map (·.index)) [] = .error reason := by
      have hindices : tasks.map (·.index) =
          before.map (·.index) ++ t.index :: after.map (·.index) := by
        rw [hsplit, List.map_append, List.map_cons]
      rw [hindices]
      exact checkIndices_append hclean (hfault.of_mem_iff (by simp))
    rw [checkTasks, hchecked]

namespace Engine

/-! ### A batch that is refused -/

/-- **The turn in which a batch is refused for its indices changes nothing**, whatever the engine and its
breaker. -/
theorem jobTurn_misnumbered (e : Engine P R) {j : Job P R} {due : Nat} (hstage : j.stage = .arriving due)
    {tasks : List (BatchTask P)} (hassignment : j.assignment = .execute tasks) {error : GateError}
    (hrefused : checkTasks tasks = .error error) :
    e.jobTurn j = (e, .finished e.now (.ok (.error error))) := by
  have hsome : tasks.isEmpty = false := by
    cases tasks with
    | nil => cases hrefused
    | cons t rest => rfl
  simp only [jobTurn, hstage, hassignment, startJob]
  rw [startBatch_eq, hsome, hrefused]
  exact conclude_eq e (.execute tasks) _

/-- A batch that is refused for its indices waits until its time and ends then, with this error. Nothing
happens on its behalf, neither before nor afterwards. -/
structure Declined (start : Engine P R) (job begin : Nat) (tasks : List (BatchTask P))
    (error : GateError) (e : Engine P R) : Prop where
  regular : e.Regular
  silent : Adds (fun event => event.job ≠ job) start e
  stands : ∃ j ∈ e.jobs, j.number = job ∧ j.assignment = .execute tasks ∧
    (j.stage = .arriving begin ∧ e.now ≤ begin ∨ j.stage = .finished begin (.ok (.error error)))

theorem Move.declined {start e e' : Engine P R} {job begin : Nat} {tasks : List (BatchTask P)}
    {error : GateError} (hrefused : checkTasks tasks = .error error) (hmove : Move e e')
    (h : Declined start job begin tasks error e) : Declined start job begin tasks error e' := by
  have hwf := h.regular.reached.wellFormed
  obtain ⟨j, hj, hnumber, hassignment, hstands⟩ := h.stands
  have hregular := hmove.regular h.regular
  cases hmove with
  | @worker w member ready =>
    have hhouse := workerTurn_house e w
    have hjobs : (e.serveWorker w).jobs = e.jobs := hhouse.jobs
    have hnow : (e.serveWorker w).now = e.now := hhouse.now
    have hidle : j.stage.isJoining = false := by
      rcases hstands with ⟨hstage, _⟩ | hstage
      · rw [hstage]
        rfl
      · rw [hstage]
        rfl
    have hapart : w.job ≠ job := hnumber ▸ hwf.no_workers hj hidle w member
    refine ⟨hregular, h.silent.trans (serveWorker_elsewhere hwf member hapart).journal, ?_⟩
    rw [hjobs, hnow]
    exact ⟨j, hj, hnumber, hassignment, hstands⟩
  | @job k member ready =>
    by_cases hself : k.number = job
    · -- The batch has its turn, so that it has not ended, and its time has come.
      obtain rfl := hwf.job_unique hj member (hnumber.trans hself.symm)
      rcases hstands with ⟨hstage, hearly⟩ | hstage
      · have hturn := jobTurn_misnumbered e hstage hassignment hrefused
        have hdue : begin ≤ e.now := by simpa [Job.isReady, hstage] using ready
        have hbegin : e.now = begin := Nat.le_antisymm hearly hdue
        rw [hbegin] at hturn
        refine ⟨hregular, h.silent.trans (.nothing ?_), _, self_mem_serveJob hwf hj ready, hnumber,
          hassignment, .inr ?_⟩
        · exact congrArg (fun turn => turn.1.journal) hturn
        · exact congrArg Prod.snd hturn
      · rw [Job.isReady, hstage] at ready
        cases ready
    · have hnow : (e.serveJob k).now = e.now :=
        (jobTurn_turn e k (hwf.sound k member) ready).sameJobs.now
      have hother := serveJob_elsewhere hwf h.regular.suited member ready hself
      have hkept := other_mem_serveJob hwf member ready hj fun hsame => hself (hsame.symm.trans hnumber)
      refine ⟨hregular, h.silent.trans hother.journal, ?_⟩
      rw [hnow]
      exact ⟨j, hkept, hnumber, hassignment, hstands⟩
  | @tick time quiet due =>
    refine ⟨hregular, h.silent.trans (.nothing rfl), j, hj, hnumber, hassignment, ?_⟩
    refine hstands.imp_left fun hwaits => ⟨hwaits.1, ?_⟩
    exact (firstTurn_spec due).2.2 j hj begin (by rw [Job.due?, hwaits.1])

theorem AtRest.declined {e : Engine P R} (hrest : e.AtRest) {assignments : List (Nat × Assignment P)}
    {i wait : Nat} {tasks : List (BatchTask P)} (error : GateError)
    (hassigned : assignments[i]? = some (wait, .execute tasks)) :
    Declined e (e.nextNumber + i) (e.now + wait) tasks error (e.addJobs assignments).unturned := by
  obtain ⟨j, hplace, hnumber, _⟩ := hrest.exists_job Relation.ReflTransGen.refl hassigned
  have hj := List.mem_of_getElem? hplace
  obtain rfl := hrest.newcomer hassigned hj hnumber
  refine ⟨hrest.regular assignments, ?_, _, hj, rfl, rfl, .inl ⟨rfl, ?_⟩⟩
  · rw [addJobs_eq]
    exact .nothing rfl
  · rw [addJobs_eq]
    exact Nat.le_add_right _ _

/-- **The check of the indices accepts exactly the permutations.** A batch is accepted if and only if the
indices of its tasks are the numbers below its size in some order. Otherwise the error names the first task
whose index is no such number or that of an earlier task. An execution of such a batch ends with this error
in its first turn, which leaves any engine as it was, whatever its breaker would have said. However many
assignments are done at once, a batch ends in this way after its wait, and on every course nothing ever
happens on its behalf: no operation begins, and the breaker is told nothing. -/
theorem indices_accepted_iff_permutation {e : Engine P R} (hrest : e.AtRest)
    (tasks : List (BatchTask P)) :
    (checkTasks tasks = .ok () ↔ (tasks.map (·.index)).Perm (List.range tasks.length)) ∧
      (∀ error, checkTasks tasks = .error error ↔ FirstFault tasks error) ∧
      ∀ error, checkTasks tasks = .error error →
        (∀ (e' : Engine P R) j due, j.stage = .arriving due → j.assignment = .execute tasks →
          e'.jobTurn j = (e', .finished e'.now (.ok (.error error)))) ∧
        ∀ assignments i wait, assignments[i]? = some (wait, .execute tasks) →
          (∀ e', Course (e.addJobs assignments).unturned e' →
            Adds (fun event => event.job ≠ e.nextNumber + i) e e') ∧
          Adds (fun event => event.job ≠ e.nextNumber + i) e (e.perform assignments).1 ∧
          (e.perform assignments).2[i]? = some (some (e.now + wait, .ok (.error error))) := by
  refine ⟨checkTasks_eq_ok_iff, fun _ => checkTasks_eq_error_iff, ?_⟩
  intro error hrefused
  refine ⟨fun e' j due hstage hassignment => jobTurn_misnumbered e' hstage hassignment hrefused, ?_⟩
  intro assignments i wait hassigned
  have hcourses (e' : Engine P R) (hcourse : Course (e.addJobs assignments).unturned e') :
      Declined e (e.nextNumber + i) (e.now + wait) tasks error e' :=
    hcourse.keeps (Move.declined hrefused) (hrest.declined error hassigned)
  refine ⟨fun e' hcourse => (hcourses e' hcourse).silent, ?_⟩
  obtain ⟨done, hcourse, hsettled, hwf, hdone, hendings⟩ := perform_course hrest assignments
  have hdeclined := hcourses done hcourse
  obtain ⟨j, hj, hnumber, hassignment, hstands⟩ := hdeclined.stands
  constructor
  · have hjournal : (e.perform assignments).1.journal = done.journal := congrArg (·.journal) hdone
    obtain ⟨added, hadded, hothers⟩ := hdeclined.silent
    exact ⟨added, hjournal.trans hadded, hothers⟩
  · obtain ⟨time, ending, hfinished⟩ := hsettled.finished hwf hj (by rw [hassignment]; rfl)
    have hstage : j.stage = .finished (e.now + wait) (.ok (.error error)) := by
      rcases hstands with ⟨harriving, _⟩ | hstage
      · rw [hfinished] at harriving
        cases harriving
      · exact hstage
    rw [hendings, hrest.getElem?_endings hcourse hj hnumber, Job.ending?, hstage]

/-- Of four tasks the third repeats an index and the fourth has one that is no place: the third is
named, at the end of the wait. -/
theorem repeated_index_comes_first :
    let e : Engine (Conduct (Except DownstreamFailure Nat)) Nat :=
      begun (.forTasks Nat { chunkSize := 2 }) {} {} none [] 0
    let tasks := [⟨2, .answers 3 (.ok 7)⟩, ⟨0, .breaksOff 1⟩, ⟨2, .hangs⟩, ⟨9, .hangs⟩]
    e.AtRest ∧ ¬ (tasks.map (·.index)).Perm (List.range tasks.length) ∧
      FirstFault tasks (.invalid (.repeatedTask 2)) ∧
      (e.perform [(7, .execute tasks)]).2[0]? =
        some (some (7, .ok (.error (.invalid (.repeatedTask 2))))) := by
  intro e tasks
  have hrest : e.AtRest := begun_atRest _ _ _ _ _ _
  have hrefused : checkTasks tasks = .error (.invalid (.repeatedTask 2)) := rfl
  obtain ⟨haccepted, hnamed, hends⟩ := indices_accepted_iff_permutation hrest tasks
  refine ⟨hrest, ?_, (hnamed _).mp hrefused, ?_⟩
  · rw [← haccepted, hrefused]
    exact nofun
  · exact ((hends _ hrefused).2 _ 0 7 rfl).2.2

end Engine

end OrderAdmission
