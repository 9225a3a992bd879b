import Mathlib.Data.List.Perm.Subperm
import OrderAdmission.Proofs.Fates

/-!
# The places of a batch

A batch has a place for the outcome of each of its tasks. Accepted indices are a renumbering of the
tasks, so that each place belongs to one task.

`Booked` says how things stand while a chunk is at work: a place that is taken holds what became of
its own task, and a place that is still open belongs to a task of the chunk that is at work or whose
call broke off, or to a task of a later chunk. The spawning of a chunk establishes it, the noting of an
outcome keeps it, and the settling of a chunk closes all places so far. The main result is
`settled_closed`: **after the end of a chunk, the places of all tasks so far are taken by what became
of them**.
-/
namespace OrderAdmission

variable {P R : Type}

/-! ### Accepted indices -/

/-- **As many different numbers as there are places are all the places.** -/
theorem perm_range_iff {indices : List Nat} :
    indices.Perm (List.range indices.length) ↔
      (∀ i ∈ indices, i < indices.length) ∧ indices.Nodup := by
  constructor
  · intro hperm
    refine ⟨fun i hi => List.mem_range.mp (hperm.mem_iff.mp hi), ?_⟩
    exact hperm.nodup_iff.mpr List.nodup_range
  · rintro ⟨hrange, hnodup⟩
    have hsub : indices ⊆ List.range indices.length := fun i hi => List.mem_range.mpr (hrange i hi)
    exact (List.subperm_of_subset hnodup hsub).perm_of_length_le (by simp)

theorem checkIndices_cons {size i : Nat} {rest seen : List Nat} (hi : i < size) (hnew : i ∉ seen) :
    checkIndices size (i :: rest) seen = checkIndices size rest (i :: seen) := by
  rw [checkIndices, if_neg (Nat.not_le_of_lt hi), if_neg hnew]

theorem checkIndices_eq_ok_iff {size : Nat} {indices seen : List Nat} :
    checkIndices size indices seen = .ok () ↔
      (∀ i ∈ indices, i < size ∧ i ∉ seen) ∧ indices.Nodup := by
  induction indices generalizing seen with
  | nil => simp [checkIndices]
  | cons i rest ih =>
    by_cases hi : i < size ∧ i ∉ seen
    · rw [checkIndices_cons hi.1 hi.2, ih, List.forall_mem_cons, List.nodup_cons]
      simp only [List.mem_cons, not_or]
      constructor
      · rintro ⟨hrest, hnodup⟩
        exact ⟨⟨hi, fun k hk => ⟨(hrest k hk).1, (hrest k hk).2.2⟩⟩,
          fun hmem => (hrest i hmem).2.1 rfl, hnodup⟩
      · rintro ⟨⟨_, hrest⟩, hother, hnodup⟩
        exact ⟨fun k hk => ⟨(hrest k hk).1, fun hsame => hother (hsame ▸ hk), (hrest k hk).2⟩, hnodup⟩
    · refine ⟨fun h => ?_, fun h => absurd (h.1 i List.mem_cons_self) hi⟩
      rw [checkIndices] at h
      split at h
      · cases h
      · rename_i hrange
        split at h
        · cases h
        · rename_i hnew
          exact absurd ⟨Nat.lt_of_not_le hrange, hnew⟩ hi

theorem checkTasks_eq_ok_iff {tasks : List (BatchTask P)} :
    checkTasks tasks = .ok () ↔ (tasks.map (·.index)).Perm (List.range tasks.length) := by
  have hchecked : checkTasks tasks = .ok () ↔
      checkIndices tasks.length (tasks.map (·.index)) [] = .ok () := by
    unfold checkTasks
    split <;> simp [*]
  have hperm := @perm_range_iff (tasks.map (·.index))
  rw [List.length_map] at hperm
  rw [hchecked, checkIndices_eq_ok_iff, hperm]
  simp only [List.not_mem_nil, not_false_eq_true, and_true]

theorem checkTasks_ok {tasks : List (BatchTask P)} (h : checkTasks tasks = .ok ()) :
    (∀ t ∈ tasks, t.index < tasks.length) ∧ (tasks.map (·.index)).Nodup := by
  have hperm := checkTasks_eq_ok_iff.mp h
  refine ⟨fun t ht => ?_, hperm.nodup_iff.mpr List.nodup_range⟩
  exact List.mem_range.mp (hperm.mem_iff.mp (List.mem_map_of_mem ht))

theorem position_unique {tasks : List (BatchTask P)} (h : checkTasks tasks = .ok ()) {q q' : Nat}
    {t t' : BatchTask P} (ht : tasks[q]? = some t) (ht' : tasks[q']? = some t')
    (hindex : t.index = t'.index) : q = q' ∧ t = t' := by
  obtain rfl : q = q' := place_of_nodup (checkTasks_ok h).2 ht ht' hindex
  exact ⟨rfl, Option.some.inj (ht.symm.trans ht')⟩

theorem exists_task {tasks : List (BatchTask P)} (h : checkTasks tasks = .ok ()) {i : Nat}
    (hi : i < tasks.length) : ∃ (q : Nat) (t : BatchTask P), tasks[q]? = some t ∧ t.index = i := by
  have hmem : i ∈ tasks.map (·.index) :=
    (checkTasks_eq_ok_iff.mp h).mem_iff.mpr (List.mem_range.mpr hi)
  obtain ⟨t, ht, hindex⟩ := List.mem_map.mp hmem
  obtain ⟨q, hq⟩ := List.getElem?_of_mem ht
  exact ⟨q, t, hq, hindex⟩

/-! ### Places -/

theorem isMissing_iff {outcomes : List (Outcome R)} {index : Nat} :
    isMissing outcomes index = true ↔ outcomes[index]? = some .pending := by
  unfold isMissing
  split
  · simp_all
  · simp_all

theorem getElem?_set_eq {outcomes : List (Outcome R)} {index k : Nat} {outcome : Outcome R} :
    (outcomes.set index outcome)[k]? =
      if index = k ∧ k < outcomes.length then some outcome else outcomes[k]? := by
  rw [List.getElem?_set]
  by_cases hk : index = k
  · subst hk
    by_cases hlength : index < outcomes.length
    · simp [hlength]
    · simp [hlength]
  · simp [hk]

namespace Engine

/-- Every place is open or holds what became of its task. -/
structure Noted (e : Engine P R) (job : Nat) (tasks : List (BatchTask P))
    (outcomes : List (Outcome R)) : Prop where
  length : outcomes.length = tasks.length
  fates : ∀ q t o, tasks[q]? = some t → outcomes[t.index]? = some o →
    o = .pending ∨ Fate e job q t.payload o

/-- A batch of which a chunk is at work. -/
structure Booked (e : Engine P R) (job : Nat) (tasks : List (BatchTask P)) (run : BatchRun P R) :
    Prop where
  valid : checkTasks tasks = .ok ()
  remaining : run.remaining = tasks.drop run.position
  noted : Noted e job tasks run.outcomes
  chunk : ∀ i ∈ run.chunk, ∃ q t, q < run.position ∧ tasks[q]? = some t ∧ t.index = i
  covered : ∀ q t, q < run.position → tasks[q]? = some t →
    isMissing run.outcomes t.index = true → t.index ∈ run.chunk ∧
      ((∃ w ∈ e.workers, w.job = job ∧ w.position = q) ∨ e.BrokeOff job q t.payload)
  staff : ∀ w ∈ e.workers, w.job = job → tasks[w.position]? = some ⟨w.index, w.payload⟩

/-- A batch between two chunks. -/
structure Closed (e : Engine P R) (job : Nat) (tasks : List (BatchTask P)) (run : BatchRun P R) :
    Prop where
  valid : checkTasks tasks = .ok ()
  remaining : run.remaining = tasks.drop run.position
  noted : Noted e job tasks run.outcomes
  done : ∀ q t, q < run.position → tasks[q]? = some t → isMissing run.outcomes t.index = false

theorem Noted.mono {e e' : Engine P R} {job : Nat} {tasks : List (BatchTask P)}
    {outcomes : List (Outcome R)} (h : Noted e job tasks outcomes) (hgrown : Grown e e') :
    Noted e' job tasks outcomes := by
  refine ⟨h.length, ?_⟩
  intro q t o ht ho
  rcases h.fates q t o ht ho with hpending | hfate
  · exact Or.inl hpending
  · exact Or.inr (hfate.mono hgrown)

theorem Closed.mono {e e' : Engine P R} {job : Nat} {tasks : List (BatchTask P)}
    {run : BatchRun P R} (h : Closed e job tasks run) (hgrown : Grown e e') :
    Closed e' job tasks run :=
  ⟨h.valid, h.remaining, h.noted.mono hgrown, h.done⟩

/-- What others do, and what the workers of the job do in their turns, keeps a batch booked. -/
theorem Booked.frame {e e' : Engine P R} {job : Nat} {tasks : List (BatchTask P)}
    {run : BatchRun P R} (h : Booked e job tasks run) (hgrown : Grown e e')
    (hstay : ∀ w ∈ e.workers, w.job = job →
      ∃ w' ∈ e'.workers, w'.job = job ∧ w'.position = w.position)
    (hold : ∀ w' ∈ e'.workers, w'.job = job → ∃ w ∈ e.workers, w.job = job ∧
      w.position = w'.position ∧ w.index = w'.index ∧ w.payload = w'.payload) :
    Booked e' job tasks run := by
  refine ⟨h.valid, h.remaining, h.noted.mono hgrown, h.chunk, ?_, ?_⟩
  · intro q t hq ht hmissing
    obtain ⟨hchunk, hopen⟩ := h.covered q t hq ht hmissing
    refine ⟨hchunk, ?_⟩
    rcases hopen with ⟨w, hw, hjob, hposition⟩ | hbroke
    · obtain ⟨w', hw', hjob', hposition'⟩ := hstay w hw hjob
      exact Or.inl ⟨w', hw', hjob', hposition'.trans hposition⟩
    · exact Or.inr (hbroke.mono hgrown)
  · intro w' hw' hjob'
    obtain ⟨w, hw, hjob, hposition, hindex, hpayload⟩ := hold w' hw' hjob'
    rw [← hposition, ← hindex, ← hpayload]
    exact h.staff w hw hjob

/-! ### The beginning of a chunk -/

theorem whole_closed (e : Engine P R) (job : Nat) {tasks : List (BatchTask P)}
    (hvalid : checkTasks tasks = .ok ()) : Closed e job tasks (.whole tasks) := by
  refine ⟨hvalid, rfl, ⟨List.length_replicate, ?_⟩, ?_⟩
  · intro q t o _ ho
    have hmem := List.mem_of_getElem? ho
    exact Or.inl (List.eq_of_mem_replicate hmem)
  · intro q t hq
    cases hq

theorem mem_spawnWorkers {job : Nat} {tasks : List (BatchTask P)} {number position : Nat}
    {w : Worker P R} (hw : w ∈ spawnWorkers job tasks number position) :
    ∃ i, tasks[i]? = some ⟨w.index, w.payload⟩ ∧ w.position = position + i := by
  induction tasks generalizing number position with
  | nil => cases hw
  | cons t rest ih =>
    rcases List.mem_cons.mp hw with rfl | hrest
    · exact ⟨0, rfl, rfl⟩
    · obtain ⟨i, htask, hposition⟩ := ih hrest
      refine ⟨i + 1, ?_, by omega⟩
      simpa using htask

theorem exists_spawnWorker (job : Nat) {tasks : List (BatchTask P)} (number position : Nat)
    {i : Nat} (hi : i < tasks.length) :
    ∃ w ∈ spawnWorkers (R := R) job tasks number position,
      w.job = job ∧ w.position = position + i := by
  induction tasks generalizing number position i with
  | nil => cases hi
  | cons t rest ih =>
    cases i with
    | zero => exact ⟨_, List.mem_cons_self, rfl, rfl⟩
    | succ i =>
      obtain ⟨w, hw, hjob, hposition⟩ := ih (number + 1) (position + 1)
        (Nat.lt_of_succ_lt_succ hi)
      exact ⟨w, List.mem_cons_of_mem _ hw, hjob, by omega⟩

/-- A chunk that begins has a worker for each of its places. -/
theorem openChunk_booked {e : Engine P R} {job : Nat} {tasks : List (BatchTask P)}
    {run : BatchRun P R} (attempts : Nat) (h : Closed e job tasks run)
    (hnone : ∀ w ∈ e.workers, w.job ≠ job) :
    ∃ run', (e.openChunk job attempts run).2 = .joining attempts run' ∧
      Booked (e.openChunk job attempts run).1 job tasks run' := by
  refine ⟨_, rfl, ?_⟩
  have hgrown : Grown e (e.openChunk job attempts run).1 := ⟨rfl, fun _ hx => hx⟩
  have htake (q : Nat) (t : BatchTask P) :
      (run.remaining.take e.chunkSize)[q]? = some t → tasks[run.position + q]? = some t := by
    intro hq
    rw [List.getElem?_take] at hq
    split at hq
    · rwa [h.remaining, List.getElem?_drop] at hq
    · cases hq
  refine ⟨h.valid, ?_, h.noted.mono hgrown, ?_, ?_, ?_⟩
  · simp only [h.remaining, List.drop_drop, List.length_take, List.length_drop]
    by_cases hle : e.chunkSize ≤ tasks.length - run.position
    · rw [Nat.min_eq_left hle]
    · rw [List.drop_eq_nil_of_le (by omega), List.drop_eq_nil_of_le (by omega)]
  · intro i hi
    obtain ⟨t, ht, rfl⟩ := List.mem_map.mp hi
    obtain ⟨q, hq⟩ := List.getElem?_of_mem ht
    have hlength : q < (run.remaining.take e.chunkSize).length :=
      (List.getElem?_eq_some_iff.mp hq).1
    exact ⟨run.position + q, t, Nat.add_lt_add_left hlength _, htake q t hq, rfl⟩
  · intro q t hq ht hmissing
    by_cases hbefore : q < run.position
    · rw [h.done q t hbefore ht] at hmissing
      cases hmissing
    · have hi : q - run.position < (run.remaining.take e.chunkSize).length := by
        simp only at hq
        omega
      obtain ⟨t', ht'⟩ : ∃ t', (run.remaining.take e.chunkSize)[q - run.position]? = some t' :=
        ⟨_, List.getElem?_eq_getElem hi⟩
      have hsame := htake _ t' ht'
      rw [show run.position + (q - run.position) = q by omega, ht] at hsame
      obtain rfl : t = t' := Option.some.inj hsame
      obtain ⟨w, hw, hjob, hposition⟩ :=
        exists_spawnWorker (R := R) job e.nextNumber run.position hi
      refine ⟨List.mem_map_of_mem (List.mem_of_getElem? ht'), Or.inl ⟨w, ?_, hjob, by omega⟩⟩
      exact List.mem_append_right _ hw
  · intro w hw hjob
    rcases List.mem_append.mp hw with hw | hw
    · exact absurd hjob (hnone w hw)
    · obtain ⟨i, htask, hposition⟩ := mem_spawnWorkers hw
      rw [hposition]
      exact htake i _ htask

/-! ### Noting an outcome -/

theorem noteOutcome_position (run : BatchRun P R) (index : Nat) (outcome : Option (Outcome R)) :
    (run.noteOutcome index outcome).position = run.position ∧
      (run.noteOutcome index outcome).remaining = run.remaining ∧
      (run.noteOutcome index outcome).chunk = run.chunk := by
  cases outcome <;> exact ⟨rfl, rfl, rfl⟩

/-- What a worker ended with is what became of its task. -/
theorem outcome?_told {e : Engine P R} {w : Worker P R} (h : e.PhaseTold w w.phase)
    (hended : w.hasEnded = true) :
    match w.outcome? with
    | some outcome => Fate e w.job w.position w.payload outcome
    | none => e.BrokeOff w.job w.position w.payload := by
  obtain ⟨number, job, position, index, payload, phase, turn⟩ := w
  cases phase with
  | ended outcome => cases outcome <;> exact h
  | _ => cases hended

theorem collect_booked {e : Engine P R} {job : Nat} {tasks : List (BatchTask P)}
    {run : BatchRun P R} {w : Worker P R} (hwf : e.WellFormed) (hdiligent : e.Diligent)
    (h : Booked e job tasks run) (hw : w ∈ e.workers) (hjob : w.job = job)
    (hended : w.hasEnded = true) :
    Booked (e.collect w) job tasks (run.noteOutcome w.index w.outcome?) := by
  subst hjob
  have htold := outcome?_told (hdiligent w hw) hended
  have hplace := h.staff w hw rfl
  have hgrown : Grown e (e.collect w) := ⟨rfl, fun _ hx => hx⟩
  obtain ⟨hposition, hremaining, hchunk⟩ := noteOutcome_position run w.index w.outcome?
  -- Another worker stays, and the place of this one is taken or its call broke off.
  have hothers {q : Nat} {t : BatchTask P} (ht : tasks[q]? = some t) (hne : q ≠ w.position)
      (hopen : (∃ v ∈ e.workers, v.job = w.job ∧ v.position = q) ∨ e.BrokeOff w.job q t.payload) :
      (∃ v ∈ (e.collect w).workers, v.job = w.job ∧ v.position = q) ∨
        (e.collect w).BrokeOff w.job q t.payload := by
    rcases hopen with ⟨v, hv, hvjob, hvposition⟩ | hbroke
    · refine Or.inl ⟨v, ?_, hvjob, hvposition⟩
      refine List.mem_filter.mpr ⟨hv, ?_⟩
      have hnumber : v.number ≠ w.number := by
        intro hsame
        have hvw := List.inj_on_of_nodup_map hwf.workers_nodup hv hw hsame
        exact hne (hvposition ▸ hvw ▸ rfl)
      simpa using hnumber
    · exact Or.inr (hbroke.mono hgrown)
  have hstaff : ∀ v ∈ (e.collect w).workers, v.job = w.job →
      tasks[v.position]? = some ⟨v.index, v.payload⟩ :=
    fun v hv => h.staff v (List.mem_of_mem_filter hv)
  cases houtcome : w.outcome? with
  | none =>
    rw [houtcome] at htold
    refine ⟨h.valid, h.remaining, h.noted.mono hgrown, h.chunk, ?_, hstaff⟩
    intro q t hq ht hmissing
    obtain ⟨hmem, hopen⟩ := h.covered q t hq ht hmissing
    refine ⟨hmem, ?_⟩
    by_cases hown : q = w.position
    · subst hown
      obtain rfl : t = ⟨w.index, w.payload⟩ := Option.some.inj (ht.symm.trans hplace)
      exact Or.inr (BrokeOff.mono htold hgrown)
    · exact hothers ht hown hopen
  | some outcome =>
    rw [houtcome] at htold
    have htold' : Fate e w.job w.position w.payload outcome := htold
    have hlength : w.index < run.outcomes.length := by
      rw [h.noted.length]
      exact (checkTasks_ok h.valid).1 _ (List.mem_of_getElem? hplace)
    have hown {q : Nat} {t : BatchTask P} (ht : tasks[q]? = some t) (hindex : w.index = t.index) :
        q = w.position ∧ t = ⟨w.index, w.payload⟩ :=
      position_unique h.valid ht hplace hindex.symm
    refine ⟨h.valid, h.remaining, ⟨List.length_set.trans h.noted.length, ?_⟩, h.chunk, ?_, hstaff⟩
    · intro q t o ht ho
      simp only [BatchRun.noteOutcome, getElem?_set_eq] at ho
      split at ho
      · rename_i hindex
        obtain ⟨rfl, rfl⟩ := hown ht hindex.1
        obtain rfl : outcome = o := Option.some.inj ho
        exact Or.inr (htold'.mono hgrown)
      · exact (h.noted.mono hgrown).fates q t o ht ho
    · intro q t hq ht hmissing
      rw [isMissing_iff] at hmissing
      simp only [BatchRun.noteOutcome, getElem?_set_eq] at hmissing
      split at hmissing
      · exact absurd (Option.some.inj hmissing) htold'.not_pending
      · rename_i hindex
        obtain ⟨hmem, hopen⟩ := h.covered q t hq ht (isMissing_iff.mpr hmissing)
        refine ⟨hmem, hothers ht ?_ hopen⟩
        rintro rfl
        obtain rfl : t = ⟨w.index, w.payload⟩ := Option.some.inj (ht.symm.trans hplace)
        exact hindex ⟨rfl, hlength⟩

/-! ### Settling a chunk -/

/-- To settle a chunk fills its open places and changes no other. -/
theorem getElem?_settleChunk (e : Engine P R) (job : Nat) (reason : String) (chunk : List Nat)
    (outcomes : List (Outcome R)) (k : Nat) :
    (e.settleChunk job reason chunk outcomes).2[k]? =
      if k ∈ chunk ∧ isMissing outcomes k = true then some (.failure reason) else outcomes[k]? := by
  induction chunk generalizing e outcomes with
  | nil => simp [settleChunk]
  | cons index rest ih =>
    simp only [settleChunk]
    split
    · rename_i hmissing
      have hplace := isMissing_iff.mp hmissing
      have hlength : index < outcomes.length := (List.getElem?_eq_some_iff.mp hplace).1
      rw [ih]
      by_cases hk : k = index
      · subst hk
        have hfilled : isMissing (outcomes.set k (.failure reason)) k = false := by
          simp [isMissing, hlength]
        simp [hfilled, hmissing, hlength]
      · have hsame : (outcomes.set index (.failure reason))[k]? = outcomes[k]? := by
          rw [List.getElem?_set_ne (Ne.symm hk)]
        have hother : isMissing (outcomes.set index (.failure reason)) k = isMissing outcomes k := by
          simp only [isMissing, hsame]
        simp only [hother, hsame, List.mem_cons, hk, false_or]
    · rename_i hfilled
      rw [ih]
      by_cases hk : k = index
      · subst hk
        simp [hfilled]
      · simp only [List.mem_cons, hk, false_or]

/-- **After the end of a chunk, the places of all tasks so far are taken.** -/
theorem settled_closed {e : Engine P R} {job : Nat} {tasks : List (BatchTask P)}
    {run : BatchRun P R} (h : Booked e job tasks run) :
    Closed (e.settled job run).1 job tasks
      { run with outcomes := (e.settled job run).2 } := by
  have hdismissed : Grown e (e.dismissAll job) :=
    ⟨rfl, fun _ hx => dismissAll_exchanges e job ▸ hx⟩
  have hgrown := hdismissed.trans (settled_floor e job run).grown
  have hplace (k : Nat) := getElem?_settleChunk (e.dismissAll job) job (e.closingReason job)
    run.chunk run.outcomes k
  refine ⟨h.valid, h.remaining, ⟨?_, ?_⟩, ?_⟩
  · exact (length_settleChunk _ _ _ _ _).trans h.noted.length
  · intro q t o ht ho
    have ho' := (hplace t.index).symm.trans ho
    split at ho'
    · rename_i hopen
      obtain rfl : Outcome.failure (e.closingReason job) = o := Option.some.inj ho'
      refine Or.inr ?_
      obtain ⟨q', t', hq', ht', hindex⟩ := h.chunk t.index hopen.1
      obtain ⟨rfl, rfl⟩ := position_unique h.valid ht' ht hindex
      rcases (h.covered q' t' hq' ht' hopen.2).2 with ⟨w, hw, hjob, _⟩ | hbroke
      · -- A task is still at work, so the chunk is cut off.
        have hsome : (e.workersOf job).isEmpty = false := by
          rw [List.isEmpty_eq_false_iff]
          exact List.ne_nil_of_mem (List.mem_filter.mpr ⟨hw, by simpa using hjob⟩)
        simp only [closingReason, hsome, Bool.false_eq_true, ↓reduceIte]
        exact Fate.cutOff
      · unfold closingReason
        split
        · exact Fate.interrupted (hbroke.mono hgrown)
        · exact Fate.cutOff
    · rcases h.noted.fates q t o ht ho' with hpending | hfate
      · exact Or.inl hpending
      · exact Or.inr (hfate.mono hgrown)
  · intro q t hq ht
    rw [Bool.eq_false_iff]
    intro hmissing
    have hpending := (hplace t.index).symm.trans (isMissing_iff.mp hmissing)
    split at hpending
    · cases hpending
    · rename_i hfilled
      have hopen := isMissing_iff.mpr hpending
      exact hfilled ⟨(h.covered q t hq ht hopen).1, hopen⟩

end Engine

end OrderAdmission
