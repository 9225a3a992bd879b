import OrderAdmission.Proofs.Atomicity
import OrderAdmission.Proofs.Transcripts

/-!
# The verdict on a status write

A status write is cut into statements. Within a statement all rows are looked at, also behind one that
does not fit; no statement follows one that has failed; and a later statement sees the rows that earlier
ones have staged. None of this can be told from what the write comes to: **on a free table that answers
at once, the verdict is a function of the table and the updates** (`Table.verdict`), **whatever the size
of the statements**.

The staged rows are carried from statement to statement as what all updates made so far would stage at
once. Since no two updates name the same order, a statement counts for each update what the table itself
says about it (`Table.stageAll_counts`), so that the first update that a statement objects to is the
first of all.
-/
namespace OrderAdmission

variable {P R : Type}

/-! ### The verdict -/

namespace Table

/-- Whether an update fits its row: it is there, and has the expected version. -/
def fits (t : Table) (u : StatusUpdate) : Bool :=
  match t.get? u.orderId with
  | some row => row.version = u.expectedVersion
  | none => false

/-- What a status write on a table comes to if nothing hinders it. -/
def verdict (t : Table) (updates : List StatusUpdate) : Except GateError Nat :=
  match StatusUpdate.firstRepeated updates [] with
  | some id => .error (.invalid (.repeatedUpdate id))
  | none =>
    match updates.find? fun u => !t.fits u with
    | some u => .error (.versionConflict u.orderId u.expectedVersion)
    | none => .ok updates.length

/-- The table that such a write leaves. -/
def afterWrite (t : Table) (updates : List StatusUpdate) : Table :=
  match t.verdict updates with
  | .ok _ => t.commit (t.stageAll [] updates).1
  | .error _ => t

variable {t staged staged' : Table} {updates : List StatusUpdate}

theorem fits_iff {u : StatusUpdate} :
    t.fits u = true ↔ ∃ row, t.get? u.orderId = some row ∧ row.version = u.expectedVersion := by
  unfold fits
  cases t.get? u.orderId with
  | none => simp
  | some row => simp

/-- An update of a row that is not yet staged counts one row if it finds its own, and stages nothing
else. -/
theorem stage_count {u : StatusUpdate} {n : Nat} (hnew : staged.get? u.orderId = none)
    (h : t.stage staged u = (staged', .ok n)) :
    n = (if t.fits u then 1 else 0) ∧
      ∀ id, id ≠ u.orderId → staged'.get? id = staged.get? id := by
  have hseen : t.seen staged u.orderId = t.get? u.orderId := by simp [seen, hnew]
  unfold stage at h
  rw [hseen] at h
  unfold fits
  cases hrow : t.get? u.orderId with
  | none =>
    simp only [hrow, Prod.mk.injEq, Except.ok.injEq] at h
    obtain ⟨rfl, rfl⟩ := h
    exact ⟨rfl, fun _ _ => rfl⟩
  | some row =>
    simp only [hrow] at h
    split at h
    · rename_i hversion
      split at h
      · simp only [Prod.mk.injEq, Except.ok.injEq] at h
        obtain ⟨rfl, rfl⟩ := h
        refine ⟨by simp [hversion], fun id hne => ?_⟩
        rw [get?_put, if_neg hne]
      · cases congrArg Prod.snd h
    · rename_i hversion
      simp only [Prod.mk.injEq, Except.ok.injEq] at h
      obtain ⟨rfl, rfl⟩ := h
      exact ⟨by simp [hversion], fun _ _ => rfl⟩

/-- **The row counts of a statement** on rows that are not yet staged are what the table says of each
update by itself. -/
theorem stageAll_counts {counts : List Nat} (hnodup : (updates.map (·.orderId)).Nodup)
    (hnew : ∀ u ∈ updates, staged.get? u.orderId = none)
    (h : t.stageAll staged updates = (staged', .ok counts)) :
    counts = updates.map fun u => if t.fits u then 1 else 0 := by
  induction updates generalizing staged counts with
  | nil => exact (Except.ok.inj (congrArg Prod.snd h)).symm
  | cons u rest ih =>
    obtain ⟨hfirst, hrest⟩ := List.nodup_cons.mp hnodup
    simp only [stageAll] at h
    split at h
    · cases congrArg Prod.snd h
    · rename_i between n hstage
      obtain ⟨hn, hothers⟩ := stage_count (hnew u List.mem_cons_self) hstage
      split at h
      · cases congrArg Prod.snd h
      · rename_i last ns hstaged
        obtain rfl : last = staged' := congrArg Prod.fst h
        have hnew' : ∀ v ∈ rest, between.get? v.orderId = none := by
          intro v hv
          have hne : v.orderId ≠ u.orderId :=
            fun hsame => hfirst (List.mem_map.mpr ⟨v, hv, hsame⟩)
          rw [hothers _ hne, hnew v (List.mem_cons_of_mem _ hv)]
        have hcounts : n :: ns = counts := Except.ok.inj (congrArg Prod.snd h)
        rw [← hcounts, ih hrest hnew' hstaged, hn, List.map_cons]

/-- The check of such row counts objects to the first update that does not find its row. -/
theorem checkStatement_counts (t : Table) (updates : List StatusUpdate) :
    checkStatement updates (updates.map fun u => if t.fits u then 1 else 0) =
      match updates.find? fun u => !t.fits u with
      | some u => .error (.versionConflict u.orderId u.expectedVersion)
      | none => .ok () := by
  rw [checkStatement, if_pos (List.length_map ..)]
  induction updates with
  | nil => rfl
  | cons u rest ih =>
    cases hfits : t.fits u with
    | true => simpa [checkCounts, hfits] using ih
    | false => simp [checkCounts, hfits]

theorem count_of_firstRepeated {seen : List Int} {id : Int}
    (h : StatusUpdate.firstRepeated updates seen = some id) :
    2 ≤ seen.count id + (updates.map (·.orderId)).count id := by
  induction updates generalizing seen with
  | nil => cases h
  | cons u rest ih =>
    simp only [StatusUpdate.firstRepeated] at h
    split at h
    · rename_i hseen
      obtain rfl := Option.some.inj h
      have hbefore := List.count_pos_iff.mpr hseen
      rw [List.map_cons, List.count_cons_self]
      omega
    · have hrest := ih h
      rw [List.count_cons] at hrest
      rw [List.map_cons, List.count_cons]
      omega

theorem verdict_repeated (h : ¬ (updates.map (·.orderId)).Nodup) :
    ∃ id, 2 ≤ (updates.map (·.orderId)).count id ∧
      t.verdict updates = .error (.invalid (.repeatedUpdate id)) := by
  cases hrepeated : StatusUpdate.firstRepeated updates [] with
  | none => exact absurd (nodup_of_firstRepeated hrepeated).1 h
  | some id =>
    have hcount := count_of_firstRepeated hrepeated
    rw [List.count_nil, Nat.zero_add] at hcount
    exact ⟨id, hcount, by rw [verdict, hrepeated]⟩

theorem verdict_ok (hnodup : (updates.map (·.orderId)).Nodup)
    (hfits : ∀ u ∈ updates, t.fits u = true) : t.verdict updates = .ok updates.length := by
  have hnone : updates.find? (fun u => !t.fits u) = none := by
    rw [List.find?_eq_none]
    intro u hu
    simp [hfits u hu]
  rw [verdict, firstRepeated_eq_none hnodup fun _ _ => List.not_mem_nil, hnone]

/-- A write of which an update, the first one, does not find its row. -/
theorem verdict_conflict {before after : List StatusUpdate} {u : StatusUpdate}
    (hnodup : ((before ++ u :: after).map (·.orderId)).Nodup)
    (hbefore : ∀ v ∈ before, t.fits v = true) (hfits : t.fits u = false) :
    t.verdict (before ++ u :: after) = .error (.versionConflict u.orderId u.expectedVersion) := by
  have hnone : before.find? (fun v => !t.fits v) = none := by
    rw [List.find?_eq_none]
    intro v hv
    simp [hbefore v hv]
  have hfirst : (before ++ u :: after).find? (fun v => !t.fits v) = some u := by
    rw [List.find?_append, hnone, List.find?_cons_of_pos (by simp [hfits])]
    rfl
  rw [verdict, firstRepeated_eq_none hnodup fun _ _ => List.not_mem_nil, hfirst]

theorem written_afterWrite (hraisable : t.Raisable) (hnodup : (updates.map (·.orderId)).Nodup)
    (hfits : ∀ u ∈ updates, t.fits u = true) : Written t updates (t.afterWrite updates) := by
  have hnew : ∀ u ∈ updates, get? ([] : Table) u.orderId = none := fun _ _ => rfl
  obtain ⟨staged, counts, hstaged⟩ :=
    stageAll_ok (fun u _ row hrow _ => hraisable u.orderId row hrow) hnodup hnew
  have hnone : updates.find? (fun u => !t.fits u) = none := by
    rw [List.find?_eq_none]
    intro u hu
    simp [hfits u hu]
  have hcheck := checkStatement_counts t updates
  rw [← stageAll_counts hnodup hnew hstaged, hnone] at hcheck
  refine ⟨staged, (Staged.nil t).statement hnodup hstaged hcheck, ?_⟩
  rw [afterWrite, verdict_ok hnodup hfits, hstaged]

end Table

/-! ### A transaction that nothing hinders -/

/-- The updates that a transaction has made have all found their rows, and what it has staged is what
they stage together. -/
def Advances (t : Table) (updates : List StatusUpdate) (run : WriteRun) : Prop :=
  ∃ made counts, made ++ run.remaining.flatten = updates ∧
    t.stageAll [] made = (run.staged, .ok counts) ∧ ∀ u ∈ made, t.fits u = true

/-- The check of the next statement of a transaction objects to the first update that does not find its
row. -/
theorem Transacts.checkStatement {t staged : Table} {updates first : List StatusUpdate}
    {rest : List (List StatusUpdate)} {run : WriteRun} {counts : List Nat}
    (h : Transacts t updates run) (hremaining : run.remaining = first :: rest)
    (hcounts : t.stageAll run.staged first = (staged, .ok counts)) :
    OrderAdmission.checkStatement first counts =
      match first.find? fun u => !t.fits u with
      | some u => .error (.versionConflict u.orderId u.expectedVersion)
      | none => .ok () := by
  obtain ⟨hdistinct, hnew⟩ := h.fresh hremaining
  rw [Table.stageAll_counts hdistinct hnew hcounts]
  exact Table.checkStatement_counts t first

namespace Engine

/-- After a turn of a status write that nothing hinders: it goes on without waiting, or has come to its
verdict. -/
def TurnRuled (t : Table) (updates : List StatusUpdate) (e : Engine P R) : WriteTurn → Prop
  | .goesOn run => (∀ due, run.step = .stating due → due ≤ e.now) ∧ Advances t updates run
  | .ends ending => ending = .ok (t.verdict updates) ∧ e.ledger.table = t.afterWrite updates

section Turns

variable {t : Table} {updates : List StatusUpdate} {e : Engine P R} {job : Nat} {w : WriteRun}

theorem openWrite_ruled (hstore : e.desk.store = .table 0) (htable : e.ledger.table = t) :
    TurnRuled t updates (e.openWrite job updates).1 (e.openWrite job updates).2 := by
  simp only [openWrite, hstore]
  split
  · rename_i hempty
    rw [List.isEmpty_iff.mp hempty]
    exact ⟨rfl, htable⟩
  · split
    · rename_i id hrepeated
      have hverdict : t.verdict updates = .error (.invalid (.repeatedUpdate id)) := by
        rw [Table.verdict, hrepeated]
      exact ⟨by rw [hverdict], by rw [Table.afterWrite, hverdict]; exact htable⟩
    · refine ⟨?_, [], [], flatten_chunksOf _ updates, rfl, ?_⟩
      · intro due hdue
        cases hdue
      · intro u hu
        cases hu

/-- The next statement is made at once, and the last one has come to the verdict. -/
theorem nextStatement_ruled (hstore : e.desk.store = .table 0) (htable : e.ledger.table = t)
    (hnodup : (updates.map (·.orderId)).Nodup) (htotal : w.total = updates.length)
    (h : Advances t updates w) :
    TurnRuled t updates (e.nextStatement job w).1 (e.nextStatement job w).2 := by
  cases hremaining : w.remaining with
  | nil =>
    obtain ⟨made, counts, hmade, hstaged, hfits⟩ := h
    rw [hremaining, List.flatten_nil, List.append_nil] at hmade
    subst hmade
    have hverdict := Table.verdict_ok hnodup hfits
    have hcommitted := (endWrite_floor (e.commitStaged job w.staged) job (.ok (.ok w.total))).table
    rw [nextStatement_commit e job w 0 hremaining hstore, endWrite_turn]
    refine ⟨by rw [hverdict, htotal], hcommitted.trans ?_⟩
    rw [Table.afterWrite, hverdict, hstaged, ← htable]
    rfl
  | cons first rest =>
    simp only [nextStatement, hremaining, hstore]
    refine ⟨?_, hremaining ▸ h⟩
    intro due hdue
    obtain rfl : e.now + 0 = due := WriteStep.stating.inj hdue
    exact Nat.le_refl _

/-- A statement whose updates have not all found their rows has come to the verdict, and any other
leads on. -/
theorem afterStatement_ruled {staged : Table} {counts : List Nat}
    (hstore : e.desk.store = .table 0) (htable : e.ledger.table = t)
    (htransacts : Transacts t updates w) (htotal : w.total = updates.length)
    (h : Advances t updates w)
    (hcounts : t.stageAll w.staged (w.remaining.headD []) = (staged, .ok counts)) :
    TurnRuled t updates (e.afterStatement job { w with staged } counts).1
      (e.afterStatement job { w with staged } counts).2 := by
  cases hremaining : w.remaining with
  | nil =>
    simp only [afterStatement]
    rw [hremaining] at hcounts
    obtain rfl : w.staged = staged := congrArg Prod.fst hcounts
    exact nextStatement_ruled hstore htable htransacts.nodup htotal (hremaining ▸ h)
  | cons first rest =>
    obtain ⟨made, before, hmade, hstaged, hfits⟩ := h
    rw [hremaining, List.headD_cons] at hcounts
    rw [hremaining, List.flatten_cons, ← List.append_assoc] at hmade
    have hnodup := htransacts.nodup
    simp only [afterStatement, htransacts.checkStatement hremaining hcounts]
    cases hfound : first.find? fun u => !t.fits u with
    | some u =>
      obtain ⟨hmissed, front, back, rfl, hfront⟩ := List.find?_eq_some_iff_append.mp hfound
      have hfront' : ∀ v ∈ made ++ front, t.fits v = true := by
        intro v hv
        rcases List.mem_append.mp hv with hv | hv
        · exact hfits v hv
        · simpa using hfront v hv
      have hsplit : (made ++ front) ++ u :: (back ++ rest.flatten) = updates := by
        rw [← hmade]
        simp
      have hverdict := Table.verdict_conflict (hsplit ▸ hnodup) hfront' (by simpa using hmissed)
      rw [hsplit] at hverdict
      have hstore' : (e.note (.stored job .rollback)).desk.store = .table 0 := hstore
      simp only [rollBack, hstore', endWrite_turn]
      refine ⟨by rw [hverdict], ?_⟩
      rw [Table.afterWrite, hverdict]
      exact (endWrite_floor (e.note (.stored job .rollback)) job _).table.trans htable
    | none =>
      refine nextStatement_ruled hstore htable hnodup htotal
        ⟨made ++ first, before ++ counts, hmade, ?_, ?_⟩
      · rw [Table.stageAll_append hstaged, hcounts]
        rfl
      · intro v hv
        rcases List.mem_append.mp hv with hv | hv
        · exact hfits v hv
        · simpa using List.find?_eq_none.mp hfound v hv

/-- **A turn of a status write that has the table** leads on at once or has come to the verdict. -/
theorem writeTurn_ruled (hstore : e.desk.store = .table 0) (htable : e.ledger.table = t)
    (hraisable : t.Raisable) (hholder : e.ledger.holder = some job)
    (htransacts : Transacts t updates w) (htotal : w.total = updates.length)
    (hdue : ∀ due, w.step = .stating due → due ≤ e.now) (h : Advances t updates w) :
    TurnRuled t updates (e.writeTurn job w).1 (e.writeTurn job w).2 := by
  rcases htransacts.onTable with hstep | ⟨due, hstep⟩
  · simp only [writeTurn, hstep, hholder, ↓reduceIte]
    exact nextStatement_ruled hstore htable htransacts.nodup htotal h
  · obtain ⟨staged, counts, hcounts⟩ := htransacts.statement_ok hraisable
    simp only [writeTurn, hstep, htable, hcounts, hdue due hstep, ↓reduceIte]
    exact afterStatement_ruled hstore htable htransacts htotal h hcounts

end Turns

/-! ### The whole write -/

/-- Where a status write stands that nothing hinders. -/
def Ruled (t : Table) (updates : List StatusUpdate) (e : Engine P R) : Stage P R → Prop
  | .arriving _ => True
  | .writing _ run => (∀ due, run.step = .stating due → due ≤ e.now) ∧ Advances t updates run
  | .finished _ ending => ending = .ok ((t.verdict updates).map .written) ∧
      e.ledger.table = t.afterWrite updates
  | _ => False

theorem followWrite_ruled {t : Table} {updates : List StatusUpdate}
    {turn : Engine P R × WriteTurn} (h : TurnRuled t updates turn.1 turn.2) :
    Ruled t updates (followWrite (.write updates) none turn).1
      (followWrite (.write updates) none turn).2 := by
  rcases turn with ⟨e, run | crash | error | rows⟩
  · exact h
  · cases h.1
  · have hverdict := Except.ok.inj h.1
    simp only [followWrite, conclude_eq]
    exact ⟨by rw [← hverdict]; rfl, h.2⟩
  · have hverdict := Except.ok.inj h.1
    simp only [followWrite, conclude_eq]
    exact ⟨by rw [← hverdict]; rfl, h.2⟩

/-- One job writes these updates, and nobody else writes anything or comes for the table. -/
structure Unhindered (t : Table) (number : Nat) (updates : List StatusUpdate) (e : Engine P R) :
    Prop where
  writer : Writer t number updates e
  store : e.desk.store = .table 0
  clear : ∀ j ∈ e.jobs, j.number ≠ number → j.assignment.isOccupation = false
  ruled : ∀ j ∈ e.jobs, j.number = number → Ruled t updates e j.stage

/-- Who is alone at the table has it. -/
theorem Unhindered.holder {t : Table} {number : Nat} {updates : List StatusUpdate}
    {e : Engine P R} (h : Unhindered t number updates e) {j : Job P R} (hj : j ∈ e.jobs)
    (hnumber : j.number = number) (htable : j.stage.isAtTable = true) :
    e.ledger.holder = some j.number := by
  have hwf := h.writer.guarded.wellFormed
  have hcustody := h.writer.guarded.custody
  have hline := (hcustody.mem_line hwf hj).mpr htable
  cases hholder : e.ledger.holder with
  | none =>
    rw [Ledger.line, hholder, hcustody.fair hholder] at hline
    cases hline
  | some n =>
    have hmem : n ∈ e.ledger.line := by
      rw [Ledger.line, hholder]
      exact List.mem_cons_self
    obtain ⟨k, hk, rfl, hktable⟩ := (hcustody.line n).mp hmem
    by_cases hown : k.number = number
    · rw [hown, hnumber]
    · have hsound := hwf.sound k hk
      obtain ⟨_, hwriting⟩ := h.writer.alone.others k hk hown
      have hclear := h.clear k hk hown
      obtain ⟨n, a, stage, turn⟩ := k
      cases stage with
      | approaching | occupying due =>
        rw [show a.isOccupation = true from hsound] at hclear
        cases hclear
      | writing result run => cases hwriting
      | _ => cases hktable

/-- **A turn of a status write that nothing hinders.** -/
theorem Unhindered.jobTurn {t : Table} {number : Nat} {updates : List StatusUpdate}
    {e : Engine P R} (h : Unhindered t number updates e) (hraisable : t.Raisable) {j : Job P R}
    (hj : j ∈ e.jobs) (hnumber : j.number = number) (hready : j.isReady e = true) :
    Ruled t updates (e.jobTurn j).1 (e.jobTurn j).2 := by
  obtain ⟨hassignment, hstands⟩ := h.writer.stands j hj hnumber
  have hruled := h.ruled j hj hnumber
  have hkept := h.writer.alone.own j hj hnumber
  have hholder := h.holder hj hnumber
  obtain ⟨n, a, stage, turn⟩ := j
  obtain rfl : a = .write updates := hassignment
  cases stage with
  | arriving due => exact followWrite_ruled (openWrite_ruled h.store hkept)
  | writing result run =>
    obtain ⟨rfl, htotal⟩ := hstands
    obtain ⟨htable, _, _, _, htransacts⟩ := hkept
    exact followWrite_ruled (writeTurn_ruled h.store htable hraisable (hholder rfl) htransacts
      htotal hruled.1 hruled.2)
  | finished time ending => cases hready
  | _ => cases hruled

theorem Ruled.congr {t : Table} {updates : List StatusUpdate} {e e' : Engine P R}
    {stage : Stage P R} (h : Ruled t updates e stage) (hnow : e'.now = e.now)
    (htable : e'.ledger.table = e.ledger.table) : Ruled t updates e' stage := by
  unfold Ruled at h ⊢
  rwa [hnow, htable]

theorem Move.unhindered {t : Table} {number : Nat} {updates : List StatusUpdate}
    {e e' : Engine P R} (hmove : Move e e') (hraisable : t.Raisable)
    (h : Unhindered t number updates e) : Unhindered t number updates e' := by
  have hwf := h.writer.guarded.wellFormed
  refine ⟨hmove.writer hraisable h.writer, (hmove.desk hwf).symm ▸ h.store, ?_, ?_⟩
  · intro k hk hne
    rcases hmove.mem_jobs hwf hk with hold | ⟨j, hj, _, rfl⟩
    · exact h.clear k hold hne
    · exact h.clear j hj hne
  · cases hmove with
    | @worker w member ready =>
      have hhouse := workerTurn_house e w
      intro j hj hnumber
      have hjobs : (e.serveWorker w).jobs = e.jobs := hhouse.jobs
      have hledger : (e.serveWorker w).ledger = e.ledger := hhouse.ledger
      exact (h.ruled j (hjobs ▸ hj) hnumber).congr hhouse.now (by rw [hledger])
    | @job j member ready =>
      intro k hk hnumber
      rcases mem_serveJob hwf member ready hk with rfl | ⟨hk, hne⟩
      · exact (h.jobTurn hraisable member hnumber ready).congr rfl rfl
      · -- somebody else has had its turn, who does not write
        obtain ⟨hwriter, hwriting⟩ :=
          h.writer.alone.others j member fun hsame => hne (hnumber.trans hsame.symm)
        obtain ⟨_, htable, _⟩ := jobTurn_of_not_isWriter hwf member ready h.writer.alone.ordinary
          hwriter hwriting
        have hnow := (jobTurn_turn e j (hwf.sound j member) ready).sameJobs.now
        exact (h.ruled k hk hnumber).congr hnow htable
    | @tick time quiet due =>
      intro j hj hnumber
      have hruled := h.ruled j hj hnumber
      have hidle := quiet.jobs j hj
      obtain ⟨n, a, stage, turn⟩ := j
      cases stage with
      | writing result run =>
        refine ⟨fun due hdue => ?_, hruled.2⟩
        -- a statement that is due would be served before the clock moves
        simp only [Job.isReady, WriteRun.isReady, WriteRun.hasCome, hdue, hruled.1 due hdue,
          decide_true, Bool.true_or] at hidle
        cases hidle
      | _ => exact hruled

theorem Course.unhindered {t : Table} {number : Nat} {updates : List StatusUpdate}
    {e e' : Engine P R} (hcourse : Course e e') (hraisable : t.Raisable)
    (h : Unhindered t number updates e) : Unhindered t number updates e' :=
  hcourse.keeps (fun hmove => hmove.unhindered hraisable) h

theorem AtRest.unhindered {e : Engine P R} (hrest : e.AtRest) (hordinary : e.Ordinary)
    (hstore : e.desk.store = .table 0) (hfree : e.ledger.Free)
    {assignments : List (Nat × Assignment P)} {i wait : Nat} {updates : List StatusUpdate}
    (hassigned : assignments[i]? = some (wait, .write updates))
    (halone : ∀ k x, assignments[k]? = some x → k ≠ i →
      x.2.isWriter = false ∧ x.2.isOccupation = false) :
    Unhindered e.ledger.table (e.nextNumber + i) updates (e.addJobs assignments).unturned := by
  refine ⟨hrest.writer hordinary hfree hassigned fun k x hx hne => (halone k x hx hne).1, ?_, ?_, ?_⟩
  · rw [addJobs_eq]
    exact hstore
  · intro j hj hne
    obtain ⟨k, wait, _, hassigned, hnumber⟩ := hrest.exists_assignment .refl hj
    exact (halone k _ hassigned (by omega)).2
  · intro j hj _
    obtain ⟨due, hstage⟩ := hrest.arriving hj
    rw [hstage]
    trivial

/-- **What a status write comes to** on a free table that answers at once, beside assignments that
neither write nor come for the table. -/
theorem perform_write {e : Engine P R} (hrest : e.AtRest) (hordinary : e.Ordinary)
    (hstore : e.desk.store = .table 0) (hfree : e.ledger.Free)
    (hraisable : e.ledger.table.Raisable) {assignments : List (Nat × Assignment P)} {i wait : Nat}
    {updates : List StatusUpdate} (hassigned : assignments[i]? = some (wait, .write updates))
    (halone : ∀ k x, assignments[k]? = some x → k ≠ i →
      x.2.isWriter = false ∧ x.2.isOccupation = false) :
    ∃ time, (e.perform assignments).2[i]? =
        some (some (time, .ok ((e.ledger.table.verdict updates).map .written))) ∧
      (e.perform assignments).1.ledger.table = e.ledger.table.afterWrite updates := by
  obtain ⟨done, hcourse, hsettled, hwf, hdone, hendings⟩ := perform_course hrest assignments
  have hledger : (e.perform assignments).1.unturned.ledger = done.ledger := by rw [hdone]
  have hunhindered := Course.unhindered hcourse hraisable
    (hrest.unhindered hordinary hstore hfree hassigned halone)
  obtain ⟨j, hj, hnumber, hassignment⟩ := hrest.exists_job hcourse hassigned
  have hmem := List.mem_of_getElem? hj
  obtain ⟨time, ending, hstage⟩ := hsettled.finished hwf hmem (by rw [hassignment]; rfl)
  obtain ⟨rfl, htable⟩ : ending = .ok ((e.ledger.table.verdict updates).map .written) ∧
      done.ledger.table = e.ledger.table.afterWrite updates := by
    have hruled := hunhindered.ruled j hmem hnumber
    rwa [hstage] at hruled
  refine ⟨time, ?_, (congrArg Ledger.table hledger).trans htable⟩
  rw [hendings, List.getElem?_map, hj, Option.map_some, Job.ending?, hstage]

/-- The engine with statements of this size. -/
def withStatements (e : Engine P R) (size : Nat) : Engine P R :=
  { e with desk := { e.desk with persistence := { e.desk.persistence with chunkSize := size } } }

theorem performOne_write {e : Engine P R} (hrest : e.AtRest) (hordinary : e.Ordinary)
    (hstore : e.desk.store = .table 0) (hfree : e.ledger.Free)
    (hraisable : e.ledger.table.Raisable) (updates : List StatusUpdate) (size : Nat) :
    ((e.withStatements size).performOne (.write updates)).2 =
        some (.ok ((e.ledger.table.verdict updates).map .written)) ∧
      ((e.withStatements size).performOne (.write updates)).1.ledger.table =
        e.ledger.table.afterWrite updates := by
  have hrest' : (e.withStatements size).AtRest := ⟨hrest.workers, hrest.jobs, hrest.past⟩
  have hordinary' : (e.withStatements size).Ordinary := ⟨hordinary.store, hordinary.faithful⟩
  have hassigned : [(0, Assignment.write updates)][0]? = some (0, .write (P := P) updates) := rfl
  obtain ⟨time, hending, htable⟩ := perform_write hrest' hordinary' hstore hfree hraisable hassigned (by
    intro k x hx hne
    rw [List.getElem?_singleton, if_neg hne] at hx
    cases hx)
  refine ⟨?_, htable⟩
  simp only [performOne, List.head?_eq_getElem?, hending]
  rfl

/-- **The size of statements does not matter.** On a table that is free and answers at once, and in
which no version is the largest there is, a status write comes to the same and leaves the same table
with statements of any size. It is refused if it names an order twice; it writes all its updates if each
of them finds its row with the expected version; and otherwise it names the first update, in the order
in which they were given, that does not, and leaves the table as it was. -/
theorem statement_size_does_not_matter {e : Engine P R} (hrest : e.AtRest)
    (hordinary : e.Ordinary) (hstore : e.desk.store = .table 0) (hfree : e.ledger.Free)
    (hraisable : e.ledger.table.Raisable) (updates : List StatusUpdate) :
    let t := e.ledger.table
    let finds (u : StatusUpdate) :=
      ∃ row, t.get? u.orderId = some row ∧ row.version = u.expectedVersion
    let done (size : Nat) := (e.withStatements size).performOne (.write updates)
    (∀ size size', (done size).2 = (done size').2 ∧
      (done size).1.ledger.table = (done size').1.ledger.table) ∧
    ∀ size,
      (¬ (updates.map (·.orderId)).Nodup → ∃ id, 2 ≤ (updates.map (·.orderId)).count id ∧
        (done size).2 = some (.ok (.error (.invalid (.repeatedUpdate id)))) ∧
        (done size).1.ledger.table = t) ∧
      ((updates.map (·.orderId)).Nodup → (∀ u ∈ updates, finds u) →
        (done size).2 = some (.ok (.ok (.written updates.length))) ∧
        Written t updates (done size).1.ledger.table) ∧
      ((updates.map (·.orderId)).Nodup → ¬ (∀ u ∈ updates, finds u) →
        ∃ before u after, updates = before ++ u :: after ∧ (∀ v ∈ before, finds v) ∧ ¬ finds u ∧
          (done size).2 = some (.ok (.error (.versionConflict u.orderId u.expectedVersion))) ∧
          (done size).1.ledger.table = t) := by
  intro t finds done
  have hdone (size : Nat) : (done size).2 = some (.ok ((t.verdict updates).map .written)) ∧
      (done size).1.ledger.table = t.afterWrite updates :=
    performOne_write hrest hordinary hstore hfree hraisable updates size
  have hfinds (u : StatusUpdate) : finds u ↔ t.fits u = true := Table.fits_iff.symm
  refine ⟨fun size size' => ⟨?_, ?_⟩, fun size => ⟨?_, ?_, ?_⟩⟩
  · rw [(hdone size).1, (hdone size').1]
  · rw [(hdone size).2, (hdone size').2]
  · intro hrepeats
    obtain ⟨id, hcount, hverdict⟩ := Table.verdict_repeated (t := t) hrepeats
    refine ⟨id, hcount, ?_, ?_⟩
    · rw [(hdone size).1, hverdict]
      rfl
    · rw [(hdone size).2, Table.afterWrite, hverdict]
  · intro hnodup hall
    have hfits : ∀ u ∈ updates, t.fits u = true := fun u hu => (hfinds u).mp (hall u hu)
    rw [(hdone size).1, (hdone size).2, Table.verdict_ok hnodup hfits]
    exact ⟨rfl, Table.written_afterWrite hraisable hnodup hfits⟩
  · intro hnodup hsome
    cases hfound : updates.find? fun u => !t.fits u with
    | none =>
      refine absurd (fun u hu => (hfinds u).mpr ?_) hsome
      simpa using List.find?_eq_none.mp hfound u hu
    | some u =>
      obtain ⟨hmissed, before, after, rfl, hbefore⟩ := List.find?_eq_some_iff_append.mp hfound
      have hmissed' : t.fits u = false := by simpa using hmissed
      have hbefore' : ∀ v ∈ before, t.fits v = true := by
        intro v hv
        simpa using hbefore v hv
      have hverdict := Table.verdict_conflict hnodup hbefore' hmissed'
      refine ⟨before, u, after, rfl, fun v hv => (hfinds v).mpr (hbefore' v hv), ?_, ?_, ?_⟩
      · rw [hfinds, hmissed']
        exact Bool.false_ne_true
      · rw [(hdone size).1, hverdict]
        rfl
      · rw [(hdone size).2, Table.afterWrite, hverdict]

/-- Of three updates the last two meet other versions, and the second one is named with statements of
one row and of three. -/
theorem second_of_three_is_named :
    let update (id version : Int) : StatusUpdate :=
      { orderId := id, expectedVersion := version, status := .filled, extra := none }
    let updates := [update 1 0, update 2 7, update 3 9]
    let e := begun (.forStatuses {} (.table 0)) {} {} none (Table.ofIds [1, 2, 3]) 0
    let done (size : Nat) := (e.withStatements size).performOne (.write updates)
    e.AtRest ∧ e.Ordinary ∧ e.desk.store = .table 0 ∧ e.ledger.Free ∧ e.ledger.table.Raisable ∧
      (done 1).2 = (done 3).2 ∧ (done 1).2 = some (.ok (.error (.versionConflict 2 7))) := by
  intro update updates e done
  have hrest : e.AtRest := begun_atRest _ _ _ _ _ _
  have hordinary : e.Ordinary := ⟨⟨0, rfl⟩, begun_faithful _ _ _ _ _ _⟩
  have hfree : e.ledger.Free := ⟨rfl, rfl⟩
  have hraisable : e.ledger.table.Raisable := Table.raisable_of_rows (by decide)
  obtain ⟨hsame, hcases⟩ :=
    statement_size_does_not_matter hrest hordinary rfl hfree hraisable updates
  have hfirst : ∃ row, e.ledger.table.get? 1 = some row ∧ row.version = 0 := ⟨_, rfl, rfl⟩
  have hsecond : ¬ ∃ row, e.ledger.table.get? 2 = some row ∧ row.version = 7 := by
    rintro ⟨row, hrow, hversion⟩
    obtain rfl : .pending 0 = row := Option.some.inj hrow
    cases hversion
  obtain ⟨before, u, after, hsplit, hbefore, hmissed, hending, _⟩ := (hcases 1).2.2 (by decide)
    fun hall => hsecond (hall (update 2 7) (List.mem_cons_of_mem _ List.mem_cons_self))
  refine ⟨hrest, hordinary, rfl, hfree, hraisable, (hsame 1 3).1, ?_⟩
  match before with
  | [] =>
    obtain rfl : update 1 0 = u := (List.cons.inj hsplit).1
    exact absurd hfirst hmissed
  | [_] =>
    obtain rfl : update 2 7 = u := (List.cons.inj (List.cons.inj hsplit).2).1
    exact hending
  | _ :: v :: _ =>
    obtain rfl : update 2 7 = v := (List.cons.inj (List.cons.inj hsplit).2).1
    exact absurd (hbefore _ (List.mem_cons_of_mem _ List.mem_cons_self)) hsecond

end Engine

end OrderAdmission
