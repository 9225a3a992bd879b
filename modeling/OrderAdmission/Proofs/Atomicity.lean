import OrderAdmission.Proofs.Custody
import OrderAdmission.Proofs.Recording

/-!
# All or nothing

A status write is cut into statements, it may wait for the table for a long time, and it may meet a
row that has changed, or its time limit, after rows have been staged. However it comes to an end, **all
of its updates are in the table or none of them is** (`write_is_all_or_nothing`), and the table is there
for whoever comes next.

What is staged and what is committed has been followed in `StageKept`, and who has the table in
`Custody`. What is added here is how a status write ends: with the number of its updates or with an
error, and never in a crash as long as no row has the largest version there is.
-/
namespace OrderAdmission

variable {P R : Type}

/-! ### Versions that can be raised -/

namespace Table

/-- No row has the largest version there is. -/
def Raisable (t : Table) : Prop := ∀ id row, t.get? id = some row → row.version < maxSigned

variable {t staged : Table}

theorem raisable_of_rows (h : ∀ entry ∈ t, entry.2.version < maxSigned) : t.Raisable := by
  intro id row hrow
  obtain ⟨before, after, rfl, _⟩ := List.lookup_eq_some_iff.mp hrow
  exact h (id, row) (List.mem_append_right _ List.mem_cons_self)

/-- An update can be made of a row that is not yet staged, if the version that it finds can be raised; it
stages nothing else. -/
theorem stage_ok {u : StatusUpdate}
    (hroom : ∀ row, t.get? u.orderId = some row → row.version = u.expectedVersion →
      row.version < maxSigned)
    (hnew : staged.get? u.orderId = none) :
    ∃ staged' n, t.stage staged u = (staged', .ok n) ∧
      ∀ id, id ≠ u.orderId → staged'.get? id = staged.get? id := by
  have hseen : t.seen staged u.orderId = t.get? u.orderId := by simp [seen, hnew]
  unfold stage
  rw [hseen]
  cases hrow : t.get? u.orderId with
  | none => exact ⟨staged, 0, rfl, fun _ _ => rfl⟩
  | some row =>
    by_cases hversion : row.version = u.expectedVersion
    · simp only [if_pos hversion, if_pos (hroom row hrow hversion)]
      refine ⟨_, 1, rfl, ?_⟩
      intro id hne
      rw [get?_put, if_neg hne]
    · simp only [if_neg hversion]
      exact ⟨staged, 0, rfl, fun _ _ => rfl⟩

/-- A statement on rows that are not yet staged comes to its row counts, if all versions that it finds can
be raised. -/
theorem stageAll_ok {updates : List StatusUpdate}
    (hroom : ∀ u ∈ updates, ∀ row, t.get? u.orderId = some row → row.version = u.expectedVersion →
      row.version < maxSigned)
    (hnodup : (updates.map (·.orderId)).Nodup)
    (hnew : ∀ u ∈ updates, staged.get? u.orderId = none) :
    ∃ staged' counts, t.stageAll staged updates = (staged', .ok counts) := by
  induction updates generalizing staged with
  | nil => exact ⟨staged, [], rfl⟩
  | cons u rest ih =>
    obtain ⟨hfirst, hrest⟩ := List.nodup_cons.mp hnodup
    obtain ⟨staged₁, n, hstage, hothers⟩ :=
      stage_ok (hroom u List.mem_cons_self) (hnew u List.mem_cons_self)
    have hnew₁ : ∀ v ∈ rest, staged₁.get? v.orderId = none := by
      intro v hv
      have hne : v.orderId ≠ u.orderId :=
        fun hsame => hfirst (List.mem_map.mpr ⟨v, hv, hsame⟩)
      rw [hothers _ hne, hnew v (List.mem_cons_of_mem _ hv)]
    have hroom₁ := fun v hv => hroom v (List.mem_cons_of_mem u hv)
    obtain ⟨staged', counts, hrest'⟩ := ih hroom₁ hrest hnew₁
    exact ⟨staged', n :: counts, by simp only [stageAll, hstage, hrest']⟩

end Table

/-- The next statement of a transaction names different orders, none of which it has staged. -/
theorem Transacts.fresh {t : Table} {updates first : List StatusUpdate}
    {rest : List (List StatusUpdate)} {run : WriteRun} (h : Transacts t updates run)
    (hremaining : run.remaining = first :: rest) :
    (first.map (·.orderId)).Nodup ∧ ∀ u ∈ first, run.staged.get? u.orderId = none := by
  obtain ⟨made, hmade, hstaged⟩ := h.staged
  have hids := h.nodup
  rw [← hmade, hremaining, List.flatten_cons, List.map_append, List.map_append,
    List.nodup_append, List.nodup_append] at hids
  obtain ⟨_, ⟨hfirst, _, _⟩, hapart⟩ := hids
  refine ⟨hfirst, ?_⟩
  intro u hu
  refine hstaged.others _ fun hmem => ?_
  exact hapart _ hmem _ (List.mem_append_left _ (List.mem_map_of_mem hu)) rfl

theorem Transacts.statement_ok {t : Table} {updates : List StatusUpdate} {run : WriteRun}
    (h : Transacts t updates run) (hraisable : t.Raisable) :
    ∃ staged counts, t.stageAll run.staged (run.remaining.headD []) = (staged, .ok counts) := by
  cases hremaining : run.remaining with
  | nil => exact ⟨run.staged, [], rfl⟩
  | cons first rest =>
    obtain ⟨hfirst, hnew⟩ := h.fresh hremaining
    exact Table.stageAll_ok (fun u _ row hrow _ => hraisable u.orderId row hrow) hfirst hnew

namespace Engine

/-! ### How a status write ends -/

/-- What a turn of a status write with so many updates leads to. -/
def Counts (total : Nat) : WriteTurn → Prop
  | .goesOn run => run.total = total
  | .ends (.ok (.ok rows)) => rows = total
  | .ends (.ok (.error _)) => True
  | .ends (.error _) => False

section Turns

variable {e : Engine P R} {job latency : Nat} {w : WriteRun}

theorem openWrite_counts (hstore : e.desk.store = .table latency) (updates : List StatusUpdate) :
    Counts updates.length (e.openWrite job updates).2 := by
  simp only [openWrite, hstore]
  split
  · rename_i hempty
    rw [List.isEmpty_iff.mp hempty]
    rfl
  · split
    · trivial
    · rfl

theorem nextStatement_counts (hstore : e.desk.store = .table latency) :
    Counts w.total (e.nextStatement job w).2 := by
  cases hremaining : w.remaining with
  | nil =>
    rw [nextStatement_commit e job w latency hremaining hstore, endWrite_turn]
    rfl
  | cons updates rest =>
    simp only [nextStatement, hremaining, hstore]
    rfl

theorem afterStatement_counts (hstore : e.desk.store = .table latency) (counts : List Nat) :
    Counts w.total (e.afterStatement job w counts).2 := by
  cases hremaining : w.remaining with
  | nil =>
    simp only [afterStatement, hremaining]
    exact nextStatement_counts hstore
  | cons updates rest =>
    simp only [afterStatement, hremaining]
    split
    · have hstore' : (e.note (.stored job .rollback)).desk.store = .table latency := hstore
      simp only [rollBack, hstore', endWrite_turn]
      trivial
    · exact nextStatement_counts (w := { w with remaining := rest, made := w.made + 1 }) hstore

theorem writeTurn_counts {t : Table} {updates : List StatusUpdate}
    (hstore : e.desk.store = .table latency) (htable : e.ledger.table = t)
    (h : Transacts t updates w) (hraisable : t.Raisable) :
    Counts w.total (e.writeTurn job w).2 := by
  have hcut : Counts w.total (e.cutWrite job).2 := by
    rw [cutWrite, endWrite_turn]
    trivial
  rcases h.onTable with hstep | ⟨due, hstep⟩
  · simp only [writeTurn, hstep]
    split
    · exact nextStatement_counts hstore
    · exact hcut
  · obtain ⟨staged, counts, hcounts⟩ := h.statement_ok hraisable
    simp only [writeTurn, hstep, htable, hcounts]
    split
    · exact afterStatement_counts (w := { w with staged }) hstore counts
    · exact hcut

end Turns

/-- Where a status write stands: it has yet to begin, goes on, or has ended with the number of its
updates or with an error. -/
def WriteStands (updates : List StatusUpdate) : Stage P R → Prop
  | .arriving _ => True
  | .writing result run => result = none ∧ run.total = updates.length
  | .finished _ (.ok (.ok (.written rows))) => rows = updates.length
  | .finished _ (.ok (.error _)) => True
  | _ => False

theorem followWrite_stands {updates : List StatusUpdate} {turn : Engine P R × WriteTurn}
    (h : Counts updates.length turn.2) :
    WriteStands updates (followWrite (.write updates) none turn).2 := by
  rcases turn with ⟨e, run | crash | error | rows⟩
  · exact ⟨rfl, h⟩
  · cases h
  · simp only [followWrite, conclude_eq]
    trivial
  · simp only [followWrite, conclude_eq]
    exact h

/-- One job writes these updates, and nobody else writes anything. -/
structure Writer (t : Table) (number : Nat) (updates : List StatusUpdate) (e : Engine P R) :
    Prop where
  guarded : e.Guarded
  alone : Alone t number e
  stands : ∀ j ∈ e.jobs, j.number = number →
    j.assignment = .write updates ∧ WriteStands updates j.stage

/-- **A turn of a status write leads on, to the number of its updates, or to an error.** -/
theorem jobTurn_stands {t : Table} {e : Engine P R} {j : Job P R} {updates : List StatusUpdate}
    (hkept : Kept t e j.assignment j.stage) (hraisable : t.Raisable)
    (hassignment : j.assignment = .write updates) (h : WriteStands updates j.stage)
    (hready : j.isReady e = true) : WriteStands updates (e.jobTurn j).2 := by
  obtain ⟨latency, hstore⟩ := hkept.ordinary.store
  obtain ⟨number, a, stage, turn⟩ := j
  obtain rfl : a = .write updates := hassignment
  cases stage with
  | arriving due => exact followWrite_stands (openWrite_counts hstore updates)
  | writing result run =>
    obtain ⟨rfl, htotal⟩ := h
    obtain ⟨htable, _, _, _, htransacts⟩ := hkept.stage
    refine followWrite_stands ?_
    rw [← htotal]
    exact writeTurn_counts hstore htable htransacts hraisable
  | finished time ending => cases hready
  | _ => cases h

theorem Move.writer {t : Table} {number : Nat} {updates : List StatusUpdate} {e e' : Engine P R}
    (hmove : Move e e') (hraisable : t.Raisable) (h : Writer t number updates e) :
    Writer t number updates e' := by
  have hwf := h.guarded.wellFormed
  refine ⟨hmove.guarded h.guarded, hmove.alone hwf h.alone, hmove.own hwf h.stands ?_⟩
  intro j hj hnumber hready
  obtain ⟨hassignment, hstands⟩ := h.stands j hj hnumber
  have hkept : Kept t e j.assignment j.stage := ⟨h.alone.ordinary, h.alone.own j hj hnumber⟩
  exact jobTurn_stands hkept hraisable hassignment hstands hready

theorem Course.writer {t : Table} {number : Nat} {updates : List StatusUpdate}
    {e e' : Engine P R} (hcourse : Course e e') (hraisable : t.Raisable)
    (h : Writer t number updates e) : Writer t number updates e' :=
  hcourse.keeps (fun hmove => hmove.writer hraisable) h

theorem AtRest.writer {e : Engine P R} (hrest : e.AtRest) (hordinary : e.Ordinary)
    (hfree : e.ledger.Free) {assignments : List (Nat × Assignment P)} {i wait : Nat}
    {updates : List StatusUpdate} (hassigned : assignments[i]? = some (wait, .write updates))
    (halone : ∀ k x, assignments[k]? = some x → k ≠ i → x.2.isWriter = false) :
    Writer e.ledger.table (e.nextNumber + i) updates (e.addJobs assignments).unturned := by
  refine ⟨hrest.guarded hordinary.store hfree assignments, hrest.alone hordinary halone, ?_⟩
  intro j hj hnumber
  obtain rfl := hrest.newcomer hassigned hj hnumber
  exact ⟨rfl, trivial⟩

/-! ### The end -/

/-- All updates are in the table, or none is: each updated row had the expected version and has the
next one, the new status, and what the update says beside the status or else what stood there. -/
def AllOrNothing (t : Table) (updates : List StatusUpdate) (t' : Table) : Ending R → Prop
  | .ok (.ok (.written rows)) => rows = updates.length ∧
      (∀ u ∈ updates, ∃ row, t.get? u.orderId = some row ∧ row.version = u.expectedVersion ∧
        t'.get? u.orderId = some
          { status := u.status, version := row.version + 1, extra := u.extra <|> row.extra }) ∧
      ∀ id, (∀ u ∈ updates, u.orderId ≠ id) → t'.get? id = t.get? id
  | .ok (.error _) => t' = t
  | _ => False

/-- Until the write has ended the table is as it was, and then all updates are in it or none; and the
write has left the table to others. -/
theorem Writer.allOrNothing {t : Table} {number : Nat} {updates : List StatusUpdate}
    {e : Engine P R} (h : Writer t number updates e) {j : Job P R} (hj : j ∈ e.jobs)
    (hnumber : j.number = number) :
    (j.ending? = none → e.ledger.table = t) ∧
      ∀ time ending, j.ending? = some (time, ending) →
        AllOrNothing t updates e.ledger.table ending ∧ j.number ∉ e.ledger.line := by
  obtain ⟨hassignment, hstands⟩ := h.stands j hj hnumber
  obtain ⟨hunended, hended⟩ := h.alone.kept hj hnumber
  refine ⟨hunended, ?_⟩
  intro time ending hending
  have hkept := hended time ending hending
  rw [hassignment] at hkept
  rw [ending?_eq_some hending] at hstands
  refine ⟨?_, h.guarded.left hj hending⟩
  rcases ending with crash | error | receipt
  · cases hstands
  · exact hkept
  · cases receipt with
    | written rows =>
      have hwritten : Written t updates e.ledger.table := hkept.2
      exact ⟨hstands, fun u hu => hwritten.updated hu, fun id hid => hwritten.others hid⟩
    | _ => cases hstands

theorem Settled.free {e : Engine P R} (hsettled : e.Settled) (h : e.Guarded)
    (hleaves : ∀ j ∈ e.jobs, j.assignment ≠ .occupy none) : e.ledger.Free := by
  -- Whoever is at the table waits for it, since nobody has anything due.
  have hwaits : ∀ j ∈ e.jobs, j.stage.isAtTable = true → j.stage = .approaching := by
    intro j hj htable
    have hdue := hsettled.due_job hj
    have hsound := h.wellFormed.sound j hj
    have hsuits := h.suited j hj
    have hleave := hleaves j hj
    obtain ⟨number, a, stage, turn⟩ := j
    cases stage with
    | approaching => rfl
    | occupying due =>
      obtain rfl : due = none := hdue
      cases a with
      | occupy stay =>
        cases stay with
        | none => exact absurd rfl hleave
        | some stay => cases hsuits
      | _ => cases hsound
    | writing result run => cases hdue
    | _ => cases htable
  refine h.custody.free ?_
  intro j hj
  rw [Bool.eq_false_iff]
  intro htable
  -- Somebody at the table is the holder, and would be served.
  obtain ⟨n, hholder⟩ : ∃ n, e.ledger.holder = some n := by
    cases hholder : e.ledger.holder with
    | some n => exact ⟨n, rfl⟩
    | none =>
      have hline := (h.custody.mem_line h.wellFormed hj).mpr htable
      rw [Ledger.line, hholder, h.custody.fair hholder] at hline
      cases hline
  have hmem : n ∈ e.ledger.line := by
    rw [Ledger.line, hholder]
    exact List.mem_cons_self
  obtain ⟨k, hk, rfl, hktable⟩ := (h.custody.line n).mp hmem
  have hquiet := hsettled.quiet.jobs k hk
  rw [Job.isReady, hwaits k hk hktable, hholder] at hquiet
  simp at hquiet

/-- **All or nothing.** Let a status write be one of several assignments, the only one that writes,
beside whoever keeps the table and for however long, on a table that is free at first and in which no
version is the largest there is. Until it has ended the table is as it was. If it has ended with a
number of rows, that is the number of its updates and all of them are in the table, each by one
version, and no other row has changed; and otherwise it has ended with an error, and the table is as it
was. In both cases it has left the table to others. What is performed ends in one of these ways, and
with a free table unless somebody has come to stay. -/
theorem write_is_all_or_nothing {e : Engine P R} (hrest : e.AtRest) (hordinary : e.Ordinary)
    (hfree : e.ledger.Free) (hraisable : e.ledger.table.Raisable)
    {assignments : List (Nat × Assignment P)} {i wait : Nat} {updates : List StatusUpdate}
    (hassigned : assignments[i]? = some (wait, .write updates))
    (halone : ∀ k x, assignments[k]? = some x → k ≠ i → x.2.isWriter = false) :
    (∀ e', Course (e.addJobs assignments).unturned e' → ∃ j ∈ e'.jobs,
      j.number = e.nextNumber + i ∧ j.assignment = .write updates ∧
      (j.ending? = none → e'.ledger.table = e.ledger.table) ∧
      ∀ time ending, j.ending? = some (time, ending) →
        AllOrNothing e.ledger.table updates e'.ledger.table ending ∧
          j.number ∉ e'.ledger.line) ∧
    ∃ time ending, (e.perform assignments).2[i]? = some (some (time, ending)) ∧
      AllOrNothing e.ledger.table updates (e.perform assignments).1.ledger.table ending ∧
      e.nextNumber + i ∉ (e.perform assignments).1.ledger.line ∧
      ((∀ x ∈ assignments, x.2 ≠ .occupy none) → (e.perform assignments).1.ledger.Free) := by
  have hstart := hrest.writer hordinary hfree hassigned halone
  have hwrites (e' : Engine P R) (hcourse : Course (e.addJobs assignments).unturned e') :
      ∃ j, e'.jobs[i]? = some j ∧ j.number = e.nextNumber + i ∧ j.assignment = .write updates ∧
        (j.ending? = none → e'.ledger.table = e.ledger.table) ∧
        ∀ time ending, j.ending? = some (time, ending) →
          AllOrNothing e.ledger.table updates e'.ledger.table ending ∧
            j.number ∉ e'.ledger.line := by
    obtain ⟨j, hj, hnumber, hassignment⟩ := hrest.exists_job hcourse hassigned
    exact ⟨j, hj, hnumber, hassignment, (Course.writer hcourse hraisable hstart).allOrNothing
      (List.mem_of_getElem? hj) hnumber⟩
  constructor
  · intro e' hcourse
    obtain ⟨j, hj, hrest⟩ := hwrites e' hcourse
    exact ⟨j, List.mem_of_getElem? hj, hrest⟩
  · obtain ⟨done, hcourse, hsettled, hwf, hdone, hendings⟩ := perform_course hrest assignments
    have hledger : (e.perform assignments).1.unturned.ledger = done.ledger := by rw [hdone]
    have hledger' : (e.perform assignments).1.ledger = done.ledger := hledger
    obtain ⟨j, hj, hnumber, hassignment, _, hended⟩ := hwrites done hcourse
    obtain ⟨time, ending, hstage⟩ :=
      hsettled.finished hwf (List.mem_of_getElem? hj) (by rw [hassignment]; rfl)
    have hending : j.ending? = some (time, ending) := by rw [Job.ending?, hstage]
    obtain ⟨hall, hleft⟩ := hended time ending hending
    rw [hledger', ← hnumber]
    refine ⟨time, ending, ?_, hall, hleft, ?_⟩
    · rw [hendings, List.getElem?_map, hj, Option.map_some, hending]
    · intro hleaves
      refine hsettled.free (Course.guarded hcourse hstart.guarded) ?_
      intro k hk hstays
      obtain ⟨x, hx, hsame⟩ := hrest.assigned hcourse hk
      exact hleaves x hx (hsame.trans hstays)

/-- Two updates in statements of one row each, of which the second meets another version while the
first is staged: neither is in the table, and the table is free. -/
theorem write_of_two_meets_another_version :
    let update (id version : Int) : StatusUpdate :=
      { orderId := id, expectedVersion := version, status := .filled, extra := none }
    let e := begun (.forStatuses { chunkSize := 1 } (.table 3)) {} {} none (Table.ofIds [1, 2]) 0
    let assignments := [(0, .occupy (some 5)), (0, .write [update 1 0, update 2 7])]
    e.AtRest ∧ e.Ordinary ∧ e.ledger.Free ∧ e.ledger.table.Raisable ∧
      assignments[1]? = some (0, .write [update 1 0, update 2 7]) ∧
      (∀ k x, assignments[k]? = some x → k ≠ 1 → x.2.isWriter = false) ∧
      (e.perform assignments).1.ledger.table = e.ledger.table ∧
      (e.perform assignments).1.ledger.Free := by
  intro update e assignments
  have hrest : e.AtRest := begun_atRest _ _ _ _ _ _
  have hordinary : e.Ordinary := ⟨⟨3, rfl⟩, begun_faithful _ _ _ _ _ _⟩
  have hfree : e.ledger.Free := ⟨rfl, rfl⟩
  have hraisable : e.ledger.table.Raisable := Table.raisable_of_rows (by decide)
  have halone : ∀ k x, assignments[k]? = some x → k ≠ 1 → x.2.isWriter = false := by
    intro k x hx hne
    match k with
    | 0 =>
      obtain rfl : _ = x := Option.some.inj hx
      rfl
    | 1 => exact absurd rfl hne
    | k + 2 => cases hx
  have hassigned : assignments[1]? = some (0, .write [update 1 0, update 2 7]) := rfl
  obtain ⟨time, ending, hending, hall, _, hleft⟩ :=
    (write_is_all_or_nothing hrest hordinary hfree hraisable hassigned halone).2
  have hrefused : (e.perform assignments).2[1]?.map (·.map fun x => isRefusal x.2) =
      some (some true) := by decide +kernel
  rw [hending] at hrefused
  refine ⟨hrest, hordinary, hfree, hraisable, hassigned, halone, ?_, hleft ?_⟩
  · rcases ending with crash | error | receipt
    · cases hall
    · exact hall
    · cases hrefused
  · intro x hx
    simp only [assignments, List.mem_cons, List.not_mem_nil, or_false] at hx
    rcases hx with rfl | rfl <;> simp

end Engine

end OrderAdmission
