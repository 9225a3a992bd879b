import Mathlib.Data.List.Pairwise
import OrderAdmission.Proofs.Custody
import OrderAdmission.Proofs.Recording

/-!
# Writers one after another

Several jobs may write statuses at a time. They come for the table one after another, some give up
while they wait for it, and some find a row that another has changed.

`Follows` says that a table has come from another by transactions, one after another. `Serial` holds
at every instant: the table follows the one at the beginning by exactly the writes that have come to a
good end, and a transaction that is open has been built on the table as it is now. Only the holder of
the table can change it, and those who wait for it have staged nothing, so that they can start from
whatever table they find.

The main result is `writes_follow_one_another`: **whatever writes are made at a time, there is an
order of those that succeed in which one after another makes the final table**.
-/
namespace OrderAdmission

variable {P R : Type}

/-! ### One transaction after another -/

/-- The second table is the first after these transactions, one after another. -/
def Follows (t : Table) : List (List StatusUpdate) → Table → Prop
  | [], t' => t' = t
  | updates :: rest, t' => ∃ between, Written t updates between ∧ Follows between rest t'

def names (id : Int) (updates : List StatusUpdate) : Bool := updates.any (·.orderId == id)

theorem names_iff {id : Int} {updates : List StatusUpdate} :
    names id updates = true ↔ ∃ u ∈ updates, u.orderId = id := by
  simp [names]

/-- A transaction raises the versions of the rows that it names by one. -/
theorem Written.version {t t' : Table} {updates : List StatusUpdate} (h : Written t updates t')
    {id : Int} {row : StoredRow} (hrow : t.get? id = some row) :
    ∃ row', t'.get? id = some row' ∧
      row'.version = row.version + if names id updates then 1 else 0 := by
  by_cases hnames : names id updates = true
  · obtain ⟨u, hu, rfl⟩ := names_iff.mp hnames
    obtain ⟨old, hold, _, hnew⟩ := h.updated hu
    obtain rfl : old = row := Option.some.inj (hold.symm.trans hrow)
    exact ⟨_, hnew, by simp [hnames, StoredRow.update]⟩
  · refine ⟨row, ?_, by simp [hnames]⟩
    rw [h.others, hrow]
    intro u hu hid
    exact hnames (names_iff.mpr ⟨u, hu, hid⟩)

namespace Follows

variable {t t' : Table} {calls : List (List StatusUpdate)}

theorem append {updates : List StatusUpdate} {t'' : Table} (h : Follows t calls t')
    (hwritten : Written t' updates t'') : Follows t (calls ++ [updates]) t'' := by
  induction calls generalizing t with
  | nil =>
    obtain rfl : t' = t := h
    exact ⟨t'', hwritten, rfl⟩
  | cons first rest ih =>
    obtain ⟨between, hfirst, hrest⟩ := h
    exact ⟨between, hfirst, ih hrest⟩

theorem version (h : Follows t calls t') {id : Int} {row : StoredRow}
    (hrow : t.get? id = some row) :
    ∃ row', t'.get? id = some row' ∧ row'.version = row.version + calls.countP (names id) := by
  induction calls generalizing t row with
  | nil =>
    obtain rfl : t' = t := h
    exact ⟨row, hrow, by simp⟩
  | cons first rest ih =>
    obtain ⟨between, hfirst, hrest⟩ := h
    obtain ⟨row₁, hrow₁, hversion₁⟩ := hfirst.version hrow
    obtain ⟨row', hrow', hversion'⟩ := ih hrest hrow₁
    refine ⟨row', hrow', ?_⟩
    rw [hversion', hversion₁, List.countP_cons]
    split <;> omega

theorem expects (h : Follows t calls t') {updates : List StatusUpdate} (hcall : updates ∈ calls)
    {u : StatusUpdate} (hu : u ∈ updates) {row : StoredRow} (hrow : t.get? u.orderId = some row) :
    row.version ≤ u.expectedVersion := by
  induction calls generalizing t row with
  | nil => cases hcall
  | cons first rest ih =>
    obtain ⟨between, hfirst, hrest⟩ := h
    rcases List.mem_cons.mp hcall with rfl | hcall
    · obtain ⟨old, hold, hversion, _⟩ := hfirst.updated hu
      obtain rfl : old = row := Option.some.inj (hold.symm.trans hrow)
      exact Int.le_of_eq hversion
    · obtain ⟨row₁, hrow₁, hversion₁⟩ := hfirst.version hrow
      have hle := ih hrest hcall hrow₁
      have hgrown : row.version ≤ row₁.version := by
        rw [hversion₁]
        split <;> omega
      omega

theorem pairwise (h : Follows t calls t') :
    calls.Pairwise fun earlier later => ∀ u ∈ earlier, ∀ v ∈ later, u.orderId = v.orderId →
      u.expectedVersion < v.expectedVersion := by
  induction calls generalizing t with
  | nil => exact List.Pairwise.nil
  | cons first rest ih =>
    obtain ⟨between, hfirst, hrest⟩ := h
    refine List.Pairwise.cons ?_ (ih hrest)
    intro later hlater u hu v hv hid
    obtain ⟨row, _, hversion, hnew⟩ := hfirst.updated hu
    have hle := hrest.expects hlater hv (hid ▸ hnew)
    have hraised : (row.update u).version = row.version + 1 := rfl
    omega

end Follows

/-- The second table is made of the first by these writes, one after another, each under the number of
its job. Every row has grown by one version with each write that names it, and no two writes have
found a row in the same version. -/
structure Serialised (t : Table) (calls : List (Nat × List StatusUpdate)) (t' : Table) : Prop where
  nodup : (calls.map (·.1)).Nodup
  follows : Follows t (calls.map (·.2)) t'
  grown : ∀ id row, t.get? id = some row → ∃ row', t'.get? id = some row' ∧
    row'.version = row.version + calls.countP fun call => names id call.2
  once : ∀ call ∈ calls, ∀ call' ∈ calls, ∀ u ∈ call.2, ∀ u' ∈ call'.2,
    u.orderId = u'.orderId → u.expectedVersion = u'.expectedVersion → call = call'

/-- Two writes do not find a row in the same version. -/
def Apart (call call' : Nat × List StatusUpdate) : Prop :=
  ∀ u ∈ call.2, ∀ u' ∈ call'.2, u.orderId = u'.orderId → u.expectedVersion ≠ u'.expectedVersion

instance : Std.Symm Apart :=
  ⟨fun _ _ h u hu u' hu' hid hversion => h u' hu' u hu hid.symm hversion.symm⟩

theorem Follows.serialised {t t' : Table} {calls : List (Nat × List StatusUpdate)}
    (h : Follows t (calls.map (·.2)) t') (hnodup : (calls.map (·.1)).Nodup) :
    Serialised t calls t' := by
  refine ⟨hnodup, h, ?_, ?_⟩
  · intro id row hrow
    obtain ⟨row', hrow', hversion⟩ := h.version hrow
    rw [List.countP_map] at hversion
    exact ⟨row', hrow', hversion⟩
  · -- Whichever of two writes comes later, it finds the row in a later version.
    have hlater : calls.Pairwise Apart := by
      refine (List.pairwise_map.mp h.pairwise).imp ?_
      intro call call' hless u hu u' hu' hid
      exact (hless u hu u' hu' hid).ne
    intro call hcall call' hcall' u hu u' hu' hid hversion
    by_contra hne
    exact hlater.forall hcall hcall' hne u hu u' hu' hid hversion

/-! ### Writes that have come to a good end -/

/-- What has been written by a job that has ended in this way. -/
def Desk.written? (desk : Desk P R) : Assignment P → Ending R → Option (List StatusUpdate)
  | .write updates, .ok (.ok (.written _)) => some updates
  | .process orders, .ok (.ok (.batch r)) => some (desk.updatesOf (.process orders) (some r))
  | _, _ => none

theorem Desk.written?_write {desk : Desk P R} {updates updates' : List StatusUpdate}
    {ending : Ending R} (h : desk.written? (.write updates) ending = some updates') :
    ∃ rows, ending = .ok (.ok (.written rows)) := by
  rcases ending with crash | error | receipt
  · cases h
  · cases h
  · cases receipt with
    | written rows => exact ⟨rows, rfl⟩
    | _ => cases h

/-- What a job at this stage has written. -/
def Desk.writtenAt? (desk : Desk P R) (a : Assignment P) : Stage P R → Option (List StatusUpdate)
  | .finished _ ending => desk.written? a ending
  | _ => none

namespace Engine

/-- Whoever has written has changed the table by the updates, and nobody else has. -/
theorem StageKept.writtenAt {t : Table} {e : Engine P R} {a : Assignment P} {stage : Stage P R}
    (h : StageKept t e a stage) :
    (e.desk.writtenAt? a stage = none ∧ e.ledger.table = t) ∨
      ∃ updates, e.desk.writtenAt? a stage = some updates ∧ Written t updates e.ledger.table := by
  by_cases hwriter : a.isWriter = true
  · cases stage with
    | finished time ending =>
      rcases ending with crash | error | receipt
      · refine Or.inl ⟨?_, h⟩
        cases a <;> rfl
      · refine Or.inl ⟨?_, h⟩
        cases a <;> rfl
      · cases a with
        | process orders =>
          cases receipt with
          | batch r => exact Or.inr ⟨_, rfl, h.2⟩
          | written rows => cases h.1
          | _ => exact Or.inl ⟨rfl, h.2⟩
        | write updates =>
          cases receipt with
          | batch r => exact Or.inl ⟨rfl, Written.nil_iff.mp h.2⟩
          | written rows => exact Or.inr ⟨_, rfl, h.2⟩
          | _ => exact Or.inl ⟨rfl, h.2⟩
        | _ => cases hwriter
    | arriving due => exact Or.inl ⟨rfl, h⟩
    | _ => exact Or.inl ⟨rfl, h.1⟩
  · have hnot : a.isWriter = false := by simpa using hwriter
    refine Or.inl ⟨?_, (h.of_not_isWriter hnot).1⟩
    cases stage with
    | finished time ending =>
      cases a with
      | process orders => cases hnot
      | write updates => cases hnot
      | _ => rfl
    | _ => rfl

theorem Transacts.rebase {t t' : Table} {updates : List StatusUpdate} {run : WriteRun}
    (h : Transacts t updates run) (hstaged : run.staged = []) : Transacts t' updates run := by
  obtain ⟨made, hmade, hstage⟩ := h.staged
  have hnone : made = [] := by
    rw [List.eq_nil_iff_forall_not_mem]
    intro u hu
    obtain ⟨row, _, _, hrow⟩ := hstage.updated u hu
    rw [hstaged] at hrow
    cases hrow
  refine ⟨h.onTable, h.nodup, [], ?_, ?_⟩
  · rw [← hmade, hnone]
  · rw [hstaged]
    exact Staged.nil t'

/-- A job that has neither ended nor staged anything can go on from any table. -/
theorem StageKept.rebase {t : Table} {e e' : Engine P R} {a : Assignment P} {stage : Stage P R}
    (h : StageKept t e a stage) (hdesk : e'.desk = e.desk)
    (hgoes : ∀ time ending, stage ≠ .finished time ending)
    (hstaged : ∀ result run, stage = .writing result run → run.staged = []) :
    StageKept e'.ledger.table e' a stage := by
  cases stage with
  | finished time ending => exact absurd rfl (hgoes time ending)
  | arriving due => rfl
  | writing result run =>
    obtain ⟨_, hpasses, hwriter, hresult, htransacts⟩ := h
    rw [← hdesk] at hpasses htransacts
    exact ⟨rfl, hpasses, hwriter, hresult, Transacts.rebase htransacts (hstaged result run rfl)⟩
  | _ => exact ⟨rfl, hdesk.symm ▸ h.2⟩

/-! ### The order of the writes -/

/-- The table has come from the one at the beginning by the writes that have come to a good end, and
whatever is still to be written is built on it. -/
structure Serial (t : Table) (e : Engine P R) : Prop where
  guarded : e.Guarded
  faithful : e.cache.Faithful
  kept : ∀ j ∈ e.jobs, (∀ time ending, j.stage ≠ .finished time ending) →
    StageKept e.ledger.table e j.assignment j.stage
  calls : ∃ calls : List (Nat × List StatusUpdate), (calls.map (·.1)).Nodup ∧
    Follows t (calls.map (·.2)) e.ledger.table ∧
    ∀ n updates, (n, updates) ∈ calls ↔
      ∃ j ∈ e.jobs, j.number = n ∧ e.desk.writtenAt? j.assignment j.stage = some updates

theorem Serial.ordinary {t : Table} {e : Engine P R} (h : Serial t e) : e.Ordinary :=
  ⟨h.guarded.store, h.faithful⟩

theorem not_finished_of_isReady {e : Engine P R} {j : Job P R} (h : j.isReady e = true) :
    ∀ time ending, j.stage ≠ .finished time ending := by
  intro time ending hstage
  rw [Job.isReady, hstage] at h
  cases h

theorem writtenAt?_of_goes (desk : Desk P R) (a : Assignment P) {stage : Stage P R}
    (h : ∀ time ending, stage ≠ .finished time ending) : desk.writtenAt? a stage = none := by
  cases stage with
  | finished time ending => exact absurd rfl (h time ending)
  | _ => rfl

/-- What changes nothing about the jobs, the settings and the table keeps the writes in order. -/
theorem Serial.congr {t : Table} {e e' : Engine P R} (h : Serial t e) (hguarded : e'.Guarded)
    (hdesk : e'.desk = e.desk) (hcache : e'.cache = e.cache) (hledger : e'.ledger = e.ledger)
    (hjobs : e'.jobs = e.jobs) : Serial t e' := by
  refine ⟨hguarded, hcache ▸ h.faithful, ?_, ?_⟩
  · intro j hj hgoes
    have hkept : Kept e.ledger.table e j.assignment j.stage :=
      ⟨h.ordinary, h.kept j (hjobs ▸ hj) hgoes⟩
    rw [hledger]
    exact (hkept.congr hdesk (hcache ▸ h.faithful) (by rw [hledger])).stage
  · rw [hledger, hjobs, hdesk]
    exact h.calls

/-- Who has written after a turn of a job: the job itself, or somebody before. -/
theorem written_serveJob {e : Engine P R} {j : Job P R} (hwf : e.WellFormed) (hj : j ∈ e.jobs)
    (hready : j.isReady e = true) (desk : Desk P R) (n : Nat) (updates : List StatusUpdate) :
    (∃ k ∈ (e.serveJob j).jobs, k.number = n ∧
        desk.writtenAt? k.assignment k.stage = some updates) ↔
      (n = j.number ∧ desk.writtenAt? j.assignment (e.jobTurn j).2 = some updates) ∨
        ∃ k ∈ e.jobs, k.number = n ∧ desk.writtenAt? k.assignment k.stage = some updates := by
  constructor
  · rintro ⟨k, hk, rfl, hwritten⟩
    rcases mem_serveJob hwf hj hready hk with rfl | ⟨hk, _⟩
    · exact Or.inl ⟨rfl, hwritten⟩
    · exact Or.inr ⟨k, hk, rfl, hwritten⟩
  · rintro (⟨rfl, hwritten⟩ | ⟨k, hk, rfl, hwritten⟩)
    · exact ⟨_, self_mem_serveJob hwf hj hready, rfl, hwritten⟩
    · refine ⟨k, other_mem_serveJob hwf hj hready hk ?_, rfl, hwritten⟩
      intro hsame
      rw [hwf.job_unique hk hj hsame,
        writtenAt?_of_goes _ _ (not_finished_of_isReady hready)] at hwritten
      cases hwritten

section ServeJob

variable {t : Table} {e : Engine P R} {j : Job P R}

theorem Serial.turn (h : Serial t e) (hj : j ∈ e.jobs) (hready : j.isReady e = true) :
    Kept e.ledger.table (e.jobTurn j).1 j.assignment (e.jobTurn j).2 :=
  jobTurn_kept (h.guarded.wellFormed.sound j hj)
    ⟨h.ordinary, h.kept j hj (not_finished_of_isReady hready)⟩

/-- After a turn of a job, what is still to be written is built on the table as it is then. -/
theorem Serial.kept_serveJob (h : Serial t e) (hj : j ∈ e.jobs) (hready : j.isReady e = true)
    {k : Job P R} (hk : k ∈ (e.serveJob j).jobs)
    (hgoes : ∀ time ending, k.stage ≠ .finished time ending) :
    StageKept (e.serveJob j).ledger.table (e.serveJob j) k.assignment k.stage := by
  have hwf := h.guarded.wellFormed
  have hmove : Move e (e.serveJob j) := Move.job hj hready
  have hfaithful := hmove.faithful hwf h.faithful
  have hdesk : (e.serveJob j).desk = e.desk := hmove.desk hwf
  rcases mem_serveJob hwf hj hready hk with rfl | ⟨hk, hne⟩
  · -- The job goes on, so that it has left the table alone.
    have hserved : Kept e.ledger.table (e.serveJob j) j.assignment (e.jobTurn j).2 :=
      (h.turn hj hready).congr rfl hfaithful rfl
    rcases hserved.stage.writtenAt with ⟨_, htable⟩ | ⟨updates, hwritten, _⟩
    · rw [htable]
      exact hserved.stage
    · rw [writtenAt?_of_goes _ _ hgoes] at hwritten
      cases hwritten
  · have hold := h.kept k hk hgoes
    have hturn := h.guarded.custody.ledgerTurn hwf h.guarded.suited h.guarded.store hj hready
    rcases hturn.table with htable | hholder
    · have hsame : (e.serveJob j).ledger.table = e.ledger.table := htable
      have hkept' : Kept e.ledger.table e k.assignment k.stage := ⟨h.ordinary, hold⟩
      rw [hsame]
      exact (hkept'.congr hdesk hfaithful hsame).stage
    · refine hold.rebase hdesk hgoes ?_
      intro result run hwriting
      -- Somebody else has the table, so that this transaction has not begun.
      have hwaits : k.stage.hasTable = false := by
        rw [Bool.eq_false_iff]
        intro htable
        have howner := h.guarded.custody.owner k hk htable
        exact hne (Option.some.inj (howner.symm.trans hholder))
      have hwaiting := h.guarded.custody.waiting k hk (by rw [hwriting]; rfl) hwaits
      rw [hwriting] at hwaiting
      exact hwaiting.2

/-- A job that has come to a good end in its turn is the last in the order so far. -/
theorem Serial.calls_serveJob (h : Serial t e) (hj : j ∈ e.jobs) (hready : j.isReady e = true) :
    ∃ calls : List (Nat × List StatusUpdate), (calls.map (·.1)).Nodup ∧
      Follows t (calls.map (·.2)) (e.serveJob j).ledger.table ∧
      ∀ n updates, (n, updates) ∈ calls ↔ ∃ k ∈ (e.serveJob j).jobs, k.number = n ∧
        (e.serveJob j).desk.writtenAt? k.assignment k.stage = some updates := by
  have hwf := h.guarded.wellFormed
  have hmove : Move e (e.serveJob j) := Move.job hj hready
  have hdesk : (e.serveJob j).desk = e.desk := hmove.desk hwf
  have hdesk' : (e.jobTurn j).1.desk = e.desk := hdesk
  obtain ⟨calls, hnodup, hfollows, hmem⟩ := h.calls
  have hwriters (n : Nat) (updates : List StatusUpdate) :=
    written_serveJob hwf hj hready e.desk n updates
  have hstage := (h.turn hj hready).stage.writtenAt
  rw [hdesk'] at hstage
  simp only [hdesk, hwriters]
  rcases hstage with ⟨hnothing, htable⟩ | ⟨updates, hwritten, htable⟩
  · refine ⟨calls, hnodup, ?_, ?_⟩
    · rw [← htable] at hfollows
      exact hfollows
    · intro n updates
      rw [hmem, hnothing]
      simp
  · refine ⟨calls ++ [(j.number, updates)], ?_, ?_, ?_⟩
    · -- Only jobs that have ended are in the order so far, and this one had a turn left.
      rw [List.map_append, List.map_singleton]
      refine hnodup.append (List.nodup_singleton _) ?_
      intro n hn hlast
      obtain rfl := List.mem_singleton.mp hlast
      obtain ⟨⟨m, before⟩, hcall, hnumber⟩ := List.mem_map.mp hn
      obtain ⟨k, hk, hsame, hdone⟩ := (hmem m before).mp hcall
      rw [hwf.job_unique hk hj (hsame.trans hnumber),
        writtenAt?_of_goes _ _ (not_finished_of_isReady hready)] at hdone
      cases hdone
    · rw [List.map_append, List.map_singleton]
      exact hfollows.append htable
    · intro n us
      rw [List.mem_append, List.mem_singleton, hmem, hwritten, Prod.mk.injEq, Option.some.injEq,
        or_comm, eq_comm (a := us)]

end ServeJob

/-- **Every move keeps the writes in order.** -/
theorem Move.serial {t : Table} {e e' : Engine P R} (hmove : Move e e') (h : Serial t e) :
    Serial t e' := by
  have hguarded := hmove.guarded h.guarded
  cases hmove with
  | @worker w member ready =>
    have hhouse := workerTurn_house e w
    exact h.congr hguarded hhouse.desk hhouse.cache hhouse.ledger hhouse.jobs
  | @job j member ready =>
    exact ⟨hguarded, (Move.job member ready).faithful h.guarded.wellFormed h.faithful,
      fun _ hk => h.kept_serveJob member ready hk, h.calls_serveJob member ready⟩
  | tick quiet due => exact h.congr hguarded rfl rfl rfl rfl

theorem Course.serial {t : Table} {e e' : Engine P R} (hcourse : Course e e') (h : Serial t e) :
    Serial t e' :=
  hcourse.keeps Move.serial h

theorem AtRest.serial {e : Engine P R} (hrest : e.AtRest) (hordinary : e.Ordinary)
    (hfree : e.ledger.Free) (assignments : List (Nat × Assignment P)) :
    Serial e.ledger.table (e.addJobs assignments).unturned := by
  have hsame : (e.addJobs assignments).unturned.ledger.table = e.ledger.table := by
    rw [addJobs_eq]
    rfl
  refine ⟨hrest.guarded hordinary.store hfree assignments, ?_, ?_, [], List.nodup_nil, hsame, ?_⟩
  · rw [addJobs_eq]
    exact hordinary.faithful
  · intro j hj _
    obtain ⟨due, hstage⟩ := hrest.arriving hj
    rw [hstage]
    rfl
  · intro n updates
    constructor
    · intro hcall
      cases hcall
    · rintro ⟨j, hj, _, hwritten⟩
      obtain ⟨due, hstage⟩ := hrest.arriving hj
      rw [hstage] at hwritten
      cases hwritten

/-! ### The order that there is -/

theorem writtenAt?_eq_some {desk : Desk P R} {j : Job P R} {updates : List StatusUpdate} :
    desk.writtenAt? j.assignment j.stage = some updates ↔
      ∃ time ending, j.ending? = some (time, ending) ∧
        desk.written? j.assignment ending = some updates := by
  obtain ⟨number, a, stage, turn⟩ := j
  cases stage with
  | finished time ending => simp [Desk.writtenAt?, Job.ending?]
  | _ => simp [Desk.writtenAt?, Job.ending?]

theorem Serial.serialised {t : Table} {e : Engine P R} (h : Serial t e) :
    ∃ calls, Serialised t calls e.ledger.table ∧ ∀ n updates, (n, updates) ∈ calls ↔
      ∃ j ∈ e.jobs, j.number = n ∧ ∃ time ending, j.ending? = some (time, ending) ∧
        e.desk.written? j.assignment ending = some updates := by
  obtain ⟨calls, hnodup, hfollows, hmem⟩ := h.calls
  refine ⟨calls, hfollows.serialised hnodup, ?_⟩
  simpa only [writtenAt?_eq_some] using hmem

/-- **Writers are put in order.** Let any number of status writes and admissions be made at a time, each
after a wait, beside whoever else keeps the table for a while, on a table that is free at first. At
every instant of every course there is an order of the writes that have come to a good end in which
they make the table, one after another, each finding all its rows in the expected versions; a write
that has not come to a good end has no part in it. And what is performed brings every writer to an
end, with such an order of those that succeed. -/
theorem writes_follow_one_another {e : Engine P R} (hrest : e.AtRest) (hordinary : e.Ordinary)
    (hfree : e.ledger.Free) (assignments : List (Nat × Assignment P)) :
    (∀ e', Course (e.addJobs assignments).unturned e' →
      ∃ calls, Serialised e.ledger.table calls e'.ledger.table ∧
        ∀ n updates, (n, updates) ∈ calls ↔ ∃ j ∈ e'.jobs, j.number = n ∧ ∃ time ending,
          j.ending? = some (time, ending) ∧ e.desk.written? j.assignment ending = some updates) ∧
    (∀ (i wait : Nat) (a : Assignment P), assignments[i]? = some (wait, a) → a.isWriter = true →
      ∃ time ending, (e.perform assignments).2[i]? = some (some (time, ending))) ∧
    ∃ calls, Serialised e.ledger.table calls (e.perform assignments).1.ledger.table ∧
      ∀ n updates, (n, updates) ∈ calls ↔ ∃ i wait a time ending, n = e.nextNumber + i ∧
        assignments[i]? = some (wait, a) ∧
        (e.perform assignments).2[i]? = some (some (time, ending)) ∧
        e.desk.written? a ending = some updates := by
  have hwf := hrest.wellFormed assignments
  have hstart := hrest.serial hordinary hfree assignments
  have hserial (e' : Engine P R) (hcourse : Course (e.addJobs assignments).unturned e') :
      ∃ calls, Serialised e.ledger.table calls e'.ledger.table ∧
        ∀ n updates, (n, updates) ∈ calls ↔ ∃ j ∈ e'.jobs, j.number = n ∧ ∃ time ending,
          j.ending? = some (time, ending) ∧ e.desk.written? j.assignment ending = some updates := by
    have hdesk : e'.desk = e.desk := by
      rw [Course.desk hcourse hwf, addJobs_eq]
      rfl
    have hcalls := (Course.serial hcourse hstart).serialised
    rwa [hdesk] at hcalls
  obtain ⟨done, hcourse, hsettled, hwf', hdone, hendings⟩ := perform_course hrest assignments
  have htable : (e.perform assignments).1.unturned.ledger.table = done.ledger.table := by
    rw [hdone]
  refine ⟨hserial, ?_, ?_⟩
  · intro i wait a hassigned hwriter
    obtain ⟨j, hj, hnumber, hassignment⟩ := hrest.exists_job hcourse hassigned
    have hoccupation : j.assignment.isOccupation = false := by
      rw [hassignment]
      cases a <;> first | rfl | cases hwriter
    obtain ⟨time, ending, hstage⟩ :=
      hsettled.finished hwf' (List.mem_of_getElem? hj) hoccupation
    refine ⟨time, ending, ?_⟩
    rw [hendings, List.getElem?_map, hj, Option.map_some, Job.ending?, hstage]
  · obtain ⟨calls, hserialised, hmem⟩ := hserial done hcourse
    refine ⟨calls, htable ▸ hserialised, ?_⟩
    intro n updates
    rw [hmem]
    constructor
    · rintro ⟨j, hj, rfl, time, ending, hending, hwritten⟩
      obtain ⟨i, wait, hi, hassigned, hnumber⟩ := hrest.exists_assignment hcourse hj
      refine ⟨i, wait, j.assignment, time, ending, hnumber, hassigned, ?_, hwritten⟩
      rw [hendings, List.getElem?_map, hi, Option.map_some, hending]
    · rintro ⟨i, wait, a, time, ending, rfl, hassigned, hending, hwritten⟩
      obtain ⟨j, hj, hnumber, hassignment⟩ := hrest.exists_job hcourse hassigned
      refine ⟨j, List.mem_of_getElem? hj, hnumber, time, ending, ?_, hassignment ▸ hwritten⟩
      rw [hendings, List.getElem?_map, hj, Option.map_some] at hending
      exact Option.some.inj hending

def hasWritten : Option (Nat × Ending R) → Bool
  | some (_, .ok (.ok (.written _))) => true
  | _ => false

theorem hasWritten_iff {place : Option (Nat × Ending R)} :
    hasWritten place = true ↔ ∃ time rows, place = some (time, .ok (.ok (.written rows))) := by
  unfold hasWritten
  split
  · simp
  · rename_i hnone
    simp only [Bool.false_eq_true, false_iff, not_exists]
    exact fun time rows h => hnone time rows h

/-- Three writers at a time, two of which expect the same row in the same version: the first has its
way, the second has not, and the third follows the first. -/
theorem writes_of_three_follow_one_another :
    let update (id version : Int) : StatusUpdate :=
      { orderId := id, expectedVersion := version, status := .filled, extra := none }
    let e := begun (.forStatuses { chunkSize := 1 } (.table 3)) {} {} none (Table.ofIds [1, 2]) 0
    let assignments := [(0, .write [update 1 0, update 2 0]), (0, .write [update 1 0]),
      (1, .write [update 2 1])]
    e.AtRest ∧ e.Ordinary ∧ e.ledger.Free ∧
      ∃ calls, Serialised e.ledger.table calls (e.perform assignments).1.ledger.table ∧
        (0, [update 1 0, update 2 0]) ∈ calls ∧ (∀ updates, (1, updates) ∉ calls) ∧
        (2, [update 2 1]) ∈ calls := by
  intro update e assignments
  have hrest : e.AtRest := begun_atRest _ _ _ _ _ _
  have hordinary : e.Ordinary := ⟨⟨3, rfl⟩, begun_faithful _ _ _ _ _ _⟩
  have hfree : e.ledger.Free := ⟨rfl, rfl⟩
  obtain ⟨_, _, calls, hserialised, hmem⟩ :=
    writes_follow_one_another hrest hordinary hfree assignments
  have hends : (e.perform assignments).2.map hasWritten = [true, false, true] := by
    decide +kernel
  have hgood (i : Nat) (updates : List StatusUpdate) (wait : Nat)
      (hassigned : assignments[i]? = some (wait, .write updates))
      (hend : ((e.perform assignments).2.map hasWritten)[i]? = some true) :
      (i, updates) ∈ calls := by
    rw [List.getElem?_map, Option.map_eq_some_iff] at hend
    obtain ⟨place, hplace, hwritten⟩ := hend
    obtain ⟨time, rows, rfl⟩ := hasWritten_iff.mp hwritten
    exact (hmem i updates).mpr
      ⟨i, wait, _, time, _, (Nat.zero_add i).symm, hassigned, hplace, rfl⟩
  refine ⟨hrest, hordinary, hfree, calls, hserialised, hgood 0 _ 0 rfl (by rw [hends]; rfl), ?_,
    hgood 2 _ 1 rfl (by rw [hends]; rfl)⟩
  intro updates hcall
  obtain ⟨i, wait, a, time, ending, hnumber, hassigned, hplace, hwritten⟩ :=
    (hmem 1 updates).mp hcall
  obtain rfl : i = 1 := by
    have hzero : e.nextNumber = 0 := rfl
    omega
  obtain rfl : .write [update 1 0] = a := congrArg Prod.snd (Option.some.inj hassigned)
  have hend := congrArg (·[1]?) hends
  simp only [List.getElem?_map, hplace] at hend
  obtain ⟨rows, rfl⟩ := Desk.written?_write hwritten
  cases hend

end Engine

end OrderAdmission
