import OrderAdmission.Proofs.Verdicts
import OrderAdmission.Proofs.Versions

/-!
# Rows of the largest version

An update raises the version of its row, and the largest version there is cannot be raised: a statement
with an update that finds a row of this version breaks off, and its write with it. A statement looks at all
of its rows, also behind one that does not have the expected version, but no statement follows one with such
a row. So it does matter how the updates are cut into statements: **a write breaks off exactly if some
update finds the largest version and no update of an earlier statement misses its row**
(`Table.BreaksOff`), even if one before it in its own statement does.

`Table.sentence` is what a write comes to statement by statement, and `Table.sentence_eq` says that
otherwise it is the verdict, which depends neither on the statements nor on other versions than those that
are expected. On its way a write waits for the table and for the statements; it has come to its sentence
at the end of all this (`Sentenced`) unless its time is over before.
-/
namespace OrderAdmission

variable {P R : Type}

namespace Table

/-! ### What statements come to -/

/-- Whether an update finds its row, at the largest version there is. -/
def tops (t : Table) (u : StatusUpdate) : Bool := t.fits u && decide (maxSigned ≤ u.expectedVersion)

/-- A write of these updates in statements of this size comes to a statement that breaks off. -/
def BreaksOff (t : Table) (size : Nat) (updates : List StatusUpdate) : Prop :=
  (updates.map (·.orderId)).Nodup ∧ ∃ before piece after,
    chunksOf size updates = before ++ piece :: after ∧ (∀ v ∈ before.flatten, t.fits v = true) ∧
      ∃ u ∈ piece, t.tops u = true

/-- No row is beyond the largest version there is. -/
def Bounded (t : Table) : Prop := ∀ id row, t.get? id = some row → row.version ≤ maxSigned

/-- The first update that misses its row, unless a statement breaks off. -/
def objection (t : Table) : List (List StatusUpdate) → Except Crash (Option StatusUpdate)
  | [] => .ok none
  | piece :: rest =>
    if piece.any t.tops then .error .overflow
    else
      match piece.find? fun u => !t.fits u with
      | some u => .ok (some u)
      | none => t.objection rest

/-- What a write in statements of this size comes to if it has the time. -/
def sentence (t : Table) (size : Nat) (updates : List StatusUpdate) :
    Except Crash (Except GateError Nat) :=
  match StatusUpdate.firstRepeated updates [] with
  | some id => .ok (.error (.invalid (.repeatedUpdate id)))
  | none =>
    match t.objection (chunksOf size updates) with
    | .error crash => .error crash
    | .ok (some u) => .ok (.error (.versionConflict u.orderId u.expectedVersion))
    | .ok none => .ok (.ok updates.length)

variable {t staged : Table} {updates : List StatusUpdate} {u : StatusUpdate} {size : Nat}

theorem tops_iff : t.tops u = true ↔ ∃ row, t.get? u.orderId = some row ∧
    row.version = u.expectedVersion ∧ maxSigned ≤ row.version := by
  rw [tops, Bool.and_eq_true, fits_iff, decide_eq_true_eq]
  constructor
  · rintro ⟨⟨row, hrow, hversion⟩, htop⟩
    exact ⟨row, hrow, hversion, hversion ▸ htop⟩
  · rintro ⟨row, hrow, hversion, htop⟩
    exact ⟨⟨row, hrow, hversion⟩, hversion ▸ htop⟩

theorem room_of_not_tops (h : t.tops u = false) {row : StoredRow} (hrow : t.get? u.orderId = some row)
    (hversion : row.version = u.expectedVersion) : row.version < maxSigned := by
  by_contra hroom
  have htops := tops_iff.mpr ⟨row, hrow, hversion, Int.not_lt.mp hroom⟩
  exact Bool.false_ne_true (h.symm.trans htops)

/-- A statement on rows that are not yet staged breaks off if one of them has the largest version. -/
theorem stageAll_breaks (hnodup : (updates.map (·.orderId)).Nodup)
    (hnew : ∀ u ∈ updates, staged.get? u.orderId = none) (htops : ∃ u ∈ updates, t.tops u = true) :
    ∃ staged', t.stageAll staged updates = (staged', .error .overflow) := by
  induction updates generalizing staged with
  | nil =>
    obtain ⟨u, hu, _⟩ := htops
    cases hu
  | cons v rest ih =>
    obtain ⟨hfirst, hrest⟩ := List.nodup_cons.mp hnodup
    have hseen : t.seen staged v.orderId = t.get? v.orderId := by
      simp [seen, hnew v List.mem_cons_self]
    cases htop : t.tops v with
    | true =>
      obtain ⟨row, hrow, hversion, hlargest⟩ := tops_iff.mp htop
      have hbreaks : t.stage staged v = (staged, .error .overflow) := by
        rw [stage, hseen, hrow]
        simp only [if_pos hversion, if_neg (Int.not_lt.mpr hlargest)]
      exact ⟨staged, by rw [stageAll, hbreaks]⟩
    | false =>
      -- this one can be made, and it is another that breaks off
      obtain ⟨staged₁, n, hstage, hothers⟩ :=
        stage_ok (fun row hrow hversion => room_of_not_tops htop hrow hversion)
          (hnew v List.mem_cons_self)
      have hnew₁ : ∀ w ∈ rest, staged₁.get? w.orderId = none := by
        intro w hw
        have hne : w.orderId ≠ v.orderId := fun hsame => hfirst (List.mem_map.mpr ⟨w, hw, hsame⟩)
        rw [hothers _ hne, hnew w (List.mem_cons_of_mem _ hw)]
      obtain ⟨u, hu, hutop⟩ := htops
      have hmem : u ∈ rest := by
        rcases List.mem_cons.mp hu with rfl | hmem
        · cases htop.symm.trans hutop
        · exact hmem
      obtain ⟨staged', hrest'⟩ := ih hrest hnew₁ ⟨u, hmem, hutop⟩
      exact ⟨staged', by simp only [stageAll, hstage, hrest']⟩

/-! ### The sentence -/

theorem objection_eq_error_iff {pieces : List (List StatusUpdate)} {crash : Crash} :
    t.objection pieces = .error crash ↔ crash = .overflow ∧ ∃ before piece after,
      pieces = before ++ piece :: after ∧ (∀ v ∈ before.flatten, t.fits v = true) ∧
        ∃ u ∈ piece, t.tops u = true := by
  constructor
  · intro h
    induction pieces with
    | nil => cases h
    | cons piece rest ih =>
      unfold objection at h
      split at h
      · next hany =>
        obtain ⟨u, hu, htops⟩ := List.any_eq_true.mp hany
        exact ⟨(Except.error.inj h).symm, [], piece, rest, rfl, by simp, u, hu, htops⟩
      · split at h
        · cases h
        · next hnone =>
          obtain ⟨hcrash, before, broken, after, rfl, hbefore, hbroken⟩ := ih h
          refine ⟨hcrash, piece :: before, broken, after, rfl, ?_, hbroken⟩
          intro v hv
          rw [List.flatten_cons] at hv
          rcases List.mem_append.mp hv with hv | hv
          · simpa using List.find?_eq_none.mp hnone v hv
          · exact hbefore v hv
  · rintro ⟨rfl, before, piece, after, rfl, hbefore, hbroken⟩
    induction before with
    | nil => rw [List.nil_append, objection, if_pos (List.any_eq_true.mpr hbroken)]
    | cons first before ih =>
      rw [List.cons_append, objection]
      split
      · rfl
      · have hnone : first.find? (fun u => !t.fits u) = none := by
          rw [List.find?_eq_none]
          intro v hv
          simp [hbefore v (List.mem_append_left _ hv)]
        rw [hnone]
        exact ih fun v hv => hbefore v (List.mem_append_right _ hv)

theorem objection_eq_ok {pieces : List (List StatusUpdate)} {answer : Option StatusUpdate}
    (h : t.objection pieces = .ok answer) : pieces.flatten.find? (fun u => !t.fits u) = answer := by
  induction pieces with
  | nil => exact Except.ok.inj h
  | cons piece rest ih =>
    unfold objection at h
    rw [List.flatten_cons, List.find?_append]
    split at h
    · cases h
    · split at h
      · next hfound =>
        rw [hfound]
        exact Except.ok.inj h
      · next hnone =>
        rw [hnone, Option.none_or]
        exact ih h

theorem sentence_nil (t : Table) (size : Nat) : t.sentence size [] = .ok (.ok 0) := by
  simp [sentence, StatusUpdate.firstRepeated, chunksOf, piecesOf, objection]

/-- **What a write comes to.** It breaks off or comes to its verdict. -/
theorem sentence_eq (t : Table) (size : Nat) (updates : List StatusUpdate) :
    (t.BreaksOff size updates ∧ t.sentence size updates = .error .overflow) ∨
      (¬ t.BreaksOff size updates ∧ t.sentence size updates = .ok (t.verdict updates)) := by
  unfold sentence verdict
  cases hrepeated : StatusUpdate.firstRepeated updates [] with
  | some id =>
    refine .inr ⟨?_, rfl⟩
    rintro ⟨hnodup, _⟩
    rw [firstRepeated_eq_none hnodup fun _ _ => List.not_mem_nil] at hrepeated
    cases hrepeated
  | none =>
    have hnodup := (nodup_of_firstRepeated hrepeated).1
    cases hobjection : t.objection (chunksOf size updates) with
    | error crash =>
      obtain ⟨rfl, hbroken⟩ := objection_eq_error_iff.mp hobjection
      exact .inl ⟨⟨hnodup, hbroken⟩, rfl⟩
    | ok answer =>
      refine .inr ⟨?_, ?_⟩
      · rintro ⟨_, hbroken⟩
        have hcrash := objection_eq_error_iff.mpr ⟨rfl, hbroken⟩
        cases hobjection.symm.trans hcrash
      · have hfound := objection_eq_ok hobjection
        rw [flatten_chunksOf] at hfound
        rw [hfound]
        cases answer <;> rfl

theorem verdict_eq_ok {rows : Nat} (h : t.verdict updates = .ok rows) :
    (updates.map (·.orderId)).Nodup ∧ ∀ u ∈ updates, t.fits u = true := by
  unfold verdict at h
  split at h
  · cases h
  · next hrepeated =>
    split at h
    · cases h
    · next hnone =>
      refine ⟨(nodup_of_firstRepeated hrepeated).1, ?_⟩
      intro u hu
      simpa using List.find?_eq_none.mp hnone u hu

theorem breaksOff_of_tops (hnodup : (updates.map (·.orderId)).Nodup)
    (hfits : ∀ v ∈ updates, t.fits v = true) (hu : u ∈ updates) (htops : t.tops u = true) :
    t.BreaksOff size updates := by
  have hflat := flatten_chunksOf size updates
  rw [← hflat] at hu
  obtain ⟨piece, hpiece, hmem⟩ := List.mem_flatten.mp hu
  obtain ⟨before, after, hsplit⟩ := List.append_of_mem hpiece
  refine ⟨hnodup, before, piece, after, hsplit, ?_, u, hmem, htops⟩
  intro v hv
  refine hfits v ?_
  rw [← hflat, hsplit, List.flatten_append]
  exact List.mem_append_left _ hv

theorem Bounded.register (h : t.Bounded) {orders : List Order}
    (horders : ∀ o ∈ orders, o.version ≤ maxSigned) :
    (t.register orders).1.Bounded := by
  intro id row hrow
  rw [get?_register, Option.or_eq_some_iff] at hrow
  rcases hrow with hold | ⟨_, hnew⟩
  · exact h id row hold
  · obtain ⟨o, ho, rfl⟩ := Option.map_eq_some_iff.mp hnew
    exact horders o (List.mem_of_find?_eq_some ho)

/-- **No version wraps.** A write that does not break off raises no row beyond the largest version. -/
theorem Bounded.written {t' : Table} {rows : Nat} (h : t.Bounded) (hnot : ¬ t.BreaksOff size updates)
    (hverdict : t.verdict updates = .ok rows) (hwritten : Written t updates t') : t'.Bounded := by
  obtain ⟨hnodup, hfits⟩ := verdict_eq_ok hverdict
  intro id row hrow
  by_cases hnamed : ∃ u ∈ updates, u.orderId = id
  · obtain ⟨u, hu, rfl⟩ := hnamed
    obtain ⟨old, hold, hversion, hnew⟩ := hwritten.updated hu
    have htops : t.tops u = false :=
      eq_false_of_ne_true fun htops => hnot (breaksOff_of_tops hnodup hfits hu htops)
    have hroom := room_of_not_tops htops hold hversion
    obtain rfl : row = old.update u := Option.some.inj (hrow.symm.trans hnew)
    exact Int.add_one_le_of_lt hroom
  · push Not at hnamed
    rw [hwritten.others hnamed] at hrow
    exact h id row hrow

end Table

/-! ### One statement of a transaction -/

section Statements

variable {t staged : Table} {updates first : List StatusUpdate} {rest : List (List StatusUpdate)}
  {run : WriteRun}

/-- A statement that comes to its row counts passes the objection on, or raises it itself. -/
theorem Transacts.objection_of_counts {counts : List Nat} (h : Transacts t updates run)
    (hremaining : run.remaining = first :: rest)
    (hcounts : t.stageAll run.staged first = (staged, .ok counts)) :
    t.objection run.remaining =
      match first.find? fun u => !t.fits u with
      | some u => .ok (some u)
      | none => t.objection rest := by
  have hunbroken : ¬ first.any t.tops = true := by
    intro hany
    obtain ⟨hdistinct, hnew⟩ := h.fresh hremaining
    obtain ⟨staged', hbreaks⟩ := Table.stageAll_breaks hdistinct hnew (List.any_eq_true.mp hany)
    cases congrArg Prod.snd (hcounts.symm.trans hbreaks)
  rw [hremaining, Table.objection, if_neg hunbroken]

theorem Transacts.objection_of_crash {crash : Crash} (h : Transacts t updates run)
    (hcrash : t.stageAll run.staged (run.remaining.headD []) = (staged, .error crash)) :
    t.objection run.remaining = .error crash := by
  cases hremaining : run.remaining with
  | nil =>
    rw [hremaining] at hcrash
    cases congrArg Prod.snd hcrash
  | cons first rest =>
    obtain ⟨hdistinct, hnew⟩ := h.fresh hremaining
    rw [hremaining, List.headD_cons] at hcrash
    cases hany : first.any t.tops with
    | true =>
      obtain ⟨staged', hbreaks⟩ := Table.stageAll_breaks hdistinct hnew (List.any_eq_true.mp hany)
      obtain rfl : crash = .overflow :=
        Except.error.inj (congrArg Prod.snd (hcrash.symm.trans hbreaks))
      rw [Table.objection, if_pos hany]
    | false =>
      have hroom : ∀ u ∈ first, ∀ row, t.get? u.orderId = some row →
          row.version = u.expectedVersion → row.version < maxSigned := by
        intro u hu row hrow hversion
        exact Table.room_of_not_tops (by simpa using List.any_eq_false.mp hany u hu) hrow hversion
      obtain ⟨staged', counts, hcounts⟩ := Table.stageAll_ok hroom hdistinct hnew
      cases congrArg Prod.snd (hcrash.symm.trans hcounts)

end Statements

namespace Engine

/-! ### Turns of a status write -/

/-- A write that began no earlier than at an instant is on its way to its sentence. -/
structure OnWay (t : Table) (c : PersistenceConfig) (begin : Nat) (updates : List StatusUpdate)
    (run : WriteRun) : Prop where
  total : run.total = updates.length
  limit : begin + c.transactionTimeout ≤ run.limit
  objection : t.objection run.remaining = t.objection (chunksOf c.chunkSize updates)

/-- A write has come to its sentence, or its time is over. -/
def Comes (t : Table) (c : PersistenceConfig) (begin : Nat) (updates : List StatusUpdate) (now : Nat)
    (ending : Except Crash (Except GateError Nat)) : Prop :=
  ending = t.sentence c.chunkSize updates ∨
    ending = .ok (.error (.writeTimeout c.transactionTimeout)) ∧ begin + c.transactionTimeout ≤ now

def TurnSentenced (t : Table) (c : PersistenceConfig) (begin : Nat) (updates : List StatusUpdate)
    (now : Nat) : WriteTurn → Prop
  | .goesOn run => OnWay t c begin updates run
  | .ends ending => Comes t c begin updates now ending

section Turns

variable {t : Table} {c : PersistenceConfig} {begin latency job : Nat} {updates : List StatusUpdate}
  {e : Engine P R} {w : WriteRun}

/-- The sentence of a write that names no order twice. -/
theorem OnWay.sentence (h : OnWay t c begin updates w) (hnodup : (updates.map (·.orderId)).Nodup) :
    t.sentence c.chunkSize updates =
      match t.objection w.remaining with
      | .error crash => .error crash
      | .ok (some u) => .ok (.error (.versionConflict u.orderId u.expectedVersion))
      | .ok none => .ok (.ok updates.length) := by
  rw [Table.sentence, firstRepeated_eq_none hnodup fun _ _ => List.not_mem_nil, h.objection]

theorem openWrite_sentenced (hstore : e.desk.store = .table latency) (hbegin : begin ≤ e.now) :
    TurnSentenced t e.desk.persistence begin updates e.now (e.openWrite job updates).2 := by
  simp only [openWrite, hstore]
  split
  · next hempty =>
    rw [List.isEmpty_iff.mp hempty]
    exact .inl (Table.sentence_nil t _).symm
  · split
    · next hrepeated =>
      refine .inl ?_
      rw [Table.sentence, hrepeated]
    · exact ⟨rfl, Nat.add_le_add_right hbegin _, rfl⟩

theorem nextStatement_sentenced (hstore : e.desk.store = .table latency)
    (hnodup : (updates.map (·.orderId)).Nodup) (h : OnWay t c begin updates w) (now : Nat) :
    TurnSentenced t c begin updates now (e.nextStatement job w).2 := by
  cases hremaining : w.remaining with
  | nil =>
    rw [nextStatement_commit e job w latency hremaining hstore, endWrite_turn]
    refine .inl ?_
    rw [h.sentence hnodup, hremaining, h.total]
    rfl
  | cons first rest =>
    simp only [nextStatement, hremaining, hstore]
    exact ⟨h.total, h.limit, hremaining ▸ h.objection⟩

/-- After a statement that has not broken off. -/
theorem afterStatement_sentenced {staged : Table} {counts : List Nat}
    (hstore : e.desk.store = .table latency) (htransacts : Transacts t updates w)
    (hcounts : t.stageAll w.staged (w.remaining.headD []) = (staged, .ok counts))
    (h : OnWay t c begin updates w) (now : Nat) :
    TurnSentenced t c begin updates now (e.afterStatement job { w with staged } counts).2 := by
  cases hremaining : w.remaining with
  | nil =>
    simp only [afterStatement]
    refine nextStatement_sentenced hstore htransacts.nodup ?_ now
    exact ⟨h.total, h.limit, hremaining ▸ h.objection⟩
  | cons first rest =>
    rw [hremaining, List.headD_cons] at hcounts
    have hobjection := htransacts.objection_of_counts hremaining hcounts
    simp only [afterStatement, htransacts.checkStatement hremaining hcounts]
    cases hfound : first.find? fun u => !t.fits u with
    | some u =>
      have hstore' : (e.note (.stored job .rollback)).desk.store = .table latency := hstore
      simp only [rollBack, hstore', endWrite_turn]
      refine .inl ?_
      rw [h.sentence htransacts.nodup, hobjection, hfound]
    | none =>
      rw [hfound] at hobjection
      refine nextStatement_sentenced hstore htransacts.nodup ?_ now
      exact ⟨h.total, h.limit, hobjection.symm.trans h.objection⟩

/-- **A turn of a status write** leads on, to its sentence, or to the end of its time. -/
theorem writeTurn_sentenced (hstore : e.desk.store = .table latency) (htable : e.ledger.table = t)
    (htransacts : Transacts t updates w) (hready : w.isReady job e.ledger e.now = true)
    (h : OnWay t e.desk.persistence begin updates w) :
    TurnSentenced t e.desk.persistence begin updates e.now (e.writeTurn job w).2 := by
  have hcut (hnot : w.hasCome job e.ledger e.now = false) :
      TurnSentenced t e.desk.persistence begin updates e.now (e.cutWrite job).2 := by
    rw [cutWrite, endWrite_turn]
    have hover : w.limit ≤ e.now := by simpa [WriteRun.isReady, hnot] using hready
    exact .inr ⟨rfl, h.limit.trans hover⟩
  rcases htransacts.onTable with hstep | ⟨due, hstep⟩
  · simp only [writeTurn, hstep]
    split
    · exact nextStatement_sentenced hstore htransacts.nodup h e.now
    · next hother =>
      refine hcut ?_
      simpa [WriteRun.hasCome, hstep] using hother
  · simp only [writeTurn, hstep, htable]
    split
    · cases hstaged : t.stageAll w.staged (w.remaining.headD []) with
      | mk staged counted =>
        cases counted with
        | ok counts => exact afterStatement_sentenced hstore htransacts hstaged h e.now
        | error crash =>
          simp only [endWrite_turn]
          refine .inl ?_
          rw [h.sentence htransacts.nodup, htransacts.objection_of_crash hstaged]
    · next hnot =>
      refine hcut ?_
      simpa [WriteRun.hasCome, hstep] using hnot

end Turns

/-! ### The whole write -/

/-- Where a status write stands that comes to its sentence. -/
def Sentenced (t : Table) (c : PersistenceConfig) (begin : Nat) (updates : List StatusUpdate) :
    Stage P R → Prop
  | .arriving due => begin ≤ due
  | .writing result run => result = none ∧ OnWay t c begin updates run
  | .finished time ending =>
      ∃ written, ending = written.map (·.map .written) ∧ Comes t c begin updates time written
  | _ => False

theorem followWrite_sentenced {t : Table} {c : PersistenceConfig} {begin : Nat}
    {updates : List StatusUpdate} {turn : Engine P R × WriteTurn}
    (h : TurnSentenced t c begin updates turn.1.now turn.2) :
    Sentenced t c begin updates (followWrite (.write updates) none turn).2 := by
  rcases turn with ⟨e, run | crash | error | rows⟩
  · exact ⟨rfl, h⟩
  all_goals
    simp only [followWrite, conclude_eq]
    exact ⟨_, rfl, h⟩

/-- One job writes these updates on its way to their sentence, and nobody else writes anything. -/
structure SoleWriter (t : Table) (c : PersistenceConfig) (number begin : Nat)
    (updates : List StatusUpdate) (e : Engine P R) : Prop where
  guarded : e.Guarded
  alone : Alone t number e
  settings : e.desk.persistence = c
  write : ∀ j ∈ e.jobs, j.number = number →
    j.assignment = .write updates ∧ Sentenced t c begin updates j.stage

section SoleWriter

variable {t : Table} {c : PersistenceConfig} {number begin : Nat} {updates : List StatusUpdate}
  {e e' : Engine P R}

/-- **A turn of the job.** -/
theorem SoleWriter.jobTurn (h : SoleWriter t c number begin updates e) {j : Job P R} (hj : j ∈ e.jobs)
    (hnumber : j.number = number) (hready : j.isReady e = true) :
    Sentenced t c begin updates (e.jobTurn j).2 := by
  obtain ⟨hassignment, hsentenced⟩ := h.write j hj hnumber
  have hkept := h.alone.own j hj hnumber
  obtain ⟨latency, hstore⟩ := h.guarded.store
  have hsettings := h.settings
  obtain ⟨n, a, stage, turn⟩ := j
  obtain rfl : a = .write updates := hassignment
  subst hsettings
  cases stage with
  | arriving due =>
    have hbegin : begin ≤ e.now := Nat.le_trans hsentenced (of_decide_eq_true hready)
    refine followWrite_sentenced ?_
    rw [(openWrite_floor e n updates).now]
    exact openWrite_sentenced hstore hbegin
  | writing result run =>
    obtain ⟨rfl, hway⟩ := hsentenced
    obtain ⟨htable, _, _, _, htransacts⟩ := hkept
    refine followWrite_sentenced ?_
    have hnow : (e.writeTurn n run).1.now = e.now := (writeTurn_floor e n run).now
    rw [hnow]
    exact writeTurn_sentenced hstore htable htransacts hready hway
  | finished time ending => cases hready
  | _ => cases hsentenced

theorem Move.soleWriter (hmove : Move e e') (h : SoleWriter t c number begin updates e) :
    SoleWriter t c number begin updates e' := by
  have hwf := h.guarded.wellFormed
  refine ⟨hmove.guarded h.guarded, hmove.alone hwf h.alone, ?_, ?_⟩
  · rw [hmove.desk hwf]
    exact h.settings
  · exact hmove.own hwf h.write fun j hj hnumber hready => h.jobTurn hj hnumber hready

theorem AtRest.soleWriter (hrest : e.AtRest) (hordinary : e.Ordinary) (hfree : e.ledger.Free)
    {assignments : List (Nat × Assignment P)} {i wait : Nat}
    (hassigned : assignments[i]? = some (wait, .write updates))
    (halone : ∀ k x, assignments[k]? = some x → k ≠ i → x.2.isWriter = false) :
    SoleWriter e.ledger.table e.desk.persistence (e.nextNumber + i) (e.now + wait) updates
      (e.addJobs assignments).unturned := by
  refine ⟨hrest.guarded hordinary.store hfree assignments, hrest.alone hordinary halone, ?_, ?_⟩
  · rw [addJobs_eq]
    rfl
  · intro j hj hnumber
    obtain rfl := hrest.newcomer hassigned hj hnumber
    exact ⟨rfl, Nat.le_refl _⟩

end SoleWriter

/-! ### The end -/

/-- How a status write has ended at a time, and in which table. If its time is not over, it has broken off or
come to its verdict; it has left the table as it was or written all of its updates to it, and no row is beyond
the largest version. -/
structure Concluded (t : Table) (c : PersistenceConfig) (begin : Nat) (updates : List StatusUpdate)
    (t' : Table) (time : Nat) (ended : Ending R) : Prop where
  ending : (ended = .ok (.error (.writeTimeout c.transactionTimeout)) ∧
      begin + c.transactionTimeout ≤ time) ∨
    (t.BreaksOff c.chunkSize updates ∧ ended = .error .overflow) ∨
    (¬ t.BreaksOff c.chunkSize updates ∧ ended = .ok ((t.verdict updates).map .written))
  written : ∀ rows, ended = .ok (.ok (.written rows)) → Written t updates t'
  untouched : (∀ rows, ended ≠ .ok (.ok (.written rows))) → t' = t
  bounded : t.Bounded → t'.Bounded

section Ends

variable {t t' : Table} {c : PersistenceConfig} {begin : Nat} {updates : List StatusUpdate} {e : Engine P R}

/-- A write that comes to an end, and of which the table is known, is concluded. -/
theorem Comes.concluded {time : Nat} {written : Except Crash (Except GateError Nat)}
    (h : Comes t c begin updates time written)
    (hkept : EndKept t e (.write updates) (written.map (·.map .written) : Ending R)) :
    Concluded t c begin updates e.ledger.table time (written.map (·.map .written) : Ending R) := by
  constructor
  case ending =>
    rcases h with rfl | ⟨rfl, hlate⟩
    · rcases t.sentence_eq c.chunkSize updates with ⟨hbreaks, hsentence⟩ | ⟨hnot, hsentence⟩
      · rw [hsentence]
        exact .inr (.inl ⟨hbreaks, rfl⟩)
      · rw [hsentence]
        exact .inr (.inr ⟨hnot, rfl⟩)
    · exact .inl ⟨rfl, hlate⟩
  case written =>
    intro rows hended
    rw [hended] at hkept
    exact hkept.2
  case untouched =>
    intro hnone
    rcases written with crash | error | rows
    · exact hkept
    · exact hkept
    · exact absurd rfl (hnone rows)
  case bounded =>
    intro hbounded
    rcases written with crash | error | rows
    · exact (show e.ledger.table = t from hkept) ▸ hbounded
    · exact (show e.ledger.table = t from hkept) ▸ hbounded
    · -- all updates have been written, so that the write has come to its verdict
      rcases h with hended | ⟨hended, _⟩
      · rcases t.sentence_eq c.chunkSize updates with ⟨_, hsentence⟩ | ⟨hnot, hsentence⟩
        · cases hended.trans hsentence
        · have hverdict := Except.ok.inj (hended.trans hsentence)
          exact hbounded.written hnot hverdict.symm hkept.2
      · cases hended

/-- Until the write has ended the table is as it was, and then it is concluded and has left the table. -/
theorem SoleWriter.concluded {number : Nat} (h : SoleWriter t c number begin updates e) {j : Job P R}
    (hj : j ∈ e.jobs) (hnumber : j.number = number) :
    (j.ending? = none → e.ledger.table = t) ∧
      ∀ time ending, j.ending? = some (time, ending) →
        Concluded t c begin updates e.ledger.table time ending ∧ j.number ∉ e.ledger.line := by
  obtain ⟨hassignment, hsentenced⟩ := h.write j hj hnumber
  obtain ⟨hunended, hended⟩ := h.alone.kept hj hnumber
  refine ⟨hunended, ?_⟩
  intro time ending hending
  have hkept := hended time ending hending
  rw [hassignment] at hkept
  rw [ending?_eq_some hending] at hsentenced
  obtain ⟨written, rfl, hcomes⟩ := hsentenced
  exact ⟨hcomes.concluded hkept, h.guarded.left hj hending⟩

end Ends

/-- **A write breaks off only at the largest version.** Let a status write be one of several assignments,
the only one that writes, beside whoever keeps the table and for however long, on a table that is free at
first. Until it has ended the table is as it was. If its time is not over it breaks off exactly if some
update finds a row of the largest version and no update of an earlier statement misses its row; otherwise
it comes to its verdict, whatever the versions of all other rows. Only with the number of its updates has
it written any, and then all of them; no row is raised beyond the largest version; and it has left the
table to others. What is performed ends in one of these ways. -/
theorem write_breaks_off_only_at_largest_version {e : Engine P R} (hrest : e.AtRest)
    (hordinary : e.Ordinary) (hfree : e.ledger.Free) {assignments : List (Nat × Assignment P)}
    {i wait : Nat} {updates : List StatusUpdate}
    (hassigned : assignments[i]? = some (wait, .write updates))
    (halone : ∀ k x, assignments[k]? = some x → k ≠ i → x.2.isWriter = false) :
    let t := e.ledger.table
    let c := e.desk.persistence
    (∀ e', Course (e.addJobs assignments).unturned e' → ∃ j ∈ e'.jobs,
      j.number = e.nextNumber + i ∧ j.assignment = .write updates ∧
      (j.ending? = none → e'.ledger.table = t) ∧
      ∀ time ending, j.ending? = some (time, ending) →
        Concluded t c (e.now + wait) updates e'.ledger.table time ending ∧
          j.number ∉ e'.ledger.line) ∧
    ∃ time ending, (e.perform assignments).2[i]? = some (some (time, ending)) ∧
      Concluded t c (e.now + wait) updates (e.perform assignments).1.ledger.table time ending ∧
      e.nextNumber + i ∉ (e.perform assignments).1.ledger.line ∧
      ((∀ x ∈ assignments, x.2 ≠ .occupy none) → (e.perform assignments).1.ledger.Free) := by
  intro t c
  have hstart := hrest.soleWriter hordinary hfree hassigned halone
  have hwrites {e' : Engine P R} (hcourse : Course (e.addJobs assignments).unturned e') :
      SoleWriter t c (e.nextNumber + i) (e.now + wait) updates e' :=
    hcourse.keeps Move.soleWriter hstart
  constructor
  · intro e' hcourse
    obtain ⟨j, hj, hnumber, hassignment⟩ := hrest.exists_job hcourse hassigned
    have hmem := List.mem_of_getElem? hj
    exact ⟨j, hmem, hnumber, hassignment, (hwrites hcourse).concluded hmem hnumber⟩
  · obtain ⟨done, hcourse, hsettled, hwf, hdone, hendings⟩ := perform_course hrest assignments
    have hledger : (e.perform assignments).1.unturned.ledger = done.ledger := by rw [hdone]
    have hledger' : (e.perform assignments).1.ledger = done.ledger := hledger
    obtain ⟨j, hj, hnumber, hassignment⟩ := hrest.exists_job hcourse hassigned
    have hmem := List.mem_of_getElem? hj
    obtain ⟨time, ending, hstage⟩ := hsettled.finished hwf hmem (by rw [hassignment]; rfl)
    have hending : j.ending? = some (time, ending) := by rw [Job.ending?, hstage]
    obtain ⟨hconcluded, hleft⟩ := ((hwrites hcourse).concluded hmem hnumber).2 time ending hending
    rw [hledger', ← hnumber]
    refine ⟨time, ending, ?_, hconcluded, hleft, ?_⟩
    · rw [hendings, List.getElem?_map, hj, Option.map_some, hending]
    · intro hleaves
      refine hsettled.free (hwrites hcourse).guarded ?_
      intro k hk hstays
      obtain ⟨x, hx, hsame⟩ := hrest.assigned hcourse hk
      exact hleaves x hx (hsame.trans hstays)

/-- The second of two orders is registered at the largest version, and the first update expects another
version than there is. In one statement for both the write breaks off; in two it names the first update. -/
theorem second_row_breaks_off :
    let order (id version : Int) : Order := { (default : Order) with id, version }
    let update (id version : Int) : StatusUpdate :=
      { orderId := id, expectedVersion := version, status := .submitted, extra := none }
    let t := (Table.register [] [order 1 0, order 2 maxSigned]).1
    let updates := [update 1 7, update 2 maxSigned]
    let e (size : Nat) := begun (.forStatuses { chunkSize := size } (.table 0)) {} {} none t 0
    let assignments := [(0, .write updates)]
    t.Bounded ∧ (∀ size, (e size).AtRest ∧ (e size).Ordinary ∧ (e size).ledger.Free) ∧
      assignments[0]? = some (0, .write updates) ∧
      (∀ k x, assignments[k]? = some x → k ≠ 0 → x.2.isWriter = false) ∧
      ((e 2).perform assignments).2[0]? = some (some (0, .error .overflow)) ∧
      ((e 1).perform assignments).2[0]? = some (some (0, .ok (.error (.versionConflict 1 7)))) ∧
      ((e 2).perform assignments).1.ledger.table = t := by
  intro order update t updates e assignments
  have hbounded : t.Bounded := by
    have hempty : Table.Bounded [] := by
      intro id row hrow
      cases hrow
    exact hempty.register (by decide)
  have hrest (size : Nat) : (e size).AtRest := begun_atRest _ _ _ _ _ _
  have hordinary (size : Nat) : (e size).Ordinary := ⟨⟨0, rfl⟩, begun_faithful _ _ _ _ _ _⟩
  have hfree (size : Nat) : (e size).ledger.Free := ⟨rfl, rfl⟩
  have hassigned : assignments[0]? = some (0, .write updates) := rfl
  have halone : ∀ k x, assignments[k]? = some x → k ≠ 0 → x.2.isWriter = false := by
    intro k x hx hne
    rw [List.getElem?_singleton, if_neg hne] at hx
    cases hx
  have hmisses : t.fits (update 1 7) = false := by decide
  have hbreaks : t.BreaksOff 2 updates := by
    have hchunks : chunksOf 2 updates = [updates] := by simp [chunksOf, piecesOf, updates]
    exact ⟨by decide, [], updates, [], hchunks, by simp, update 2 maxSigned, by simp [updates], by decide⟩
  have hgoes : ¬ t.BreaksOff 1 updates := by
    rintro ⟨_, before, piece, after, hsplit, hbefore, u, hu, htops⟩
    have hchunks : chunksOf 1 updates = [[update 1 7], [update 2 maxSigned]] := by
      simp [chunksOf, piecesOf, updates]
    rw [hchunks] at hsplit
    cases before with
    | nil =>
      obtain rfl : [update 1 7] = piece := (List.cons.inj hsplit).1
      obtain rfl := List.mem_singleton.mp hu
      rw [Table.tops, hmisses] at htops
      cases htops
    | cons first before =>
      obtain rfl : [update 1 7] = first := (List.cons.inj hsplit).1
      have hfits := hbefore (update 1 7) (by simp)
      rw [hmisses] at hfits
      cases hfits
  have hverdict : t.verdict updates = .error (.versionConflict 1 7) := by
    have hnone : ∀ v ∈ ([] : List StatusUpdate), t.fits v = true := by
      intro v hv
      cases hv
    exact Table.verdict_conflict (by decide) hnone hmisses
  have htime (size : Nat) (h : size = 1 ∨ size = 2) :
      (((e size).perform assignments).2[0]?).map (·.map (·.1)) = some (some 0) := by
    rcases h with rfl | rfl <;> decide +kernel
  have hended {size time : Nat} {ending : Ending Unit} (h : size = 1 ∨ size = 2)
      (hending : ((e size).perform assignments).2[0]? = some (some (time, ending))) : time = 0 := by
    have hinstant := htime size h
    rw [hending] at hinstant
    exact Option.some.inj (Option.some.inj hinstant)
  obtain ⟨time, ending, hending, hconcluded, _⟩ := (write_breaks_off_only_at_largest_version
    (hrest 2) (hordinary 2) (hfree 2) hassigned halone).2
  obtain ⟨time', ending', hending', hconcluded', _⟩ := (write_breaks_off_only_at_largest_version
    (hrest 1) (hordinary 1) (hfree 1) hassigned halone).2
  obtain rfl := hended (.inr rfl) hending
  obtain rfl := hended (.inl rfl) hending'
  have htwo : ending = .error .overflow := by
    rcases hconcluded.ending with ⟨_, hlate⟩ | ⟨_, hcrash⟩ | ⟨hnot, _⟩
    · exact absurd hlate (by decide)
    · exact hcrash
    · exact absurd hbreaks hnot
  have hone : ending' = .ok (.error (.versionConflict 1 7)) := by
    rcases hconcluded'.ending with ⟨_, hlate⟩ | ⟨hbroken, _⟩ | ⟨_, hruled⟩
    · exact absurd hlate (by decide)
    · exact absurd hbroken hgoes
    · have hruled' : ending' = .ok ((t.verdict updates).map .written) := hruled
      rw [hruled', hverdict]
      rfl
  subst htwo hone
  have hsame : ((e 2).perform assignments).1.ledger.table = t := by
    refine hconcluded.untouched ?_
    intro rows hrows
    cases hrows
  exact ⟨hbounded, fun size => ⟨hrest size, hordinary size, hfree size⟩, hassigned, halone, hending,
    hending', hsame⟩

end Engine

end OrderAdmission
