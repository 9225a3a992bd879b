import OrderAdmission.Proofs.Fates
import OrderAdmission.Proofs.Tables

/-!
# What is said in a transaction

A status write makes its updates in a transaction of some store: the table of the engine, or a store
outside that answers every call as it likes and when it likes, or not at all. The calls that it makes are a
`Transcript`: the transaction is opened, statements are made, and at last it may be committed or taken back.

Two structures say how a transcript follows from the answers of the store, `Converses` at every instant and
`Concludes` when the write has ended. **A statement is made only after the one before it has been answered
by a one for each update, the transaction is committed only after all have been, and it is taken back
exactly if a statement has been answered otherwise before the time was over.** Transcripts grow step by step,
and `Passed` and `Stands` say how far they have come (`Passed.converses`).

The table is one of the stores: as long as a transaction has it to itself, its answers are those of a
script as well.
-/
namespace OrderAdmission

variable {P R : Type}

/-! ### Answers to a statement -/

theorem Conduct.reply?_mono {α : Type} {c : Conduct α} {now later : Nat} {reply : Option α}
    (h : c.reply? now = some reply) (hle : now ≤ later) : c.reply? later = some reply := by
  cases c with
  | answers time answer =>
    simp only [reply?] at h ⊢
    split at h
    · rw [if_pos (by omega)]
      exact h
    · cases h
  | breaksOff time =>
    simp only [reply?] at h ⊢
    split at h
    · rw [if_pos (by omega)]
      exact h
    · cases h
  | hangs => cases h

theorem Conduct.reply?_limit {α : Type} {call : Conduct α} {now limit : Nat} (hnow : now ≤ limit)
    (hready : (call.arrived now || decide (limit ≤ now)) = true) :
    call.reply? limit = call.reply? now := by
  rw [arrived_eq_isSome] at hready
  cases hreply : call.reply? now with
  | some reply => exact reply?_mono hreply hnow
  | none =>
    have hover : limit ≤ now := by simpa [hreply] using hready
    rw [Nat.le_antisymm hover hnow, hreply]

theorem Conduct.reply?_prompt {α : Type} (answer : α) {now limit : Nat} (h : now ≤ limit) :
    ((Conduct.answers 0 answer).since now).reply? limit = some (some answer) :=
  if_pos h

/-- The answer that there ought to be: every row has changed once. -/
def allOnce (updates : List StatusUpdate) : Except GateError (List Nat) :=
  .ok (List.replicate updates.length 1)

/-- What is wrong with the answer to a statement. -/
def objection (updates : List StatusUpdate) : Except GateError (List Nat) → Option GateError
  | .error error => some error
  | .ok counts =>
    match checkStatement updates counts with
    | .error error => some error
    | .ok () => none

/-- Nothing but an error, a wrong number of counts and a count other than one is wrong. -/
theorem objection_eq_none {updates : List StatusUpdate} {answer : Except GateError (List Nat)} :
    objection updates answer = none ↔ answer = allOnce updates := by
  cases answer with
  | error error => simp [objection, allOnce]
  | ok counts =>
    simp only [objection]
    cases hcheck : checkStatement updates counts with
    | error error =>
      refine iff_of_false (by simp) ?_
      intro hones
      rw [allOnce, Except.ok.injEq] at hones
      rw [hones, checkStatement_replicate] at hcheck
      cases hcheck
    | ok => exact iff_of_true rfl (congrArg Except.ok (checkStatement_ok hcheck))

theorem ne_allOnce_of_objection {updates : List StatusUpdate} {answer : Except GateError (List Nat)}
    {error : GateError} (h : objection updates answer = some error) : answer ≠ allOnce updates := by
  intro hright
  rw [objection_eq_none.mpr hright] at h
  cases h

/-! ### The table as a store -/

/-- Statements one after another are one long statement. -/
theorem Table.stageAll_append {t staged staged₁ : Table} {first second : List StatusUpdate}
    {counts : List Nat} (h : t.stageAll staged first = (staged₁, .ok counts)) :
    t.stageAll staged (first ++ second) =
      ((t.stageAll staged₁ second).1, (t.stageAll staged₁ second).2.map (counts ++ ·)) := by
  induction first generalizing staged counts with
  | nil =>
    obtain ⟨rfl, hcounts⟩ := Prod.mk.inj h
    obtain rfl := Except.ok.inj hcounts
    have hnone : (t.stageAll staged second).2.map (([] : List Nat) ++ ·) = (t.stageAll staged second).2 := by
      cases (t.stageAll staged second).2 <;> rfl
    rw [hnone]
    rfl
  | cons u rest ih =>
    simp only [stageAll] at h
    split at h
    · cases congrArg Prod.snd h
    · rename_i staged₂ n hfirst
      split at h
      · cases congrArg Prod.snd h
      · rename_i staged₃ ns hrest
        obtain ⟨rfl, hcounts⟩ := Prod.mk.inj h
        obtain rfl := Except.ok.inj hcounts
        rw [List.cons_append]
        simp only [stageAll, hfirst, ih hrest]
        cases (t.stageAll staged₃ second).2 <;> rfl

/-- The answer of a table to a statement, which comes at this time. -/
def answerAt (time : Nat) : Except Crash (List Nat) → Conduct (Except GateError (List Nat))
  | .ok counts => .answers time (.ok counts)
  | .error _ => .breaksOff time

theorem answerAt_since (start delay : Nat) (result : Except Crash (List Nat)) :
    (answerAt delay result).since start = answerAt (start + delay) result := by
  cases result <;> rfl

theorem answerAt_arrived (due : Nat) (result : Except Crash (List Nat)) (now : Nat) :
    (answerAt due result).arrived now = decide (due ≤ now) := by
  cases result <;> rfl

/-- The table as a store, for a transaction with these updates that has it to itself. A statement is
answered as the updates in the chunks before it have been staged; how long others keep the table before the
transaction begins is not in the script. -/
def Table.script (t : Table) (latency size : Nat) (updates : List StatusUpdate) : StoreScript where
  opening := .answers 0 (.ok ())
  statement n piece := answerAt latency (t.stageAll (t.stageAll [] (updates.take (n * size))).1 piece).2
  commit := .answers 0 (.ok ())
  rollback := .answers 0 (.ok ())

/-- How the store answers a transaction with these updates, if the table is this one. -/
def Desk.script (desk : Desk P R) (t : Table) (updates : List StatusUpdate) : StoreScript :=
  match desk.store with
  | .table latency => t.script latency (max 1 desk.persistence.chunkSize) updates
  | .outside script => script

/-- A table opens and closes a transaction at once. -/
theorem Desk.script_prompt (desk : Desk P R) (t : Table) (updates : List StatusUpdate) {latency : Nat}
    (hstore : desk.store = .table latency) {now limit : Nat} (hnow : now ≤ limit) :
    ((desk.script t updates).opening.since now).reply? limit = some (some (.ok ())) ∧
      ((desk.script t updates).commit.since now).reply? limit = some (some (.ok ())) ∧
      ((desk.script t updates).rollback.since now).reply? limit = some (some (.ok ())) := by
  simp only [script, hstore]
  exact ⟨Conduct.reply?_prompt _ hnow, Conduct.reply?_prompt _ hnow, Conduct.reply?_prompt _ hnow⟩

/-! ### Transcripts -/

/-- How a transaction is closed. -/
inductive Closing where
  | commit
  | rollback
  deriving DecidableEq

/-- The call that closes a transaction. -/
def Closing.call : Closing → StoreCall
  | commit => .commit
  | rollback => .rollback

/-- The calls of one transaction, each with its time. -/
structure Transcript where
  /-- When the transaction was opened. -/
  began : Nat
  /-- The statements, each with its updates. -/
  statements : List (Nat × List StatusUpdate) := []
  /-- How it was closed, if it was. -/
  closing : Option (Nat × Closing) := none

namespace Transcript

def calls (c : Transcript) : List (Nat × StoreCall) :=
  (c.began, .begin) :: c.statements.map (fun s => (s.1, .apply (Engine.statementIds s.2))) ++
    c.closing.toList.map fun x => (x.1, x.2.call)

/-- The updates of all statements. -/
def stated (c : Transcript) : List StatusUpdate := (c.statements.map (·.2)).flatten

def state (c : Transcript) (time : Nat) (piece : List StatusUpdate) : Transcript :=
  { c with statements := c.statements ++ [(time, piece)] }

def close (c : Transcript) (time : Nat) (closing : Closing) : Transcript :=
  { c with closing := some (time, closing) }

/-- The store has answered the statement with this number within the limit. -/
def Hears (c : Transcript) (script : StoreScript) (limit n : Nat) (piece : List StatusUpdate)
    (answer : Except GateError (List Nat)) : Prop :=
  ∃ time, c.statements[n]? = some (time, piece) ∧
    ((script.statement n piece).since time).reply? limit = some (some answer)

/-- **What a transcript is like, whatever the store answers.** The statements are the updates in chunks of
this size, of which zero counts as one, from the first one on. -/
structure Converses (c : Transcript) (script : StoreScript) (size limit : Nat)
    (updates : List StatusUpdate) : Prop where
  /-- All statements are chunks of full size, but for the last chunk of all. -/
  pieces : ∀ n time piece, c.statements[n]? = some (time, piece) →
    piece ≠ [] ∧ piece = chunkAt (max 1 size) n updates
  /-- All together are the updates up to some point. -/
  inOrder : c.stated <+: updates
  /-- No call is made when the time is over. -/
  inTime : ∀ call ∈ c.calls, call.1 ≤ limit
  /-- Statements are made only when the transaction is open. -/
  opened : c.statements ≠ [] → (script.opening.since c.began).reply? limit = some (some (.ok ()))
  /-- Another statement is made only if every row of the one before it has changed once. -/
  goesOn : ∀ n, n + 1 < c.statements.length → ∃ piece, c.Hears script limit n piece (allOnce piece)
  /-- A transaction is committed only if all updates have been made and every row has changed once. -/
  commits : ∀ time, c.closing = some (time, .commit) → c.stated = updates ∧
    ∀ n < c.statements.length, ∃ piece, c.Hears script limit n piece (allOnce piece)
  /-- A transaction is taken back only if its last statement has been answered otherwise. -/
  takesBack : ∀ time, c.closing = some (time, .rollback) → ∃ n piece answer,
    n + 1 = c.statements.length ∧ c.Hears script limit n piece answer ∧ answer ≠ allOnce piece

/-- How a write ends when its transaction is taken back after an error, by what comes back from that. -/
def blame (error : GateError) (timeout : Nat) :
    Option (Option (Except GateError Unit)) → Except Crash (Except GateError Nat)
  | some (some _) => .ok (.error error)
  | some none => .error .collaborator
  | none => .ok (.error (.writeTimeout timeout))

/-- **What a transcript says of the end of a write.** -/
structure Concludes (c : Transcript) (script : StoreScript) (size timeout : Nat)
    (updates : List StatusUpdate) (ending : Except Crash (Except GateError Nat)) : Prop extends
    c.Converses script size (c.began + timeout) updates where
  /-- A transaction is taken back exactly if some statement was answered otherwise than it should. -/
  takenBack : (∃ time, c.closing = some (time, .rollback)) ↔
    ∃ n piece answer, c.Hears script (c.began + timeout) n piece answer ∧ answer ≠ allOnce piece
  /-- The updates count as written exactly if the transaction was committed and the store has said so. -/
  written : ∀ rows, ending = .ok (.ok rows) ↔ rows = updates.length ∧
    ∃ time, c.closing = some (time, .commit) ∧
      (script.commit.since time).reply? (c.began + timeout) = some (some (.ok ()))
  /-- When a transaction was taken back, whether that went well or not, the error is what was wrong with
  the statement; only if nothing came back from it is it another. -/
  blames : ∀ time, c.closing = some (time, .rollback) → ∃ n piece answer error,
    c.Hears script (c.began + timeout) n piece answer ∧ objection piece answer = some error ∧
      ending = blame error timeout ((script.rollback.since time).reply? (c.began + timeout))

variable {c : Transcript} {script : StoreScript} {limit made n : Nat} {chunks : List (List StatusUpdate)}
  {piece piece' : List StatusUpdate} {answer answer' : Except GateError (List Nat)}

theorem calls_state (h : c.closing = none) (time : Nat) (piece : List StatusUpdate) :
    (c.state time piece).calls = c.calls ++ [(time, .apply (Engine.statementIds piece))] := by
  simp [calls, state, h]

theorem calls_close (h : c.closing = none) (time : Nat) (closing : Closing) :
    (c.close time closing).calls = c.calls ++ [(time, closing.call)] := by
  simp [calls, close, h]

theorem Hears.unique (h : c.Hears script limit n piece answer)
    (h' : c.Hears script limit n piece' answer') : piece = piece' ∧ answer = answer' := by
  obtain ⟨time, hstatement, hreply⟩ := h
  obtain ⟨time', hstatement', hreply'⟩ := h'
  obtain ⟨rfl, rfl⟩ := Prod.mk.inj (Option.some.inj (hstatement.symm.trans hstatement'))
  exact ⟨rfl, Option.some.inj (Option.some.inj (hreply.symm.trans hreply'))⟩

theorem Hears.lt (h : c.Hears script limit n piece answer) : n < c.statements.length := by
  obtain ⟨time, hstatement, -⟩ := h
  exact (List.getElem?_eq_some_iff.mp hstatement).1

theorem Hears.state (h : c.Hears script limit n piece answer) (time : Nat)
    (next : List StatusUpdate) : (c.state time next).Hears script limit n piece answer := by
  obtain ⟨start, hstatement, hreply⟩ := h
  refine ⟨start, ?_, hreply⟩
  have hlt := (List.getElem?_eq_some_iff.mp hstatement).1
  simp only [Transcript.state, List.getElem?_append_left hlt, hstatement]

/-! ### Transcripts step by step -/

/-- The statements are the first of these chunks, and so many of them have been answered as they should. -/
structure Passed (c : Transcript) (script : StoreScript) (limit : Nat)
    (chunks : List (List StatusUpdate)) (made : Nat) : Prop where
  pieces : c.statements.map (·.2) <+: chunks
  inTime : ∀ call ∈ c.calls, call.1 ≤ limit
  opened : c.statements ≠ [] → (script.opening.since c.began).reply? limit = some (some (.ok ()))
  passed : ∀ n < made, ∃ piece, c.Hears script limit n piece (allOnce piece)

theorem Passed.begin (script : StoreScript) {now : Nat} (hnow : now ≤ limit)
    (chunks : List (List StatusUpdate)) : ({ began := now } : Transcript).Passed script limit chunks 0 := by
  refine ⟨List.nil_prefix, ?_, fun hsome => absurd rfl hsome, nofun⟩
  intro call hcall
  obtain rfl := List.mem_singleton.mp hcall
  exact hnow

theorem Passed.chunk (h : c.Passed script limit chunks made) {time : Nat}
    (hstatement : c.statements[n]? = some (time, piece)) : chunks[n]? = some piece := by
  obtain ⟨rest, hrest⟩ := h.pieces
  have hmap : (c.statements.map (·.2))[n]? = some piece := by
    rw [List.getElem?_map, hstatement]
    rfl
  have hlt := (List.getElem?_eq_some_iff.mp hmap).1
  rw [← hrest, List.getElem?_append_left hlt, hmap]

/-- The next statement, after the store has let the transaction open. -/
theorem Passed.state (h : c.Passed script limit chunks made) (hclosing : c.closing = none)
    (hopened : (script.opening.since c.began).reply? limit = some (some (.ok ())))
    (hnext : chunks[c.statements.length]? = some piece) {now : Nat} (hnow : now ≤ limit) :
    (c.state now piece).Passed script limit chunks made := by
  refine ⟨?_, ?_, fun _ => hopened, fun n hn => ?_⟩
  · have hmap : (c.state now piece).statements.map (·.2) = c.statements.map (·.2) ++ [piece] :=
      List.map_append
    obtain ⟨rest, hrest⟩ := h.pieces
    rw [hmap]
    rw [← hrest, List.getElem?_append_right (by simp)] at hnext
    cases rest with
    | nil => simp at hnext
    | cons first rest =>
      obtain rfl : first = piece := by simpa using hnext
      exact ⟨rest, by rw [← hrest, List.append_assoc]; rfl⟩
  · intro call hcall
    rw [calls_state hclosing] at hcall
    rcases List.mem_append.mp hcall with hcall | hcall
    · exact h.inTime call hcall
    · obtain rfl := List.mem_singleton.mp hcall
      exact hnow
  · obtain ⟨earlier, hheard⟩ := h.passed n hn
    exact ⟨earlier, hheard.state now piece⟩

theorem Passed.pass (h : c.Passed script limit chunks made)
    (hheard : c.Hears script limit made piece (allOnce piece)) :
    c.Passed script limit chunks (made + 1) := by
  refine ⟨h.pieces, h.inTime, h.opened, fun n hn => ?_⟩
  rcases Nat.lt_succ_iff_lt_or_eq.mp hn with hearlier | rfl
  · exact h.passed n hearlier
  · exact ⟨piece, hheard⟩

theorem Passed.close (h : c.Passed script limit chunks made) (hclosing : c.closing = none) {now : Nat}
    (hnow : now ≤ limit) (closing : Closing) :
    (c.close now closing).Passed script limit chunks made := by
  refine ⟨h.pieces, fun call hcall => ?_, h.opened, h.passed⟩
  rw [calls_close hclosing] at hcall
  rcases List.mem_append.mp hcall with hcall | hcall
  · exact h.inTime call hcall
  · obtain rfl := List.mem_singleton.mp hcall
    exact hnow

theorem Passed.right (h : c.Passed script limit chunks made) (hn : n < made)
    (hheard : c.Hears script limit n piece answer) : answer = allOnce piece := by
  obtain ⟨piece', hones⟩ := h.passed n hn
  obtain ⟨rfl, rfl⟩ := hones.unique hheard
  rfl

/-- Where a transaction stands when so many statements have been answered as they should. -/
inductive Stands (c : Transcript) (script : StoreScript) (limit : Nat)
    (chunks : List (List StatusUpdate)) (made : Nat) : Prop where
  /-- No statement is under way that is not known to have been answered. -/
  | idle (length : c.statements.length = made) (closing : c.closing = none)
  /-- One more statement has been made. -/
  | asked (length : c.statements.length = made + 1) (closing : c.closing = none)
  | committed {time : Nat} (length : c.statements.length = made) (all : made = chunks.length)
      (closing : c.closing = some (time, .commit))
  | takenBack {time : Nat} {piece : List StatusUpdate} {answer : Except GateError (List Nat)}
      (length : c.statements.length = made + 1) (heard : c.Hears script limit made piece answer)
      (wrong : answer ≠ allOnce piece) (closing : c.closing = some (time, .rollback))

theorem Stands.le (h : c.Stands script limit chunks made) : c.statements.length ≤ made + 1 := by
  cases h with
  | idle length closing => omega
  | asked length closing => omega
  | committed length all closing => omega
  | takenBack length heard wrong closing => omega

variable {size timeout : Nat} {updates : List StatusUpdate}

theorem Passed.converses (h : c.Passed script limit (chunksOf size updates) made)
    (hstands : c.Stands script limit (chunksOf size updates) made) :
    c.Converses script size limit updates := by
  have hle := hstands.le
  constructor
  case pieces =>
    intro n time piece hstatement
    have hchunk := h.chunk hstatement
    rw [getElem?_chunksOf] at hchunk
    split at hchunk
    · rename_i hbound
      obtain rfl := Option.some.inj hchunk
      refine ⟨?_, rfl⟩
      rw [← List.length_pos_iff, chunkAt, List.length_take, List.length_drop]
      omega
    · cases hchunk
  case inOrder =>
    obtain ⟨rest, hrest⟩ := h.pieces
    refine ⟨rest.flatten, ?_⟩
    rw [stated, ← List.flatten_append, hrest, flatten_chunksOf]
  case inTime => exact h.inTime
  case opened => exact h.opened
  case goesOn =>
    intro n hn
    exact h.passed n (by omega)
  case commits =>
    intro time hclosing
    cases hstands with
    | committed length all closing =>
      have hwhole := h.pieces.eq_of_length (by rw [List.length_map]; omega)
      refine ⟨by rw [stated, hwhole, flatten_chunksOf], fun n hn => h.passed n (by omega)⟩
    | idle length closing => cases hclosing.symm.trans closing
    | asked length closing => cases hclosing.symm.trans closing
    | takenBack length heard wrong closing => cases hclosing.symm.trans closing
  case takesBack =>
    intro time hclosing
    cases hstands with
    | takenBack length heard wrong closing => exact ⟨made, _, _, length.symm, heard, wrong⟩
    | idle length closing => cases hclosing.symm.trans closing
    | asked length closing => cases hclosing.symm.trans closing
    | committed length all closing => cases hclosing.symm.trans closing

/-! ### The end of a transcript -/

variable {ending : Except Crash (Except GateError Nat)}

/-- When what the transaction waits for does not come, or is an error or a crash, and the transaction is
neither committed nor taken back. -/
theorem Passed.concludes_open
    (h : c.Passed script (c.began + timeout) (chunksOf size updates) made)
    (hstands : c.Stands script (c.began + timeout) (chunksOf size updates) made)
    (hclosing : c.closing = none)
    (hsilent : ∀ piece answer, ¬ c.Hears script (c.began + timeout) made piece answer)
    (hfailed : ∀ rows, ending ≠ .ok (.ok rows)) : c.Concludes script size timeout updates ending := by
  have hnever {time : Nat} {how : Closing} : c.closing ≠ some (time, how) := by simp [hclosing]
  refine ⟨h.converses hstands, ⟨?_, ?_⟩, fun rows => ⟨?_, ?_⟩, ?_⟩
  · rintro ⟨time, hclosed⟩
    exact absurd hclosed hnever
  · rintro ⟨n, piece, answer, hheard, hwrong⟩
    have hle := hstands.le
    have hlt := hheard.lt
    rcases Nat.lt_or_ge n made with hn | hn
    · exact absurd (h.right hn hheard) hwrong
    · obtain rfl : n = made := by omega
      exact absurd hheard (hsilent piece answer)
  · intro hrows
    exact absurd hrows (hfailed rows)
  · rintro ⟨-, time, hclosed, -⟩
    exact absurd hclosed hnever
  · intro time hclosed
    exact absurd hclosed hnever

/-- When the transaction has been committed. -/
theorem Passed.concludes_committed
    (h : c.Passed script (c.began + timeout) (chunksOf size updates) made) {time : Nat}
    (hlength : c.statements.length = made) (hall : made = (chunksOf size updates).length)
    (hclosing : c.closing = some (time, .commit))
    (hending : ∀ rows, ending = .ok (.ok rows) ↔ rows = updates.length ∧
      (script.commit.since time).reply? (c.began + timeout) = some (some (.ok ()))) :
    c.Concludes script size timeout updates ending := by
  have hkind {time' : Nat} : c.closing ≠ some (time', .rollback) := by simp [hclosing]
  refine ⟨h.converses (.committed hlength hall hclosing), ⟨?_, ?_⟩, fun rows => ?_, ?_⟩
  · rintro ⟨time', hclosed⟩
    exact absurd hclosed hkind
  · rintro ⟨n, piece, answer, hheard, hwrong⟩
    exact absurd (h.right (hlength ▸ hheard.lt) hheard) hwrong
  · rw [hending]
    refine and_congr_right fun _ => ⟨fun hreply => ⟨time, hclosing, hreply⟩, ?_⟩
    rintro ⟨time', hclosed, hreply⟩
    obtain ⟨rfl, -⟩ := Prod.mk.inj (Option.some.inj (hclosing.symm.trans hclosed))
    exact hreply
  · intro time' hclosed
    exact absurd hclosed hkind

/-- When the transaction has been taken back. -/
theorem Passed.concludes_takenBack
    (h : c.Passed script (c.began + timeout) (chunksOf size updates) made) {time : Nat}
    (hlength : c.statements.length = made + 1)
    (hheard : c.Hears script (c.began + timeout) made piece answer) {error : GateError}
    (herror : objection piece answer = some error) (hclosing : c.closing = some (time, .rollback))
    (hending : ending = blame error timeout ((script.rollback.since time).reply? (c.began + timeout))) :
    c.Concludes script size timeout updates ending := by
  have hwrong := ne_allOnce_of_objection herror
  have hconverses := h.converses (.takenBack hlength hheard hwrong hclosing)
  refine ⟨hconverses, ⟨?_, ?_⟩, fun rows => ⟨?_, ?_⟩, ?_⟩
  · exact fun _ => ⟨made, piece, answer, hheard, hwrong⟩
  · exact fun _ => ⟨time, hclosing⟩
  · intro hrows
    rw [hending] at hrows
    unfold blame at hrows
    split at hrows <;> cases hrows
  · rintro ⟨-, time', hclosed, -⟩
    simp [hclosing] at hclosed
  · intro time' hclosed
    obtain ⟨rfl, -⟩ := Prod.mk.inj (Option.some.inj (hclosing.symm.trans hclosed))
    exact ⟨made, piece, answer, error, hheard, herror, hending⟩

end Transcript

end OrderAdmission
