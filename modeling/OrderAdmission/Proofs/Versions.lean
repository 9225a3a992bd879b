import Mathlib.Data.List.Infix
import OrderAdmission.Proofs.Atomicity
import OrderAdmission.Store.Session

/-!
# Versions count committed updates

Whoever has transactions by hand asks for one thing after another: to begin a transaction, to make
statements, to commit, to take back, to register orders. What has been asked and what was answered makes a
log, and a `Book` is kept from the log alone, without a look at the table: which transactions are open,
which of their updates were answered with one, which of these were committed, and which orders were
registered.

**The table is what the book says** (`versions_count_committed_updates`): a row is the one that was first
stored under its id, with the committed updates of its id made one after another, and its version has been
raised by their number. The book and the table are compared by `Agrees`, which every request keeps
(`Agrees.ask`); while a transaction is open, what it has staged is compared by `Stacked`.
-/
namespace OrderAdmission

/-! ### Updates one after another -/

/-- The row after several updates. -/
def StoredRow.after (row : StoredRow) (updates : List StatusUpdate) : StoredRow :=
  updates.foldl .update row

theorem StoredRow.after_append (row : StoredRow) (first second : List StatusUpdate) :
    row.after (first ++ second) = (row.after first).after second :=
  List.foldl_append

theorem StoredRow.version_after (row : StoredRow) (updates : List StatusUpdate) :
    (row.after updates).version = row.version + updates.length := by
  induction updates generalizing row with
  | nil => simp [after]
  | cons u rest ih =>
    have hraised : (row.update u).version = row.version + 1 := rfl
    have hnext : (row.after (u :: rest)) = (row.update u).after rest := rfl
    rw [hnext, ih, hraised, List.length_cons]
    omega

/-- The updates of one order. -/
def ofOrder (id : Int) (updates : List StatusUpdate) : List StatusUpdate :=
  updates.filter (·.orderId == id)

theorem ofOrder_append (id : Int) (first second : List StatusUpdate) :
    ofOrder id (first ++ second) = ofOrder id first ++ ofOrder id second :=
  List.filter_append ..

theorem ofOrder_eq_nil {id : Int} {updates : List StatusUpdate}
    (h : ∀ u ∈ updates, u.orderId ≠ id) : ofOrder id updates = [] := by
  simpa [ofOrder] using h

/-- The updates that were answered with one. -/
def effective : List StatusUpdate → List Nat → List StatusUpdate
  | u :: us, n :: ns => if n = 1 then u :: effective us ns else effective us ns
  | _, _ => []

namespace Table

/-- Whether an update meets its row, when these updates have been made before it in its transaction: the
row has the expected version once they have raised it. -/
def meets (t : Table) (made : List StatusUpdate) (u : StatusUpdate) : Bool :=
  match t.get? u.orderId with
  | some row => decide (row.version + (ofOrder u.orderId made).length = u.expectedVersion)
  | none => false

/-- The counts that a statement should be answered with, when these updates have been made before it. -/
def countsOf (t : Table) (made : List StatusUpdate) : List StatusUpdate → List Nat
  | [] => []
  | u :: rest =>
    if t.meets made u then 1 :: t.countsOf (made ++ [u]) rest else 0 :: t.countsOf made rest

/-- What a transaction has staged with the updates it has made: it sees every row as they have left it. -/
structure Stacked (t : Table) (made : List StatusUpdate) (staged : Table) : Prop where
  nodup : staged.ids.Nodup
  rows : ∀ id, t.seen staged id = (t.get? id).map (·.after (ofOrder id made))
  known : ∀ u ∈ made, (t.get? u.orderId).isSome

variable {t staged staged' : Table} {made : List StatusUpdate}

theorem Stacked.nil (t : Table) : t.Stacked [] [] := by
  refine ⟨List.nodup_nil, fun id => ?_, by simp⟩
  have hseen : t.seen [] id = t.get? id := rfl
  rw [hseen]
  exact Option.map_id_apply.symm

theorem seen_put (t staged : Table) (id : Int) (row : StoredRow) (other : Int) :
    t.seen (staged.put id row) other = if other = id then some row else t.seen staged other := by
  unfold seen
  rw [get?_put]
  split <;> rfl

theorem Stacked.put (h : t.Stacked made staged) {u : StatusUpdate} {row : StoredRow}
    (hrow : t.seen staged u.orderId = some row) :
    t.Stacked (made ++ [u]) (staged.put u.orderId (row.update u)) := by
  obtain ⟨first, hfirst, hafter⟩ := Option.map_eq_some_iff.mp ((h.rows u.orderId).symm.trans hrow)
  refine ⟨nodup_ids_put h.nodup _ _, fun id => ?_, fun v hv => ?_⟩
  · rw [seen_put, ofOrder_append]
    by_cases hid : id = u.orderId
    · have hown : ofOrder id [u] = [u] := by simp [ofOrder, hid]
      rw [if_pos hid, hown, hid, hfirst, Option.map_some, StoredRow.after_append, hafter]
      rfl
    · have hnone : ofOrder id [u] = [] := by simp [ofOrder, Ne.symm hid]
      rw [if_neg hid, hnone, List.append_nil, h.rows id]
  · rcases List.mem_append.mp hv with hv | hv
    · exact h.known v hv
    · rw [List.mem_singleton.mp hv, hfirst]
      rfl

/-- An update is answered with one exactly if it meets its row. -/
theorem Stacked.stage (h : t.Stacked made staged) {u : StatusUpdate} {n : Nat}
    (hstage : t.stage staged u = (staged', .ok n)) :
    (t.meets made u = true ∧ n = 1 ∧ t.Stacked (made ++ [u]) staged') ∨
      (t.meets made u = false ∧ n = 0 ∧ staged' = staged) := by
  have hrows := h.rows u.orderId
  unfold Table.stage at hstage
  unfold meets
  cases hfirst : t.get? u.orderId with
  | none =>
    rw [hfirst, Option.map_none] at hrows
    simp only [hrows, Prod.mk.injEq, Except.ok.injEq] at hstage
    exact .inr ⟨rfl, hstage.2.symm, hstage.1.symm⟩
  | some first =>
    rw [hfirst, Option.map_some] at hrows
    have hversion := first.version_after (ofOrder u.orderId made)
    simp only [hrows, ← hversion] at hstage ⊢
    split at hstage
    · rename_i hmeets
      split at hstage
      · simp only [Prod.mk.injEq, Except.ok.injEq] at hstage
        obtain ⟨rfl, rfl⟩ := hstage
        exact .inl ⟨decide_eq_true hmeets, rfl, h.put hrows⟩
      · cases congrArg Prod.snd hstage
    · rename_i hmisses
      simp only [Prod.mk.injEq, Except.ok.injEq] at hstage
      exact .inr ⟨decide_eq_false hmisses, hstage.2.symm, hstage.1.symm⟩

/-- **A transaction sees what it has staged.** A statement is answered with the counts that take the
earlier updates of the transaction into account, those of the same statement among them. -/
theorem Stacked.stageAll (h : t.Stacked made staged) {updates : List StatusUpdate} {counts : List Nat}
    (hstage : t.stageAll staged updates = (staged', .ok counts)) :
    counts = t.countsOf made updates ∧ t.Stacked (made ++ effective updates counts) staged' := by
  induction updates generalizing made staged counts with
  | nil =>
    obtain ⟨rfl, hcounts⟩ := Prod.mk.inj hstage
    obtain rfl := Except.ok.inj hcounts
    have hnone : effective [] [] = [] := rfl
    exact ⟨rfl, by rwa [hnone, List.append_nil]⟩
  | cons u rest ih =>
    simp only [Table.stageAll] at hstage
    split at hstage
    · cases congrArg Prod.snd hstage
    · rename_i staged₁ n hfirst
      split at hstage
      · cases congrArg Prod.snd hstage
      · rename_i staged₂ ns hrest
        obtain ⟨rfl, hcounts⟩ := Prod.mk.inj hstage
        obtain rfl := Except.ok.inj hcounts
        rcases h.stage hfirst with ⟨hmeets, rfl, hnext⟩ | ⟨hmisses, rfl, rfl⟩
        · obtain ⟨hcounts, hlast⟩ := ih hnext hrest
          rw [countsOf, if_pos hmeets, ← hcounts]
          rw [List.append_assoc] at hlast
          exact ⟨rfl, hlast⟩
        · obtain ⟨hcounts, hlast⟩ := ih h hrest
          rw [countsOf, hmisses, ← hcounts]
          exact ⟨rfl, hlast⟩

/-- A statement breaks off only where the transaction sees a row of the largest version. -/
theorem exists_largest_of_crash {updates : List StatusUpdate} {crash : Crash}
    (h : t.stageAll staged updates = (staged', .error crash)) :
    ∃ id row, t.seen staged' id = some row ∧ ¬ row.version < maxSigned := by
  induction updates generalizing staged crash with
  | nil => cases congrArg Prod.snd h
  | cons u rest ih =>
    simp only [Table.stageAll] at h
    split at h
    · rename_i staged₁ crash' hfirst
      obtain rfl : staged₁ = staged' := congrArg Prod.fst h
      unfold Table.stage at hfirst
      split at hfirst
      · rename_i row hrow
        split at hfirst
        · split at hfirst
          · cases congrArg Prod.snd hfirst
          · rename_i hlargest
            obtain rfl : staged = staged₁ := congrArg Prod.fst hfirst
            exact ⟨_, row, hrow, hlargest⟩
        · cases congrArg Prod.snd hfirst
      · cases congrArg Prod.snd hfirst
    · rename_i staged₁ n hfirst
      split at h
      · rename_i staged₂ crash' hrest
        obtain rfl : staged₂ = staged' := congrArg Prod.fst h
        exact ih hrest
      · cases congrArg Prod.snd h

/-! ### Registered orders -/

/-- The row of the first of these orders that has this id. -/
def firstOf (orders : List Order) (id : Int) : Option StoredRow :=
  (orders.find? (·.id == id)).map fun o => .pending o.version

theorem firstOf_append (first second : List Order) (id : Int) :
    firstOf (first ++ second) id = (firstOf first id).or (firstOf second id) := by
  unfold firstOf
  rw [List.find?_append]
  cases first.find? (·.id == id) <;> rfl

theorem get?_registerOne (t : Table) (o : Order) (id : Int) :
    (t.registerOne o).1.get? id = (t.get? id).or (firstOf [o] id) := by
  unfold registerOne
  by_cases hid : o.id = id
  · have hown : firstOf [o] id = some (.pending o.version) := by simp [firstOf, hid]
    rw [hown]
    cases hrow : t.get? o.id with
    | some row =>
      rw [hid] at hrow
      simp [hrow]
    | none =>
      simp only [get?_put, hid, ↓reduceIte]
      rw [hid] at hrow
      simp [hrow]
  · have hother : firstOf [o] id = none := by simp [firstOf, hid]
    rw [hother, Option.or_none]
    cases t.get? o.id with
    | some row => rfl
    | none => simp only [get?_put, Ne.symm hid, ↓reduceIte]

theorem register_fst (t : Table) (orders : List Order) :
    (t.register orders).1 = orders.foldl (fun t o => (t.registerOne o).1) t :=
  (List.foldl_hom Prod.fst fun _ _ => rfl).symm

/-- **To register is to add**: a row that is there stays, and of several orders with one id the first is
stored. -/
theorem get?_register (t : Table) (orders : List Order) (id : Int) :
    (t.register orders).1.get? id = (t.get? id).or (firstOf orders id) := by
  rw [register_fst]
  induction orders generalizing t with
  | nil => exact (Option.or_none).symm
  | cons o rest ih =>
    rw [List.foldl_cons, ih, get?_registerOne, Option.or_assoc, ← firstOf_append]
    rfl

end Table

namespace Session

/-! ### Requests -/

/-- What can be asked of a session. -/
inductive Request where
  | begin (name : String)
  | apply (name : String) (updates : List StatusUpdate)
  | commit (name : String)
  | rollback (name : String)
  /-- The transaction is given up without a word. -/
  | drop (name : String)
  | register (orders : List Order)

def Request.ends (name : String) : Request → Bool
  | .commit n | .rollback n | .drop n => n == name
  | _ => false

def Request.changesTable : Request → Bool
  | .commit _ | .register _ => true
  | _ => false

/-- What a request is answered with. -/
inductive Answer where
  /-- No transaction of this name is open, or one is and the table has to be waited for. -/
  | refused
  | done
  | counted (counts : List Nat)
  | crashed
  /-- So many orders were stored. -/
  | stored (n : Nat)

def ask (s : Session) : Request → Session × Answer
  | .begin name =>
    match s.begin? name with
    | some s' => (s', .done)
    | none => (s, .refused)
  | .apply name updates =>
    match s.staged? name with
    | some staged =>
      match s.apply name staged updates with
      | (s', .ok counts) => (s', .counted counts)
      | (s', .error _) => (s', .crashed)
    | none => (s, .refused)
  | .commit name =>
    match s.staged? name with
    | some staged => (s.commit staged, .done)
    | none => (s, .refused)
  | .rollback name | .drop name =>
    match s.staged? name with
    | some _ => (s.rollback, .done)
    | none => (s, .refused)
  | .register orders =>
    match s.register? orders with
    | some (n, s') => (s', .stored n)
    | none => (s, .refused)

def after (s : Session) (requests : List Request) : Session :=
  requests.foldl (fun s request => (s.ask request).1) s

def log (s : Session) : List Request → List (Request × Answer)
  | [] => []
  | request :: rest => (request, (s.ask request).2) :: (s.ask request).1.log rest

theorem after_append (s : Session) (first second : List Request) :
    s.after (first ++ second) = (s.after first).after second :=
  List.foldl_append

theorem log_append (s : Session) (first second : List Request) :
    s.log (first ++ second) = s.log first ++ (s.after first).log second := by
  induction first generalizing s with
  | nil => rfl
  | cons request rest ih =>
    rw [List.cons_append, log, ih, log, List.cons_append]
    rfl

/-! ### The book -/

/-- What can be read off a log. -/
structure Book where
  /-- The transactions that have begun and not ended. -/
  opened : List String := []
  /-- Their updates that were answered with one. -/
  pending : List (String × StatusUpdate) := []
  /-- The updates of committed transactions that were answered with one. -/
  committed : List StatusUpdate := []
  /-- The orders of all registrations. -/
  registered : List Order := []

namespace Book

/-- The pending updates of a transaction. -/
def pendingOf (b : Book) (name : String) : List StatusUpdate :=
  (b.pending.filter (·.1 == name)).map (·.2)

/-- A transaction has ended. -/
def close (b : Book) (name : String) : Book :=
  { b with opened := b.opened.erase name, pending := b.pending.filter (·.1 != name) }

/-- Enters a request with its answer. -/
def enter (b : Book) : Request × Answer → Book
  | (.begin name, .done) => { b with opened := name :: b.opened }
  | (.apply name updates, .counted counts) =>
    { b with pending := b.pending ++ (effective updates counts).map (name, ·) }
  | (.commit name, .done) => { b.close name with committed := b.committed ++ b.pendingOf name }
  | (.rollback name, .done) | (.drop name, .done) => b.close name
  | (.register orders, .stored _) => { b with registered := b.registered ++ orders }
  | _ => b

/-- The row that was first stored under an id, if the table was this one in the beginning. -/
def firstRow (b : Book) (t : Table) (id : Int) : Option StoredRow :=
  (t.get? id).or (Table.firstOf b.registered id)

/-- Nothing that was committed or registered is ever forgotten. -/
structure Grows (b b' : Book) : Prop where
  committed : b.committed <+: b'.committed
  registered : b.registered <+: b'.registered

theorem enter_grows (b : Book) (x : Request × Answer) : b.Grows (b.enter x) := by
  unfold enter
  split
  · exact ⟨List.prefix_rfl, List.prefix_rfl⟩
  · exact ⟨List.prefix_rfl, List.prefix_rfl⟩
  · exact ⟨List.prefix_append .., List.prefix_rfl⟩
  · exact ⟨List.prefix_rfl, List.prefix_rfl⟩
  · exact ⟨List.prefix_rfl, List.prefix_rfl⟩
  · exact ⟨List.prefix_rfl, List.prefix_append ..⟩
  · exact ⟨List.prefix_rfl, List.prefix_rfl⟩

theorem foldl_enter_grows (b : Book) (log : List (Request × Answer)) :
    b.Grows (log.foldl enter b) := by
  induction log generalizing b with
  | nil => exact ⟨List.prefix_rfl, List.prefix_rfl⟩
  | cons x rest ih =>
    have hfirst := b.enter_grows x
    have hrest := ih (b.enter x)
    exact ⟨hfirst.committed.trans hrest.committed, hfirst.registered.trans hrest.registered⟩

theorem Grows.firstRow {b b' : Book} (h : b.Grows b') {t : Table} {id : Int} {row : StoredRow}
    (hrow : b.firstRow t id = some row) : b'.firstRow t id = some row := by
  obtain ⟨more, hmore⟩ := h.registered
  unfold Book.firstRow at hrow ⊢
  rw [← hmore, Table.firstOf_append, ← Option.or_assoc, hrow]
  rfl

end Book

def book (s : Session) (requests : List Request) : Book := (s.log requests).foldl Book.enter {}

theorem book_append (s : Session) (first second : List Request) :
    s.book (first ++ second) = ((s.after first).log second).foldl Book.enter (s.book first) := by
  unfold book
  rw [log_append, List.foldl_append]

theorem book_snoc (s : Session) (requests : List Request) (request : Request) :
    s.book (requests ++ [request]) =
      (s.book requests).enter (request, ((s.after requests).ask request).2) :=
  book_append s requests [request]

theorem book_grows (s : Session) {before requests : List Request} (h : before <+: requests) :
    (s.book before).Grows (s.book requests) := by
  obtain ⟨rest, rfl⟩ := h
  rw [book_append]
  exact Book.foldl_enter_grows _ _

/-! ### The book and the table -/

/-- All rows that are stored or staged have versions below the largest one. -/
def Raisable (s : Session) : Prop :=
  s.table.Raisable ∧ ∀ name staged, s.current = some (name, staged) → staged.Raisable

/-- A session agrees with a book, if its table was this one in the beginning. -/
structure Agrees (t : Table) (b : Book) (s : Session) : Prop where
  opened : b.opened = s.current.toList.map (·.1)
  rows : ∀ id, s.table.get? id = (b.firstRow t id).map (·.after (ofOrder id b.committed))
  known : ∀ u ∈ b.committed, (s.table.get? u.orderId).isSome
  free : s.current = none → b.pending = []
  held : ∀ name staged, s.current = some (name, staged) →
    (∀ x ∈ b.pending, x.1 = name) ∧ s.table.Stacked (b.pending.map (·.2)) staged

variable {t : Table} {b : Book} {s : Session}

theorem staged?_eq_some {name : String} {staged : Table} :
    s.staged? name = some staged ↔ s.current = some (name, staged) := by
  unfold staged?
  rcases s.current with _ | ⟨n, staged'⟩
  · simp
  · by_cases hname : n = name
    · simp [hname]
    · simp [hname]

theorem begin?_eq_some {name : String} {s' : Session} :
    s.begin? name = some s' ↔ s.current = none ∧ s' = { s with current := some (name, []) } := by
  unfold begin? isHeld
  cases s.current <;> simp [eq_comm]

theorem register?_eq_some {orders : List Order} {stored : Nat × Session} :
    s.register? orders = some stored ↔ s.current = none ∧
      stored = ((s.table.register orders).2, { s with table := (s.table.register orders).1 }) := by
  unfold register? isHeld
  cases s.current <;> simp [eq_comm]

namespace Agrees

theorem start (s : Session) (hfree : s.current = none) : Agrees s.table {} s := by
  refine ⟨by rw [hfree]; rfl, fun id => ?_, by simp, fun _ => rfl, ?_⟩
  · have hfirst : Book.firstRow {} s.table id = s.table.get? id := Option.or_none
    rw [hfirst]
    exact Option.map_id_apply.symm
  · intro name staged hheld
    rw [hfree] at hheld
    cases hheld

theorem pendingOf (h : Agrees t b s) {name : String} {staged : Table}
    (hheld : s.current = some (name, staged)) : b.pendingOf name = b.pending.map (·.2) := by
  have hown := (h.held name staged hheld).1
  rw [Book.pendingOf, List.filter_eq_self.mpr fun x hx => by simpa using hown x hx]

theorem close (h : Agrees t b s) {name : String} {staged : Table}
    (hheld : s.current = some (name, staged)) :
    (b.close name).opened = [] ∧ (b.close name).pending = [] := by
  constructor
  · simp [Book.close, h.opened, hheld]
  · have hown := (h.held name staged hheld).1
    exact List.filter_eq_nil_iff.mpr fun x hx => by simpa using hown x hx

theorem begin (h : Agrees t b s) (hfree : s.current = none) (name : String) :
    Agrees t { b with opened := name :: b.opened } { s with current := some (name, []) } := by
  refine ⟨by rw [h.opened, hfree]; rfl, h.rows, h.known, nofun, ?_⟩
  rintro name' staged hheld
  obtain ⟨rfl, rfl⟩ := Prod.mk.inj (Option.some.inj hheld)
  rw [h.free hfree]
  exact ⟨by simp, .nil s.table⟩

theorem apply (h : Agrees t b s) {name : String} {staged staged' : Table}
    (hheld : s.current = some (name, staged)) {updates : List StatusUpdate} {counts : List Nat}
    (hstage : s.table.stageAll staged updates = (staged', .ok counts)) :
    Agrees t { b with pending := b.pending ++ (effective updates counts).map (name, ·) }
      { s with current := some (name, staged') } := by
  obtain ⟨hown, hstacked⟩ := h.held name staged hheld
  refine ⟨by rw [h.opened, hheld]; rfl, h.rows, h.known, nofun, ?_⟩
  rintro name' staged'' hheld'
  obtain ⟨rfl, rfl⟩ := Prod.mk.inj (Option.some.inj hheld')
  constructor
  · intro x hx
    rcases List.mem_append.mp hx with hx | hx
    · exact hown x hx
    · obtain ⟨u, -, rfl⟩ := List.mem_map.mp hx
      rfl
  · have hpending : (b.pending ++ (effective updates counts).map (name, ·)).map (·.2) =
        b.pending.map (·.2) ++ effective updates counts := by
      rw [List.map_append, List.map_map]
      exact congrArg _ (List.map_id _)
    rw [hpending]
    exact (hstacked.stageAll hstage).2

theorem commit (h : Agrees t b s) {name : String} {staged : Table}
    (hheld : s.current = some (name, staged)) :
    Agrees t { b.close name with committed := b.committed ++ b.pendingOf name } (s.commit staged) := by
  obtain ⟨hopened, hpending⟩ := h.close hheld
  obtain ⟨-, hstacked⟩ := h.held name staged hheld
  have hrow (id : Int) : (s.commit staged).table.get? id =
      (s.table.get? id).map (·.after (ofOrder id (b.pendingOf name))) := by
    rw [h.pendingOf hheld, ← hstacked.rows id]
    exact Table.get?_commit s.table hstacked.nodup id
  refine ⟨hopened, fun id => ?_, fun u hu => ?_, fun _ => hpending, nofun⟩
  · rw [hrow, h.rows, Option.map_map, ofOrder_append]
    refine congrArg (Option.map · (b.firstRow t id)) (funext fun row => ?_)
    exact (row.after_append _ _).symm
  · rw [hrow, Option.isSome_map]
    rcases List.mem_append.mp hu with hu | hu
    · exact h.known u hu
    · rw [h.pendingOf hheld] at hu
      exact hstacked.known u hu

theorem rollback (h : Agrees t b s) {name : String} {staged : Table}
    (hheld : s.current = some (name, staged)) : Agrees t (b.close name) s.rollback := by
  obtain ⟨hopened, hpending⟩ := h.close hheld
  exact ⟨hopened, h.rows, h.known, fun _ => hpending, nofun⟩

theorem register (h : Agrees t b s) (hfree : s.current = none) (orders : List Order) :
    Agrees t { b with registered := b.registered ++ orders }
      { s with table := (s.table.register orders).1 } := by
  have hfirst (id : Int) : Book.firstRow { b with registered := b.registered ++ orders } t id =
      (b.firstRow t id).or (Table.firstOf orders id) := by
    unfold Book.firstRow
    rw [Table.firstOf_append, Option.or_assoc]
  refine ⟨h.opened, fun id => ?_, fun u hu => ?_, h.free, ?_⟩
  · rw [Table.get?_register, hfirst, h.rows]
    cases hrow : b.firstRow t id with
    | some row => rfl
    | none =>
      -- An order without a row has no committed updates.
      have hnone : ofOrder id b.committed = [] := by
        refine ofOrder_eq_nil ?_
        rintro u hu rfl
        have hknown := h.known u hu
        rw [h.rows, hrow] at hknown
        cases hknown
      rw [hnone]
      exact Option.map_id_apply.symm
  · rw [Table.get?_register, Option.isSome_or, h.known u hu, Bool.true_or]
  · intro name staged hheld
    cases hfree.symm.trans hheld

end Agrees

theorem ask_not_crashed (request : Request) (h : (s.ask request).1.Raisable) :
    (s.ask request).2 ≠ .crashed := by
  intro hcrashed
  cases request with
  | apply name updates =>
    simp only [ask] at hcrashed h
    cases hstaged : s.staged? name with
    | none =>
      rw [hstaged] at hcrashed
      cases hcrashed
    | some staged =>
      simp only [hstaged, Session.apply] at hcrashed h
      cases hstage : s.table.stageAll staged updates with
      | mk staged' counts =>
        rw [hstage] at hcrashed h
        cases counts with
        | ok counts => cases hcrashed
        | error crash =>
          obtain ⟨id, row, hrow, hlargest⟩ := Table.exists_largest_of_crash hstage
          obtain ⟨htable, hcurrent⟩ := h
          unfold Table.seen at hrow
          cases hown : staged'.get? id with
          | some row' =>
            simp only [hown, Option.orElse_eq_orElse, Option.orElse_eq_or, Option.some_or] at hrow
            obtain rfl := Option.some.inj hrow
            exact hlargest (hcurrent _ _ rfl id row' hown)
          | none =>
            simp only [hown, Option.orElse_eq_orElse, Option.orElse_eq_or, Option.none_or] at hrow
            exact hlargest (htable id row hrow)
  | begin name =>
    simp only [ask] at hcrashed
    split at hcrashed <;> cases hcrashed
  | commit name | rollback name | drop name =>
    simp only [ask] at hcrashed
    split at hcrashed <;> cases hcrashed
  | register orders =>
    simp only [ask] at hcrashed
    split at hcrashed <;> cases hcrashed

/-- **Every request keeps the book and the table together**, unless a statement breaks off. -/
theorem Agrees.ask (h : Agrees t b s) (request : Request)
    (hanswered : (s.ask request).2 ≠ .crashed) :
    Agrees t (b.enter (request, (s.ask request).2)) (s.ask request).1 := by
  cases request with
  | begin name =>
    simp only [Session.ask]
    cases hbegun : s.begin? name with
    | none => exact h
    | some s' =>
      obtain ⟨hfree, rfl⟩ := begin?_eq_some.mp hbegun
      exact h.begin hfree name
  | apply name updates =>
    simp only [Session.ask] at hanswered ⊢
    cases hstaged : s.staged? name with
    | none => exact h
    | some staged =>
      simp only [hstaged, Session.apply] at hanswered ⊢
      cases hstage : s.table.stageAll staged updates with
      | mk staged' counts =>
        rw [hstage] at hanswered
        cases counts with
        | ok counts => exact h.apply (staged?_eq_some.mp hstaged) hstage
        | error crash => exact absurd rfl hanswered
  | commit name =>
    simp only [Session.ask]
    cases hstaged : s.staged? name with
    | none => exact h
    | some staged => exact h.commit (staged?_eq_some.mp hstaged)
  | rollback name | drop name =>
    simp only [Session.ask]
    cases hstaged : s.staged? name with
    | none => exact h
    | some staged => exact h.rollback (staged?_eq_some.mp hstaged)
  | register orders =>
    simp only [Session.ask]
    cases hregistered : s.register? orders with
    | none => exact h
    | some stored =>
      obtain ⟨hfree, rfl⟩ := register?_eq_some.mp hregistered
      exact h.register hfree orders

/-- The book and the table stay together as long as all versions stay below the largest one. -/
theorem agrees_after (hfree : s.current = none) {requests : List Request}
    (hraisable : ∀ before, before <+: requests → (s.after before).Raisable) :
    Agrees s.table (s.book requests) (s.after requests) := by
  induction requests using List.reverseRecOn with
  | nil => exact .start s hfree
  | append_singleton requests request ih =>
    have hbefore := ih fun before hinit => hraisable before (hinit.trans (List.prefix_append ..))
    have hlast := hraisable (requests ++ [request]) List.prefix_rfl
    rw [after_append] at hlast ⊢
    rw [book_snoc]
    exact hbefore.ask request (ask_not_crashed request hlast)

/-! ### Transactions that come to nothing -/

/-- While a transaction is open, nothing but itself ends it, and the table stays as it is. -/
theorem ask_while_held {name : String} {staged : Table} (hheld : s.current = some (name, staged))
    {request : Request} (hopen : request.ends name = false) :
    ∃ staged', (s.ask request).1 = { s with current := some (name, staged') } := by
  have hsame : s = { s with current := some (name, staged) } := by rw [← hheld]
  have hother {n : String} (hne : (n == name) = false) : s.staged? n = none := by
    refine Option.eq_none_iff_forall_ne_some.mpr fun staged' hstaged => ?_
    rw [staged?_eq_some, hheld] at hstaged
    obtain ⟨rfl, -⟩ := Prod.mk.inj (Option.some.inj hstaged)
    simp at hne
  cases request with
  | begin n =>
    have hrefused : s.begin? n = none := by simp [begin?, isHeld, hheld]
    exact ⟨staged, by simpa only [ask, hrefused] using hsame⟩
  | apply n updates =>
    simp only [ask]
    cases hstaged : s.staged? n with
    | none => exact ⟨staged, hsame⟩
    | some staged₀ =>
      obtain ⟨rfl, rfl⟩ := Prod.mk.inj (Option.some.inj (hheld.symm.trans (staged?_eq_some.mp hstaged)))
      refine ⟨(s.table.stageAll staged updates).1, ?_⟩
      simp only [Session.apply]
      cases (s.table.stageAll staged updates).2 <;> rfl
  | commit n | rollback n | drop n => exact ⟨staged, by simpa only [ask, hother hopen] using hsame⟩
  | register orders =>
    have hrefused : s.register? orders = none := by simp [register?, isHeld, hheld]
    exact ⟨staged, by simpa only [ask, hrefused] using hsame⟩

theorem after_while_held {name : String} {staged : Table} (hheld : s.current = some (name, staged))
    {within : List Request} (hopen : ∀ q ∈ within, q.ends name = false) :
    ∃ staged', s.after within = { s with current := some (name, staged') } := by
  induction within generalizing s staged with
  | nil => exact ⟨staged, by rw [← hheld]; rfl⟩
  | cons request rest ih =>
    obtain ⟨staged₁, hfirst⟩ := ask_while_held hheld (hopen request List.mem_cons_self)
    have hheld₁ : (s.ask request).1.current = some (name, staged₁) := by rw [hfirst]
    obtain ⟨staged₂, hrest⟩ := ih hheld₁ fun q hq => hopen q (List.mem_cons_of_mem _ hq)
    have hnext : s.after (request :: rest) = (s.ask request).1.after rest := rfl
    exact ⟨staged₂, by rw [hnext, hrest, hfirst]⟩

/-- **A transaction that is taken back or dropped leaves no trace**, whatever was asked meanwhile. -/
theorem after_undone (hfree : s.current = none) {name : String} {within : List Request}
    (hopen : ∀ q ∈ within, q.ends name = false) {last : Request}
    (hlast : last = .rollback name ∨ last = .drop name) :
    s.after (.begin name :: within ++ [last]) = s := by
  have hbegun : s.begin? name = some { s with current := some (name, []) } :=
    begin?_eq_some.mpr ⟨hfree, rfl⟩
  have hfirst : (s.ask (.begin name)).1 = { s with current := some (name, []) } := by
    simp only [ask, hbegun]
  obtain ⟨staged, hwithin⟩ := after_while_held (s := { s with current := some (name, []) }) rfl hopen
  have hnext : s.after (.begin name :: within) = { s with current := some (name, staged) } := by
    have hcons : s.after (.begin name :: within) = (s.ask (.begin name)).1.after within := rfl
    rw [hcons, hfirst, hwithin]
  have hstaged : Session.staged? { s with current := some (name, staged) } name = some staged :=
    staged?_eq_some.mpr rfl
  have hend : ({ s with current := some (name, staged) } : Session).ask last = (s.rollback, .done) := by
    rcases hlast with rfl | rfl
    · simp only [ask, hstaged, rollback]
    · simp only [ask, hstaged, rollback]
  have hrolled : s.rollback = s := by rw [rollback, ← hfree]
  rw [after_append, hnext]
  exact (congrArg Prod.fst hend).trans hrolled

/-! ### What a table says about its past -/

/-- What holds after several requests, and has held before. -/
structure Accounted (s : Session) (requests : List Request) : Prop where
  /-- At most one transaction is open. -/
  alone : (s.book requests).opened.length ≤ 1
  /-- A row is the first one that was stored under its id, with the committed updates made to it. -/
  rows : ∀ id, (s.after requests).table.get? id =
    ((s.book requests).firstRow s.table id).map (·.after (ofOrder id (s.book requests).committed))
  /-- Its version counts them. -/
  version : ∀ id row, (s.after requests).table.get? id = some row →
    ∃ first, (s.book requests).firstRow s.table id = some first ∧
      row.version = first.version + (ofOrder id (s.book requests).committed).length
  /-- No row disappears, no version falls, and nothing else changes under the same version. -/
  steady : ∀ before, before <+: requests → ∀ id row, (s.after before).table.get? id = some row →
    ∃ row', (s.after requests).table.get? id = some row' ∧ row.version ≤ row'.version ∧
      (row'.version = row.version → row' = row)
  /-- A statement is answered as the table and the earlier updates of its transaction say. -/
  counts : ∀ before name updates, before ++ [.apply name updates] <+: requests →
    ((s.after before).ask (.apply name updates)).2 =
      if name ∈ (s.book before).opened then
        .counted ((s.after before).table.countsOf ((s.book before).pendingOf name) updates)
      else .refused
  /-- The table changes only when a transaction is committed or orders are registered. -/
  untouched : ∀ before request, before ++ [request] <+: requests → request.changesTable = false →
    ((s.after before).ask request).1.table = (s.after before).table
  /-- To register is to add rows; nothing is registered while a transaction is open. -/
  registers : ∀ before orders, before ++ [.register orders] <+: requests → ∀ id,
    ((s.after before).ask (.register orders)).1.table.get? id =
      ((s.after before).table.get? id).or
        (if (s.book before).opened = [] then Table.firstOf orders id else none)
  /-- A transaction that is taken back or dropped leaves no trace. -/
  traceless : ∀ before name within last, before ++ (.begin name :: within ++ [last]) <+: requests →
    (s.book before).opened = [] → (∀ q ∈ within, q.ends name = false) →
    last = .rollback name ∨ last = .drop name →
    s.after (before ++ (.begin name :: within ++ [last])) = s.after before

theorem Agrees.opened_eq_nil (h : Agrees t b s) : b.opened = [] ↔ s.current = none := by
  rw [h.opened]
  cases s.current <;> simp

theorem Agrees.mem_opened (h : Agrees t b s) {name : String} :
    name ∈ b.opened ↔ ∃ staged, s.current = some (name, staged) := by
  rw [h.opened]
  rcases s.current with _ | ⟨n, staged⟩
  · simp
  · simp [eq_comm]

/-- A statement is answered as the book says, unless it breaks off. -/
theorem Agrees.counts (h : Agrees t b s) {name : String} {updates : List StatusUpdate}
    (hanswered : (s.ask (.apply name updates)).2 ≠ .crashed) :
    (s.ask (.apply name updates)).2 =
      if name ∈ b.opened then .counted (s.table.countsOf (b.pendingOf name) updates) else .refused := by
  simp only [Session.ask] at hanswered ⊢
  cases hstaged : s.staged? name with
  | none =>
    have hclosed : name ∉ b.opened := by
      rintro hmem
      obtain ⟨staged, hheld⟩ := h.mem_opened.mp hmem
      rw [staged?_eq_some.mpr hheld] at hstaged
      cases hstaged
    rw [if_neg hclosed]
  | some staged =>
    have hheld := staged?_eq_some.mp hstaged
    rw [if_pos (h.mem_opened.mpr ⟨staged, hheld⟩), h.pendingOf hheld]
    simp only [hstaged, Session.apply] at hanswered ⊢
    cases hstage : s.table.stageAll staged updates with
    | mk staged' counts =>
      rw [hstage] at hanswered
      cases counts with
      | ok counts => exact congrArg Answer.counted ((h.held name staged hheld).2.stageAll hstage).1
      | error crash => exact absurd rfl hanswered

theorem table_ask {request : Request} (h : request.changesTable = false) :
    (s.ask request).1.table = s.table := by
  cases request with
  | begin name =>
    simp only [ask]
    cases hbegun : s.begin? name with
    | none => rfl
    | some s' =>
      obtain ⟨-, rfl⟩ := begin?_eq_some.mp hbegun
      rfl
  | apply name updates =>
    simp only [ask]
    cases s.staged? name with
    | none => rfl
    | some staged =>
      simp only [Session.apply]
      cases (s.table.stageAll staged updates).2 <;> rfl
  | rollback name | drop name =>
    simp only [ask]
    cases s.staged? name <;> rfl
  | commit name | register orders => cases h

theorem get?_ask_register (orders : List Order) (id : Int) :
    (s.ask (.register orders)).1.table.get? id =
      (s.table.get? id).or (if s.current = none then Table.firstOf orders id else none) := by
  simp only [ask]
  cases hregistered : s.register? orders with
  | none =>
    have hheld : s.current ≠ none := by
      intro hfree
      rw [register?_eq_some.mpr ⟨hfree, rfl⟩] at hregistered
      cases hregistered
    rw [if_neg hheld, Option.or_none]
  | some stored =>
    obtain ⟨hfree, rfl⟩ := register?_eq_some.mp hregistered
    rw [if_pos hfree]
    exact s.table.get?_register orders id

/-- **Versions count committed updates.** Whatever is asked for, under whatever names, the table stays
what the book says as long as all versions are below the largest one. -/
theorem versions_count_committed_updates (s : Session) (hfree : s.current = none) (requests : List Request)
    (hraisable : ∀ before, before <+: requests → (s.after before).Raisable) : s.Accounted requests := by
  have hagrees {before : List Request} (hinit : before <+: requests) :
      Agrees s.table (s.book before) (s.after before) :=
    agrees_after hfree fun earlier hearlier => hraisable earlier (hearlier.trans hinit)
  have hearlier {before rest : List Request} (hinit : before ++ rest <+: requests) : before <+: requests :=
    (List.prefix_append ..).trans hinit
  have hend := hagrees List.prefix_rfl
  constructor
  case alone =>
    rw [hend.opened]
    cases (s.after requests).current <;> simp
  case rows => exact hend.rows
  case version =>
    intro id row hrow
    obtain ⟨first, hfirst, rfl⟩ := Option.map_eq_some_iff.mp ((hend.rows id).symm.trans hrow)
    exact ⟨first, hfirst, first.version_after _⟩
  case steady =>
    intro before hinit id row hrow
    obtain ⟨first, hfirst, rfl⟩ :=
      Option.map_eq_some_iff.mp (((hagrees hinit).rows id).symm.trans hrow)
    have hgrows := s.book_grows hinit
    obtain ⟨more, hmore⟩ := hgrows.committed
    have hlater : (s.after requests).table.get? id =
        some ((first.after (ofOrder id (s.book before).committed)).after (ofOrder id more)) := by
      rw [hend.rows, hgrows.firstRow hfirst, ← hmore, ofOrder_append, Option.map_some,
        StoredRow.after_append]
    have hversion := (first.after (ofOrder id (s.book before).committed)).version_after (ofOrder id more)
    refine ⟨_, hlater, by omega, fun hsame => ?_⟩
    have hnone : ofOrder id more = [] := List.eq_nil_of_length_eq_zero (by omega)
    rw [hnone]
    rfl
  case counts =>
    intro before name updates hinit
    have hlast := hraisable _ hinit
    rw [after_append] at hlast
    exact (hagrees (hearlier hinit)).counts (ask_not_crashed _ hlast)
  case untouched => exact fun before request _ hkeeps => table_ask hkeeps
  case registers =>
    intro before orders hinit id
    rw [get?_ask_register]
    simp only [(hagrees (hearlier hinit)).opened_eq_nil]
  case traceless =>
    intro before name within last hinit hnone hopen hlast
    rw [after_append]
    exact after_undone ((hagrees (hearlier hinit)).opened_eq_nil.mp hnone) hopen hlast

/-- Two updates of one order in a transaction that is committed, orders of which two have one id, and a
transaction that is taken back: the row of the first order has been raised by two, and the second one's
is still at the version of the first order with its id. -/
theorem versions_of_committed_and_undone :
    let update (id version : Int) : StatusUpdate :=
      { orderId := id, expectedVersion := version, status := .filled, extra := none }
    let s : Session := { table := Table.ofIds [1], latency := 0, current := none }
    let order (id version : Int) : Order := { (default : Order) with id, version }
    let requests : List Request :=
      [.begin "a", .apply "a" [update 1 0, update 1 1], .begin "b", .commit "a",
        .register [order 1 5, order 2 3, order 2 9], .begin "b", .apply "b" [update 2 3], .rollback "b"]
    s.current = none ∧ (∀ before, before <+: requests → (s.after before).Raisable) ∧
      s.Accounted requests ∧
      ((s.after requests).table.get? 1).map (·.version) = some 2 ∧
      ((s.after requests).table.get? 2).map (·.version) = some 3 := by
  intro update s order requests
  have hrows : ∀ before ∈ requests.inits, (∀ p ∈ (s.after before).table, p.2.version < maxSigned) ∧
      ∀ x ∈ (s.after before).current, ∀ p ∈ x.2, p.2.version < maxSigned := by decide +kernel
  have hraisable : ∀ before, before <+: requests → (s.after before).Raisable := by
    intro before hinit
    obtain ⟨htable, hcurrent⟩ := hrows before ((List.mem_inits _ _).mpr hinit)
    refine ⟨Table.raisable_of_rows htable, fun name staged hheld => ?_⟩
    exact Table.raisable_of_rows (hcurrent (name, staged) hheld)
  exact ⟨rfl, hraisable, versions_count_committed_updates s rfl requests hraisable,
    by decide +kernel, by decide +kernel⟩

end Session

end OrderAdmission
