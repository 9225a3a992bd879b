import OrderAdmission.Store.Table

/-!
# What a transaction does to a table

A transaction stages rows on top of a table, and the table takes them over when it commits.

`Staged` relates the staged rows to the updates made so far: each of them has found its row with the
expected version, and nothing else is staged. `Staged.statement` carries it over a statement that the
check of the row counts has passed. `Written` relates the table before and after a transaction, and
its lemmas say what became of each row: **an updated row had the expected version, and every other row
is as it was**.
-/
namespace OrderAdmission

/-! ### Rows under their ids -/

namespace Table

def ids (t : Table) : List Int := t.map (·.1)

theorem get?_cons (id : Int) (row : StoredRow) (t : Table) (other : Int) :
    get? ((id, row) :: t) other = if other = id then some row else t.get? other := by
  unfold get?
  rw [List.lookup_cons]
  by_cases h : other = id
  · simp [h]
  · have hne : (other == id) = false := by simpa using h
    simp [h, hne]

theorem get?_put (t : Table) (id : Int) (row : StoredRow) (other : Int) :
    (t.put id row).get? other = if other = id then some row else t.get? other := by
  induction t with
  | nil => exact get?_cons id row [] other
  | cons first rest ih =>
    obtain ⟨i, r⟩ := first
    simp only [put]
    by_cases hid : i = id
    · rw [if_pos hid, get?_cons, get?_cons, hid]
      split <;> rfl
    · rw [if_neg hid, get?_cons, get?_cons, ih]
      by_cases hother : other = i
      · rw [if_pos hother, if_pos hother, if_neg (hother ▸ hid)]
      · rw [if_neg hother, if_neg hother]

theorem get?_eq_none {t : Table} {id : Int} : t.get? id = none ↔ id ∉ t.ids := by
  induction t with
  | nil => simp [get?, ids]
  | cons first rest ih =>
    obtain ⟨i, r⟩ := first
    rw [get?_cons]
    by_cases hid : id = i
    · simp [hid, ids]
    · rw [if_neg hid, ih]
      simp [ids, hid]

theorem mem_ids_put (t : Table) (id : Int) (row : StoredRow) (other : Int) :
    other ∈ (t.put id row).ids ↔ other = id ∨ other ∈ t.ids := by
  induction t with
  | nil => simp [put, ids]
  | cons first rest ih =>
    obtain ⟨i, r⟩ := first
    simp only [put]
    by_cases hid : i = id
    · simp [hid, ids]
    · rw [if_neg hid]
      simp only [ids, List.map_cons, List.mem_cons] at ih ⊢
      rw [ih, or_left_comm]

theorem nodup_ids_put {t : Table} (h : t.ids.Nodup) (id : Int) (row : StoredRow) :
    (t.put id row).ids.Nodup := by
  induction t with
  | nil => simp [put, ids]
  | cons first rest ih =>
    obtain ⟨i, r⟩ := first
    obtain ⟨hnew, hrest⟩ := List.nodup_cons.mp h
    simp only [put]
    by_cases hid : i = id
    · rw [if_pos hid]
      exact h
    · rw [if_neg hid]
      refine List.nodup_cons.mpr ⟨?_, ih hrest⟩
      intro hmem
      rcases (mem_ids_put rest id row i).mp hmem with heq | hold
      · exact hid heq
      · exact hnew hold

theorem get?_commit (t : Table) {staged : Table} (h : staged.ids.Nodup) (id : Int) :
    (t.commit staged).get? id = t.seen staged id := by
  induction staged generalizing t with
  | nil => rfl
  | cons first rest ih =>
    obtain ⟨i, r⟩ := first
    obtain ⟨hnew, hrest⟩ := List.nodup_cons.mp h
    have hcommit : t.commit ((i, r) :: rest) = (t.put i r).commit rest := rfl
    rw [hcommit, ih (t.put i r) hrest]
    unfold seen
    rw [get?_put, get?_cons]
    by_cases hid : id = i
    · have hnone : Table.get? rest i = none := get?_eq_none.mpr hnew
      simp [hid, hnone]
    · simp [hid]

end Table

/-! ### Statements -/

theorem flatten_piecesOf {α : Type} (n : Nat) (xs : List α) : (piecesOf n xs).flatten = xs := by
  fun_induction piecesOf n xs with
  | case1 => rfl
  | case2 x xs ih =>
    rw [List.flatten_cons, ih, List.cons_append, List.take_append_drop]

theorem flatten_chunksOf {α : Type} (size : Nat) (xs : List α) : (chunksOf size xs).flatten = xs :=
  flatten_piecesOf _ xs

/-- The chunk with this number: as many items as there are in a chunk, behind the chunks before it. -/
def chunkAt {α : Type} (size k : Nat) (xs : List α) : List α := (xs.drop (k * size)).take size

theorem getElem?_piecesOf {α : Type} (n k : Nat) (xs : List α) :
    (piecesOf n xs)[k]? = if k * (n + 1) < xs.length then some (chunkAt (n + 1) k xs) else none := by
  induction k generalizing xs with
  | zero =>
    cases xs with
    | nil => simp [piecesOf]
    | cons x xs => simp [piecesOf, chunkAt]
  | succ k ih =>
    cases xs with
    | nil => simp [piecesOf]
    | cons x xs =>
      have hstart : (k + 1) * (n + 1) = (k * (n + 1) + n) + 1 := by
        rw [Nat.succ_mul]
        omega
      have hbound : k * (n + 1) < xs.length - n ↔ (k + 1) * (n + 1) < xs.length + 1 := by
        omega
      have hdrop : (xs.drop n).drop (k * (n + 1)) = (x :: xs).drop ((k + 1) * (n + 1)) := by
        rw [List.drop_drop, hstart, List.drop_succ_cons, Nat.add_comm n]
      rw [piecesOf, List.getElem?_cons_succ, ih, List.length_drop, List.length_cons]
      simp only [hbound, chunkAt, hdrop]

theorem getElem?_chunksOf {α : Type} (size k : Nat) (xs : List α) :
    (chunksOf size xs)[k]? =
      if k * max 1 size < xs.length then some (chunkAt (max 1 size) k xs) else none := by
  have hsize : size - 1 + 1 = max 1 size := by omega
  rw [chunksOf, getElem?_piecesOf, hsize]

theorem checkStatement_ok {updates : List StatusUpdate} {counts : List Nat}
    (h : checkStatement updates counts = .ok ()) : counts = List.replicate updates.length 1 := by
  unfold checkStatement at h
  split at h
  · rename_i hlength
    induction updates generalizing counts with
    | nil => exact List.length_eq_zero_iff.mp hlength
    | cons u rest ih =>
      cases counts with
      | nil => cases hlength
      | cons n ns =>
        simp only [checkCounts] at h
        split at h
        · rename_i hone
          rw [List.length_cons, List.replicate_succ, ← ih (by simpa using hlength) h, hone]
        · split at h <;> cases h
  · cases h

theorem checkStatement_replicate (updates : List StatusUpdate) :
    checkStatement updates (List.replicate updates.length 1) = .ok () := by
  rw [checkStatement, if_pos List.length_replicate]
  induction updates with
  | nil => rfl
  | cons u rest ih => simpa [checkCounts, List.replicate_succ] using ih

theorem nodup_of_firstRepeated {updates : List StatusUpdate} {seen : List Int}
    (h : StatusUpdate.firstRepeated updates seen = none) :
    (updates.map (·.orderId)).Nodup ∧ ∀ u ∈ updates, u.orderId ∉ seen := by
  induction updates generalizing seen with
  | nil => simp
  | cons u rest ih =>
    simp only [StatusUpdate.firstRepeated] at h
    split at h
    · cases h
    · rename_i hnew
      obtain ⟨hnodup, hseen⟩ := ih h
      refine ⟨List.nodup_cons.mpr ⟨?_, hnodup⟩, ?_⟩
      · intro hmem
        obtain ⟨v, hv, hsame⟩ := List.mem_map.mp hmem
        exact hseen v hv (hsame ▸ List.mem_cons_self)
      · intro v hv
        rcases List.mem_cons.mp hv with rfl | hv
        · exact hnew
        · exact fun hmem => hseen v hv (List.mem_cons_of_mem _ hmem)

theorem firstRepeated_eq_none {updates : List StatusUpdate} {seen : List Int}
    (hnodup : (updates.map (·.orderId)).Nodup) (hnew : ∀ u ∈ updates, u.orderId ∉ seen) :
    StatusUpdate.firstRepeated updates seen = none := by
  induction updates generalizing seen with
  | nil => rfl
  | cons u rest ih =>
    obtain ⟨hfirst, hrest⟩ := List.nodup_cons.mp hnodup
    rw [StatusUpdate.firstRepeated, if_neg (hnew u List.mem_cons_self)]
    refine ih hrest fun v hv hseen => ?_
    rcases List.mem_cons.mp hseen with hsame | hseen
    · exact hfirst (List.mem_map.mpr ⟨v, hv, hsame⟩)
    · exact hnew v (List.mem_cons_of_mem u hv) hseen

/-! ### Staged rows -/

/-- The rows that a transaction has staged on a table with the updates it has made: each of them has
found its row with the expected version, and nothing else is staged. -/
structure Staged (t : Table) (made : List StatusUpdate) (staged : Table) : Prop where
  nodup : staged.ids.Nodup
  updated : ∀ u ∈ made, ∃ row, t.get? u.orderId = some row ∧ row.version = u.expectedVersion ∧
    staged.get? u.orderId = some (row.update u)
  others : ∀ id, id ∉ made.map (·.orderId) → staged.get? id = none

namespace Staged

variable {t staged staged' : Table} {made updates : List StatusUpdate}

theorem nil (t : Table) : Staged t [] [] :=
  ⟨List.nodup_nil, (fun _ hu => nomatch hu), fun _ _ => rfl⟩

theorem update {u : StatusUpdate} (h : Staged t made staged)
    (hnew : u.orderId ∉ made.map (·.orderId)) (hstage : t.stage staged u = (staged', .ok 1)) :
    Staged t (made ++ [u]) staged' := by
  have hseen : t.seen staged u.orderId = t.get? u.orderId := by
    simp [Table.seen, h.others _ hnew]
  unfold Table.stage at hstage
  rw [hseen] at hstage
  cases hrow : t.get? u.orderId with
  | none => simp [hrow] at hstage
  | some row =>
    simp only [hrow] at hstage
    split at hstage
    · rename_i hversion
      split at hstage
      · obtain rfl : staged.put u.orderId (row.update u) = staged' := congrArg Prod.fst hstage
        refine ⟨Table.nodup_ids_put h.nodup _ _, ?_, ?_⟩
        · intro v hv
          rcases List.mem_append.mp hv with hv | hv
          · obtain ⟨old, hold, hexpected, hstaged⟩ := h.updated v hv
            have hne : v.orderId ≠ u.orderId :=
              fun hsame => hnew (hsame ▸ List.mem_map_of_mem hv)
            exact ⟨old, hold, hexpected, by rw [Table.get?_put, if_neg hne, hstaged]⟩
          · obtain rfl := List.mem_singleton.mp hv
            exact ⟨row, hrow, hversion, by rw [Table.get?_put, if_pos rfl]⟩
        · intro id hid
          rw [List.map_append, List.mem_append, not_or] at hid
          have hne : id ≠ u.orderId := fun hsame => hid.2 (by simp [hsame])
          rw [Table.get?_put, if_neg hne, h.others id hid.1]
      · cases congrArg Prod.snd hstage
    · cases congrArg Prod.snd hstage

/-- **A statement that the check has passed.** Its updates have found their rows, like those before
it. -/
theorem statement {counts : List Nat} (h : Staged t made staged)
    (hnodup : ((made ++ updates).map (·.orderId)).Nodup)
    (hstage : t.stageAll staged updates = (staged', .ok counts))
    (hcheck : checkStatement updates counts = .ok ()) :
    Staged t (made ++ updates) staged' := by
  obtain rfl := checkStatement_ok hcheck
  induction updates generalizing made staged with
  | nil =>
    obtain rfl : staged = staged' := congrArg Prod.fst hstage
    rw [List.append_nil]
    exact h
  | cons u rest ih =>
    rw [List.append_cons] at hnodup ⊢
    have hnew : u.orderId ∉ made.map (·.orderId) := by
      rw [List.map_append, List.map_append] at hnodup
      have hfirst := (List.nodup_append.mp hnodup).1
      have hdisjoint := (List.nodup_append.mp hfirst).2.2
      exact fun hmem => hdisjoint _ hmem _ (by simp) rfl
    simp only [Table.stageAll] at hstage
    split at hstage
    · cases congrArg Prod.snd hstage
    · rename_i between n hfirst
      split at hstage
      · cases congrArg Prod.snd hstage
      · rename_i last ns hrest
        obtain rfl : last = staged' := congrArg Prod.fst hstage
        have hcounts : n :: ns = List.replicate (rest.length + 1) 1 := by
          simpa using congrArg Prod.snd hstage
        rw [List.replicate_succ, List.cons.injEq] at hcounts
        obtain ⟨rfl, rfl⟩ := hcounts
        exact ih (h.update hnew hfirst) hnodup hrest (checkStatement_replicate rest)

end Staged

/-! ### Committed transactions -/

/-- The second table is the first after a transaction with these updates. -/
def Written (t : Table) (updates : List StatusUpdate) (t' : Table) : Prop :=
  ∃ staged, Staged t updates staged ∧ t' = t.commit staged

namespace Written

variable {t t' : Table} {updates : List StatusUpdate}

theorem updated (h : Written t updates t') {u : StatusUpdate} (hu : u ∈ updates) :
    ∃ row, t.get? u.orderId = some row ∧ row.version = u.expectedVersion ∧
      t'.get? u.orderId = some (row.update u) := by
  obtain ⟨staged, hstaged, rfl⟩ := h
  obtain ⟨row, hrow, hversion, hnew⟩ := hstaged.updated u hu
  refine ⟨row, hrow, hversion, ?_⟩
  simp [Table.get?_commit t hstaged.nodup, Table.seen, hnew]

theorem others (h : Written t updates t') {id : Int} (hid : ∀ u ∈ updates, u.orderId ≠ id) :
    t'.get? id = t.get? id := by
  obtain ⟨staged, hstaged, rfl⟩ := h
  have hnot : id ∉ updates.map (·.orderId) := by
    intro hmem
    obtain ⟨u, hu, hsame⟩ := List.mem_map.mp hmem
    exact hid u hu hsame
  simp [Table.get?_commit t hstaged.nodup, Table.seen, hstaged.others id hnot]

theorem nil_iff : Written t [] t' ↔ t' = t := by
  constructor
  · rintro ⟨staged, hstaged, rfl⟩
    cases staged with
    | nil => rfl
    | cons first rest =>
      have hnone := hstaged.others first.1 (by simp)
      rw [Table.get?_cons, if_pos rfl] at hnone
      cases hnone
  · rintro rfl
    exact ⟨[], Staged.nil t', rfl⟩

end Written

end OrderAdmission
