import OrderAdmission.Store.Table
import OrderAdmission.Wire

/-!
# Status updates in transit

An update travels as a JSON document and is read again where it arrives. Its ids, its version and its
status arrive as they were, and so does whatever it says beside the status, with one exception. That
nothing is said is written `null`, and so is the document `null` itself. **What arrives is the update in
which an extra `null` is not there** (`StatusUpdate.received`), and this is the update that was sent
unless its extra is `null`.

The two are not the same to a row: an extra that is not there keeps what the row has, and `null` replaces
it. Nobody is told, since both change the same rows.
-/
namespace OrderAdmission

def Json.isNull : Json → Bool
  | .null => true
  | _ => false

theorem OrderStatus.ofJson?_name (s : OrderStatus) : ofJson? (.str s.name) = some s := by
  cases s <;> rfl

namespace StatusUpdate

/-- The order id and the version of an update are signed words. -/
structure FitsWords (u : StatusUpdate) : Prop where
  orderId : minSigned ≤ u.orderId ∧ u.orderId ≤ maxSigned
  expectedVersion : minSigned ≤ u.expectedVersion ∧ u.expectedVersion ≤ maxSigned

/-- The update that arrives. -/
def received (u : StatusUpdate) : StatusUpdate :=
  { u with extra := u.extra.filter fun extra => !extra.isNull }

variable {u : StatusUpdate}

theorem received_extra_of_null (h : u.extra = some .null) : u.received.extra = none := by
  simp [received, h, Json.isNull]

theorem received_of_ne_null (h : u.extra ≠ some .null) : u.received = u := by
  obtain ⟨orderId, expectedVersion, status, extra⟩ := u
  cases extra with
  | none => rfl
  | some j =>
    cases j with
    | null => exact absurd rfl h
    | _ => rfl

/-- **What arrives is what was sent**, unless an extra `null` was. -/
theorem received_eq_self_iff : u.received = u ↔ u.extra ≠ some .null := by
  constructor
  · intro hsame hnull
    have hnone := received_extra_of_null hnull
    rw [hsame, hnull] at hnone
    cases hnone
  · exact received_of_ne_null

/-! ### Documents -/

/-- What an optional field gives back of what was written there: `null` counts as missing. -/
theorem nullable_ofOption (extra : Option Json) :
    Json.nullable some (.ofOption id extra) = some (extra.filter fun j => !j.isNull) := by
  cases extra with
  | none => rfl
  | some j => cases j <;> rfl

theorem ofJson?_toJson (h : u.FitsWords) : ofJson? u.toJson = some u.received := by
  have horder : Json.asSigned (.int u.orderId) = some u.orderId := if_pos h.orderId
  have hversion : Json.asSigned (.int u.expectedVersion) = some u.expectedVersion :=
    if_pos h.expectedVersion
  have hstatus := OrderStatus.ofJson?_name u.status
  have hextra := nullable_ofOption u.extra
  simp [ofJson?, toJson, Json.fields?, Json.Fields.required, Json.Fields.optional,
    Json.Fields.get?, List.lookup_cons, horder, hversion, hstatus, hextra, received]

/-! ### Rows -/

theorem update_received_eq_iff (row : StoredRow) :
    row.update u.received = row.update u ↔ (u.extra = some .null → row.extra = some .null) := by
  by_cases hnull : u.extra = some .null
  · have hlost : (row.update u.received).extra = row.extra := by
      simp [StoredRow.update, received_extra_of_null hnull]
    have hsent : (row.update u).extra = some .null := by simp [StoredRow.update, hnull]
    constructor
    · intro hsame _
      rw [← hlost, hsame, hsent]
    · intro hrow
      have hextra : (row.update u.received).extra = (row.update u).extra := by
        rw [hlost, hsent, hrow hnull]
      exact congrArg (fun extra => { row.update u with extra }) hextra
  · simp [received_of_ne_null hnull, hnull]

theorem stage_received_snd (t staged : Table) :
    (t.stage staged u.received).2 = (t.stage staged u).2 := by
  unfold Table.stage
  have horder : u.received.orderId = u.orderId := rfl
  have hversion : u.received.expectedVersion = u.expectedVersion := rfl
  rw [horder, hversion]
  cases t.seen staged u.orderId with
  | none => rfl
  | some row =>
    simp only
    split
    · split <;> rfl
    · rfl

/-- **An update survives its transit exactly if its extra is not `null`.** What arrives from its document is
the update in which an extra `null` is not there. A row then keeps the extra that it has, where `null` was
to replace it, and the number of rows that change does not tell. -/
theorem survives_transit_unless_extra_is_null (hwords : u.FitsWords) :
    ofJson? u.toJson = some u.received ∧
    (u.received = u ↔ u.extra ≠ some .null) ∧
    (∀ row : StoredRow,
      row.update u.received = row.update u ↔ (u.extra = some .null → row.extra = some .null)) ∧
    ∀ t staged : Table, (t.stage staged u.received).2 = (t.stage staged u).2 :=
  ⟨ofJson?_toJson hwords, received_eq_self_iff, update_received_eq_iff, stage_received_snd⟩

/-- An order is submitted with a note and then filled with an extra `null`: the note stays. Inside a document,
a `null` arrives. -/
theorem extra_null_is_lost_and_inner_null_is_not :
    let note : Json := .obj [("note", .str "kept"), ("codes", .arr [.null, .int 7])]
    let submit : StatusUpdate :=
      { orderId := 1, expectedVersion := 0, status := .submitted, extra := some note }
    let fill : StatusUpdate :=
      { orderId := 1, expectedVersion := 1, status := .filled, extra := some .null }
    let row : StoredRow := (StoredRow.pending 0).update submit
    submit.FitsWords ∧ fill.FitsWords ∧
      ofJson? submit.toJson = some submit ∧ ofJson? fill.toJson = some { fill with extra := none } ∧
      row.update { fill with extra := none } ≠ row.update fill := by
  intro note submit fill row
  have hsubmit : submit.FitsWords := ⟨by decide, by decide⟩
  have hfill : fill.FitsWords := ⟨by decide, by decide⟩
  obtain ⟨hsubmitJson, hsubmitSame, -, -⟩ := survives_transit_unless_extra_is_null hsubmit
  obtain ⟨hfillJson, -, hfillRow, -⟩ := survives_transit_unless_extra_is_null hfill
  refine ⟨hsubmit, hfill, ?_, hfillJson, ?_⟩
  · rw [hsubmitJson, hsubmitSame.mpr (by simp [submit, note])]
  · intro hrows
    have hnull : some note = some .null := (hfillRow row).mp hrows rfl
    exact absurd hnull (by simp [note])

end StatusUpdate

end OrderAdmission
