import OrderAdmission.Order.Sample
import OrderAdmission.Proofs.Admission
import OrderAdmission.Proofs.Versions

/-!
# The ids of sample orders

The ids of a sample count up from its time in microseconds, so that a millisecond has a thousand of them.
Nothing keeps a sample from being larger than that.

**Two samples share an id exactly if the earlier one has more than a thousand orders for each millisecond
between them**, and the later one is not empty (`Sampling.disjoint_ids_iff`). What they share are the first
ids of the later sample, so that it can be counted how many of its orders find a row that is there already
(`Sampling.register_later`).
-/
namespace OrderAdmission

/-- Work on a list comes to an answer exactly if the work on each of its members does. -/
theorem mapM_eq_ok_iff {α β ε : Type} {f : α → Except ε β} {xs : List α} {ys : List β} :
    xs.mapM f = .ok ys ↔ xs.map f = ys.map .ok := by
  induction xs generalizing ys with
  | nil => cases ys <;> simp [pure, Except.pure]
  | cons x rest ih =>
    rw [List.mapM_cons, List.map_cons]
    cases hx : f x with
    | error e => cases ys <;> simp [bind, Except.bind]
    | ok y =>
      cases hrest : rest.mapM f with
      | error e =>
        have hnone (zs : List β) : rest.map f ≠ zs.map .ok := fun h => by
          rw [← ih, hrest] at h
          cases h
        cases ys with
        | nil => simp [bind, Except.bind]
        | cons y' zs => simp [bind, Except.bind, hnone zs]
      | ok zs =>
        have hmapped := ih.mp hrest
        cases ys with
        | nil => simp [bind, Except.bind, pure, Except.pure]
        | cons y' zs' =>
          have hinjective : Function.Injective (Except.ok : β → Except ε β) := fun _ _ => Except.ok.inj
          have hinj := (List.map_injective_iff.mpr hinjective).eq_iff (a := zs) (b := zs')
          simp [bind, Except.bind, pure, Except.pure, hmapped, hinj]

/-! ### What is stored -/

namespace Table

/-- One order more: the table and how many have been stored. -/
def countOne (stored : Table × Nat) (o : Order) : Table × Nat :=
  ((stored.1.registerOne o).1, stored.2 + (stored.1.registerOne o).2)

theorem register_eq (t : Table) (orders : List Order) :
    t.register orders = orders.foldl countOne (t, 0) :=
  rfl

theorem foldl_countOne (orders : List Order) (t : Table) (n : Nat) :
    (orders.foldl countOne (t, n)).2 = n + (t.register orders).2 := by
  induction orders generalizing t n with
  | nil => rfl
  | cons o rest ih =>
    rw [register_eq, List.foldl_cons, List.foldl_cons, countOne, countOne, ih, ih, Nat.zero_add,
      Nat.add_assoc]

theorem register_snd_cons (t : Table) (o : Order) (rest : List Order) :
    (t.register (o :: rest)).2 = (t.registerOne o).2 + ((t.registerOne o).1.register rest).2 := by
  rw [register_eq, List.foldl_cons, countOne, foldl_countOne, Nat.zero_add]

theorem register_snd {t : Table} {orders : List Order} (hdistinct : (orders.map (·.id)).Nodup) :
    (t.register orders).2 = orders.countP fun o => (t.get? o.id).isNone := by
  induction orders generalizing t with
  | nil => rfl
  | cons o rest ih =>
    obtain ⟨hother, hrest⟩ := List.nodup_cons.mp hdistinct
    have hone : (t.registerOne o).2 = if (t.get? o.id).isNone then 1 else 0 := by
      unfold registerOne
      cases t.get? o.id <;> rfl
    have hsame : rest.countP (fun o' => ((t.registerOne o).1.get? o'.id).isNone) =
        rest.countP fun o' => (t.get? o'.id).isNone := by
      refine List.countP_congr fun o' ho' => ?_
      have hid : o.id ≠ o'.id := fun hid => hother (List.mem_map.mpr ⟨o', ho', hid.symm⟩)
      have hnone : firstOf [o] o'.id = none := by simp [firstOf, hid]
      rw [get?_registerOne, hnone, Option.or_none]
    rw [register_snd_cons, ih hrest, hsame, hone, List.countP_cons, Nat.add_comm]

theorem get?_register_isSome {t : Table} {orders : List Order} {id : Int} :
    ((t.register orders).1.get? id).isSome ↔ (t.get? id).isSome ∨ id ∈ orders.map (·.id) := by
  rw [get?_register, Option.isSome_or, Bool.or_eq_true, firstOf, Option.isSome_map, List.find?_isSome]
  simp

end Table

/-! ### Samples -/

namespace Order

/-- What a sample is asked for with. -/
structure Sampling where
  /-- The time of day, in milliseconds. -/
  wall : Int
  count : Nat
  symbol : String
  clientId : Nat → String

namespace Sampling

variable (s : Sampling)

/-- The sample. -/
def orders : Except Crash (List Order) := sample s.wall s.clientId s.count s.symbol

/-- The order at this place of the sample. -/
def order (i : Nat) : Order :=
  .limit (s.wall * 1000 + i) 0 (s.clientId i) s.symbol (if i % 2 = 0 then .buy else .sell)
    (Number.Decimal.ofNat 1) (Number.Decimal.ofNat (100 + i % 10))

/-- The ids of the sample. -/
def ids : List Int := (List.range s.count).map fun i : Nat => s.wall * 1000 + i

/-- There is such a sample: its time can be told as a date, and its ids are signed words. -/
structure Fits : Prop where
  date : firstDate ≤ s.wall ∧ s.wall ≤ lastDate
  room : s.wall * 1000 + s.count ≤ maxSigned + 1


theorem orders_eq_mapM (hdate : firstDate ≤ s.wall ∧ s.wall ≤ lastDate) :
    s.orders = (List.range s.count).mapM (sampleAt (s.wall * 1000) s.symbol s.clientId) := by
  have hbase : checkedSigned (s.wall * 1000) = .ok (s.wall * 1000) := by
    refine if_pos ?_
    simp only [firstDate, lastDate, minSigned, maxSigned] at hdate ⊢
    omega
  unfold Sampling.orders sample
  rw [if_pos hdate, hbase]
  rfl

variable {s}

theorem Fits.sampleAt_eq (h : s.Fits) {i : Nat} (hi : i < s.count) :
    sampleAt (s.wall * 1000) s.symbol s.clientId i = .ok (s.order i) := by
  obtain ⟨⟨hfirst, _⟩, hroom⟩ := h
  have hid : checkedSigned (s.wall * 1000 + i) = .ok (s.wall * 1000 + i) := by
    refine if_pos ?_
    simp only [firstDate, minSigned, maxSigned] at hfirst hroom ⊢
    omega
  unfold sampleAt
  rw [hid]
  rfl

theorem Fits.orders_eq (h : s.Fits) : s.orders = .ok ((List.range s.count).map s.order) := by
  rw [orders_eq_mapM s h.date, mapM_eq_ok_iff, List.map_map]
  exact List.map_congr_left fun i hi => h.sampleAt_eq (List.mem_range.mp hi)

theorem fits_of_orders {orders : List Order} (h : s.orders = .ok orders) : s.Fits := by
  have hdate : firstDate ≤ s.wall ∧ s.wall ≤ lastDate := by
    by_contra hnone
    unfold Sampling.orders sample at h
    rw [if_neg hnone] at h
    cases h
  refine ⟨hdate, ?_⟩
  by_contra hfull
  -- The last order would have an id that is no signed word.
  have hlast : s.count - 1 ∈ List.range s.count := by
    simp only [lastDate, maxSigned, List.mem_range] at hdate hfull ⊢
    omega
  have hid : ¬ (s.wall * 1000 + (s.count - 1 : Nat) ≤ maxSigned) := by
    simp only [lastDate, maxSigned] at hdate hfull ⊢
    omega
  rw [orders_eq_mapM s hdate, mapM_eq_ok_iff] at h
  have hmade := List.mem_map_of_mem (f := sampleAt (s.wall * 1000) s.symbol s.clientId) hlast
  rw [h] at hmade
  obtain ⟨o, _, ho⟩ := List.mem_map.mp hmade
  unfold sampleAt at ho
  rw [checkedSigned, if_neg fun hword => hid hword.2] at ho
  cases ho

theorem ids_eq : ((List.range s.count).map s.order).map (·.id) = s.ids :=
  List.map_map

theorem nodup_ids : s.ids.Nodup := by
  refine List.nodup_range.map fun i k hsame => ?_
  omega

theorem mem_ids {id : Int} : id ∈ s.ids ↔ s.wall * 1000 ≤ id ∧ id < s.wall * 1000 + s.count := by
  simp only [ids, List.mem_map, List.mem_range]
  constructor
  · rintro ⟨i, hi, rfl⟩
    omega
  · rintro ⟨hlow, hhigh⟩
    exact ⟨(id - s.wall * 1000).toNat, by omega, by omega⟩

/-- Whether the order of a sample has the form that orders must have is a question of its symbol. -/
theorem check_order (hclient : ∀ i, Text.allBlank (s.clientId i) = false) (i : Nat) :
    (s.order i).check = .ok () ↔ Text.allBlank s.symbol = false := by
  have hquantity : (Number.Decimal.ofNat 1).isPositive = true := rfl
  simp only [check, order, limit, hclient, hquantity]
  cases Text.allBlank s.symbol <;> simp

theorem reviewed_iff (hclient : ∀ i, Text.allBlank (s.clientId i) = false) :
    Reviewed ((List.range s.count).map s.order) ↔ s.count = 0 ∨ Text.allBlank s.symbol = false := by
  constructor
  · intro h
    by_cases hnone : s.count = 0
    · exact .inl hnone
    · have hfirst : s.order 0 ∈ (List.range s.count).map s.order :=
        List.mem_map_of_mem (List.mem_range.mpr (Nat.pos_of_ne_zero hnone))
      exact .inr ((check_order hclient 0).mp (h.form _ hfirst))
  · intro h
    refine ⟨?_, ids_eq ▸ nodup_ids⟩
    intro o ho
    obtain ⟨i, hi, rfl⟩ := List.mem_map.mp ho
    have hi : i < s.count := List.mem_range.mp hi
    exact (check_order hclient i).mpr (h.resolve_left (by omega))

/-! ### Two samples -/

section TwoSamples

variable {earlier later : Sampling}

/-- **The ids reach into those of a later time after a thousand orders a millisecond.** -/
theorem disjoint_ids_iff (hlater : earlier.wall < later.wall) :
    earlier.ids.Disjoint later.ids ↔
      later.count = 0 ∨ earlier.count ≤ 1000 * (later.wall - earlier.wall) := by
  constructor
  · intro hapart
    by_contra hreaches
    have hfirst : later.wall * 1000 ∈ later.ids := mem_ids.mpr (by omega)
    exact hapart (mem_ids.mpr (by omega)) hfirst
  · intro h id hearlier hlater
    rw [mem_ids] at hearlier hlater
    omega

theorem countP_range_le (k n : Nat) : ((List.range n).countP fun i => decide (k ≤ i)) = n - k := by
  induction n with
  | zero => simp
  | succ n ih =>
    rw [List.range_succ, List.countP_append, ih, List.countP_singleton]
    split
    · have hk : k ≤ n := by simpa using ‹decide (k ≤ n) = true›
      omega
    · have hk : ¬ k ≤ n := by simpa using ‹¬ decide (k ≤ n) = true›
      omega

/-- **The orders of the later sample that find no row**, where the earlier sample has rows and nothing else
does: as many as there are, less those that the earlier sample has in excess. -/
theorem register_later (hlater : earlier.wall < later.wall) {t : Table}
    (hstored : ∀ id ∈ later.ids, (t.get? id).isSome ↔ id ∈ earlier.ids) :
    (t.register ((List.range later.count).map later.order)).2 =
      later.count - (earlier.count - (1000 * (later.wall - earlier.wall)).toNat) := by
  rw [Table.register_snd (ids_eq ▸ nodup_ids), List.countP_map, ← countP_range_le]
  refine List.countP_congr fun i hi => ?_
  have hi : i < later.count := List.mem_range.mp hi
  have hmem : later.wall * 1000 + i ∈ later.ids := mem_ids.mpr (by omega)
  have hid : (later.order i).id = later.wall * 1000 + i := rfl
  have hsome := hstored _ hmem
  rw [mem_ids] at hsome
  simp only [Function.comp_apply, hid, decide_eq_true_eq]
  rw [← Option.not_isSome, Bool.not_eq_true', ← Bool.not_eq_true, hsome]
  omega

end TwoSamples

/-- A sample as it should be: as many orders as were asked for, with different ids, which pass the review
unless their symbol is blank. -/
structure Delivers (s : Sampling) (orders : List Order) : Prop where
  made : s.orders = .ok orders
  length : orders.length = s.count
  distinct : (orders.map (·.id)).Nodup
  review : checkBatch orders = .ok () ↔ orders = [] ∨ Text.allBlank s.symbol = false

theorem Fits.delivers (h : s.Fits) (hclient : ∀ i, Text.allBlank (s.clientId i) = false) :
    s.Delivers ((List.range s.count).map s.order) where
  made := h.orders_eq
  length := by rw [List.length_map, List.length_range]
  distinct := ids_eq ▸ nodup_ids
  review := by rw [checkBatch_eq_ok_iff, reviewed_iff hclient, List.map_eq_nil_iff, List.range_eq_nil]

/-- **Samples of two times are apart exactly if the earlier one has at most a thousand orders for each
millisecond between them**, or the later one is empty. A sample is made if and only if its time can be told
as a date and its ids are signed words; then it has as many orders as were asked for, their ids are
different, and it passes the review exactly if it is empty or its symbol is not blank. Where the orders of
the earlier sample have rows, and no others do, the later sample finds a row for each order that the
earlier one has beyond a thousand a millisecond, and its remaining orders are the ones that are stored. -/
theorem samples_apart_iff (earlier later : Sampling) (hlater : earlier.wall < later.wall)
    (hclient : ∀ i, Text.allBlank (earlier.clientId i) = false)
    (hclient' : ∀ i, Text.allBlank (later.clientId i) = false) :
    ((∃ orders, earlier.orders = .ok orders) ↔ earlier.Fits) ∧
      ((∃ orders, later.orders = .ok orders) ↔ later.Fits) ∧
      (earlier.Fits → later.Fits → ∃ first second,
        earlier.Delivers first ∧ later.Delivers second ∧
        ((first.map (·.id)).Disjoint (second.map (·.id)) ↔
          second = [] ∨ first.length ≤ 1000 * (later.wall - earlier.wall)) ∧
        ∀ t : Table, (∀ o ∈ second, (t.get? o.id).isSome ↔ o.id ∈ first.map (·.id)) →
          (t.register second).2 =
            second.length - (first.length - (1000 * (later.wall - earlier.wall)).toNat)) := by
  refine ⟨⟨fun ⟨_, h⟩ => fits_of_orders h, fun h => ⟨_, h.orders_eq⟩⟩,
    ⟨fun ⟨_, h⟩ => fits_of_orders h, fun h => ⟨_, h.orders_eq⟩⟩, ?_⟩
  intro hfits hfits'
  have hfirst := hfits.delivers hclient
  have hsecond := hfits'.delivers hclient'
  refine ⟨_, _, hfirst, hsecond, ?_, ?_⟩
  · rw [ids_eq, ids_eq, disjoint_ids_iff hlater, hfirst.length, List.map_eq_nil_iff, List.range_eq_nil]
  · intro t hstored
    rw [hfirst.length, hsecond.length]
    refine register_later hlater fun id hid => ?_
    obtain ⟨o, ho, rfl⟩ := List.mem_map.mp (ids_eq ▸ hid)
    exact ids_eq ▸ hstored o ho

/-- Of a thousand and one orders the last has the id of the first order a millisecond later, which then is
not stored. -/
theorem order_beyond_thousand_shares_id :
    let clientId (i : Nat) := "order-" ++ toString i
    let earlier : Sampling := ⟨1700000000000, 1001, "BTC-USD", clientId⟩
    let later : Sampling := ⟨1700000000001, 1, "BTC-USD", clientId⟩
    ∃ first second, earlier.Delivers first ∧ later.Delivers second ∧
      checkBatch first = .ok () ∧ checkBatch second = .ok () ∧
      ¬ (first.map (·.id)).Disjoint (second.map (·.id)) ∧
      ((Table.register [] first).1.register second).2 = 0 := by
  intro clientId earlier later
  have hclient (i : Nat) : Text.allBlank (clientId i) = false := by
    rw [Text.allBlank, String.toList_append, List.all_append]
    rfl
  have hfits : earlier.Fits := ⟨by decide, by decide⟩
  have hfits' : later.Fits := ⟨by decide, by decide⟩
  obtain ⟨_, _, hboth⟩ := samples_apart_iff earlier later (by decide) hclient hclient
  obtain ⟨first, second, hfirst, hsecond, happart, hstored⟩ := hboth hfits hfits'
  have hsome : second ≠ [] := List.ne_nil_of_length_pos (by rw [hsecond.length]; decide)
  refine ⟨first, second, hfirst, hsecond, hfirst.review.mpr (.inr (by decide)),
    hsecond.review.mpr (.inr (by decide)), ?_, ?_⟩
  · rw [happart, hfirst.length]
    rintro (hnone | hroom)
    · exact hsome hnone
    · exact absurd hroom (by decide)
  · rw [hstored, hfirst.length, hsecond.length]
    · decide
    · intro o ho
      rw [Table.get?_register_isSome]
      exact ⟨fun h => h.resolve_left nofun, .inr⟩

end Sampling

end Order

end OrderAdmission
