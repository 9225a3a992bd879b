import Mathlib
import OrderAdmission.Limiter
import OrderAdmission.Proofs.Debounce

/-!
# Readings and thresholds

A resource breaches when its reading lies strictly above its threshold. Readings are binary numbers, with
two zeros and numbers that are none, and their order is that of their bits. `Number.rank` makes it a
linear order of whole numbers: the sign comes first, then the exponent, then the significand.

Two things are read off it. A reading that has been moved into `[0, 1]` lies above a positive threshold
only if it did before (`not_lt_clampUnit`). And nothing is as low as the share of nothing: **whoever uses
none of a resource is not above any positive threshold**, whatever the resource has (`not_lt_share_zero`).
-/
namespace OrderAdmission

namespace Number

open Float.Model
open Float.Model.UnpackedFloat (Sign)

/-! ### The order of binary numbers -/

/-- The place of a number in the order of numbers. What is no number has none. -/
def rank : UnpackedFloat → Option (Int ×ₗ Int ×ₗ Int)
  | .notANumber => none
  | .infinity .negative => some (toLex (-2, toLex (0, 0)))
  | .finite .negative significand exponent _ => some (toLex (-1, toLex (-exponent, -significand)))
  | .zero _ => some (toLex (0, toLex (0, 0)))
  | .finite .positive significand exponent _ => some (toLex (1, toLex (exponent, significand)))
  | .infinity .positive => some (toLex (2, toLex (0, 0)))

theorem compare_eq_lt_iff (a b : UnpackedFloat) :
    a.compare b = some .lt ↔ ∃ p q, rank a = some p ∧ rank b = some q ∧ p < q := by
  have hsigns (s t : Sign) : compare s t = .lt ↔ s = .negative ∧ t = .positive := by
    cases s <;> cases t <;> simp [compare]
  -- The library compares by constructors and signs, and so does the rank.
  rcases a with s | _ | s | ⟨s, m, e, hm⟩ <;> rcases b with t | _ | t | ⟨t, n, f, hn⟩ <;>
    (try cases s) <;> (try cases t) <;>
    simp [rank, UnpackedFloat.compare, Prod.Lex.toLex_lt_toLex, Ordering.then_eq_lt,
      Ordering.then_eq_gt, compare_lt_iff_lt, compare_gt_iff_gt, hsigns]

/-- The place of a number that is given by its bits. -/
def place (x : Float) : Option (Int ×ₗ Int ×ₗ Int) := rank x.toModel.unpack

theorem lt_iff {x y : Float} : x < y ↔ ∃ p q, place x = some p ∧ place y = some q ∧ p < q := by
  have hcompare : x < y ↔ (x.toModel.unpack.compare y.toModel.unpack == some .lt) = true := by
    change decide (x.toModel.unpack.lt y.toModel.unpack) = true ↔ _
    rw [decide_eq_true_iff]
    rfl
  rw [hcompare, beq_iff_eq]
  exact compare_eq_lt_iff _ _

theorem lt_trans {x y z : Float} (h : x < y) (h' : y < z) : x < z := by
  obtain ⟨p, q, hp, hq, hpq⟩ := lt_iff.mp h
  obtain ⟨q', r, hq', hr, hqr⟩ := lt_iff.mp h'
  obtain rfl := Option.some.inj (hq.symm.trans hq')
  exact lt_iff.mpr ⟨p, r, hp, hr, hpq.trans hqr⟩

theorem lt_asymm {x y : Float} (h : x < y) : ¬ y < x := by
  intro h'
  obtain ⟨p, q, hp, hq, hpq⟩ := lt_iff.mp (lt_trans h h')
  obtain rfl := Option.some.inj (hp.symm.trans hq)
  exact lt_irrefl p hpq

/-- What has been moved into `[0, 1]` lies above a positive threshold only if it did before. -/
theorem not_lt_clampUnit {threshold x : Float} (hpos : 0.0 < threshold) (h : ¬ threshold < x) :
    ¬ threshold < clampUnit x := by
  unfold clampUnit
  split
  · exact lt_asymm hpos
  · split
    · rename_i habove
      exact fun hbelow => h (lt_trans hbelow habove)
    · exact h

/-! ### The share of nothing -/

theorem place_zero_div (y : Float) :
    place (ofWord 0 / y) = none ∨ place (ofWord 0 / y) = place 0.0 := by
  have hquotient : place (ofWord 0 / y) =
      rank (pack (UnpackedFloat.div .binary64 (.zero .positive) y.toModel.unpack)).unpack := rfl
  have hzero (s : Sign) : rank (pack (.zero s)).unpack = place 0.0 := by
    cases s <;> rfl
  have hnone : rank (pack .notANumber).unpack = none := rfl
  rw [hquotient]
  cases y.toModel.unpack with
  | notANumber | zero t => exact .inl hnone
  | infinity t | finite t m e hm => exact .inr (hzero _)

/-- **The share of nothing is not above any positive threshold.** -/
theorem not_lt_share_zero {threshold : Float} (hpos : 0.0 < threshold) (capacity : Float) :
    ¬ threshold < ofWord 0 / capacity := by
  intro habove
  rcases place_zero_div capacity with hnone | hzero
  · obtain ⟨_, _, _, hplace, _⟩ := lt_iff.mp habove
    rw [hnone] at hplace
    cases hplace
  · refine lt_asymm hpos ?_
    rw [lt_iff] at habove ⊢
    rwa [hzero] at habove

end Number

/-! ### Breaches -/

section Breaches

variable {threshold : Float}

/-- What is read of a resource lies above a positive threshold only if the resource says so. -/
theorem not_lt_readProbe (hpos : 0.0 < threshold) {reading : Option Reading}
    (hlow : ∀ x, reading = some (.ok x) → ¬ threshold < x) :
    ∀ x, readProbe reading = some x → ¬ threshold < x := by
  intro x hx
  unfold readProbe at hx
  split at hx
  · split at hx
    · cases hx
      exact Number.not_lt_clampUnit hpos (hlow _ rfl)
    · cases hx
  · cases hx

theorem Limiter.not_lt_utilization_full (hpos : 0.0 < threshold) (capacity patience : Nat) {x : Float}
    (h : (full capacity patience).utilization = .ok x) : ¬ threshold < x := by
  simp only [utilization, full, Nat.sub_self] at h
  split at h
  · cases h
  · cases h
    exact Number.not_lt_share_zero hpos _

/-- Whether the probe of one resource shows a breach. -/
def OverloadConfig.seesBreachOf (c : OverloadConfig) (probes : Probes) (kind : ResourceKind) : Prop :=
  ∃ x, readProbe (probes kind) = some x ∧ c.threshold kind < x

theorem OverloadConfig.seesBreach_iff (c : OverloadConfig) (probes : Probes) :
    c.seesBreach probes = true ↔ ∃ kind, c.seesBreachOf probes kind := by
  have hall (kind : ResourceKind) : kind ∈ ResourceKind.all := by
    cases kind <;> simp [ResourceKind.all]
  have hsome : c.seesBreach probes = true ↔ c.breaches probes.snapshot ≠ [] := by
    simp [seesBreach]
  rw [hsome, breaches, Ne, List.filterMap_eq_nil_iff]
  simp only [not_forall, Probes.snapshot, seesBreachOf]
  constructor
  · rintro ⟨kind, _, hbreach⟩
    refine ⟨kind, ?_⟩
    split at hbreach
    · rename_i x hx
      split at hbreach
      · rename_i habove
        exact ⟨x, hx, habove⟩
      · exact absurd rfl hbreach
    · exact absurd rfl hbreach
  · rintro ⟨kind, x, hx, habove⟩
    exact ⟨kind, hall kind, by simp [hx, habove]⟩

end Breaches

end OrderAdmission
