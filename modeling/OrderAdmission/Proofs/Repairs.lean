import OrderAdmission.Proofs.FirstBatch
import OrderAdmission.Proofs.Tables

/-!
# Settings that the components repair

Some components do not trust their settings. A chunk has at least one item, overload takes at least one
breaching check, the longest wait is no shorter than the first one, and delays do not shrink.
`AppConfig.repaired` makes these repairs once and for all, and the components take settings for what the
repaired ones say word for word (`takenFor_repaired`).

Settings that are accepted should need no repair. **They need none as long as the factor of the delays is
a number** (`accepted_taken_literally`): what is no number is not below one, so that the check lets it
pass, and the policy puts one in its place. Nor does the check ask for fewer permits than a limiter can
have, unless there is a database.
-/
namespace OrderAdmission

/-! ### Numbers that are neither below nor above -/

namespace Number

open Float.Model

theorem eq_of_unpack {x y : Float} (h : x.toModel.unpack = y.toModel.unpack) : x = y := by
  obtain ⟨⟨bits, hbits⟩⟩ := x
  obtain ⟨⟨bits', hbits'⟩⟩ := y
  obtain rfl := UInt64.toBitVec_inj.mp ((UnpackedFloat.unpack_inj_of_valid hbits hbits').mp h)
  rfl

theorem place_eq_none_iff {x : Float} : place x = none ↔ x.isNaN = true := by
  have hunpack : x.isNaN = x.toModel.unpack.isNaN := rfl
  rw [hunpack, place]
  rcases x.toModel.unpack with s | _ | s | ⟨s, m, e, hm⟩ <;> (try cases s) <;>
    simp [rank, UnpackedFloat.isNaN]

theorem eq_one_of_place {x : Float} (h : place x = place 1.0) : x = 1.0 := by
  apply eq_of_unpack
  have hone : (1.0 : Float).toModel.unpack = .finite .positive (2 ^ 52) (-52) (by decide) := rfl
  rw [place, place, hone] at h
  rw [hone]
  generalize x.toModel.unpack = u at h ⊢
  rcases u with s | _ | s | ⟨s, m, e, hm⟩ <;> (try cases s) <;> simp [rank] at h
  obtain ⟨rfl, hm⟩ := h
  obtain rfl : m = 2 ^ 52 := by omega
  rfl

theorem fmax_one (x : Float) : fmax x 1.0 = if 1.0 < x then x else 1.0 := by
  have hone : (1.0 : Float).isNaN = false := by decide +kernel
  unfold fmax
  rw [hone]
  by_cases hnone : x.isNaN = true
  · have hlow : ¬ 1.0 < x := by
      intro habove
      obtain ⟨_, q, _, hplace, _⟩ := lt_iff.mp habove
      rw [place_eq_none_iff.mpr hnone] at hplace
      cases hplace
    rw [if_pos hnone, if_neg hlow]
  · rw [if_neg hnone]
    rfl

theorem fmax_one_of_not_lt {x : Float} (h : ¬ x < 1.0) :
    fmax x 1.0 = if x.isNaN then 1.0 else x := by
  rw [fmax_one]
  by_cases habove : 1.0 < x
  · obtain ⟨_, q, _, hplace, _⟩ := lt_iff.mp habove
    have hnumber : ¬ x.isNaN = true := by
      rw [← place_eq_none_iff, hplace]
      exact Option.some_ne_none q
    rw [if_pos habove, if_neg hnumber]
  · rw [if_neg habove]
    split
    · rfl
    · rename_i hnumber
      -- What lies neither below nor above one takes its place.
      obtain ⟨p, hp⟩ := Option.ne_none_iff_exists'.mp (mt place_eq_none_iff.mp hnumber)
      obtain ⟨q, hq⟩ : ∃ q, place 1.0 = some q := ⟨_, rfl⟩
      refine (eq_one_of_place ?_).symm
      rcases lt_trichotomy p q with hlt | heq | hgt
      · exact absurd (lt_iff.mpr ⟨p, q, hp, hq, hlt⟩) h
      · rw [hp, hq, heq]
      · exact absurd (lt_iff.mpr ⟨q, p, hq, hp, hgt⟩) habove

theorem fmax_fmax_one (x : Float) : fmax (fmax x 1.0) 1.0 = fmax x 1.0 := by
  by_cases habove : 1.0 < x
  · rw [fmax_one x, if_pos habove, fmax_one x, if_pos habove]
  · rw [fmax_one x, if_neg habove, fmax_one, ite_self]

end Number

/-! ### What settings say word for word -/

/-- The delay before a retry by a factor that is taken as it is. -/
def RetryConfig.plainDelay (c : RetryConfig) (retry : Nat) : Nat :=
  let factor := powerBySquaring c.multiplier 1.0 (min retry maxExponent)
  let ms := Number.fmin (Number.ofWord c.baseDelay * factor) (Number.ofWord maxWord)
  ms.toUInt64.toNat

/-- The suggested wait with a longest wait that is taken as it is. -/
def OverloadConfig.plainRetryDelay (c : OverloadConfig) (peak : Float) : Nat :=
  let base := c.baseRetryDelay
  let delay := Number.ofWord base +
    Number.ofWord (c.maxRetryDelay - base) * Number.clampUnit peak
  max base (min c.maxRetryDelay (Number.roundWord delay))

namespace AppConfig

/-- The settings with everything put right that the components put right. -/
def repaired (c : AppConfig) : AppConfig :=
  { c with
    overload := { c.overload with
      maxRetryDelay := max c.overload.maxRetryDelay c.overload.baseRetryDelay
      consecutiveDetections := max 1 c.overload.consecutiveDetections }
    executor := { c.executor with chunkSize := max 1 c.executor.chunkSize }
    persistence := { c.persistence with chunkSize := max 1 c.persistence.chunkSize }
    fallback := { c.fallback with
      retry := { c.fallback.retry with
        multiplier := Number.fmax c.fallback.retry.multiplier 1.0 } } }

def withMultiplier (c : AppConfig) (x : Float) : AppConfig :=
  { c with fallback := { c.fallback with retry := { c.fallback.retry with multiplier := x } } }

/-- The components take the settings `c` for what the settings `r` say word for word. -/
structure TakenFor (c r : AppConfig) : Prop where
  /-- The tasks of a chunk. -/
  tasks : ∀ e : Engine Order Acknowledgement, e.desk.executor = c.executor →
    e.chunkSize = r.executor.chunkSize
  /-- The rows of each statement of a write. -/
  rows : ∀ (updates : List StatusUpdate) (k : Nat),
    (chunksOf c.persistence.chunkSize updates)[k]? =
      if k * r.persistence.chunkSize < updates.length then
        some (chunkAt r.persistence.chunkSize k updates)
      else none
  /-- The breaching checks in a row that declare overload. -/
  detections : c.overload.required = r.overload.consecutiveDetections
  /-- The suggested wait. -/
  waits : ∀ peak, c.overload.retryDelay peak = r.overload.plainRetryDelay peak
  /-- The delays between bulk calls. -/
  delays : ∀ retry, c.fallback.retry.delay retry = r.fallback.retry.plainDelay retry

/-- **The components repair their settings**, and take them for what the repaired ones say. -/
theorem takenFor_repaired (c : AppConfig) : c.TakenFor c.repaired where
  tasks e he := by rw [Engine.chunkSize, he, repaired]
  rows updates k := getElem?_chunksOf _ k updates
  detections := rfl
  waits _ := rfl
  delays _ := rfl

theorem repaired_repaired (c : AppConfig) : c.repaired.repaired = c.repaired := by
  have hlonger (n m : Nat) : max (max n m) m = max n m := by omega
  have honce (n : Nat) : max 1 (max 1 n) = max 1 n := by omega
  simp only [repaired, hlonger, honce, Number.fmax_fmax_one]

/-! ### Accepted settings -/

variable {c : AppConfig}

/-- In accepted settings at most the factor is repaired, and only if it is no number. -/
theorem Acceptable.repaired_eq (h : c.Acceptable) :
    c.repaired =
      c.withMultiplier (if c.fallback.retry.multiplier.isNaN then 1.0
        else c.fallback.retry.multiplier) := by
  have hdelays := Nat.max_eq_left h.delays
  have hdetections := Nat.max_eq_right (Nat.pos_of_ne_zero h.detections)
  have htasks := Nat.max_eq_right (Nat.pos_of_ne_zero h.executorChunk)
  have hrows := Nat.max_eq_right (Nat.pos_of_ne_zero h.persistenceChunk)
  simp only [repaired, withMultiplier, hdelays, hdetections, htasks, hrows,
    Number.fmax_one_of_not_lt h.multiplier]

theorem Acceptable.ratio_bounds (h : c.Acceptable) : ∀ r ∈ c.ratios, 0.0 < r.2 ∧ r.2 ≤ 1.0 := by
  intro r hr
  have hratio := h.ratios r hr
  simpa only [isRatio, Bool.and_eq_true, decide_eq_true_iff] using hratio

/-- A gate can be built if a limiter can have as many permits. -/
theorem forOrders_ok_iff (c : AppConfig) (service : Service) (store : StatusStore)
    (pool : Option PoolHealth) (table : Table) (epoch : Int) :
    (∃ e, Engine.forOrders c service store pool table epoch = .ok e) ↔
      c.executor.maxConcurrency ≤ Limiter.maxCapacity := by
  rw [Engine.forOrders, Engine.idle_eq]
  have hdesk : (Desk.forOrders c service store).executor = c.executor := rfl
  rw [hdesk]
  split
  · rename_i hfits
    exact ⟨fun _ => hfits, fun _ => ⟨_, rfl⟩⟩
  · rename_i hwide
    constructor
    · rintro ⟨e, he⟩
      cases he
    · exact fun hfits => (hwide hfits).elim

/-- **Accepted settings are taken at their word, as long as the factor of the delays is a number.** Then
nothing is repaired; where it is none, one takes its place, and nothing else is repaired. The ratios make
sense as thresholds. A gate can be built if a limiter can have as many permits, as is the case wherever
there is a database, whose connections a 32-bit word can count. -/
theorem accepted_taken_literally (hvalid : c.isValid = true) :
    c.TakenFor c.repaired ∧
    (c.repaired = c ↔ c.fallback.retry.multiplier.isNaN = false) ∧
    (c.fallback.retry.multiplier.isNaN = true → c.repaired = c.withMultiplier 1.0) ∧
    (∀ r ∈ c.ratios, 0.0 < r.2 ∧ r.2 ≤ 1.0) ∧
    (∀ service store pool table epoch,
      (∃ e, Engine.forOrders c service store pool table epoch = .ok e) ↔
        c.executor.maxConcurrency ≤ Limiter.maxCapacity) ∧
    (∀ db, c.database = some db → db.maxConnections < 2 ^ 32 →
      c.executor.maxConcurrency ≤ Limiter.maxCapacity) := by
  have hc := isValid_iff.mp hvalid
  have hrepaired := hc.repaired_eq
  refine ⟨c.takenFor_repaired, ⟨fun hsame => ?_, fun hnumber => ?_⟩, fun hnone => ?_,
    hc.ratio_bounds, c.forOrders_ok_iff, fun db hdb hword => ?_⟩
  · rw [Bool.eq_false_iff]
    intro hnone
    have hone : c.fallback.retry.multiplier = 1.0 := by
      rw [hnone, if_pos rfl] at hrepaired
      have hmultiplier := congrArg (·.fallback.retry.multiplier) (hsame.symm.trans hrepaired)
      exact hmultiplier
    rw [hone] at hnone
    exact absurd hnone (by decide +kernel)
  · rw [hrepaired, hnumber]
    rfl
  · rw [hrepaired, hnone, if_pos rfl]
  · have hconnections := hc.connections db hdb
    have hroom : 2 ^ 32 ≤ Limiter.maxCapacity := by decide
    omega

/-- Two settings that are accepted although they cannot be taken at their word. With a factor that is no
number, the second delay would last as long as a word can say; the policy waits a second instead. And
where a limiter cannot have as many permits, no gate can be built. -/
theorem accepted_repaired_or_unbuildable :
    let nameless : AppConfig := { fallback := { retry := { multiplier := Float.nan } } }
    let crowded : AppConfig := { executor := { maxConcurrency := 2 ^ 61 } }
    nameless.isValid = true ∧ nameless.repaired = nameless.withMultiplier 1.0 ∧
      nameless.repaired ≠ nameless ∧ nameless.fallback.retry.plainDelay 1 = maxWord ∧
      nameless.fallback.retry.delay 1 = 1000 ∧
      crowded.isValid = true ∧
      ∀ service store pool table epoch,
        Engine.forOrders crowded service store pool table epoch = .error .overflow := by
  intro nameless crowded
  have hvalid : nameless.isValid = true := by decide +kernel
  have hliteral := accepted_taken_literally hvalid
  have hnone : nameless.fallback.retry.multiplier.isNaN = true := by decide +kernel
  refine ⟨hvalid, hliteral.2.2.1 hnone, ?_, by decide +kernel, by decide +kernel,
    by decide +kernel, fun service store pool table epoch => ?_⟩
  · intro hsame
    have hnumber := hliteral.2.1.mp hsame
    rw [hnone] at hnumber
    cases hnumber
  · have hwide : ¬ crowded.executor.maxConcurrency ≤ Limiter.maxCapacity := by decide
    rw [Engine.forOrders, Engine.idle_eq]
    exact if_neg hwide

end AppConfig

end OrderAdmission
