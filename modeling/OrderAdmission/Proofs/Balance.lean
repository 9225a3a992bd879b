import Mathlib.Data.List.Perm.Basic
import OrderAdmission.Limiter

/-!
# The balance of permits

Somebody who has to do with a limiter either *holds* a permit, or *waits* for one under a number, or
is *idle*. A limiter is balanced against a list of such parties when its permits in use are theirs,
apart from a fixed number that are held elsewhere, when those who wait are exactly the ones that it
has queued or granted a permit, and when no permit has been lost or made up.

The main result is `Balanced.pass`: **the balance holds when one party passes from one standing to
another through the limiter**, in whatever way it does.
-/
namespace OrderAdmission

/-- What somebody has to do with a limiter. -/
inductive Standing where
  | idle
  | waits
  | holds
  deriving DecidableEq, Repr

namespace Limiter

/-- Everybody who waits, whether or not a permit has been granted. -/
def waiting (l : Limiter) : List Nat := l.granted ++ l.queue

def total (l : Limiter) : Nat := l.free + l.inFlight + l.granted.length

/-- Nobody waits, and every permit is free or in use. -/
structure AtRest (l : Limiter) : Prop where
  queue : l.queue = []
  granted : l.granted = []
  total : l.free + l.inFlight = l.capacity

/-! ### Operations -/

theorem yield_waiting (l : Limiter) : l.yield.waiting.Perm l.waiting := by
  unfold yield
  split
  · exact List.Perm.refl _
  · rename_i who rest hqueue
    simp only [waiting, hqueue]
    exact List.perm_middle.symm

theorem yield_total (l : Limiter) : l.yield.total = l.total + 1 := by
  unfold yield
  split
  · simp only [total]
    omega
  · simp only [total, List.length_cons]
    omega

theorem yield_inFlight (l : Limiter) : l.yield.inFlight = l.inFlight := by
  unfold yield
  split <;> rfl

theorem yield_capacity (l : Limiter) : l.yield.capacity = l.capacity := by
  unfold yield
  split <;> rfl

theorem yield_patience (l : Limiter) : l.yield.patience = l.patience := by
  unfold yield
  split <;> rfl

theorem take?_eq {l l' : Limiter} (h : l.take? = some l') :
    0 < l.free ∧ l' = { l with free := l.free - 1, inFlight := l.inFlight + 1 } := by
  unfold take? at h
  split at h
  · rename_i hfree
    exact ⟨hfree.1, (Option.some.inj h).symm⟩
  · cases h

theorem mem_granted {l : Limiter} {who : Nat} (h : l.hasGrant who = true) : who ∈ l.granted := by
  simpa [hasGrant] using h

theorem withdraw_waiting {l : Limiter} {who : Nat} (h : who ∈ l.waiting) :
    (who :: (l.withdraw who).waiting).Perm l.waiting := by
  unfold withdraw
  split
  · rename_i hgrant
    have hyield := yield_waiting { l with granted := l.granted.erase who }
    have herase := List.perm_cons_erase (mem_granted hgrant)
    exact (hyield.cons who).trans (herase.symm.append_right l.queue)
  · rename_i hgrant
    have hqueue : who ∈ l.queue := by
      rcases List.mem_append.mp h with hgranted | hqueue
      · exact absurd (by simpa [hasGrant] using hgranted) hgrant
      · exact hqueue
    have herase := List.perm_cons_erase hqueue
    exact List.perm_middle.symm.trans (herase.symm.append_left l.granted)

theorem withdraw_total (l : Limiter) (who : Nat) : (l.withdraw who).total = l.total := by
  unfold withdraw
  split
  · rename_i hgrant
    have hlength := List.length_erase_of_mem (mem_granted hgrant)
    have hpos := List.length_pos_of_mem (mem_granted hgrant)
    rw [yield_total]
    simp only [total, hlength]
    omega
  · rfl

theorem withdraw_inFlight (l : Limiter) (who : Nat) :
    (l.withdraw who).inFlight = l.inFlight := by
  unfold withdraw
  split
  · exact yield_inFlight _
  · rfl

theorem withdraw_capacity (l : Limiter) (who : Nat) :
    (l.withdraw who).capacity = l.capacity := by
  unfold withdraw
  split
  · exact yield_capacity _
  · rfl

theorem withdraw_patience (l : Limiter) (who : Nat) :
    (l.withdraw who).patience = l.patience := by
  unfold withdraw
  split
  · exact yield_patience _
  · rfl

end Limiter

/-! ### Parties -/

abbrev Party := Nat × Standing

def holders (parties : List Party) : Nat := parties.countP fun p => p.2 == .holds

def waiters (parties : List Party) : List Nat :=
  (parties.filter fun p => p.2 == .waits).map (·.1)

/-- A limiter accounts for the permits and the places of some parties; `held` permits are in use by
others. -/
structure Balanced (held : Nat) (parties : List Party) (l : Limiter) : Prop where
  total : l.total = l.capacity
  inUse : l.inFlight = held + holders parties
  waiting : l.waiting.Perm (waiters parties)

/-- The ways in which one party deals with a limiter. -/
inductive Pass (who : Nat) (l : Limiter) : Standing → Standing → Limiter → Prop where
  | stays (s : Standing) : Pass who l s s l
  | takes {l' : Limiter} (free : l.take? = some l') : Pass who l .idle .holds l'
  | joins (full : l.take? = none) : Pass who l .idle .waits (l.join who)
  | claims (granted : l.hasGrant who = true) : Pass who l .waits .holds (l.claim who)
  | withdraws : Pass who l .waits .idle (l.withdraw who)
  | releases : Pass who l .holds .idle l.release

theorem holders_append (ps qs : List Party) : holders (ps ++ qs) = holders ps + holders qs :=
  List.countP_append

theorem holders_cons (p : Party) (ps : List Party) :
    holders (p :: ps) = holders ps + if p.2 = .holds then 1 else 0 := by
  simp only [holders, List.countP_cons, beq_iff_eq]

theorem waiters_append (ps qs : List Party) : waiters (ps ++ qs) = waiters ps ++ waiters qs := by
  simp only [waiters, List.filter_append, List.map_append]

theorem waiters_cons_waits (who : Nat) (ps : List Party) :
    waiters ((who, .waits) :: ps) = who :: waiters ps := rfl

theorem waiters_cons_of_ne {p : Party} (h : p.2 ≠ .waits) (ps : List Party) :
    waiters (p :: ps) = waiters ps := by
  simp only [waiters, List.filter_cons, beq_iff_eq, h, ↓reduceIte]

theorem waiters_middle (who : Nat) (before after : List Party) :
    (waiters (before ++ (who, .waits) :: after)).Perm (who :: waiters (before ++ after)) := by
  rw [waiters_append, waiters_append, waiters_cons_waits]
  exact List.perm_middle

theorem waiters_middle_of_ne {p : Party} (h : p.2 ≠ .waits) (before after : List Party) :
    waiters (before ++ p :: after) = waiters (before ++ after) := by
  rw [waiters_append, waiters_append, waiters_cons_of_ne h]

theorem holders_middle (p : Party) (before after : List Party) :
    holders (before ++ p :: after) =
      holders (before ++ after) + if p.2 = .holds then 1 else 0 := by
  rw [holders_append, holders_append, holders_cons]
  omega

namespace Balanced

variable {held : Nat} {before after : List Party} {who : Nat} {l : Limiter}

theorem insert_idle (h : Balanced held (before ++ after) l) :
    Balanced held (before ++ (who, .idle) :: after) l := by
  refine ⟨h.total, ?_, ?_⟩
  · rw [holders_middle]
    simpa using h.inUse
  · rw [waiters_middle_of_ne (by simp)]
    exact h.waiting

theorem drop_idle (h : Balanced held (before ++ (who, .idle) :: after) l) :
    Balanced held (before ++ after) l := by
  refine ⟨h.total, ?_, ?_⟩
  · have hinUse := h.inUse
    rw [holders_middle] at hinUse
    simpa using hinUse
  · have hwaiting := h.waiting
    rwa [waiters_middle_of_ne (by simp)] at hwaiting

theorem insert_all_idle {idle : List Party} (hidle : ∀ p ∈ idle, p.2 = .idle)
    (h : Balanced held (before ++ after) l) : Balanced held (before ++ (idle ++ after)) l := by
  induction idle with
  | nil => exact h
  | cons p rest ih =>
    obtain ⟨who, standing⟩ := p
    obtain rfl : standing = .idle := hidle _ List.mem_cons_self
    exact insert_idle (ih fun q hq => hidle q (List.mem_cons_of_mem _ hq))

/-- **The balance holds when one party passes from one standing to another.** -/
theorem pass {s s' : Standing} {l' : Limiter} (h : Balanced held (before ++ (who, s) :: after) l)
    (hpass : Pass who l s s' l') : Balanced held (before ++ (who, s') :: after) l' := by
  obtain ⟨htotal, hinUse, hwaiting⟩ := h
  rw [holders_middle] at hinUse
  cases hpass with
  | stays =>
    refine ⟨htotal, ?_, hwaiting⟩
    rw [holders_middle]
    exact hinUse
  | takes free =>
    obtain ⟨hfree, rfl⟩ := Limiter.take?_eq free
    refine ⟨?_, ?_, ?_⟩
    · simp only [Limiter.total] at htotal ⊢
      omega
    · rw [holders_middle]
      simp only [reduceCtorEq, ↓reduceIte] at hinUse ⊢
      omega
    · rw [waiters_middle_of_ne (by simp)] at hwaiting ⊢
      exact hwaiting
  | joins =>
    refine ⟨htotal, ?_, ?_⟩
    · rw [holders_middle]
      exact hinUse
    · rw [waiters_middle_of_ne (by simp)] at hwaiting
      have hjoin : (l.join who).waiting = l.waiting ++ [who] := by
        simp only [Limiter.waiting, Limiter.join, List.append_assoc]
      rw [hjoin]
      exact (List.perm_append_singleton who _).trans
        ((hwaiting.cons who).trans (waiters_middle who before after).symm)
  | claims granted =>
    have hmem := Limiter.mem_granted granted
    have hlength := List.length_erase_of_mem hmem
    have hpos := List.length_pos_of_mem hmem
    refine ⟨?_, ?_, ?_⟩
    · simp only [Limiter.total, Limiter.claim, hlength] at htotal ⊢
      omega
    · rw [holders_middle]
      simp only [Limiter.claim, reduceCtorEq, ↓reduceIte] at hinUse ⊢
      omega
    · rw [waiters_middle_of_ne (by simp)]
      have hperm : (who :: (l.claim who).waiting).Perm l.waiting :=
        (List.perm_cons_erase hmem).symm.append_right l.queue
      exact (hperm.trans (hwaiting.trans (waiters_middle who before after))).cons_inv
  | withdraws =>
    have hmem : who ∈ l.waiting :=
      (hwaiting.trans (waiters_middle who before after)).mem_iff.mpr List.mem_cons_self
    refine ⟨?_, ?_, ?_⟩
    · rw [Limiter.withdraw_total, Limiter.withdraw_capacity]
      exact htotal
    · rw [holders_middle, Limiter.withdraw_inFlight]
      simpa using hinUse
    · rw [waiters_middle_of_ne (by simp)]
      exact ((Limiter.withdraw_waiting hmem).trans
        (hwaiting.trans (waiters_middle who before after))).cons_inv
  | releases =>
    simp only [↓reduceIte] at hinUse
    refine ⟨?_, ?_, ?_⟩
    · simp only [Limiter.release, Limiter.yield_total, Limiter.yield_capacity]
      simp only [Limiter.total] at htotal ⊢
      omega
    · rw [holders_middle]
      simp only [Limiter.release, Limiter.yield_inFlight, reduceCtorEq, ↓reduceIte]
      omega
    · rw [waiters_middle_of_ne (by simp)] at hwaiting ⊢
      exact (Limiter.yield_waiting _).trans hwaiting

theorem inFlight_le {parties : List Party} (h : Balanced held parties l) :
    l.inFlight ≤ l.capacity := by
  have htotal := h.total
  simp only [Limiter.total] at htotal
  omega

end Balanced

theorem Pass.capacity {who : Nat} {l l' : Limiter} {s s' : Standing} (h : Pass who l s s' l') :
    l'.capacity = l.capacity ∧ l'.patience = l.patience := by
  cases h with
  | stays => exact ⟨rfl, rfl⟩
  | takes free =>
    obtain ⟨_, rfl⟩ := Limiter.take?_eq free
    exact ⟨rfl, rfl⟩
  | joins => exact ⟨rfl, rfl⟩
  | claims granted => exact ⟨rfl, rfl⟩
  | withdraws => exact ⟨Limiter.withdraw_capacity l who, Limiter.withdraw_patience l who⟩
  | releases => exact ⟨Limiter.yield_capacity _, Limiter.yield_patience _⟩

end OrderAdmission
