import Mathlib.Logic.Relation
import OrderAdmission.Proofs.Turns

/-!
# Courses of an engine

A *move* is one thing that can happen to an engine: somebody who is able to go on is served, or,
when nobody is, the clock moves to the next due time. A *course* is any sequence of moves. Whoever
is able to go on may be served next, so that a statement about all courses is a statement about
every order in which tasks and jobs are interleaved.

The engine's own run serves by turn numbers. The main result is `run_course`: **forgetting the turn
numbers, every run is a course**.
-/
namespace OrderAdmission

variable {P R : Type}

namespace Engine

/-! ### The first of several -/

theorem foldl_firstTurn_le (xs : List (Option Nat)) (start : Option Nat) (t : Nat)
    (h : xs.foldl firstTurn start = some t) :
    (∀ s, start = some s → t ≤ s) ∧ ∀ s, some s ∈ xs → t ≤ s := by
  induction xs generalizing start with
  | nil =>
    refine ⟨?_, by simp⟩
    intro s hs
    rw [List.foldl_nil, hs] at h
    exact Nat.le_of_eq (Option.some.inj h).symm
  | cons x xs ih =>
    obtain ⟨hstart, hrest⟩ := ih (firstTurn start x) h
    have hboth : (∀ s, start = some s → t ≤ s) ∧ ∀ s, x = some s → t ≤ s := by
      cases start with
      | none => exact ⟨by simp, fun s hs => hstart s (by simp [firstTurn, hs])⟩
      | some a =>
        cases x with
        | none => exact ⟨fun s hs => hstart s (by simpa [firstTurn] using hs), by simp⟩
        | some b =>
          have hmin : t ≤ min a b := hstart (min a b) rfl
          refine ⟨fun s hs => ?_, fun s hs => ?_⟩
          · rw [← Option.some.inj hs]
            omega
          · rw [← Option.some.inj hs]
            omega
    refine ⟨hboth.1, ?_⟩
    intro s hs
    rcases List.mem_cons.mp hs with hx | hx
    · exact hboth.2 s hx.symm
    · exact hrest s hx

theorem foldl_firstTurn_mem (xs : List (Option Nat)) (start : Option Nat) (t : Nat)
    (h : xs.foldl firstTurn start = some t) : start = some t ∨ some t ∈ xs := by
  induction xs generalizing start with
  | nil => exact Or.inl h
  | cons x xs ih =>
    rcases ih (firstTurn start x) h with hfirst | hrest
    · cases start with
      | none => exact Or.inr (by simp only [firstTurn] at hfirst; simp [hfirst])
      | some a =>
        cases x with
        | none => exact Or.inl (by simpa only [firstTurn] using hfirst)
        | some b =>
          have hmin : min a b = t := Option.some.inj hfirst
          rcases Nat.le_total a b with hab | hba
          · exact Or.inl (by rw [← hmin, Nat.min_eq_left hab])
          · exact Or.inr (by rw [← hmin, Nat.min_eq_right hba]; simp)
    · exact Or.inr (List.mem_cons_of_mem x hrest)

theorem foldl_firstTurn_eq_none (xs : List (Option Nat)) (start : Option Nat)
    (h : xs.foldl firstTurn start = none) : start = none ∧ ∀ x ∈ xs, x = none := by
  induction xs generalizing start with
  | nil => exact ⟨h, by simp⟩
  | cons x xs ih =>
    obtain ⟨hfirst, hrest⟩ := ih (firstTurn start x) h
    cases start with
    | none => exact ⟨rfl, by simpa [firstTurn] using ⟨hfirst, hrest⟩⟩
    | some a => cases x <;> cases hfirst

/-- The lowest number over two lists is somebody's own, and no number lies below it. -/
theorem firstTurn_spec {α β : Type} {f : α → Option Nat} {g : β → Option Nat} {xs : List α}
    {ys : List β} {t : Nat}
    (h : firstTurn ((xs.map f).foldl firstTurn none) ((ys.map g).foldl firstTurn none) = some t) :
    ((∃ x ∈ xs, f x = some t) ∨ ∃ y ∈ ys, g y = some t) ∧
      (∀ x ∈ xs, ∀ s, f x = some s → t ≤ s) ∧ ∀ y ∈ ys, ∀ s, g y = some s → t ≤ s := by
  have hfold : [(ys.map g).foldl firstTurn none].foldl firstTurn
      ((xs.map f).foldl firstTurn none) = some t := h
  obtain ⟨hxs, hys⟩ := foldl_firstTurn_le _ _ _ hfold
  -- A list whose lowest number is not below `t` has no number below `t`.
  have hall {γ : Type} (k : γ → Option Nat) (zs : List γ)
      (hk : ∀ s, (zs.map k).foldl firstTurn none = some s → t ≤ s) :
      ∀ z ∈ zs, ∀ s, k z = some s → t ≤ s := by
    intro z hz s hs
    have hmem : some s ∈ zs.map k := List.mem_map.mpr ⟨z, hz, hs⟩
    cases hfirst : (zs.map k).foldl firstTurn none with
    | none => exact absurd ((foldl_firstTurn_eq_none _ _ hfirst).2 _ hmem) (by simp)
    | some r => exact Nat.le_trans (hk r hfirst) ((foldl_firstTurn_le _ _ _ hfirst).2 s hmem)
  refine ⟨?_, hall f xs hxs, hall g ys fun s hs => hys s (by simp [hs])⟩
  rcases foldl_firstTurn_mem _ _ _ hfold with hx | hy
  · have hmem := foldl_firstTurn_mem _ _ _ hx
    simp only [reduceCtorEq, List.mem_map, false_or] at hmem
    exact Or.inl hmem
  · have hmem := foldl_firstTurn_mem _ _ _ (List.mem_singleton.mp hy).symm
    simp only [reduceCtorEq, List.mem_map, false_or] at hmem
    exact Or.inr hmem

theorem firstTurn_eq_none {α β : Type} {f : α → Option Nat} {g : β → Option Nat} {xs : List α}
    {ys : List β}
    (h : firstTurn ((xs.map f).foldl firstTurn none) ((ys.map g).foldl firstTurn none) = none) :
    (∀ x ∈ xs, f x = none) ∧ ∀ y ∈ ys, g y = none := by
  obtain ⟨hxs, hys⟩ := foldl_firstTurn_eq_none [(ys.map g).foldl firstTurn none] _ h
  refine ⟨fun x hx => ?_, fun y hy => ?_⟩
  · exact (foldl_firstTurn_eq_none _ _ hxs).2 _ (List.mem_map_of_mem hx)
  · exact (foldl_firstTurn_eq_none _ none (hys _ (List.mem_singleton.mpr rfl))).2 _
      (List.mem_map_of_mem hy)

/-! ### Moves -/

/-- Nobody is able to go on. -/
structure Quiet (e : Engine P R) : Prop where
  workers : ∀ w ∈ e.workers, w.isReady e.limiter e.now = false
  jobs : ∀ j ∈ e.jobs, j.isReady e = false

/-- One thing that can happen, whoever is served first. -/
inductive Move : Engine P R → Engine P R → Prop where
  | worker {e : Engine P R} {w : Worker P R} (member : w ∈ e.workers)
      (ready : w.isReady e.limiter e.now = true) : Move e (e.serveWorker w)
  | job {e : Engine P R} {j : Job P R} (member : j ∈ e.jobs) (ready : j.isReady e = true) :
      Move e (e.serveJob j)
  | tick {e : Engine P R} {time : Nat} (quiet : e.Quiet) (due : e.due? = some time) :
      Move e { e with now := time }

/-- Any number of moves, one after another. -/
abbrev Course : Engine P R → Engine P R → Prop := Relation.ReflTransGen Move

theorem Course.keeps {I : Engine P R → Prop} (hmove : ∀ {e e'}, Move e e' → I e → I e')
    {e e' : Engine P R} (hcourse : Course e e') (h : I e) : I e' := by
  induction hcourse with
  | refl => exact h
  | tail _ hlast ih => exact hmove hlast ih

theorem due?_unturned (e : Engine P R) : e.unturned.due? = e.due? := by
  simp only [due?, unturned, List.map_map]
  rfl

/-! ### Calling up -/

/-- Exactly those who are able to go on have a turn number. -/
structure Called (e : Engine P R) : Prop where
  workers : ∀ w ∈ e.workers, w.turn.isSome = w.isReady e.limiter e.now
  jobs : ∀ j ∈ e.jobs, j.turn.isSome = j.isReady e

theorem callWorkers_unturned (e : Engine P R) (ws : List (Worker P R)) (next : Nat) :
    (e.callWorkers ws next).1.map (·.unturned) = ws.map (·.unturned) := by
  induction ws generalizing next with
  | nil => rfl
  | cons w rest ih =>
    simp only [callWorkers]
    split
    · split
      · simp only [List.map_cons, ih]
      · simp only [List.map_cons, ih]
        rfl
    · simp only [List.map_cons, ih]
      rfl

theorem callJobs_unturned (e : Engine P R) (js : List (Job P R)) (next : Nat) :
    (e.callJobs js next).1.map (·.unturned) = js.map (·.unturned) := by
  induction js generalizing next with
  | nil => rfl
  | cons j rest ih =>
    simp only [callJobs]
    split
    · split
      · simp only [List.map_cons, ih]
      · simp only [List.map_cons, ih]
        rfl
    · simp only [List.map_cons, ih]
      rfl

theorem callWorkers_called (e : Engine P R) (ws : List (Worker P R)) (next : Nat) :
    ∀ w ∈ (e.callWorkers ws next).1, w.turn.isSome = w.isReady e.limiter e.now := by
  induction ws generalizing next with
  | nil => simp [callWorkers]
  | cons w rest ih =>
    simp only [callWorkers]
    split
    · rename_i hready
      split
      · rename_i turn hturn
        simp only [List.mem_cons, forall_eq_or_imp]
        exact ⟨by rw [hturn, hready]; rfl, ih next⟩
      · simp only [List.mem_cons, forall_eq_or_imp]
        exact ⟨hready.symm, ih (next + 1)⟩
    · rename_i hready
      simp only [List.mem_cons, forall_eq_or_imp]
      exact ⟨(eq_false_of_ne_true hready).symm, ih next⟩

theorem callJobs_called (e : Engine P R) (js : List (Job P R)) (next : Nat) :
    ∀ j ∈ (e.callJobs js next).1, j.turn.isSome = j.isReady e := by
  induction js generalizing next with
  | nil => simp [callJobs]
  | cons j rest ih =>
    simp only [callJobs]
    split
    · rename_i hready
      split
      · rename_i turn hturn
        simp only [List.mem_cons, forall_eq_or_imp]
        exact ⟨by rw [hturn, hready]; rfl, ih next⟩
      · simp only [List.mem_cons, forall_eq_or_imp]
        exact ⟨hready.symm, ih (next + 1)⟩
    · rename_i hready
      simp only [List.mem_cons, forall_eq_or_imp]
      exact ⟨(eq_false_of_ne_true hready).symm, ih next⟩

theorem isReady_congr {e e' : Engine P R} (h : e.unturned = e'.unturned) (j : Job P R) :
    j.isReady e = j.isReady e' := by
  rw [← isReady_unturned e j, h, isReady_unturned e' j]

@[simp] theorem unturned_callAfterTurn (e : Engine P R) :
    e.callAfterTurn.unturned = e.unturned := by
  simp only [callAfterTurn, unturned, callWorkers_unturned, callJobs_unturned]

@[simp] theorem unturned_callAfterTick (e : Engine P R) :
    e.callAfterTick.unturned = e.unturned := by
  simp only [callAfterTick, unturned, callWorkers_unturned, callJobs_unturned]

theorem called_callAfterTurn (e : Engine P R) : e.callAfterTurn.Called := by
  refine ⟨fun w hw => callWorkers_called e _ _ w hw, fun j hj => ?_⟩
  rw [isReady_congr (unturned_callAfterTurn e) j]
  exact callJobs_called e _ _ j hj

theorem called_callAfterTick (e : Engine P R) : e.callAfterTick.Called := by
  refine ⟨fun w hw => callWorkers_called e _ _ w hw, fun j hj => ?_⟩
  rw [isReady_congr (unturned_callAfterTick e) j]
  exact callJobs_called e _ _ j hj

/-! ### Steps are moves -/

theorem quiet_of_turn? {e : Engine P R} (hcalled : e.Called) (h : e.turn? = none) :
    e.unturned.Quiet := by
  obtain ⟨hworkers, hjobs⟩ := firstTurn_eq_none h
  refine ⟨?_, ?_⟩
  · intro w' hw'
    obtain ⟨w, hw, rfl⟩ := List.mem_map.mp hw'
    have hnone : w.turn.isSome = false := by rw [hworkers w hw]; rfl
    exact (hcalled.workers w hw).symm.trans hnone
  · intro j' hj'
    obtain ⟨j, hj, rfl⟩ := List.mem_map.mp hj'
    have hnone : j.turn.isSome = false := by rw [hjobs j hj]; rfl
    rw [isReady_unturned]
    exact (hcalled.jobs j hj).symm.trans hnone

/-- Every step serves somebody who is able to go on, or moves the clock when nobody is. -/
theorem step_move {e e' : Engine P R} (hcalled : e.Called) (h : e.step = some e') :
    Move e.unturned e'.unturned ∧ e'.Called := by
  unfold step at h
  cases hturn : e.turn? with
  | some turn =>
    rw [hturn] at h
    have he' : (e.serve turn).callAfterTurn = e' := Option.some.inj h
    subst he'
    refine ⟨?_, called_callAfterTurn _⟩
    rw [unturned_callAfterTurn]
    unfold serve
    cases hw : e.workers.find? fun w => w.turn == some turn with
    | some w =>
      have hmem := List.mem_of_find?_eq_some hw
      have hfound : w.turn = some turn := by simpa using List.find?_some hw
      have hready : w.isReady e.limiter e.now = true := by
        rw [← hcalled.workers w hmem, hfound]
        rfl
      simp only
      rw [← unturned_serveWorker]
      exact Move.worker (List.mem_map_of_mem hmem) hready
    | none =>
      cases hj : e.jobs.find? fun j => j.turn == some turn with
      | some j =>
        have hmem := List.mem_of_find?_eq_some hj
        have hfound : j.turn = some turn := by simpa using List.find?_some hj
        have hready : j.isReady e = true := by
          rw [← hcalled.jobs j hmem, hfound]
          rfl
        simp only
        rw [← unturned_serveJob]
        exact Move.job (List.mem_map_of_mem hmem) ((isReady_unturned e j).trans hready)
      | none =>
        rcases (firstTurn_spec hturn).1 with ⟨w, hmem, hw'⟩ | ⟨j, hmem, hj'⟩
        · exact absurd hw' (by simpa using List.find?_eq_none.mp hw w hmem)
        · exact absurd hj' (by simpa using List.find?_eq_none.mp hj j hmem)
  | none =>
    rw [hturn] at h
    cases hdue : e.due? with
    | none => simp [hdue] at h
    | some time =>
      simp only [hdue, Option.some.injEq] at h
      subst h
      refine ⟨?_, called_callAfterTick _⟩
      rw [unturned_callAfterTick]
      exact Move.tick (quiet_of_turn? hcalled hturn) ((due?_unturned e).trans hdue)

/-- Nobody will ever be able to go on. -/
structure Settled (e : Engine P R) : Prop where
  quiet : e.Quiet
  due : e.due? = none

theorem settled_of_step {e : Engine P R} (hcalled : e.Called) (h : e.step = none) :
    e.unturned.Settled := by
  unfold step at h
  cases hturn : e.turn? with
  | some turn => simp [hturn] at h
  | none =>
    rw [hturn] at h
    cases hdue : e.due? with
    | some time => simp [hdue] at h
    | none =>
      exact ⟨quiet_of_turn? hcalled hturn, (due?_unturned e).trans hdue⟩

theorem runFor_course (steps : Nat) {e : Engine P R} (hcalled : e.Called) :
    Course e.unturned (runFor steps e).unturned := by
  induction steps generalizing e with
  | zero => exact Relation.ReflTransGen.refl
  | succ steps ih =>
    unfold runFor
    cases hstep : e.step with
    | none => exact Relation.ReflTransGen.refl
    | some e' =>
      obtain ⟨hmove, hcalled'⟩ := step_move hcalled hstep
      exact Relation.ReflTransGen.head hmove (ih hcalled')

/-- **Every run is a course**, once turn numbers are forgotten. -/
theorem run_course (e : Engine P R) : Course e.unturned e.run.unturned := by
  have hcourse := runFor_course (2 * e.callAfterTurn.work + 2) (called_callAfterTurn e)
  rwa [unturned_callAfterTurn] at hcourse

end Engine

end OrderAdmission
