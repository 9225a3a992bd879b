/-!
# Conducts of collaborators

What a collaborator does once it is asked.

A downstream service or a store answers after some time, breaks off after some time, or never
says anything. `Conduct` is that behaviour as data, so that the rules for waiting, for deadlines
and for who is served first can be stated without knowing who the collaborator is.

A conduct is read twice: first with times counted from the request, then, after `Conduct.since`,
with times on the common clock.
-/
namespace OrderAdmission

/-- What a collaborator does once it is asked; times are in milliseconds. -/
inductive Conduct (α : Type) where
  | answers (time : Nat) (answer : α)
  /-- It breaks off at the given time, without an answer. -/
  | breaksOff (time : Nat)
  | hangs
  deriving Repr

namespace Conduct

variable {α : Type}

/-- The same conduct on the common clock, for a request made at `now`. -/
def since (now : Nat) : Conduct α → Conduct α
  | answers d a => answers (now + d) a
  | breaksOff d => breaksOff (now + d)
  | hangs => hangs

/-- When something comes back, if ever. -/
def due? : Conduct α → Option Nat
  | answers t _ => some t
  | breaksOff t => some t
  | hangs => none

def arrived (c : Conduct α) (now : Nat) : Bool :=
  match c.due? with
  | some t => decide (t ≤ now)
  | none => false

/-- What has come back by `now`: nothing yet, an answer, or that the collaborator broke off. -/
def reply? (c : Conduct α) (now : Nat) : Option (Option α) :=
  match c with
  | answers t a => if t ≤ now then some (some a) else none
  | breaksOff t => if t ≤ now then some none else none
  | hangs => none

theorem arrived_eq_isSome (c : Conduct α) (now : Nat) : c.arrived now = (c.reply? now).isSome := by
  cases c <;> simp only [arrived, due?, reply?, Option.isSome_none] <;> split <;> simp_all

end Conduct

/-- The earlier of a time that may never come and a deadline. -/
def earlier (due : Option Nat) (deadline : Nat) : Nat :=
  match due with
  | some t => min t deadline
  | none => deadline

end OrderAdmission
