import OrderAdmission.Gate

/-!
# Dry runs

A service that acknowledges every order by itself, after a random while. It is for trying out the
way of orders through the gate where no execution service is at hand.
-/
namespace OrderAdmission

/-- What a dry run draws at random: numbers, and identifiers by call and position. -/
structure Chance where
  number : Nat → Nat
  identifier : Nat → Nat → String

/-- A dry run with the calls it has seen. -/
structure DryRun where
  config : DryRunConfig
  singleCalls : Nat := 0
  bulkCalls : Nat := 0

namespace DryRun

def acknowledge (identifier : String) : Acknowledgement :=
  { reference := "dry-" ++ identifier, status := "SUBMITTED" }

/-- The simulated time of a call, at most the longest one. -/
def latency (c : DryRunConfig) (drawn : Nat) : Nat := drawn % (c.maxLatency + 1)

def single (d : DryRun) (chance : Chance) : Acknowledgement × DryRun :=
  (acknowledge (chance.identifier (2 * d.singleCalls + 1) 0),
    { d with singleCalls := d.singleCalls + 1 })

/-- Acknowledges this many orders at once. -/
def bulk (d : DryRun) (chance : Chance) (count : Nat) : List Acknowledgement × DryRun :=
  ((List.range count).map fun i => acknowledge (chance.identifier (2 * d.bulkCalls) i),
    { d with bulkCalls := d.bulkCalls + 1 })

def service (c : DryRunConfig) (chance : Chance) : Service :=
  { bulk := fun call orders =>
      let d : DryRun := { config := c, bulkCalls := call }
      .answers (latency c (chance.number (2 * call)))
        (.ok ((d.bulk chance orders.length).1.map .ok))
    single := fun call _ =>
      let d : DryRun := { config := c, singleCalls := call }
      .answers (latency c (chance.number (2 * call + 1))) (.ok (d.single chance).1) }

end DryRun

end OrderAdmission
