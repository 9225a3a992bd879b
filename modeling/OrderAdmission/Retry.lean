import OrderAdmission.Config.Basic
import OrderAdmission.Downstream
import OrderAdmission.Number.Binary

/-!
# The retry policy

The policy of bulk calls says which failures call for another attempt, how long to wait before it,
and how much time all attempts together may take.

Delays grow by a factor. The factor is raised to its power by repeated squaring, in binary
floating-point arithmetic; the delay is cut to whole milliseconds and kept in a word. A sum of
delays is a time span, which has room for a word of whole seconds.
-/
namespace OrderAdmission

/-- `result * base ^ n` by repeated squaring: for each binary digit of `n` from the lowest, the
result is multiplied by the square reached so far if the digit is one. -/
def powerBySquaring (base result : Float) (n : Nat) : Float :=
  let result := if n % 2 = 1 then result * base else result
  if n / 2 = 0 then result else powerBySquaring (base * base) result (n / 2)
termination_by n

namespace RetryConfig

/-- The longest exponent of the factor. -/
def maxExponent : Nat := 0x7FFFFFFF

/-- The delay before the retry with this number, counted from zero. -/
def delay (c : RetryConfig) (retry : Nat) : Nat :=
  let factor := powerBySquaring (Number.fmax c.multiplier 1.0) 1.0 (min retry maxExponent)
  let ms := Number.fmin (Number.ofWord c.baseDelay * factor) (Number.ofWord maxWord)
  ms.toUInt64.toNat

/-- A time span in milliseconds, or a crash where its seconds do not fit a word. -/
def checkedSpan (ms : Nat) : Except Crash Nat :=
  if ms / 1000 ≤ maxWord then .ok ms else .error .overflow

/-- The sum of the delays of `count` retries from the retry `k` on, on top of `sum`. -/
def sumDelays (c : RetryConfig) (k sum : Nat) : Nat → Except Crash Nat
  | 0 => .ok sum
  | count + 1 => do
    let sum ← checkedSpan (sum + c.delay k)
    c.sumDelays (k + 1) sum count

def totalBackoff (c : RetryConfig) : Except Crash Nat := c.sumDelays 0 0 c.maxRetries

/-- The time that all attempts and delays together may take: one call and all delays. -/
def totalBudget (c : RetryConfig) (callTimeout : Nat) : Except Crash Nat := do
  checkedSpan (callTimeout + (← c.totalBackoff))

/-- Whether a failure calls for another attempt and for fallback: its status code is one of the
configured ones, or its class is about the way to the service. -/
def triggers (c : RetryConfig) (f : DownstreamFailure) : Bool :=
  (match f.status with
    | some code => c.triggerStatusCodes.contains code
    | none => false) || f.kind.isTransient

end RetryConfig

end OrderAdmission
