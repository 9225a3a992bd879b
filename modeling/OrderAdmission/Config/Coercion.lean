import OrderAdmission.Config.Decode
import OrderAdmission.Number.Binary
import OrderAdmission.Text.LetterCase

/-!
# Lenient readings of settings

Reading settings with liberty: values of one kind stand for values of another.

A number stands for a truth value, a truth value for a number, a text for whatever it writes, and
any of them for a text. A binary number is rounded where a whole one is asked for. Tables and lists
stand for nothing else.
-/
namespace OrderAdmission

/-- The words that mean true, and those that mean false. -/
def affirmative : List String := ["true", "on", "yes"]

def negative : List String := ["false", "off", "no"]

def wordFlag? (s : String) : Option Bool :=
  let w := Text.lower s
  if affirmative.contains w then some true
  else if negative.contains w then some false
  else none

namespace SettingReader

/-- A truth value: a number is true unless it is zero, and a text may also be one of the digits
`1` and `0`. -/
def lenientFlag : Json → Option Bool
  | .bool b => some b
  | .int n => some (n != 0)
  | .float x => some (!(x == 0.0))
  | .str "1" => some true
  | .str "0" => some false
  | .str s => wordFlag? s
  | _ => none

/-- A text: numbers and truth values are written out. -/
def lenientText : Json → Option String
  | .str s => some s
  | .bool true => some "true"
  | .bool false => some "false"
  | .int n => some (Number.intText n)
  | .float x => some (Number.floatText x)
  | _ => none

/-- The whole number that a value stands for, before its range is looked at. -/
def wholeNumber? : Json → Option Int
  | .int n => some n
  | .bool b => some (if b then 1 else 0)
  | .float x => some (Number.roundWord x)
  | .str s =>
    match wordFlag? s with
    | some b => some (if b then 1 else 0)
    | none => ((Number.natural? s.toList).filter (· ≤ maxWord)).map fun n => (n : Int)
  | _ => none

/-- A natural number with at most this many bits. -/
def lenientCount (bits : Nat) (j : Json) : Option Nat :=
  match wholeNumber? j with
  | some n => if 0 ≤ n ∧ n < Nat.pow 2 bits then some n.toNat else none
  | none => none

def lenientRatio : Json → Option Float
  | .bool b => some (if b then 1.0 else 0.0)
  | .str s =>
    match wordFlag? s with
    | some b => some (if b then 1.0 else 0.0)
    | none => Number.float? s.toList
  | j => Json.asFloat j

/-- The fields of a section; what a list has beyond them is passed over. -/
def lenientFields (count : Nat) : Json → Option Json.Fields
  | .arr items => some (.listed (items.take count))
  | j => j.fields? count

def lenient : SettingReader :=
  { fields := lenientFields, flag := lenientFlag, text := lenientText, count := lenientCount,
    ratio := lenientRatio }

end SettingReader

end OrderAdmission
