/-!
# Small letters

Small letters, as far as they decide whether a text is one of a few words of the letters `a` to
`z`. The capital letters `A` to `Z` have these as their small letters, and so has the Kelvin sign,
whose small letter is `k`. The small letters of every other character lie outside `a` to `z`, so a
text that holds one is none of the words before and after.
-/
namespace OrderAdmission.Text

/-- The small letter of a character, where that is one of `a` to `z`; any other character stays. -/
def small (c : Char) : Char :=
  if c = Char.ofNat 0x212A then 'k' else c.toLower

/-- A text in small letters. -/
def lower (s : String) : String := String.ofList (s.toList.map small)

end OrderAdmission.Text
