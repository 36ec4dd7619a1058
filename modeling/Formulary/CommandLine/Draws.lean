/-!
# Random draws by number

A sequence of draws is a function: the draw with a given number is found without those before it.
The numbers are spread over 64 bits by an odd step and then mixed, each mixing step being one that
loses nothing; the upper 53 bits are the draw.
-/

namespace Formulary.CommandLine

/-- A word with its upper bits carried into its lower ones. -/
def spread (shift : UInt64) (word : UInt64) : UInt64 := word ^^^ (word >>> shift)

/-- A word whose bits all depend on all bits of the given one. -/
def mixed (word : UInt64) : UInt64 :=
  spread 31 (spread 27 (spread 30 word * 0xbf58476d1ce4e5b9) * 0x94d049bb133111eb)

/-- The draw with a number, from 0 up to but not including 1. -/
def uniformDraw (seed : UInt64) (number : Nat) : Float :=
  (mixed (seed + (UInt64.ofNat number + 1) * 0x9e3779b97f4a7c15) >>> 11).toFloat / 9007199254740992.0

end Formulary.CommandLine
