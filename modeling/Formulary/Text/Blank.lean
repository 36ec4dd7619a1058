/-!
# Blank characters

Formulas may be spaced in any way: `compact` removes every blank character, and positions in reports
count the characters that are left. `trim` removes blanks from the two ends only.
-/

namespace Formulary.Text

/-- White space: the separators of categories Zs, Zl and Zp, the ASCII white space, the four
information separators and the next-line character. -/
def isBlank (c : Char) : Bool :=
  let n := c.toNat
  (0x09 ≤ n && n ≤ 0x0d) || (0x1c ≤ n && n ≤ 0x20) || n == 0x85 || n == 0xa0 || n == 0x1680 ||
    (0x2000 ≤ n && n ≤ 0x200a) || n == 0x2028 || n == 0x2029 || n == 0x202f || n == 0x205f ||
    n == 0x3000

/-- The text without its blanks. -/
def compact (text : List Char) : List Char := text.filter (!isBlank ·)

/-- The text without the blanks at its ends. -/
def trim (text : List Char) : List Char :=
  ((text.dropWhile isBlank).reverse.dropWhile isBlank).reverse

/-- A text without blanks is compact already. -/
theorem compact_compact (text : List Char) : compact (compact text) = compact text := by
  simp [compact]

end Formulary.Text
