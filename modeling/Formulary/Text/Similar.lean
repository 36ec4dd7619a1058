/-!
# Similar names

A report about an unknown name suggests names that look like it. Two texts are compared by their
matching blocks: the longest block of characters that both have, then, on its left and on its right,
the longest blocks of what is left there, and so on. With `m` characters in matching blocks out of
`t` characters in both texts together, the similarity is `2 * m / t`.

In a long text, characters that make up more than a hundredth of it say little. They start no block,
though a block may grow over them.

## Shape of the search

`longestBlock` is a dynamic program over the columns of the second text: row by row it keeps, for
each column, the length of the block that ends there. The recursion of `matching` goes to the left
and right of that block; as each call gets two shorter texts, their joint length bounds it.
-/

namespace Formulary.Text

/-- A block that two texts share: its start in either, and its length. -/
structure Block where
  left : Nat
  right : Nat
  size : Nat

/-- One row of the table: from the lengths of the blocks that end in the row above, those that end
in this row. `above` runs one column behind. -/
private def nextRow (startsBlock : Char → Bool) (c : Char) : (diagonal : Nat) → List Nat →
    List Char → List Nat
  | diagonal, above :: row, d :: ds =>
    (if c = d ∧ startsBlock d then diagonal + 1 else 0) :: nextRow startsBlock c above row ds
  | _, _, _ => []

/-- The first of the longest entries of a row that is longer than `best`. -/
private def improve (rowIndex : Nat) : (column : Nat) → List Nat → Block → Block
  | _, [], best => best
  | column, k :: row, best =>
    improve rowIndex (column + 1) row
      (if best.size < k then ⟨rowIndex + 1 - k, column + 1 - k, k⟩ else best)

private def scanRows (startsBlock : Char → Bool) (second : List Char) :
    (rowIndex : Nat) → List Nat → List Char → Block → Block
  | _, _, [], best => best
  | rowIndex, above, c :: cs, best =>
    let row := nextRow startsBlock c 0 above second
    scanRows startsBlock second (rowIndex + 1) row cs (improve rowIndex 0 row best)

/-- The length of the longest common beginning. -/
private def commonLength : List Char → List Char → Nat
  | c :: cs, d :: ds => if c = d then commonLength cs ds + 1 else 0
  | _, _ => 0

/-- The longest block whose characters all start blocks, the first one in the first text and then in
the second, extended as far as the texts agree on both sides. -/
def longestBlock (startsBlock : Char → Bool) (first second : List Char) : Block :=
  let core := scanRows startsBlock second 0 (List.replicate second.length 0) first ⟨0, 0, 0⟩
  let back := commonLength (first.take core.left).reverse (second.take core.right).reverse
  let ahead := commonLength (first.drop (core.left + core.size))
    (second.drop (core.right + core.size))
  ⟨core.left - back, core.right - back, back + core.size + ahead⟩

/-- The number of characters in matching blocks; `bound` is at least the joint length. -/
private def matchingWithin (startsBlock : Char → Bool) : (bound : Nat) →
    List Char → List Char → Nat
  | 0, _, _ => 0
  | bound + 1, first, second =>
    let block := longestBlock startsBlock first second
    if block.size = 0 then 0
    else
      matchingWithin startsBlock bound (first.take block.left) (second.take block.right) +
        block.size +
        matchingWithin startsBlock bound (first.drop (block.left + block.size))
          (second.drop (block.right + block.size))

/-- Texts from this length on have characters that are too frequent to start a block. -/
def longText : Nat := 200

/-- The characters that are too frequent in `text` to start a block. -/
def frequentChars (text : List Char) : List Char :=
  if text.length < longText then []
  else
    let bound := text.length / 100 + 1
    text.eraseDups.filter fun c => bound < text.count c

/-- The number of characters in matching blocks of a candidate and a target. -/
def matching (candidate target : List Char) : Nat :=
  let frequent := frequentChars target
  matchingWithin (fun c => !frequent.contains c) (candidate.length + target.length) candidate target

/-- A candidate with its similarity to a target, which is `2 * matched / total`. -/
structure Likeness where
  name : String
  matched : Nat
  total : Nat

/-- The similarity of `name` to `target`. -/
def likeness (target name : String) : Likeness :=
  ⟨name, matching name.toList target.toList, name.length + target.length⟩

/-- Similar enough to be suggested: at least 0.6. -/
def Likeness.isClose (l : Likeness) : Bool := 3 * l.total ≤ 10 * l.matched

/-- Suggestions come most similar first, and equally similar ones with the greatest name first. -/
def Likeness.comesBefore (a b : Likeness) : Bool :=
  let x := a.matched * b.total
  let y := b.matched * a.total
  y < x || (x == y && !decide (a.name < b.name))

/-- At most `count` of the names that are similar to `target`. -/
def similarNames (target : String) (names : List String) (count : Nat) : List String :=
  if target.isEmpty then []
  else
    let close := (names.map (likeness target)).filter Likeness.isClose
    ((close.mergeSort Likeness.comesBefore).take count).map (·.name)

end Formulary.Text
