import FilterQuery.Text.Fold

/-!
# Globs

A glob is a text in which a star stands for any run of characters other than line feeds. A text is
matched as a whole. The matcher works through the text from its end and keeps, for each suffix of the
pattern, whether that suffix matches the part of the text seen so far; so its cost is the product of
the two lengths, however many stars there are.
-/

namespace FilterQuery

/-- A pattern with stars. -/
structure Glob where
  pattern : List Char
  /-- Whether letters match up to case. -/
  ignoreCase : Bool
deriving DecidableEq

namespace Glob

/-- The character that stands for any run of characters. -/
def star : Char := '*'

/-- Whether a star may run over the character. -/
def isRunChar (c : Char) : Bool := c != '\n'

/-- For each suffix of a pattern, from the pattern itself to the empty one, whether it matches the
empty text. -/
def emptyRow : List Char → List Bool
  | [] => [true]
  | x :: pattern =>
    let row := emptyRow pattern
    (x == star && row.headD false) :: row

/-- For each suffix of a pattern, whether it matches the text `c :: text`, given the answers for
`text`. -/
def nextRow (ignoreCase : Bool) (c : Char) : List Char → List Bool → List Bool
  | [], _ => [false]
  | x :: pattern, answers =>
    let below := nextRow ignoreCase c pattern answers.tail
    let hit :=
      if x = star then below.headD false || (isRunChar c && answers.headD false)
      else Text.sameChar ignoreCase x c && answers.tail.headD false
    hit :: below

/-- For each suffix of a pattern, whether it matches the text. -/
def rows (ignoreCase : Bool) (pattern : List Char) : List Char → List Bool
  | [] => emptyRow pattern
  | c :: text => nextRow ignoreCase c pattern (rows ignoreCase pattern text)

/-- Whether the glob matches the whole of a text. -/
def accepts (g : Glob) (text : String) : Bool :=
  (rows g.ignoreCase g.pattern text.toList).headD false

end Glob

end FilterQuery
