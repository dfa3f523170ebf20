import Vyakarana.Text.Blank

/-!
# Tables in boxes

Tables drawn with line characters: rounded corners, a double line under the heading, and no lines
between the rows. Every column is as wide as its widest cell. The lines are those of the third-party
`comfy_table` library, which draws the table of rules.
-/

namespace Vyakarana

/-- Where a cell stands in its column. -/
inductive Alignment where
  | left | right
deriving DecidableEq, Repr

/-- A table with a heading. -/
structure BoxTable where
  /-- The heading and the alignment of each column. -/
  columns : List (Text × Alignment)
  rows : List (List Text)
deriving Repr

namespace BoxTable

/-- The widths of the columns, after one more row. -/
def widen (widths : List Nat) (row : List Text) : List Nat :=
  widths.zipWith (fun width cell => max width cell.length) row

/-- The widths of the columns. -/
def widths (t : BoxTable) : List Nat :=
  t.rows.foldl widen (t.columns.map fun c => c.1.length)

/-- A cell of some width, with a blank at either side. -/
def cell (alignment : Alignment) (width : Nat) (content : Text) : Text :=
  let padding := List.replicate (width - content.length) ' '
  match alignment with
  | .left => ' ' :: content ++ padding ++ [' ']
  | .right => ' ' :: padding ++ content ++ [' ']

/-- A line of cells. -/
def rowLine (alignments : List Alignment) (widths : List Nat) (row : List Text) : Text :=
  let cells := (alignments.zip (widths.zip row)).map fun (a, w, c) => cell a w c
  '│' :: ['┆'].intercalate cells ++ ['│']

/-- A line between rows. -/
def ruleLine (left fill joint right : Char) (widths : List Nat) : Text :=
  left :: [joint].intercalate (widths.map fun w => List.replicate (w + 2) fill) ++ [right]

/-- The lines of the drawn table. -/
def lines (t : BoxTable) : List Text :=
  let widths := t.widths
  let row := rowLine (t.columns.map Prod.snd) widths
  [ruleLine '╭' '─' '┬' '╮' widths, row (t.columns.map Prod.fst),
    ruleLine '╞' '═' '╪' '╡' widths] ++ t.rows.map row ++ [ruleLine '╰' '─' '┴' '╯' widths]

/-- The drawn table. -/
def draw (t : BoxTable) : Text := ['\n'].intercalate t.lines

end BoxTable

end Vyakarana
