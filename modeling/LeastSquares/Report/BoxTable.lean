/-!
# Tables in a frame

A table is framed by box-drawing characters. A column is as wide as its widest cell, and a cell is
padded with one blank on either side. A double line stands below the header, and a dashed one
between two rows.
-/

set_option autoImplicit false

namespace LeastSquares

inductive Alignment where
  | left
  | right

structure BoxTable where
  header : List String
  alignments : List Alignment
  rows : List (List String)

namespace BoxTable

structure Rule where
  first : String
  fill : Char
  between : String
  last : String

def top : Rule := ⟨"┌", '─', "┬", "┐"⟩
def belowHeader : Rule := ⟨"╞", '═', "╪", "╡"⟩
def betweenRows : Rule := ⟨"├", '╌', "┼", "┤"⟩
def bottom : Rule := ⟨"└", '─', "┴", "┘"⟩

def blanks (count : Nat) : String := String.ofList (List.replicate count ' ')

def pad (width : Nat) (alignment : Alignment) (text : String) : String :=
  let missing := blanks (width - text.length)
  match alignment with
  | .left => text ++ missing
  | .right => missing ++ text

def widths (T : BoxTable) : List Nat :=
  T.rows.foldl (fun acc row => List.zipWith max acc (row.map String.length))
    (T.header.map String.length)

def Rule.line (rule : Rule) (widths : List Nat) : String :=
  rule.first ++
    rule.between.intercalate
      (widths.map fun width => String.ofList (List.replicate (width + 2) rule.fill)) ++
    rule.last

def rowLine (widths : List Nat) (alignments : List Alignment) (row : List String) : String :=
  let cells := List.zipWith (fun width cell => pad width cell.1 cell.2) widths (alignments.zip row)
  "│" ++ "┆".intercalate (cells.map fun cell => " " ++ cell ++ " ") ++ "│"

def lines (T : BoxTable) : List String :=
  let widths := T.widths
  let body := (T.rows.map (rowLine widths T.alignments)).intersperse (betweenRows.line widths)
  [top.line widths, rowLine widths T.alignments T.header, belowHeader.line widths] ++ body ++
    [bottom.line widths]

end BoxTable

end LeastSquares
