/-!
# Rows — a text as the rows a reader sees

A row ends at a line feed, and a carriage return right before the line
feed belongs to the break. A carriage return anywhere else is part of its
row. After a final line feed there is no further row, so the empty text
has none.

`endedLines` goes the other way: it ends every line, the last one too.
-/

set_option autoImplicit false

namespace CalcSyntax

/-- The rows of a text. -/
def rows : List Char → List (List Char)
  | [] => []
  | '\n' :: cs => [] :: rows cs
  | '\r' :: '\n' :: cs => [] :: rows cs
  | c :: cs =>
    match rows cs with
    | [] => [[c]]
    | row :: below => (c :: row) :: below

/-- Lines as a text in which each line is ended. -/
def endedLines (lines : List String) : String := String.join (lines.map (· ++ "\n"))

end CalcSyntax
