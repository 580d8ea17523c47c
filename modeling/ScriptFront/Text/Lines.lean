/-!
# Lines

Splitting a text into lines. A line feed ends a line, and so does a carriage return with a line feed;
a last line without an end is a line unless it is empty.
-/

namespace ScriptFront.Text

/-- A line read backwards, without the carriage return that stands before its line feed. -/
def dropReturn : List Char → List Char
  | '\r' :: cs => cs
  | cs => cs

/-- The lines of a text whose current line has been read up to here, backwards. -/
def linesFrom : List Char → List Char → List (List Char)
  | [], [] => []
  | line, [] => [line.reverse]
  | line, c :: cs =>
    if c = '\n' then (dropReturn line).reverse :: linesFrom [] cs else linesFrom (c :: line) cs

def lines (cs : List Char) : List (List Char) := linesFrom [] cs

/-- Lines put together with line feeds between them. -/
def unlines : List (List Char) → List Char
  | [] => []
  | [line] => line
  | line :: more => line ++ '\n' :: unlines more

end ScriptFront.Text
