namespace TreeWalk.Text

-- A line without the carriage return that stands right before its line feed. The characters come
-- last one first.
def dropReturn : List Char → List Char
  | '\r' :: earlier => earlier
  | line => line

def linesFrom (line : List Char) : List Char → List (List Char)
  | [] => if line.isEmpty then [] else [line.reverse]
  | c :: rest =>
      if c = '\n' then (dropReturn line).reverse :: linesFrom [] rest
      else linesFrom (c :: line) rest

-- A line ends at a line feed, with or without a carriage return before it. Nothing after the last
-- line feed is no line.
def lines (text : List Char) : List (List Char) :=
  linesFrom [] text

end TreeWalk.Text
