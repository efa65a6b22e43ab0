namespace Sigma16.Text

/-- Cuts a text after every line feed. A line feed, and a carriage return
    right before it, are no part of the line that they end. What follows the
    last line feed is a line only if it is not empty. -/
def breakLines : List Char → List (List Char)
  | [] => []
  | '\n' :: chars => [] :: breakLines chars
  | '\r' :: '\n' :: chars => [] :: breakLines chars
  | char :: chars =>
    match breakLines chars with
    | [] => [[char]]
    | line :: lines => (char :: line) :: lines

/-- The lines of a text. The empty text has none. -/
def lines (text : String) : List String :=
  (breakLines text.toList).map String.ofList

end Sigma16.Text
