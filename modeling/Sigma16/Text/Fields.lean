namespace Sigma16.Text

/-- The pieces of a text between the occurrences of a separator. There is
    always one piece more than there are separators. -/
def fields (separator : Char) : List Char → List (List Char)
  | [] => [[]]
  | char :: chars =>
    if char = separator then [] :: fields separator chars
    else
      match fields separator chars with
      | [] => [[char]]
      | piece :: pieces => (char :: piece) :: pieces

def isBlank (char : Char) : Bool :=
  let code := char.toNat
  (0x0009 ≤ code && code ≤ 0x000d) || code = 0x0020 || code = 0x0085 || code = 0x00a0
    || code = 0x1680 || (0x2000 ≤ code && code ≤ 0x200a) || code = 0x2028 || code = 0x2029
    || code = 0x202f || code = 0x205f || code = 0x3000

/-- A text without the white space at its ends. -/
def trim (chars : List Char) : List Char :=
  ((chars.dropWhile isBlank).reverse.dropWhile isBlank).reverse

def occursIn (pattern chars : List Char) : Bool :=
  (List.range (chars.length + 1)).any fun start => pattern.isPrefixOf (chars.drop start)

end Sigma16.Text
