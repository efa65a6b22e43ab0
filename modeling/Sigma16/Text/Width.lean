namespace Sigma16.Text

/-- The ranges of characters that take no column of their own: combining
    marks, joiners and variation selectors. -/
def zeroWidthRanges : List (Nat × Nat) :=
  [(0x0300, 0x036f), (0x0483, 0x0489), (0x0591, 0x05bd), (0x0610, 0x061a), (0x064b, 0x065f),
    (0x1ab0, 0x1aff), (0x1dc0, 0x1dff), (0x200b, 0x200f), (0x20d0, 0x20ff), (0x302a, 0x302d),
    (0x3099, 0x309a), (0xfe00, 0xfe0f), (0xfe20, 0xfe2f), (0xe0100, 0xe01ef)]

/-- The ranges of characters that take two columns unless they take none:
    ideographs, syllables, full-width forms and pictographs. -/
def doubleWidthRanges : List (Nat × Nat) :=
  [(0x1100, 0x115f), (0x2e80, 0x303e), (0x3041, 0x3247), (0x3250, 0x4dbf), (0x4e00, 0xa4cf),
    (0xa960, 0xa97c), (0xac00, 0xd7a3), (0xf900, 0xfaff), (0xfe30, 0xfe6f), (0xff01, 0xff60),
    (0xffe0, 0xffe6), (0x1f300, 0x1f64f), (0x1f900, 0x1f9ff), (0x20000, 0x2fffd),
    (0x30000, 0x3fffd)]

/-- Whether a character lies in one of some ranges, whose ends are included. -/
def inRanges (ranges : List (Nat × Nat)) (char : Char) : Bool :=
  ranges.any fun (first, last) => first ≤ char.toNat && char.toNat ≤ last

def isControl (char : Char) : Bool :=
  char.toNat < 0x20 || (0x7f ≤ char.toNat && char.toNat < 0xa0)

/-- The number of columns that a character takes. A control character counts
    as one column, whatever a terminal makes of it. -/
def charWidth (char : Char) : Nat :=
  if inRanges zeroWidthRanges char then 0
  else if inRanges doubleWidthRanges char then 2
  else 1

def charsWidth : List Char → Nat
  | [] => 0
  | char :: chars => charWidth char + charsWidth chars

/-- The character that may open a colour sequence. -/
def escape : Char :=
  '\x1b'

/-- Where a line stands with respect to colour sequences. An escape character
    and a bracket open such a sequence, and the letter `m` closes it. -/
inductive ColourState where
  | outside
  | escaped
  | inside
  deriving DecidableEq, Repr

/-- The number of columns that a line takes from a state on. The bracket of a
    colour sequence and what follows it, up to the closing letter or to the
    end, take one column less for every character that is neither a control
    character nor without width. The escape character keeps its column. -/
def widthFrom : ColourState → List Char → Nat
  | _, [] => 0
  | .outside, char :: chars =>
    charWidth char + widthFrom (if char = escape then .escaped else .outside) chars
  | .escaped, char :: chars =>
    if char = '[' then widthFrom .inside chars
    else charWidth char + widthFrom .outside chars
  | .inside, char :: chars =>
    (if isControl char then charWidth char else charWidth char - 1)
      + widthFrom (if char = 'm' then .outside else .inside) chars

/-- The number of columns that a text without line breaks takes. -/
def width (text : String) : Nat :=
  widthFrom .outside text.toList

theorem charsWidth_append (chars others : List Char) :
    charsWidth (chars ++ others) = charsWidth chars + charsWidth others := by
  induction chars with
  | nil => simp [charsWidth]
  | cons char chars ih => rw [List.cons_append, charsWidth, charsWidth, ih, Nat.add_assoc]

theorem charsWidth_replicate {char : Char} (count : Nat) (hchar : charWidth char = 1) :
    charsWidth (List.replicate count char) = count := by
  induction count with
  | zero => rfl
  | succ count ih => rw [List.replicate_succ, charsWidth, hchar, ih, Nat.add_comm]

/-- A text without an escape character takes the columns of its characters. -/
theorem width_eq_charsWidth {text : String} (htext : escape ∉ text.toList) :
    width text = charsWidth text.toList := by
  unfold width
  generalize text.toList = chars at htext
  induction chars with
  | nil => rfl
  | cons char chars ih =>
    simp only [List.mem_cons, not_or] at htext
    obtain ⟨hchar, hchars⟩ := htext
    rw [widthFrom, if_neg (Ne.symm hchar), ih hchars]
    simp [charsWidth]

end Sigma16.Text
