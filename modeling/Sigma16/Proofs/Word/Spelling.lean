import Sigma16.Word.Hex
import Mathlib.Data.List.Forall2
import Mathlib.Data.List.TakeWhile
import Mathlib.Data.Nat.Digits.Defs
import Mathlib.Tactic.IntervalCases
import Mathlib.Tactic.Ring

namespace Sigma16.Word

/-- A character is the hexadecimal digit with a given value, in either case. -/
def HexDigit (char : Char) (digit : Nat) : Prop :=
  digit < 16 ∧ (char = digit.digitChar ∨ char = digit.digitChar.toUpper)

instance (char : Char) (digit : Nat) : Decidable (HexDigit char digit) :=
  inferInstanceAs (Decidable (_ ∧ _))

theorem eq_ofNat_of_toNat_eq {char : Char} {code : Nat} (hcode : char.toNat = code) :
    char = Char.ofNat code := by
  rw [← hcode, Char.ofNat_toNat]

theorem hexDigit_of_hexDigit?_eq_some {char : Char} {digit : Nat}
    (hdigit : hexDigit? char = some digit) : HexDigit char digit := by
  -- The bounds leave the characters of three ranges, each with its own value.
  have hrange : (48 ≤ char.toNat ∧ char.toNat ≤ 57) ∨ (97 ≤ char.toNat ∧ char.toNat ≤ 102)
      ∨ (65 ≤ char.toNat ∧ char.toNat ≤ 70) := by
    unfold hexDigit? at hdigit
    split at hdigit
    next hbounds => exact .inl hbounds
    next =>
      split at hdigit
      next hbounds => exact .inr (.inl hbounds)
      next =>
        split at hdigit
        next hbounds => exact .inr (.inr hbounds)
        next => cases hdigit
  rcases hrange with ⟨hlow, hhigh⟩ | ⟨hlow, hhigh⟩ | ⟨hlow, hhigh⟩ <;>
    interval_cases hcode : char.toNat <;>
    (obtain rfl := eq_ofNat_of_toNat_eq hcode
     obtain rfl := Option.some.inj hdigit
     decide)

theorem hexDigit?_eq_some_of_hexDigit {char : Char} {digit : Nat} (hdigit : HexDigit char digit) :
    hexDigit? char = some digit := by
  obtain ⟨hbound, rfl | rfl⟩ := hdigit
  · exact hexDigit?_digitChar hbound
  · decide +revert

theorem hexDigit?_eq_some_iff {char : Char} {digit : Nat} :
    hexDigit? char = some digit ↔ HexDigit char digit :=
  ⟨hexDigit_of_hexDigit?_eq_some, hexDigit?_eq_some_of_hexDigit⟩

/-- Characters are hexadecimal digits that make up a number together with those
    that come before them and have a given value. -/
def ContinuesTo (value : Nat) (chars : List Char) (result : Nat) : Prop :=
  ∃ digits, List.Forall₂ HexDigit chars digits
    ∧ result = value * 16 ^ digits.length + Nat.ofDigits 16 digits.reverse

theorem continuesTo_nil {value result : Nat} : ContinuesTo value [] result ↔ result = value := by
  simp only [ContinuesTo, List.forall₂_nil_left_iff, exists_eq_left, List.length_nil, Nat.pow_zero,
    Nat.mul_one, List.reverse_nil, Nat.ofDigits_nil, Nat.add_zero]

theorem continuesTo_cons {value result : Nat} {char : Char} {chars : List Char} :
    ContinuesTo value (char :: chars) result ↔
      ∃ digit, HexDigit char digit ∧ ContinuesTo (value * 16 + digit) chars result := by
  have hshift (digit : Nat) (digits : List Nat) :
      value * 16 ^ (digit :: digits).length + Nat.ofDigits 16 (digit :: digits).reverse
        = (value * 16 + digit) * 16 ^ digits.length + Nat.ofDigits 16 digits.reverse := by
    rw [Nat.ofDigits_reverse_cons, List.length_cons, Nat.pow_succ]
    ring
  constructor
  · rintro ⟨digits, hdigits, hresult⟩
    cases hdigits with
    | cons hfirst hrest => exact ⟨_, hfirst, _, hrest, by rw [hresult, hshift]⟩
  · rintro ⟨digit, hfirst, digits, hrest, hresult⟩
    exact ⟨digit :: digits, .cons hfirst hrest, by rw [hresult, hshift]⟩

theorem le_of_continuesTo {value result : Nat} {chars : List Char}
    (hresult : ContinuesTo value chars result) : value ≤ result := by
  obtain ⟨digits, -, rfl⟩ := hresult
  exact Nat.le_add_right_of_le (Nat.le_mul_of_pos_right value (Nat.pow_pos (by decide)))

/-- Digits are read one by one, and the reading ends well exactly if all of them
    make up a word. No intermediate value is greater than the last one, so that no
    word is refused on the way. -/
theorem readHex_eq_ok_iff {value result : Nat} {chars : List Char} (hvalue : value < UInt16.size) :
    readHex value chars = .ok result ↔ ContinuesTo value chars result ∧ result < UInt16.size := by
  induction chars generalizing value with
  | nil =>
    simp only [readHex, Except.ok.injEq, continuesTo_nil]
    omega
  | cons char chars ih =>
    simp only [readHex, continuesTo_cons, ← hexDigit?_eq_some_iff]
    cases hexDigit? char with
    | none => simp
    | some digit =>
      simp only [Option.some.injEq, exists_eq_left']
      split
      next hroom => exact ih hroom
      next hfull =>
        simp only [reduceCtorEq, false_iff, not_and, Nat.not_lt]
        intro hresult
        exact Nat.le_trans (Nat.le_of_not_lt hfull) (le_of_continuesTo hresult)

/-- One or more hexadecimal digits, the most significant one first, that make up
    a number. -/
def HexNumber (chars : List Char) (value : Nat) : Prop :=
  ∃ digits, digits ≠ [] ∧ List.Forall₂ HexDigit chars digits ∧ value = Nat.ofDigits 16 digits.reverse

theorem hexNumber_iff_continuesTo {chars : List Char} {value : Nat} :
    HexNumber chars value ↔ chars ≠ [] ∧ ContinuesTo 0 chars value := by
  constructor
  · rintro ⟨digits, hne, hdigits, rfl⟩
    refine ⟨?_, digits, hdigits, by rw [Nat.zero_mul, Nat.zero_add]⟩
    rintro rfl
    cases hdigits
    exact hne rfl
  · rintro ⟨hne, digits, hdigits, hvalue⟩
    rw [Nat.zero_mul, Nat.zero_add] at hvalue
    refine ⟨digits, ?_, hdigits, hvalue⟩
    rintro rfl
    cases hdigits
    exact hne rfl

theorem HexNumber.exists_hexDigit {chars : List Char} {value : Nat} (hnumber : HexNumber chars value)
    {char : Char} (hchar : char ∈ chars) : ∃ digit, HexDigit char digit := by
  obtain ⟨digits, -, hdigits, -⟩ := hnumber
  induction hdigits with
  | nil => cases hchar
  | cons hfirst hrest ih =>
    rcases List.mem_cons.1 hchar with rfl | hrest
    · exact ⟨_, hfirst⟩
    · exact ih hrest

theorem HexNumber.notMem {chars : List Char} {value : Nat} (hnumber : HexNumber chars value)
    {char : Char} (hchar : hexDigit? char = none) : char ∉ chars := by
  intro hmem
  obtain ⟨digit, hdigit⟩ := hnumber.exists_hexDigit hmem
  rw [hexDigit?_eq_some_of_hexDigit hdigit] at hchar
  cases hchar

/-- A number with at most one plus sign in front of its digits. -/
def SignedNumber (chars : List Char) (value : Nat) : Prop :=
  ∃ sign digits, (sign = [] ∨ sign = ['+']) ∧ chars = sign ++ digits ∧ HexNumber digits value

theorem SignedNumber.notMem {chars : List Char} {value : Nat} (hnumber : SignedNumber chars value)
    {char : Char} (hchar : hexDigit? char = none) (hplus : char ≠ '+') : char ∉ chars := by
  obtain ⟨sign, digits, rfl | rfl, rfl, hdigits⟩ := hnumber
  · exact hdigits.notMem hchar
  · exact List.not_mem_cons_of_ne_of_not_mem hplus (hdigits.notMem hchar)

theorem map_readHex_eq_ok_iff {chars : List Char} {word : Word} :
    (readHex 0 chars).map UInt16.ofNat = .ok word ↔ ContinuesTo 0 chars word.toNat := by
  have hread (value : Nat) :
      readHex 0 chars = .ok value ↔ ContinuesTo 0 chars value ∧ value < UInt16.size :=
    readHex_eq_ok_iff (by decide)
  constructor
  · intro hmap
    cases hvalue : readHex 0 chars with
    | error cause => rw [hvalue] at hmap; cases hmap
    | ok value =>
      rw [hvalue] at hmap
      obtain ⟨hnumber, hbound⟩ := (hread value).1 hvalue
      obtain rfl : UInt16.ofNat value = word := Except.ok.inj hmap
      rwa [UInt16.toNat_ofNat_of_lt' hbound]
  · intro hnumber
    rw [(hread word.toNat).2 ⟨hnumber, word.toNat_lt⟩]
    exact congrArg Except.ok UInt16.ofNat_toNat

theorem not_hexNumber_nil (value : Nat) : ¬ HexNumber [] value := by
  simp [hexNumber_iff_continuesTo]

theorem signedNumber_plus_cons_iff {chars : List Char} {value : Nat} :
    SignedNumber ('+' :: chars) value ↔ HexNumber chars value := by
  constructor
  · rintro ⟨sign, digits, rfl | rfl, hchars, hdigits⟩
    · subst hchars
      exact absurd List.mem_cons_self (hdigits.notMem (by decide))
    · obtain ⟨-, rfl⟩ := List.cons.inj hchars
      exact hdigits
  · intro hdigits
    exact ⟨['+'], chars, .inr rfl, rfl, hdigits⟩

theorem signedNumber_iff_of_not_plus {chars : List Char} {value : Nat}
    (hplus : ∀ rest, chars ≠ '+' :: rest) : SignedNumber chars value ↔ HexNumber chars value := by
  constructor
  · rintro ⟨sign, digits, rfl | rfl, hchars, hdigits⟩
    · exact hchars ▸ hdigits
    · exact absurd hchars (hplus digits)
  · intro hdigits
    exact ⟨[], chars, .inl rfl, rfl, hdigits⟩

theorem ofHex_eq_ok_iff {chars : List Char} {word : Word} :
    ofHex chars = .ok word ↔ SignedNumber chars word.toNat := by
  unfold ofHex
  split
  next =>
    rw [signedNumber_iff_of_not_plus (by simp)]
    simp [not_hexNumber_nil]
  next =>
    rw [signedNumber_plus_cons_iff]
    simp [not_hexNumber_nil]
  next rest hrest =>
    rw [map_readHex_eq_ok_iff, signedNumber_plus_cons_iff, hexNumber_iff_continuesTo,
      and_iff_right hrest]
  next hne hlone hplus =>
    rw [map_readHex_eq_ok_iff, signedNumber_iff_of_not_plus hplus, hexNumber_iff_continuesTo,
      and_iff_right hne]

/-- What is left without the marks in front of the digits is preceded by nothing
    but these marks. -/
theorem exists_radixMarks (chars : List Char) :
    ∃ marks dollars, chars = (List.replicate marks ['0', 'x']).flatten
      ++ (List.replicate dollars '$' ++ dropRadixMarks chars) := by
  fun_induction dropRadixMarks chars with
  | case1 chars ih =>
    obtain ⟨marks, dollars, hchars⟩ := ih
    refine ⟨marks + 1, dollars, ?_⟩
    rw [List.replicate_succ, List.flatten_cons, List.append_assoc, ← hchars]
    rfl
  | case2 chars =>
    refine ⟨0, (chars.takeWhile (· = '$')).length, ?_⟩
    have hdollars : List.replicate (chars.takeWhile (· = '$')).length '$'
        = chars.takeWhile (· = '$') := by
      symm
      rw [List.eq_replicate_iff]
      refine ⟨rfl, fun char hchar => ?_⟩
      simpa using List.mem_takeWhile_imp hchar
    rw [hdollars, List.takeWhile_append_dropWhile]
    rfl

/-- The marks in front of a text are dropped if none of them starts what comes
    after them. -/
theorem dropRadixMarks_append {rest : List Char} (hdollar : '$' ∉ rest) (hx : 'x' ∉ rest)
    (marks dollars : Nat) :
    dropRadixMarks ((List.replicate marks ['0', 'x']).flatten
      ++ (List.replicate dollars '$' ++ rest)) = rest := by
  induction marks with
  | zero =>
    have hrest : rest.dropWhile (· = '$') = rest := by
      cases rest with
      | nil => rfl
      | cons char rest => simp_all [eq_comm]
    rw [List.replicate_zero, List.flatten_nil, List.nil_append, dropRadixMarks]
    · rw [List.dropWhile_append_of_pos (by simp), hrest]
    · intro chars hmark
      cases dollars with
      | zero => simp_all
      | succ dollars => simp [List.replicate_succ] at hmark
  | succ marks ih =>
    rw [List.replicate_succ, List.flatten_cons]
    exact ih

/-- The ways to write a number on the command line: any number of `0x`, then any
    number of dollar signs, then at most one plus sign, then the digits. -/
def Spells (text : String) (value : Nat) : Prop :=
  ∃ marks dollars number, text.toList
      = (List.replicate marks ['0', 'x']).flatten ++ (List.replicate dollars '$' ++ number)
    ∧ SignedNumber number value

theorem spells_iff_dropRadixMarks {text : String} {value : Nat} :
    Spells text value ↔ SignedNumber (dropRadixMarks text.toList) value := by
  constructor
  · rintro ⟨marks, dollars, number, htext, hnumber⟩
    have hdollar : '$' ∉ number := hnumber.notMem (by decide) (by decide)
    have hx : 'x' ∉ number := hnumber.notMem (by decide) (by decide)
    rw [htext, dropRadixMarks_append hdollar hx]
    exact hnumber
  · intro hnumber
    obtain ⟨marks, dollars, htext⟩ := exists_radixMarks text.toList
    exact ⟨marks, dollars, _, htext, hnumber⟩

/-- The texts that are read as a word are those that spell it. -/
theorem ofText_eq_ok_iff {text : String} {word : Word} :
    ofText text = .ok word ↔ Spells text word.toNat := by
  rw [ofText, ofHex_eq_ok_iff, spells_iff_dropRadixMarks]

/-- No text spells two words. -/
theorem Spells.unique {text : String} {word other : Word} (hword : Spells text word.toNat)
    (hother : Spells text other.toNat) : word = other := by
  rw [← ofText_eq_ok_iff] at hword hother
  exact Except.ok.inj (hword.symm.trans hother)

/-- The four lower-case hexadecimal digits of a word, the most significant one
    first. -/
def FourDigits (word : Word) (text : String) : Prop :=
  ∃ digits : List Nat, digits.length = 4 ∧ (∀ digit ∈ digits, digit < 16)
    ∧ text = String.ofList (digits.map Nat.digitChar)
    ∧ word.toNat = Nat.ofDigits 16 digits.reverse

theorem fourDigits_toHex (word : Word) : word.FourDigits word.toHex := by
  have hword := word.toNat_lt
  refine ⟨[4096, 256, 16, 1].map (word.toNat / · % 16), rfl, ?_, rfl, ?_⟩
  · exact List.forall_mem_map.2 fun place _ => Nat.mod_lt _ (by decide)
  · simp only [List.map_cons, List.map_nil, List.reverse_cons, List.reverse_nil, List.nil_append,
      List.cons_append, Nat.ofDigits_cons, Nat.ofDigits_nil]
    omega

end Sigma16.Word
