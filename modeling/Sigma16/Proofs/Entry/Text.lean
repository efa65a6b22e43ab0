import Sigma16.Entry
import Sigma16.Proofs.Text.Printable
import Sigma16.Proofs.Text.Separator
import Std.Data.String.ToNat

namespace Sigma16

theorem Format.blank_notMem_label (format : Format) : ' ' ∉ format.label.toList := by
  cases format <;> decide

theorem Format.printable_label (format : Format) : Text.Printable format.label := by
  cases format <;> decide

namespace Entry

/-- The decimal digits that stand for an opcode field. -/
def fieldDigits (field : UInt8) : List Char :=
  Nat.toDigits 10 field.toNat

theorem fieldDigits_injective : Function.Injective fieldDigits := by
  intro field other hdigits
  apply UInt8.toNat_inj.1
  apply Nat.repr_injective
  rw [Nat.repr_eq_ofList_toDigits, Nat.repr_eq_ofList_toDigits]
  exact congrArg String.ofList hdigits

theorem isDigit_of_mem_fieldDigits {field : UInt8} {char : Char}
    (hchar : char ∈ fieldDigits field) : char.isDigit = true :=
  Nat.isDigit_of_mem_toDigits (by decide) (by decide) hchar

theorem toList_opcodeText (entry : Entry) :
    entry.opcodeText.toList = [','].intercalate (entry.opcode.map fieldDigits) := by
  rw [opcodeText, String.toList_intercalate, List.map_map]
  congr 1
  apply List.map_congr_left
  intro field _
  simp [fieldDigits]

/-- The text of opcode fields is made of digits and commas. -/
theorem isDigit_or_eq_comma_of_mem_opcodeText {entry : Entry} {char : Char}
    (hchar : char ∈ entry.opcodeText.toList) : char.isDigit = true ∨ char = ',' := by
  rw [toList_opcodeText] at hchar
  rcases Text.mem_or_mem_of_mem_intercalate hchar with hcomma | ⟨digits, hdigits, hmem⟩
  · exact .inr (List.mem_singleton.1 hcomma)
  · obtain ⟨field, -, rfl⟩ := List.mem_map.1 hdigits
    exact .inl (isDigit_of_mem_fieldDigits hmem)

theorem printable_opcodeText (entry : Entry) : Text.Printable entry.opcodeText := by
  intro char hchar
  rcases isDigit_or_eq_comma_of_mem_opcodeText hchar with hdigit | rfl
  · exact Text.not_isControl_of_isDigit hdigit
  · decide

theorem bracket_notMem_opcodeText (entry : Entry) : '[' ∉ entry.opcodeText.toList := by
  intro hbracket
  rcases isDigit_or_eq_comma_of_mem_opcodeText hbracket with hdigit | hcomma
  · exact absurd hdigit (by decide)
  · exact absurd hcomma (by decide)

/-- The fields are what stands between the commas of their text. -/
theorem splitOn_opcodeText {entry : Entry} (hopcode : entry.opcode ≠ []) :
    entry.opcodeText.toList.splitOn ',' = entry.opcode.map fieldDigits := by
  rw [toList_opcodeText]
  apply List.splitOn_intercalate
  · intro digits hdigits hcomma
    obtain ⟨field, -, rfl⟩ := List.mem_map.1 hdigits
    exact absurd (isDigit_of_mem_fieldDigits hcomma) (by decide)
  · simpa using hopcode

theorem toList_opcodeText_eq_nil_iff {entry : Entry} :
    entry.opcodeText.toList = [] ↔ entry.opcode = [] := by
  constructor
  · intro hempty
    by_contra hopcode
    have hpieces := splitOn_opcodeText hopcode
    obtain ⟨field, fields, hfields⟩ := List.exists_cons_of_ne_nil hopcode
    rw [hempty, hfields, List.map_cons, List.splitOn_nil] at hpieces
    exact Nat.toDigits_ne_nil (List.cons.inj hpieces).1.symm
  · intro hopcode
    rw [toList_opcodeText, hopcode, List.map_nil, List.intercalate_nil]

/-- Different opcode fields have different texts. -/
theorem opcode_eq_of_opcodeText_eq {entry other : Entry}
    (htext : entry.opcodeText.toList = other.opcodeText.toList) : entry.opcode = other.opcode := by
  by_cases hopcode : entry.opcode = []
  · -- The empty text splits into one empty piece, like no list of fields.
    rw [toList_opcodeText_eq_nil_iff.2 hopcode] at htext
    rw [hopcode, toList_opcodeText_eq_nil_iff.1 htext.symm]
  · have hother : other.opcode ≠ [] := by
      rwa [ne_eq, ← toList_opcodeText_eq_nil_iff, ← htext, toList_opcodeText_eq_nil_iff]
    apply List.map_injective_iff.2 fieldDigits_injective
    rw [← splitOn_opcodeText hopcode, ← splitOn_opcodeText hother, htext]

/-- What the text of an entry ends with: the mark of pseudo-instructions, or
    nothing. -/
def mark (pseudo : Bool) : List Char :=
  if pseudo then " pseudo".toList else []

theorem mark_injective : Function.Injective mark := by
  intro pseudo other hmark
  revert pseudo other
  decide

theorem bracket_notMem_mark (pseudo : Bool) : ']' ∉ mark pseudo := by
  cases pseudo <;> decide

/-- The text of an entry up to the bracket that closes its opcode fields. -/
def unmarkedText (entry : Entry) : List Char :=
  (entry.mnemonic.toList ++ ' ' :: entry.format.label.toList ++ [' '])
    ++ '[' :: entry.opcodeText.toList

theorem toList_text (entry : Entry) :
    entry.text.toList = entry.unmarkedText ++ ']' :: mark entry.pseudo := by
  cases hpseudo : entry.pseudo <;> simp [text, unmarkedText, mark, hpseudo]

/-- The text of an entry is read from its end: opcode fields hold no bracket and
    a label holds no blank, so that the last bracket and the last blank before it
    are those of the format, and what is left over is the mnemonic. It may have
    brackets, blanks, labels and marks of its own. -/
theorem text_eq_text_iff {entry other : Entry} :
    entry.text = other.text ↔
      entry.mnemonic = other.mnemonic ∧ entry.format = other.format
        ∧ entry.opcode = other.opcode ∧ entry.pseudo = other.pseudo := by
  constructor
  · intro htext
    have hlists := congrArg String.toList htext
    rw [toList_text, toList_text] at hlists
    obtain ⟨hunmarked, hmark⟩ := Text.append_cons_inj_of_last (bracket_notMem_mark entry.pseudo)
      (bracket_notMem_mark other.pseudo) hlists
    obtain ⟨hfront, hfields⟩ := Text.append_cons_inj_of_last entry.bracket_notMem_opcodeText
      other.bracket_notMem_opcodeText hunmarked
    obtain ⟨hmnemonic, hlabel⟩ := Text.append_cons_inj_of_last entry.format.blank_notMem_label
      other.format.blank_notMem_label (List.append_cancel_right hfront)
    exact ⟨String.toList_inj.1 hmnemonic, Format.label_injective (String.toList_inj.1 hlabel),
      opcode_eq_of_opcodeText_eq hfields, mark_injective hmark⟩
  · rintro ⟨hmnemonic, hformat, hopcode, hpseudo⟩
    simp only [text, opcodeText, hmnemonic, hformat, hopcode, hpseudo]

/-- An instruction whose mnemonic is the text of a pseudo-instruction. -/
example :
    text ⟨"jumpeq JX [15,5,2] pseudo", .rrr, [], false⟩ = "jumpeq JX [15,5,2] pseudo RRR []" := by
  decide

end Entry

end Sigma16
